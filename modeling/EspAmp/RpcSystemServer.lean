import EspAmp.RpcSystemSteps

/-!
# The server's steps

A polled request is the next one behind all requests that the server has seen, so it goes
to the end of those that wait. An execution takes the first one that waits, gives its item
back and moves the application by one request. Its answer is the next message of the other
channel, unless there is none.
-/
namespace EspAmp.RpcSystem
open ByteMemory VirtqueueFifo RpmsgPair RpcWire RpcRoundTrip RpmsgPost
open Rpmsg (Ept Msg CbCall msgAt searchEndpoint)
open RpmsgChannel (Held)
open Rpc (serverQueueLen pktSize)
open RpcService (Variant)
open RpmsgLength (rpmsgGetMaxSize maxSize_of_refines)

section Taking
variable {σ ι κ : Type} {w : Wiring σ ι} {app₀ : σ} {s : State σ ι κ}

/-- What `esp_amp_rpc_server_run` takes. -/
theorem recv_cases (w : Wiring σ ι) (s : State σ ι κ) :
    (s.recv w = s ∧ (w.variant = .baremetal ∨ s.queue = [])) ∨
    ∃ r queue, s.queue = r :: queue ∧ s.recv w = { s with task := .taken r, queue := queue } := by
  unfold State.recv
  cases hvariant : w.variant with
  | baremetal => exact Or.inl ⟨rfl, Or.inl rfl⟩
  | freertos os queueLen =>
      cases hqueue : s.queue with
      | nil => exact Or.inl ⟨by simp, Or.inr rfl⟩
      | cons r queue => exact Or.inr ⟨r, queue, rfl, by simp⟩

/-- The server's task takes what it finds first in the queue. -/
theorem Inv.recv (h : Inv w app₀ s) (hidle : s.task = .idle) : Inv w app₀ (s.recv w) := by
  rcases recv_cases w s with ⟨hsame, -⟩ | ⟨r, queue, hqueue, htaken⟩
  · rw [hsame]
    exact h
  · rw [htaken]
    have hwaiting : State.waiting { s with task := .taken r, queue := queue } = s.waiting := by
      simp only [State.waiting, hidle, hqueue, Task.digests, List.nil_append,
        List.singleton_append]
    have htags : s.task.tags = [] := by rw [hidle]; rfl
    exact { h with
      items := by rw [hwaiting]; exact h.items
      kept := by rw [hwaiting]; exact h.kept
      queueless := fun hv => by
        have hnil := h.queueless hv
        rw [hqueue] at hnil
        cases hnil
      places := by
        rw [hwaiting]
        have hplaces := h.places
        rwa [htags] at hplaces
      order := by
        rw [hwaiting]
        have horder := h.order
        rwa [htags] at horder
      servedOrder := by rw [hwaiting]; exact h.servedOrder
      working := fun tag clientAddr msgId cmdId cmd htask => by cases htask }

theorem Inv.lt_of_order (h : Inv w app₀ s) {tag : ℕ}
    (htag : tag ∈ s.answered ++ s.task.tags ++ s.waiting.map Digest.tag) :
    tag < (s.sys.chan w.side).polled.length := by
  rw [← List.mem_range, ← h.places.mem_iff]
  simp only [List.mem_append] at htag ⊢
  tauto

/-- A polled request is left to wait behind the others. -/
theorem Inv.accepted (h : Inv w app₀ s) {ring : Vring} {b : U32} {msg : Msg}
    {e : RpmsgChannel.Polled} {r : Digest} (task : Task) (queue : List Digest)
    (hsys : SysInv w.pair (s.sys.setChan w.side
      (polledChan (s.sys.chan w.side) ring (⟨b, msg, false⟩ :: (s.sys.chan w.side).rxHeld) e)))
    (hsent : (s.sys.chan w.side).sent[r.tag]? = some msg)
    (htag : r.tag = (s.sys.chan w.side).polled.length) (haddr : r.clientAddr = msg.src)
    (hpkt : r.pkt - 8#32 = b) (hwaiting : task.digests ++ queue = s.waiting ++ [r])
    (htags : task.tags = s.task.tags)
    (htask : ∀ tag clientAddr msgId cmdId cmd,
      task = .executed tag clientAddr msgId cmdId cmd → task = s.task)
    (hqueue : w.variant = .baremetal → queue = []) :
    Inv w app₀ { s with
      sys := s.sys.setChan w.side
        (polledChan (s.sys.chan w.side) ring (⟨b, msg, false⟩ :: (s.sys.chan w.side).rxHeld) e)
      task := task
      queue := queue } := by
  have hside : (s.sys.setChan w.side (polledChan (s.sys.chan w.side) ring
      (⟨b, msg, false⟩ :: (s.sys.chan w.side).rxHeld) e)).chan w.side =
      polledChan (s.sys.chan w.side) ring (⟨b, msg, false⟩ :: (s.sys.chan w.side).rxHeld) e :=
    Function.update_self ..
  have hother : (s.sys.setChan w.side (polledChan (s.sys.chan w.side) ring
      (⟨b, msg, false⟩ :: (s.sys.chan w.side).rxHeld) e)).chan w.side.other =
      s.sys.chan w.side.other := Function.update_of_ne (Side.other_ne w.side) ..
  have hwait : ∀ sys, State.waiting { s with sys := sys, task := task, queue := queue } =
      s.waiting ++ [r] := fun _ => hwaiting
  have hlen : (polledChan (s.sys.chan w.side) ring (⟨b, msg, false⟩ ::
      (s.sys.chan w.side).rxHeld) e).polled.length = (s.sys.chan w.side).polled.length + 1 :=
    List.length_append
  exact {
    sys := hsys
    serverEpts := by rw [hside]; exact h.serverEpts
    clientEpts := by rw [hother]; exact h.clientEpts
    cmds := h.cmds
    requests := by rw [hside]; exact h.requests
    responses := by rw [hother]; exact h.responses
    items := by
      rw [hside, hwait, List.map_append, List.map_singleton, hpkt]
      exact (List.perm_append_singleton b _).trans (h.items.cons b)
    kept := fun r' hr' => by
      rw [hwait, List.mem_append, List.mem_singleton] at hr'
      rw [hside]
      rcases hr' with hr' | rfl
      · obtain ⟨msg', hmsg', hsrc, hheld⟩ := h.kept r' hr'
        exact ⟨msg', hmsg', hsrc, List.mem_cons_of_mem _ hheld⟩
      · exact ⟨msg, hsent, haddr, hpkt ▸ List.mem_cons_self⟩
    returned := by rw [hother]; exact h.returned
    queueless := hqueue
    places := by
      rw [hside, hlen, hwait, htags, List.map_append, List.map_singleton, htag, List.range_succ,
        ← List.append_assoc]
      exact h.places.append_right _
    order := by
      rw [hwait, htags, List.map_append, List.map_singleton, ← List.append_assoc]
      refine List.pairwise_append.mpr ⟨h.order, List.pairwise_singleton .., fun tag hmem n hn => ?_⟩
      rw [List.mem_singleton.mp hn, htag]
      exact h.lt_of_order hmem
    served := fun e' he' => by
      obtain ⟨hlt, hcall⟩ := h.served e' he'
      rw [hside, hlen]
      exact ⟨by omega, hcall⟩
    servedOrder := by
      rw [hwait, List.map_append, List.map_singleton, ← List.append_assoc]
      refine List.pairwise_append.mpr
        ⟨h.servedOrder, List.pairwise_singleton .., fun tag hmem n hn => ?_⟩
      rw [List.mem_singleton.mp hn, htag]
      rcases List.mem_append.mp hmem with hmem | hmem
      · obtain ⟨e', he', rfl⟩ := List.mem_map.mp hmem
        exact (h.served e' he').1
      · exact h.lt_of_order (List.mem_append_right _ hmem)
    app := h.app
    working := fun tag clientAddr msgId cmdId cmd heq =>
      h.working _ _ _ _ _ ((htask _ _ _ _ _ heq).symm.trans heq)
    clients := h.clients
    calls := h.calls
    completed := by rw [hother]; exact h.completed }

/-- A polled request that finds the queue full is dropped, and its item goes back. -/
theorem Inv.refused (h : Inv w app₀ s) {ring : Vring} {e : RpmsgChannel.Polled} {tag : ℕ}
    (hsys : SysInv w.pair (s.sys.setChan w.side
      (polledChan (s.sys.chan w.side) ring (s.sys.chan w.side).rxHeld e)))
    (htag : tag = (s.sys.chan w.side).polled.length) :
    Inv w app₀ { s with
      sys := s.sys.setChan w.side
        (polledChan (s.sys.chan w.side) ring (s.sys.chan w.side).rxHeld e)
      dropped := s.dropped ++ [tag] } := by
  have hside : (s.sys.setChan w.side (polledChan (s.sys.chan w.side) ring
      (s.sys.chan w.side).rxHeld e)).chan w.side =
      polledChan (s.sys.chan w.side) ring (s.sys.chan w.side).rxHeld e := Function.update_self ..
  have hother : (s.sys.setChan w.side (polledChan (s.sys.chan w.side) ring
      (s.sys.chan w.side).rxHeld e)).chan w.side.other = s.sys.chan w.side.other :=
    Function.update_of_ne (Side.other_ne w.side) ..
  have hlen : (polledChan (s.sys.chan w.side) ring (s.sys.chan w.side).rxHeld
      e).polled.length = (s.sys.chan w.side).polled.length + 1 := List.length_append
  exact { h with
    sys := hsys
    serverEpts := by rw [hside]; exact h.serverEpts
    clientEpts := by rw [hother]; exact h.clientEpts
    requests := by rw [hside]; exact h.requests
    responses := by rw [hother]; exact h.responses
    items := by rw [hside]; exact h.items
    kept := by rw [hside]; exact h.kept
    returned := by rw [hother]; exact h.returned
    places := by
      rw [hside, hlen, htag, List.range_succ]
      refine .trans ?_ (h.places.append_right _)
      simp only [List.append_assoc]
      refine List.Perm.append_left _ (List.Perm.append_left _ ?_)
      refine (List.perm_append_singleton _ (s.task.tags ++ s.waiting.map Digest.tag)).symm.trans ?_
      rw [List.append_assoc]
    served := fun e' he' => by
      obtain ⟨hlt, hcall⟩ := h.served e' he'
      rw [hside, hlen]
      exact ⟨by omega, hcall⟩
    completed := by rw [hother]; exact h.completed }

theorem requests_polled (h : Inv w app₀ s) : ∀ msg ∈ (s.sys.chan w.side).sent, ∃ ept cb,
    searchEndpoint (s.sys.chan w.side).epts msg.dst = some ept ∧ ept.rxCb = some cb := by
  intro msg hmsg
  obtain ⟨n, hn⟩ := List.mem_iff_getElem?.mp hmsg
  obtain ⟨c, -, hreq⟩ := exists_of_forall₂ h.requests hn
  obtain ⟨hfound, hcb⟩ := w.serverFound
  obtain ⟨cb, hcb⟩ := Option.isSome_iff_exists.mp hcb
  refine ⟨w.server.rpmsgEpt, cb, ?_, hcb⟩
  rw [hreq.dst, h.serverEpts]
  exact hfound

/-- `server_cb` leaves the message to wait or destroys it. -/
theorem Inv.serverCb (h : Inv w app₀ s) (hidle : w.variant = .baremetal → s.task = .idle)
    {ring : Vring} {b : U32} {msg : Msg} {e : RpmsgChannel.Polled}
    (hsys : SysInv w.pair (s.sys.setChan w.side
      (polledChan (s.sys.chan w.side) ring (⟨b, msg, false⟩ :: (s.sys.chan w.side).rxHeld) e)))
    (hsent : (s.sys.chan w.side).sent[(s.sys.chan w.side).polled.length]? = some msg) :
    Inv w app₀ (State.serverCb w { s with
      sys := s.sys.setChan w.side (polledChan (s.sys.chan w.side) ring
        (⟨b, msg, false⟩ :: (s.sys.chan w.side).rxHeld) e) }
      ⟨(s.sys.chan w.side).polled.length, msg.src, b + 8#32⟩) := by
  let r : Digest := ⟨(s.sys.chan w.side).polled.length, msg.src, b + 8#32⟩
  have hpkt : r.pkt - 8#32 = b := BitVec.add_sub_cancel ..
  unfold State.serverCb
  cases hvariant : w.variant with
  | baremetal =>
      have hwait : s.waiting = [] := by
        rw [State.waiting, hidle hvariant, h.queueless hvariant]
        rfl
      exact h.accepted (r := r) (.taken r) s.queue hsys hsent rfl rfl hpkt
        (by rw [hwait, h.queueless hvariant]; rfl) (by rw [hidle hvariant]; rfl)
        (fun tag clientAddr msgId cmdId cmd heq => by cases heq) fun _ => h.queueless hvariant
  | freertos os queueLen =>
      by_cases hroom : s.queue.length < serverQueueLen queueLen
      · have hsend := Rpc.envQueueSend_of_room os
          (⟨(s.sys.chan w.side).polled.length, msg.src, b + 8#32⟩ : Digest) hroom
        simp only [hsend, if_true]
        exact h.accepted (r := r) s.task _ hsys hsent rfl rfl hpkt
          (by rw [State.waiting, List.append_assoc]) rfl (fun _ _ _ _ _ _ => rfl)
          fun hv => by rw [hvariant] at hv; cases hv
      · have hsend := Rpc.envQueueSend_of_full os
          (⟨(s.sys.chan w.side).polled.length, msg.src, b + 8#32⟩ : Digest) hroom
        have hfail : ¬ (-1 : Int) = 0 := by decide
        simp only [hsend, if_neg hfail]
        have hsys' : SysInv w.pair (s.sys.setChan w.side.other.other
            (polledChan (s.sys.chan w.side.other.other) ring
              (⟨b, msg, false⟩ :: (s.sys.chan w.side.other.other).rxHeld) e)) := by
          rw [Side.other_other]
          exact hsys
        obtain ⟨hgone, ring', hexec⟩ := destroy_polled hsys'
        rw [Side.other_other] at hexec hgone
        rw [hexec] at hgone ⊢
        exact h.refused hgone rfl

theorem Inv.pollServer (h : Inv w app₀ s) (hidle : w.variant = .baremetal → s.task = .idle) :
    Inv w app₀ (s.pollServer w) := by
  have hpolled : SysInv w.pair (s.sys.exec w.pair w.side.other .poll) := h.sys.exec trivial
  have hpoll := poll_cases (d := w.side.other) h.sys
    (by rw [Side.other_other]; exact requests_polled h)
  rw [Side.other_other] at hpoll
  unfold State.pollServer
  rcases hpoll with ⟨hcalls, -, ring, hexec⟩ |
    ⟨b, -, msg, ept, cb, ring, hsent, hmsg, -, hcalls, hexec⟩
  · rw [hexec] at hpolled
    rw [hcalls, hexec]
    refine h.of_rings hpolled rfl fun d => ?_
    by_cases hd : d = w.side
    · subst hd
      exact ⟨ring, Function.update_self ..⟩
    · exact ⟨(s.sys.chan d).ring, Function.update_of_ne hd ..⟩
  · rw [hexec] at hpolled
    rw [hcalls, hexec]
    exact h.serverCb hidle hpolled hsent

end Taking

section Executing
variable {σ ι κ : Type} {w : Wiring σ ι} {app₀ : σ} {s : State σ ι κ} {r : Digest}

theorem map_buffer_eraseP (held : List Held) (b : U32) :
    (held.eraseP fun k => k.buffer == b).map Held.buffer = (held.map Held.buffer).erase b := by
  rw [List.erase_eq_eraseP', List.eraseP_map]
  rfl

/-- A request that waits is that of its call, in an item of the channel. -/
theorem Inv.taken_request (h : Inv w app₀ s) (hr : r ∈ s.waiting) :
    ∃ c msg, s.calls[r.tag]? = some c ∧ (s.sys.chan w.side).sent[r.tag]? = some msg ∧
      r.clientAddr = (w.clientEpt c.client).addr ∧ pktAt s.sys.mem r.pkt = c.req ∧
      ⟨r.pkt - 8#32, msg, false⟩ ∈ (s.sys.chan w.side).rxHeld := by
  obtain ⟨msg, hsent, hsrc, hheld⟩ := h.kept r hr
  obtain ⟨c, hcall, hreq⟩ := exists_of_forall₂ h.requests hsent
  obtain ⟨-, hmsg⟩ := held_msg h.sys hheld rfl
  have hpkt := hreq.packet s.sys.mem (r.pkt - 8#32) hmsg
  rw [BitVec.sub_add_cancel] at hpkt
  exact ⟨c, msg, hcall, hsent, hsrc.trans hreq.src, hpkt, hheld⟩

/-- Only the buffers of the server are stored to. -/
theorem itemsKept_of_buffers {mem mem' : Memory 32}
    (hm : ∀ x, ¬ Within w.server.reqBuf w.server.reqBufLen.toNat x →
      ¬ Within w.server.respBuf w.server.respBufLen.toNat x → mem' x = mem x) :
    ItemsKept w.pair mem mem' := by
  intro d b hb x hx
  refine hm x (fun hreq => ?_) fun hresp => ?_
  · exact w.reqBuf_apart d b hb x hreq hx
  · exact w.respBuf_apart d b hb x hresp hx

/-- The channel of the requests after the item of a request was given back. -/
def givenBack (c : RpmsgChannel.Chan) (ring : Vring) (b : U32) : RpmsgChannel.Chan :=
  { c with ring := ring, rxHeld := c.rxHeld.eraseP fun k => k.buffer == b }

/-- Requests that wait behind one whose item is given back stay where they are. -/
theorem Inv.kept_givenBack (h : Inv w app₀ s) {queue : List Digest}
    (hwaiting : s.waiting = r :: queue) (ring : Vring) :
    (queue.map fun r => r.pkt - 8#32).Perm
        ((givenBack (s.sys.chan w.side) ring (r.pkt - 8#32)).rxHeld.map Held.buffer) ∧
      ∀ r' ∈ queue, Kept (givenBack (s.sys.chan w.side) ring (r.pkt - 8#32)) r' := by
  have hitems := h.items
  rw [hwaiting, List.map_cons] at hitems
  refine ⟨?_, fun r' hr' => ?_⟩
  · simp only [givenBack]
    rw [map_buffer_eraseP]
    have herase := hitems.erase (r.pkt - 8#32)
    rwa [List.erase_cons_head] at herase
  · obtain ⟨msg, hsent, hsrc, hheld⟩ := h.kept r' (hwaiting ▸ List.mem_cons_of_mem _ hr')
    have hnodup := hitems.nodup_iff.mpr (held_nodup h.sys)
    have hne : ¬ r'.pkt - 8#32 = r.pkt - 8#32 := fun heq =>
      (List.nodup_cons.mp hnodup).1 (heq ▸ List.mem_map_of_mem hr')
    refine ⟨msg, hsent, hsrc, ?_⟩
    exact (List.mem_eraseP_of_neg (by simpa using hne)).mpr hheld

/-- The first request that waits is executed on what the ones before it have left. -/
theorem Inv.executed (h : Inv w app₀ s) (htask : s.task = .taken r) {c : Call ι κ}
    (hcall : s.calls[r.tag]? = some c) (haddr : r.clientAddr = (w.clientEpt c.client).addr)
    {ring : Vring} {mem' : Memory 32} {cmd : CmdBlock}
    (hsys : SysInv w.pair { s.sys.setChan w.side
      (givenBack (s.sys.chan w.side) ring (r.pkt - 8#32)) with mem := mem' })
    (hready : Ready w mem' (w.application.step s.app c.req).1 cmd) :
    Inv w app₀ { s with
      sys := { s.sys.setChan w.side (givenBack (s.sys.chan w.side) ring (r.pkt - 8#32)) with
        mem := mem' }
      app := (w.application.step s.app c.req).2
      task := .executed r.tag r.clientAddr c.req.msgId c.req.cmdId cmd
      served := s.served ++ [(r.tag, c.req)] } := by
  have hwaiting : s.waiting = r :: s.queue := by
    rw [State.waiting, htask]
    rfl
  have htags : s.task.tags = [] := by rw [htask]; rfl
  have hside : ∀ mem', Sys.chan { s.sys.setChan w.side
      (givenBack (s.sys.chan w.side) ring (r.pkt - 8#32)) with mem := mem' } w.side =
      givenBack (s.sys.chan w.side) ring (r.pkt - 8#32) := fun _ => Function.update_self ..
  have hother : ∀ mem', Sys.chan { s.sys.setChan w.side
      (givenBack (s.sys.chan w.side) ring (r.pkt - 8#32)) with mem := mem' } w.side.other =
      s.sys.chan w.side.other := fun _ => Function.update_of_ne (Side.other_ne w.side) ..
  obtain ⟨hitems, hkept⟩ := h.kept_givenBack hwaiting ring
  have hlt : r.tag < (s.sys.chan w.side).polled.length := h.lt_of_order (by
    rw [hwaiting]
    simp)
  exact {
    sys := hsys
    serverEpts := by rw [hside]; exact h.serverEpts
    clientEpts := by rw [hother]; exact h.clientEpts
    cmds := h.cmds
    requests := by rw [hside]; exact h.requests
    responses := by
      rw [hother]
      refine h.responses.imp fun msg tag hm => ?_
      simpa using hm.mono [] [(r.tag, c.req)]
    items := by rw [hside]; exact hitems
    kept := by rw [hside]; exact hkept
    returned := by rw [hother]; exact h.returned
    queueless := h.queueless
    places := by
      have hplaces := h.places
      rw [htags, hwaiting] at hplaces
      rw [hside]
      simpa [State.waiting, Task.tags, Task.digests, givenBack] using hplaces
    order := by
      have horder := h.order
      rw [htags, hwaiting] at horder
      simpa [State.waiting, Task.tags, Task.digests] using horder
    served := fun e he => by
      rw [hside]
      rcases List.mem_append.mp he with he | he
      · exact h.served e he
      · obtain rfl := List.mem_singleton.mp he
        exact ⟨hlt, c, hcall, rfl⟩
    servedOrder := by
      have horder := h.servedOrder
      rw [hwaiting] at horder
      simpa [State.waiting, Task.digests] using horder
    app := by
      rw [List.map_append, List.map_singleton, ReplyMachine.Machine.final_append, ← h.app]
    working := fun tag clientAddr msgId cmdId cmd' heq => by
      obtain ⟨rfl, rfl, rfl, rfl, rfl⟩ := Task.executed.inj heq
      exact ⟨c, _, hcall, ⟨s.served, c.req, [], rfl, by rw [← h.app]⟩, haddr, rfl, rfl, hready⟩
    clients := h.clients
    calls := h.calls
    completed := by rw [hother]; exact h.completed }

theorem Inv.exec (h : Inv w app₀ s) (htask : s.task = .taken r) : Inv w app₀ (s.exec w r) := by
  have hwaiting : s.waiting = r :: s.queue := by
    rw [State.waiting, htask]
    rfl
  obtain ⟨c, msg, hcall, hsent, haddr, hpkt, hheld⟩ := h.taken_request
    (r := r) (hwaiting ▸ List.mem_cons_self)
  obtain ⟨happ, hids, hready, hmem⟩ := execCmd_answers w s.app s.sys.mem r.pkt
  have hdestroy := destroy_spec (d := w.side.other) h.sys r.pkt
  rw [Side.other_other] at hdestroy
  obtain ⟨hgone, ring, hexec⟩ := hdestroy (List.mem_map_of_mem hheld)
  rw [hexec] at hgone
  have hsys := sysInv_of_itemsKept hgone (itemsKept_of_buffers (w := w) hmem)
  rw [hpkt] at happ hids hready
  have hstate := h.executed htask hcall haddr hsys hready
  simp only [State.exec, hexec, happ, hids, hpkt]
  exact hstate

end Executing

section Answering
variable {σ ι κ : Type} {w : Wiring σ ι} {app₀ : σ} {s : State σ ι κ} {tag : ℕ}
  {clientAddr msgId cmdId : U16} {cmd : CmdBlock}

/-- An executed request without an answer is dropped. -/
theorem Inv.silent (h : Inv w app₀ s) (htask : s.task = .executed tag clientAddr msgId cmdId cmd) :
    Inv w app₀ { s with task := .idle, dropped := s.dropped ++ [tag] } := by
  have hwaiting : s.waiting = s.queue := by
    rw [State.waiting, htask]
    rfl
  have htags : s.task.tags = [tag] := by rw [htask]; rfl
  have hwait : State.waiting { s with task := .idle, dropped := s.dropped ++ [tag] } = s.waiting :=
    hwaiting.symm
  exact { h with
    items := by rw [hwait]; exact h.items
    kept := by rw [hwait]; exact h.kept
    places := by
      have hplaces := h.places
      rw [htags] at hplaces
      rw [hwait]
      simpa [Task.tags] using hplaces
    order := by
      have horder := h.order
      rw [htags] at horder
      rw [hwait]
      refine horder.sublist ?_
      simp [Task.tags]
    servedOrder := by rw [hwait]; exact h.servedOrder
    working := fun _ _ _ _ _ heq => by cases heq }

/-- The answer to an executed request is the last message of the channel to the clients. -/
theorem Inv.replied (h : Inv w app₀ s) (htask : s.task = .executed tag clientAddr msgId cmdId cmd)
    {ring : Vring} {mem' : Memory 32} {msg : Msg}
    (hmsg : IsResponse w app₀ s.calls s.served msg tag)
    (hsys : SysInv w.pair (post s.sys w.side.other ring mem' (some msg))) :
    Inv w app₀ { s with
      sys := post s.sys w.side.other ring mem' (some msg)
      task := .idle
      answered := s.answered ++ [tag] } := by
  have hwaiting : s.waiting = s.queue := by
    rw [State.waiting, htask]
    rfl
  have htags : s.task.tags = [tag] := by rw [htask]; rfl
  have hwait : State.waiting { s with
      sys := post s.sys w.side.other ring mem' (some msg)
      task := .idle
      answered := s.answered ++ [tag] } = s.waiting := hwaiting.symm
  have hside := post_other (s := s.sys) (d := w.side.other) ring mem' (some msg)
  rw [Side.other_other] at hside
  have hother := post_chan (s := s.sys) (d := w.side.other) ring mem' (some msg)
  exact {
    sys := hsys
    serverEpts := by rw [hside]; exact h.serverEpts
    clientEpts := by rw [hother]; exact h.clientEpts
    cmds := h.cmds
    requests := by rw [hside]; exact h.requests
    responses := by
      rw [hother]
      exact List.rel_append h.responses (.cons hmsg .nil)
    items := by rw [hside, hwait]; exact h.items
    kept := by rw [hside, hwait]; exact h.kept
    returned := by rw [hother]; exact h.returned
    queueless := h.queueless
    places := by
      have hplaces := h.places
      rw [htags] at hplaces
      rw [hside, hwait]
      refine .trans ?_ hplaces
      simp only [Task.tags, List.append_nil, List.append_assoc]
      refine List.Perm.append_left _ ?_
      rw [← List.append_assoc, ← List.append_assoc]
      exact List.perm_append_comm.append_right _
    order := by
      have horder := h.order
      rw [htags] at horder
      rw [hwait]
      simpa [Task.tags] using horder
    served := by rw [hside]; exact h.served
    servedOrder := by rw [hwait]; exact h.servedOrder
    app := h.app
    working := fun _ _ _ _ _ heq => by cases heq
    clients := h.clients
    calls := h.calls
    completed := by
      rw [hother, List.take_append]
      exact h.completed.trans (List.sublist_append_left ..) }

/-- An answer is sent when the handler wants one and an item is free, and shows what the
application answers. -/
theorem respond_cases (h : Inv w app₀ s)
    (htask : s.task = .executed tag clientAddr msgId cmdId cmd) :
    let r := sendResponse w.server ⟨s.app, Machine.of s.sys.mem, cmd⟩ msgId cmdId
      (s.sys.chan w.side.other).ring clientAddr
    (r.sent = none ∧ r.m.mem = s.sys.mem ∧
      SysInv w.pair (post s.sys w.side.other r.ring r.m.mem none)) ∨
    ∃ b, r.sent = some (b + 8#32) ∧
      IsResponse w app₀ s.calls s.served (msgAt r.m.mem b) tag ∧
      SysInv w.pair (post s.sys w.side.other r.ring r.m.mem (some (msgAt r.m.mem b))) := by
  intro r
  obtain ⟨t, ht⟩ := h.sys w.side.other
  obtain ⟨c, out, hcall, hout, haddr, rfl, rfl, hready⟩ := h.working _ _ _ _ _ htask
  have hroom := w.room
  have hitem := (w.pair.link w.side.other).itemSize.isLt
  have hmax : (rpmsgGetMaxSize (s.sys.chan w.side.other).ring.master).toNat =
      (w.pair.link w.side.other).itemSize.toNat - 8 := by
    rw [maxSize_of_refines ht.refines]
    omega
  by_cases hsilent : cmd.respLen = 0
  · have hr : r = ⟨_, _, _, none⟩ := sendResponse_of_silent hsilent
    rw [hr]
    exact .inl ⟨rfl, rfl, (post_self s.sys w.side.other).symm ▸ h.sys⟩
  · by_cases hnull : (createMessage (s.sys.chan w.side.other).ring (Machine.of s.sys.mem)
        ((rpmsgGetMaxSize (s.sys.chan w.side.other).ring.master).setWidth 32)).buf = 0
    · have hr : r = ⟨_, _, _, none⟩ := sendResponse_of_null rfl hsilent hnull
      obtain ⟨hmem, hsys⟩ := post_none h.sys (by rw [BitVec.toNat_setWidth, hmax]; omega) hnull
      rw [hr]
      exact .inl ⟨rfl, hmem, hsys⟩
    · have hlen : 8 + (responseLen (rpmsgGetMaxSize (s.sys.chan w.side.other).ring.master)
          cmd.respLen).toNat ≤ ((rpmsgGetMaxSize
            (s.sys.chan w.side.other).ring.master).setWidth 32).toNat := by
        rw [responseLen, toNat_cutTo, BitVec.toNat_setWidth, BitVec.toNat_sub, hmax,
          show pktSize.toNat = 8 from rfl]
        omega
      have hne : out.2 ≠ [] := fun hnil => hsilent (by rw [hready.respLen, hnil]; rfl)
      have hfree := ((createMessage_max_iff (w.pair.placed _) ht.refines
        (fun b hb => ht.mem_addrs_of_free hb) (Machine.of s.sys.mem)).mp hnull).2
      obtain ⟨b, hsent, hpkt⟩ : ∃ b, r.sent = some (b + 8#32) ∧
          Sent (w.pair.link w.side.other) s.sys.mem r.m.mem b w.server.rpmsgEpt.addr clientAddr
            { response (w.pair.link w.side.other).itemSize c.req out with status := cmd.status } :=
        sendResponse_spec (w.pair.placed _) ht.refines (fun b hb => ht.mem_addrs_of_free hb) hfree
        hroom w.server c.req.msgId c.req.cmdId clientAddr hne
        (hready.length_le.trans_lt w.server.respBufLen.isLt) hready.respLen
        (by rw [hready.respData]; exact hready.bytes)
        (by
          rw [hready.respData]
          exact fun b hb x hx => w.respBuf_apart _ b hb x (hx.mono hready.length_le))
      rw [hready.status] at hpkt
      have hr : r = _ := sendResponse_of_created w.server c.req.msgId c.req.cmdId clientAddr rfl
        hsilent rfl hnull
      have hsys := post_some (d := w.side.other) h.sys
        (by rw [BitVec.toNat_setWidth, hmax]; omega) hnull w.server.rpmsgEpt clientAddr c.req.msgId
        c.req.cmdId cmd.status _ hlen cmd.respData
      have hbuf : (createMessage (s.sys.chan w.side.other).ring (Machine.of s.sys.mem)
          ((rpmsgGetMaxSize (s.sys.chan w.side.other).ring.master).setWidth 32)).buf =
          b + 8#32 := by
        have hsome : r.sent = some (b + 8#32) := hsent
        rw [hr] at hsome
        exact Option.some.inj hsome
      have hitem : b = (createMessage (s.sys.chan w.side.other).ring (Machine.of s.sys.mem)
          ((rpmsgGetMaxSize (s.sys.chan w.side.other).ring.master).setWidth 32)).buf - 8#32 := by
        rw [hbuf, BitVec.add_sub_cancel]
      refine .inr ⟨b, hsent, ⟨c, out, hcall, hout, ?_, shows_of_sent hpkt⟩, ?_⟩
      · exact hpkt.destination.trans haddr
      · rw [hr, hitem]
        exact hsys

theorem Inv.respond (h : Inv w app₀ s)
    (htask : s.task = .executed tag clientAddr msgId cmdId cmd) :
    Inv w app₀ (s.respond w tag clientAddr msgId cmdId cmd) := by
  rcases respond_cases h htask with ⟨hsent, hmem, hsys⟩ | ⟨b, hsent, hresp, hsys⟩
  · simp only [State.respond, hsent, Option.isSome_none, Bool.false_eq_true, if_false,
      Option.map_none]
    exact Inv.silent (h.of_rings hsys hmem (post_none_chan s.sys w.side.other _ _)) htask
  · simp only [State.respond, hsent, Option.isSome_some, if_true, Option.map_some,
      BitVec.add_sub_cancel]
    exact h.replied htask hresp hsys

end Answering
end EspAmp.RpcSystem
