import EspAmp.RpcSystemServer

/-!
# Runs of clients and server

A poll of the clients' core hands the next response to the client of its call, which stores
what it has room for if it still waits for it. All steps keep the order of the channels, so
in every run the application goes through the requests one after the other, each at most
once and in the order of the calls, and a command is completed with the answer to its own
request only.
-/
namespace EspAmp.RpcSystem
open ByteMemory VirtqueueFifo RpmsgPair RpcWire RpcRoundTrip RpmsgPost
open Rpmsg (Ept Msg CbCall msgAt searchEndpoint)
open RpmsgChannel (Held Placed)
open Rpc (Client serverQueueLen)
open RpcService (Variant)

section Polling
variable {σ ι κ : Type} {w : Wiring σ ι} {app₀ : σ} {s : State σ ι κ}

theorem responses_polled (h : Inv w app₀ s) : ∀ msg ∈ (s.sys.chan w.side.other).sent, ∃ ept cb,
    searchEndpoint (s.sys.chan w.side.other).epts msg.dst = some ept ∧ ept.rxCb = some cb := by
  intro msg hmsg
  obtain ⟨n, hn⟩ := List.mem_iff_getElem?.mp hmsg
  obtain ⟨tag, -, c, out, -, -, hdst, -⟩ := exists_of_forall₂ h.responses hn
  obtain ⟨hfound, hcb⟩ := w.clientFound c.client
  obtain ⟨cb, hcb⟩ := Option.isSome_iff_exists.mp hcb
  refine ⟨w.clientEpt c.client, cb, ?_, hcb⟩
  rw [hdst, h.clientEpts]
  exact hfound

variable [DecidableEq κ]

/-- A poll finds nothing, or it hands the next response to the client of its call. -/
theorem pollClient_cases (h : Inv w app₀ s) :
    (pollCalls s.sys w.side = [] ∧
      (s.sys.chan w.side.other).sent.length = (s.sys.chan w.side.other).polled.length ∧
      ∃ ring, s.pollClient w = { s with
      sys := s.sys.setChan w.side.other { s.sys.chan w.side.other with ring := ring } } ∧
      SysInv w.pair (s.pollClient w).sys) ∨
    ∃ tag c out data ring e,
      s.answered[(s.sys.chan w.side.other).polled.length]? = some tag ∧
      s.calls[tag]? = some c ∧ Replied w app₀ s.served tag out ∧ data ≠ 0 ∧
      pktAt s.sys.mem data = response (w.pair.link w.side.other).itemSize c.req out ∧
      SysInv w.pair (s.sys.setChan w.side.other (polledChan (s.sys.chan w.side.other) ring [] e)) ∧
      let r := RpcWire.clientCb (s.clients c.client) s.cmds (Machine.of s.sys.mem) data
      s.pollClient w = { s with
        sys := { s.sys.setChan w.side.other
          (polledChan (s.sys.chan w.side.other) ring [] e) with mem := r.m.mem }
        cmds := r.cmds
        completed :=
          if Waits (s.clients c.client) s.sys.mem data then s.completed ++ [tag]
          else s.completed } := by
  have hpolled : SysInv w.pair (s.sys.exec w.pair w.side .poll) := h.sys.exec trivial
  unfold State.pollClient
  rcases poll_cases h.sys (responses_polled h) with ⟨hcalls, hlen, ring, hexec⟩ |
    ⟨b, hb, msg, ept, cb, ring, hsent, hmsg, hept, hcalls, hexec⟩
  · rw [hexec] at hpolled
    rw [hcalls, hexec]
    exact .inl ⟨rfl, hlen, ring, rfl, hpolled⟩
  · obtain ⟨tag, htag, c, out, hcall, hout, hdst, hshows⟩ := exists_of_forall₂ h.responses hsent
    rw [hexec] at hpolled
    obtain rfl : w.clientEpt c.client = ept := by
      rw [hdst, h.clientEpts] at hept
      exact Option.some.inj ((w.clientFound c.client).1.symm.trans hept)
    have hdata : b + 8#32 ≠ 0 := (w.pair.placed _).data_ne_zero hb (by
      have hroom := w.room
      omega)
    obtain ⟨hgone, ring', hdestroy⟩ := destroy_polled hpolled
    rw [h.returned] at hdestroy hgone
    rw [hdestroy] at hgone
    refine .inr ⟨tag, c, out, b + 8#32, ring', _, htag, hcall, hout, hdata, ?_, hgone, ?_⟩
    · exact hshows s.sys.mem b hmsg
    · rw [hcalls, hexec, h.returned]
      simp only [w.clientAt_data, State.clientCb, htag, Option.toList_some]
      simp only [polledChan] at hdestroy
      rw [hdestroy]
      rfl

/-- A callback that does not wait for the packet changes nothing. -/
theorem clientCb_of_not_waits {client : Client κ} (cmds : κ → CmdBlock) {mem : Memory 32}
    {data : U32} (hrunning : client.running = true) (hdata : data ≠ 0)
    (hwaits : ¬ Waits client mem data) :
    (RpcWire.clientCb client cmds (Machine.of mem) data).cmds = cmds ∧
      (RpcWire.clientCb client cmds (Machine.of mem) data).m.mem = mem := by
  cases hp : client.pendingCmd with
  | none =>
      rw [clientCb_of_idle hrunning hdata hp]
      exact ⟨rfl, rfl⟩
  | some p =>
      have hid : word16 (Machine.of mem).mem (data + 0#32) ≠ client.pendingId := fun hid =>
        hwaits ⟨by rw [hp]; rfl, hid⟩
      rw [clientCb_of_other hrunning hdata hp hid]
      exact ⟨rfl, rfl⟩

/-- A callback stores in the response data of its command only. -/
theorem clientCb_free {client : Client κ} {cmds : κ → CmdBlock} (mem : Memory 32) {data : U32}
    (hcmds : ∀ p, w.FreeCmd (cmds p)) (hrunning : client.running = true) (hdata : data ≠ 0) :
    let r := RpcWire.clientCb client cmds (Machine.of mem) data
    (∀ q, w.FreeCmd (r.cmds q)) ∧ ∀ x, r.m.mem x ≠ mem x → w.Free x := by
  intro r
  by_cases hwaits : Waits client mem data
  · obtain ⟨hpending, hid⟩ := hwaits
    obtain ⟨p, hp⟩ := Option.isSome_iff_exists.mp hpending
    obtain ⟨-, hstatus, hmem, -⟩ := clientCb_spec cmds hrunning hdata hp hid
    refine ⟨fun q => ?_, fun x hx => ?_⟩
    · rw [hstatus]
      by_cases hq : q = p
      · subst hq
        rw [Function.update_self]
        exact hcmds q
      · rw [Function.update_of_ne hq]
        exact hcmds q
    · rw [hmem, storeResponse] at hx
      split_ifs at hx with hnull
      · exact absurd rfl hx
      · by_contra hfree
        refine hx (write_of_not_within fun hwithin => hfree ((hcmds p).2 x hnull ?_))
        exact hwithin.mono (List.length_take_le ..)
  · obtain ⟨hsame, hmem⟩ := clientCb_of_not_waits cmds hrunning hdata hwaits
    refine ⟨fun q => ?_, fun x hx => absurd (congrFun hmem x) hx⟩
    rw [hsame]
    exact hcmds q

omit [DecidableEq κ] in
/-- A response that is polled is completed or not, and its item goes back. -/
theorem Inv.handled (h : Inv w app₀ s) {tag : ℕ} {ring : Vring} {e : RpmsgChannel.Polled}
    {completed : List ℕ}
    (htag : s.answered[(s.sys.chan w.side.other).polled.length]? = some tag)
    (hsys : SysInv w.pair (s.sys.setChan w.side.other
      (polledChan (s.sys.chan w.side.other) ring [] e)))
    (hcompleted : completed.Sublist (s.completed ++ [tag])) :
    Inv w app₀ { s with
      sys := s.sys.setChan w.side.other (polledChan (s.sys.chan w.side.other) ring [] e)
      completed := completed } := by
  have hother : (s.sys.setChan w.side.other (polledChan (s.sys.chan w.side.other) ring [] e)).chan
      w.side.other = polledChan (s.sys.chan w.side.other) ring [] e := Function.update_self ..
  have hside : (s.sys.setChan w.side.other (polledChan (s.sys.chan w.side.other) ring [] e)).chan
      w.side = s.sys.chan w.side := Function.update_of_ne (Side.other_ne w.side).symm ..
  exact { h with
    sys := hsys
    serverEpts := by rw [hside]; exact h.serverEpts
    clientEpts := by rw [hother]; exact h.clientEpts
    requests := by rw [hside]; exact h.requests
    responses := by rw [hother]; exact h.responses
    items := by rw [hside]; exact h.items
    kept := by rw [hside]; exact h.kept
    returned := by rw [hother]; rfl
    places := by rw [hside]; exact h.places
    served := by rw [hside]; exact h.served
    completed := by
      rw [hother]
      simp only [polledChan, List.length_append, List.length_singleton]
      rw [List.take_add_one, htag]
      exact hcompleted.trans (h.completed.append_right _) }

theorem Inv.pollClient (h : Inv w app₀ s) : Inv w app₀ (s.pollClient w) := by
  rcases pollClient_cases h with ⟨-, -, ring, hstate, hsys⟩ |
    ⟨tag, c, out, data, ring, e, htag, -, -, hdata, -, hsys, hstate⟩
  · rw [hstate] at hsys ⊢
    refine h.of_rings hsys rfl fun d => ?_
    by_cases hd : d = w.side.other
    · subst hd
      exact ⟨ring, Function.update_self ..⟩
    · exact ⟨(s.sys.chan d).ring, Function.update_of_ne hd ..⟩
  · obtain ⟨hcmds, hfree⟩ := clientCb_free s.sys.mem h.cmds (h.clients c.client).1 hdata
    rw [hstate]
    have hsub : (if Waits (s.clients c.client) s.sys.mem data then s.completed ++ [tag]
        else s.completed).Sublist (s.completed ++ [tag]) := by
      split_ifs
      · exact .refl _
      · exact List.sublist_append_left ..
    exact ((h.handled htag hsys hsub).of_cmds hcmds).of_free hfree

end Polling

section Runs
variable {σ ι κ : Type} [DecidableEq κ] [DecidableEq ι] {w : Wiring σ ι} {app₀ : σ}
  {s t : State σ ι κ}

theorem step_inv {l : Label ι κ} (hstep : Step w s l t) (h : Inv w app₀ s) : Inv w app₀ t := by
  cases hstep with
  | write p hc => exact h.of_cmds (freeCmd_update h.cmds hc)
  | store v hx => exact h.store v hx
  | call i p => exact h.execute i p
  | pollServer hidle => exact h.pollServer hidle
  | recv hidle => exact h.recv hidle
  | exec htask => exact h.exec htask
  | respond htask => exact h.respond htask
  | pollClient => exact h.pollClient

theorem run_inv {mem : Memory 32} {cmds : κ → CmdBlock} (hcmds : ∀ p, w.FreeCmd (cmds p))
    {ls : List (Label ι κ)} (hrun : ReplyMachine.Run (Step w) (w.start mem cmds app₀) ls s) :
    Inv w app₀ s :=
  hrun.invariant (fun _ _ _ hstep h => step_inv hstep h) (start_inv mem hcmds)

/-- The response that is polled next, if any, belongs to a call which fewer than `2 ^ 16`
calls of its client have followed. -/
def Recent (s : State σ ι κ) (n : ℕ) : Prop :=
  ∀ tag c, s.answered[n]? = some tag → s.calls[tag]? = some c →
    s.count c.client < c.number + 2 ^ 16

/-- Nothing that the application of a client can see is different. -/
def Unseen (s t : State σ ι κ) : Prop :=
  t.cmds = s.cmds ∧ t.sys.mem = s.sys.mem ∧ t.completed = s.completed

/-- The command of a call is completed with what the application answers to its request
behind the requests served before it. -/
def Answered (w : Wiring σ ι) (app₀ : σ) (s : State σ ι κ) (tag : ℕ) (c : Call ι κ)
    (t : State σ ι κ) : Prop :=
  ∃ before after data, s.served = before ++ (tag, c.req) :: after ∧
    (s.clients c.client).pendingCmd = some c.cmd ∧
    let out := w.application.step (w.application.final app₀ (before.map Prod.snd)) c.req
    let h := RpcWire.clientCb (s.clients c.client) s.cmds (Machine.of s.sys.mem) data
    Completed s.cmds c.cmd out.1 (w.pair.link w.side.other).itemSize s.sys.mem h ∧
      t.cmds = h.cmds ∧ t.sys.mem = h.m.mem ∧ t.completed = s.completed ++ [tag]

omit [DecidableEq κ] [DecidableEq ι] in
/-- A response waits to be taken by the latest call of its client only. -/
theorem Inv.waits_iff (h : Inv w app₀ s) {c : Call ι κ} (hc : c ∈ s.calls)
    (hrecent : s.count c.client < c.number + 2 ^ 16) {data : U32} {size : U16}
    {out : U16 × List U8} (hpkt : pktAt s.sys.mem data = response size c.req out) :
    Waits (s.clients c.client) s.sys.mem data ↔ c.number = s.count c.client := by
  obtain ⟨hle, hlast, hmsgId⟩ := h.calls c hc
  have hid : (pktAt s.sys.mem data).msgId = BitVec.ofNat 16 c.number := by
    rw [hpkt]
    exact hmsgId
  unfold Waits
  rw [hid, (h.clients c.client).2]
  constructor
  · rintro ⟨-, heq⟩
    have hmod := congrArg BitVec.toNat heq
    simp only [BitVec.toNat_ofNat] at hmod
    omega
  · intro heq
    exact ⟨by rw [hlast heq]; rfl, by rw [heq]⟩

/-- In every run, a poll of the clients' core hands over the next answer, if there is one:
if its client has made another call since, nothing happens, else the call is completed with
what the application answers to its own request in the order of the executions. -/
theorem response_completes_own_call {mem : Memory 32} {cmds : κ → CmdBlock}
    (hcmds : ∀ p, w.FreeCmd (cmds p)) {ls : List (Label ι κ)}
    (hrun : ReplyMachine.Run (Step w) (w.start mem cmds app₀) ls s)
    (hrecent : Recent s (s.sys.chan w.side.other).polled.length) :
    (pollCalls s.sys w.side = [] ∧ Unseen s (s.pollClient w)) ∨
    ∃ tag c, s.answered[(s.sys.chan w.side.other).polled.length]? = some tag ∧
      s.calls[tag]? = some c ∧
      (c.number < s.count c.client ∧ Unseen s (s.pollClient w) ∨
        c.number = s.count c.client ∧ Answered w app₀ s tag c (s.pollClient w)) := by
  have h := run_inv hcmds hrun
  rcases pollClient_cases h with ⟨hcalls, -, ring, hstate, -⟩ |
    ⟨tag, c, out, data, ring, e, htag, hcall, hout, hdata, hpkt, -, hstate⟩
  · rw [hstate]
    exact .inl ⟨hcalls, rfl, rfl, rfl⟩
  have hc : c ∈ s.calls := List.mem_of_getElem? hcall
  have hwaits := h.waits_iff hc (hrecent tag c htag hcall) hpkt
  have hcallInv := h.calls c hc
  have hclient := h.clients c.client
  refine .inr ⟨tag, c, htag, hcall, ?_⟩
  rw [hstate]
  rcases Nat.lt_or_eq_of_le hcallInv.number_le with hold | hlatest
  · have hnot : ¬ Waits (s.clients c.client) s.sys.mem data := mt hwaits.mp hold.ne
    obtain ⟨hsame, hmem⟩ := clientCb_of_not_waits s.cmds hclient.1 hdata hnot
    exact .inl ⟨hold, hsame, hmem, if_neg hnot⟩
  · obtain ⟨before, pkt, after, hserved, rfl⟩ := hout
    obtain ⟨-, c', hcall', hpkt'⟩ := h.served (tag, pkt) (by simp [hserved])
    obtain rfl : c = c' := Option.some.inj (hcall.symm.trans hcall')
    obtain rfl : c.req = pkt := hpkt'
    have hpending := hcallInv.last hlatest
    have hid : c.req.msgId = (s.clients c.client).pendingId := by
      rw [hcallInv.msgId, hclient.2, hlatest]
    have hdone : Completed s.cmds c.cmd _ _ s.sys.mem (RpcWire.clientCb (s.clients c.client)
        (Function.update s.cmds c.cmd { s.cmds c.cmd with status := (s.cmds c.cmd).status })
        (Machine.of s.sys.mem) data) := clientCb_completed hpkt hid hclient.1 hdata hpending
    rw [Function.update_eq_self] at hdone
    exact .inr ⟨hlatest, before, after, data, hserved, hpending, hdone, rfl, rfl,
      if_pos (hwaits.mpr hlatest)⟩

omit [DecidableEq κ] [DecidableEq ι] in
/-- Only requests that were executed are answered. -/
theorem Inv.answered_served (h : Inv w app₀ s) {tag : ℕ} (htag : tag ∈ s.answered) :
    tag ∈ s.served.map Prod.fst := by
  obtain ⟨n, hn⟩ := List.mem_iff_getElem?.mp htag
  obtain ⟨msg, -, c, out, -, ⟨before, pkt, after, hserved, -⟩, -⟩ :=
    exists_of_forall₂ h.responses.flip hn
  rw [hserved]
  simp

/-- In every run, the application has gone through a part of the requests, each the packet of
one call, in the order of the calls and none of them twice. Every request that was taken
from the transport is answered, dropped, being executed or waiting, in one place and once,
only executed ones are answered, and no answer is completed twice. -/
theorem runs_are_serial {mem : Memory 32} {cmds : κ → CmdBlock} (hcmds : ∀ p, w.FreeCmd (cmds p))
    {ls : List (Label ι κ)} (hrun : ReplyMachine.Run (Step w) (w.start mem cmds app₀) ls s) :
    s.app = w.application.final app₀ (s.served.map Prod.snd) ∧
      (∀ e ∈ s.served, ∃ c, s.calls[e.1]? = some c ∧ c.req = e.2) ∧
      (s.served.map Prod.fst).Pairwise (· < ·) ∧
      (s.answered ++ s.dropped ++ s.task.tags ++ s.waiting.map Digest.tag).Perm
        (List.range (s.sys.chan w.side).polled.length) ∧
      s.answered.Pairwise (· < ·) ∧ s.answered ⊆ s.served.map Prod.fst ∧
      s.completed.Sublist s.answered := by
  have h := run_inv hcmds hrun
  refine ⟨h.app, fun e he => (h.served e he).2, ?_, h.places, ?_, fun _ => h.answered_served, ?_⟩
  · exact (List.pairwise_append.mp h.servedOrder).1
  · exact (List.pairwise_append.mp (List.pairwise_append.mp h.order).1).1
  · exact h.completed.trans (List.take_sublist ..)

end Runs

section Rest
variable {σ ι κ : Type} {w : Wiring σ ι} {app₀ : σ} {s t : State σ ι κ}

/-- Messages of a side that were not polled. -/
def unpolled (sys : Sys) (d : Side) : ℕ := (sys.chan d).sent.length - (sys.chan d).polled.length

def Task.work : Task → ℕ
  | .idle => 0
  | .taken _ => 3
  | .executed _ _ _ _ _ => 2

/-- What is left to do: a request is polled, taken, executed and answered, and its answer is
polled. -/
def State.work (w : Wiring σ ι) (s : State σ ι κ) : ℕ :=
  5 * unpolled s.sys w.side + 4 * s.queue.length + s.task.work + unpolled s.sys w.side.other

theorem exec_destroy_logs (p : Pair) (sys : Sys) (d e : Side) (data : U32) :
    ((sys.exec p d (.destroy data)).chan e).sent = (sys.chan e).sent ∧
      ((sys.exec p d (.destroy data)).chan e).polled = (sys.chan e).polled := by
  by_cases he : e = d.other
  · subst he
    simp only [Sys.exec, Sys.setChan, Function.update_self, RpmsgChannel.Chan.destroy]
    split_ifs <;> exact ⟨rfl, rfl⟩
  · simp only [Sys.exec, Sys.setChan, Function.update_of_ne he, and_self]

theorem unpolled_destroy (p : Pair) (sys : Sys) (d e : Side) (data : U32) :
    unpolled (sys.exec p d (.destroy data)) e = unpolled sys e := by
  unfold unpolled
  rw [(exec_destroy_logs p sys d e data).1, (exec_destroy_logs p sys d e data).2]

theorem exec_work {r : Digest} (htask : s.task = .taken r) :
    (s.exec w r).calls = s.calls ∧ (s.exec w r).work w < s.work w := by
  refine ⟨rfl, ?_⟩
  have hside := unpolled_destroy w.pair s.sys w.side.other w.side r.pkt
  have hother := unpolled_destroy w.pair s.sys w.side.other w.side.other r.pkt
  unfold unpolled at hside hother
  simp only [State.work, State.exec, unpolled, htask, Task.work, hside, hother]
  omega

theorem recv_work (h : Inv w app₀ s) (hidle : s.task = .idle) (hqueue : s.queue ≠ []) :
    (s.recv w).calls = s.calls ∧ (s.recv w).work w < s.work w := by
  rcases recv_cases w s with ⟨-, hcase⟩ | ⟨r, queue, hq, heq⟩
  · exact absurd (hcase.elim h.queueless id) hqueue
  · rw [heq]
    refine ⟨rfl, ?_⟩
    simp only [State.work, hidle, hq, Task.work, List.length_cons]
    omega

theorem respond_work {tag : ℕ} {clientAddr msgId cmdId : U16} {cmd : CmdBlock}
    (htask : s.task = .executed tag clientAddr msgId cmdId cmd) :
    (s.respond w tag clientAddr msgId cmdId cmd).calls = s.calls ∧
      (s.respond w tag clientAddr msgId cmdId cmd).work w < s.work w := by
  have hother : ∀ ring mem msg, (post s.sys w.side.other ring mem msg).chan w.side =
      s.sys.chan w.side := fun ring mem msg => by
    have hkept := post_other (s := s.sys) (d := w.side.other) ring mem msg
    rwa [Side.other_other] at hkept
  unfold State.respond
  dsimp only
  split_ifs with hsent
  · refine ⟨rfl, ?_⟩
    obtain ⟨buf, hbuf⟩ := Option.isSome_iff_exists.mp hsent
    simp only [State.work, unpolled, hother, post_chan, htask, Task.work, hbuf, Option.map_some,
      Option.toList_some, List.length_append, List.length_singleton]
    omega
  · refine ⟨rfl, ?_⟩
    rw [Option.not_isSome_iff_eq_none] at hsent
    simp only [State.work, unpolled, hother, post_chan, htask, Task.work, hsent, Option.map_none,
      Option.toList_none, List.append_nil]
    omega

/-- A poll of the server's core that finds a request leaves less to do. -/
theorem pollServer_work (h : Inv w app₀ s) (hidle : w.variant = .baremetal → s.task = .idle)
    (hsent : (s.sys.chan w.side).polled.length < (s.sys.chan w.side).sent.length) :
    (s.pollServer w).calls = s.calls ∧ (s.pollServer w).work w < s.work w := by
  have hpoll := poll_cases (d := w.side.other) h.sys
    (by rw [Side.other_other]; exact requests_polled h)
  rw [Side.other_other] at hpoll
  unfold State.pollServer
  rcases hpoll with ⟨-, hlen, -⟩ | ⟨b, -, msg, ept, cb, ring, -, -, -, hcalls, hexec⟩
  · omega
  · rw [hcalls, hexec]
    have hne := Side.other_ne w.side
    unfold State.serverCb
    cases hvariant : w.variant with
    | baremetal =>
        refine ⟨rfl, ?_⟩
        simp only [State.work, unpolled, Sys.setChan, Function.update_self, hidle hvariant,
          Function.update_of_ne hne, Task.work, List.length_append, List.length_singleton]
        omega
    | freertos os queueLen =>
        by_cases hroom : s.queue.length < serverQueueLen queueLen
        · simp only [Rpc.envQueueSend_of_room os _ hroom, if_true, true_and]
          simp only [State.work, unpolled, Sys.setChan, Function.update_self,
            Function.update_of_ne hne, List.length_append, List.length_singleton]
          omega
        · have hfail : ¬ (-1 : Int) = 0 := by decide
          simp only [Rpc.envQueueSend_of_full os _ hroom, if_neg hfail, true_and]
          simp only [State.work, unpolled_destroy]
          simp only [unpolled, Sys.setChan, Function.update_self, Function.update_of_ne hne,
            List.length_append, List.length_singleton]
          omega

/-- A poll of the clients' core that finds a response leaves less to do. -/
theorem pollClient_work [DecidableEq κ] (h : Inv w app₀ s)
    (hsent : (s.sys.chan w.side.other).polled.length < (s.sys.chan w.side.other).sent.length) :
    (s.pollClient w).calls = s.calls ∧ (s.pollClient w).work w < s.work w := by
  have hne := Side.other_ne w.side
  rcases pollClient_cases h with ⟨-, hlen, -⟩ |
    ⟨tag, c, out, data, ring, e, -, -, -, -, -, -, hstate⟩
  · omega
  · rw [hstate]
    refine ⟨rfl, ?_⟩
    simp only [State.work, unpolled, Sys.setChan, Function.update_self,
      Function.update_of_ne hne.symm, polledChan, List.length_append, List.length_singleton]
    omega

variable [DecidableEq κ] [DecidableEq ι]

/-- A step of the server or of a poll that finds something to do. -/
inductive WorkStep (w : Wiring σ ι) : State σ ι κ → Label ι κ → State σ ι κ → Prop
  | pollServer {s t : State σ ι κ} : Step w s .pollServer t →
      (s.sys.chan w.side).polled.length < (s.sys.chan w.side).sent.length →
      WorkStep w s .pollServer t
  | recv {s t : State σ ι κ} : Step w s .recv t → s.queue ≠ [] → WorkStep w s .recv t
  | exec {s t : State σ ι κ} : Step w s .exec t → WorkStep w s .exec t
  | respond {s t : State σ ι κ} : Step w s .respond t → WorkStep w s .respond t
  | pollClient {s t : State σ ι κ} : Step w s .pollClient t →
      (s.sys.chan w.side.other).polled.length < (s.sys.chan w.side.other).sent.length →
      WorkStep w s .pollClient t

theorem WorkStep.step {l : Label ι κ} (h : WorkStep w s l t) : Step w s l t := by
  cases h with
  | pollServer h _ => exact h
  | recv h _ => exact h
  | exec h => exact h
  | respond h => exact h
  | pollClient h _ => exact h

theorem workStep_work {l : Label ι κ} (hstep : WorkStep w s l t) (h : Inv w app₀ s) :
    t.calls = s.calls ∧ t.work w < s.work w := by
  cases hstep with
  | pollServer hstep hsent =>
      cases hstep with
      | pollServer hidle => exact pollServer_work h hidle hsent
  | recv hstep hqueue =>
      cases hstep with
      | recv hidle => exact recv_work h hidle hqueue
  | exec hstep =>
      cases hstep with
      | exec htask => exact exec_work htask
  | respond hstep =>
      cases hstep with
      | respond htask => exact respond_work htask
  | pollClient hstep hsent =>
      cases hstep with
      | pollClient => exact pollClient_work h hsent

omit [DecidableEq κ] [DecidableEq ι] in
theorem Inv.polled_le (h : Inv w app₀ s) (d : Side) :
    (s.sys.chan d).polled.length ≤ (s.sys.chan d).sent.length := by
  obtain ⟨t, ht⟩ := h.sys d
  have hlog := congrArg List.length ht.log
  rw [List.length_append, List.length_map] at hlog
  omega

/-- Work goes on until every request is answered or dropped and every answer is polled. -/
theorem rest_of_stuck (h : Inv w app₀ s) (hstuck : ∀ l t, ¬ WorkStep w s l t) :
    s.task = .idle ∧ s.queue = [] ∧ (s.sys.chan w.side).polled.length = s.calls.length ∧
      (s.sys.chan w.side.other).polled.length = s.answered.length := by
  have hidle : s.task = .idle := by
    cases htask : s.task with
    | idle => rfl
    | taken r => exact absurd (.exec (.exec htask)) (hstuck _ _)
    | executed tag clientAddr msgId cmdId cmd =>
        exact absurd (.respond (.respond htask)) (hstuck _ _)
  refine ⟨hidle, ?_, ?_, ?_⟩
  · by_contra hqueue
    exact hstuck _ _ (.recv (.recv hidle) hqueue)
  · rw [← h.requests.length_eq]
    refine (h.polled_le _).antisymm (Nat.le_of_not_lt fun hlt => ?_)
    exact hstuck _ _ (.pollServer (.pollServer fun _ => hidle) hlt)
  · rw [← h.responses.length_eq]
    refine (h.polled_le _).antisymm (Nat.le_of_not_lt fun hlt => ?_)
    exact hstuck _ _ (.pollClient .pollClient hlt)

theorem workRun_work {ks : List (Label ι κ)} (hwork : ReplyMachine.Run (WorkStep w) s ks t)
    (h : Inv w app₀ s) :
    Inv w app₀ t ∧ t.calls = s.calls ∧ ks.length + t.work w ≤ s.work w := by
  induction hwork with
  | done s => exact ⟨h, rfl, by simp⟩
  | next hstep _ ih =>
      obtain ⟨hcalls, hlt⟩ := workStep_work hstep h
      obtain ⟨hinv, hcalls', hle⟩ := ih (step_inv hstep.step h)
      refine ⟨hinv, hcalls'.trans hcalls, ?_⟩
      rw [List.length_cons]
      omega

/-- Nothing is left to do where the work is zero. -/
theorem stuck_of_work_eq_zero (h : Inv w app₀ s) (hzero : s.work w = 0) (l : Label ι κ)
    (t : State σ ι κ) : ¬ WorkStep w s l t := by
  intro hstep
  have hlt := (workStep_work hstep h).2
  omega

/-- From every reachable state the polls and the server come to an end after a bounded number
of steps that find something to do, whatever their order, and then every call that was
made is answered or dropped, once, and every answer was handed over. -/
theorem calls_come_to_rest {mem : Memory 32} {cmds : κ → CmdBlock} (hcmds : ∀ p, w.FreeCmd (cmds p))
    {ls ks : List (Label ι κ)}
    (hrun : ReplyMachine.Run (Step w) (w.start mem cmds app₀) ls s)
    (hwork : ReplyMachine.Run (WorkStep w) s ks t) :
    ks.length ≤ s.work w ∧ ((∀ l v, ¬ WorkStep w t l v) →
      (t.answered ++ t.dropped).Perm (List.range s.calls.length) ∧
        (t.sys.chan w.side.other).polled.length = t.answered.length) := by
  obtain ⟨h, hcalls, hle⟩ := workRun_work hwork (run_inv hcmds hrun)
  refine ⟨by omega, fun hstuck => ?_⟩
  obtain ⟨hidle, hqueue, hpolled, hdone⟩ := rest_of_stuck h hstuck
  refine ⟨?_, hdone⟩
  have hplaces := h.places
  rw [State.waiting, hidle, hqueue, hpolled, hcalls] at hplaces
  simpa [Task.tags, Task.digests] using hplaces

end Rest

section Tally

/-- The sum of all request bytes so far, which is also the answer. -/
def tally (sum : U8) (req : List U8) : U8 × U16 × List U8 := (sum + req.sum, 0, [sum + req.sum])

def tallyHandler : Handler U8 := fun sum mem cmd =>
  let out := tally sum (read mem cmd.reqData cmd.reqLen.toNat)
  (out.1, write mem cmd.respData out.2.2, { cmd with status := out.2.1, respLen := 1 })

theorem tallyServer_bufLen_ne : (4 : U16) ≠ 0 := by decide

def tallyServer : Server U8 where
  running := true
  reqBufLen := 4
  reqBufLen_ne := tallyServer_bufLen_ne
  respBufLen := 4
  respBufLen_ne := tallyServer_bufLen_ne
  reqBuf := 0x40860000
  respBuf := 0x40860100
  srv := [⟨3, some tallyHandler⟩]
  rpmsgEpt := ⟨0x40860200, 5, some 0x42000010, 0⟩

theorem tallyHandler_serves : Serves tallyServer tallyHandler tally where
  length_le sum req := by simp [tally, tallyServer]
  returns sum mem cmdId n hn := by
    refine ⟨rfl, rfl, read_write [_] (by simp), fun x _ hresp => write_of_not_within fun hx => ?_⟩
    exact hresp (hx.mono (by simp [tally, tallyServer]))

/-- Two items for each direction, and two clients. -/
def tallyLink : Side → Setup
  | .main => twoItems 0x40870000
  | .sub => twoItems 0x40880000

theorem tallyLink_placed (d : Side) : Placed (tallyLink d) := by
  cases d
  · exact twoItems_placed (by decide) (by decide)
  · exact twoItems_placed (by decide) (by decide)

theorem tallyLink_disjoint : areaEnd (tallyLink .main) ≤ (tallyLink .sub).buffer.toNat ∨
    areaEnd (tallyLink .sub) ≤ (tallyLink .main).buffer.toNat := by decide

def tallyPair : Pair := ⟨tallyLink, tallyLink_placed, tallyLink_disjoint⟩

def tallyClient (i : Bool) : Ept :=
  if i then ⟨0x40860500, 6, some 0x42000020, 1⟩ else ⟨0x40860520, 7, some 0x42000020, 2⟩

def tallyClientAt (data : U32) : Option Bool :=
  if data = 1 then some true else if data = 2 then some false else none

theorem tally_apart {a : U32} {n : ℕ} (h : a.toNat + n ≤ 0x40870000) (d : Side) :
    ∀ b ∈ (tallyPair.link d).addrs, Apart a n b (tallyPair.link d).itemSize.toNat := by
  cases d
  · exact apart_items (tallyLink_placed .main) h
  · exact apart_items (tallyLink_placed .sub) (h.trans (by decide))

theorem tally_reqBuf (d : Side) : ∀ b ∈ (tallyPair.link d).addrs,
    Apart tallyServer.reqBuf tallyServer.reqBufLen.toNat b (tallyPair.link d).itemSize.toNat :=
  tally_apart (by decide) d

theorem tally_respBuf (d : Side) : ∀ b ∈ (tallyPair.link d).addrs,
    Apart tallyServer.respBuf tallyServer.respBufLen.toNat b (tallyPair.link d).itemSize.toNat :=
  tally_apart (by decide) d

theorem tally_serves (cmdId : U16) (handler : Handler U8)
    (h : findHandler cmdId tallyServer.srv = some handler) : Serves tallyServer handler tally := by
  simp only [tallyServer, findHandler] at h
  split_ifs at h
  obtain rfl := Option.some.inj h
  exact tallyHandler_serves

theorem tally_room : 16 ≤ (tallyPair.link Side.main.other).itemSize.toNat := by decide

theorem tally_serverFound : searchEndpoint [tallyServer.rpmsgEpt] tallyServer.rpmsgEpt.addr =
    some tallyServer.rpmsgEpt ∧ tallyServer.rpmsgEpt.rxCb.isSome := by decide

theorem tally_clientFound (i : Bool) : searchEndpoint [tallyClient true, tallyClient false]
    (tallyClient i).addr = some (tallyClient i) ∧ (tallyClient i).rxCb.isSome := by
  revert i
  decide

theorem tally_clientAt (i : Bool) : tallyClientAt (tallyClient i).rxCbData = some i := by
  revert i
  decide

def tallyWiring : Wiring U8 Bool where
  pair := tallyPair
  side := .main
  variant := .freertos Rpc.fifoKernel 4
  server := tallyServer
  clientEpt := tallyClient
  clientAt := tallyClientAt
  serverEpts := [tallyServer.rpmsgEpt]
  clientEpts := [tallyClient true, tallyClient false]
  answer _ := tally
  running := rfl
  room := tally_room
  serverFound := tally_serverFound
  clientFound := tally_clientFound
  clientAt_data := tally_clientAt
  reqBuf_apart := tally_reqBuf
  respBuf_apart := tally_respBuf
  serves := tally_serves

/-- Two request bytes, and room for one response byte. -/
def tallyCmd : CmdBlock := ⟨3, 0, 2, 1, 0x40860300, 0x40860400, none, 0⟩

theorem tally_free {x : U32} (hlo : 0x40860200 ≤ x.toNat) (hhi : x.toNat < 0x40870000) :
    tallyWiring.Free x := by
  refine ⟨fun d b hb hx => ?_, fun hx => ?_, fun hx => ?_⟩
  · have hone : Within x 1 x := by simp [Within]
    exact tally_apart (a := x) (n := 1) (by omega) d b hb x hone hx
  · have hx' := (within_iff (a := 0x40860000) (n := 4) (by decide)).mp hx
    have hbuf : (0x40860000 : U32).toNat = 0x40860000 := rfl
    omega
  · have hx' := (within_iff (a := 0x40860100) (n := 4) (by decide)).mp hx
    have hbuf : (0x40860100 : U32).toNat = 0x40860100 := rfl
    omega

theorem tallyCmd_free : tallyWiring.FreeCmd tallyCmd := by
  refine ⟨fun x hx => ?_, fun x _ hx => ?_⟩
  · have hx' := (within_iff (a := 0x40860300) (n := 2) (by decide)).mp hx
    have hbuf : (0x40860300 : U32).toNat = 0x40860300 := rfl
    exact tally_free (by omega) (by omega)
  · have hx' := (within_iff (a := 0x40860400) (n := 1) (by decide)).mp hx
    have hbuf : (0x40860400 : U32).toNat = 0x40860400 := rfl
    exact tally_free (by omega) (by omega)

/-- The request bytes are one and two. -/
def tallyMem : Memory 32 := fun x => (x - 0x40860300 + 1).setWidth 8

def tallyStart : State U8 Bool Bool := tallyWiring.start tallyMem (fun _ => tallyCmd) 5

/-- Both clients call, and the first request is answered. -/
def tallyRun : List (Label Bool Bool) :=
  [.call true true, .call false false, .pollServer, .recv, .exec, .respond]

/-- Both responses are polled, and the second request is taken between them. -/
def tallyWork : List (Label Bool Bool) :=
  [.pollClient, .pollServer, .recv, .exec, .respond, .pollClient]

theorem tallyRun_run : ∃ s t, ReplyMachine.Run (Step tallyWiring) tallyStart tallyRun s ∧
    ReplyMachine.Run (WorkStep tallyWiring) s tallyWork t ∧ t.work tallyWiring = 0 ∧
    s.app = 8 ∧ s.answered = [0] ∧ (∀ i, s.count i = 1) ∧ (∀ c ∈ s.calls, c.number = 1) ∧
    s.calls.length = 2 ∧ (pollCalls s.sys .main).length = 1 ∧
    (s.sys.chan .main).polled.length = 1 := by
  refine ⟨_, _, .next (.call true true) (.next (.call false false) (.next (.pollServer fun h => ?_)
    (.next (.recv ?_) (.next (.exec (r := ⟨0, 6, 0x40870008⟩) ?_) (.next
    (@Step.respond _ _ _ _ _ _ _ 0 6 1 3 ⟨3, 0, 2, 1, 0x40860000, 0x40860100, none, 0⟩ ?_)
      (.done _)))))), .next (.pollClient .pollClient ?_) (.next (.pollServer (.pollServer
      fun h => ?_) ?_) (.next (.recv (.recv ?_) ?_) (.next (.exec
      (.exec (r := ⟨1, 7, 0x40870020⟩) ?_)) (.next (.respond (@Step.respond _ _ _ _ _ _ _ 1 7 1 3
        ⟨3, 0, 2, 1, 0x40860000, 0x40860100, none, 0⟩ ?_)) (.next (.pollClient .pollClient ?_)
          (.done _)))))), ?_, ?_⟩
  · cases h
  · decide +kernel
  · decide +kernel
  · decide +kernel
  · decide +kernel
  · cases h
  · decide +kernel
  · decide +kernel
  · decide +kernel
  · decide +kernel
  · decide +kernel
  · decide +kernel
  · decide +kernel
  · decide +kernel

/-- The first call is completed with the sum of its two bytes on top of five. -/
theorem tally_call_is_completed : ∃ s tag c,
    ReplyMachine.Run (Step tallyWiring) tallyStart tallyRun s ∧
      Answered tallyWiring 5 s tag c (s.pollClient tallyWiring) := by
  obtain ⟨s, -, hrun, -, -, -, -, hcount, hnumber, -, hpoll, -⟩ := tallyRun_run
  have hrecent : Recent s (s.sys.chan tallyWiring.side.other).polled.length := fun _ c _ _ => by
    rw [hcount]
    omega
  rcases response_completes_own_call (fun _ => tallyCmd_free) hrun hrecent with
    ⟨hnone, -⟩ | ⟨tag, c, -, hcall, ⟨hold, -⟩ | ⟨-, hanswered⟩⟩
  · have hnone' : pollCalls s.sys .main = [] := hnone
    rw [hnone'] at hpoll
    cases hpoll
  · rw [hcount, hnumber c (List.mem_of_getElem? hcall)] at hold
    exact absurd hold (by decide)
  · exact ⟨s, tag, c, hrun, hanswered⟩

theorem tally_run_is_serial : ∃ s, ReplyMachine.Run (Step tallyWiring) tallyStart tallyRun s ∧
    tallyWiring.application.final 5 (s.served.map Prod.snd) = 8 ∧
      (s.served.map Prod.fst).Pairwise (· < ·) ∧ [0] ⊆ s.served.map Prod.fst ∧
      ([0] ++ s.dropped ++ s.task.tags ++ s.waiting.map Digest.tag).Perm (List.range 1) := by
  obtain ⟨s, -, hrun, -, -, happ, hanswered, -, -, -, -, hpolled⟩ := tallyRun_run
  obtain ⟨hfinal, -, hserved, hplaces, -, hsub, -⟩ := runs_are_serial (fun _ => tallyCmd_free) hrun
  have hpolled' : (s.sys.chan tallyWiring.side).polled.length = 1 := hpolled
  rw [hanswered] at hplaces hsub
  rw [hpolled'] at hplaces
  exact ⟨s, hrun, hfinal.symm.trans happ, hserved, hsub, hplaces⟩

theorem tally_calls_come_to_rest : ∃ s t : State U8 Bool Bool,
    ReplyMachine.Run (Step tallyWiring) tallyStart tallyRun s ∧
      ReplyMachine.Run (WorkStep tallyWiring) s tallyWork t ∧ 6 ≤ s.work tallyWiring ∧
      (t.answered ++ t.dropped).Perm (List.range 2) ∧
      (t.sys.chan .sub).polled.length = t.answered.length := by
  obtain ⟨s, t, hrun, hwork, hzero, -, -, -, -, hcalls, -, -⟩ := tallyRun_run
  obtain ⟨hlen, hrest⟩ := calls_come_to_rest (fun _ => tallyCmd_free) hrun hwork
  obtain ⟨hinv, -, -⟩ := workRun_work hwork (run_inv (fun _ => tallyCmd_free) hrun)
  obtain ⟨hperm, hpolled⟩ := hrest (stuck_of_work_eq_zero hinv hzero)
  rw [hcalls] at hperm
  exact ⟨s, t, hrun, hwork, hlen, hperm, hpolled⟩

end Tally
end EspAmp.RpcSystem
