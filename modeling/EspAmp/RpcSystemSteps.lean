import EspAmp.RpcSystem

/-!
# Steps of clients and server

Each step of the system keeps the order of the channels and the places of the requests. A
step stores in one item, in the buffers of the server or in the data of one command, and
these are apart.
-/
namespace EspAmp.RpcSystem
open ByteMemory VirtqueueFifo RpmsgPair RpcWire RpcRoundTrip RpmsgPost
open Rpmsg (Ept Msg CbCall msgAt searchEndpoint)
open RpmsgChannel (Held)
open Rpc (Client Pkt rpcOk pktSize)
open RpcService (Variant)

section Memory
variable {σ ι κ : Type} {w : Wiring σ ι} {app₀ : σ} {s : State σ ι κ} {mem' : Memory 32}

theorem exists_of_forall₂ {α β : Type} {R : α → β → Prop} {as : List α} {bs : List β}
    (h : List.Forall₂ R as bs) {n : ℕ} {a : α} (ha : as[n]? = some a) :
    ∃ b, bs[n]? = some b ∧ R a b := by
  induction h generalizing n with
  | nil => simp at ha
  | cons hr _ ih =>
      cases n with
      | zero =>
          obtain rfl := Option.some.inj ha
          exact ⟨_, rfl, hr⟩
      | succ n => exact ih ha

/-- Stores outside of the items and of the response buffer. -/
theorem Inv.of_mem (h : Inv w app₀ s) (hitems : ItemsKept w.pair s.sys.mem mem')
    (hresp : ∀ x, Within w.server.respBuf w.server.respBufLen.toNat x → mem' x = s.sys.mem x) :
    Inv w app₀ { s with sys := { s.sys with mem := mem' } } :=
  { h with
    sys := sysInv_of_itemsKept h.sys hitems
    working := fun tag clientAddr msgId cmdId cmd htask => by
      obtain ⟨c, out, hc, hout, haddr, hid, hcmd, hready⟩ := h.working _ _ _ _ _ htask
      exact ⟨c, out, hc, hout, haddr, hid, hcmd, hready.congr hresp⟩ }

/-- Stores of the applications. -/
theorem Inv.of_free (h : Inv w app₀ s) (hfree : ∀ x, mem' x ≠ s.sys.mem x → w.Free x) :
    Inv w app₀ { s with sys := { s.sys with mem := mem' } } := by
  refine h.of_mem (fun d b hb x hx => ?_) fun x hx => ?_
  · by_contra hne
    exact (hfree x hne).1 d b hb hx
  · by_contra hne
    exact (hfree x hne).2.2 hx

theorem Inv.store (h : Inv w app₀ s) {x : U32} (v : U8) (hx : w.Free x) :
    Inv w app₀ { s with sys := { s.sys with mem := write s.sys.mem x [v] } } := by
  refine h.of_free fun y hy => ?_
  by_cases hyx : y = x
  · exact hyx ▸ hx
  · exact (hy (write_byte_of_ne hyx)).elim

theorem Inv.of_cmds (h : Inv w app₀ s) {cmds : κ → CmdBlock} (hcmds : ∀ p, w.FreeCmd (cmds p)) :
    Inv w app₀ { s with cmds := cmds } :=
  { h with cmds := hcmds }

theorem freeCmd_update [DecidableEq κ] (h : ∀ p, w.FreeCmd (s.cmds p)) {p : κ} {c : CmdBlock}
    (hc : w.FreeCmd c) (q : κ) : w.FreeCmd (Function.update s.cmds p c q) := by
  by_cases hq : q = p
  · subst hq
    rwa [Function.update_self]
  · rw [Function.update_of_ne hq]
    exact h q

/-- The response buffer keeps its bytes when an item is stored to. -/
theorem respBuf_of_item {d : Side} {b : U32} (hb : b ∈ (w.pair.link d).addrs)
    (hm : ∀ x, ¬ Within b (w.pair.link d).itemSize.toNat x → mem' x = s.sys.mem x) (x : U32)
    (hx : Within w.server.respBuf w.server.respBufLen.toNat x) : mem' x = s.sys.mem x :=
  hm x (w.respBuf_apart d b hb x hx)

end Memory

section Rings
variable {σ ι κ : Type} {w : Wiring σ ι} {app₀ : σ} {s : State σ ι κ}

/-- Only the queues themselves differ. -/
theorem Inv.of_rings (h : Inv w app₀ s) {sys' : Sys} (hsys : SysInv w.pair sys')
    (hmem : sys'.mem = s.sys.mem)
    (hchan : ∀ d, ∃ ring, sys'.chan d = { s.sys.chan d with ring := ring }) :
    Inv w app₀ { s with sys := sys' } := by
  obtain ⟨ring, hside⟩ := hchan w.side
  obtain ⟨ring', hother⟩ := hchan w.side.other
  exact {
    sys := hsys
    serverEpts := by rw [hside]; exact h.serverEpts
    clientEpts := by rw [hother]; exact h.clientEpts
    cmds := h.cmds
    requests := by rw [hside]; exact h.requests
    responses := by rw [hother]; exact h.responses
    items := by rw [hside]; exact h.items
    kept := by rw [hside]; exact h.kept
    returned := by rw [hother]; exact h.returned
    queueless := h.queueless
    places := by rw [hside]; exact h.places
    order := h.order
    served := by rw [hside]; exact h.served
    servedOrder := h.servedOrder
    app := h.app
    working := fun tag clientAddr msgId cmdId cmd htask => by
      obtain ⟨c, out, hc, hout, haddr, hid, hcmd, hready⟩ := h.working _ _ _ _ _ htask
      exact ⟨c, out, hc, hout, haddr, hid, hcmd, hready.congr fun x _ => congrFun hmem x⟩
    clients := h.clients
    calls := h.calls
    completed := by rw [hother]; exact h.completed }

theorem post_none_chan (s : Sys) (d : Side) (ring : Vring) (mem : Memory 32) (e : Side) :
    ∃ ring', (post s d ring mem none).chan e = { s.chan e with ring := ring' } := by
  by_cases he : e = d
  · subst he
    exact ⟨ring, by simp⟩
  · obtain rfl := Side.eq_other_of_ne he
    exact ⟨(s.chan d.other).ring, by simp⟩

end Rings

section Call
variable {σ ι κ : Type} [DecidableEq κ] {w : Wiring σ ι} {app₀ : σ} {s : State σ ι κ}
  {i : ι} {p : κ}

theorem post_self (s : Sys) (d : Side) : post s d (s.chan d).ring s.mem none = s := by
  simp [post, Sys.setChan]

/-- The data of a command and the items are apart. -/
theorem FreeCmd.apart {c : CmdBlock} (h : w.FreeCmd c) (d : Side) :
    ∀ b ∈ (w.pair.link d).addrs, Apart c.reqData c.reqLen.toNat b (w.pair.link d).itemSize.toNat :=
  fun b hb x hx => (h.1 x hx).1 d b hb

/-- A call that returns an error changes the status of its command at most. -/
theorem execute_error (h : Inv w app₀ s)
    (herr : (executeCmd (s.clients i) (w.clientEpt i) w.server.rpmsgEpt.addr s.cmds (some p)
      (s.sys.chan w.side).ring (Machine.of s.sys.mem)).ret ≠ rpcOk) :
    let r := executeCmd (s.clients i) (w.clientEpt i) w.server.rpmsgEpt.addr s.cmds (some p)
      (s.sys.chan w.side).ring (Machine.of s.sys.mem)
    r.sent = none ∧ r.client = s.clients i ∧ (∀ q, w.FreeCmd (r.cmds q)) ∧
      r.m.mem = s.sys.mem ∧ SysInv w.pair (post s.sys w.side r.ring r.m.mem none) := by
  intro r
  have hrunning : ¬ (s.clients i).running = false := by simp [(h.clients i).1]
  have hpending : ∀ q, w.FreeCmd (Function.update s.cmds p
      { s.cmds p with status := Rpc.statusPending } q) := freeCmd_update h.cmds (h.cmds p)
  have hsame := (post_self s.sys w.side).symm ▸ h.sys
  by_cases hbig : 0xffff - pktSize < (s.cmds p).reqLen
  · have hr : r = ⟨Rpc.errInvalidSize, s.clients i, _, _, Machine.of s.sys.mem, none⟩ :=
      (if_neg hrunning).trans (if_pos hbig)
    rw [hr]
    exact ⟨rfl, rfl, hpending, rfl, hsame⟩
  · have hreqLen := ((s.cmds p).reqLen + pktSize).isLt
    have hn : (((s.cmds p).reqLen + pktSize).setWidth 32).toNat + 8 < 2 ^ 32 := by
      rw [BitVec.toNat_setWidth]
      omega
    by_cases hnull : (createMessage (s.sys.chan w.side).ring (Machine.of s.sys.mem)
        (((s.cmds p).reqLen + pktSize).setWidth 32)).buf = 0
    · have hr : r = ⟨_, s.clients i, _, (createMessage _ _ _).ring, (createMessage _ _ _).m,
          none⟩ := (if_neg hrunning).trans ((if_neg hbig).trans (if_pos hnull))
      obtain ⟨hmem, hsys⟩ := post_none h.sys hn hnull
      rw [hr]
      exact ⟨rfl, rfl, hpending, hmem, hsys⟩
    · have hr : r = ⟨rpcOk, _, _, _, _, _⟩ :=
        (if_neg hrunning).trans ((if_neg hbig).trans (if_neg hnull))
      exact absurd (congrArg Called.ret hr) herr

/-- A call that succeeds sends the packet of its command to the server. -/
theorem execute_ok (h : Inv w app₀ s)
    (hok : (executeCmd (s.clients i) (w.clientEpt i) w.server.rpmsgEpt.addr s.cmds (some p)
      (s.sys.chan w.side).ring (Machine.of s.sys.mem)).ret = rpcOk) :
    let r := executeCmd (s.clients i) (w.clientEpt i) w.server.rpmsgEpt.addr s.cmds (some p)
      (s.sys.chan w.side).ring (Machine.of s.sys.mem)
    ∃ b, r.sent = some (b + 8#32) ∧ r.client = ⟨true, (s.clients i).pendingId + 1, some p⟩ ∧
      (∀ q, w.FreeCmd (r.cmds q)) ∧
      Sent (w.pair.link w.side) s.sys.mem r.m.mem b (w.clientEpt i).addr w.server.rpmsgEpt.addr
        (request (s.clients i) (s.cmds p) s.sys.mem) ∧
      SysInv w.pair (post s.sys w.side r.ring r.m.mem (some (msgAt r.m.mem b))) := by
  intro r
  obtain ⟨t, ht⟩ := h.sys w.side
  obtain ⟨hclient, hcmds, b, hsent, hreq⟩ := executeCmd_spec (w.pair.placed w.side) ht.refines
    (fun b hb => ht.mem_addrs_of_free hb) (FreeCmd.apart (h.cmds p) w.side) hok
  obtain ⟨-, hsmall, hbuf, heq⟩ := executeCmd_of_ok hok
  have hle : (s.cmds p).reqLen.toNat ≤ 0xffff - 8 := BitVec.not_lt.mp hsmall
  have hsum : (((s.cmds p).reqLen + pktSize).setWidth 32).toNat = (s.cmds p).reqLen.toNat + 8 := by
    rw [BitVec.toNat_setWidth, BitVec.toNat_add, show pktSize.toNat = 8 from rfl]
    omega
  have hsys := post_some h.sys (by omega) hbuf (w.clientEpt i) w.server.rpmsgEpt.addr
    ((s.clients i).pendingId + 1) (s.cmds p).cmdId Rpc.statusPending (s.cmds p).reqLen
    (by omega) (s.cmds p).reqData
  have hb : (createMessage (s.sys.chan w.side).ring (Machine.of s.sys.mem)
      (((s.cmds p).reqLen + pktSize).setWidth 32)).buf = b + 8#32 := by
    have hsome := hsent
    rw [heq] at hsome
    exact Option.some.inj hsome
  have hitem : b = (createMessage (s.sys.chan w.side).ring (Machine.of s.sys.mem)
      (((s.cmds p).reqLen + pktSize).setWidth 32)).buf - 8#32 := by
    rw [hb, BitVec.add_sub_cancel]
  refine ⟨b, hsent, hclient, ?_, hreq, ?_⟩
  · rw [hcmds]
    exact freeCmd_update h.cmds (h.cmds p)
  · have hr : r = _ := heq
    rw [hr, hitem]
    exact hsys

theorem shows_of_sent {u : Setup} {m m' : Memory 32} {b : U32} {src dst : U16} {pkt : Pkt}
    (h : Sent u m m' b src dst pkt) : Shows (msgAt m' b) pkt := by
  have hshows := shows_msgAt (m := m') (b := b) (by rw [h.packet, h.len])
  rwa [h.packet] at hshows

variable [DecidableEq ι]

section Numbers
variable {clients : ι → Client κ} {count : ι → ℕ}

omit [DecidableEq κ] [DecidableEq ι] in
theorem pendingId_after (h : ∀ j, (clients j).running = true ∧
    (clients j).pendingId = BitVec.ofNat 16 (count j)) (i : ι) :
    (clients i).pendingId + 1 = BitVec.ofNat 16 (count i + 1) := by
  rw [(h i).2, BitVec.ofNat_add]
  rfl

omit [DecidableEq κ] in
theorem clients_after (h : ∀ j, (clients j).running = true ∧
    (clients j).pendingId = BitVec.ofNat 16 (count j)) (i : ι) (p : κ) (j : ι) :
    (Function.update clients i ⟨true, (clients i).pendingId + 1, some p⟩ j).running = true ∧
      (Function.update clients i ⟨true, (clients i).pendingId + 1, some p⟩ j).pendingId =
        BitVec.ofNat 16 (Function.update count i (count i + 1) j) := by
  by_cases hj : j = i
  · subst hj
    rw [Function.update_self, Function.update_self]
    exact ⟨rfl, pendingId_after h j⟩
  · rw [Function.update_of_ne hj, Function.update_of_ne hj]
    exact h j

/-- A call stays a call when its client makes another one. -/
theorem IsCall.after {c : Call ι κ} (h : IsCall clients count c) (i : ι) (client : Client κ) :
    IsCall (Function.update clients i client) (Function.update count i (count i + 1)) c := by
  obtain ⟨hle, hlast, hmsgId⟩ := h
  by_cases hj : c.client = i
  · subst hj
    refine ⟨?_, fun heq => ?_, hmsgId⟩
    · rw [Function.update_self]
      omega
    · rw [Function.update_self] at heq
      omega
  · refine ⟨?_, fun heq => ?_, hmsgId⟩
    · rwa [Function.update_of_ne hj]
    · rw [Function.update_of_ne hj] at heq ⊢
      exact hlast heq

end Numbers

/-- A call of a client is numbered, and its request is the last message of its channel. -/
theorem Inv.called (h : Inv w app₀ s) {cmds : κ → CmdBlock} (hcmds : ∀ q, w.FreeCmd (cmds q))
    {mem' : Memory 32} {b : U32} {ring : Vring}
    (hreq : Sent (w.pair.link w.side) s.sys.mem mem' b (w.clientEpt i).addr
      w.server.rpmsgEpt.addr (request (s.clients i) (s.cmds p) s.sys.mem))
    (hsys : SysInv w.pair (post s.sys w.side ring mem' (some (msgAt mem' b)))) :
    Inv w app₀ { s with
      sys := post s.sys w.side ring mem' (some (msgAt mem' b))
      clients := Function.update s.clients i ⟨true, (s.clients i).pendingId + 1, some p⟩
      cmds := cmds
      count := Function.update s.count i (s.count i + 1)
      calls := s.calls ++
        [⟨i, s.count i + 1, p, request (s.clients i) (s.cmds p) s.sys.mem⟩] } := by
  have hlookup : ∀ {tag : ℕ} {c : Call ι κ}, s.calls[tag]? = some c →
      ∀ more, (s.calls ++ more)[tag]? = some c := fun hc more =>
    (List.getElem?_append_left (List.getElem?_eq_some_iff.mp hc).1).trans hc
  have hother : (post s.sys w.side ring mem' (some (msgAt mem' b))).chan w.side.other =
      s.sys.chan w.side.other := post_other ..
  have hside := post_chan (s := s.sys) (d := w.side) ring mem' (some (msgAt mem' b))
  exact {
    sys := hsys
    serverEpts := by rw [hside]; exact h.serverEpts
    clientEpts := by rw [hother]; exact h.clientEpts
    cmds := hcmds
    requests := by
      rw [hside]
      refine List.rel_append h.requests (.cons ⟨?_, ?_, shows_of_sent hreq⟩ .nil)
      · exact hreq.destination
      · exact hreq.source
    responses := by
      rw [hother]
      refine h.responses.imp fun msg tag hm => ?_
      simpa using hm.mono [⟨i, s.count i + 1, p, request (s.clients i) (s.cmds p) s.sys.mem⟩] []
    items := by rw [hside]; exact h.items
    kept := fun r hr => by
      obtain ⟨msg, hmsg, hsrc, hheld⟩ := h.kept r hr
      rw [hside]
      exact ⟨msg, (List.getElem?_append_left (List.getElem?_eq_some_iff.mp hmsg).1).trans hmsg,
        hsrc, hheld⟩
    returned := by rw [hother]; exact h.returned
    queueless := h.queueless
    places := by rw [hside]; exact h.places
    order := h.order
    served := fun e he => by
      obtain ⟨hlt, c, hc, hreq⟩ := h.served e he
      rw [hside]
      exact ⟨hlt, c, hlookup hc _, hreq⟩
    servedOrder := h.servedOrder
    app := h.app
    working := fun tag clientAddr msgId cmdId cmd htask => by
      obtain ⟨c, out, hc, hout, haddr, hids, hcmd, hready⟩ := h.working _ _ _ _ _ htask
      exact ⟨c, out, hlookup hc _, hout, haddr, hids, hcmd,
        hready.congr (respBuf_of_item hreq.mem_addrs hreq.frame)⟩
    clients := clients_after h.clients i p
    calls := fun c hc => by
      rcases List.mem_append.mp hc with hc | hc
      · exact (h.calls c hc).after i _
      · obtain rfl := List.mem_singleton.mp hc
        refine ⟨?_, fun _ => ?_, pendingId_after h.clients i⟩
        · simp only [Function.update_self, le_refl]
        · simp only [Function.update_self]
    completed := by rw [hother]; exact h.completed }

theorem Inv.execute (h : Inv w app₀ s) (i : ι) (p : κ) : Inv w app₀ (s.execute w i p) := by
  by_cases hok : (executeCmd (s.clients i) (w.clientEpt i) w.server.rpmsgEpt.addr s.cmds (some p)
      (s.sys.chan w.side).ring (Machine.of s.sys.mem)).ret = rpcOk
  · obtain ⟨b, hsent, hclient, hcmds, hreq, hsys⟩ := execute_ok h hok
    simp only [State.execute, hsent, hclient, Option.isSome_some, if_true, Option.map_some,
      BitVec.add_sub_cancel]
    exact h.called hcmds hreq hsys
  · obtain ⟨hsent, hclient, hcmds, hmem, hsys⟩ := execute_error h hok
    simp only [State.execute, hsent, hclient, Option.isSome_none, Bool.false_eq_true, if_false,
      Option.map_none, Function.update_eq_self]
    exact (h.of_cmds hcmds).of_rings hsys hmem (post_none_chan s.sys w.side _ _)

end Call
end EspAmp.RpcSystem
