import EspAmp.RpcRoundTrip
import EspAmp.RpmsgPair

/-!
# Whole calls on a pair of devices

An RPC function creates a message, stores a packet in it and sends it, and does nothing
else with the transport; a callback that is done with a message destroys it. Here these
are single steps of a pair of devices. A message that is sent joins the channel behind the
ones sent before, a poll hands the next one to the callback of its endpoint, and memory
outside of the items is free for all other use.
-/
namespace EspAmp.RpmsgPost
open ByteMemory VirtqueueFifo Rpmsg RpmsgChannel RpmsgPair RpcWire RpcRoundTrip
open Rpc (Pkt pktSize)

section Packets
variable {m m' : Memory 32} {a a' : U32} {n : ℕ}

/-- Packets in the same bytes are the same, wherever they lie. -/
theorem pktAt_of_read_eq (h : ByteMemory.read m' a' n = ByteMemory.read m a n)
    (hn : 8 + (pktAt m a).msgLen.toNat ≤ n) : pktAt m' a' = pktAt m a := by
  have hbyte (i : ℕ) (hi : i < n) : m' (a' + BitVec.ofNat 32 i) = m (a + BitVec.ofNat 32 i) := by
    have hget := List.getElem_of_eq h (i := i) (by rwa [length_read])
    simpa only [ByteMemory.read, List.getElem_map, List.getElem_range] using hget
  have hword (k : ℕ) (hk : k + 2 ≤ n) :
      word16 m' (a' + BitVec.ofNat 32 k) = word16 m (a + BitVec.ofNat 32 k) := by
    unfold word16
    simp only [BitVec.add_assoc, ← BitVec.ofNat_add]
    rw [hbyte (k + 1) (by omega), hbyte (k + 0) (by omega)]
  have hlen : word16 m' (a' + 6#32) = word16 m (a + 6#32) := hword 6 (by omega)
  have hdata : ByteMemory.read m' (a' + 8#32) (word16 m (a + 6#32)).toNat =
      ByteMemory.read m (a + 8#32) (word16 m (a + 6#32)).toNat := by
    refine List.map_congr_left fun i hi => ?_
    rw [List.mem_range] at hi
    have hi' : i < (pktAt m a).msgLen.toNat := hi
    rw [BitVec.add_assoc, BitVec.add_assoc, ← BitVec.ofNat_add]
    exact hbyte (8 + i) (by omega)
  rw [pktAt, pktAt, hlen, hdata, hword 0 (by omega), hword 2 (by omega), hword 4 (by omega)]

/-- A message shows a packet in every item that holds it. -/
def Shows (msg : Msg) (pkt : Pkt) : Prop := ∀ m b, msgAt m b = msg → pktAt m (b + 8#32) = pkt

theorem shows_msgAt {b : U32}
    (hlen : 8 + (pktAt m (b + 8#32)).msgLen.toNat ≤ (dataLenAt m b).toNat) :
    Shows (msgAt m b) (pktAt m (b + 8#32)) := by
  intro m' b' hmsg
  have hsame : dataLenAt m' b' = dataLenAt m b := congrArg Msg.len hmsg
  have hpayload : msgDataAt m' b' = msgDataAt m b := congrArg Msg.payload hmsg
  rw [msgDataAt, hsame, msgDataAt] at hpayload
  exact pktAt_of_read_eq hpayload hlen

end Packets

section Calls
variable {p : Pair} {s : Sys} {d : Side} {mem' : Memory 32}

/-- A message, if any, is sent on the channel of a side. -/
def post (s : Sys) (d : Side) (ring : Vring) (mem : Memory 32) (msg : Option Msg) : Sys :=
  { s.setChan d { s.chan d with ring := ring, sent := (s.chan d).sent ++ msg.toList } with
    mem := mem }

@[simp] theorem post_chan (ring : Vring) (mem : Memory 32) (msg : Option Msg) :
    (post s d ring mem msg).chan d =
      { s.chan d with ring := ring, sent := (s.chan d).sent ++ msg.toList } := by
  simp [post, Sys.setChan]

@[simp] theorem post_other (ring : Vring) (mem : Memory 32) (msg : Option Msg) :
    (post s d ring mem msg).chan d.other = s.chan d.other := by
  simp [post, Sys.setChan]

@[simp] theorem post_mem (ring : Vring) (mem : Memory 32) (msg : Option Msg) :
    (post s d ring mem msg).mem = mem := rfl

/-- The callbacks that a poll of a side calls. -/
def pollCalls (s : Sys) (d : Side) : List CbCall :=
  (rpmsgPoll ⟨(s.chan d.other).ring, s.mem⟩ (s.chan d.other).epts).1.2

/-- No item of either direction is stored to. -/
def ItemsKept (p : Pair) (mem mem' : Memory 32) : Prop :=
  ∀ e, ∀ b ∈ (p.link e).addrs, ∀ x, Within b (p.link e).itemSize.toNat x → mem' x = mem x

theorem sysInv_of_itemsKept (h : SysInv p s) (hm : ItemsKept p s.mem mem') :
    SysInv p { s with mem := mem' } := by
  intro e
  obtain ⟨t, ht⟩ := h e
  refine ⟨t, ht.frame (fun q hq x hx => ?_) fun k hk _ x hx => ?_⟩
  · exact hm e q.1 (ht.mem_addrs_of_sent (List.mem_map_of_mem hq)) x hx
  · exact hm e k.buffer (ht.mem_addrs_of_rxHeld (List.mem_map_of_mem hk)) x hx

/-- A message that could not be created leaves the memory as it was. -/
theorem post_none (h : SysInv p s) {nbytes : U32} (hn : nbytes.toNat + 8 < 2 ^ 32)
    (hnull : (createMessage (s.chan d).ring (Machine.of s.mem) nbytes).buf = 0) :
    let r := createMessage (s.chan d).ring (Machine.of s.mem) nbytes
    r.m.mem = s.mem ∧ SysInv p (post s d r.ring r.m.mem none) := by
  intro r
  obtain ⟨t, ht⟩ := h d
  rcases createMessage_cases (l := ⟨(s.chan d).ring, s.mem⟩) (p.placed d) ht.refines
    (fun b hb => ht.mem_addrs_of_free hb) hn 0 with ⟨-, hmem, hr⟩ | ⟨b, bs, hf, hfit, hret, -⟩
  · have hmem' : r.m.mem = s.mem := hmem
    refine ⟨hmem', SysInv.setChan ?_ ⟨t, ?_⟩⟩
    · rw [hmem']
      exact h d.other
    · rw [hmem', Option.toList_none, List.append_nil]
      exact ht.of_ring hr
  · have hb : b ∈ (p.link d).addrs := ht.mem_addrs_of_free (hf ▸ List.mem_cons_self)
    exact absurd (hret.symm.trans hnull) ((p.placed d).data_ne_zero hb (by omega))

/-- A created message that is filled and sent joins its channel, as it is in memory. -/
theorem post_some (h : SysInv p s) {nbytes : U32} (hn : nbytes.toNat + 8 < 2 ^ 32)
    (hbuf : (createMessage (s.chan d).ring (Machine.of s.mem) nbytes).buf ≠ 0) (ept : Ept)
    (dstAddr msgId cmdId status msgLen : U16) (hfits : 8 + msgLen.toNat ≤ nbytes.toNat)
    (msgData : U32) :
    let r := createMessage (s.chan d).ring (Machine.of s.mem) nbytes
    let q := sendPkt r.ring r.m ept dstAddr r.buf (pktHeader msgId cmdId status msgLen) msgData
      msgLen
    SysInv p (post s d q.1 q.2.mem (some (msgAt q.2.mem (r.buf - 8#32)))) := by
  intro r q
  obtain ⟨t, ht⟩ := h d
  have hp := p.placed d
  have hlen : (pktSize + msgLen).toNat ≤ nbytes.toNat := by
    refine le_trans ?_ hfits
    rw [BitVec.toNat_add]
    exact Nat.mod_le _ _
  have hfilled : r.buf - 8#32 + 8#32 = r.buf := BitVec.sub_add_cancel ..
  -- the created buffer is held
  obtain ⟨hcreated, t₁, ht₁⟩ := ht.createMessage hp hn 0
  have hnull : ¬ (rpmsgCreateMessage ⟨(s.chan d).ring, s.mem⟩ nbytes 0).1 = 0 := hbuf
  simp only [Chan.createMessage, if_neg hnull] at hcreated ht₁
  have hroom : nbytes.toNat + 8 ≤ (p.link d).itemSize.toNat :=
    ht₁.created (r.buf - 8#32, nbytes.toNat) List.mem_cons_self
  -- the packet is stored in it
  set m₂ := write (write r.m.mem r.buf (pktHeader msgId cmdId status msgLen)) (r.buf + 8#32)
    (read (write r.m.mem r.buf (pktHeader msgId cmdId status msgLen)) msgData msgLen.toNat)
  have hstored : ∀ x, ¬ Within (r.buf - 8#32) (p.link d).itemSize.toNat x → m₂ x = r.m.mem x := by
    intro x hx
    have hbehind : ∀ n, n ≤ nbytes.toNat → ¬ Within r.buf n x := fun n hle hw => by
      rw [← hfilled] at hw
      exact hx (within_of_offset (by omega) hw)
    refine (write_of_not_within fun hw => ?_).trans (write_of_not_within (hbehind 8 (by omega)))
    rw [length_read] at hw
    exact hbehind _ hfits (within_of_offset le_rfl hw)
  have ht₂ := ht₁.frame_held hp (b := r.buf - 8#32)
    (List.mem_map_of_mem (f := Prod.fst) List.mem_cons_self) hstored
  -- and it is sent
  have hpos : t₁.allocated ≠ 0 := by simp [ht₁.allocated]
  obtain ⟨hret, hmem, -⟩ := sendNocopy_spec (l := ⟨r.ring, m₂⟩) hp ht₂.refines hpos ept dstAddr
    r.buf (pktSize + msgLen)
  have hheld : ∃ q ∈ (r.buf - 8#32, nbytes.toNat) :: (s.chan d).txHeld,
      q.1 = r.buf - 8#32 ∧ (pktSize + msgLen).toNat ≤ q.2 := ⟨_, List.mem_cons_self, rfl, hlen⟩
  obtain ⟨hsent, t₃, ht₃⟩ := ht₂.sendNocopy hp ept dstAddr hheld
  have hq : q.2.mem = setHeader m₂ (r.buf - 8#32) dstAddr ept.addr (pktSize + msgLen) := hmem
  have hmsg := msgAt_setHeader (m := m₂) (b := r.buf - 8#32) dstAddr ept.addr (pktSize + msgLen)
  rw [← hq, hfilled] at hmsg
  have hret' : (rpmsgSendNocopy ⟨(rpmsgCreateMessage ⟨(s.chan d).ring, s.mem⟩ nbytes 0).2.ring, m₂⟩
    ept dstAddr r.buf (pktSize + msgLen)).1 = 0 := hret
  simp only [Chan.sendNocopy, hret', if_true] at hsent ht₃
  have hitem : r.buf - 8#32 ∈ (p.link d).addrs := ht₁.mem_addrs_of_txHeld
    (List.mem_map_of_mem (f := Prod.fst) List.mem_cons_self)
  have hlocal : Local (p.link d) s.mem q.2.mem :=
    (hcreated.trans (Local.of_buffer hitem hstored)).trans hsent
  refine SysInv.setChan (h.other_of_local hlocal) ⟨t₃, ?_⟩
  have herase : (((rpmsgCreateMessage ⟨(s.chan d).ring, s.mem⟩ nbytes 0).1 - 8#32, nbytes.toNat) ::
      (s.chan d).txHeld).eraseP (fun k => k.1 == r.buf - 8#32) = (s.chan d).txHeld :=
    List.eraseP_cons_of_pos (beq_self_eq_true _)
  rw [herase] at ht₃
  rw [hmsg]
  exact ht₃

/-- A poll finds nothing, or it takes the first message that was not polled yet, in an item
that the receiver holds from then on, and calls the callback of its endpoint. -/
theorem poll_cases (h : SysInv p s)
    (hept : ∀ msg ∈ (s.chan d.other).sent, ∃ ept cb,
      searchEndpoint (s.chan d.other).epts msg.dst = some ept ∧ ept.rxCb = some cb) :
    (pollCalls s d = [] ∧ (s.chan d.other).sent.length = (s.chan d.other).polled.length ∧
      ∃ ring, s.exec p d .poll = s.setChan d.other { s.chan d.other with ring := ring }) ∨
    ∃ b ∈ (p.link d.other).addrs, ∃ msg ept cb ring,
      (s.chan d.other).sent[(s.chan d.other).polled.length]? = some msg ∧ msgAt s.mem b = msg ∧
      searchEndpoint (s.chan d.other).epts msg.dst = some ept ∧
      pollCalls s d =
        [⟨ept.addr, cb, b + 8#32, msg.len, msg.src, ept.rxCbData, msg.payload⟩] ∧
      s.exec p d .poll = s.setChan d.other { s.chan d.other with
        ring := ring
        rxHeld := ⟨b, msg, false⟩ :: (s.chan d.other).rxHeld
        polled := (s.chan d.other).polled ++ [⟨b, msg, some ept,
          [⟨ept.addr, cb, b + 8#32, msg.len, msg.src, ept.rxCbData, msg.payload⟩]⟩] } := by
  obtain ⟨t, ht⟩ := h d.other
  rcases recv_cases (p.placed d.other) ht.refines with
    ⟨hnone, hret, -⟩ | ⟨b, size, rest, hsent, hret, hb, -⟩
  · refine .inl ⟨?_, ?_, (s.chan d.other).ring.apply .recv, ?_⟩
    · simp only [pollCalls, rpmsgPoll, if_pos hret]
    · have hlog := congrArg List.length ht.log
      rwa [hnone, List.map_nil, List.append_nil, List.length_map] at hlog
    · simp only [Sys.exec, Chan.poll, rpmsgPoll, if_pos hret]
  · have hlog := ht.log
    rw [hsent, List.map_cons] at hlog
    have hnext : (s.chan d.other).sent[(s.chan d.other).polled.length]? = some (msgAt s.mem b) := by
      rw [hlog, List.getElem?_append_right (by rw [List.length_map]), List.length_map, Nat.sub_self]
      rfl
    obtain ⟨ept, cb, hsearch, hcb⟩ := hept _ (List.mem_of_getElem? hnext)
    have hsearch' : searchEndpoint (s.chan d.other).epts (dstAddrAt s.mem b) = some ept := hsearch
    have hcalls : (rpmsgDispatcher s.mem (s.chan d.other).epts b).2 =
        [⟨ept.addr, cb, b + 8#32, (msgAt s.mem b).len, (msgAt s.mem b).src, ept.rxCbData,
          (msgAt s.mem b).payload⟩] := by
      simp only [rpmsgDispatcher, hsearch', hcb]
      rfl
    have hmsg : CbCall.msg ⟨ept.addr, cb, b + 8#32, (msgAt s.mem b).len, (msgAt s.mem b).src,
        ept.rxCbData, (msgAt s.mem b).payload⟩ = msgAt s.mem b := by
      simp only [CbCall.msg, msgAt, (addr_of_search hsearch').2]
    refine .inr ⟨b, ht.mem_addrs_of_sent (by simp [hsent]), _, ept, cb,
      (s.chan d.other).ring.apply .recv, hnext, rfl, hsearch, ?_, ?_⟩
    · simp only [pollCalls, rpmsgPoll, hret, hb, ne_eq, not_true_eq_false, if_false, hcalls]
    · simp only [Sys.exec, Chan.poll, rpmsgPoll, hret, hb, ne_eq, not_true_eq_false, if_false,
        hcalls, List.map_cons, List.map_nil, hmsg, BitVec.add_sub_cancel, hsearch', reduceCtorEq]
      rfl

/-- Items that a receiver holds are different. -/
theorem held_nodup (h : SysInv p s) :
    ((s.chan d).rxHeld.map Held.buffer).Nodup := by
  obtain ⟨t, ht⟩ := h d
  have hnd := ht.nodup (p.placed d)
  exact (List.nodup_append.mp (List.nodup_append.mp hnd).1).2.1

/-- What a receiver holds and has not stored to is as it was sent. -/
theorem held_msg (h : SysInv p s) {k : Held} (hk : k ∈ (s.chan d).rxHeld)
    (hw : k.written = false) :
    k.buffer ∈ (p.link d).addrs ∧ msgAt s.mem k.buffer = k.msg := by
  obtain ⟨t, ht⟩ := h d
  exact ⟨ht.mem_addrs_of_rxHeld (List.mem_map_of_mem hk), (ht.intact k hk hw).1⟩

/-- A destroyed item is not held any more. -/
theorem destroy_spec (h : SysInv p s) (data : U32)
    (hheld : data - 8#32 ∈ (s.chan d.other).rxHeld.map Held.buffer) :
    SysInv p (s.exec p d (.destroy data)) ∧ ∃ ring, s.exec p d (.destroy data) =
      s.setChan d.other { s.chan d.other with
        ring := ring
        rxHeld := (s.chan d.other).rxHeld.eraseP fun k => k.buffer == data - 8#32 } := by
  refine ⟨h.exec (show s.Legal p d (.destroy data) from hheld), ?_⟩
  obtain ⟨t, ht⟩ := h d.other
  have hpos : t.received ≠ 0 := by
    have hlen := List.length_pos_of_mem hheld
    rw [List.length_map] at hlen
    rw [ht.received]
    omega
  obtain ⟨hreply, -⟩ := refines_call (p.placed d.other) ht.refines (.free (data - 8#32))
  simp only [fifoStep, if_neg hpos] at hreply
  have hret : (rpmsgDestroy (s.chan d.other).ring data).1 = 0 := by
    rw [rpmsgDestroy, hreply]
    rfl
  refine ⟨(rpmsgDestroy (s.chan d.other).ring data).2, ?_⟩
  simp only [Sys.exec, Chan.destroy, if_pos hret]

theorem setChan_setChan (c c' : RpmsgChannel.Chan) :
    (s.setChan d c).setChan d c' = s.setChan d c' := by
  simp only [Sys.setChan, Function.update_idem]

/-- A channel after a poll that found a message. -/
def polledChan (c : RpmsgChannel.Chan) (ring : Vring) (held : List Held)
    (e : RpmsgChannel.Polled) : RpmsgChannel.Chan :=
  { c with ring := ring, rxHeld := held, polled := c.polled ++ [e] }

/-- A message that is destroyed behind its poll is not held. -/
theorem destroy_polled {ring : Vring} {b : U32} {msg : Msg} {e : RpmsgChannel.Polled}
    (hsys : SysInv p (s.setChan d.other (polledChan (s.chan d.other) ring
      (⟨b, msg, false⟩ :: (s.chan d.other).rxHeld) e))) :
    let t := s.setChan d.other (polledChan (s.chan d.other) ring
      (⟨b, msg, false⟩ :: (s.chan d.other).rxHeld) e)
    SysInv p (t.exec p d (.destroy (b + 8#32))) ∧
      ∃ ring', t.exec p d (.destroy (b + 8#32)) =
        s.setChan d.other (polledChan (s.chan d.other) ring' (s.chan d.other).rxHeld e) := by
  intro t
  have hchan : t.chan d.other = polledChan (s.chan d.other) ring
      (⟨b, msg, false⟩ :: (s.chan d.other).rxHeld) e := Function.update_self ..
  have hdestroy := destroy_spec (d := d) hsys (b + 8#32)
  rw [BitVec.add_sub_cancel] at hdestroy
  change _ ∈ (t.chan d.other).rxHeld.map Held.buffer → _ at hdestroy
  rw [hchan] at hdestroy
  obtain ⟨hgone, ring', hexec⟩ := hdestroy List.mem_cons_self
  refine ⟨hgone, ring', hexec.trans ?_⟩
  rw [setChan_setChan]
  simp only [polledChan, List.eraseP_cons_of_pos, beq_self_eq_true]

end Calls
end EspAmp.RpmsgPost
