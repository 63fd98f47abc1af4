import EspAmp.VirtqueueFifo
import Mathlib.Algebra.Order.Group.Multiset
import Mathlib.Tactic.Abel

/-!
# Exclusive ownership of the item buffers

The raw table keeps stale addresses, so ownership is stated over what the two
handles can still obtain: the addresses that successive allocations, and
successive receptions, would return. The two cores additionally hold what they
obtained and did not yet pass on. In every run that passes on only held buffers
these four collections together are the initial addresses.

A call is accepted when it advances an index of its handle. For the notify
functions the interface asks for, which return zero, this is what the return
code says; a notify function that reports an error would hide an accepted send.
-/
namespace EspAmp.VirtqueueOwnership
open ByteMemory Virtqueue VirtqueueFifo ReplyMachine RingLaps

/-- The call advanced one of the two indices of the handle it was made on. -/
def accepted (s : Vring) (call : Call) : Bool :=
  let q := if call.onMaster then s.master else s.remote
  !((s.outcome call).queue.freeIndex == q.freeIndex &&
    (s.outcome call).queue.usedIndex == q.usedIndex)

/-- Addresses that up to `fuel` successive allocations return. -/
def allocable : ℕ → Vring → List U32
  | 0, _ => []
  | fuel + 1, s =>
      if (s.reply (.alloc 0)).ret = espOk then
        (s.reply (.alloc 0)).buffer :: allocable fuel (s.apply (.alloc 0))
      else []

/-- Addresses that up to `fuel` successive receptions return. -/
def receivable : ℕ → Vring → List U32
  | 0, _ => []
  | fuel + 1, s =>
      if (s.reply .recv).ret = espOk then
        (s.reply .recv).buffer :: receivable fuel (s.apply .recv)
      else []

structure Owned where
  ring : Vring
  masterHeld : Multiset U32
  remoteHeld : Multiset U32

/-- Accepted calls move one address between a core's hands and the queue. -/
def Owned.own (o : Owned) (call : Call) : Owned :=
  if accepted o.ring call then
    match call with
    | .alloc _ => { o with
        ring := o.ring.apply call
        masterHeld := (o.ring.reply call).buffer ::ₘ o.masterHeld }
    | .send b _ => { o with ring := o.ring.apply call, masterHeld := o.masterHeld.erase b }
    | .recv => { o with
        ring := o.ring.apply call
        remoteHeld := (o.ring.reply call).buffer ::ₘ o.remoteHeld }
    | .free b => { o with ring := o.ring.apply call, remoteHeld := o.remoteHeld.erase b }
  else { o with ring := o.ring.apply call }

/-- Only held buffers are sent or freed. -/
def Owned.Legal (o : Owned) : Call → Prop
  | .send b _ => b ∈ o.masterHeld
  | .free b => b ∈ o.remoteHeld
  | .alloc _ | .recv => True

instance (o : Owned) : DecidablePred o.Legal
  | .send b _ => inferInstanceAs (Decidable (b ∈ o.masterHeld))
  | .free b => inferInstanceAs (Decidable (b ∈ o.remoteHeld))
  | .alloc _ => inferInstanceAs (Decidable True)
  | .recv => inferInstanceAs (Decidable True)

def OwnStep (o : Owned) (call : Call) (o' : Owned) : Prop := o.Legal call ∧ o' = o.own call

/-- Nobody holds anything yet. -/
def start (u : Setup) : Owned := ⟨u.start, 0, 0⟩

section
variable {u : Setup} {s : Vring} {c : Counters} {o : Owned}

theorem ofNat_succ_ne (m : ℕ) : BitVec.ofNat 16 (m + 1) ≠ BitVec.ofNat 16 m := by
  intro h
  have := congrArg BitVec.toNat h
  simp only [BitVec.toNat_ofNat] at this
  omega

/-- A call is accepted exactly when a ghost counter moves. -/
theorem accepted_iff (h : Inv u s c) (call : Call) :
    accepted s call = true ↔ u.next c call ≠ c := by
  have hm := h.master
  have hr := h.remote
  cases call with
  | alloc size =>
      simp only [accepted, Call.onMaster, if_true, Vring.outcome, alloc_spec h, Setup.next]
      split_ifs with g₁ g₂
      · simp
      · simp [hm, handleAt, ofNat_succ_ne, Counters.ext_iff]
      · simp
  | send data size =>
      simp only [accepted, Call.onMaster, if_true, Vring.outcome, send_spec h, Setup.next]
      split_ifs with g₁ g₂
      · simp
      · simp
      · simp [hm, handleAt, ofNat_succ_ne, Counters.ext_iff]
  | recv =>
      simp only [accepted, Call.onMaster, Bool.false_eq_true, if_false, Vring.outcome,
        recv_spec h, Setup.next]
      split_ifs with g₁
      · simp [hr, handleAt, ofNat_succ_ne, Counters.ext_iff]
      · simp
  | free buffer =>
      simp only [accepted, Call.onMaster, Bool.false_eq_true, if_false, Vring.outcome,
        free_spec h, Setup.next]
      split_ifs with g₁
      · simp
      · simp [hr, handleAt, ofNat_succ_ne, Counters.ext_iff]

/-- For a quiet notify function acceptance is the return code. -/
theorem accepted_iff_ret (h : Inv u s c) (hu : u.QuietNotify) (call : Call) :
    accepted s call = true ↔ (s.reply call).ret = espOk := by
  rw [accepted_iff h]
  cases call with
  | alloc size =>
      simp only [Vring.reply, Vring.outcome, alloc_spec h, Setup.next]
      split_ifs <;> simp [Counters.ext_iff]
  | send data size =>
      simp only [Vring.reply, Vring.outcome, send_spec h, Setup.next, hu.notify]
      split_ifs <;> simp [Counters.ext_iff]
  | recv =>
      simp only [Vring.reply, Vring.outcome, recv_spec h, Setup.next]
      split_ifs <;> simp [Counters.ext_iff]
  | free buffer =>
      simp only [Vring.reply, Vring.outcome, free_spec h, Setup.next]
      split_ifs <;> simp [Counters.ext_iff]

/-- Every live address is counted once, with the counters as the witness. -/
structure OwnInv (u : Setup) (o : Owned) (c : Counters) : Prop where
  ring : Inv u o.ring c
  total : ((u.view o.ring c).free : Multiset U32) + o.masterHeld +
    ((u.view o.ring c).sent.map Prod.fst : List U32) + o.remoteHeld = (u.addrs : Multiset U32)

theorem own_ring (o : Owned) (call : Call) : (o.own call).ring = o.ring.apply call := by
  unfold Owned.own
  split_ifs
  · cases call <;> rfl
  · rfl

theorem own_of_rejected (h : Inv u o.ring c) {call : Call} (hc : u.next c call = c) :
    o.own call = o := by
  unfold Owned.own
  rw [if_neg (mt (accepted_iff h call).mp (not_not.mpr hc)), apply_of_rejected h hc]

/-- An accepted call moves one address and leaves the total alone. -/
theorem own_total (h : OwnInv u o c) {call : Call} (hl : o.Legal call)
    (hc : u.next c call ≠ c) :
    ((u.view (o.ring.apply call) (u.next c call)).free : Multiset U32) +
      (o.own call).masterHeld +
      ((u.view (o.ring.apply call) (u.next c call)).sent.map Prod.fst : List U32) +
      (o.own call).remoteHeld = (u.addrs : Multiset U32) := by
  have hi := h.ring
  have h₁ := hi.frees_le
  have h₃ := hi.sends_le
  have hacc := (accepted_iff hi call).mpr hc
  rw [view_apply hi, ← h.total]
  cases call with
  | alloc size =>
      obtain ⟨g₁, g₂⟩ := next_alloc_ne.mp hc
      simp [Owned.own, hacc, Vring.reply, Vring.outcome, alloc_spec hi, fifoStep, g₁, g₂,
        Setup.view, List.Ico.eq_cons g₂, ← Multiset.cons_coe]
  | send b size =>
      obtain ⟨g₁, g₂⟩ := next_send_ne.mp hc
      have g₀ : ¬ (u.view o.ring c).allocated = 0 := by
        change ¬ c.allocs - c.sends = 0
        omega
      have hb : b ::ₘ o.masterHeld.erase b = o.masterHeld := Multiset.cons_erase hl
      rw [show (o.own (.send b size)).masterHeld = o.masterHeld.erase b by
        simp [Owned.own, hacc]]
      conv_rhs => rw [← hb]
      simp [Owned.own, hacc, fifoStep, g₀, g₂, ← Multiset.coe_add, ← Multiset.singleton_add]
      abel
  | recv =>
      have g := next_recv_ne.mp hc
      simp [Owned.own, hacc, Vring.reply, Vring.outcome, recv_spec hi, fifoStep, g,
        Setup.view, List.Ico.eq_cons g, ← Multiset.cons_coe, Multiset.add_cons]
  | free b =>
      have g := next_free_ne.mp hc
      have g₀ : ¬ (u.view o.ring c).received = 0 := by
        change ¬ c.recvs - c.frees = 0
        omega
      have hb : b ::ₘ o.remoteHeld.erase b = o.remoteHeld := Multiset.cons_erase hl
      rw [show (o.own (.free b)).remoteHeld = o.remoteHeld.erase b by simp [Owned.own, hacc]]
      conv_rhs => rw [← hb]
      simp [Owned.own, hacc, fifoStep, g₀, ← Multiset.coe_add, ← Multiset.singleton_add]
      abel

theorem own_inv (h : OwnInv u o c) {call : Call} (hl : o.Legal call) :
    OwnInv u (o.own call) (u.next c call) := by
  by_cases hc : u.next c call = c
  · rw [own_of_rejected h.ring hc, hc]
    exact h
  · refine ⟨?_, ?_⟩
    · rw [own_ring]
      exact inv_apply h.ring call
    · rw [own_ring]
      exact own_total h hl hc

theorem start_ownInv (u : Setup) : OwnInv u (start u) {} where
  ring := start_inv u
  total := by
    rw [show (start u).ring = u.start from rfl, view_start]
    simp [Setup.fifos, start]

theorem run_ownInv {calls : List Call} (h : Run OwnStep (start u) calls o) :
    ∃ c, OwnInv u o c := by
  refine h.invariant (P := fun o => ∃ c, OwnInv u o c) ?_ ⟨{}, start_ownInv u⟩
  rintro o call _ ⟨hl, rfl⟩ ⟨c, hc⟩
  exact ⟨u.next c call, own_inv hc hl⟩

/-- Enough successive allocations return the whole free FIFO. -/
theorem allocable_eq (h : Inv u s c) {fuel : ℕ} (hf : c.frees + u.n ≤ c.allocs + fuel) :
    allocable fuel s = (u.view s c).free := by
  induction fuel generalizing s c with
  | zero =>
      have hle : c.frees + u.n ≤ c.allocs := hf
      simp [allocable, Setup.view, List.Ico.eq_nil_of_le hle]
  | succ fuel ih =>
      have hz : ¬ u.itemSize < 0 := by simp
      rw [allocable]
      by_cases g : c.allocs < c.frees + u.n
      · have hnext : u.next c (.alloc 0) = { c with allocs := c.allocs + 1 } := by
          simp [Setup.next, g]
        have hview := view_apply h (.alloc 0)
        rw [hnext] at hview
        have hrest := ih (c := { c with allocs := c.allocs + 1 })
          (hnext ▸ inv_apply h (.alloc 0)) (by dsimp only; omega)
        rw [hrest, hview]
        simp [Vring.reply, Vring.outcome, alloc_spec h, g, fifoStep, Setup.view,
          List.Ico.eq_cons g]
      · simp [Vring.reply, Vring.outcome, alloc_spec h, g, Setup.view,
          List.Ico.eq_nil_of_le (Nat.le_of_not_lt g)]

/-- Enough successive receptions return the whole sent FIFO. -/
theorem receivable_eq (h : Inv u s c) {fuel : ℕ} (hf : c.sends ≤ c.recvs + fuel) :
    receivable fuel s = (u.view s c).sent.map Prod.fst := by
  induction fuel generalizing s c with
  | zero =>
      have hle : c.sends ≤ c.recvs := hf
      simp [receivable, Setup.view, List.Ico.eq_nil_of_le hle]
  | succ fuel ih =>
      rw [receivable]
      by_cases g : c.recvs < c.sends
      · have hnext : u.next c .recv = { c with recvs := c.recvs + 1 } := by
          simp [Setup.next, g]
        have hview := view_apply h .recv
        rw [hnext] at hview
        have hrest := ih (c := { c with recvs := c.recvs + 1 })
          (hnext ▸ inv_apply h .recv) (by dsimp only; omega)
        rw [hrest, hview]
        simp [Vring.reply, Vring.outcome, recv_spec h, g, fifoStep, Setup.view,
          List.Ico.eq_cons g]
      · simp [Vring.reply, Vring.outcome, recv_spec h, g, Setup.view,
          List.Ico.eq_nil_of_le (Nat.le_of_not_lt g)]

theorem allocable_of_refines {t : Fifos} (h : Refines u s t) : allocable u.n s = t.free := by
  obtain ⟨c, hc, rfl⟩ := h
  have horder := hc.order
  exact allocable_eq hc (by omega)

theorem receivable_of_refines {t : Fifos} (h : Refines u s t) :
    receivable u.n s = t.sent.map Prod.fst := by
  obtain ⟨c, hc, rfl⟩ := h
  have horder := hc.order
  exact receivable_eq hc (by omega)

end

theorem itemAddr_injOn (u : Setup) (hs : u.itemSize ≠ 0) {i j : ℕ} (hi : i < u.n) (hj : j < u.n)
    (h : itemAddr u.buffer u.itemSize i = itemAddr u.buffer u.itemSize j) : i = j := by
  have hn := u.n_le
  have hlt : u.itemSize.toNat < 65536 := u.itemSize.isLt
  have hpos : 0 < u.itemSize.toNat := by
    rcases Nat.eq_zero_or_pos u.itemSize.toNat with hz | hz
    · exact (hs (BitVec.eq_of_toNat_eq hz)).elim
    · exact hz
  have hbound : ∀ k, k < u.n → k * u.itemSize.toNat < 2 ^ 32 := by
    intro k hk
    calc
      k * u.itemSize.toNat ≤ 32768 * 65536 := Nat.mul_le_mul (by omega) hlt.le
      _ < 2 ^ 32 := by decide
  have heq := congrArg BitVec.toNat (BitVec.add_right_inj _ |>.mp h)
  rw [BitVec.toNat_ofNat, BitVec.toNat_ofNat, Nat.mod_eq_of_lt (hbound i hi),
    Nat.mod_eq_of_lt (hbound j hj)] at heq
  exact Nat.eq_of_mul_eq_mul_right hpos heq

theorem addrs_nodup (u : Setup) (hs : u.itemSize ≠ 0) : u.addrs.Nodup := by
  refine List.Nodup.map_on ?_ List.nodup_range
  intro i hi j hj h
  exact itemAddr_injOn u hs (List.mem_range.mp hi) (List.mem_range.mp hj) h

/-- In every run that passes on held buffers only, the initial addresses are
split among the two queue directions and the two cores. Item buffers of
positive size are distinct, so each occurs exactly once, and each buffer kept
by a core is missing from the queue. -/
theorem exclusive_buffer_ownership (u : Setup) {calls : List Call} {o : Owned}
    (h : Run OwnStep (start u) calls o) :
    (allocable u.n o.ring : Multiset U32) + o.masterHeld + (receivable u.n o.ring : List U32) +
        o.remoteHeld = (u.addrs : Multiset U32) ∧
      (u.itemSize ≠ 0 → ((allocable u.n o.ring : Multiset U32) + o.masterHeld +
        (receivable u.n o.ring : List U32) + o.remoteHeld).Nodup) ∧
      (allocable u.n o.ring).length + (receivable u.n o.ring).length =
        u.n - (o.masterHeld.card + o.remoteHeld.card) ∧
      (u.QuietNotify → ∀ call, accepted o.ring call = true ↔
        (o.ring.reply call).ret = espOk) := by
  obtain ⟨c, hc⟩ := run_ownInv h
  have hr : Refines u o.ring (u.view o.ring c) := ⟨c, hc.ring, rfl⟩
  have htotal := hc.total
  rw [← allocable_of_refines hr, ← receivable_of_refines hr] at htotal
  refine ⟨htotal, ?_, ?_, fun hu call => accepted_iff_ret hc.ring hu call⟩
  · intro hs
    rw [htotal]
    exact Multiset.coe_nodup.mpr (addrs_nodup u hs)
  · have hcard := congrArg Multiset.card htotal
    simp only [Multiset.card_add, Multiset.coe_card, Setup.addrs, List.length_map,
      List.length_range] at hcard
    omega

/-- The buffers are sent out of order and the second one is kept by the remote. -/
def keptCalls : List Call :=
  [.alloc 4, .alloc 4, .send 0x4087a620 4, .recv, .send 0x4087a610 4, .recv, .free 0x4087a610]

theorem twoBuffers_kept_run :
    Run OwnStep (start twoBuffers) keptCalls (keptCalls.foldl Owned.own (start twoBuffers)) :=
  .next ⟨trivial, rfl⟩ <| .next ⟨trivial, rfl⟩ <| .next ⟨by decide, rfl⟩ <|
    .next ⟨trivial, rfl⟩ <| .next ⟨by decide, rfl⟩ <| .next ⟨trivial, rfl⟩ <|
    .next ⟨by decide, rfl⟩ <| .done _

theorem twoBuffers_kept_ownership :
    let o := keptCalls.foldl Owned.own (start twoBuffers)
    Run OwnStep (start twoBuffers) keptCalls o ∧ o.remoteHeld = {0x4087a620} ∧
      (allocable 2 o.ring).length + (receivable 2 o.ring).length = 1 := by
  refine ⟨twoBuffers_kept_run, by decide, ?_⟩
  have hcount := (exclusive_buffer_ownership twoBuffers twoBuffers_kept_run).2.2.1
  rw [show twoBuffers.n = 2 from rfl] at hcount
  rw [hcount]
  decide

end EspAmp.VirtqueueOwnership
