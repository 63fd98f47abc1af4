import EspAmp.VirtqueueFifo

/-!
# The two sides of a virtqueue need no lock

Each accepted call works on one position of the ring: the master allocates at
`allocs` and sends at `sends`, the remote receives at `recvs` and frees at
`frees`. An accepted call of the master stands at a position which lies behind
no position that the remote may work on, and less than one lap ahead of it.
The two slots therefore differ, whatever the lap boundary. Calls of the other
side only move the bound that a call is tested against in its favour, so an
accepted call stays accepted and finds the same descriptor.
-/
namespace EspAmp.VirtqueueCommute
open ByteMemory Virtqueue VirtqueueFifo ReplyMachine RingLaps

/-- The ring position a call works on. -/
def position (c : Counters) : Call → ℕ
  | .alloc _ => c.allocs
  | .send _ _ => c.sends
  | .recv => c.recvs
  | .free _ => c.frees

/-- The answer of an accepted call that finds descriptor `d`. -/
def answer (u : Setup) (d : Desc) : Call → Reply
  | .alloc _ => ⟨espOk, d.addr, 0⟩
  | .send _ _ => ⟨u.masterHandle.notify, 0, 0⟩
  | .recv => ⟨espOk, d.addr, d.len⟩
  | .free _ => ⟨espOk, 0, 0⟩

/-- The descriptor an accepted call leaves behind. -/
def rewritten (u : Setup) (d : Desc) : Call → Desc
  | .alloc _ | .recv => d
  | .send data size => ⟨data, size, d.flags ^^^ availableMask 1⟩
  | .free buffer => ⟨buffer, u.itemSize, d.flags ^^^ usedMask 1⟩

section
variable {u : Setup} {s : Vring} {c : Counters} {x y : Call}

theorem accepted_of_ok (h : Inv u s c) (hx : (s.reply x).ret = espOk) : u.next c x ≠ c := by
  cases x with
  | alloc size =>
      rw [next_alloc_ne]
      simp only [Vring.reply, Vring.outcome, alloc_spec h] at hx
      split_ifs at hx with g₁ g₂
      · exact (espErrNoMem_ne_ok hx).elim
      · exact ⟨g₁, g₂⟩
      · exact (espErrNotFound_ne_ok hx).elim
  | send data size =>
      rw [next_send_ne]
      simp only [Vring.reply, Vring.outcome, send_spec h] at hx
      split_ifs at hx with g₁ g₂
      · exact (espErrNotAllowed_ne_ok hx).elim
      · exact (espErrNoMem_ne_ok hx).elim
      · exact ⟨g₁, g₂⟩
  | recv =>
      rw [next_recv_ne]
      simp only [Vring.reply, Vring.outcome, recv_spec h] at hx
      split_ifs at hx with g₁
      · exact g₁
      · exact (espErrNotFound_ne_ok hx).elim
  | free buffer =>
      rw [next_free_ne]
      simp only [Vring.reply, Vring.outcome, free_spec h] at hx
      split_ifs at hx with g₁
      · exact (espErrNotAllowed_ne_ok hx).elim
      · exact g₁

/-- Everything an accepted call does, at its one position. -/
theorem outcome_of_accepted (h : Inv u s c) (hx : u.next c x ≠ c) :
    s.reply x = answer u (s.desc (position c x % u.n)) x ∧
      (s.outcome x).slots = [position c x % u.n] ∧
      (s.apply x).desc = Function.update s.desc (position c x % u.n)
        (rewritten u (s.desc (position c x % u.n)) x) := by
  cases x with
  | alloc size =>
      obtain ⟨g₁, g₂⟩ := next_alloc_ne.mp hx
      simp [Vring.reply, Vring.apply, Vring.outcome, Call.onMaster, alloc_spec h, g₁, g₂, answer,
        rewritten, position]
  | send data size =>
      obtain ⟨g₁, g₂⟩ := next_send_ne.mp hx
      simp [Vring.reply, Vring.apply, Vring.outcome, Call.onMaster, send_spec h, g₁, g₂, answer,
        rewritten, position]
  | recv =>
      have g := next_recv_ne.mp hx
      simp [Vring.reply, Vring.apply, Vring.outcome, Call.onMaster, recv_spec h, g, answer,
        rewritten, position]
  | free buffer =>
      have g := next_free_ne.mp hx
      simp [Vring.reply, Vring.apply, Vring.outcome, Call.onMaster, free_spec h, g, answer,
        rewritten, position]

/-- Accepted positions of the two sides are less than one lap apart. -/
theorem slots_ne (h : Inv u s c) (hm : x.onMaster = true) (hr : y.onMaster = false)
    (hx : u.next c x ≠ c) (hy : u.next c y ≠ c) :
    position c y % u.n ≠ position c x % u.n := by
  obtain ⟨h₁, h₂, h₃, h₄⟩ := h.order
  have hpx : c.sends ≤ position c x ∧ position c x < c.frees + u.n := by
    cases x with
    | alloc size => exact ⟨h₃, (next_alloc_ne.mp hx).2⟩
    | send data size =>
        have g := (next_send_ne.mp hx).1
        exact ⟨le_rfl, by dsimp only [position]; omega⟩
    | recv => cases hm
    | free buffer => cases hm
  have hpy : c.frees ≤ position c y ∧ position c y < c.sends := by
    cases y with
    | alloc size => cases hr
    | send data size => cases hr
    | recv => exact ⟨h₁, next_recv_ne.mp hy⟩
    | free buffer =>
        have g := next_free_ne.mp hy
        exact ⟨le_rfl, by dsimp only [position]; omega⟩
  exact slot_ne (by omega) (by omega)

/-- Calls of the remote leave the master's counters alone and only raise the
bound of its allocations. -/
theorem next_of_remote (hy : y.onMaster = false) :
    (u.next c y).allocs = c.allocs ∧ (u.next c y).sends = c.sends ∧
      c.frees ≤ (u.next c y).frees := by
  cases y with
  | alloc size => cases hy
  | send data size => cases hy
  | recv =>
      simp only [Setup.next]
      split_ifs <;> exact ⟨rfl, rfl, le_rfl⟩
  | free buffer =>
      simp only [Setup.next]
      split_ifs
      · exact ⟨rfl, rfl, le_rfl⟩
      · exact ⟨rfl, rfl, Nat.le_succ _⟩

/-- Calls of the master leave the remote's counters alone and only raise the
bound of its receptions. -/
theorem next_of_master (hx : x.onMaster = true) :
    (u.next c x).recvs = c.recvs ∧ (u.next c x).frees = c.frees ∧
      c.sends ≤ (u.next c x).sends := by
  cases x with
  | alloc size =>
      simp only [Setup.next]
      split_ifs <;> exact ⟨rfl, rfl, le_rfl⟩
  | send data size =>
      simp only [Setup.next]
      split_ifs
      · exact ⟨rfl, rfl, le_rfl⟩
      · exact ⟨rfl, rfl, le_rfl⟩
      · exact ⟨rfl, rfl, Nat.le_succ _⟩
  | recv => cases hx
  | free buffer => cases hx

/-- A call of the remote neither moves a call of the master nor refuses it. -/
theorem master_kept (hx : x.onMaster = true) (hy : y.onMaster = false)
    (hacc : u.next c x ≠ c) :
    position (u.next c y) x = position c x ∧ u.next (u.next c y) x ≠ u.next c y := by
  obtain ⟨ha, hs, hf⟩ := next_of_remote (u := u) (c := c) hy
  cases x with
  | alloc size =>
      rw [next_alloc_ne] at hacc ⊢
      exact ⟨ha, hacc.1, by omega⟩
  | send data size =>
      rw [next_send_ne] at hacc ⊢
      exact ⟨hs, by rw [hs, ha]; exact hacc.1, hacc.2⟩
  | recv => cases hx
  | free buffer => cases hx

/-- A call of the master neither moves a call of the remote nor refuses it. -/
theorem remote_kept (hx : x.onMaster = true) (hy : y.onMaster = false)
    (hacc : u.next c y ≠ c) :
    position (u.next c x) y = position c y ∧ u.next (u.next c x) y ≠ u.next c x := by
  obtain ⟨hr, hf, hs⟩ := next_of_master (u := u) (c := c) hx
  cases y with
  | alloc size => cases hy
  | send data size => cases hy
  | recv =>
      rw [next_recv_ne] at hacc ⊢
      exact ⟨hr, by omega⟩
  | free buffer =>
      rw [next_free_ne] at hacc ⊢
      exact ⟨hf, by rw [hf, hr]; exact hacc⟩

/-- Any call of the remote leaves an accepted master call accepted, with the
same answer. -/
theorem master_reply_stable (h : Inv u s c) (hx : x.onMaster = true) (hy : y.onMaster = false)
    (hacc : u.next c x ≠ c) : (s.apply y).reply x = s.reply x := by
  by_cases hc : u.next c y = c
  · rw [apply_of_rejected h hc]
  · obtain ⟨hpos, hkept⟩ := master_kept hx hy hacc
    rw [(outcome_of_accepted (inv_apply h y) hkept).1, (outcome_of_accepted h hacc).1, hpos,
      (outcome_of_accepted h hc).2.2,
      Function.update_of_ne (slots_ne h hx hy hacc hc).symm]

theorem remote_reply_stable (h : Inv u s c) (hx : x.onMaster = true) (hy : y.onMaster = false)
    (hacc : u.next c y ≠ c) : (s.apply x).reply y = s.reply y := by
  by_cases hc : u.next c x = c
  · rw [apply_of_rejected h hc]
  · obtain ⟨hpos, hkept⟩ := remote_kept hx hy hacc
    rw [(outcome_of_accepted (inv_apply h x) hkept).1, (outcome_of_accepted h hacc).1, hpos,
      (outcome_of_accepted h hc).2.2, Function.update_of_ne (slots_ne h hx hy hc hacc)]

theorem master_run_stable (h : Inv u s c) (hx : x.onMaster = true) (hacc : u.next c x ≠ c)
    (ys : List Call) (hys : ∀ y ∈ ys, y.onMaster = false) :
    (vring.final s ys).reply x = s.reply x := by
  induction ys generalizing s c with
  | nil => rfl
  | cons y ys ih =>
      have hy := hys y (by simp)
      have hrest := ih (inv_apply h y) (master_kept hx hy hacc).2
        (fun z hz => hys z (by simp [hz]))
      exact hrest.trans (master_reply_stable h hx hy hacc)

theorem remote_run_stable (h : Inv u s c) (hy : y.onMaster = false) (hacc : u.next c y ≠ c)
    (xs : List Call) (hxs : ∀ x ∈ xs, x.onMaster = true) :
    (vring.final s xs).reply y = s.reply y := by
  induction xs generalizing s c with
  | nil => rfl
  | cons x xs ih =>
      have hx := hxs x (by simp)
      have hrest := ih (inv_apply h x) (remote_kept hx hy hacc).2
        (fun z hz => hxs z (by simp [hz]))
      exact hrest.trans (remote_reply_stable h hx hy hacc)

/-- An accepted call advances its own counter. -/
def bump (c : Counters) : Call → Counters
  | .alloc _ => { c with allocs := c.allocs + 1 }
  | .send _ _ => { c with sends := c.sends + 1 }
  | .recv => { c with recvs := c.recvs + 1 }
  | .free _ => { c with frees := c.frees + 1 }

theorem next_eq_bump (hx : u.next c x ≠ c) : u.next c x = bump c x := by
  cases x with
  | alloc size =>
      obtain ⟨g₁, g₂⟩ := next_alloc_ne.mp hx
      rw [Setup.next, if_neg g₁, if_pos g₂, bump]
  | send data size =>
      obtain ⟨g₁, g₂⟩ := next_send_ne.mp hx
      rw [Setup.next, if_neg g₁, if_neg g₂, bump]
  | recv => rw [Setup.next, if_pos (next_recv_ne.mp hx), bump]
  | free buffer => rw [Setup.next, if_neg (next_free_ne.mp hx), bump]

theorem bump_comm (c : Counters) (x y : Call) : bump (bump c x) y = bump (bump c y) x := by
  cases x <;> cases y <;> rfl

/-- Two accepted calls of different sides give the same state in either order. -/
theorem apply_comm (h : Inv u s c) (hx : x.onMaster = true) (hy : y.onMaster = false)
    (hax : u.next c x ≠ c) (hay : u.next c y ≠ c) :
    (s.apply x).apply y = (s.apply y).apply x := by
  obtain ⟨hpx, hkx⟩ := master_kept hx hy hax
  obtain ⟨hpy, hky⟩ := remote_kept hx hy hay
  have hxy := inv_apply (inv_apply h x) y
  have hyx := inv_apply (inv_apply h y) x
  rw [next_eq_bump hky, next_eq_bump hax] at hxy
  rw [next_eq_bump hkx, next_eq_bump hay, bump_comm] at hyx
  have hne := slots_ne h hx hy hax hay
  apply Vring.ext
  · rw [hxy.master, hyx.master]
  · rw [hxy.remote, hyx.remote]
  · rw [(outcome_of_accepted (inv_apply h x) hky).2.2, (outcome_of_accepted h hax).2.2,
      (outcome_of_accepted (inv_apply h y) hkx).2.2, (outcome_of_accepted h hay).2.2, hpx, hpy,
      Function.update_of_ne hne, Function.update_of_ne hne.symm, Function.update_comm hne.symm]

end

/-- In every reachable state, successful calls of the two sides access different
descriptors and commute, and a call that would succeed still succeeds with the
same outputs after any calls of the other side. -/
theorem virtqueue_needs_no_lock (u : Setup) (calls : List Call) (s : Vring)
    (hs : s = vring.final u.start calls) :
    (∀ x y : Call, x.onMaster = true → y.onMaster = false →
      (s.reply x).ret = espOk → (s.reply y).ret = espOk →
        List.Disjoint (s.outcome x).slots (s.outcome y).slots ∧
        (s.apply y).reply x = s.reply x ∧ (s.apply x).reply y = s.reply y ∧
        (s.apply x).apply y = (s.apply y).apply x) ∧
    (∀ (x : Call) (ys : List Call), x.onMaster = true → (∀ y ∈ ys, y.onMaster = false) →
      (s.reply x).ret = espOk → (vring.final s ys).reply x = s.reply x) ∧
    (∀ (y : Call) (xs : List Call), y.onMaster = false → (∀ x ∈ xs, x.onMaster = true) →
      (s.reply y).ret = espOk → (vring.final s xs).reply y = s.reply y) := by
  obtain ⟨c, h⟩ := exists_inv u calls
  rw [← hs] at h
  refine ⟨?_, ?_, ?_⟩
  · intro x y hx hy hox hoy
    have hax := accepted_of_ok h hox
    have hay := accepted_of_ok h hoy
    refine ⟨?_, master_reply_stable h hx hy hax, remote_reply_stable h hx hy hay,
      apply_comm h hx hy hax hay⟩
    rw [(outcome_of_accepted h hax).2.1, (outcome_of_accepted h hay).2.1,
      List.singleton_disjoint, List.mem_singleton]
    exact (slots_ne h hx hy hax hay).symm
  · intro x ys hx hys hox
    exact master_run_stable h hx (accepted_of_ok h hox) ys hys
  · intro y xs hy hxs hoy
    exact remote_run_stable h hy (accepted_of_ok h hoy) xs hxs

/-- One buffer sent and one left: the master may allocate, the remote receive. -/
theorem twoBuffers_alloc_recv_commute :
    let s := vring.final twoBuffers.start [.alloc 4, .send 0x4087a610 4]
    (s.reply (.alloc 4)).ret = espOk ∧ (s.reply .recv).ret = espOk ∧
      (s.apply (.alloc 4)).apply .recv = (s.apply .recv).apply (.alloc 4) := by
  refine ⟨by decide, by decide, ?_⟩
  exact ((virtqueue_needs_no_lock twoBuffers [.alloc 4, .send 0x4087a610 4] _ rfl).1
    (.alloc 4) .recv rfl rfl (by decide) (by decide)).2.2.2

end EspAmp.VirtqueueCommute
