import EspAmp.LoaderSafety

/-!
# Memory given back to the heap

A call offers the unused tail of the reserved HP RAM to the heap of the main core, or
all of it after a failure, and every call begins with clearing the whole of it. What
earlier calls have given away is followed through a sequence of calls.
-/
namespace EspAmp.LoaderHeap
open ByteMemory Loader LoaderSafety
open SysInfo (addr)

section Offer
variable {b : Build} {image : Memory 32} {u e : U32}

/-- The unused part begins inside the region or at its end. -/
def InOffer (b : Build) (u : U32) : Prop := b.hpMemStart ≤ u.toNat ∧ u.toNat ≤ b.hpMemEnd

theorem InOffer.start (b : Build) : InOffer b (addr b.hpMemStart) := by
  have hhp := b.hpMemEnd_bounds
  have hsum := b.hpMemStart_add_size
  have hn : (addr b.hpMemStart).toNat = b.hpMemStart := Nat.mod_eq_of_lt (by omega)
  rw [InOffer, hn]
  omega

theorem InOffer.raise (h : InOffer b u) : InOffer b (raiseUnused b u e) := by
  rw [raiseUnused]
  split_ifs with hraise
  · exact dramAddr_iff.mp hraise.2.1
  · exact h

theorem loadSegment_inOffer {s : State} (h : InOffer b s.unusedStart) :
    InOffer b (loadSegment b image s).unusedStart := by
  cases hcopied : copied b (segmentAt image s.nextAddr) with
  | true =>
      rw [loadSegment_of_copied rfl hcopied]
      exact h.raise
  | false =>
      by_cases hdrom : inDrom b (segmentAt image s.nextAddr) = true ∧
          word32 image (s.nextAddr + 8#32) = appDescMagicWord
      · rw [loadSegment_of_skipped rfl hcopied hdrom.1 hdrom.2]
        exact h
      · rw [loadSegment_of_refused rfl hcopied hdrom]
        exact h

theorem loadSegments_inOffer {left : ℕ} {s : State} (h : InOffer b s.unusedStart) :
    InOffer b (loadSegments b image left s).unusedStart := by
  induction left generalizing s with
  | zero => exact h
  | succ left ih =>
      rw [loadSegments]
      split_ifs with hret
      · exact ih (loadSegment_inOffer h)
      · exact loadSegment_inOffer h

/-- What is offered is a tail of the reserved region. -/
theorem offered_eq (image m : Memory 32) (hpure : b.pureRtcRamApp = false) :
    ∃ u, InOffer b u ∧ (loadSub b image m).offered = some (u, addr b.hpMemEnd) := by
  have hloop : InOffer b (loadSubLoop b image m).unusedStart := by
    rw [loadSubLoop]
    split_ifs with hentry
    · exact loadSegments_inOffer (InOffer.start b)
    · exact InOffer.start b
  refine ⟨_, ?_, if_neg (by simp [hpure])⟩
  split_ifs with hret
  · exact hloop
  · exact InOffer.start b

end Offer

/-- One call and the answer it gets from `heap_caps_add_region`, which refuses an empty
region. -/
structure Load (b : Build) where
  image : Memory 32
  heapOk : Bool
  refuses_empty : heapOk = true →
    ∀ m r, (loadSub b image m).offered = some r → r.1.toNat < r.2.toNat

/-- The heap owns the address after the call. -/
def Donates {b : Build} (c : Load b) (m : Memory 32) (x : U32) : Prop :=
  c.heapOk = true ∧
    ∃ r, (loadSub b c.image m).offered = some r ∧ r.1.toNat ≤ x.toNat ∧ x.toNat < r.2.toNat

/-- The call clears the address or copies a segment over it. -/
def Writes {b : Build} (c : Load b) (m : Memory 32) (x : U32) : Prop :=
  ∃ r ∈ cleared b ++ (loadSubLoop b c.image m).copies, Within r.1 r.2 x

/-- No call writes what an earlier one has given away. -/
def KeepsDonations {b : Build} : Memory 32 → (U32 → Prop) → List (Load b) → Prop
  | _, _, [] => True
  | m, donated, c :: calls =>
      (∀ x, donated x → ¬ Writes c m x) ∧
        KeepsDonations (loadSub b c.image m).mem (fun x => donated x ∨ Donates c m x) calls

section Histories
variable {b : Build} {m : Memory 32} {donated : U32 → Prop} {c c' : Load b} {calls : List (Load b)}

/-- Every call clears what an earlier one has given away. -/
theorem donation_overwritten (hpure : b.pureRtcRamApp = false) (hc : c.heapOk = true) :
    ¬ KeepsDonations m donated (c :: c' :: calls) := by
  rintro ⟨-, hkeep, -⟩
  obtain ⟨u, hu, hoffered⟩ := offered_eq c.image m hpure
  have hlt := c.refuses_empty hc m _ hoffered
  refine hkeep u (Or.inr ⟨hc, _, hoffered, le_rfl, hlt⟩) ?_
  have hend : (addr b.hpMemEnd).toNat = b.hpMemEnd := by
    have hhp := b.hpMemEnd_bounds
    exact Nat.mod_eq_of_lt (by omega)
  refine ⟨(addr b.hpMemStart, b.hpMemSize), ?_, ?_⟩
  · simp [cleared, hpure]
  · exact within_hp_iff.mpr ⟨hu.1, hend ▸ hlt⟩

/-- As long as nothing is given away, nothing can be lost. -/
theorem KeepsDonations.cons_of_none (hdonated : ∀ x, ¬ donated x) (hc : ∀ x, ¬ Donates c m x)
    (h : ∀ m donated, (∀ x, ¬ donated x) → KeepsDonations m donated calls) :
    KeepsDonations m donated (c :: calls) := by
  refine ⟨fun x hx => absurd hx (hdonated x), h _ _ ?_⟩
  rintro x (hx | hx)
  · exact hdonated x hx
  · exact hc x hx

theorem keepsDonations_of_pure (hpure : b.pureRtcRamApp = true) (m : Memory 32)
    (donated : U32 → Prop) (hdonated : ∀ x, ¬ donated x) : KeepsDonations m donated calls := by
  induction calls generalizing m donated with
  | nil => trivial
  | cons c calls ih =>
      refine KeepsDonations.cons_of_none hdonated ?_ ih
      rintro x ⟨-, r, hr, -⟩
      have hnone : (loadSub b c.image m).offered = none := if_pos hpure
      rw [hnone] at hr
      cases hr

theorem keepsDonations_of_refused (hrefused : ∀ c ∈ calls.dropLast, c.heapOk = false)
    (m : Memory 32) (donated : U32 → Prop) (hdonated : ∀ x, ¬ donated x) :
    KeepsDonations m donated calls := by
  induction calls generalizing m donated with
  | nil => trivial
  | cons c calls ih =>
      cases calls with
      | nil => exact ⟨fun x hx => absurd hx (hdonated x), trivial⟩
      | cons c' calls =>
          rw [List.dropLast_cons_cons] at hrefused
          refine KeepsDonations.cons_of_none hdonated ?_ (ih ?_)
          · rintro x ⟨hok, -⟩
            exact absurd (hrefused c List.mem_cons_self) (by simp [hok])
          · exact fun d hd => hrefused d (List.mem_cons_of_mem c hd)

theorem refused_of_keepsDonations (hpure : b.pureRtcRamApp = false) (m : Memory 32)
    (donated : U32 → Prop) (h : KeepsDonations m donated calls) :
    ∀ c ∈ calls.dropLast, c.heapOk = false := by
  induction calls generalizing m donated with
  | nil => simp
  | cons c calls ih =>
      cases calls with
      | nil => simp
      | cons c' calls =>
          rw [List.dropLast_cons_cons]
          intro d hd
          cases hd with
          | head =>
              cases hok : c.heapOk with
              | false => rfl
              | true => exact absurd h (donation_overwritten hpure hok)
          | tail _ hd => exact ih _ _ h.2 d hd

end Histories

/-- Given memory stays with the heap exactly when the build has no HP RAM for the
subcore, or the heap has refused the region of every call but the last. -/
theorem donations_kept_iff (b : Build) (m : Memory 32) (calls : List (Load b)) :
    KeepsDonations m (fun _ => False) calls ↔
      b.pureRtcRamApp = true ∨ ∀ c ∈ calls.dropLast, c.heapOk = false := by
  constructor
  · intro h
    cases hpure : b.pureRtcRamApp with
    | true => exact Or.inl rfl
    | false => exact Or.inr (refused_of_keepsDonations hpure m _ h)
  · rintro (hpure | hrefused)
    · exact keepsDonations_of_pure hpure m _ fun _ => id
    · exact keepsDonations_of_refused hrefused m _ fun _ => id

/-- An image of zeros fails at its entry address behind the clearing, and the whole HP
region is offered to the heap. -/
theorem emptyImage_refused (m : Memory 32) :
    (loadSub c6Build (fun _ => 0) m).mem = clearReserved c6Build m ∧
      (loadSub c6Build (fun _ => 0) m).offered =
        some (addr c6Build.hpMemStart, addr c6Build.hpMemEnd) := by
  have hfail : loadSubLoop c6Build (fun _ => 0) m =
      { State.start c6Build m with ret := espFail } := if_neg (by decide +kernel)
  simp only [loadSub, finishLoad, hfail]
  exact ⟨rfl, rfl⟩

/-- A load that fails at its entry address, after which the heap takes the region. -/
def failedLoad : Load c6Build where
  image := fun _ => 0
  heapOk := true
  refuses_empty := by
    intro _ m r hr
    cases hr.symm.trans (emptyImage_refused m).2
    decide +kernel

/-- The second load clears a byte of the heap, whatever its owner has stored there. -/
theorem second_load_clears_heap :
    ¬ KeepsDonations (fun _ => 0) (fun _ => False) [failedLoad, failedLoad] ∧
      ∃ x, Donates failedLoad (fun _ => 0) x ∧
        ∀ m, m x ≠ 0 → (loadSub c6Build failedLoad.image m).mem x ≠ m x := by
  refine ⟨donation_overwritten rfl rfl, addr c6Build.hpMemStart,
    ⟨rfl, _, (emptyImage_refused _).2, le_rfl, by decide +kernel⟩, fun m hne heq => ?_⟩
  rw [show (loadSub c6Build failedLoad.image m).mem = _ from (emptyImage_refused m).1,
    clearReserved_apply, if_pos] at heq
  · exact hne heq.symm
  · exact ⟨_, List.mem_cons_self, within_hp_iff.mpr (by decide +kernel)⟩

end EspAmp.LoaderHeap
