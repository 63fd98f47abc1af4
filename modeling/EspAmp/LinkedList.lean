import Mathlib.Data.List.Basic
import Mathlib.Data.List.Nodup

/-!
# Intrusive singly linked lists

The nodes are the values of an arbitrary type, one of which is the null pointer, and
the links are a function on them. A segment says which nodes are passed on the way
from one pointer to another. A list that reaches null is determined by its first
pointer, so none of its nodes can come twice, and a walk with more fuel than the list
has nodes ends.
-/
namespace EspAmp.LinkedList

variable {α : Type}

/-- Following the links from `p` passes the nodes of the list and arrives at `q`. -/
def Seg (next : α → α) : α → List α → α → Prop
  | p, [], q => p = q
  | p, x :: l, q => p = x ∧ Seg next (next x) l q

/-- The segment from `p` to null, none of whose nodes is null. -/
structure Linked (next : α → α) (null p : α) (l : List α) : Prop where
  seg : Seg next p l null
  nonnull : null ∉ l

/-- The node `c` comes on the way from `p` to null. -/
def Reaches (next : α → α) (null p c : α) : Prop := c ≠ null ∧ ∃ l, Seg next p l c ∧ null ∉ l

section Segments
variable {next next' : α → α} {p q null x y c : α} {l l₁ l₂ : List α}

theorem seg_append_iff : Seg next p (l₁ ++ l₂) q ↔ ∃ m, Seg next p l₁ m ∧ Seg next m l₂ q := by
  induction l₁ generalizing p with
  | nil => simp [Seg]
  | cons a l₁ ih => simp only [List.cons_append, Seg, ih, and_assoc, exists_and_left]

/-- A segment depends on the links of its own nodes only. -/
theorem Seg.congr (h : Seg next p l q) (hl : ∀ a ∈ l, next' a = next a) : Seg next' p l q := by
  induction l generalizing p with
  | nil => exact h
  | cons a l ih =>
      obtain ⟨hp, hrest⟩ := h
      refine ⟨hp, ?_⟩
      rw [hl a List.mem_cons_self]
      exact ih hrest fun b hb => hl b (List.mem_cons_of_mem a hb)

/-- The node behind `y` is passed over when `y` takes over its link. -/
theorem Seg.bypass (h : Seg next p (l₁ ++ y :: x :: l₂) q) (hy : next' y = next x)
    (hl₁ : ∀ a ∈ l₁, next' a = next a) (hl₂ : ∀ a ∈ l₂, next' a = next a) :
    Seg next' p (l₁ ++ y :: l₂) q := by
  obtain ⟨m, hfront, hm, hx, hback⟩ := seg_append_iff.mp h
  refine seg_append_iff.mpr ⟨m, hfront.congr hl₁, hm, ?_⟩
  rw [hy]
  exact hback.congr hl₂

theorem Linked.eq_null (h : Linked next null p []) : p = null := h.seg

/-- The first node of a list is where its pointer points to. -/
theorem Linked.eq_head (h : Linked next null p (x :: l)) : p = x := h.seg.1

theorem Linked.ne_null (h : Linked next null p (x :: l)) : x ≠ null :=
  fun hx => h.nonnull (hx ▸ List.mem_cons_self)

theorem Linked.tail (h : Linked next null p (x :: l)) : Linked next null (next x) l :=
  ⟨h.seg.2, fun hn => h.nonnull (List.mem_cons_of_mem x hn)⟩

/-- A pointer starts one list at most. -/
theorem Linked.unique (h₁ : Linked next null p l₁) (h₂ : Linked next null p l₂) : l₁ = l₂ := by
  induction l₁ generalizing p l₂ with
  | nil =>
      cases l₂ with
      | nil => rfl
      | cons b l₂ => exact absurd (h₂.eq_head.symm.trans h₁.eq_null) h₂.ne_null
  | cons a l₁ ih =>
      cases l₂ with
      | nil => exact absurd (h₁.eq_head.symm.trans h₂.eq_null) h₁.ne_null
      | cons b l₂ =>
          obtain rfl : a = b := h₁.eq_head.symm.trans h₂.eq_head
          rw [ih h₁.tail h₂.tail]

/-- The list behind one of its nodes. -/
theorem Linked.suffix (h : Linked next null p (l₁ ++ x :: l₂)) :
    Linked next null x (x :: l₂) := by
  obtain ⟨m, -, -, hrest⟩ := seg_append_iff.mp h.seg
  exact ⟨⟨rfl, hrest⟩, fun hn => h.nonnull (List.mem_append_right l₁ hn)⟩

/-- A list that reaches null has no cycle. -/
theorem Linked.nodup (h : Linked next null p l) : l.Nodup := by
  induction l generalizing p with
  | nil => exact List.nodup_nil
  | cons a l ih =>
      refine List.nodup_cons.mpr ⟨?_, ?_⟩
      · intro hmem
        obtain ⟨l₁, l₂, rfl⟩ := List.append_of_mem hmem
        have hfirst : Linked next null a (a :: (l₁ ++ a :: l₂)) := ⟨⟨rfl, h.seg.2⟩, h.nonnull⟩
        have hagain : Linked next null a (a :: l₂) := h.tail.suffix
        have hlen := congrArg List.length (hfirst.unique hagain)
        simp only [List.length_cons, List.length_append] at hlen
        omega
      · exact ih h.tail

theorem Linked.reaches_iff (h : Linked next null p l) : Reaches next null p c ↔ c ∈ l := by
  constructor
  · rintro ⟨hc, l', hseg, hnull⟩
    induction l' generalizing p l with
    | nil =>
        cases l with
        | nil => exact absurd (Eq.trans (Eq.symm hseg) h.eq_null) hc
        | cons a l =>
            have ha : c = a := Eq.trans (Eq.symm hseg) h.eq_head
            exact ha ▸ List.mem_cons_self
    | cons b l' ih =>
        cases l with
        | nil =>
            have hb : null = b := h.eq_null.symm.trans hseg.1
            exact absurd (hb ▸ List.mem_cons_self) hnull
        | cons a l =>
            obtain rfl : b = a := hseg.1.symm.trans h.eq_head
            refine List.mem_cons_of_mem b (ih h.tail hseg.2 ?_)
            exact fun hn => hnull (List.mem_cons_of_mem b hn)
  · intro hc
    obtain ⟨l₁, l₂, rfl⟩ := List.append_of_mem hc
    obtain ⟨m, hfront, hm, -⟩ := seg_append_iff.mp h.seg
    refine ⟨?_, l₁, hm ▸ hfront, fun hn => h.nonnull (List.mem_append_left _ hn)⟩
    rintro rfl
    exact h.nonnull hc

/-- A new node is put in front. -/
theorem Linked.cons (h : Linked next null p l) (hx : x ≠ null) (hl : x ∉ l)
    (hnext : next' x = p) (hkeep : ∀ a, a ≠ x → next' a = next a) :
    Linked next' null x (x :: l) := by
  refine ⟨⟨rfl, ?_⟩, ?_⟩
  · rw [hnext]
    exact h.seg.congr fun a ha => hkeep a (ne_of_mem_of_not_mem ha hl)
  · rw [List.mem_cons]
    exact not_or.mpr ⟨hx.symm, h.nonnull⟩

end Segments

section Walks
variable [DecidableEq α] {next : α → α} {null : α} {test : α → Bool}

/-- The first node that passes the test, or null; `none` when the fuel runs out. -/
def findFrom (next : α → α) (null : α) (test : α → Bool) : ℕ → α → Option α
  | 0, _ => none
  | fuel + 1, p =>
      if p = null then some null
      else if test p then some p
      else findFrom next null test fuel (next p)

/-- The same walk, which keeps the node it has just left. -/
def findWithPrev (next : α → α) (null : α) (test : α → Bool) : ℕ → α → α → Option (α × α)
  | 0, _, _ => none
  | fuel + 1, prev, cur =>
      if cur = null then some (prev, null)
      else if test cur then some (prev, cur)
      else findWithPrev next null test fuel cur (next cur)

/-- A walk that has ended does not need more fuel. -/
theorem findFrom_mono {fuel fuel' : ℕ} {p r : α} (hfuel : fuel ≤ fuel')
    (h : findFrom next null test fuel p = some r) :
    findFrom next null test fuel' p = some r := by
  induction fuel generalizing fuel' p with
  | zero => cases h
  | succ fuel ih =>
      obtain ⟨fuel', rfl⟩ := Nat.exists_eq_add_of_le' hfuel
      rw [← Nat.add_assoc, findFrom]
      rw [findFrom] at h
      split_ifs at h ⊢ with hp htest
      · exact h
      · exact h
      · exact ih (Nat.le_add_left fuel fuel') h

theorem findWithPrev_mono {fuel fuel' : ℕ} {prev p : α} {r : α × α} (hfuel : fuel ≤ fuel')
    (h : findWithPrev next null test fuel prev p = some r) :
    findWithPrev next null test fuel' prev p = some r := by
  induction fuel generalizing fuel' prev p with
  | zero => cases h
  | succ fuel ih =>
      obtain ⟨fuel', rfl⟩ := Nat.exists_eq_add_of_le' hfuel
      rw [← Nat.add_assoc, findWithPrev]
      rw [findWithPrev] at h
      split_ifs at h ⊢ with hp htest
      · exact h
      · exact h
      · exact ih (Nat.le_add_left fuel fuel') h

/-- The walk on a list ends and does what a search in the list does. -/
theorem findFrom_eq {fuel : ℕ} {p : α} {l : List α} (h : Linked next null p l)
    (hfuel : l.length < fuel) :
    findFrom next null test fuel p = some ((l.find? test).getD null) := by
  induction l generalizing p fuel with
  | nil =>
      obtain ⟨fuel, rfl⟩ := Nat.exists_eq_add_one_of_ne_zero (Nat.ne_of_gt hfuel)
      rw [findFrom, if_pos h.eq_null]
      rfl
  | cons a l ih =>
      obtain ⟨fuel, rfl⟩ := Nat.exists_eq_add_one_of_ne_zero (Nat.ne_of_gt (by omega : 0 < fuel))
      obtain rfl : p = a := h.eq_head
      rw [findFrom, if_neg h.ne_null, List.find?_cons]
      cases htest : test p with
      | true => simp
      | false =>
          simp only [Bool.false_eq_true, if_false]
          exact ih h.tail (by simpa using hfuel)

/-- Without a node that passes the test the walk arrives at null. -/
theorem findWithPrev_of_none {fuel : ℕ} (prev : α) {p : α} {l : List α}
    (h : Linked next null p l) (hfuel : l.length < fuel) (hl : ∀ a ∈ l, test a = false) :
    findWithPrev next null test fuel prev p = some (l.getLastD prev, null) := by
  induction l generalizing p prev fuel with
  | nil =>
      obtain ⟨fuel, rfl⟩ := Nat.exists_eq_add_one_of_ne_zero (Nat.ne_of_gt hfuel)
      rw [findWithPrev, if_pos h.eq_null]
      rfl
  | cons a l ih =>
      obtain ⟨fuel, rfl⟩ := Nat.exists_eq_add_one_of_ne_zero (Nat.ne_of_gt (by omega : 0 < fuel))
      obtain rfl : p = a := h.eq_head
      have htest : ¬ test p = true := by simp [hl p List.mem_cons_self]
      rw [findWithPrev, if_neg h.ne_null, if_neg htest, List.getLastD_cons]
      exact ih p h.tail (by simpa using hfuel) fun b hb => hl b (List.mem_cons_of_mem p hb)

/-- The walk stops at the first node that passes the test, next to the one before it. -/
theorem findWithPrev_of_split {fuel : ℕ} (prev : α) {p x : α} {l₁ l₂ : List α}
    (h : Linked next null p (l₁ ++ x :: l₂)) (hfuel : l₁.length < fuel)
    (hl : ∀ a ∈ l₁, test a = false) (hx : test x = true) :
    findWithPrev next null test fuel prev p = some (l₁.getLastD prev, x) := by
  induction l₁ generalizing p prev fuel with
  | nil =>
      obtain ⟨fuel, rfl⟩ := Nat.exists_eq_add_one_of_ne_zero (Nat.ne_of_gt hfuel)
      obtain rfl : p = x := h.eq_head
      rw [findWithPrev, if_neg h.ne_null, if_pos hx]
      rfl
  | cons a l₁ ih =>
      obtain ⟨fuel, rfl⟩ := Nat.exists_eq_add_one_of_ne_zero (Nat.ne_of_gt (by omega : 0 < fuel))
      obtain rfl : p = a := h.eq_head
      have htest : ¬ test p = true := by simp [hl p List.mem_cons_self]
      rw [findWithPrev, if_neg h.ne_null, if_neg htest, List.getLastD_cons]
      exact ih p h.tail (by simpa using hfuel) fun b hb => hl b (List.mem_cons_of_mem p hb)

end Walks

end EspAmp.LinkedList
