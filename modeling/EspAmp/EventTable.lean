import EspAmp.ByteMemory
import Mathlib.Data.List.Basic

/-!
# The event table of the FreeRTOS environment

`event_table` maps ids to event groups. A free entry is one whose handle is null,
yet every search except the one for a free entry compares ids only, and the id
left in a free entry is the legal id zero. An entry is found as long as no entry
with the same id stands before it, so a free entry hides a later one bound to id
zero. The calls keep the table a finite map as long as no unbind opens such a gap.
-/
namespace EspAmp.EventTable
open ByteMemory

variable {H : Type}

/-- `esp_amp_event_t`; its direction field is never read. -/
structure Entry (H : Type) where
  sysinfoId : U16
  eventHandle : Option H
  eventBits : U32
deriving DecidableEq, Repr

def Entry.empty : Entry H := ⟨0, none, 0⟩

abbrev Table (H : Type) := List (Entry H)

/-- Every search answers `ESP_AMP_EVENT_TABLE_LEN` when nothing is found. -/
def idxFree (t : Table H) : ℕ := t.findIdx fun e => e.eventHandle.isNone
def idxDup (t : Table H) (sysinfoId : U16) : ℕ := t.findIdx fun e => e.sysinfoId == sysinfoId

def idxInsert (t : Table H) (sysinfoId : U16) : ℕ :=
  if idxDup t sysinfoId = t.length then idxFree t else idxDup t sysinfoId

/-- The critical section of `esp_amp_event_bind_handle`. -/
def insertEntry (t : Table H) (sysinfoId : U16) (handle : H) (bits : U32) : Table H :=
  if idxInsert t sysinfoId = t.length then t
  else t.set (idxInsert t sysinfoId) ⟨sysinfoId, some handle, bits⟩

def bindResult (t : Table H) (sysinfoId : U16) : ℤ :=
  if idxDup t sysinfoId = t.length ∧ idxFree t = t.length then -1 else 0

/-- `esp_amp_event_bind_handle` up to its flush; `info` is what SysInfo knows of
the id, and `none` is a failed assertion. -/
def eventBindHandle (info : Option (U32 × U16)) (sysinfoId : U16) (handle : Option H)
    (t : Table H) : Option (ℤ × Table H) :=
  match handle, info with
  | none, _ => some (-1, t)
  | some _, none => none
  | some h, some (bits, size) =>
      if size = 4 then some (bindResult t sysinfoId, insertEntry t sysinfoId h bits) else none

def eventUnbindHandle (sysinfoId : U16) (t : Table H) : Table H :=
  t.set (idxDup t sysinfoId) Entry.empty

/-- The search that opens `esp_amp_event_wait_by_id` and `esp_amp_event_clear_by_id`. -/
def lookupHandle (t : Table H) (sysinfoId : U16) : Option H :=
  match t.find? fun e => e.sysinfoId == sysinfoId with
  | some e => e.eventHandle
  | none => none

/-- Calls on ids that have their word in SysInfo. -/
inductive Call (H : Type) where
  | bind (sysinfoId : U16) (handle : H) (bits : U32)
  | unbind (sysinfoId : U16)
deriving DecidableEq, Repr

def Call.id : Call H → U16
  | .bind id _ _ => id
  | .unbind id => id

def exec (t : Table H) : Call H → Option (ℤ × Table H)
  | .bind id h bits => eventBindHandle (some (bits, 4)) id (some h) t
  | .unbind id => some (0, eventUnbindHandle id t)

/-- The table with the handle of the last successful bind of each id that no
unbind followed. -/
structure State (H : Type) where
  table : Table H
  bound : U16 → Option H

def start (n : ℕ) : State H := ⟨List.replicate n Entry.empty, fun _ => none⟩

def record (bound : U16 → Option H) (result : ℤ) : Call H → U16 → Option H
  | .bind id h _ => if result = 0 then Function.update bound id (some h) else bound
  | .unbind id => Function.update bound id none

def next (s : State H) (c : Call H) : State H :=
  match exec s.table c with
  | some (result, t) => ⟨t, record s.bound result c⟩
  | none => s

/-- One entry with a handle for each id, and the search finds it. -/
def IsMap (s : State H) : Prop :=
  (s.table.Pairwise fun a b =>
    a.eventHandle ≠ none → b.eventHandle ≠ none → a.sysinfoId ≠ b.sysinfoId) ∧
    ∀ id, lookupHandle s.table id = s.bound id

/-- A call is answered, a bind fails exactly when its id is not bound and the
table is full, a failed bind changes nothing, and the entries of other ids stay
where they are. -/
def AnsweredAsMap (s : State H) (c : Call H) : Prop :=
  ∃ result t, exec s.table c = some (result, t) ∧
    (∀ id h bits, c = .bind id h bits →
      ((result = 0 ∨ result = -1) ∧
        (result = -1 ↔ s.bound id = none ∧ ∀ e ∈ s.table, e.eventHandle ≠ none) ∧
        (result = -1 → t = s.table))) ∧
    t.length = s.table.length ∧
    ∀ (i : ℕ) (e : Entry H), e.eventHandle ≠ none → e.sysinfoId ≠ c.id →
      (t[i]? = some e ↔ s.table[i]? = some e)

/-- Every state of the sequence is a map and every call is answered as one. -/
def BehavesAsMap : State H → List (Call H) → Prop
  | s, [] => IsMap s
  | s, c :: cs => IsMap s ∧ AnsweredAsMap s c ∧ BehavesAsMap (next s c) cs

/-- An unbind opens a gap in front of the entry bound to id zero. -/
def OpensGap (t : Table H) : Call H → Prop
  | .bind _ _ _ => False
  | .unbind id => id ≠ 0 ∧ ∃ (i j : ℕ) (a b : Entry H), i < j ∧ t[i]? = some a ∧ t[j]? = some b ∧
      a.sysinfoId = id ∧ a.eventHandle ≠ none ∧ b.sysinfoId = 0 ∧ b.eventHandle ≠ none

def NoGap : State H → List (Call H) → Prop
  | _, [] => True
  | s, c :: cs => ¬ OpensGap s.table c ∧ NoGap (next s c) cs

/-- Free entries carry id zero, and an entry with a handle is the first one of
its id. -/
structure Tidy (t : Table H) : Prop where
  free : ∀ e ∈ t, e.eventHandle = none → e.sysinfoId = 0
  first : t.Pairwise fun a b => a.sysinfoId = b.sysinfoId → b.eventHandle = none

theorem start_tidy (n : ℕ) : Tidy (start n : State H).table := by
  constructor
  · intro e he _
    rw [List.eq_of_mem_replicate he]
    rfl
  · rw [start, List.pairwise_replicate]
    exact Or.inr fun _ => rfl

/-- A successful search cuts the table at the first match. -/
theorem cut_findIdx {t : Table H} {p : Entry H → Bool} (h : t.findIdx p ≠ t.length) :
    ∃ l x r, t = l ++ x :: r ∧ t.findIdx p = l.length ∧ p x = true ∧ ∀ a ∈ l, p a = false := by
  have hlt : t.findIdx p < t.length := lt_of_le_of_ne List.findIdx_le_length h
  refine ⟨t.take (t.findIdx p), t[t.findIdx p], t.drop (t.findIdx p + 1), ?_, ?_,
    List.findIdx_getElem, ?_⟩
  · rw [List.getElem_cons_drop, List.take_append_drop]
  · rw [List.length_take, min_eq_left hlt.le]
  · intro a ha
    obtain ⟨i, hi, rfl⟩ := List.getElem_of_mem ha
    rw [List.length_take, lt_min_iff] at hi
    rw [List.getElem_take]
    exact List.not_of_lt_findIdx hi.1

section Lookup
variable {t : Table H} {id : U16} {h : H}

theorem lookupHandle_append {l r : Table H} (hl : ∀ a ∈ l, a.sysinfoId ≠ id) :
    lookupHandle (l ++ r) id = lookupHandle r id := by
  have hnone : l.find? (fun e => e.sysinfoId == id) = none := by
    rw [List.find?_eq_none]
    intro a ha
    simpa using hl a ha
  rw [lookupHandle, List.find?_append, hnone, Option.none_or, lookupHandle]

theorem lookupHandle_cons (e : Entry H) (r : Table H) :
    lookupHandle (e :: r) id = if e.sysinfoId = id then e.eventHandle else lookupHandle r id := by
  simp only [lookupHandle, List.find?_cons]
  split_ifs with he
  · simp [he]
  · have hf : (e.sysinfoId == id) = false := by simpa using he
    simp [hf]

/-- In a tidy table the search finds exactly the entries with a handle. -/
theorem Tidy.lookup_iff (ht : Tidy t) :
    lookupHandle t id = some h ↔ ∃ e ∈ t, e.sysinfoId = id ∧ e.eventHandle = some h := by
  have hfirst := ht.first
  clear ht
  induction t with
  | nil => simp [lookupHandle]
  | cons a t ih =>
      rw [List.pairwise_cons] at hfirst
      rw [lookupHandle_cons]
      split_ifs with ha
      · constructor
        · intro h'
          exact ⟨a, by simp, ha, h'⟩
        · rintro ⟨e, he, hid, hh⟩
          rcases List.mem_cons.mp he with rfl | he
          · exact hh
          · have := hfirst.1 e he (ha.trans hid.symm)
            rw [this] at hh
            cases hh
      · refine (ih hfirst.2).trans ?_
        constructor
        · rintro ⟨e, he, hid⟩
          exact ⟨e, List.mem_cons_of_mem _ he, hid⟩
        · rintro ⟨e, he, hid, hh⟩
          rcases List.mem_cons.mp he with rfl | he
          · exact absurd hid ha
          · exact ⟨e, he, hid, hh⟩

theorem Tidy.lookup_none_iff (ht : Tidy t) :
    lookupHandle t id = none ↔ ∀ e ∈ t, e.sysinfoId = id → e.eventHandle = none := by
  rw [Option.eq_none_iff_forall_ne_some]
  constructor
  · intro hnone e he hid
    cases hh : e.eventHandle with
    | none => rfl
    | some h => exact absurd (ht.lookup_iff.mpr ⟨e, he, hid, hh⟩) (hnone h)
  · intro hall h hl
    obtain ⟨e, he, hid, hh⟩ := ht.lookup_iff.mp hl
    rw [hall e he hid] at hh
    cases hh

end Lookup

/-- Rewriting one entry keeps a table tidy when no entry before it has the new id
and every later entry of the new id is free. -/
theorem Tidy.replace {l r : Table H} {x y : Entry H} (ht : Tidy (l ++ x :: r))
    (hy : y.eventHandle = none → y.sysinfoId = 0)
    (hl : ∀ a ∈ l, a.sysinfoId = y.sysinfoId → y.eventHandle = none)
    (hr : ∀ b ∈ r, b.sysinfoId = y.sysinfoId → b.eventHandle = none) : Tidy (l ++ y :: r) := by
  have hfirst := ht.first
  rw [List.pairwise_append, List.pairwise_cons] at hfirst
  constructor
  · intro e he hnone
    rcases List.mem_append.mp he with he | he
    · exact ht.free e (by simp [he]) hnone
    · rcases List.mem_cons.mp he with rfl | he
      · exact hy hnone
      · exact ht.free e (by simp [he]) hnone
  · rw [List.pairwise_append, List.pairwise_cons]
    refine ⟨hfirst.1, ⟨fun b hb hid => hr b hb hid.symm, hfirst.2.1.2⟩, ?_⟩
    intro a ha b hb
    rcases List.mem_cons.mp hb with rfl | hb
    · exact hl a ha
    · exact hfirst.2.2 a ha b (by simp [hb])

theorem Tidy.after {l r : Table H} {x : Entry H} (ht : Tidy (l ++ x :: r)) {b : Entry H}
    (hb : b ∈ r) (hid : b.sysinfoId = x.sysinfoId) : b.eventHandle = none := by
  have hfirst := ht.first
  rw [List.pairwise_append, List.pairwise_cons] at hfirst
  exact hfirst.2.1.1 b hb hid.symm

theorem Tidy.before {l r : Table H} {x : Entry H} (ht : Tidy (l ++ x :: r))
    (hx : x.eventHandle ≠ none) {a : Entry H} (ha : a ∈ l) : a.sysinfoId ≠ x.sysinfoId := by
  have hfirst := ht.first
  rw [List.pairwise_append] at hfirst
  intro hid
  exact hx (hfirst.2.2 a ha x (by simp) hid)

/-- The place that a bind chooses: the entry of its id, or else the first free one. -/
theorem insert_place {t : Table H} {id : U16} (hne : idxInsert t id ≠ t.length) :
    ∃ l x r, t = l ++ x :: r ∧ idxInsert t id = l.length ∧ (∀ a ∈ l, a.sysinfoId ≠ id) ∧
      (x.sysinfoId = id ∨ x.eventHandle = none ∧ ∀ b ∈ r, b.sysinfoId ≠ id) := by
  unfold idxInsert at hne ⊢
  split_ifs at hne ⊢ with hdup
  · obtain ⟨l, x, r, heq, hlen, hx, -⟩ := cut_findIdx hne
    have hno (e : Entry H) (he : e ∈ t) : e.sysinfoId ≠ id := by
      simpa using List.findIdx_eq_length.mp hdup e he
    refine ⟨l, x, r, heq, hlen, fun a ha => hno a (by simp [heq, ha]), Or.inr ⟨?_, ?_⟩⟩
    · simpa using hx
    · intro b hb
      exact hno b (by simp [heq, hb])
  · obtain ⟨l, x, r, heq, hlen, hx, hl⟩ := cut_findIdx hdup
    refine ⟨l, x, r, heq, hlen, ?_, Or.inl (by simpa using hx)⟩
    intro a ha
    simpa using hl a ha

theorem set_append_length (l r : Table H) (x y : Entry H) :
    (l ++ x :: r).set l.length y = l ++ y :: r := by
  rw [List.set_append_right l.length y le_rfl, Nat.sub_self, List.set_cons_zero]

/-- A bind writes its entry at the place it chose, or finds the table full. -/
theorem insertEntry_cases (t : Table H) (id : U16) (h : H) (bits : U32) :
    (insertEntry t id h bits = t ∧ bindResult t id = -1 ∧ (∀ e ∈ t, e.sysinfoId ≠ id) ∧
        ∀ e ∈ t, e.eventHandle ≠ none) ∨
      ∃ l x r, t = l ++ x :: r ∧ insertEntry t id h bits = l ++ ⟨id, some h, bits⟩ :: r ∧
        bindResult t id = 0 ∧ (∀ a ∈ l, a.sysinfoId ≠ id) ∧
        (x.sysinfoId = id ∨ x.eventHandle = none ∧ ∀ b ∈ r, b.sysinfoId ≠ id) := by
  by_cases hins : idxInsert t id = t.length
  · have hdup : idxDup t id = t.length := by
      by_contra hdup
      rw [idxInsert, if_neg hdup] at hins
      exact hdup hins
    have hfree : idxFree t = t.length := by
      rwa [idxInsert, if_pos hdup] at hins
    refine Or.inl ⟨by rw [insertEntry, if_pos hins], by rw [bindResult, if_pos ⟨hdup, hfree⟩],
      ?_, ?_⟩
    · intro e he
      simpa using List.findIdx_eq_length.mp hdup e he
    · intro e he hnone
      have := List.findIdx_eq_length.mp hfree e he
      simp [hnone] at this
  · have hres : bindResult t id = 0 := by
      rw [bindResult, if_neg]
      rintro ⟨hdup, hfree⟩
      rw [idxInsert, if_pos hdup] at hins
      exact hins hfree
    obtain ⟨l, x, r, heq, hlen, hl, hx⟩ := insert_place hins
    refine Or.inr ⟨l, x, r, heq, ?_, hres, hl, hx⟩
    rw [insertEntry, if_neg hins, hlen, heq, set_append_length]

/-- An unbind clears the first entry of its id, or changes nothing. -/
theorem unbind_cases (t : Table H) (id : U16) :
    (eventUnbindHandle id t = t ∧ ∀ e ∈ t, e.sysinfoId ≠ id) ∨
      ∃ l x r, t = l ++ x :: r ∧ eventUnbindHandle id t = l ++ Entry.empty :: r ∧
        x.sysinfoId = id ∧ ∀ a ∈ l, a.sysinfoId ≠ id := by
  by_cases hdup : idxDup t id = t.length
  · refine Or.inl ⟨?_, ?_⟩
    · rw [eventUnbindHandle, hdup, List.set_eq_of_length_le le_rfl]
    · intro e he
      simpa using List.findIdx_eq_length.mp hdup e he
  · obtain ⟨l, x, r, heq, hlen, hx, hl⟩ := cut_findIdx hdup
    refine Or.inr ⟨l, x, r, heq, ?_, by simpa using hx, ?_⟩
    · have hlen' : idxDup t id = l.length := hlen
      rw [eventUnbindHandle, hlen', heq, set_append_length]
    · intro a ha
      simpa using hl a ha

section Replace
variable {l r : Table H} {x y e : Entry H} {id : U16}

theorem getElem?_replace_iff (hx : e ≠ x) (hy : e ≠ y) (i : ℕ) :
    (l ++ y :: r)[i]? = some e ↔ (l ++ x :: r)[i]? = some e := by
  rcases lt_trichotomy i l.length with hi | rfl | hi
  · rw [List.getElem?_append_left hi, List.getElem?_append_left hi]
  · simp [hx.symm, hy.symm]
  · obtain ⟨k, rfl⟩ := Nat.exists_eq_add_of_lt hi
    rw [List.getElem?_append_right (by omega), List.getElem?_append_right (by omega),
      show l.length + k + 1 - l.length = k + 1 by omega, List.getElem?_cons_succ,
      List.getElem?_cons_succ]

theorem Tidy.lookup_replace (ht : Tidy (l ++ x :: r)) (ht' : Tidy (l ++ y :: r))
    (hx : x.sysinfoId = id → x.eventHandle = none)
    (hy : y.sysinfoId = id → y.eventHandle = none) :
    lookupHandle (l ++ y :: r) id = lookupHandle (l ++ x :: r) id := by
  apply Option.ext
  intro h
  rw [ht.lookup_iff, ht'.lookup_iff]
  constructor
  · rintro ⟨e, he, hid, hh⟩
    refine ⟨e, ?_, hid, hh⟩
    have hne : e ≠ y := by
      rintro rfl
      rw [hy hid] at hh
      cases hh
    simp only [List.mem_append, List.mem_cons, hne, false_or] at he ⊢
    exact he.imp_right Or.inr
  · rintro ⟨e, he, hid, hh⟩
    refine ⟨e, ?_, hid, hh⟩
    have hne : e ≠ x := by
      rintro rfl
      rw [hx hid] at hh
      cases hh
    simp only [List.mem_append, List.mem_cons, hne, false_or] at he ⊢
    exact he.imp_right Or.inr

end Replace

/-- The table is tidy and the search agrees with the history. -/
structure Faithful (s : State H) : Prop where
  tidy : Tidy s.table
  lookup : ∀ id, lookupHandle s.table id = s.bound id

theorem start_faithful (n : ℕ) : Faithful (start n : State H) := by
  refine ⟨start_tidy n, fun id => ?_⟩
  rw [(start_tidy n).lookup_none_iff.mpr]
  · rfl
  · intro e he _
    rw [List.eq_of_mem_replicate he]
    rfl

theorem Faithful.isMap {s : State H} (h : Faithful s) : IsMap s := by
  refine ⟨h.tidy.first.imp ?_, h.lookup⟩
  intro a b hab _ hb hid
  exact hb (hab hid)

section Calls
variable {s : State H}

@[simp] theorem exec_bind (t : Table H) (id : U16) (h : H) (bits : U32) :
    exec t (.bind id h bits) = some (bindResult t id, insertEntry t id h bits) := rfl

@[simp] theorem exec_unbind (t : Table H) (id : U16) :
    exec t (.unbind id) = some (0, eventUnbindHandle id t) := rfl

theorem next_bind (s : State H) (id : U16) (h : H) (bits : U32) :
    next s (.bind id h bits) = ⟨insertEntry s.table id h bits,
      record s.bound (bindResult s.table id) (.bind id h bits)⟩ := rfl

theorem next_unbind (s : State H) (id : U16) :
    next s (.unbind id) = ⟨eventUnbindHandle id s.table, Function.update s.bound id none⟩ := rfl

/-- An id is bound exactly when an entry with a handle has it. -/
theorem Faithful.bound_none_iff (hs : Faithful s) (id : U16) :
    s.bound id = none ↔ ∀ e ∈ s.table, e.sysinfoId = id → e.eventHandle = none := by
  rw [← hs.lookup, hs.tidy.lookup_none_iff]

theorem Faithful.answered_bind (hs : Faithful s) (id : U16) (h : H) (bits : U32) :
    AnsweredAsMap s (.bind id h bits) := by
  refine ⟨_, _, exec_bind _ _ _ _, ?_⟩
  rcases insertEntry_cases s.table id h bits with
    ⟨ht, hres, hid, hfull⟩ | ⟨l, x, r, heq, ht, hres, hl, hx⟩
  · rw [ht, hres]
    refine ⟨?_, rfl, fun _ _ _ _ => Iff.rfl⟩
    rintro id' h' bits' hc
    injection hc with hc
    subst hc
    refine ⟨Or.inr rfl, iff_of_true rfl ⟨?_, hfull⟩, fun _ => rfl⟩
    exact (hs.bound_none_iff id).mpr fun e he hide => absurd hide (hid e he)
  · rw [ht, hres, heq]
    refine ⟨?_, by simp, ?_⟩
    · rintro id' h' bits' hc
      injection hc with hc
      subst hc
      refine ⟨Or.inl rfl, iff_of_false (by decide) ?_, fun h0 => absurd h0 (by decide)⟩
      rintro ⟨hnone, hfull⟩
      have hxf : x.eventHandle ≠ none := hfull x (by simp)
      rcases hx with hx | ⟨hx, -⟩
      · exact hxf ((hs.bound_none_iff id).mp hnone x (by simp [heq]) hx)
      · exact hxf hx
    · intro i e he hid
      apply getElem?_replace_iff
      · rintro rfl
        rcases hx with hx | ⟨hx, -⟩
        · exact hid hx
        · exact he hx
      · rintro rfl
        exact hid rfl

theorem Faithful.bind (hs : Faithful s) (id : U16) (h : H) (bits : U32) :
    Faithful (next s (.bind id h bits)) := by
  rw [next_bind]
  rcases insertEntry_cases s.table id h bits with
    ⟨ht, hres, -, -⟩ | ⟨l, x, r, heq, ht, hres, hl, hx⟩
  · rw [ht, hres]
    exact ⟨hs.tidy, hs.lookup⟩
  · have htidy : Tidy (l ++ x :: r) := heq ▸ hs.tidy
    have hlater (b : Entry H) (hb : b ∈ r) (hid : b.sysinfoId = id) : b.eventHandle = none := by
      rcases hx with hx | ⟨-, hx⟩
      · exact htidy.after hb (hid.trans hx.symm)
      · exact absurd hid (hx b hb)
    have htidy' : Tidy (l ++ ⟨id, some h, bits⟩ :: r) :=
      htidy.replace (fun h0 => by cases h0) (fun a ha hid => absurd hid (hl a ha)) hlater
    rw [ht, hres]
    refine ⟨htidy', fun id' => ?_⟩
    simp only [record, if_true]
    by_cases hid : id' = id
    · rw [hid, Function.update_self]
      exact htidy'.lookup_iff.mpr ⟨⟨id, some h, bits⟩, by simp, rfl, rfl⟩
    · rw [Function.update_of_ne hid, ← hs.lookup, heq]
      apply htidy.lookup_replace htidy'
      · intro hxid
        rcases hx with hx | ⟨hx, -⟩
        · exact absurd (hxid.symm.trans hx) hid
        · exact hx
      · intro hid'
        exact absurd hid'.symm hid

theorem answered_unbind (s : State H) (id : U16) : AnsweredAsMap s (.unbind id) := by
  refine ⟨_, _, exec_unbind _ _, ?_, ?_⟩
  · intro _ _ _ hc
    cases hc
  rcases unbind_cases s.table id with ⟨ht, -⟩ | ⟨l, x, r, heq, ht, hx, -⟩
  · rw [ht]
    exact ⟨rfl, fun _ _ _ _ => Iff.rfl⟩
  · rw [ht, heq]
    refine ⟨by simp, ?_⟩
    intro i e he hid
    apply getElem?_replace_iff
    · rintro rfl
      exact hid hx
    · rintro rfl
      exact he rfl

theorem Faithful.unbind (hs : Faithful s) (id : U16) (hgap : ¬ OpensGap s.table (.unbind id)) :
    Faithful (next s (.unbind id)) := by
  rw [next_unbind]
  rcases unbind_cases s.table id with ⟨ht, hno⟩ | ⟨l, x, r, heq, ht, hx, hl⟩
  · rw [ht]
    refine ⟨hs.tidy, fun id' => ?_⟩
    change lookupHandle s.table id' = Function.update s.bound id none id'
    by_cases hid : id' = id
    · rw [hid, Function.update_self]
      exact hs.tidy.lookup_none_iff.mpr fun e he hide => absurd hide (hno e he)
    · rw [Function.update_of_ne hid, hs.lookup]
  · have htidy : Tidy (l ++ x :: r) := heq ▸ hs.tidy
    have hlater (b : Entry H) (hb : b ∈ r) (hid : b.sysinfoId = 0) : b.eventHandle = none := by
      by_cases hx0 : x.sysinfoId = 0
      · exact htidy.after hb (hid.trans hx0.symm)
      by_contra hbh
      obtain ⟨k, hk, hkb⟩ := List.getElem_of_mem hb
      apply hgap
      refine ⟨hx ▸ hx0, l.length, l.length + 1 + k, x, b, by omega, by simp [heq], ?_, hx, ?_,
        hid, hbh⟩
      · rw [heq, List.getElem?_append_right (by omega),
          show l.length + 1 + k - l.length = k + 1 by omega, List.getElem?_cons_succ,
          List.getElem?_eq_getElem hk, hkb]
      · intro hxh
        exact hx0 (htidy.free x (by simp) hxh)
    have htidy' : Tidy (l ++ Entry.empty :: r) :=
      htidy.replace (fun _ => rfl) (fun _ _ _ => rfl) hlater
    rw [ht]
    refine ⟨htidy', fun id' => ?_⟩
    change lookupHandle (l ++ Entry.empty :: r) id' = Function.update s.bound id none id'
    by_cases hid : id' = id
    · rw [hid, Function.update_self, htidy'.lookup_none_iff]
      intro e he hide
      rcases List.mem_append.mp he with he | he
      · exact absurd hide (hl e he)
      · rcases List.mem_cons.mp he with rfl | he
        · rfl
        · exact htidy.after he (hide.trans hx.symm)
    · rw [Function.update_of_ne hid, ← hs.lookup, heq]
      exact htidy.lookup_replace htidy' (fun hxid => absurd (hxid.symm.trans hx) hid)
        (fun _ => rfl)

/-- The free entry left by such an unbind hides the entry bound to id zero. -/
theorem Faithful.not_isMap_of_opensGap (hs : Faithful s) {c : Call H}
    (hgap : OpensGap s.table c) : ¬ IsMap (next s c) := by
  cases c with
  | bind id h bits => exact hgap.elim
  | unbind id =>
      obtain ⟨hid, i, j, a, b, hij, hi, hj, haid, ha, hbid, hb⟩ := hgap
      rw [next_unbind]
      rintro ⟨-, hlookup⟩
      have hzero : s.bound 0 ≠ none := by
        rw [Ne, hs.bound_none_iff]
        intro hall
        exact hb (hall b (List.mem_of_getElem? hj) hbid)
      have hbound : lookupHandle (eventUnbindHandle id s.table) 0 =
          Function.update s.bound id none 0 := hlookup 0
      rw [Function.update_of_ne (Ne.symm hid)] at hbound
      apply hzero
      rw [← hbound]
      rcases unbind_cases s.table id with ⟨-, hno⟩ | ⟨l, x, r, heq, ht, hx, hl⟩
      · exact absurd haid (hno a (List.mem_of_getElem? hi))
      · have hli : l.length ≤ i := by
          by_contra hlt
          rw [heq, List.getElem?_append_left (by omega)] at hi
          exact hl a (List.mem_of_getElem? hi) haid
        have hbr : b ∈ x :: r := by
          rw [heq, List.getElem?_append_right (by omega)] at hj
          exact List.mem_of_getElem? hj
        have htidy : Tidy (l ++ x :: r) := heq ▸ hs.tidy
        have hfirst := htidy.first
        rw [List.pairwise_append] at hfirst
        have hl0 (e : Entry H) (he : e ∈ l) : e.sysinfoId ≠ 0 := by
          intro he0
          exact hb (hfirst.2.2 e he b hbr (he0.trans hbid.symm))
        rw [ht, lookupHandle_append hl0, lookupHandle_cons]
        exact if_pos rfl

theorem Faithful.answered (hs : Faithful s) (c : Call H) : AnsweredAsMap s c := by
  cases c with
  | bind id h bits => exact hs.answered_bind id h bits
  | unbind id => exact answered_unbind s id

theorem Faithful.next_of_not_opensGap (hs : Faithful s) {c : Call H}
    (hgap : ¬ OpensGap s.table c) : Faithful (next s c) := by
  cases c with
  | bind id h bits => exact hs.bind id h bits
  | unbind id => exact hs.unbind id hgap

theorem BehavesAsMap.isMap {cs : List (Call H)} (h : BehavesAsMap s cs) : IsMap s := by
  cases cs with
  | nil => exact h
  | cons c cs => exact h.1

theorem Faithful.behavesAsMap_iff (hs : Faithful s) (cs : List (Call H)) :
    BehavesAsMap s cs ↔ NoGap s cs := by
  induction cs generalizing s with
  | nil => exact iff_of_true hs.isMap trivial
  | cons c cs ih =>
      constructor
      · rintro ⟨-, -, hrest⟩
        have hgap : ¬ OpensGap s.table c := fun hgap =>
          hs.not_isMap_of_opensGap hgap hrest.isMap
        exact ⟨hgap, (ih (hs.next_of_not_opensGap hgap)).mp hrest⟩
      · rintro ⟨hgap, hrest⟩
        exact ⟨hs.isMap, hs.answered c, (ih (hs.next_of_not_opensGap hgap)).mpr hrest⟩

end Calls

/-- For every sequence of calls on a zeroed table of any length, the table is a
finite map all along exactly when no unbind of another id clears an entry that
stands before the entry bound to id zero. -/
theorem event_table_finite_map_iff_no_gap (n : ℕ) (cs : List (Call H)) :
    BehavesAsMap (start (n + 1)) cs ↔ NoGap (start (n + 1)) cs :=
  (start_faithful (n + 1)).behavesAsMap_iff cs

/-- Ids five and zero are bound and five is unbound: zero is no longer found. -/
theorem unbind_hides_id_zero :
    ¬ BehavesAsMap (start 5 : State ℕ) [.bind 5 1 100, .bind 0 2 104, .unbind 5] := by
  rintro ⟨-, -, -, -, -, -, -, hlookup⟩
  exact absurd (hlookup 0) (by decide)

end EspAmp.EventTable
