import EspAmp.AtomicWord
import EspAmp.ReplyMachine

/-!
# Software interrupts on the LP subcore

Any number of contexts on the main core trigger interrupts: each sets the bit of
its id in the pending word and then the hardware latch. The subcore enters its
interrupt routine when the latch is set, clears the latch, and takes batches of
pending bits with a compare-exchange loop until it finds none. Every atomic access,
every visited table slot and every latch access is one step, so all contexts may
interleave anywhere in between. Handlers and their arguments are arbitrary types.
-/
namespace EspAmp.SoftwareInterrupt
open AtomicWord ReplyMachine

/-- `sw_intr_handler_tbl_t`; the null handler is `none`. -/
structure Slot (H A : Type) where
  intrId : Fin 32
  handler : Option H
  arg : A
deriving DecidableEq, Repr

/-- The interrupt routine: not running, entered, in an exchange loop with its
`unprocessed` variable, at a table slot of a batch, or behind its last exchange. -/
inductive Isr where
  | idle
  | entered
  | exchange (unprocessed : BitVec 32)
  | dispatch (unprocessed : BitVec 32) (i : ℕ)
  | leaving
deriving DecidableEq, Repr

/-- The routine runs and its final exchange is still ahead. -/
def Isr.beforeFinal : Isr → Bool
  | .idle | .leaving => false
  | _ => true

structure State (H A : Type) where
  pending : BitVec 32
  latch : Bool
  armed : ℕ → Bool
  isr : Isr
  table : List (Slot H A)

section Table
variable {H A : Type}

/-- `esp_amp_sw_intr_add_handler`: the first slot without a handler is used. -/
def addHandler (new : Slot H A) : List (Slot H A) → Int × List (Slot H A)
  | [] => (-1, [])
  | slot :: slots =>
      match slot.handler with
      | none => (0, new :: slots)
      | some _ => ((addHandler new slots).1, slot :: (addHandler new slots).2)

/-- `esp_amp_sw_intr_delete_handler`: a deleted slot keeps its id and argument. -/
def deleteHandler [DecidableEq H] (intrId : Fin 32) (handler : Option H)
    (table : List (Slot H A)) : List (Slot H A) :=
  table.map fun slot =>
    if slot.intrId = intrId ∧ slot.handler = handler then { slot with handler := none } else slot

/-- What the loop body does at one slot: the entry whose handler it calls. -/
def visitSlot (unprocessed : BitVec 32) (slot : Slot H A) : Option (Slot H A) :=
  if unprocessed &&& bit slot.intrId ≠ 0 then
    match slot.handler with
    | some _ => some slot
    | none => none
  else none

end Table

inductive Label (H A : Type) where
  | trigger (c : ℕ) (intrId : Fin 32)
  | setLatch (c : ℕ)
  | enter
  | clear
  | retry
  | take (unprocessed : BitVec 32)
  | finish
  | visit (i : ℕ) (called : Option (Slot H A))
  | again
  | ret
  | add (slot : Slot H A)
  | delete (intrId : Fin 32) (handler : Option H)

/-- Steps that the other core takes on this state. -/
def Outside {H A : Type} : Label H A → Prop
  | .trigger _ _ | .setLatch _ => True
  | _ => False

/-- Steps of the interrupt routine itself. -/
def Routine {H A : Type} : Label H A → Prop
  | .trigger _ _ | .setLatch _ | .add _ | .delete _ _ => False
  | _ => True

/-- What a compare-exchange attempt reports. -/
def attemptLabel {H A : Type} (x : Exchange 32) : Label H A :=
  if x.success then (if x.expected = 0 then .finish else .take x.expected) else .retry

/-- Where the routine continues after an attempt: behind the loop with a batch or
with nothing, or at the next attempt. -/
def afterAttempt (x : Exchange 32) : Isr :=
  if x.success then (if x.expected = 0 then .leaving else .dispatch x.expected 0)
  else .exchange x.expected

inductive Step {H A : Type} [DecidableEq H] : State H A → Label H A → State H A → Prop
  | trigger {s : State H A} {c : ℕ} (intrId : Fin 32) : s.armed c = false →
      Step s (.trigger c intrId)
        { s with pending := (fetchOr s.pending (bit intrId)).2,
                 armed := Function.update s.armed c true }
  | setLatch {s : State H A} {c : ℕ} : s.armed c = true →
      Step s (.setLatch c) { s with latch := true, armed := Function.update s.armed c false }
  | enter {s : State H A} : s.isr = .idle → s.latch = true →
      Step s .enter { s with isr := .entered }
  | clear {s : State H A} : s.isr = .entered →
      Step s .clear { s with latch := false, isr := .exchange 0 }
  | attempt {s : State H A} {u : BitVec 32} (spurious : Bool) : s.isr = .exchange u →
      Step s (attemptLabel (compareExchangeWeak spurious s.pending u 0))
        { s with pending := (compareExchangeWeak spurious s.pending u 0).word,
                 isr := afterAttempt (compareExchangeWeak spurious s.pending u 0) }
  | visit {s : State H A} {u : BitVec 32} {i : ℕ} {slot : Slot H A} : s.isr = .dispatch u i →
      s.table[i]? = some slot →
      Step s (.visit i (visitSlot u slot)) { s with isr := .dispatch u (i + 1) }
  | again {s : State H A} {u : BitVec 32} {i : ℕ} : s.isr = .dispatch u i → s.table.length ≤ i →
      Step s .again { s with isr := .exchange 0 }
  | ret {s : State H A} : s.isr = .leaving → Step s .ret { s with isr := .idle }
  | add {s : State H A} (slot : Slot H A) : s.isr = .idle →
      Step s (.add slot) { s with table := (addHandler slot s.table).2 }
  | delete {s : State H A} (intrId : Fin 32) (handler : Option H) : s.isr = .idle →
      Step s (.delete intrId handler) { s with table := deleteHandler intrId handler s.table }

/-- After `esp_amp_sw_intr_init`: nothing pending, an empty table of `len` slots. -/
def State.start (H : Type) {A : Type} (null : A) (len : ℕ) : State H A :=
  ⟨0, false, fun _ => false, .idle, List.replicate len ⟨0, none, null⟩⟩

section Pending
variable {H A : Type} [DecidableEq H] {s t : State H A} {l : Label H A}

/-- Pending bits are always about to be seen. -/
def Announced (s : State H A) : Prop :=
  s.pending ≠ 0 → s.latch = true ∨ (∃ c, s.armed c = true) ∨ s.isr.beforeFinal = true

omit [DecidableEq H] in
/-- What one compare-exchange attempt against zero can do. -/
theorem attempt_cases (spurious : Bool) (word u : BitVec 32) :
    let x := compareExchangeWeak spurious word u 0
    ((attemptLabel x : Label H A) = .retry ∧ x.word = word ∧ afterAttempt x = .exchange word) ∨
      (word = 0 ∧ u = 0 ∧ (attemptLabel x : Label H A) = .finish ∧ x.word = 0 ∧
        afterAttempt x = .leaving) ∨
      (word = u ∧ u ≠ 0 ∧ (attemptLabel x : Label H A) = .take u ∧ x.word = 0 ∧
        afterAttempt x = .dispatch u 0) := by
  intro x
  rcases compareExchangeWeak_cases spurious word u 0 with ⟨hw, hx⟩ | hx
  · rw [show x = _ from hx]
    by_cases hu : u = 0
    · subst hu
      exact Or.inr (Or.inl ⟨hw, rfl, rfl, rfl, rfl⟩)
    · exact Or.inr (Or.inr ⟨hw, hu, if_neg hu, rfl, if_neg hu⟩)
  · rw [show x = _ from hx]
    exact Or.inl ⟨rfl, rfl, rfl⟩

theorem step_announced (hs : Step s l t) (h : Announced s) : Announced t := by
  cases hs with
  | trigger intrId harmed =>
      intro _
      exact Or.inr (Or.inl ⟨_, Function.update_self ..⟩)
  | setLatch harmed => exact fun _ => Or.inl rfl
  | enter hisr hlatch => exact fun _ => Or.inl hlatch
  | clear hisr => exact fun _ => Or.inr (Or.inr rfl)
  | @attempt u spurious hisr =>
      rcases attempt_cases (H := H) (A := A) spurious s.pending u with
        ⟨-, -, hisr⟩ | ⟨-, -, -, hword, -⟩ | ⟨-, -, -, hword, -⟩
      · exact fun _ => Or.inr (Or.inr (by rw [hisr]; rfl))
      · exact fun hne => absurd hword hne
      · exact fun hne => absurd hword hne
  | visit hisr hslot => exact fun _ => Or.inr (Or.inr rfl)
  | again hisr hlen => exact fun _ => Or.inr (Or.inr rfl)
  | ret hisr =>
      intro hne
      rcases h hne with h | h | h
      · exact Or.inl h
      · exact Or.inr (Or.inl h)
      · rw [hisr] at h
        cases h
  | add slot hisr => exact h
  | delete intrId handler hisr => exact h

end Pending

section Slots
variable {H A : Type} {e : Slot H A}

theorem addHandler_keeps {slots : List (Slot H A)} {i : ℕ} (new : Slot H A)
    (he : slots[i]? = some e) (hh : e.handler ≠ none) :
    (addHandler new slots).2[i]? = some e := by
  induction slots generalizing i with
  | nil => simp at he
  | cons slot slots ih =>
      cases i with
      | zero =>
          obtain rfl : slot = e := by simpa using he
          cases hslot : slot.handler with
          | none => exact absurd hslot hh
          | some f => simp [addHandler, hslot]
      | succ i =>
          cases hslot : slot.handler with
          | none => simpa [addHandler, hslot] using he
          | some f => simpa [addHandler, hslot] using ih (by simpa using he)

/-- Deleting leaves a slot alone, or no equal entry is left anywhere. -/
theorem deleteHandler_keeps [DecidableEq H] {slots : List (Slot H A)} {i : ℕ} (intrId : Fin 32)
    (handler : Option H) (he : slots[i]? = some e) (hh : e.handler ≠ none)
    (hmem : e ∈ deleteHandler intrId handler slots) :
    (deleteHandler intrId handler slots)[i]? = some e := by
  obtain ⟨slot, hslot, heq⟩ := List.mem_map.mp hmem
  have hne : ¬ (e.intrId = intrId ∧ e.handler = handler) := by
    intro hc
    split_ifs at heq with hd
    · rw [← heq] at hh
      exact hh rfl
    · rw [heq] at hd
      exact hd hc
  rw [deleteHandler, List.getElem?_map, he, Option.map_some, if_neg hne]

theorem visitSlot_of_bit {u : BitVec 32} (hu : u.getLsbD e.intrId = true)
    (hh : e.handler ≠ none) : visitSlot u e = some e := by
  rw [visitSlot, if_pos ((and_bit_ne_zero_iff u e.intrId).mpr hu)]
  cases hf : e.handler with
  | none => exact absurd hf hh
  | some f => rfl

theorem bit_of_visitSlot {u : BitVec 32} {slot : Slot H A} (h : visitSlot u slot = some e) :
    u.getLsbD e.intrId = true := by
  unfold visitSlot at h
  split_ifs at h with hu
  cases hf : slot.handler with
  | none =>
      rw [hf] at h
      cases h
  | some f =>
      rw [hf] at h
      obtain rfl := Option.some.inj h
      exact (and_bit_ne_zero_iff u slot.intrId).mp hu

end Slots

section Delivery
variable {H A : Type} [DecidableEq H] {s t : State H A} {l : Label H A} {e : Slot H A}

/-- The bit of an entry still has to reach its slot `i`: it is pending, or it was
taken in the current batch and the slot lies ahead. -/
def Ahead (e : Slot H A) (i : ℕ) (s : State H A) : Prop :=
  s.pending.getLsbD e.intrId = true ∨
    ∃ u j, s.isr = .dispatch u j ∧ u.getLsbD e.intrId = true ∧ j ≤ i

omit [DecidableEq H] in
theorem Ahead.pending {i : ℕ} (h : Ahead e i s) (hisr : ∀ u j, s.isr ≠ .dispatch u j) :
    s.pending.getLsbD e.intrId = true := by
  rcases h with h | ⟨u, j, hd, -⟩
  · exact h
  · exact absurd hd (hisr u j)

/-- A slot keeps an entry that stays registered. -/
theorem step_slot (hs : Step s l t) {i : ℕ} (he : s.table[i]? = some e) (hh : e.handler ≠ none)
    (hmem : e ∈ t.table) : t.table[i]? = some e := by
  cases hs with
  | add slot hisr => exact addHandler_keeps slot he hh
  | delete intrId handler hisr => exact deleteHandler_keeps intrId handler he hh hmem
  | _ => exact he

/-- One step brings a bit closer to its entry or calls the entry. -/
theorem step_ahead (hs : Step s l t) {i : ℕ} (he : s.table[i]? = some e)
    (hh : e.handler ≠ none) (h : Ahead e i s) : l = .visit i (some e) ∨ Ahead e i t := by
  cases hs with
  | @trigger c intrId harmed =>
      right
      rcases h with h | h
      · left
        simp [fetchOr, h]
      · exact Or.inr h
  | setLatch harmed => exact Or.inr h
  | enter hisr hlatch => exact Or.inr (Or.inl (h.pending (by simp [hisr])))
  | clear hisr => exact Or.inr (Or.inl (h.pending (by simp [hisr])))
  | @attempt u spurious hisr =>
      right
      have hp := h.pending (by simp [hisr])
      rcases attempt_cases (H := H) (A := A) spurious s.pending u with
        ⟨-, hword, -⟩ | ⟨hzero, -⟩ | ⟨hpu, -, -, -, hdisp⟩
      · left
        simp only [hword]
        exact hp
      · rw [hzero] at hp
        simp at hp
      · exact Or.inr ⟨u, 0, hdisp, hpu ▸ hp, Nat.zero_le i⟩
  | @visit u j slot hisr hslot =>
      rcases h with h | ⟨u', j', hd, hu, hj⟩
      · exact Or.inr (Or.inl h)
      · rw [hisr] at hd
        obtain ⟨rfl, rfl⟩ := Isr.dispatch.inj hd
        rcases Nat.eq_or_lt_of_le hj with rfl | hlt
        · left
          obtain rfl := Option.some.inj (hslot.symm.trans he)
          rw [visitSlot_of_bit hu hh]
        · exact Or.inr (Or.inr ⟨u, j + 1, rfl, hu, hlt⟩)
  | @again u j hisr hlen =>
      rcases h with h | ⟨u', j', hd, hu, hj⟩
      · exact Or.inr (Or.inl h)
      · rw [hisr] at hd
        obtain ⟨rfl, rfl⟩ := Isr.dispatch.inj hd
        have hi : i < s.table.length := (List.getElem?_eq_some_iff.mp he).1
        omega
  | ret hisr => exact Or.inr (Or.inl (h.pending (by simp [hisr])))
  | add slot hisr => exact Or.inr h
  | delete intrId handler hisr => exact Or.inr h

/-- A step after which the entry is registered. -/
def Keeps (e : Slot H A) (s : State H A) (l : Label H A) (t : State H A) : Prop :=
  Step s l t ∧ e ∈ t.table

theorem run_ahead {ls : List (Label H A)} (hrun : Run (Keeps e) s ls t) {i : ℕ}
    (he : s.table[i]? = some e) (hh : e.handler ≠ none) (h : Ahead e i s) :
    Label.visit i (some e) ∈ ls ∨ Ahead e i t := by
  induction hrun with
  | done s => exact Or.inr h
  | next hs _ ih =>
      rcases step_ahead hs.1 he hh h with rfl | hnext
      · exact Or.inl (List.mem_cons_self ..)
      · rcases ih (step_slot hs.1 he hh hs.2) hnext with hmem | hlast
        · exact Or.inl (List.mem_cons_of_mem _ hmem)
        · exact Or.inr hlast

/-- The handler returns having found nothing pending: its final exchange, or its
return while nothing is pending. -/
def ReturnsEmpty (s : State H A) : Prop :=
  (∃ t, Step s .finish t) ∨ ((∃ t, Step s .ret t) ∧ s.pending = 0)

theorem finish_inv (hs : Step s l t) (hl : l = .finish) :
    s.pending = 0 ∧ s.isr = .exchange 0 := by
  cases hs with
  | @attempt u spurious hisr =>
      rcases attempt_cases (H := H) (A := A) spurious s.pending u with
        ⟨hlab, -⟩ | ⟨hzero, hu, -⟩ | ⟨-, -, hlab, -⟩
      · cases hlab.symm.trans hl
      · exact ⟨hzero, hu ▸ hisr⟩
      · cases hlab.symm.trans hl
  | _ => cases hl

theorem ret_inv (hs : Step s l t) (hl : l = .ret) : s.isr = .leaving := by
  cases hs with
  | ret hisr => exact hisr
  | @attempt u spurious hisr =>
      rcases attempt_cases (H := H) (A := A) spurious s.pending u with
        ⟨hlab, -⟩ | ⟨-, -, hlab, -⟩ | ⟨-, -, hlab, -⟩ <;> cases hlab.symm.trans hl
  | _ => cases hl

theorem trigger_inv {c : ℕ} {intrId : Fin 32} (hs : Step s l t) (hl : l = .trigger c intrId) :
    t.pending.getLsbD intrId = true ∧ t.table = s.table := by
  cases hs with
  | trigger intrId' harmed =>
      obtain ⟨-, rfl⟩ := Label.trigger.inj hl
      refine ⟨?_, rfl⟩
      rw [fetchOr, BitVec.getLsbD_or, bit_getLsbD, Bool.or_true]
  | @attempt u spurious hisr =>
      rcases attempt_cases (H := H) (A := A) spurious s.pending u with
        ⟨hlab, -⟩ | ⟨-, -, hlab, -⟩ | ⟨-, -, hlab, -⟩ <;> cases hlab.symm.trans hl
  | _ => cases hl

theorem not_ahead_of_returns {i : ℕ} (h : ReturnsEmpty s) : ¬ Ahead e i s := by
  intro ha
  rcases h with ⟨t, hs⟩ | ⟨⟨t, hs⟩, hp⟩
  · obtain ⟨hp, hisr⟩ := finish_inv hs rfl
    have hbit := ha.pending (by simp [hisr])
    rw [hp] at hbit
    simp at hbit
  · have hisr := ret_inv hs rfl
    have hbit := ha.pending (by simp [hisr])
    rw [hp] at hbit
    simp at hbit

end Delivery

section Batches
variable {H A : Type} [DecidableEq H] {s t : State H A} {l : Label H A} {ls : List (Label H A)}

/-- A running batch is the last one taken. -/
def Batch (ls : List (Label H A)) (s : State H A) : Prop :=
  ∀ u j, s.isr = .dispatch u j →
    ∃ pre post, ls = pre ++ .take u :: post ∧ ∀ v, Label.take v ∉ post

omit [DecidableEq H] in
theorem Batch.extend (h : Batch ls s) (hl : ∀ v, l ≠ .take v)
    (hisr : ∀ u j, t.isr = .dispatch u j → ∃ k, s.isr = .dispatch u k) :
    Batch (ls ++ [l]) t := by
  intro u j ht
  obtain ⟨k, hk⟩ := hisr u j ht
  obtain ⟨pre, post, rfl, hpost⟩ := h u k hk
  refine ⟨pre, post ++ [l], by simp, fun v hv => ?_⟩
  rcases List.mem_append.mp hv with hv | hv
  · exact hpost v hv
  · exact hl v (List.mem_singleton.mp hv).symm

theorem step_batch (hs : Step s l t) (h : Batch ls s) : Batch (ls ++ [l]) t := by
  cases hs with
  | trigger intrId harmed => exact h.extend (by simp) fun u j ht => ⟨j, ht⟩
  | setLatch harmed => exact h.extend (by simp) fun u j ht => ⟨j, ht⟩
  | enter hisr hlatch => exact h.extend (by simp) fun u j ht => by cases ht
  | clear hisr => exact h.extend (by simp) fun u j ht => by cases ht
  | @attempt u spurious hisr =>
      rcases attempt_cases (H := H) (A := A) spurious s.pending u with
        ⟨hlab, -, hafter⟩ | ⟨-, -, hlab, -, hafter⟩ | ⟨-, -, hlab, -, hafter⟩
      · rw [hlab]
        exact h.extend (by simp) fun v j ht => by cases hafter.symm.trans ht
      · rw [hlab]
        exact h.extend (by simp) fun v j ht => by cases hafter.symm.trans ht
      · intro v j ht
        obtain ⟨rfl, rfl⟩ := Isr.dispatch.inj (hafter.symm.trans ht)
        exact ⟨ls, [], by rw [hlab], by simp⟩
  | @visit u j slot hisr hslot =>
      refine h.extend (by simp) fun v k ht => ?_
      obtain ⟨rfl, rfl⟩ := Isr.dispatch.inj ht
      exact ⟨j, hisr⟩
  | again hisr hlen => exact h.extend (by simp) fun u j ht => by cases ht
  | ret hisr => exact h.extend (by simp) fun u j ht => by cases ht
  | add slot hisr => exact h.extend (by simp) fun u j ht => ⟨j, ht⟩
  | delete intrId handler hisr => exact h.extend (by simp) fun u j ht => ⟨j, ht⟩

theorem run_batch {ks : List (Label H A)} (hrun : Run Step s ks t) (h : Batch ls s) :
    Batch (ls ++ ks) t := by
  induction hrun generalizing ls with
  | done s =>
      rw [List.append_nil]
      exact h
  | @next s t v l ks hs _ ih =>
      have hnext := ih (step_batch hs h)
      rwa [List.append_assoc] at hnext

theorem visit_inv {i : ℕ} {e : Slot H A} (hs : Step s l t) (hl : l = .visit i (some e)) :
    ∃ u, s.isr = .dispatch u i ∧ u.getLsbD e.intrId = true := by
  cases hs with
  | @visit u j slot hisr hslot =>
      obtain ⟨rfl, hv⟩ := Label.visit.inj hl
      exact ⟨u, hisr, bit_of_visitSlot hv⟩
  | @attempt u spurious hisr =>
      rcases attempt_cases (H := H) (A := A) spurious s.pending u with
        ⟨hlab, -⟩ | ⟨-, -, hlab, -⟩ | ⟨-, -, hlab, -⟩ <;> cases hlab.symm.trans hl
  | _ => cases hl

end Batches

/-- In every run: pending bits are announced by the latch, by a trigger between its
two steps or by a routine before its final exchange; an entry that stays registered
from a trigger of its id until the handler returns with nothing pending is called in
between; and every call belongs to a batch whose bits include the id of its entry. -/
theorem no_software_interrupt_lost {H A : Type} [DecidableEq H] (null : A) (len : ℕ)
    (ls : List (Label H A)) (s : State H A) (hrun : Run Step (State.start H null len) ls s) :
    (s.pending ≠ 0 →
      s.latch = true ∨ (∃ c, s.armed c = true) ∨ s.isr.beforeFinal = true) ∧
    (∀ (e : Slot H A) (c : ℕ) (t v : State H A) (ks : List (Label H A)),
      e.handler ≠ none → e ∈ s.table → Step s (.trigger c e.intrId) t →
      Run (Keeps e) t ks v → ReturnsEmpty v → ∃ i, Label.visit i (some e) ∈ ks) ∧
    ∀ (pre post : List (Label H A)) (i : ℕ) (e : Slot H A),
      ls = pre ++ .visit i (some e) :: post →
      ∃ pre₁ u pre₂, pre = pre₁ ++ .take u :: pre₂ ∧ (∀ v, Label.take v ∉ pre₂) ∧
        u.getLsbD e.intrId = true := by
  refine ⟨?_, ?_, ?_⟩
  · exact hrun.invariant (fun _ _ _ hs h => step_announced hs h) fun hne => absurd rfl hne
  · intro e c t v ks hh he htrig hkeep hret
    obtain ⟨i, hi⟩ := List.mem_iff_getElem?.mp he
    have hpending := trigger_inv htrig rfl
    rcases run_ahead hkeep (hpending.2 ▸ hi) hh (Or.inl hpending.1) with hmem | hahead
    · exact ⟨i, hmem⟩
    · exact absurd hahead (not_ahead_of_returns hret)
  · intro pre post i e hls
    subst hls
    obtain ⟨t, hpre, hpost⟩ := hrun.split
    cases hpost with
    | next hs _ =>
        obtain ⟨u, hisr, hu⟩ := visit_inv hs rfl
        have hbatch : Batch ([] ++ pre) t := run_batch hpre fun u j h => by cases h
        obtain ⟨pre₁, pre₂, hpre, htake⟩ := hbatch u i hisr
        exact ⟨pre₁, u, pre₂, hpre, htake, hu⟩

/-- An entry for id 3, and one interrupt served from its trigger to the final
exchange, with the first attempt failing. -/
def entry : Slot ℕ ℕ := ⟨3, some 7, 0⟩

def served : List (Label ℕ ℕ) :=
  [.setLatch 0, .enter, .clear, .retry, .take 8, .visit 0 (some entry), .again]

def registered : State ℕ ℕ := { State.start ℕ 0 1 with table := [entry] }

theorem served_run : ∃ t v, Step registered (.trigger 0 entry.intrId) t ∧
    Run (Keeps entry) t served v ∧ ReturnsEmpty v := by
  have hmem : entry ∈ registered.table := by decide
  refine ⟨_, ⟨0, false, Function.update (Function.update (fun _ => false) 0 true) 0 false,
    .exchange 0, registered.table⟩, .trigger 3 rfl, ?_, ?_⟩
  · refine .next ⟨.setLatch rfl, hmem⟩ ?_
    refine .next ⟨.enter rfl rfl, hmem⟩ ?_
    refine .next ⟨.clear rfl, hmem⟩ ?_
    refine .next ⟨.attempt (u := 0) false rfl, hmem⟩ ?_
    refine .next ⟨.attempt (u := 8) false rfl, hmem⟩ ?_
    refine .next ⟨@Step.visit _ _ _ _ 8 0 entry rfl rfl, hmem⟩ ?_
    exact .single ⟨.again rfl (Nat.le_refl 1), hmem⟩
  · exact Or.inl ⟨_, .attempt (u := 0) false rfl⟩

theorem served_calls_entry : Run Step (State.start ℕ 0 1) [.add entry] registered ∧
    ∃ t v, Run (Keeps entry) t served v ∧ ReturnsEmpty v ∧
      ∃ i, Label.visit i (some entry) ∈ served := by
  have hrun : Run Step (State.start ℕ 0 1) [.add entry] registered := .single (.add entry rfl)
  obtain ⟨t, v, htrig, hserved, hret⟩ := served_run
  exact ⟨hrun, t, v, hserved, hret, (no_software_interrupt_lost 0 1 _ _ hrun).2.1 entry 0 t v
    served (by decide) (by decide) htrig hserved hret⟩

end EspAmp.SoftwareInterrupt
