import Mathlib.Logic.Relation

/-!
# Deterministic machines that answer calls

A machine receives one call at a time and answers it while moving to its next
state. Two machines over the same calls are compared through the complete list
of their answers. A relation between their states that is kept by every call,
and under which every call is answered alike, makes all runs answer alike.
Runs of a nondeterministic system are kept as lists of labelled steps.
-/
namespace EspAmp.ReplyMachine

universe u v w x

/-- One call is answered and moves the state. -/
structure Machine (State : Type u) (Call : Type v) (Reply : Type w) where
  step : State → Call → Reply × State

namespace Machine
variable {State : Type u} {Call : Type v} {Reply : Type w} {Other : Type x}

/-- Answers of a whole run, in call order. -/
def replies (M : Machine State Call Reply) : State → List Call → List Reply
  | _, [] => []
  | s, c :: cs => (M.step s c).1 :: M.replies (M.step s c).2 cs

/-- State after a whole run. -/
def final (M : Machine State Call Reply) : State → List Call → State
  | s, [] => s
  | s, c :: cs => M.final (M.step s c).2 cs

theorem final_append (M : Machine State Call Reply) (s : State) (cs : List Call) (c : Call) :
    M.final s (cs ++ [c]) = (M.step (M.final s cs) c).2 := by
  induction cs generalizing s with
  | nil => rfl
  | cons d cs ih => exact ih (M.step s d).2

/-- An invariant of every admitted call holds after every run of such calls. -/
theorem final_invariant (M : Machine State Call Reply) {P : State → Prop} {A : Call → Prop}
    (hstep : ∀ s c, A c → P s → P (M.step s c).2) {s : State} (hs : P s)
    (cs : List Call) (hA : ∀ c ∈ cs, A c) : P (M.final s cs) := by
  induction cs generalizing s with
  | nil => exact hs
  | cons c cs ih =>
      exact ih (hstep s c (hA c (by simp)) hs) (fun d hd => hA d (by simp [hd]))

/-- A relation under which one call is answered alike and which every call
keeps makes the answers of all runs agree. -/
theorem replies_eq_of_simulation (M : Machine State Call Reply) (N : Machine Other Call Reply)
    {R : State → Other → Prop}
    (hstep : ∀ s t c, R s t → (M.step s c).1 = (N.step t c).1 ∧
      R (M.step s c).2 (N.step t c).2)
    {s : State} {t : Other} (h : R s t) (cs : List Call) :
    M.replies s cs = N.replies t cs := by
  induction cs generalizing s t with
  | nil => rfl
  | cons c cs ih =>
      obtain ⟨hr, hR⟩ := hstep s t c h
      rw [replies, replies, hr, ih hR]

end Machine

/-- A finite run of labelled steps, with its labels in order. -/
inductive Run {State : Type u} {Label : Type v} (step : State → Label → State → Prop) :
    State → List Label → State → Prop
  | done (s : State) : Run step s [] s
  | next {s t v : State} {l : Label} {ls : List Label} :
      step s l t → Run step t ls v → Run step s (l :: ls) v

namespace Run
variable {State : Type u} {Label : Type v} {step : State → Label → State → Prop}

theorem single {s t : State} {l : Label} (h : step s l t) : Run step s [l] t :=
  .next h (.done t)

theorem append {s t v : State} {ls ks : List Label} (h : Run step s ls t)
    (h' : Run step t ks v) : Run step s (ls ++ ks) v := by
  induction h with
  | done s => exact h'
  | next hs _ ih => exact .next hs (ih h')

theorem invariant {P : State → Prop} (hstep : ∀ s l t, step s l t → P s → P t)
    {s t : State} {ls : List Label} (h : Run step s ls t) (hs : P s) : P t := by
  induction h with
  | done s => exact hs
  | next ht _ ih => exact ih (hstep _ _ _ ht hs)

/-- Where every step of one system is matched by a run of another that observes the same,
so is every run. -/
theorem simulate {State' : Type w} {Label' Obs : Type x}
    {step' : State' → Label' → State' → Prop} {R : State → State' → Prop}
    {obs : Label → List Obs} {obs' : Label' → List Obs}
    (hstep : ∀ s t l s', R s t → step s l s' →
      ∃ ks t', Run step' t ks t' ∧ R s' t' ∧ ks.flatMap obs' = obs l)
    {s s' : State} {t : State'} {ls : List Label} (h : Run step s ls s') (hR : R s t) :
    ∃ ks t', Run step' t ks t' ∧ R s' t' ∧ ks.flatMap obs' = ls.flatMap obs := by
  induction h generalizing t with
  | done s => exact ⟨[], t, .done t, hR, rfl⟩
  | next hs _ ih =>
      obtain ⟨ks, t', hrun, hR', hobs⟩ := hstep _ _ _ _ hR hs
      obtain ⟨ks', t'', hrun', hR'', hobs'⟩ := ih hR'
      refine ⟨ks ++ ks', t'', hrun.append hrun', hR'', ?_⟩
      rw [List.flatMap_append, List.flatMap_cons, hobs, hobs']

/-- The guards met on the way hold. -/
def Allowed (guard : State → Label → Prop) (next : State → Label → State) :
    State → List Label → Prop
  | _, [] => True
  | s, l :: ls => guard s l ∧ Allowed guard next (next s l) ls

def decidableAllowed {guard : State → Label → Prop} {next : State → Label → State}
    [∀ s l, Decidable (guard s l)] : ∀ s ls, Decidable (Allowed guard next s ls)
  | _, [] => inferInstanceAs (Decidable True)
  | s, l :: ls =>
      have : Decidable (Allowed guard next (next s l) ls) := decidableAllowed (next s l) ls
      inferInstanceAs (Decidable (guard s l ∧ Allowed guard next (next s l) ls))

instance {guard : State → Label → Prop} {next : State → Label → State}
    [∀ s l, Decidable (guard s l)] (s : State) (ls : List Label) :
    Decidable (Allowed guard next s ls) := decidableAllowed s ls

/-- A guarded deterministic system runs wherever its guards allow it. -/
theorem of_allowed {guard : State → Label → Prop} {next : State → Label → State} {s : State}
    {ls : List Label} (h : Allowed guard next s ls) :
    Run (fun s l t => guard s l ∧ t = next s l) s ls (ls.foldl next s) := by
  induction ls generalizing s with
  | nil => exact .done s
  | cons l ls ih => exact .next ⟨h.1, rfl⟩ (ih h.2)

/-- A run can be cut at every position of its label list. -/
theorem split {s v : State} {ls ks : List Label} (h : Run step s (ls ++ ks) v) :
    ∃ t, Run step s ls t ∧ Run step t ks v := by
  induction ls generalizing s with
  | nil => exact ⟨s, .done s, h⟩
  | cons l ls ih =>
      cases h with
      | next hs ht =>
          obtain ⟨t, h₁, h₂⟩ := ih ht
          exact ⟨t, .next hs h₁, h₂⟩

end Run
end EspAmp.ReplyMachine
