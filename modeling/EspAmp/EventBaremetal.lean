import EspAmp.AtomicWord
import EspAmp.ReplyMachine
import EspAmp.Words

/-!
# Events of the bare-metal environment

One event word is shared by any number of concurrent notify, wait and clear calls.
A call is its local variables between two atomic accesses of the word; one step
performs one access together with the local computation behind it, with an
arbitrary clock reading and an arbitrary choice of spurious failures. Every access
records the word before and after it, and the result when it was the last one.
-/
namespace EspAmp.EventBaremetal
open AtomicWord ReplyMachine

inductive Op where
  | notify (bitMask : U32)
  | wait (bitMask : U32) (clearOnExit waitForAll : Bool) (timeoutMs : U32)
  | clear (bitMask : U32)
deriving DecidableEq, Repr

/-- Local variables of a call in progress, or its result. -/
inductive Local where
  | notify (bitMask : U32)
  | waitAll (bitMask : U32) (clearOnExit : Bool) (timeoutMs curTime expected desired : U32)
  | waitAny (bitMask : U32) (clearOnExit : Bool) (timeoutMs curTime : U32)
  | clear (bitMask expected desired : U32)
  | done (ret : U32)
deriving DecidableEq, Repr

/-- The code in front of the first access, with the clock reading of a wait, which it
keeps in 32 bits. -/
def Op.begin (now : U64) : Op → Local
  | .notify bitMask => .notify bitMask
  | .wait bitMask clearOnExit waitForAll timeoutMs =>
      let expected := bitMask
      let desired := if clearOnExit = false then expected else 0
      let curTime := now.setWidth 32
      if waitForAll then .waitAll bitMask clearOnExit timeoutMs curTime expected desired
      else .waitAny bitMask clearOnExit timeoutMs curTime
  | .clear bitMask => .clear bitMask 0 0

/-- The test of a wait. The clock is a signed value of 64 bits, to which both operands
are widened. -/
def timedOut (now : U64) (curTime timeoutMs : U32) : Bool :=
  (timeoutMs.setWidth 64).slt (now - curTime.setWidth 64)

/-- One atomic access and the local code up to the next one: the word it leaves
and the new local state. -/
def Local.access (spurious : Bool) (now : U64) (word : U32) : Local → Option (U32 × Local)
  | .notify bitMask => some ((fetchOr word bitMask).2, .done (fetchOr word bitMask).1)
  | .waitAll bitMask clearOnExit timeoutMs curTime expected desired =>
      let x := compareExchangeWeak spurious word expected desired
      if x.success then some (x.word, .done x.expected)
      else
        let actual := x.expected
        let expected := actual ||| bitMask
        let desired := if clearOnExit then expected &&& ~~~bitMask else expected
        if actual &&& bitMask ≠ bitMask ∧ timedOut now curTime timeoutMs then
          some (x.word, .done actual)
        else some (x.word, .waitAll bitMask clearOnExit timeoutMs curTime expected desired)
  | .waitAny bitMask clearOnExit timeoutMs curTime =>
      let r := if clearOnExit then fetchAnd word (~~~bitMask) else (word, word)
      if timedOut now curTime timeoutMs then some (r.2, .done r.1)
      else if r.1 &&& bitMask = 0 then some (r.2, .waitAny bitMask clearOnExit timeoutMs curTime)
      else some (r.2, .done r.1)
  | .clear bitMask expected desired =>
      let x := compareExchangeWeak spurious word expected desired
      if x.success then some (x.word, .done x.expected)
      else some (x.word, .clear bitMask x.expected (x.expected &&& ~~~bitMask))
  | .done _ => none

def Local.result : Local → Option U32
  | .done r => some r
  | _ => none

structure State where
  word : U32
  calls : ℕ → Option (Op × Local)

inductive Label where
  | call (c : ℕ) (op : Op)
  | access (c : ℕ) (op : Op) (before after : U32) (result : Option U32)
  | ret (c : ℕ) (r : U32)
deriving DecidableEq, Repr

/-- Contexts are numbered; each makes one call at a time. -/
inductive Step : State → Label → State → Prop
  | call {s : State} {c : ℕ} (op : Op) (now : U64) : s.calls c = none →
      Step s (.call c op) { s with calls := Function.update s.calls c (some (op, op.begin now)) }
  | access {s : State} {c : ℕ} {op : Op} {l l' : Local} {w : U32} (spurious : Bool) (now : U64) :
      s.calls c = some (op, l) → l.access spurious now s.word = some (w, l') →
      Step s (.access c op s.word w l'.result)
        { word := w, calls := Function.update s.calls c (some (op, l')) }
  | ret {s : State} {c : ℕ} {op : Op} {r : U32} : s.calls c = some (op, .done r) →
      Step s (.ret c r) { s with calls := Function.update s.calls c none }

def State.start : State := ⟨0, fun _ => none⟩

/-- The word that an operation leaves when it takes effect at the given word. -/
def effect : Op → U32 → U32
  | .notify bitMask, w => w ||| bitMask
  | .wait bitMask clearOnExit waitForAll _, w =>
      if clearOnExit ∧ (waitForAll → w &&& bitMask = bitMask) then w &&& ~~~bitMask else w
  | .clear bitMask, w => w &&& ~~~bitMask

/-- Local variables that belong to the operation. -/
def Good : Op → Local → Prop
  | _, .done _ => True
  | .notify bitMask, .notify m => m = bitMask
  | .wait bitMask clearOnExit true _, .waitAll m c _ _ expected desired =>
      m = bitMask ∧ c = clearOnExit ∧ expected &&& bitMask = bitMask ∧
        desired = if clearOnExit then expected &&& ~~~bitMask else expected
  | .wait bitMask clearOnExit false _, .waitAny m c _ _ => m = bitMask ∧ c = clearOnExit
  | .clear bitMask, .clear m expected desired => m = bitMask ∧ desired = expected &&& ~~~bitMask
  | _, _ => False

theorem begin_good (op : Op) (now : U64) : Good op (op.begin now) := by
  cases op with
  | notify bitMask => rfl
  | clear bitMask => exact ⟨rfl, by simp⟩
  | wait bitMask clearOnExit waitForAll timeoutMs =>
      cases waitForAll with
      | false => exact ⟨rfl, rfl⟩
      | true =>
          refine ⟨rfl, rfl, BitVec.and_self, ?_⟩
          cases clearOnExit with
          | false => rfl
          | true => simp

section Access
variable {op : Op} {l l' : Local} {spurious : Bool} {now : U64} {w w' : U32}

theorem and_not_of_and_eq_zero {m : U32} (h : w &&& m = 0) : w &&& ~~~m = w := by
  calc w &&& ~~~m = (w &&& m) ||| (w &&& ~~~m) := by rw [h]; exact BitVec.zero_or.symm
    _ = w &&& (m ||| ~~~m) := (BitVec.and_or_distrib_left).symm
    _ = w := by rw [BitVec.or_not_self, BitVec.and_allOnes]

theorem or_and_self (a m : U32) : (a ||| m) &&& m = m := by
  ext i hi
  simp only [BitVec.getElem_and, BitVec.getElem_or]
  cases m[i] <;> simp

theorem waitAll_spec {m : U32} {c : Bool} {t : U32} {timeoutMs curTime expected desired : U32}
    (hg : Good (.wait m c true t) (.waitAll m c timeoutMs curTime expected desired))
    (h : (Local.waitAll m c timeoutMs curTime expected desired).access spurious now w =
      some (w', l')) :
    Good (.wait m c true t) l' ∧ ((l'.result = none ∧ w' = w) ∨
      (l' = .done w ∧ w' = effect (.wait m c true t) w)) := by
  obtain ⟨-, -, hexp, hdes⟩ := hg
  simp only [Local.access] at h
  rcases compareExchangeWeak_cases spurious w expected desired with ⟨rfl, hx⟩ | hx
  · rw [hx] at h
    obtain ⟨rfl, rfl⟩ := Prod.mk.inj (Option.some.inj h)
    refine ⟨trivial, Or.inr ⟨rfl, ?_⟩⟩
    simp [effect, hexp, hdes]
  · rw [hx] at h
    simp only [Bool.false_eq_true, if_false] at h
    by_cases htime : w &&& m ≠ m ∧ timedOut now curTime timeoutMs
    · rw [if_pos htime] at h
      obtain ⟨rfl, rfl⟩ := Prod.mk.inj (Option.some.inj h)
      refine ⟨trivial, Or.inr ⟨rfl, ?_⟩⟩
      simp [effect, htime.1]
    · rw [if_neg htime] at h
      obtain ⟨rfl, rfl⟩ := Prod.mk.inj (Option.some.inj h)
      exact ⟨⟨rfl, rfl, or_and_self w m, rfl⟩, Or.inl ⟨rfl, rfl⟩⟩

theorem waitAny_spec {m : U32} {c : Bool} {t : U32} {timeoutMs curTime : U32}
    (h : (Local.waitAny m c timeoutMs curTime).access spurious now w = some (w', l')) :
    Good (.wait m c false t) l' ∧ ((l'.result = none ∧ w' = w) ∨
      (l' = .done w ∧ w' = effect (.wait m c false t) w)) := by
  have hr : (if c then fetchAnd w (~~~m) else (w, w)) = (w, effect (.wait m c false t) w) := by
    cases c with
    | false => rfl
    | true => simp [effect, fetchAnd]
  simp only [Local.access, hr] at h
  split_ifs at h with htime hzero
  · obtain ⟨rfl, rfl⟩ := Prod.mk.inj (Option.some.inj h)
    exact ⟨trivial, Or.inr ⟨rfl, rfl⟩⟩
  · obtain ⟨rfl, rfl⟩ := Prod.mk.inj (Option.some.inj h)
    refine ⟨⟨rfl, rfl⟩, Or.inl ⟨rfl, ?_⟩⟩
    cases c with
    | false => rfl
    | true => simp [effect, and_not_of_and_eq_zero hzero]
  · obtain ⟨rfl, rfl⟩ := Prod.mk.inj (Option.some.inj h)
    exact ⟨trivial, Or.inr ⟨rfl, rfl⟩⟩

theorem clear_spec {m expected desired : U32} (hg : Good (.clear m) (.clear m expected desired))
    (h : (Local.clear m expected desired).access spurious now w = some (w', l')) :
    Good (.clear m) l' ∧ ((l'.result = none ∧ w' = w) ∨
      (l' = .done w ∧ w' = effect (.clear m) w)) := by
  simp only [Local.access] at h
  rcases compareExchangeWeak_cases spurious w expected desired with ⟨rfl, hx⟩ | hx
  · rw [hx] at h
    obtain ⟨rfl, rfl⟩ := Prod.mk.inj (Option.some.inj h)
    exact ⟨trivial, Or.inr ⟨rfl, hg.2⟩⟩
  · rw [hx] at h
    obtain ⟨rfl, rfl⟩ := Prod.mk.inj (Option.some.inj h)
    exact ⟨⟨rfl, rfl⟩, Or.inl ⟨rfl, rfl⟩⟩

/-- A call either goes on with the word unchanged, or takes effect at this access
and returns the word it found. -/
theorem access_spec (hg : Good op l) (h : l.access spurious now w = some (w', l')) :
    Good op l' ∧ ((l'.result = none ∧ w' = w) ∨ (l' = .done w ∧ w' = effect op w)) := by
  cases l with
  | done r => cases h
  | notify m =>
      cases op with
      | notify bitMask =>
          obtain rfl : m = bitMask := hg
          obtain ⟨rfl, rfl⟩ := Prod.mk.inj (Option.some.inj h)
          exact ⟨trivial, Or.inr ⟨rfl, rfl⟩⟩
      | wait bitMask c all t => cases all <;> cases hg
      | clear bitMask => cases hg
  | waitAll m c timeoutMs curTime expected desired =>
      cases op with
      | notify bitMask => cases hg
      | wait bitMask c' all t =>
          cases all with
          | false => cases hg
          | true =>
              obtain ⟨rfl, rfl, -⟩ := id hg
              exact waitAll_spec hg h
      | clear bitMask => cases hg
  | waitAny m c timeoutMs curTime =>
      cases op with
      | notify bitMask => cases hg
      | wait bitMask c' all t =>
          cases all with
          | false =>
              obtain ⟨rfl, rfl⟩ := hg
              exact waitAny_spec h
          | true => cases hg
      | clear bitMask => cases hg
  | clear m expected desired =>
      cases op with
      | notify bitMask => cases hg
      | wait bitMask c all t => cases all <;> cases hg
      | clear bitMask =>
          obtain ⟨rfl, -⟩ := id hg
          exact clear_spec hg h

end Access

section Runs
variable {s t : State} {c : ℕ} {op : Op} {l : Local}

/-- The accesses of one context: word before, word after, result. -/
def accesses (c : ℕ) : List Label → List (U32 × U32 × Option U32)
  | [] => []
  | .access d _ before after result :: ls =>
      if d = c then (before, after, result) :: accesses c ls else accesses c ls
  | .call .. :: ls => accesses c ls
  | .ret .. :: ls => accesses c ls

/-- The context neither starts nor ends a call. -/
def Within (c : ℕ) (ls : List Label) : Prop :=
  (∀ op, Label.call c op ∉ ls) ∧ ∀ r, Label.ret c r ∉ ls

/-- Accesses that change nothing and end nothing. -/
def Unchanged (acc : List (U32 × U32 × Option U32)) : Prop :=
  ∀ p ∈ acc, p.2.1 = p.1 ∧ p.2.2 = none

/-- The call took effect at its last access, where it found the word it returns. -/
def TookEffect (op : Op) (r : U32) (acc : List (U32 × U32 × Option U32)) : Prop :=
  ∃ init, acc = init ++ [(r, effect op r, some r)] ∧ Unchanged init

/-- A call in progress has changed nothing; a finished one took effect once. -/
def Progress (op : Op) (l : Local) (acc : List (U32 × U32 × Option U32)) : Prop :=
  (l.result = none ∧ Unchanged acc) ∨ ∃ r, l = .done r ∧ TookEffect op r acc

def AllGood (s : State) : Prop := ∀ c op l, s.calls c = some (op, l) → Good op l

theorem step_good {lab : Label} (hs : Step s lab t) (h : AllGood s) : AllGood t := by
  intro d op l hd
  cases hs with
  | @call c op' now hc =>
      by_cases hdc : d = c
      · subst hdc
        simp only [Function.update_self, Option.some.injEq, Prod.mk.injEq] at hd
        obtain ⟨rfl, rfl⟩ := hd
        exact begin_good _ now
      · exact h d op l ((Function.update_of_ne hdc ..).symm.trans hd)
  | @access c op' l₀ l₁ w spurious now hc ha =>
      by_cases hdc : d = c
      · subst hdc
        simp only [Function.update_self, Option.some.injEq, Prod.mk.injEq] at hd
        obtain ⟨rfl, rfl⟩ := hd
        exact (access_spec (h d _ _ hc) ha).1
      · exact h d op l ((Function.update_of_ne hdc ..).symm.trans hd)
  | @ret c op' r hc =>
      by_cases hdc : d = c
      · subst hdc
        cases (Function.update_self ..).symm.trans hd
      · exact h d op l ((Function.update_of_ne hdc ..).symm.trans hd)

theorem Progress.access {acc : List (U32 × U32 × Option U32)} {l' : Local} {w w' : U32}
    {spurious : Bool} {now : U64} (h : Progress op l acc) (hg : Good op l)
    (ha : l.access spurious now w = some (w', l')) :
    Progress op l' (acc ++ [(w, w', l'.result)]) := by
  rcases h with ⟨-, hacc⟩ | ⟨r, rfl, -⟩
  · rcases (access_spec hg ha).2 with ⟨hres, rfl⟩ | ⟨rfl, rfl⟩
    · refine Or.inl ⟨hres, fun p hp => ?_⟩
      rcases List.mem_append.mp hp with hp | hp
      · exact hacc p hp
      · rw [List.mem_singleton.mp hp]
        exact ⟨rfl, hres⟩
    · exact Or.inr ⟨w, rfl, acc, rfl, hacc⟩
  · cases ha

/-- One step, seen from a context in the middle of a call. -/
theorem step_progress {lab : Label} {acc : List (U32 × U32 × Option U32)} (hs : Step s lab t)
    (hg : AllGood s) (hc : s.calls c = some (op, l)) (hw : Within c [lab])
    (h : Progress op l acc) :
    ∃ l', t.calls c = some (op, l') ∧ Progress op l' (acc ++ accesses c [lab]) := by
  cases hs with
  | @call d op' now hd =>
      have hdc : c ≠ d := by
        rintro rfl
        exact hw.1 op' (List.mem_singleton_self _)
      exact ⟨l, (Function.update_of_ne hdc ..).trans hc, by simpa [accesses] using h⟩
  | @access d op' l₀ l₁ w spurious now hd ha =>
      by_cases hdc : d = c
      · subst hdc
        obtain ⟨rfl, rfl⟩ := Prod.mk.inj (Option.some.inj (hc.symm.trans hd))
        refine ⟨l₁, Function.update_self .., ?_⟩
        simpa [accesses] using h.access (hg d op l hd) ha
      · refine ⟨l, (Function.update_of_ne (Ne.symm hdc) ..).trans hc, ?_⟩
        simpa [accesses, hdc] using h
  | @ret d op' r hd =>
      have hdc : c ≠ d := by
        rintro rfl
        exact hw.2 r (List.mem_singleton_self _)
      exact ⟨l, (Function.update_of_ne hdc ..).trans hc, by simpa [accesses] using h⟩

theorem accesses_cons (c : ℕ) (lab : Label) (ls : List Label) :
    accesses c (lab :: ls) = accesses c [lab] ++ accesses c ls := by
  cases lab with
  | access d op b a r =>
      simp only [accesses]
      split_ifs <;> rfl
  | call d op => rfl
  | ret d r => rfl

theorem run_progress {ls : List Label} {acc : List (U32 × U32 × Option U32)}
    (hrun : Run Step s ls t) (hg : AllGood s) (hc : s.calls c = some (op, l)) (hw : Within c ls)
    (h : Progress op l acc) :
    ∃ l', t.calls c = some (op, l') ∧ Progress op l' (acc ++ accesses c ls) := by
  induction hrun generalizing l acc with
  | done s => exact ⟨l, hc, by simpa [accesses] using h⟩
  | @next s t v lab ls hs _ ih =>
      have hhead : Within c [lab] :=
        ⟨fun op hm => hw.1 op (List.mem_cons.mpr (Or.inl (List.mem_singleton.mp hm))),
          fun r hm => hw.2 r (List.mem_cons.mpr (Or.inl (List.mem_singleton.mp hm)))⟩
      have htail : Within c ls :=
        ⟨fun op hm => hw.1 op (List.mem_cons_of_mem _ hm),
          fun r hm => hw.2 r (List.mem_cons_of_mem _ hm)⟩
      obtain ⟨l₁, hc₁, h₁⟩ := step_progress hs hg hc hhead h
      obtain ⟨l₂, hc₂, h₂⟩ := ih (step_good hs hg) hc₁ htail h₁
      refine ⟨l₂, hc₂, ?_⟩
      rwa [accesses_cons, ← List.append_assoc]

end Runs

section Word
variable {s t : State}

def notified : Op → U32
  | .notify bitMask => bitMask
  | _ => 0

/-- The bits that a call with this result has taken out of the word: those a clear
reports, and those a successful wait with `clear_on_exit` reports. -/
def reported : Op → U32 → U32
  | .notify _, _ => 0
  | .wait bitMask clearOnExit waitForAll _, r =>
      if clearOnExit ∧ (waitForAll → r &&& bitMask = bitMask) then r &&& bitMask else 0
  | .clear bitMask, r => r &&& bitMask

/-- Bits notified and not since reported, from the masks and results of a run. -/
def unreported (w : U32) : List Label → U32
  | [] => w
  | .access _ op _ _ (some r) :: ls => unreported ((w ||| notified op) &&& ~~~reported op r) ls
  | .access _ _ _ _ none :: ls => unreported w ls
  | .call .. :: ls => unreported w ls
  | .ret .. :: ls => unreported w ls

theorem and_not_and (w m : U32) : w &&& ~~~(w &&& m) = w &&& ~~~m := by
  ext i hi
  simp only [BitVec.getElem_and, BitVec.getElem_not]
  cases w[i] <;> simp

theorem effect_eq (op : Op) (w : U32) :
    effect op w = (w ||| notified op) &&& ~~~reported op w := by
  have hkeep : ∀ x : U32, x &&& ~~~0 = x := fun x => BitVec.and_allOnes
  have hzero : w ||| 0 = w := BitVec.or_zero
  cases op with
  | notify m => simp only [effect, notified, reported, hkeep]
  | clear m => simp only [effect, notified, reported, hzero, and_not_and]
  | wait m c all t =>
      simp only [effect, notified, reported, hzero]
      split_ifs with h
      · exact (and_not_and w m).symm
      · exact (hkeep w).symm

theorem run_word {ls : List Label} (hrun : Run Step s ls t) (hg : AllGood s) :
    t.word = unreported s.word ls := by
  induction hrun with
  | done s => rfl
  | @next s t v lab ls hs _ ih =>
      rw [ih (step_good hs hg)]
      cases hs with
      | call op now hc => rfl
      | @access c op l l' w spurious now hc ha =>
          rcases (access_spec (hg c op l hc) ha).2 with ⟨hres, rfl⟩ | ⟨rfl, rfl⟩
          · rw [hres]
            rfl
          · simp only [Local.result, unreported, effect_eq]
      | ret hc => rfl

end Word

theorem start_good : AllGood State.start := fun _ _ _ h => by cases h

theorem Progress.changes {op : Op} {l : Local} {acc : List (U32 × U32 × Option U32)}
    (h : Progress op l acc) : (acc.filter fun p => p.2.1 ≠ p.1).length ≤ 1 := by
  have hnone : ∀ init, Unchanged init → init.filter (fun p => p.2.1 ≠ p.1) = [] := by
    intro init hinit
    rw [List.filter_eq_nil_iff]
    intro p hp
    simp [(hinit p hp).1]
  rcases h with ⟨-, hacc⟩ | ⟨r, -, init, rfl, hinit⟩
  · rw [hnone acc hacc]
    exact Nat.zero_le _
  · rw [List.filter_append, hnone init hinit, List.nil_append]
    exact List.length_filter_le ..

theorem call_inv {s t : State} {lab : Label} {c : ℕ} {op : Op} (hs : Step s lab t)
    (hl : lab = .call c op) : ∃ l, t.calls c = some (op, l) ∧ l.result = none := by
  cases hs with
  | call op' now hc =>
      obtain ⟨rfl, rfl⟩ := Label.call.inj hl
      refine ⟨_, Function.update_self .., ?_⟩
      cases op' with
      | notify m => rfl
      | clear m => rfl
      | wait m c all t => cases all <;> rfl
  | access => cases hl
  | ret => cases hl

/-- A context behind its call label, up to some later point of the call. -/
theorem call_progress {pre mid post : List Label} {c : ℕ} {op : Op} {s : State}
    (hrun : Run Step State.start (pre ++ .call c op :: (mid ++ post)) s) (hw : Within c mid) :
    ∃ t l, t.calls c = some (op, l) ∧ Progress op l (accesses c mid) ∧ Run Step t post s := by
  obtain ⟨s₀, hpre, hrest⟩ := hrun.split
  cases hrest with
  | next hs hrest =>
      have hg := step_good hs (hpre.invariant (fun _ _ _ h => step_good h) start_good)
      obtain ⟨l₀, hl₀, hres⟩ := call_inv hs rfl
      obtain ⟨t, hmid, hpost⟩ := hrest.split
      have hinit : Progress op l₀ [] := Or.inl ⟨hres, fun p hp => by cases hp⟩
      obtain ⟨l, hl, hprog⟩ := run_progress hmid hg hl₀ hw hinit
      exact ⟨t, l, hl, hprog, hpost⟩

/-- Any interleaving of event calls on one word: (a) a call changes the word at
most once; (b) it returns the word it found at its last access, where it left its
effect, and changed nothing before; (c) the word always holds the bits notified
and not since reported to a clear or to a clearing wait. -/
theorem event_calls_atomic (ls : List Label) (s : State) (hrun : Run Step State.start ls s) :
    (∀ (pre mid post : List Label) (c : ℕ) (op : Op), ls = pre ++ .call c op :: (mid ++ post) →
      Within c mid → ((accesses c mid).filter fun p => p.2.1 ≠ p.1).length ≤ 1) ∧
    (∀ (pre mid post : List Label) (c : ℕ) (op : Op) (r : U32),
      ls = pre ++ .call c op :: (mid ++ .ret c r :: post) → Within c mid →
      TookEffect op r (accesses c mid)) ∧
    s.word = unreported 0 ls := by
  refine ⟨?_, ?_, run_word hrun start_good⟩
  · intro pre mid post c op hls hw
    subst hls
    obtain ⟨t, l, -, hprog, -⟩ := call_progress hrun hw
    exact hprog.changes
  · intro pre mid post c op r hls hw
    subst hls
    obtain ⟨t, l, hl, hprog, hpost⟩ := call_progress hrun hw
    cases hpost with
    | next hs _ =>
        cases hs with
        | ret hc =>
            obtain ⟨-, rfl⟩ := Prod.mk.inj (Option.some.inj (hl.symm.trans hc))
            rcases hprog with ⟨hres, -⟩ | ⟨r', hr, htook⟩
            · cases hres
            · obtain rfl := Local.done.inj hr
              exact htook

/-- A clearing wait for both bits of 5 in context 1 fails once before context 0
notifies them, and succeeds afterwards. -/
def waitAndNotify : List Label :=
  [.access 1 (.wait 5 true true 10) 0 0 none, .call 0 (.notify 5),
    .access 0 (.notify 5) 0 5 (some 0), .access 1 (.wait 5 true true 10) 5 0 (some 5)]

theorem waitAndNotify_run : ∃ s, Run Step State.start
    ([] ++ .call 1 (.wait 5 true true 10) :: (waitAndNotify ++ .ret 1 5 :: [])) s := by
  exact ⟨_, .next (.call _ 0 rfl)
    (.next (@Step.access _ 1 _ _ (.waitAll 5 true 10 0 5 0) 0 false 1 rfl rfl)
    (.next (.call _ 0 rfl)
    (.next (@Step.access _ 0 _ _ (.done 0) 5 false 0 rfl rfl)
    (.next (@Step.access _ 1 _ _ (.done 5) 0 false 2 rfl rfl)
    (.single (.ret rfl))))))⟩

theorem waitAndNotify_atomic : ∃ s, Run Step State.start
      ([] ++ .call 1 (.wait 5 true true 10) :: (waitAndNotify ++ .ret 1 5 :: [])) s ∧
    TookEffect (.wait 5 true true 10) 5 (accesses 1 waitAndNotify) := by
  obtain ⟨s, hs⟩ := waitAndNotify_run
  exact ⟨s, hs, (event_calls_atomic _ s hs).2.1 [] waitAndNotify [] 1 _ 5 rfl
    ⟨by simp [waitAndNotify], by simp [waitAndNotify]⟩⟩

end EspAmp.EventBaremetal
