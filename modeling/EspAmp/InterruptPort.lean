import EspAmp.InterruptMatrix

/-!
# The interrupt side of a core

What receives the software interrupts of a core depends on the subcore type of the build.
With an LP subcore, the subcore has the routine that clears its latch first, and the main
core the wrapper on the shared PMU line. With an HP subcore, both cores have the wrapper on
an interrupt line of their own.

Whatever a port does, the routine that asks no status can do as well. The ports other than
the PMU one can in turn do whatever that routine does; a PMU port can drop the latch of a
request it has not seen.
-/
namespace EspAmp.InterruptPort
open SoftwareInterrupt (Slot Isr Announced)
open PmuInterrupt (Wrapper)
open InterruptMatrix (IntmtxStep Level direct)

/-- `CONFIG_ESP_AMP_SUBCORE_TYPE_LP_CORE` or `CONFIG_ESP_AMP_SUBCORE_TYPE_HP_CORE`. -/
inductive SubcoreType where
  | lpCore
  | hpCore
deriving DecidableEq, Repr

inductive Port (H A : Type) where
  | lpCore (a : SoftwareInterrupt.State H A)
  | pmu (a : PmuInterrupt.State H A)
  | intmtx (a : PmuInterrupt.State H A)

inductive Label (H A : Type) where
  | lpCore (l : SoftwareInterrupt.Label H A)
  | wrapper (l : PmuInterrupt.Label H A)

inductive Step {H A : Type} [DecidableEq H] : Port H A → Label H A → Port H A → Prop
  | lpCore {a t : SoftwareInterrupt.State H A} {l : SoftwareInterrupt.Label H A} :
      SoftwareInterrupt.Step a l t → Step (.lpCore a) (.lpCore l) (.lpCore t)
  | pmu {a t : PmuInterrupt.State H A} {l : PmuInterrupt.Label H A} :
      PmuInterrupt.Step a l t → Step (.pmu a) (.wrapper l) (.pmu t)
  | intmtx {a t : PmuInterrupt.State H A} {l : PmuInterrupt.Label H A} :
      IntmtxStep a l t → Step (.intmtx a) (.wrapper l) (.intmtx t)

section Ports
variable {H A : Type}

/-- The state of the routine that asks no status. -/
def Port.direct : Port H A → SoftwareInterrupt.State H A
  | .lpCore a => a
  | .pmu a | .intmtx a => InterruptMatrix.direct a

/-- No trigger is between its two steps, the latch is clear and the port is not running. -/
def Port.Quiet : Port H A → Prop
  | .lpCore a => (∀ c, a.armed c = false) ∧ a.latch = false ∧ a.isr = .idle
  | .pmu a | .intmtx a => (∀ c, a.armed c = false) ∧ a.latch = false ∧ a.wrapper = .idle

/-- Ports that never drop a request. -/
def Port.Exact : Port H A → Prop
  | .pmu _ => False
  | _ => True

/-- The status read that the wrapper still owes its clear. -/
def Port.reads : Port H A → ℕ
  | .intmtx a => if a.wrapper = .entered then 1 else 0
  | _ => 0

/-- What the rest of the system sees of a step: triggers, table changes and called handlers. -/
def shown : SoftwareInterrupt.Label H A → List (SoftwareInterrupt.Label H A)
  | .trigger c intrId => [.trigger c intrId]
  | .setLatch c => [.setLatch c]
  | .visit i called => [.visit i called]
  | .add slot => [.add slot]
  | .delete intrId handler => [.delete intrId handler]
  | _ => []

def Label.shown : Label H A → List (SoftwareInterrupt.Label H A)
  | .lpCore l => InterruptPort.shown l
  | .wrapper (.trigger c intrId) => [.trigger c intrId]
  | .wrapper (.setLatch c) => [.setLatch c]
  | .wrapper (.visit i called) => [.visit i called]
  | .wrapper (.add slot) => [.add slot]
  | .wrapper (.delete intrId handler) => [.delete intrId handler]
  | .wrapper _ => []

/-- Steps that do not belong to the core of the port. -/
def Label.Outside : Label H A → Prop
  | .lpCore l => SoftwareInterrupt.Outside l
  | .wrapper (.trigger _ _) | .wrapper (.setLatch _) | .wrapper (.cause _) => True
  | .wrapper _ => False

/-- Steps of the interrupt routine itself. -/
def Label.Routine : Label H A → Prop
  | .lpCore l => SoftwareInterrupt.Routine l
  | .wrapper (.trigger _ _) | .wrapper (.setLatch _) | .wrapper (.cause _)
  | .wrapper (.add _) | .wrapper (.delete _ _) => False
  | .wrapper _ => True

/-- A clear that wipes a request the wrapper has not seen. -/
def Wipes : Port H A → Label H A → Prop
  | .pmu a, .wrapper .clear => ¬ PmuInterrupt.ClearHarmless a
  | _, _ => False

/-- Where the routine that asks no status stands while a PMU wrapper runs: it has not
entered when the wrapper was called, or read a clear status, for another cause. -/
def Position : Wrapper → Isr → Prop
  | .idle, isr | .entered, isr | .sampled false, isr => isr = .idle
  | .sampled true, isr => isr = .entered
  | .handler run, isr => isr = run ∨ run = .leaving ∧ isr = .idle

/-- A PMU port can only have lost latches that the routine still has. -/
structure Follows (a : PmuInterrupt.State H A) (d : SoftwareInterrupt.State H A) : Prop where
  pending : d.pending = a.pending
  armed : d.armed = a.armed
  table : d.table = a.table
  latch : a.latch = true → d.latch = true
  position : Position a.wrapper d.isr

/-- The routine that asks no status does what the port does. -/
inductive Tracks : Port H A → SoftwareInterrupt.State H A → Prop
  | lpCore (a : SoftwareInterrupt.State H A) : Tracks (.lpCore a) a
  | pmu {a : PmuInterrupt.State H A} {d : SoftwareInterrupt.State H A} : Follows a d →
      Tracks (.pmu a) d
  | intmtx {a : PmuInterrupt.State H A} : Level a → Tracks (.intmtx a) (direct a)

end Ports

section Tracking
variable {H A : Type} [DecidableEq H] {p q : Port H A} {l : Label H A}
  {a b : PmuInterrupt.State H A} {d : SoftwareInterrupt.State H A}
  {k : SoftwareInterrupt.Label H A} {m : PmuInterrupt.Label H A}

omit [DecidableEq H] in
theorem shown_eq_singleton {x : SoftwareInterrupt.Label H A} (h : shown k = [x]) : k = x := by
  cases k <;> simp_all [shown]

omit [DecidableEq H] in
theorem shown_attempt (x : AtomicWord.Exchange 32) :
    shown (SoftwareInterrupt.attemptLabel x : SoftwareInterrupt.Label H A) = [] := by
  unfold SoftwareInterrupt.attemptLabel
  split_ifs <;> rfl

omit [DecidableEq H] in
theorem Follows.isr (h : Follows a d) {run : Isr} (hw : a.wrapper = .handler run)
    (hne : run ≠ .leaving) : d.isr = run := by
  have hposition := h.position
  rw [hw] at hposition
  exact hposition.resolve_right fun hleaving => hne hleaving.1

omit [DecidableEq H] in
theorem Follows.idle (h : Follows a d) (hw : a.wrapper = .idle) : d.isr = .idle := by
  have hposition := h.position
  rwa [hw] at hposition

omit [DecidableEq H] in
theorem follows_handler {run : Isr} (h : Follows a d) (pending : BitVec 32) :
    Follows { a with pending := pending, wrapper := .handler run }
      { d with pending := pending, isr := run } :=
  ⟨rfl, h.armed, h.table, h.latch, .inl rfl⟩

/-- A step of the PMU wrapper that the routine cannot see, or can do as well. -/
def Followed (d : SoftwareInterrupt.State H A) (m : PmuInterrupt.Label H A)
    (b : PmuInterrupt.State H A) : Prop :=
  ((Label.wrapper m).shown = [] ∧ Follows b d) ∨
    ∃ k e, SoftwareInterrupt.Step d k e ∧ Follows b e ∧ shown k = (Label.wrapper m).shown ∧
      ((Label.wrapper m).Outside → SoftwareInterrupt.Outside k)

theorem followed_read (h : Follows a d) (hw : a.wrapper = .entered) :
    Followed d .read { a with wrapper := .sampled a.latch } := by
  have hidle : d.isr = .idle := by
    have hposition := h.position
    rwa [hw] at hposition
  cases hlatch : a.latch with
  | true =>
      refine .inr ⟨.enter, _, .enter hidle (h.latch hlatch), ?_, rfl, fun hout => hout.elim⟩
      exact ⟨h.pending, h.armed, h.table, fun _ => h.latch hlatch, rfl⟩
  | false =>
      refine .inl ⟨rfl, h.pending, h.armed, h.table, fun hset => ?_, hidle⟩
      cases hset

theorem followed_clear {isSwIntr : Bool} (h : Follows a d) (hw : a.wrapper = .sampled isSwIntr) :
    Followed d .clear
      { a with
        latch := false
        wrapper := .handler (if isSwIntr then .exchange 0 else .leaving) } := by
  have hposition := h.position
  rw [hw] at hposition
  cases isSwIntr with
  | true =>
      refine .inr ⟨.clear, _, .clear hposition, ?_, rfl, fun hout => hout.elim⟩
      exact ⟨h.pending, h.armed, h.table, fun hlatch => hlatch, .inl rfl⟩
  | false =>
      refine .inl ⟨rfl, h.pending, h.armed, h.table, fun hlatch => ?_, .inr ⟨rfl, hposition⟩⟩
      cases hlatch

theorem followed_ret (h : Follows a d) (hw : a.wrapper = .handler .leaving) :
    Followed d .ret { a with wrapper := .idle } := by
  have hposition := h.position
  rw [hw] at hposition
  rcases hposition with hisr | ⟨-, hisr⟩
  · refine .inr ⟨.ret, _, .ret hisr, ?_, rfl, fun hout => hout.elim⟩
    exact ⟨h.pending, h.armed, h.table, h.latch, rfl⟩
  · exact .inl ⟨rfl, h.pending, h.armed, h.table, h.latch, hisr⟩

theorem pmu_followed (hs : PmuInterrupt.Step a m b) (h : Follows a d) : Followed d m b := by
  cases hs with
  | @trigger c intrId harmed =>
      rw [← h.armed] at harmed
      refine .inr ⟨_, _, .trigger intrId harmed, ?_, rfl, fun hout => hout⟩
      exact ⟨by rw [h.pending], by rw [h.armed], h.table, h.latch, h.position⟩
  | @setLatch c harmed =>
      rw [← h.armed] at harmed
      refine .inr ⟨_, _, .setLatch harmed, ?_, rfl, fun hout => hout⟩
      exact ⟨h.pending, by rw [h.armed], h.table, fun _ => rfl, h.position⟩
  | cause active => exact .inl ⟨rfl, h.pending, h.armed, h.table, h.latch, h.position⟩
  | enter hw hline => exact .inl ⟨rfl, h.pending, h.armed, h.table, h.latch, h.idle hw⟩
  | read hw => exact followed_read h hw
  | clear hw => exact followed_clear h hw
  | @attempt u spurious hw =>
      have hisr := h.isr hw (by simp)
      refine .inr ⟨_, _, .attempt spurious hisr, ?_, shown_attempt _, fun hout => hout.elim⟩
      rw [h.pending]
      exact follows_handler h _
  | @visit u i slot hw hslot =>
      rw [← h.table] at hslot
      refine .inr ⟨_, _, .visit (h.isr hw (by simp)) hslot, ?_, rfl, fun hout => hout.elim⟩
      exact ⟨h.pending, h.armed, h.table, h.latch, .inl rfl⟩
  | again hw hlen =>
      rw [← h.table] at hlen
      refine .inr ⟨_, _, .again (h.isr hw (by simp)) hlen, ?_, rfl, fun hout => hout.elim⟩
      exact ⟨h.pending, h.armed, h.table, h.latch, .inl rfl⟩
  | ret hw => exact followed_ret h hw
  | add slot hw =>
      refine .inr ⟨_, _, .add slot (h.idle hw), ?_, rfl, fun hout => hout.elim⟩
      exact ⟨h.pending, h.armed, by rw [h.table], h.latch, h.position⟩
  | delete intrId handler hw =>
      refine .inr ⟨_, _, .delete intrId handler (h.idle hw), ?_, rfl, fun hout => hout.elim⟩
      exact ⟨h.pending, h.armed, by rw [h.table], h.latch, h.position⟩

theorem intmtx_shown (hs : IntmtxStep a m b) (hseen : InterruptMatrix.seenDirect k =
    InterruptMatrix.seen m) : shown k = (Label.wrapper m).shown ∧
      ((Label.wrapper m).Outside → SoftwareInterrupt.Outside k) := by
  have hcause := hs.2
  cases m <;> cases k <;>
    simp_all [InterruptMatrix.seen, InterruptMatrix.seenDirect, shown, Label.shown,
      Label.Outside, SoftwareInterrupt.Outside]

/-- Every step of a port is a step of the routine, or one that nobody else sees. -/
theorem step_tracks (hs : Step p l q) (h : Tracks p d) : (l.shown = [] ∧ Tracks q d) ∨
    ∃ k e, SoftwareInterrupt.Step d k e ∧ Tracks q e ∧ shown k = l.shown ∧
      (l.Outside → SoftwareInterrupt.Outside k) := by
  cases hs with
  | lpCore hs =>
      cases h
      exact .inr ⟨_, _, hs, .lpCore _, rfl, fun hout => hout⟩
  | pmu hs =>
      cases h with
      | pmu hfollows =>
          rcases pmu_followed hs hfollows with ⟨hshown, hnext⟩ | ⟨k, e, hk, hnext, hrest⟩
          · exact .inl ⟨hshown, .pmu hnext⟩
          · exact .inr ⟨k, e, hk, .pmu hnext, hrest⟩
  | @intmtx a b m hs =>
      cases h with
      | intmtx hlevel =>
          have hnext := InterruptMatrix.step_level hs hlevel
          rcases InterruptMatrix.step_direct hs hlevel with ⟨hseen, hdirect⟩ | ⟨k, hk, hseen⟩
          · left
            rw [← hdirect]
            refine ⟨?_, .intmtx hnext⟩
            cases m <;> simp_all [InterruptMatrix.seen, Label.shown]
          · exact .inr ⟨k, _, hk, .intmtx hnext, intmtx_shown hs hseen⟩

omit [DecidableEq H] in
theorem Tracks.table (h : Tracks p d) : d.table = p.direct.table := by
  cases h with
  | lpCore a => rfl
  | pmu hfollows => exact hfollows.table
  | intmtx hlevel => rfl

omit [DecidableEq H] in
theorem Tracks.eq_direct (h : Tracks p d) (hexact : p.Exact) : d = p.direct := by
  cases h with
  | lpCore a => rfl
  | pmu hfollows => exact hexact.elim
  | intmtx hlevel => rfl

omit [DecidableEq H] in
/-- The status is read before the handler runs. -/
theorem Tracks.reads_of_dispatch (h : Tracks p d) {u : BitVec 32} {i : ℕ}
    (hisr : d.isr = .dispatch u i) : p.reads = 0 := by
  cases h with
  | @intmtx a hlevel =>
      have hw : a.wrapper ≠ .entered := by
        intro hw
        simp [direct, hw, InterruptMatrix.isrOf] at hisr
      simp [Port.reads, hw]
  | _ => rfl

theorem step_exact (hs : Step p l q) (hexact : p.Exact) : q.Exact := by
  cases hs with
  | pmu hs => exact hexact
  | _ => exact hexact

/-- Pending bits of a PMU port are about to be seen. -/
def Heard : Port H A → Prop
  | .pmu a => PmuInterrupt.Announced a
  | _ => True

omit [DecidableEq H] in
theorem heard_of_exact (hexact : p.Exact) : Heard p := by
  cases p with
  | pmu a => exact hexact.elim
  | _ => trivial

theorem step_heard (hs : Step p l q) (hok : ¬ Wipes p l) (h : Heard p) : Heard q := by
  cases hs with
  | pmu hs =>
      refine PmuInterrupt.step_announced ⟨hs, ?_⟩ h
      rintro rfl
      exact not_not.mp hok
  | _ => trivial

omit [DecidableEq H] in
theorem not_wipes_of_shown (hshown : l.shown ≠ []) : ¬ Wipes p l := by
  intro hwipes
  cases p with
  | pmu a =>
      cases l with
      | wrapper m => cases m <;> first | exact hshown rfl | exact hwipes
      | lpCore k => exact hwipes
  | _ => exact hwipes

omit [DecidableEq H] in
/-- A quiet port whose requests were heard has none pending. -/
theorem settled (h : Tracks p d) (hheard : Heard p) (hannounced : Announced d)
    (hquiet : p.Quiet) : d.pending = 0 ∧ d.isr = .idle := by
  cases h with
  | lpCore a =>
      obtain ⟨harmed, hlatch, hisr⟩ := hquiet
      refine ⟨by_contra fun hne => ?_, hisr⟩
      rcases hannounced hne with hset | ⟨c, hc⟩ | hrunning
      · exact absurd (hset.symm.trans hlatch) (by decide)
      · exact absurd (hc.symm.trans (harmed c)) (by decide)
      · rw [hisr] at hrunning
        cases hrunning
  | pmu hfollows =>
      obtain ⟨harmed, hlatch, hw⟩ := hquiet
      refine ⟨by_contra fun hne => ?_, hfollows.idle hw⟩
      rcases hheard.not_taking (by rw [hw]; rfl) (hfollows.pending ▸ hne) with hset | ⟨c, hc⟩
      · exact absurd (hset.symm.trans hlatch) (by decide)
      · exact absurd (hc.symm.trans (harmed c)) (by decide)
  | intmtx hlevel =>
      obtain ⟨harmed, hlatch, hw⟩ := hquiet
      refine ⟨InterruptMatrix.pending_zero_of_quiet hannounced ⟨harmed, hw⟩ hlatch, ?_⟩
      simp [direct, hw, InterruptMatrix.isrOf]

end Tracking

section Lifting
variable {H A : Type} [DecidableEq H] {p q : Port H A} {l : Label H A}
  {a b : PmuInterrupt.State H A} {d e : SoftwareInterrupt.State H A}
  {k : SoftwareInterrupt.Label H A} {m : PmuInterrupt.Label H A}

/-- A step of the wrapper shows in the state of the routine, the status read apart. -/
theorem eq_of_direct (hs : PmuInterrupt.Step a m b) (hm : (Label.wrapper m).Routine)
    (hread : m ≠ .read) (hlevel : Level a) (h : direct b = direct a) : b = a := by
  have hisr : InterruptMatrix.isrOf b.wrapper = InterruptMatrix.isrOf a.wrapper :=
    congrArg SoftwareInterrupt.State.isr h
  cases hs with
  | enter hw hline => simp [hw, InterruptMatrix.isrOf] at hisr
  | read hw => exact absurd rfl hread
  | @clear isSwIntr hw =>
      cases isSwIntr with
      | true => simp [hw, InterruptMatrix.isrOf] at hisr
      | false => exact absurd hw hlevel.sampled
  | @attempt u spurious hw =>
      have hpending := congrArg SoftwareInterrupt.State.pending h
      simp only [direct, hw, InterruptMatrix.isrOf] at hpending hisr
      rw [hpending, hisr, ← hw]
  | visit hw hslot => simp [hw, InterruptMatrix.isrOf] at hisr
  | again hw hlen => simp [hw, InterruptMatrix.isrOf] at hisr
  | ret hw => simp [hw, InterruptMatrix.isrOf] at hisr
  | _ => exact hm.elim

omit [DecidableEq H] in
theorem routine_of_shown (hm : (Label.wrapper m).Routine) (hk : shown k = (Label.wrapper m).shown) :
    SoftwareInterrupt.Routine k := by
  cases m <;> cases k <;>
    simp_all [shown, Label.shown, Label.Routine, SoftwareInterrupt.Routine]

omit [DecidableEq H] in
theorem not_outside_of_routine (hl : l.Routine) : ¬ l.Outside := by
  intro hout
  cases l with
  | lpCore k => cases k <;> first | exact hl | exact hout
  | wrapper m => cases m <;> first | exact hl | exact hout

omit [DecidableEq H] in
theorem reads_le_one : p.reads ≤ 1 := by
  cases p with
  | intmtx a =>
      simp only [Port.reads]
      split_ifs <;> omega
  | _ => exact Nat.zero_le 1

/-- A step of an exact port gets on with the work of the routine, or reads the status. -/
theorem routine_step (hs : Step p l q) (h : Tracks p d) (hexact : p.Exact) (hl : l.Routine)
    (hne : q ≠ p) :
    (l.shown = [] ∧ q.direct = p.direct ∧ q.reads < p.reads) ∨
      ∃ k, SoftwareInterrupt.Step p.direct k q.direct ∧ shown k = l.shown ∧
        SoftwareInterrupt.Routine k ∧ q.direct ≠ p.direct := by
  cases hs with
  | @lpCore a t k hs => exact .inr ⟨k, hs, rfl, hl, fun heq => hne (congrArg Port.lpCore heq)⟩
  | pmu hs => exact hexact.elim
  | @intmtx a b m hs =>
      cases h with
      | intmtx hlevel =>
          by_cases hread : m = .read
          · subst hread
            left
            obtain ⟨hs, -⟩ := hs
            cases hs with
            | read hw =>
                refine ⟨rfl, ?_, by simp [Port.reads, hw]⟩
                simp [Port.direct, direct, hw, InterruptMatrix.isrOf]
          · have hmoved : direct b ≠ direct a := fun heq =>
              hne (congrArg Port.intmtx (eq_of_direct hs.1 hl hread hlevel heq))
            rcases InterruptMatrix.step_direct hs hlevel with ⟨-, hdirect⟩ | ⟨k, hk, hseen⟩
            · exact absurd hdirect hmoved
            · have hshown := (intmtx_shown hs hseen).1
              exact .inr ⟨k, hk, hshown, routine_of_shown hl hshown, hmoved⟩

theorem lift_wrapper (hs : PmuInterrupt.Step a m b) (hm : (Label.wrapper m).Routine) :
    IntmtxStep a m b := by
  refine ⟨hs, fun active => ?_⟩
  rintro rfl
  exact hm

omit [DecidableEq H] in
/-- Where the wrapper stands when the routine is inside its handler. -/
theorem wrapper_of_isr {run : Isr} (hisr : (direct a).isr = run)
    (hidle : run ≠ .idle) (hentered : run ≠ .entered) : a.wrapper = .handler run := by
  have h : InterruptMatrix.isrOf a.wrapper = run := hisr
  cases hw : a.wrapper with
  | handler isr => rw [← h, hw, InterruptMatrix.isrOf]
  | idle => exact absurd (by rw [← h, hw, InterruptMatrix.isrOf]) hidle
  | _ => exact absurd (by rw [← h, hw, InterruptMatrix.isrOf]) hentered

omit [DecidableEq H] in
theorem wrapper_idle (hlevel : Level a) (hisr : (direct a).isr = .idle) : a.wrapper = .idle := by
  have h : InterruptMatrix.isrOf a.wrapper = .idle := hisr
  cases hw : a.wrapper with
  | idle => rfl
  | handler isr =>
      rw [hw, InterruptMatrix.isrOf] at h
      exact absurd (h ▸ hw) hlevel.handler.1
  | _ => simp [hw, InterruptMatrix.isrOf] at h

omit [DecidableEq H] in
theorem wrapper_sampled (hlevel : Level a) (hreads : a.wrapper ≠ .entered)
    (hisr : (direct a).isr = .entered) : a.wrapper = .sampled true := by
  have h : InterruptMatrix.isrOf a.wrapper = .entered := hisr
  cases hw : a.wrapper with
  | entered => exact absurd hw hreads
  | sampled isSwIntr =>
      cases isSwIntr with
      | true => rfl
      | false => exact absurd hw hlevel.sampled
  | handler isr =>
      rw [hw, InterruptMatrix.isrOf] at h
      exact absurd (h ▸ hw) hlevel.handler.2
  | idle => simp [hw, InterruptMatrix.isrOf] at h

theorem lift_intmtx (hlevel : Level a) (hreads : a.wrapper ≠ .entered)
    (hs : SoftwareInterrupt.Step (direct a) k e) (hk : SoftwareInterrupt.Routine k) :
    ∃ m b, PmuInterrupt.Step a m b ∧ direct b = e ∧ (Label.wrapper m).shown = shown k ∧
      (Label.wrapper m).Routine := by
  cases hs with
  | enter hisr hlatch =>
      exact ⟨.enter, _, .enter (wrapper_idle hlevel hisr) (.inl hlatch), rfl, rfl, trivial⟩
  | clear hisr =>
      exact ⟨.clear, _, .clear (wrapper_sampled hlevel hreads hisr), rfl, rfl, trivial⟩
  | attempt spurious hisr =>
      have hw := wrapper_of_isr hisr (by simp) (by simp)
      exact ⟨.attempt spurious, _, .attempt spurious hw, rfl, (shown_attempt _).symm, trivial⟩
  | visit hisr hslot =>
      have hw := wrapper_of_isr hisr (by simp) (by simp)
      exact ⟨_, _, .visit hw hslot, rfl, rfl, trivial⟩
  | again hisr hlen =>
      have hw := wrapper_of_isr hisr (by simp) (by simp)
      exact ⟨.again, _, .again hw hlen, rfl, rfl, trivial⟩
  | ret hisr =>
      have hw := wrapper_of_isr hisr (by simp) (by simp)
      exact ⟨.ret, _, .ret hw, rfl, rfl, trivial⟩
  | _ => exact hk.elim

/-- What the routine can do next, an exact port can do, unless it has a status to read. -/
theorem lift_step (h : Tracks p d) (hexact : p.Exact) (hreads : p.reads = 0)
    (hs : SoftwareInterrupt.Step p.direct k e) (hk : SoftwareInterrupt.Routine k) :
    ∃ l q, Step p l q ∧ q.direct = e ∧ l.shown = shown k ∧ l.Routine := by
  cases h with
  | lpCore a => exact ⟨.lpCore k, .lpCore e, .lpCore hs, rfl, rfl, hk⟩
  | pmu hfollows => exact hexact.elim
  | @intmtx a hlevel =>
      have hentered : a.wrapper ≠ .entered := by
        intro hw
        simp [Port.reads, hw] at hreads
      obtain ⟨m, b, hb, hdirect, hshown, hm⟩ := lift_intmtx hlevel hentered hs hk
      exact ⟨.wrapper m, .intmtx b, .intmtx (lift_wrapper hb hm), hdirect, hshown, hm⟩

omit [DecidableEq H] in
theorem routine_of_visit {i : ℕ} {called : Option (Slot H A)} (hl : l.shown = [.visit i called]) :
    l.Routine := by
  cases l with
  | lpCore k =>
      obtain rfl := shown_eq_singleton hl
      trivial
  | wrapper m => cases m <;> first | trivial | cases hl

/-- The routine of a quiet port does not start by itself. -/
theorem quiet_stuck (hs : Step p l q) (h : Tracks p d) (hexact : p.Exact) (hquiet : p.Quiet) :
    ¬ l.Routine := by
  intro hl
  cases hs with
  | lpCore hs =>
      obtain ⟨-, hlatch, hisr⟩ := hquiet
      cases hs with
      | enter _ hset => cases hset.symm.trans hlatch
      | clear hrunning => cases hrunning.symm.trans hisr
      | attempt spurious hrunning => cases hrunning.symm.trans hisr
      | visit hrunning hslot => cases hrunning.symm.trans hisr
      | again hrunning hlen => cases hrunning.symm.trans hisr
      | ret hrunning => cases hrunning.symm.trans hisr
      | _ => exact hl
  | pmu hs => exact hexact
  | intmtx hs =>
      obtain ⟨-, hlatch, hw⟩ := hquiet
      obtain ⟨hs, -⟩ := hs
      cases h with
      | intmtx hlevel =>
          cases hs with
          | enter _ hline =>
              rcases hline with hset | hother
              · cases hset.symm.trans hlatch
              · cases hother.symm.trans hlevel.alone
          | read hrunning => cases hrunning.symm.trans hw
          | clear hrunning => cases hrunning.symm.trans hw
          | attempt spurious hrunning => cases hrunning.symm.trans hw
          | visit hrunning hslot => cases hrunning.symm.trans hw
          | again hrunning hlen => cases hrunning.symm.trans hw
          | ret hrunning => cases hrunning.symm.trans hw
          | _ => exact hl

/-- A port that owes a status read can make it. -/
theorem read_step (hreads : p.reads ≠ 0) :
    ∃ l q, Step p l q ∧ l.shown = [] ∧ l.Routine ∧ q ≠ p ∧ q.direct.table = p.direct.table := by
  cases p with
  | intmtx a =>
      have hw : a.wrapper = .entered := by
        by_contra hne
        simp [Port.reads, hne] at hreads
      refine ⟨.wrapper .read, _, .intmtx (lift_wrapper (.read hw) trivial), rfl, trivial, ?_, rfl⟩
      intro heq
      have hwrapper := congrArg PmuInterrupt.State.wrapper (Port.intmtx.inj heq)
      cases hwrapper.trans hw
  | _ => exact absurd rfl hreads

end Lifting

end EspAmp.InterruptPort
