import EspAmp.RpmsgInterrupt
import EspAmp.InterruptPort

/-!
# RPMsg in interrupt mode on both subcore types

The two cores of a build with the ports they have: an LP subcore with the routine that
clears first beside a main core on the shared PMU line, or two HP cores with an interrupt
line each. Every run is a run of the system whose ports ask no status, with steps of other
PMU causes, status reads and lost latches in between.

No message to an LP subcore or between two HP cores is stranded. A main core beside an LP
subcore can be left with messages that it was told about, but only behind a clear that
wiped a request the wrapper had not seen.
-/
namespace EspAmp.RpmsgBuilds
open ByteMemory ReplyMachine RpmsgChannel RpmsgPair RpmsgDrain
open SoftwareInterrupt (Slot Isr)
open InterruptPort (SubcoreType Port Tracks Heard)
open RpmsgInterrupt (Linked rpmsgIntrId published)

structure Build (H A : Type) extends Linked H A where
  subcoreType : SubcoreType

structure State (H A : Type) where
  sys : Sys
  intr : Side → Port H A
  owed : Side → ℕ
  draining : Side → Bool

inductive Label (H A : Type) where
  | call (d : Side) (op : Op)
  | notify (d : Side) (c : ℕ)
  | intr (d : Side) (l : InterruptPort.Label H A)
  | rxCallback (d : Side) (i : ℕ)
  | poll (d : Side)

section Model
variable {H A : Type} [DecidableEq H] (v : Build H A)

omit [DecidableEq H] in
/-- Behind the initialisation of both cores. -/
def Build.port (d : Side) : Port H A :=
  match v.subcoreType, d with
  | .lpCore, .sub => .lpCore ⟨0, false, fun _ => false, .idle, v.table d⟩
  | .lpCore, .main => .pmu ⟨0, false, false, fun _ => false, .idle, v.table d⟩
  | .hpCore, _ => .intmtx ⟨0, false, false, fun _ => false, .idle, v.table d⟩

/-- The cores whose port never drops a request. -/
def Build.Exact (d : Side) : Prop := v.subcoreType = .hpCore ∨ d = .sub

omit [DecidableEq H] in
/-- Nothing was sent yet. -/
def Build.start (mem : Memory 32) : State H A where
  sys := v.pair.start mem
  intr := v.port
  owed _ := 0
  draining _ := false

/-- One step of one core. The entry of the device stays in the table: no function of the
component deletes it. -/
inductive Step : State H A → Label H A → State H A → Prop
  | call {s : State H A} {d : Side} {op : Op} : op ≠ .poll → s.sys.Legal v.pair d op →
      Step s (.call d op)
        { s with
          sys := s.sys.exec v.pair d op,
          owed := Function.update s.owed d
            (s.owed d + published s.sys (s.sys.exec v.pair d op) d) }
  | notify {s : State H A} {d : Side} {c : ℕ} {l : InterruptPort.Label H A} {q : Port H A} :
      0 < s.owed d → InterruptPort.Step (s.intr d.other) l q →
      l.shown = [.trigger c rpmsgIntrId] →
      Step s (.notify d c)
        { s with
          intr := Function.update s.intr d.other q,
          owed := Function.update s.owed d (s.owed d - 1) }
  | intr {s : State H A} {d : Side} {l : InterruptPort.Label H A} {q : Port H A} :
      (s.draining d = true → l.Outside) → InterruptPort.Step (s.intr d) l q →
      (∀ i, l.shown ≠ [.visit i (some (v.entry d))]) → v.entry d ∈ q.direct.table →
      Step s (.intr d l) { s with intr := Function.update s.intr d q }
  | rxCallback {s : State H A} {d : Side} {i : ℕ} {l : InterruptPort.Label H A} {q : Port H A} :
      s.draining d = false → InterruptPort.Step (s.intr d) l q →
      l.shown = [.visit i (some (v.entry d))] →
      Step s (.rxCallback d i)
        { s with
          intr := Function.update s.intr d q,
          draining := Function.update s.draining d true }
  | poll {s : State H A} {d : Side} : s.draining d = true →
      Step s (.poll d)
        { s with
          sys := s.sys.exec v.pair d .poll,
          draining := Function.update s.draining d (decide (pollRet s.sys d = 0)) }

/-- A step in which the wrapper of core `d` wipes no request it has not seen. -/
def Harmless (d : Side) (s : State H A) (l : Label H A) (s' : State H A) : Prop :=
  Step v s l s' ∧ ∀ k, l = .intr d k → ¬ InterruptPort.Wipes (s.intr d) k

end Model

section Refinement
variable {H A : Type} [DecidableEq H] {v : Build H A} {s s' : State H A} {d e : Side}
  {l : Label H A} {ls : List (Label H A)} {p q : Port H A} {k : InterruptPort.Label H A}
  {intr : Side → SoftwareInterrupt.State H A} {b : SoftwareInterrupt.State H A}

/-- The same queues and duties over ports that ask no status. -/
def State.over (s : State H A) (intr : Side → SoftwareInterrupt.State H A) :
    RpmsgInterrupt.State H A :=
  ⟨s.sys, intr, s.owed, s.draining⟩

/-- The ports of both cores are tracked. -/
def Tracked (s : State H A) (intr : Side → SoftwareInterrupt.State H A) : Prop :=
  ∀ d, Tracks (s.intr d) (intr d)

omit [DecidableEq H] in
theorem tracked_update {t : State H A} (h : Tracked s intr) (hq : Tracks q b)
    (ht : t.intr = Function.update s.intr d q) : Tracked t (Function.update intr d b) := by
  intro e
  rw [ht]
  by_cases he : e = d
  · subst he
    simpa using hq
  · simpa [he] using h e

omit [DecidableEq H] in
theorem start_tracked (mem : Memory 32) :
    Tracked (v.start mem) (v.toLinked.start mem).intr := by
  intro d
  simp only [Build.start, Build.port]
  split
  · exact .lpCore _
  · exact .pmu ⟨rfl, rfl, rfl, fun hlatch => hlatch, rfl⟩
  · exact .intmtx (InterruptMatrix.level_of_idle rfl rfl)

/-- A step that shows something is a step of the routine that shows the same. -/
theorem tracks_shown (hs : InterruptPort.Step p k q) (h : Tracks p b)
    {x : SoftwareInterrupt.Label H A} (hk : k.shown = [x]) :
    ∃ c, SoftwareInterrupt.Step b x c ∧ Tracks q c := by
  rcases InterruptPort.step_tracks hs h with ⟨hshown, -⟩ | ⟨j, c, hj, hc, hshown, -⟩
  · rw [hk] at hshown
    cases hshown
  · obtain rfl := InterruptPort.shown_eq_singleton (hshown.trans hk)
    exact ⟨c, hj, hc⟩

/-- Every step is one of the system whose ports ask no status, or one that nobody sees. -/
theorem step_refines (hs : Step v s l s') (h : Tracked s intr) : ∃ intr', Tracked s' intr' ∧
    (s'.over intr' = s.over intr ∨
      ∃ k, RpmsgInterrupt.Step v.toLinked (s.over intr) k (s'.over intr')) := by
  cases hs with
  | call hop hlegal => exact ⟨intr, h, .inr ⟨_, .call hop hlegal⟩⟩
  | notify howed hport hshown =>
      obtain ⟨c, hc, hq⟩ := tracks_shown hport (h _) hshown
      exact ⟨_, tracked_update h hq rfl, .inr ⟨_, .notify howed hc⟩⟩
  | @intr d k q houtside hport hk htable =>
      rcases InterruptPort.step_tracks hport (h d) with ⟨-, hq⟩ | ⟨j, c, hj, hq, hshown, hout⟩
      · have hnext := tracked_update (t := { s with intr := Function.update s.intr d q }) h hq rfl
        rw [Function.update_eq_self] at hnext
        exact ⟨intr, hnext, .inl rfl⟩
      · have hvisit : ∀ i, j ≠ .visit i (some (v.entry d)) := by
          rintro i rfl
          exact hk i hshown.symm
        refine ⟨_, tracked_update h hq rfl, .inr ⟨_, .intr (fun hd => hout (houtside hd)) hvisit
          hj ?_⟩⟩
        rw [hq.table]
        exact htable
  | rxCallback hdraining hport hshown =>
      obtain ⟨c, hc, hq⟩ := tracks_shown hport (h _) hshown
      exact ⟨_, tracked_update h hq rfl, .inr ⟨_, .rxCallback hdraining hc⟩⟩
  | poll hdraining => exact ⟨intr, h, .inr ⟨_, .poll hdraining⟩⟩

theorem run_refines (hrun : Run (Step v) s ls s') (h : Tracked s intr) :
    ∃ intr' ks, Tracked s' intr' ∧
      Run (RpmsgInterrupt.Step v.toLinked) (s.over intr) ks (s'.over intr') := by
  induction hrun generalizing intr with
  | done s => exact ⟨intr, [], h, .done _⟩
  | next hs _ ih =>
      obtain ⟨intr', h', hstep⟩ := step_refines hs h
      obtain ⟨intr'', ks, h'', hrun⟩ := ih h'
      rcases hstep with hsame | ⟨k, hk⟩
      · exact ⟨intr'', ks, h'', hsame ▸ hrun⟩
      · exact ⟨intr'', k :: ks, h'', .next hk hrun⟩

/-- What holds of every state of the system whose ports ask no status. -/
theorem run_inv {mem : Memory 32} (hrun : Run (Step v) (v.start mem) ls s) :
    ∃ intr, Tracked s intr ∧ RpmsgInterrupt.Inv v.toLinked (s.over intr) := by
  obtain ⟨intr, ks, h, hks⟩ := run_refines hrun (start_tracked mem)
  exact ⟨intr, h, RpmsgInterrupt.run_inv hks⟩

end Refinement

section Ports
variable {H A : Type} [DecidableEq H] {v : Build H A} {s s' : State H A} {d : Side}
  {l : Label H A} {ls : List (Label H A)}

omit [DecidableEq H] in
theorem start_exact (mem : Memory 32) (hexact : v.Exact d) :
    ((v.start mem).intr d).Exact := by
  rcases hexact with hhp | rfl
  · simp only [Build.start, Build.port, hhp]
    trivial
  · simp only [Build.start, Build.port]
    split
    · trivial
    · contradiction
    · trivial

/-- What a step does to a port is a step of the port, or nothing. -/
theorem step_port (hs : Step v s l s') (d : Side) : s'.intr d = s.intr d ∨
    ∃ k, InterruptPort.Step (s.intr d) k (s'.intr d) ∧ (l = .intr d k ∨ k.shown ≠ []) := by
  cases hs with
  | call hop hlegal => exact .inl rfl
  | @notify e c k q howed hport hshown =>
      by_cases hd : d = e.other
      · subst hd
        exact .inr ⟨k, by simpa using hport, .inr (by simp [hshown])⟩
      · exact .inl (by simp [hd])
  | @intr e k q houtside hport hk htable =>
      by_cases hd : d = e
      · subst hd
        exact .inr ⟨k, by simpa using hport, .inl rfl⟩
      · exact .inl (by simp [hd])
  | @rxCallback e i k q hdraining hport hshown =>
      by_cases hd : d = e
      · subst hd
        exact .inr ⟨k, by simpa using hport, .inr (by simp [hshown])⟩
      · exact .inl (by simp [hd])
  | poll hdraining => exact .inl rfl

theorem step_exact (hs : Step v s l s') (h : (s.intr d).Exact) : (s'.intr d).Exact := by
  rcases step_port hs d with hsame | ⟨k, hport, -⟩
  · rwa [hsame]
  · exact InterruptPort.step_exact hport h

theorem run_exact {mem : Memory 32} (hrun : Run (Step v) (v.start mem) ls s)
    (hexact : v.Exact d) : (s.intr d).Exact :=
  hrun.invariant (fun _ _ _ hs h => step_exact hs h) (start_exact mem hexact)

theorem step_heard (hs : Harmless v d s l s') (h : Heard (s.intr d)) : Heard (s'.intr d) := by
  obtain ⟨hs, hok⟩ := hs
  rcases step_port hs d with hsame | ⟨k, hport, hlabel⟩
  · rwa [hsame]
  · refine InterruptPort.step_heard hport ?_ h
    rcases hlabel with hlabel | hshown
    · exact hok k hlabel
    · exact InterruptPort.not_wipes_of_shown hshown

omit [DecidableEq H] in
theorem start_heard (mem : Memory 32) : Heard ((v.start mem).intr d) := by
  simp only [Build.start, Build.port]
  split
  · trivial
  · exact fun hne => absurd rfl hne
  · trivial

/-- The requests to core `d` were heard. -/
theorem run_heard {mem : Memory 32} (hrun : Run (Step v) (v.start mem) ls s)
    (hheard : v.Exact d ∨ Run (Harmless v d) (v.start mem) ls s) : Heard (s.intr d) := by
  rcases hheard with hexact | hharmless
  · exact InterruptPort.heard_of_exact (run_exact hrun hexact)
  · exact hharmless.invariant (fun _ _ _ hs h => step_heard hs h) (start_heard mem)

/-- Nothing is under way towards core `d`. -/
structure Rest (s : State H A) (d : Side) : Prop where
  owed : s.owed d.other = 0
  quiet : (s.intr d).Quiet

end Ports

section Progress
variable {H A : Type} [DecidableEq H] {v : Build H A} {s s' : State H A} {d : Side}
  {l : Label H A} {ls : List (Label H A)} {p q : Port H A} {k : InterruptPort.Label H A}
  {intr : Side → SoftwareInterrupt.State H A} {b : SoftwareInterrupt.State H A}

/-- What core `d` does on its own to serve its interrupts. -/
def Serves (d : Side) : Label H A → Prop
  | .call _ _ | .notify _ _ => False
  | .intr e k => e = d ∧ k.Routine
  | .rxCallback e _ | .poll e => e = d

/-- A step of the receiver that gets somewhere: an exchange attempt may fail spuriously and
leave everything as it was. -/
def ReceiverStep (v : Build H A) (d : Side) (s : State H A) (l : Label H A) (s' : State H A) :
    Prop :=
  Step v s l s' ∧ Serves d l ∧ s' ≠ s

/-- A bound on the steps that core `d` can take on its own: each entry costs a wrapper one
status read more than it costs the routine that asks none. -/
def work (v : Build H A) (s : State H A) (d : Side) : ℕ :=
  2 * (RpmsgInterrupt.rank (s.intr d).direct + (available v.pair s.sys d).length +
    if s.draining d then 1 else 0) + (s.intr d).reads

/-- Core `d` has nothing left to do. -/
def AtRest (v : Build H A) (s : State H A) (d : Side) : Prop :=
  ∀ l s', ¬ ReceiverStep v d s l s'

omit [DecidableEq H] in
theorem work_eq (h : Tracked s intr) (hexact : (s.intr d).Exact) :
    work v s d = 2 * RpmsgInterrupt.work v.toLinked (s.over intr) d + (s.intr d).reads := by
  rw [work, ← (h d).eq_direct hexact]
  rfl

theorem tracks_direct (hs : InterruptPort.Step p k q) (h : Tracks p b) (hexact : p.Exact) :
    Tracks q q.direct := by
  have hq := InterruptPort.step_exact hs hexact
  rcases InterruptPort.step_tracks hs h with ⟨-, hnext⟩ | ⟨j, c, -, hnext, -⟩
  · exact hnext.eq_direct hq ▸ hnext
  · exact hnext.eq_direct hq ▸ hnext

/-- A step of the receiver gets on with the work of the system whose ports ask no status, or
reads a status. -/
theorem receiver_refines (hs : ReceiverStep v d s l s') (h : Tracked s intr)
    (hexact : (s.intr d).Exact) : ∃ intr', Tracked s' intr' ∧
      (s'.over intr' = s.over intr ∧ (s'.intr d).reads < (s.intr d).reads ∨
        ∃ k, RpmsgInterrupt.ReceiverStep v.toLinked d (s.over intr) k (s'.over intr')) := by
  obtain ⟨hs, hserves, hne⟩ := hs
  cases hs with
  | call hop hlegal => exact hserves.elim
  | notify howed hport hshown => exact hserves.elim
  | @intr e k q houtside hport hk htable =>
      obtain ⟨rfl, hroutine⟩ := hserves
      have hmoved : q ≠ s.intr e := by
        rintro rfl
        exact hne (by rw [Function.update_eq_self])
      have hdirect := (h e).eq_direct hexact
      have hnext := tracked_update (t := { s with intr := Function.update s.intr e q }) h
        (tracks_direct hport (h e) hexact) rfl
      rcases InterruptPort.routine_step hport (h e) hexact hroutine hmoved with
        ⟨-, hsame, hreads⟩ | ⟨j, hj, hshown, hjroutine, hdiffer⟩
      · rw [hsame, ← hdirect, Function.update_eq_self] at hnext
        exact ⟨intr, hnext, .inl ⟨rfl, by simpa using hreads⟩⟩
      · have hvisit : ∀ i, j ≠ .visit i (some (v.entry e)) := by
          rintro i rfl
          exact hk i hshown.symm
        rw [← hdirect] at hj hdiffer
        have hquiet : s.draining e = false := by
          by_contra hdraining
          have hout := houtside (by simpa using hdraining)
          exact InterruptPort.not_outside_of_routine hroutine hout
        refine ⟨_, hnext, .inr ⟨.intr e j, .intr (by simp [State.over, hquiet]) hvisit hj htable,
          ⟨rfl, hjroutine⟩, fun heq => ?_⟩⟩
        have hport := congrFun (congrArg RpmsgInterrupt.State.intr heq) e
        exact hdiffer (by simpa [State.over] using hport)
  | @rxCallback e i k q hdraining hport hshown =>
      obtain rfl : e = d := hserves
      obtain ⟨c, hc, hq⟩ := tracks_shown hport (h e) hshown
      refine ⟨_, tracked_update h hq rfl, .inr ⟨_, .rxCallback hdraining hc, rfl, fun heq => ?_⟩⟩
      have hflag := congrFun (congrArg RpmsgInterrupt.State.draining heq) e
      simp [State.over, hdraining] at hflag
  | @poll e hdraining =>
      obtain rfl : e = d := hserves
      refine ⟨intr, h, .inr ⟨_, .poll hdraining, rfl, fun heq => hne ?_⟩⟩
      have hsys : s.sys.exec v.pair e .poll = s.sys := congrArg RpmsgInterrupt.State.sys heq
      have hflag := congrArg RpmsgInterrupt.State.draining heq
      simp only [State.over] at hflag
      rw [hsys, hflag]

theorem step_work (hs : ReceiverStep v d s l s') (h : Tracked s intr)
    (hinv : RpmsgInterrupt.Inv v.toLinked (s.over intr)) (hexact : (s.intr d).Exact) :
    ∃ intr' ks, Tracked s' intr' ∧ (s'.intr d).Exact ∧
      Run (RpmsgInterrupt.ReceiverStep v.toLinked d) (s.over intr) ks (s'.over intr') ∧
      work v s' d < work v s d := by
  have hexact' := step_exact hs.1 hexact
  obtain ⟨intr', h', hsame | ⟨k, hk⟩⟩ := receiver_refines hs h hexact
  · refine ⟨intr', [], h', hexact', hsame.1 ▸ .done _, ?_⟩
    rw [work_eq h hexact, work_eq h' hexact', hsame.1]
    omega
  · refine ⟨intr', [k], h', hexact', .single hk, ?_⟩
    have hwork := RpmsgInterrupt.step_work hk hinv
    have hreads : (s'.intr d).reads ≤ 1 := InterruptPort.reads_le_one
    rw [work_eq h hexact, work_eq h' hexact']
    omega

theorem receiverRun_refines (hrun : Run (ReceiverStep v d) s ls s') (h : Tracked s intr)
    (hinv : RpmsgInterrupt.Inv v.toLinked (s.over intr)) (hexact : (s.intr d).Exact) :
    ∃ intr' ks, Tracked s' intr' ∧ (s'.intr d).Exact ∧
      Run (RpmsgInterrupt.ReceiverStep v.toLinked d) (s.over intr) ks (s'.over intr') ∧
      ls.length + work v s' d ≤ work v s d := by
  induction hrun generalizing intr with
  | done s => exact ⟨intr, [], h, hexact, .done _, by simp⟩
  | next hs _ ih =>
      obtain ⟨intr', ks, h', hexact', hks, hwork⟩ := step_work hs h hinv hexact
      have hinv' := (RpmsgInterrupt.receiverRun_work hks hinv).1
      obtain ⟨intr'', ks', h'', hexact'', hks', hle⟩ := ih h' hinv' hexact'
      refine ⟨intr'', ks ++ ks', h'', hexact'', hks.append hks', ?_⟩
      rw [List.length_cons]
      omega

omit [DecidableEq H] in
/-- A core inside the callback owes no status read. -/
theorem reads_of_draining (h : Tracked s intr)
    (hinv : RpmsgInterrupt.Inv v.toLinked (s.over intr)) (hdraining : s.draining d = true) :
    (s.intr d).reads = 0 := by
  obtain ⟨u, j, hisr⟩ := hinv.running d hdraining
  exact (h d).reads_of_dispatch hisr

/-- A core at rest owes no status read. -/
theorem AtRest.reads (hrest : AtRest v s d) (h : Tracked s intr)
    (hinv : RpmsgInterrupt.Inv v.toLinked (s.over intr))
    (htable : v.entry d ∈ (s.intr d).direct.table) : (s.intr d).reads = 0 := by
  by_contra hreads
  have hquiet : s.draining d ≠ true := fun hd => hreads (reads_of_draining h hinv hd)
  obtain ⟨l, q, hport, hshown, hroutine, hmoved, hsame⟩ := InterruptPort.read_step hreads
  refine hrest (.intr d l) _ ⟨.intr (fun hd => absurd hd hquiet) hport (by simp [hshown])
    (hsame ▸ htable), ⟨rfl, hroutine⟩, fun heq => hmoved ?_⟩
  have hintr := congrFun (congrArg State.intr heq) d
  simpa using hintr

/-- What a core can do whose port asks no status, it can do with the port it has. -/
theorem AtRest.lift (hrest : AtRest v s d) (h : Tracked s intr)
    (hinv : RpmsgInterrupt.Inv v.toLinked (s.over intr)) (hexact : (s.intr d).Exact) :
    RpmsgInterrupt.AtRest v.toLinked (s.over intr) d := by
  obtain ⟨i, hi, -⟩ := hinv.served d
  have htable : v.entry d ∈ (s.intr d).direct.table := by
    rw [← (h d).table]
    exact List.mem_of_getElem? hi
  have hreads := hrest.reads h hinv htable
  have hdirect := (h d).eq_direct hexact
  rintro k a ⟨hs, hserves, hne⟩
  cases hs with
  | call hop hlegal => exact hserves.elim
  | notify howed ht => exact hserves.elim
  | @intr e j t houtside hj ht hmem =>
      obtain ⟨rfl, hroutine⟩ := hserves
      have hstep : SoftwareInterrupt.Step (s.intr e).direct j t := by
        rw [← hdirect]
        exact ht
      obtain ⟨l, q, hport, rfl, hshown, hl⟩ :=
        InterruptPort.lift_step (h e) hexact hreads hstep hroutine
      have hvisit : ∀ i, l.shown ≠ [.visit i (some (v.entry e))] := fun i hvisit =>
        hj i (InterruptPort.shown_eq_singleton (hshown.symm.trans hvisit))
      have hquiet : s.draining e ≠ true := fun hd =>
        InterruptPort.not_outside_of_routine (l := .lpCore j) hroutine (houtside hd)
      refine hrest (.intr e l) _ ⟨.intr (fun hd => absurd hd hquiet) hport hvisit hmem,
        ⟨rfl, hl⟩, fun heq => hne ?_⟩
      have hsame : q = s.intr e := by simpa using congrFun (congrArg State.intr heq) e
      simp only [State.over, hsame, ← hdirect, Function.update_eq_self]
  | @rxCallback e i t hdraining ht =>
      obtain rfl : e = d := hserves
      have hstep : SoftwareInterrupt.Step (s.intr e).direct
          (.visit i (some (v.entry e))) t := by
        rw [← hdirect]
        exact ht
      obtain ⟨l, q, hport, rfl, hshown, -⟩ :=
        InterruptPort.lift_step (h e) hexact hreads hstep trivial
      refine hrest (.rxCallback e i) _ ⟨.rxCallback hdraining hport hshown, rfl, fun heq => ?_⟩
      have hflag := congrFun (congrArg State.draining heq) e
      have hquiet : s.draining e = false := hdraining
      simp [hquiet] at hflag
  | @poll e hdraining =>
      obtain rfl : e = d := hserves
      refine hrest (.poll e) _ ⟨.poll hdraining, rfl, fun heq => hne ?_⟩
      exact congrArg (fun t => State.over t intr) heq

/-- An exact port with nothing under way lets its core rest. -/
theorem Rest.atRest (hrest : Rest s d) (h : Tracked s intr)
    (hinv : RpmsgInterrupt.Inv v.toLinked (s.over intr)) (hexact : (s.intr d).Exact) :
    AtRest v s d := by
  rintro l s' ⟨hs, hserves, -⟩
  cases hs with
  | call hop hlegal => exact hserves
  | notify howed hport hshown => exact hserves
  | intr houtside hport hk htable =>
      obtain ⟨rfl, hroutine⟩ := hserves
      exact InterruptPort.quiet_stuck hport (h _) hexact hrest.quiet hroutine
  | rxCallback hdraining hport hshown =>
      obtain rfl := hserves
      exact InterruptPort.quiet_stuck hport (h _) hexact hrest.quiet
        (InterruptPort.routine_of_visit hshown)
  | @poll e hdraining =>
      obtain rfl : e = d := hserves
      obtain ⟨u, j, hisr⟩ := hinv.running e hdraining
      have hidle := (InterruptPort.settled (h e) (InterruptPort.heard_of_exact hexact)
        (hinv.announced e) hrest.quiet).2
      cases hisr.symm.trans hidle

end Progress

/-- In every run of every build, whatever the order of the two cores' steps, the polls take
the messages in the order they were sent, each once. Whenever nothing is under way towards a
core, and none of its polls met an unknown destination, it has polled every message sent to
it; a main core beside an LP subcore has, if its wrapper wiped no request unseen. -/
theorem no_message_stranded {H A : Type} [DecidableEq H] (v : Build H A) (mem : Memory 32)
    {ls : List (Label H A)} {s : State H A} (hrun : Run (Step v) (v.start mem) ls s) (d : Side) :
    (s.sys.chan d.other).polled.map Polled.msg <+: (s.sys.chan d.other).sent ∧
      (v.Exact d ∨ Run (Harmless v d) (v.start mem) ls s → Rest s d →
        (∀ m ∈ (s.sys.chan d.other).polled, m.ept ≠ none) →
        (s.sys.chan d.other).polled.map Polled.msg = (s.sys.chan d.other).sent) := by
  obtain ⟨intr, htracked, h⟩ := run_inv hrun
  constructor
  · have hsent := sent_eq (d := d) h.sys
    exact hsent ▸ List.prefix_append _ _
  · intro hheard hrest hknown
    obtain ⟨hpending, hidle⟩ := InterruptPort.settled (htracked d) (run_heard hrun hheard)
      (h.announced d) hrest.quiet
    exact RpmsgInterrupt.polled_eq_sent h hrest.owed hpending hidle hknown

/-- Once the sender owes no interrupt, a receiver whose port drops no request comes to rest
after a bounded number of steps of its own, and then it has polled everything that was
sent. -/
theorem messages_drained {H A : Type} [DecidableEq H] (v : Build H A) (mem : Memory 32)
    {ls ks : List (Label H A)} {s s' : State H A} (d : Side) (hexact : v.Exact d)
    (hrun : Run (Step v) (v.start mem) ls s) (howed : s.owed d.other = 0)
    (harmed : ∀ c, (s.intr d).direct.armed c = false) (hserve : Run (ReceiverStep v d) s ks s') :
    ks.length ≤ work v s d ∧
      (AtRest v s' d → (∀ m ∈ (s'.sys.chan d.other).polled, m.ept ≠ none) →
        (s'.sys.chan d.other).polled.map Polled.msg = (s.sys.chan d.other).sent) := by
  obtain ⟨intr, h, hinv⟩ := run_inv hrun
  obtain ⟨intr', js, h', hexact', hjs, hwork⟩ :=
    receiverRun_refines hserve h hinv (run_exact hrun hexact)
  have hinv' := (RpmsgInterrupt.receiverRun_work hjs hinv).1
  obtain ⟨howed', harmed', hsent⟩ := RpmsgInterrupt.receiverRun_keeps hjs
  refine ⟨by omega, fun hrest hknown => ?_⟩
  rw [← (h d).eq_direct (run_exact hrun hexact)] at harmed
  have hpolled := (hrest.lift h' hinv' hexact').polled_eq_sent hinv'
    ((congrFun howed' d.other).trans howed) (fun c => (congrFun harmed' c).trans (harmed c)) hknown
  exact hpolled.trans hsent

/-- The entry of each device of the small pair. -/
def rxEntry : Slot ℕ ℕ := ⟨rpmsgIntrId, some 7, 0⟩

theorem rxEntry_handler : rxEntry.handler ≠ none := by simp [rxEntry]

/-- Two HP cores. -/
def smallBuild : Build ℕ ℕ where
  pair := smallPair
  table _ := [rxEntry]
  entry _ := rxEntry
  intrId _ := rfl
  handler _ := rxEntry_handler
  registered _ := List.mem_singleton_self _
  subcoreType := .hpCore

/-- The state behind a call. -/
def called (s : State ℕ ℕ) (d : Side) (op : Op) : State ℕ ℕ :=
  { s with
    sys := s.sys.exec smallPair d op,
    owed := Function.update s.owed d
      (s.owed d + published s.sys (s.sys.exec smallPair d op) d) }

def listening : State ℕ ℕ :=
  called (smallBuild.start fun _ => 0) .sub (.createEndpoint 5 none 0 0x3ffb0000)

def sent : State ℕ ℕ := called listening .main (.send sender 5 0x20000001 3)

/-- The port of a core with the entry of its device. -/
def interrupted (pending : BitVec 32) (latch : Bool) (wrapper : PmuInterrupt.Wrapper) :
    PmuInterrupt.State ℕ ℕ :=
  ⟨pending, latch, false, PmuInterrupt.disarmed, wrapper, [rxEntry]⟩

def withIntr (s : State ℕ ℕ) (a : PmuInterrupt.State ℕ ℕ) : State ℕ ℕ :=
  { s with intr := Function.update s.intr .sub (.intmtx a) }

def triggered : State ℕ ℕ :=
  { sent with
    intr := Function.update sent.intr .sub (.intmtx
      ⟨0x20000000, false, false, Function.update (fun _ => false) 0 true, .idle, [rxEntry]⟩),
    owed := Function.update sent.owed .main (sent.owed .main - 1) }

/-- The subcore's wrapper over the state behind the trigger. -/
def served (pending : BitVec 32) (latch : Bool) (wrapper : PmuInterrupt.Wrapper) : State ℕ ℕ :=
  withIntr triggered (interrupted pending latch wrapper)

/-- The message was sent and its interrupt raised. -/
def raised : State ℕ ℕ := served 0x20000000 true .idle

theorem wrapper_step {s : State ℕ ℕ} {m : PmuInterrupt.Label ℕ ℕ} {a b : PmuInterrupt.State ℕ ℕ}
    (hport : s.intr .sub = .intmtx a) (hdraining : s.draining .sub = false)
    (hs : PmuInterrupt.Step a m b) (hm : ∀ active, m ≠ .cause active)
    (hvisit : ∀ i, (InterruptPort.Label.wrapper m).shown ≠ [.visit i (some rxEntry)])
    (htable : b.table = [rxEntry]) :
    Step smallBuild s (.intr .sub (.wrapper m)) (withIntr s b) := by
  have hport' : InterruptPort.Step (s.intr .sub) (.wrapper m) (.intmtx b) := by
    rw [hport]
    exact .intmtx ⟨hs, hm⟩
  refine .intr (by simp [hdraining]) hport' hvisit ?_
  have hdirect : (Port.intmtx b).direct.table = [rxEntry] := htable
  rw [hdirect]
  exact List.mem_singleton_self _

theorem raised_run : ∃ ls, Run (Step smallBuild) (smallBuild.start fun _ => 0) ls raised := by
  have hlisten : Step smallBuild (smallBuild.start fun _ => 0) (.call .sub _) listening :=
    .call (by simp) (by decide +kernel)
  have hsend : Step smallBuild listening (.call .main _) sent :=
    .call (by simp) (by decide +kernel)
  have howed : 0 < sent.owed .main := by decide +kernel
  have hnotify : Step smallBuild sent (.notify .main 0) triggered :=
    .notify howed (.intmtx ⟨.trigger rpmsgIntrId rfl, by simp⟩) rfl
  have hlatch : Step smallBuild triggered (.intr .sub (.wrapper (.setLatch 0))) raised :=
    wrapper_step rfl rfl (.setLatch rfl) (by simp) (by simp [InterruptPort.Label.shown]) rfl
  exact ⟨_, .next hlisten (.next hsend (.next hnotify (.single hlatch)))⟩

theorem withIntr_withIntr (s : State ℕ ℕ) (a b : PmuInterrupt.State ℕ ℕ) :
    withIntr (withIntr s a) b = withIntr s b := by
  simp [withIntr, Function.update_idem]

theorem withIntr_eq_self {s : State ℕ ℕ} {a : PmuInterrupt.State ℕ ℕ}
    (h : s.intr .sub = .intmtx a) : withIntr s a = s := by
  rw [withIntr, ← h, Function.update_eq_self]

/-- A step of the subcore that moves its wrapper. -/
theorem receiver_step {s : State ℕ ℕ} {m : PmuInterrupt.Label ℕ ℕ}
    {a b : PmuInterrupt.State ℕ ℕ} (hdraining : s.draining .sub = false)
    (hs : PmuInterrupt.Step a m b) (hm : (InterruptPort.Label.wrapper m).Routine)
    (hvisit : ∀ i, (InterruptPort.Label.wrapper m).shown ≠ [.visit i (some rxEntry)])
    (htable : b.table = [rxEntry]) (hmoved : b.wrapper ≠ a.wrapper) :
    ReceiverStep smallBuild .sub (withIntr s a) (.intr .sub (.wrapper m)) (withIntr s b) := by
  have hport : (withIntr s a).intr .sub = .intmtx a := by simp [withIntr]
  have hstep := wrapper_step hport hdraining hs (InterruptPort.lift_wrapper hs hm).2 hvisit htable
  rw [withIntr_withIntr] at hstep
  refine ⟨hstep, ⟨rfl, hm⟩, fun heq => hmoved ?_⟩
  have hsame : Port.intmtx b = Port.intmtx a := by
    simpa [withIntr] using congrFun (congrArg State.intr heq) .sub
  exact congrArg PmuInterrupt.State.wrapper (Port.intmtx.inj hsame)

theorem taken_run : ∃ ks, Run (ReceiverStep smallBuild .sub) raised ks
    (served 0 false (.handler (.dispatch 0x20000000 0))) := by
  have henter : ReceiverStep smallBuild .sub raised (.intr .sub (.wrapper .enter))
      (served 0x20000000 true .entered) :=
    receiver_step rfl (.enter rfl (.inl rfl)) trivial (by simp [InterruptPort.Label.shown]) rfl
      (by simp [interrupted])
  have hread : ReceiverStep smallBuild .sub (served 0x20000000 true .entered)
      (.intr .sub (.wrapper .read)) (served 0x20000000 true (.sampled true)) :=
    receiver_step rfl (.read rfl) trivial (by simp [InterruptPort.Label.shown]) rfl
      (by simp [interrupted])
  have hclear : ReceiverStep smallBuild .sub (served 0x20000000 true (.sampled true))
      (.intr .sub (.wrapper .clear)) (served 0x20000000 false (.handler (.exchange 0))) :=
    receiver_step rfl (@PmuInterrupt.Step.clear _ _ _ _ true rfl) trivial
      (by simp [InterruptPort.Label.shown]) rfl (by simp [interrupted])
  have hretry : ReceiverStep smallBuild .sub (served 0x20000000 false (.handler (.exchange 0)))
      (.intr .sub (.wrapper (.attempt false)))
      (served 0x20000000 false (.handler (.exchange 0x20000000))) :=
    receiver_step rfl (.attempt (u := 0) false rfl) trivial
      (by simp [InterruptPort.Label.shown]) rfl (by simp [interrupted])
  have htake : ReceiverStep smallBuild .sub
      (served 0x20000000 false (.handler (.exchange 0x20000000)))
      (.intr .sub (.wrapper (.attempt false)))
      (served 0 false (.handler (.dispatch 0x20000000 0))) :=
    receiver_step rfl (.attempt (u := 0x20000000) false rfl) trivial
      (by simp [InterruptPort.Label.shown]) rfl (by simp [interrupted])
  exact ⟨_, .next henter (.next hread (.next hclear (.next hretry (.single htake))))⟩

/-- The callback was entered from the first table entry. -/
def calling : State ℕ ℕ :=
  { served 0 false (.handler (.dispatch 0x20000000 1)) with
    draining := Function.update triggered.draining .sub true }

/-- The state behind a poll of the subcore. -/
def polling (s : State ℕ ℕ) : State ℕ ℕ :=
  { s with
    sys := s.sys.exec smallPair .sub .poll,
    draining := Function.update s.draining .sub (decide (pollRet s.sys .sub = 0)) }

/-- The second poll found the queue empty. -/
def polledTwice : State ℕ ℕ := polling (polling calling)

/-- The subcore's wrapper behind its polls. -/
def resting (pending : BitVec 32) (latch : Bool) (wrapper : PmuInterrupt.Wrapper) : State ℕ ℕ :=
  withIntr polledTwice (interrupted pending latch wrapper)

def rested : State ℕ ℕ := resting 0 false .idle

theorem calling_step : ReceiverStep smallBuild .sub
    (served 0 false (.handler (.dispatch 0x20000000 0))) (.rxCallback .sub 0) calling := by
  have hvisit : PmuInterrupt.Step (interrupted 0 false (.handler (.dispatch 0x20000000 0)))
      (.visit 0 (some rxEntry)) (interrupted 0 false (.handler (.dispatch 0x20000000 1))) :=
    @PmuInterrupt.Step.visit _ _ _ _ 0x20000000 0 rxEntry rfl rfl
  have hport : InterruptPort.Step
      ((served 0 false (.handler (.dispatch 0x20000000 0))).intr .sub)
      (.wrapper (.visit 0 (some rxEntry)))
      (.intmtx (interrupted 0 false (.handler (.dispatch 0x20000000 1)))) :=
    .intmtx ⟨hvisit, by simp⟩
  have hnext : served 0 false (.handler (.dispatch 0x20000000 1)) =
      withIntr (served 0 false (.handler (.dispatch 0x20000000 0)))
        (interrupted 0 false (.handler (.dispatch 0x20000000 1))) := (withIntr_withIntr ..).symm
  refine ⟨?_, rfl, fun heq => ?_⟩
  · rw [calling, hnext]
    exact .rxCallback rfl hport rfl
  · cases congrFun (congrArg State.draining heq) .sub

theorem calling_run : ∃ ks, Run (ReceiverStep smallBuild .sub)
    (served 0 false (.handler (.dispatch 0x20000000 0))) ks polledTwice := by
  have hdraining : (polling calling).draining .sub = true := by decide +kernel
  have hdone : polledTwice.draining .sub = false := by decide +kernel
  have hpolled : ((polling calling).sys.chan .main).polled.length = 1 := by decide +kernel
  have hnone : (calling.sys.chan .main).polled.length = 0 := by decide +kernel
  have hfirst : ReceiverStep smallBuild .sub calling (.poll .sub) (polling calling) := by
    refine ⟨.poll rfl, rfl, fun heq => ?_⟩
    rw [heq, hnone] at hpolled
    cases hpolled
  have hsecond : ReceiverStep smallBuild .sub (polling calling) (.poll .sub) polledTwice := by
    refine ⟨.poll hdraining, rfl, fun heq => ?_⟩
    rw [heq, hdraining] at hdone
    cases hdone
  exact ⟨_, .next calling_step (.next hfirst (.single hsecond))⟩

theorem resting_run : ∃ ks, Run (ReceiverStep smallBuild .sub) polledTwice ks rested := by
  have hquiet : polledTwice.draining .sub = false := by decide +kernel
  have hsame : resting 0 false (.handler (.dispatch 0x20000000 1)) = polledTwice :=
    withIntr_eq_self (by simp [polledTwice, polling, calling, served, withIntr])
  have hagain : ReceiverStep smallBuild .sub (resting 0 false (.handler (.dispatch 0x20000000 1)))
      (.intr .sub (.wrapper .again)) (resting 0 false (.handler (.exchange 0))) :=
    receiver_step hquiet (.again rfl (Nat.le_refl 1)) trivial
      (by simp [InterruptPort.Label.shown]) rfl (by simp [interrupted])
  have hfinish : ReceiverStep smallBuild .sub (resting 0 false (.handler (.exchange 0)))
      (.intr .sub (.wrapper (.attempt false))) (resting 0 false (.handler .leaving)) :=
    receiver_step hquiet (.attempt (u := 0) false rfl) trivial
      (by simp [InterruptPort.Label.shown]) rfl (by simp [interrupted])
  have hret : ReceiverStep smallBuild .sub (resting 0 false (.handler .leaving))
      (.intr .sub (.wrapper .ret)) rested :=
    receiver_step hquiet (.ret rfl) trivial (by simp [InterruptPort.Label.shown]) rfl
      (by simp [interrupted])
  rw [← hsame]
  exact ⟨_, .next hagain (.next hfinish (.single hret))⟩

theorem rested_rest : Rest rested .sub where
  owed := by decide +kernel
  quiet := ⟨PmuInterrupt.disarmed_eq, rfl, rfl⟩

theorem rested_known : ∀ m ∈ (rested.sys.chan .main).polled, m.ept ≠ none := by decide +kernel

theorem drained_run : ∃ ks, Run (ReceiverStep smallBuild .sub) raised ks rested := by
  obtain ⟨ks, htaken⟩ := taken_run
  obtain ⟨ks', hcalling⟩ := calling_run
  obtain ⟨ks'', hresting⟩ := resting_run
  exact ⟨_, htaken.append (hcalling.append hresting)⟩

theorem run_of_receiver {s s' : State ℕ ℕ} {ks : List (Label ℕ ℕ)}
    (hrun : Run (ReceiverStep smallBuild .sub) s ks s') : Run (Step smallBuild) s ks s' := by
  induction hrun with
  | done s => exact .done s
  | next hs _ ih => exact .next hs.1 ih

/-- The message was polled and everything has come to rest. -/
theorem message_is_not_stranded :
    ∃ ls, Run (Step smallBuild) (smallBuild.start fun _ => 0) ls rested ∧
      Rest rested .sub ∧
      (rested.sys.chan .main).polled.map Polled.msg = (rested.sys.chan .main).sent := by
  obtain ⟨ls, hraised⟩ := raised_run
  obtain ⟨ks, hdrained⟩ := drained_run
  have hrun := hraised.append (run_of_receiver hdrained)
  exact ⟨_, hrun, rested_rest, (no_message_stranded smallBuild _ hrun .sub).2 (.inl (.inl rfl))
    rested_rest rested_known⟩

theorem message_is_drained : (raised.sys.chan .main).sent.length = 1 ∧
    ∃ ks, Run (ReceiverStep smallBuild .sub) raised ks rested ∧
      ks.length ≤ work smallBuild raised .sub ∧
      (rested.sys.chan .main).polled.map Polled.msg = (raised.sys.chan .main).sent := by
  obtain ⟨ls, hraised⟩ := raised_run
  obtain ⟨ks, hdrained⟩ := drained_run
  have howed : raised.owed .main = 0 := by decide +kernel
  obtain ⟨hlength, hcomplete⟩ := messages_drained smallBuild _ .sub (.inl rfl) hraised howed
    PmuInterrupt.disarmed_eq hdrained
  obtain ⟨intr, h, hinv⟩ := run_inv (hraised.append (run_of_receiver hdrained))
  have hatRest : AtRest smallBuild rested .sub := rested_rest.atRest h hinv trivial
  exact ⟨by decide +kernel, ks, hdrained, hlength, hcomplete hatRest rested_known⟩

end EspAmp.RpmsgBuilds
