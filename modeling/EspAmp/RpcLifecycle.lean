import EspAmp.Rpc

/-!
# The life of a server

Requests reach an initialised server from interrupts, any number of calls of
`esp_amp_rpc_server_run` serve them, and `esp_amp_rpc_server_deinit` ends it. One
step is one critical section, one operation on the queue or one access to a request
buffer, so a delivery may fall between any two steps of the deinit, and the check of
`server_cb` is apart from its operation on the queue. Every delivery has a number of
its own, also when its buffer is used again.
-/
namespace EspAmp.RpcLifecycle
open ByteMemory Rpc

/-- Where `esp_amp_rpc_server_deinit` stands. -/
inductive Deinit where
  | uncalled
  | draining
  | destroying (k : ℕ)
  | drained
  | unregistered
  | returned
deriving DecidableEq, Repr

/-- The request that the deinit has received and not given back yet. -/
def Deinit.hand : Deinit → List ℕ
  | .destroying k => [k]
  | _ => []

/-- The deinit has left its loop. -/
def Deinit.closing : Deinit → Bool
  | .drained | .unregistered | .returned => true
  | _ => false

/-- The instance has been cleared. -/
def Deinit.cleared : Deinit → Bool
  | .unregistered | .returned => true
  | _ => false

/-- Requests are in the queue, in a `server_cb` that has passed its check, in a
`server_run` that has not copied or not destroyed its request, given back, or lost. -/
structure State where
  running : Bool
  registered : Bool
  queue : List ℕ
  isr : List ℕ
  runs : List ℕ
  copied : List ℕ
  deinit : Deinit
  delivered : ℕ
  given : List ℕ
  lost : List ℕ
  stale : Bool
deriving DecidableEq, Repr

/-- The state that `esp_amp_rpc_server_init` leaves. -/
def State.start : State where
  running := true
  registered := true
  queue := []
  isr := []
  runs := []
  copied := []
  deinit := .uncalled
  delivered := 0
  given := []
  lost := []
  stale := false

inductive Op where
  | deliver
  | enqueue (k : ℕ)
  | recv
  | copy (k : ℕ)
  | destroy (k : ℕ)
  | stopRunning
  | drain
  | drainDestroy
  | unregister
  | deleteQueue
deriving DecidableEq, Repr

/-- The operation of `server_cb` on the queue. A cleared instance has neither a
queue nor a device to give the buffer back to. -/
def enqueue (os : FreeRtos) (len : ℕ) (s : State) (k : ℕ) : State :=
  if s.registered = false then { s with isr := s.isr.erase k, lost := k :: s.lost }
  else if (envQueueSend os len s.queue k).1 = 0 then
    { s with isr := s.isr.erase k, queue := (envQueueSend os len s.queue k).2 }
  else { s with isr := s.isr.erase k, given := k :: s.given }

/-- One step; `none` when it cannot be taken. No `server_run` is active while the
deinit is. -/
def exec (os : FreeRtos) (len : ℕ) (s : State) : Op → Option State
  | .deliver =>
      if s.registered = false then none
      else if s.running = false then
        some { s with lost := s.delivered :: s.lost, delivered := s.delivered + 1 }
      else some { s with isr := s.delivered :: s.isr, delivered := s.delivered + 1 }
  | .enqueue k => if k ∈ s.isr then some (enqueue os len s k) else none
  | .recv =>
      if s.deinit = .uncalled then
        match envQueueRecv os s.queue with
        | none => some s
        | some (k, queue) => some { s with queue := queue, runs := k :: s.runs }
      else none
  | .copy k =>
      if k ∈ s.runs then
        some { s with
          runs := s.runs.erase k
          copied := k :: s.copied
          stale := s.stale || decide (k ∈ s.given) }
      else none
  | .destroy k =>
      if k ∈ s.copied then
        some { s with copied := s.copied.erase k, given := k :: s.given }
      else none
  | .stopRunning =>
      if s.deinit = .uncalled ∧ s.runs = [] ∧ s.copied = [] then
        some { s with running := false, deinit := .draining }
      else none
  | .drain =>
      if s.deinit = .draining then
        match envQueueRecv os s.queue with
        | none => some { s with deinit := .drained }
        | some (k, queue) => some { s with queue := queue, deinit := .destroying k }
      else none
  | .drainDestroy =>
      match s.deinit with
      | .destroying k => some { s with deinit := .draining, given := k :: s.given }
      | _ => none
  | .unregister =>
      if s.deinit = .drained then
        some { s with registered := false, deinit := .unregistered }
      else none
  | .deleteQueue =>
      if s.deinit = .unregistered then
        some { s with queue := [], lost := s.queue ++ s.lost, deinit := .returned }
      else none

def run (os : FreeRtos) (len : ℕ) : State → List Op → Option State
  | s, [] => some s
  | s, op :: ops => (exec os len s op).bind fun t => run os len t ops

/-- A request is delivered while the server is running, and no `server_cb` is still
to use the queue when the deinit finds it empty. -/
def Quiet (s : State) : Op → Prop
  | .deliver => s.running = true
  | .drain => s.queue = [] → s.isr = []
  | _ => True

def QuietRun (os : FreeRtos) (len : ℕ) : State → List Op → Prop
  | _, [] => True
  | s, op :: ops => Quiet s op ∧ ∀ t, exec os len s op = some t → QuietRun os len t ops

/-- All places of a request. -/
def State.places (s : State) : List ℕ :=
  s.queue ++ s.isr ++ s.runs ++ s.copied ++ s.deinit.hand ++ s.given ++ s.lost

structure Inv (s : State) : Prop where
  places : s.places.Perm (List.range s.delivered)
  running : s.running = true ↔ s.deinit = .uncalled
  registered : s.registered = !s.deinit.cleared
  idle : s.deinit ≠ .uncalled → s.runs = [] ∧ s.copied = []
  deleted : s.deinit = .returned → s.queue = []
  fresh : s.stale = false

theorem start_inv : Inv State.start := by
  constructor <;> simp [State.start, State.places, Deinit.hand, Deinit.cleared]

/-- Nothing is lost, and nothing arrives behind the loop of the deinit. -/
def Tight (s : State) : Prop :=
  s.lost = [] ∧ (s.deinit.closing = true → s.isr = [] ∧ s.queue = [])

section Steps
variable {os : FreeRtos} {len : ℕ} {s t : State} {k : ℕ}

/-- What each operation does and when. -/
inductive Stepped (os : FreeRtos) (len : ℕ) (s : State) : Op → State → Prop where
  | refused (hrun : s.running = false) :
      Stepped os len s .deliver
        { s with lost := s.delivered :: s.lost, delivered := s.delivered + 1 }
  | accepted (hrun : s.running = true) :
      Stepped os len s .deliver
        { s with isr := s.delivered :: s.isr, delivered := s.delivered + 1 }
  | enqueue {k : ℕ} (hk : k ∈ s.isr) : Stepped os len s (.enqueue k) (enqueue os len s k)
  | recvEmpty : Stepped os len s .recv s
  | recv {k : ℕ} {queue : List ℕ} (hd : s.deinit = .uncalled) (hq : s.queue = k :: queue) :
      Stepped os len s .recv { s with queue := queue, runs := k :: s.runs }
  | copy {k : ℕ} (hk : k ∈ s.runs) : Stepped os len s (.copy k) { s with
      runs := s.runs.erase k
      copied := k :: s.copied
      stale := s.stale || decide (k ∈ s.given) }
  | destroy {k : ℕ} (hk : k ∈ s.copied) : Stepped os len s (.destroy k)
      { s with copied := s.copied.erase k, given := k :: s.given }
  | stopRunning (hd : s.deinit = .uncalled) (hidle : s.runs = [] ∧ s.copied = []) :
      Stepped os len s .stopRunning { s with running := false, deinit := .draining }
  | drained (hd : s.deinit = .draining) (hq : s.queue = []) :
      Stepped os len s .drain { s with deinit := .drained }
  | drain {k : ℕ} {queue : List ℕ} (hd : s.deinit = .draining) (hq : s.queue = k :: queue) :
      Stepped os len s .drain { s with queue := queue, deinit := .destroying k }
  | drainDestroy {k : ℕ} (hd : s.deinit = .destroying k) :
      Stepped os len s .drainDestroy { s with deinit := .draining, given := k :: s.given }
  | unregister (hd : s.deinit = .drained) :
      Stepped os len s .unregister { s with registered := false, deinit := .unregistered }
  | deleteQueue (hd : s.deinit = .unregistered) : Stepped os len s .deleteQueue
      { s with queue := [], lost := s.queue ++ s.lost, deinit := .returned }

theorem exec_stepped {op : Op} (ht : exec os len s op = some t) : Stepped os len s op t := by
  cases op with
  | deliver =>
      simp only [exec] at ht
      split_ifs at ht with hreg hrun
      · cases ht
        exact .refused hrun
      · cases ht
        exact .accepted (by simpa using hrun)
  | enqueue k =>
      simp only [exec] at ht
      split_ifs at ht with hk
      cases ht
      exact .enqueue hk
  | recv =>
      simp only [exec] at ht
      split_ifs at ht with hd
      cases hq : s.queue with
      | nil =>
          rw [hq, envQueueRecv_nil] at ht
          cases ht
          exact .recvEmpty
      | cons k queue =>
          rw [hq, envQueueRecv_cons] at ht
          cases ht
          exact .recv hd hq
  | copy k =>
      simp only [exec] at ht
      split_ifs at ht with hk
      cases ht
      exact .copy hk
  | destroy k =>
      simp only [exec] at ht
      split_ifs at ht with hk
      cases ht
      exact .destroy hk
  | stopRunning =>
      simp only [exec] at ht
      split_ifs at ht with hd
      cases ht
      exact .stopRunning hd.1 hd.2
  | drain =>
      simp only [exec] at ht
      split_ifs at ht with hd
      cases hq : s.queue with
      | nil =>
          rw [hq, envQueueRecv_nil] at ht
          cases ht
          rw [← hq]
          exact .drained hd hq
      | cons k queue =>
          rw [hq, envQueueRecv_cons] at ht
          cases ht
          exact .drain hd hq
  | drainDestroy =>
      cases hd : s.deinit with
      | destroying k =>
          simp only [exec, hd] at ht
          cases ht
          exact .drainDestroy hd
      | _ => simp [exec, hd] at ht
  | unregister =>
      simp only [exec] at ht
      split_ifs at ht with hd
      cases ht
      exact .unregister hd
  | deleteQueue =>
      simp only [exec] at ht
      split_ifs at ht with hd
      cases ht
      exact .deleteQueue hd

/-- A request in one place is in no other. -/
theorem Inv.not_given (h : Inv s) (hk : k ∈ s.runs) : k ∉ s.given := by
  have hnd := h.places.nodup_iff.mpr List.nodup_range
  simp only [State.places, List.nodup_append, List.mem_append] at hnd
  grind

/-- Moving requests between their places. -/
theorem Inv.move (h : Inv s) (hd : t.delivered = s.delivered)
    (hc : ∀ x, t.places.count x = s.places.count x) :
    t.places.Perm (List.range t.delivered) := by
  rw [hd]
  exact (List.perm_iff_count.mpr hc).trans h.places

/-- A new request comes to one of the places. -/
theorem Inv.arrive (h : Inv s) (hd : t.delivered = s.delivered + 1)
    (hc : ∀ x, t.places.count x = (s.delivered :: s.places).count x) :
    t.places.Perm (List.range t.delivered) := by
  have harrive : (s.delivered :: s.places).Perm (List.range (s.delivered + 1)) := by
    rw [List.range_succ]
    exact (List.perm_append_singleton s.delivered s.places).symm.trans (h.places.append_right _)
  rw [hd]
  exact (List.perm_iff_count.mpr hc).trans harrive

theorem Inv.enqueue (h : Inv s) (hk : k ∈ s.isr) : Inv (enqueue os len s k) := by
  have hcount := fun x => (List.perm_cons_erase hk).count_eq x
  simp only [List.count_cons] at hcount
  unfold RpcLifecycle.enqueue
  split_ifs with hreg hroom
  · refine ⟨h.move rfl fun x => ?_, h.running, h.registered, h.idle, h.deleted, h.fresh⟩
    simp only [State.places, List.count_append, List.count_cons, hcount x]
    omega
  · have hlt : s.queue.length < len := by
      by_contra hfull
      rw [envQueueSend_of_full os k hfull] at hroom
      cases hroom
    rw [envQueueSend_of_room os k hlt]
    refine ⟨h.move rfl fun x => ?_, h.running, h.registered, h.idle, ?_, h.fresh⟩
    · simp only [State.places, List.count_append, List.count_cons, List.count_nil, hcount x]
      omega
    · intro hret
      have hreg' := h.registered
      simp only at hret
      rw [hret] at hreg'
      exact absurd hreg' hreg
  · refine ⟨h.move rfl fun x => ?_, h.running, h.registered, h.idle, h.deleted, h.fresh⟩
    simp only [State.places, List.count_append, List.count_cons, hcount x]
    omega

theorem Inv.exec (h : Inv s) {op : Op} (ht : exec os len s op = some t) : Inv t := by
  have hreg := h.registered
  have hrun := h.running
  cases exec_stepped ht with
  | refused _ =>
      refine ⟨h.arrive rfl fun x => ?_, hrun, hreg, h.idle, h.deleted, h.fresh⟩
      simp only [State.places, List.count_append, List.count_cons]
      omega
  | accepted _ =>
      refine ⟨h.arrive rfl fun x => ?_, hrun, hreg, h.idle, h.deleted, h.fresh⟩
      simp only [State.places, List.count_append, List.count_cons]
      omega
  | enqueue hk => exact h.enqueue hk
  | recvEmpty => exact h
  | recv hd hq =>
      refine ⟨h.move rfl fun x => ?_, hrun, hreg, fun hne => absurd hd hne, ?_, h.fresh⟩
      · simp only [State.places, hq, List.count_append, List.count_cons]
        omega
      · intro hret
        rw [hd] at hret
        cases hret
  | copy hk =>
      refine ⟨h.move rfl fun x => ?_, hrun, hreg, ?_, h.deleted, ?_⟩
      · have hcount := (List.perm_cons_erase hk).count_eq x
        simp only [State.places, List.count_append, List.count_cons] at hcount ⊢
        omega
      · intro hne
        rw [(h.idle hne).1] at hk
        cases hk
      · simp [h.fresh, h.not_given hk]
  | destroy hk =>
      refine ⟨h.move rfl fun x => ?_, hrun, hreg, ?_, h.deleted, h.fresh⟩
      · have hcount := (List.perm_cons_erase hk).count_eq x
        simp only [State.places, List.count_append, List.count_cons] at hcount ⊢
        omega
      · intro hne
        rw [(h.idle hne).2] at hk
        cases hk
  | stopRunning hd hidle =>
      rw [hd] at hreg
      refine ⟨h.move rfl fun x => ?_, by simp, hreg, fun _ => hidle, by simp, h.fresh⟩
      simp [State.places, hd, Deinit.hand]
  | drained hd hq =>
      rw [hd] at hreg hrun
      refine ⟨h.move rfl fun x => ?_, by simpa using hrun, hreg, fun _ => h.idle (by simp [hd]),
        by simp, h.fresh⟩
      simp [State.places, hd, Deinit.hand]
  | drain hd hq =>
      rw [hd] at hreg hrun
      refine ⟨h.move rfl fun x => ?_, by simpa using hrun, hreg, fun _ => h.idle (by simp [hd]),
        by simp, h.fresh⟩
      simp only [State.places, hd, hq, Deinit.hand, List.count_append, List.count_cons,
        List.count_nil]
      omega
  | drainDestroy hd =>
      rw [hd] at hreg hrun
      refine ⟨h.move rfl fun x => ?_, by simpa using hrun, hreg, fun _ => h.idle (by simp [hd]),
        by simp, h.fresh⟩
      simp only [State.places, hd, Deinit.hand, List.count_append, List.count_cons,
        List.count_nil]
      omega
  | unregister hd =>
      rw [hd] at hrun
      refine ⟨h.move rfl fun x => ?_, by simpa using hrun, rfl, fun _ => h.idle (by simp [hd]),
        by simp, h.fresh⟩
      simp [State.places, hd, Deinit.hand]
  | deleteQueue hd =>
      rw [hd] at hreg hrun
      refine ⟨h.move rfl fun x => ?_, by simpa using hrun, hreg, fun _ => h.idle (by simp [hd]),
        fun _ => rfl, h.fresh⟩
      simp only [State.places, hd, Deinit.hand, List.count_append, List.count_nil]
      omega

theorem tight_enqueue (hlen : 0 < len) (h : Inv s) (hk : k ∈ s.isr) :
    Tight (enqueue os len s k) ↔ Tight s := by
  have hne : s.isr ≠ [] := List.ne_nil_of_mem hk
  unfold RpcLifecycle.enqueue
  split_ifs with hreg hroom
  · have hcl : s.deinit.closing = true := by
      have hcleared := h.registered
      rw [hreg] at hcleared
      cases hd : s.deinit with
      | unregistered => rfl
      | returned => rfl
      | _ =>
          rw [hd] at hcleared
          cases hcleared
    simp [Tight, hcl, hne]
  · have hlt : s.queue.length < len := by
      by_contra hfull
      rw [envQueueSend_of_full os k hfull] at hroom
      cases hroom
    rw [envQueueSend_of_room os k hlt]
    simp [Tight, hne]
  · have hfull : ¬ s.queue.length < len := by
      intro hlt
      rw [envQueueSend_of_room os k hlt] at hroom
      exact hroom rfl
    have hq : s.queue ≠ [] := by
      intro hq
      rw [hq] at hfull
      exact hfull hlen
    simp [Tight, hne, hq]

/-- A state is tight after a step exactly when it was before and the step is quiet. -/
theorem tight_exec (hlen : 0 < len) (h : Inv s) {op : Op} (ht : exec os len s op = some t) :
    Tight t ↔ Tight s ∧ Quiet s op := by
  cases exec_stepped ht with
  | refused hrun => simp [Tight, Quiet, hrun]
  | accepted hrun =>
      have hd := h.running.mp hrun
      simp [Tight, Quiet, hrun, hd, Deinit.closing]
  | enqueue hk =>
      rw [tight_enqueue hlen h hk]
      simp [Quiet]
  | recvEmpty => simp [Quiet]
  | recv hd hq => simp [Tight, Quiet, hd, Deinit.closing]
  | copy hk => simp [Tight, Quiet]
  | destroy hk => simp [Tight, Quiet]
  | stopRunning hd hidle => simp [Tight, Quiet, hd, Deinit.closing]
  | drained hd hq => simp [Tight, Quiet, hd, hq, Deinit.closing]
  | drain hd hq => simp [Tight, Quiet, hd, hq, Deinit.closing]
  | drainDestroy hd => simp [Tight, Quiet, hd, Deinit.closing]
  | unregister hd => simp [Tight, Quiet, hd, Deinit.closing]
  | deleteQueue hd =>
      simp only [Tight, Quiet, hd, Deinit.closing, List.append_eq_nil_iff, and_true]
      tauto

theorem run_inv {ops : List Op} (h : Inv s) (ht : run os len s ops = some t) : Inv t := by
  induction ops generalizing s with
  | nil =>
      cases ht
      exact h
  | cons op ops ih =>
      obtain ⟨u, hu, hrest⟩ := Option.bind_eq_some_iff.mp ht
      exact ih (h.exec hu) hrest

theorem run_tight {ops : List Op} (hlen : 0 < len) (h : Inv s) (ht : run os len s ops = some t) :
    Tight t ↔ Tight s ∧ QuietRun os len s ops := by
  induction ops generalizing s with
  | nil =>
      cases ht
      simp [QuietRun]
  | cons op ops ih =>
      obtain ⟨u, hu, hrest⟩ := Option.bind_eq_some_iff.mp ht
      have hquiet : QuietRun os len s (op :: ops) ↔ Quiet s op ∧ QuietRun os len u ops := by
        simp [QuietRun, hu]
      rw [hquiet, ih (h.exec hu) hrest, tight_exec hlen h hu, and_assoc]

/-- After the deinit, the requests given back are all requests exactly when nothing
leaked. -/
theorem Inv.given_iff_tight (h : Inv s) (hd : s.deinit = .returned) :
    s.given.Perm (List.range s.delivered) ↔ Tight s := by
  obtain ⟨hruns, hcopied⟩ := h.idle (by simp [hd])
  have hq := h.deleted hd
  have hplaces := h.places
  simp only [State.places, hruns, hcopied, hq, hd, Deinit.hand, List.append_nil,
    List.nil_append] at hplaces
  have hlength := hplaces.length_eq
  simp only [List.length_append] at hlength
  constructor
  · intro hg
    have := hg.length_eq
    have hisr : s.isr = [] := List.eq_nil_of_length_eq_zero (by omega)
    have hlost : s.lost = [] := List.eq_nil_of_length_eq_zero (by omega)
    exact ⟨hlost, fun _ => ⟨hisr, hq⟩⟩
  · rintro ⟨hlost, hcl⟩
    have hisr := (hcl (by simp [hd, Deinit.closing])).1
    simpa [hlost, hisr] using hplaces

end Steps

theorem start_tight : Tight State.start := ⟨rfl, fun _ => ⟨rfl, rfl⟩⟩

/-- For every kernel, every queue length and every run: no buffer is read after it was given back,
and once the deinit has returned every request buffer has been given back exactly
once, exactly when every request was delivered while the server was running and no
`server_cb` was still to use the queue when the deinit found it empty. -/
theorem buffers_given_back_iff_quiet (os : FreeRtos) (queueLen : U8) (ops : List Op) (s : State)
    (h : run os (serverQueueLen queueLen) State.start ops = some s) :
    s.stale = false ∧ (s.deinit = .returned →
      (s.given.Perm (List.range s.delivered) ↔
        QuietRun os (serverQueueLen queueLen) State.start ops)) := by
  have hinv := run_inv start_inv h
  refine ⟨hinv.fresh, fun hd => ?_⟩
  rw [hinv.given_iff_tight hd, run_tight (serverQueueLen_pos queueLen) start_inv h]
  exact and_iff_right start_tight

/-- Two requests: one is served, the other one drained. -/
def servedAndDrained : List Op :=
  [.deliver, .enqueue 0, .recv, .copy 0, .deliver, .enqueue 1, .destroy 0, .stopRunning, .drain,
    .drainDestroy, .drain, .unregister, .deleteQueue]

def servedAndDrainedEnd : State :=
  { State.start with
    running := false, registered := false, deinit := .returned, delivered := 2, given := [1, 0] }

theorem drained_request_given_back :
    servedAndDrainedEnd.given.Perm (List.range servedAndDrainedEnd.delivered) := by
  have h := buffers_given_back_iff_quiet fifoKernel 1 servedAndDrained servedAndDrainedEnd
    (by decide)
  exact (h.2 rfl).mpr (by simp [servedAndDrained, QuietRun, Quiet, exec, enqueue, State.start,
    envQueueSend, fifoKernel, serverQueueLen])

/-- A request that arrives between the first critical section of the deinit and the
last one is refused by `server_cb` and never given back. -/
theorem refused_request_leaks :
    ∃ s, run fifoKernel (serverQueueLen 4) State.start
        [.stopRunning, .deliver, .drain, .unregister, .deleteQueue] = some s ∧
      s.deinit = .returned ∧ s.delivered = 1 ∧ ¬ s.given.Perm (List.range s.delivered) := by
  refine ⟨_, rfl, rfl, rfl, ?_⟩
  decide

end EspAmp.RpcLifecycle
