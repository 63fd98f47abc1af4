import EspAmp.QueueLayout
import EspAmp.QueueTable
import EspAmp.SleepLock

/-!
# The lock in the middle of a call

Any number of subcore contexts make successful queue calls on any family of
queues. A call that takes a buffer first raises the counter, a call that gives one
away lowers it at its end, and a send runs its notify function before that, whose lock
calls are steps of their own. Triggers, event calls and the interrupt routine take the
lock as well and give it back. The main core may read the counter between any two
steps. The counter is the number of held buffers and of locks that calls in progress
hold, as long as its byte can hold that number.
-/
namespace EspAmp.SleepLock
open ByteMemory ReplyMachine Virtqueue QueueMemory SysInfo

/-- A call in progress: it has raised the counter and is about to take its buffer, or it
holds `depth` locks and has the lock calls `rest` in front of it. A call that has given a
buffer away runs its notify function so, and has the lock of that buffer besides. -/
inductive Phase (ι : Type) where
  | take (i : ι) (op : Op)
  | inside (given : Bool) (depth : ℕ) (rest : LockCalls depth)

/-- The locks that a call holds beyond its buffer. -/
def Phase.locks {ι : Type} : Phase ι → ℕ
  | .take _ _ => 1
  | .inside given depth _ => depth + given.toNat

structure Core (ι : Type) where
  lock : State ι
  calls : List (Phase ι)

/-- Locks of all calls in progress. -/
def Core.locks {ι : Type} (s : Core ι) : ℕ := (s.calls.map Phase.locks).sum

/-- The calls that take a buffer. -/
def Op.takes : Op → Bool
  | .alloc _ | .recv => true
  | .send _ _ | .free _ => false

inductive Action (ι : Type) where
  | peer (i : ι) (desc : Table)
  | enter (i : ι) (op : Op)
  | take (k : ℕ)
  | give (i : ι) (op : Op) (notify : LockCalls 0)
  | other (calls : LockCalls 0)
  | nestedEnter (k : ℕ)
  | nestedExit (k : ℕ)
  | leave (k : ℕ)
  | finish (k : ℕ)

variable {ι : Type}

theorem takes_queue {s : State ι} {i : ι} {op : Op} (hop : op.takes = true)
    (hret : (s.outcome i op).ret = espOk) :
    (s.outcome i op).queue = (s.queues i).advanceFree := by
  cases op with
  | alloc size =>
      rcases alloc_outcome (s.queues i) (s.tables i) size with ⟨-, hq, -⟩ | ⟨hfail, -, -⟩
      · exact hq
      · exact absurd hret hfail
  | recv =>
      rcases recv_outcome (s.queues i) (s.tables i) with ⟨-, hq, -⟩ | ⟨hfail, -, -⟩
      · exact hq
      · exact absurd hret hfail
  | send data size => cases hop
  | free buffer => cases hop

theorem gives_queue {s : State ι} {i : ι} {op : Op} (hop : op.takes = false)
    (hret : (s.outcome i op).ret = espOk) :
    (s.outcome i op).queue = (s.queues i).advanceUsed ∧
      (s.queues i).usedIndex ≠ (s.queues i).freeIndex := by
  cases op with
  | alloc size => cases hop
  | recv => cases hop
  | send data size =>
      have hs := (send_ret_ok_iff data size).mp hret
      exact ⟨send_queue hs, hs.2.1⟩
  | free buffer =>
      have hs := (free_ret_ok_iff buffer).mp hret
      exact ⟨free_queue hs, hs.2.1⟩

variable [DecidableEq ι]

/-- The handle and the table after a call. -/
def State.after (s : State ι) (i : ι) (op : Op) : State ι :=
  { s with queues := Function.update s.queues i (s.outcome i op).queue
           tables := Function.update s.tables i (s.outcome i op).desc }

/-- The steps of successful calls, and of other code that takes the lock in pairs. An
allocation raises the counter before it looks at the table, a receive once it has found a
message. -/
inductive Step : Core ι → Action ι → Core ι → Prop
  | peer {s : Core ι} (i : ι) (desc : Table) :
      Step s (.peer i desc)
        { s with lock := { s.lock with tables := Function.update s.lock.tables i desc } }
  | enter {s : Core ι} {i : ι} {op : Op} : op.takes = true →
      (s.lock.outcome i op).ret = espOk →
      Step s (.enter i op) ⟨{ s.lock with cnt := (skipLightSleepEnter s.lock.cnt).1 },
        .take i op :: s.calls⟩
  | take {s : Core ι} {k : ℕ} {i : ι} {op : Op} : s.calls[k]? = some (.take i op) →
      op.takes = true → (s.lock.outcome i op).ret = espOk →
      Step s (.take k) ⟨s.lock.after i op, s.calls.eraseIdx k⟩
  | give {s : Core ι} {i : ι} {op : Op} {notify : LockCalls 0} : op.takes = false →
      (s.lock.outcome i op).ret = espOk →
      Step s (.give i op notify)
        ⟨s.lock.after i op, .inside true 0 (s.lock.notifyCalls i op notify) :: s.calls⟩
  | other {s : Core ι} (calls : LockCalls 0) :
      Step s (.other calls) { s with calls := .inside false 0 calls :: s.calls }
  | nestedEnter {s : Core ι} {k depth : ℕ} {given : Bool} {rest : LockCalls (depth + 1)} :
      s.calls[k]? = some (.inside given depth (.enter rest)) →
      Step s (.nestedEnter k) ⟨{ s.lock with cnt := (skipLightSleepEnter s.lock.cnt).1 },
        s.calls.set k (.inside given (depth + 1) rest)⟩
  | nestedExit {s : Core ι} {k depth : ℕ} {given : Bool} {rest : LockCalls depth} {cnt : U8} :
      s.calls[k]? = some (.inside given (depth + 1) (.exit rest)) →
      skipLightSleepExit s.lock.cnt = some cnt →
      Step s (.nestedExit k)
        ⟨{ s.lock with cnt := cnt }, s.calls.set k (.inside given depth rest)⟩
  | leave {s : Core ι} {k : ℕ} {cnt : U8} : s.calls[k]? = some (.inside true 0 .done) →
      skipLightSleepExit s.lock.cnt = some cnt →
      Step s (.leave k) ⟨{ s.lock with cnt := cnt }, s.calls.eraseIdx k⟩
  | finish {s : Core ι} {k : ℕ} : s.calls[k]? = some (.inside false 0 .done) →
      Step s (.finish k) { s with calls := s.calls.eraseIdx k }

/-- A queue as the subcore attaches to it. -/
structure Attached where
  conf : QueueConf
  cbFunc : Option QueueCb
  privData : U32
  isMaster : Bool
  table : Table

def Core.start (a : ι → Attached) : Core ι where
  lock :=
    { queues := fun i => queueCreate (a i).conf (a i).cbFunc (a i).privData (a i).isMaster
      tables := fun i => (a i).table
      cnt := 0 }
  calls := []

variable [Fintype ι]

/-- Nothing raises the counter once 255 locks are out. -/
def Room (s : Core ι) : Action ι → Prop
  | .enter _ _ | .nestedEnter _ => held s.lock.queues + s.locks < 255
  | _ => True

/-- The counter is the number of held buffers and of locks of calls in progress. -/
def Counted (s : Core ι) : Prop := s.lock.cnt.toNat = held s.lock.queues + s.locks

omit [DecidableEq ι] in
theorem start_counted (a : ι → Attached) : Counted (Core.start a) := by
  have hzero : held (Core.start a).lock.queues = 0 := by
    refine Finset.sum_eq_zero fun i _ => ?_
    simp [Core.start, queueCreate, heldBy]
  rw [Counted, hzero]
  rfl

section Locks
variable {calls : List (Phase ι)} {k : ℕ} {p : Phase ι}

omit [DecidableEq ι] [Fintype ι]

theorem locks_eraseIdx (hk : calls[k]? = some p) :
    ((calls.eraseIdx k).map Phase.locks).sum + p.locks = (calls.map Phase.locks).sum := by
  obtain ⟨hlt, rfl⟩ := List.getElem?_eq_some_iff.mp hk
  have hsum := List.CommMonoid.add_sum_eraseIdx (l := calls.map Phase.locks) (i := k)
    (by rwa [List.length_map])
  rw [List.getElem_map, List.eraseIdx_map] at hsum
  omega

theorem locks_set (hk : calls[k]? = some p) (q : Phase ι) :
    ((calls.set k q).map Phase.locks).sum + p.locks =
      (calls.map Phase.locks).sum + q.locks := by
  have hlt := (List.getElem?_eq_some_iff.mp hk).1
  have hold := locks_eraseIdx hk
  have hnew := locks_eraseIdx (List.getElem?_set_self (a := q) hlt)
  rw [List.eraseIdx_set_eq] at hnew
  omega

end Locks

theorem step_counted {s t : Core ι} {l : Action ι} (h : Step s l t) (hroom : Room s l)
    (hs : Counted s) : Counted t := by
  have hcnt := s.lock.cnt.isLt
  unfold Counted Core.locks at hs ⊢
  cases h with
  | peer i desc => exact hs
  | enter hop hret =>
      have hlt : held s.lock.queues + (s.calls.map Phase.locks).sum < 255 := hroom
      change (skipLightSleepEnter s.lock.cnt).1.toNat =
        held s.lock.queues + (1 + (s.calls.map Phase.locks).sum)
      rw [enter_toNat (by omega)]
      omega
  | @take k i op hk hop hret =>
      have hlocks := locks_eraseIdx hk
      have hheld : held (s.lock.after i op).queues = held s.lock.queues + 1 := by
        rw [State.after, takes_queue hop hret]
        exact held_take (by omega)
      change _ + 1 = _ at hlocks
      change s.lock.cnt.toNat =
        held (s.lock.after i op).queues + ((s.calls.eraseIdx k).map Phase.locks).sum
      omega
  | @give i op notify hop hret =>
      obtain ⟨hq, hne⟩ := gives_queue hop hret
      have hheld : held (s.lock.after i op).queues + 1 = held s.lock.queues := by
        rw [State.after, hq]
        exact held_give hne
      change s.lock.cnt.toNat =
        held (s.lock.after i op).queues + (0 + 1 + (s.calls.map Phase.locks).sum)
      omega
  | other calls =>
      change s.lock.cnt.toNat = held s.lock.queues + (0 + 0 + (s.calls.map Phase.locks).sum)
      omega
  | @nestedEnter k depth given rest hk =>
      have hlt : held s.lock.queues + (s.calls.map Phase.locks).sum < 255 := hroom
      have hlocks := locks_set hk (.inside given (depth + 1) rest)
      change _ + (depth + given.toNat) = _ + (depth + 1 + given.toNat) at hlocks
      change (skipLightSleepEnter s.lock.cnt).1.toNat = held s.lock.queues +
        ((s.calls.set k (.inside given (depth + 1) rest)).map Phase.locks).sum
      rw [enter_toNat (by omega)]
      omega
  | @nestedExit k depth given rest cnt hk hexit =>
      have hlocks := locks_set hk (.inside given depth rest)
      change _ + (depth + 1 + given.toNat) = _ + (depth + given.toNat) at hlocks
      have hexit := exit_toNat hexit
      change cnt.toNat = held s.lock.queues +
        ((s.calls.set k (.inside given depth rest)).map Phase.locks).sum
      omega
  | @leave k cnt hk hexit =>
      have hlocks := locks_eraseIdx hk
      change _ + (0 + 1) = _ at hlocks
      have hexit := exit_toNat hexit
      change cnt.toNat = held s.lock.queues + ((s.calls.eraseIdx k).map Phase.locks).sum
      omega
  | @finish k hk =>
      have hlocks := locks_eraseIdx hk
      change _ + (0 + 0) = _ at hlocks
      change s.lock.cnt.toNat = held s.lock.queues + ((s.calls.eraseIdx k).map Phase.locks).sum
      omega

/-- For any family of queues and any run of successful queue calls and of other code that
takes the lock in pairs, in which nothing takes it while 255 locks are out, the main core
is told to stay awake whenever the subcore holds a buffer, and may sleep when it holds none
and no call is in progress. -/
theorem awake_while_buffers_held (a : ι → Attached) (ls : List (Action ι)) (s : Core ι)
    (hrun : Run (fun s l t => Step s l t ∧ Room s l) (Core.start a) ls s) :
    (0 < held s.lock.queues → maincoreCheckLsCtrl s.lock.cnt = true) ∧
      (held s.lock.queues = 0 → s.calls = [] → maincoreCheckLsCtrl s.lock.cnt = false) := by
  have hcounted : Counted s :=
    Run.invariant (P := Counted) (fun _ _ _ hst hs => step_counted hst.1 hst.2 hs) hrun
      (start_counted a)
  unfold Counted Core.locks at hcounted
  constructor
  · intro hpos
    have hlt : 0 < s.lock.cnt := by bv_omega
    exact decide_eq_true hlt
  · intro hzero hcalls
    rw [hzero, hcalls] at hcounted
    have hcnt : s.lock.cnt = 0 := BitVec.eq_of_toNat_eq hcounted
    rw [hcnt]
    rfl

/-- The queue of `sendingQueue`, newly attached. -/
def fourItems : Attached :=
  ⟨⟨4, 16, 0x1000, 0x2000⟩, some fun _ => espOk, 0, true, sendingQueue.tables ()⟩

/-- The first of two buffers is being sent, and the main core reads the counter while
the notify function triggers. -/
theorem one_buffer_keeps_awake : ∃ s,
    Run (fun s l t => Step s l t ∧ Room s l) (Core.start fun _ : Unit => fourItems)
      [.enter () (.alloc 16), .take 0, .enter () (.alloc 16), .take 0,
        .give () (.send 0x1000 16) swIntrTrigger, .nestedEnter 0] s ∧
    0 < held s.lock.queues ∧ maincoreCheckLsCtrl s.lock.cnt = true := by
  have hrun : ∃ s, Run (fun s l t => Step s l t ∧ Room s l)
      (Core.start fun _ : Unit => fourItems)
      [.enter () (.alloc 16), .take 0, .enter () (.alloc 16), .take 0,
        .give () (.send 0x1000 16) swIntrTrigger, .nestedEnter 0] s ∧
      0 < held s.lock.queues :=
    ⟨_, .next ⟨.enter rfl rfl, show _ < _ by decide⟩ (.next ⟨.take rfl rfl rfl, trivial⟩
      (.next ⟨.enter rfl rfl, show _ < _ by decide⟩ (.next ⟨.take rfl rfl rfl, trivial⟩
        (.next ⟨.give rfl rfl, trivial⟩ (.single ⟨.nestedEnter rfl, show _ < _ by decide⟩))))),
      by decide⟩
  obtain ⟨s, hs, hheld⟩ := hrun
  exact ⟨s, hs, hheld, (awake_while_buffers_held _ _ s hs).1 hheld⟩

section Wrap
variable {q : Queue} {table : Table}

/-- A new handle of 256 items of four bytes on which the subcore sends. -/
structure Long (q : Queue) : Prop where
  master : q.master = true
  size : q.size = 256
  item : q.maxItemSize = 4
  free : q.freeIndex = 0
  used : q.usedIndex = 0
  flip : q.freeFlipCounter = 1

theorem grabbed_spec (hq : Long q) {k : ℕ} (hk : k < 256) :
    (Queue.advanceFree^[k] q).freeIndex = BitVec.ofNat 16 k ∧
      (Queue.advanceFree^[k] q).freeFlipCounter = 1 ∧ (Queue.advanceFree^[k] q).size = 256 ∧
      (Queue.advanceFree^[k] q).master = true ∧ (Queue.advanceFree^[k] q).maxItemSize = 4 := by
  induction k with
  | zero => exact ⟨hq.free, hq.flip, hq.size, hq.master, hq.item⟩
  | succ k ih =>
      obtain ⟨hfree, hflip, hsize, hmaster, hitem⟩ := ih (by omega)
      rw [Function.iterate_succ_apply']
      have hidx : (Queue.advanceFree^[k] q).qIdx (Queue.advanceFree^[k] q).freeIndex = k := by
        rw [Queue.qIdx, hfree, hsize, BitVec.toNat_and, BitVec.toNat_ofNat,
          Nat.mod_eq_of_lt (by omega)]
        exact (Nat.and_two_pow_sub_one_eq_mod k 8).trans (Nat.mod_eq_of_lt (by omega))
      refine ⟨?_, ?_, hsize, hmaster, hitem⟩
      · rw [BitVec.ofNat_add, ← hfree]
        rfl
      · rw [Queue.advanceFree, hidx, hsize, if_neg, hflip]
        have hnat : (256 : U16).toNat = 256 := rfl
        omega

theorem heldBy_grabbed (hq : Long q) {k : ℕ} (hk : k ≤ 256) :
    heldBy (Queue.advanceFree^[k] q) = k := by
  induction k with
  | zero => simp [heldBy, hq.free, hq.used]
  | succ k ih =>
      have hlast := ih (by omega)
      rw [Function.iterate_succ_apply', heldBy_advanceFree (by omega), hlast]

/-- The subcore after so many allocations. -/
def grabbing (q : Queue) (table : Table) (k : ℕ) : Core Unit where
  lock :=
    { queues := fun _ => Queue.advanceFree^[k] q
      tables := fun _ => table
      cnt := BitVec.ofNat 8 k }
  calls := []

theorem grab_step (hq : Long q) (hflags : ∀ i < 256, (table i).flags = 0) {k : ℕ} (hk : k < 256) :
    Run Step (grabbing q table k) [.enter () (.alloc 4), .take 0] (grabbing q table (k + 1)) := by
  obtain ⟨hfree, hflip, hsize, hmaster, hitem⟩ := grabbed_spec hq hk
  have hidx : (Queue.advanceFree^[k] q).qIdx (Queue.advanceFree^[k] q).freeIndex < 256 := by
    rw [Queue.qIdx, hsize, BitVec.toNat_and]
    exact lt_of_le_of_lt Nat.and_le_right (by decide)
  have hout : queueAllocTry (Queue.advanceFree^[k] q) table 4 =
      { ret := espOk
        buffer := (table ((Queue.advanceFree^[k] q).qIdx (Queue.advanceFree^[k] q).freeIndex)).addr
        queue := (Queue.advanceFree^[k] q).advanceFree
        desc := table
        slots := [(Queue.advanceFree^[k] q).qIdx (Queue.advanceFree^[k] q).freeIndex]
        pm := [.enter] } := by
    simp [queueAllocTry, hmaster, hitem, hflip, hflags _ hidx, flagIsUsed, availableMask, usedMask]
  have hunit {α : Type} (f : Unit → α) (x : α) : Function.update f () x = fun _ => x := by
    funext u
    exact Function.update_self ..
  have hafter : (⟨fun _ => Queue.advanceFree^[k] q, fun _ => table, BitVec.ofNat 8 k + 1⟩ :
      State Unit).after () (.alloc 4) = (grabbing q table (k + 1)).lock := by
    simp only [State.after, State.outcome, Op.outcome, hout, hunit, grabbing,
      Function.iterate_succ_apply', BitVec.ofNat_add]
    rfl
  have htake : Step (⟨⟨fun _ => Queue.advanceFree^[k] q, fun _ => table, BitVec.ofNat 8 k + 1⟩,
      [.take () (.alloc 4)]⟩ : Core Unit) (.take 0) (grabbing q table (k + 1)) := by
    have hstep := Step.take (s := ⟨⟨fun _ => Queue.advanceFree^[k] q, fun _ => table,
      BitVec.ofNat 8 k + 1⟩, [.take () (.alloc 4)]⟩) (k := 0) rfl rfl (congrArg Outcome.ret hout)
    rw [hafter] at hstep
    exact hstep
  exact .next (.enter rfl (congrArg Outcome.ret hout)) (.single htake)

theorem grab_run (hq : Long q) (hflags : ∀ i < 256, (table i).flags = 0) {k : ℕ} (hk : k ≤ 256) :
    ∃ ls, Run Step (grabbing q table 0) ls (grabbing q table k) := by
  induction k with
  | zero => exact ⟨[], .done _⟩
  | succ k ih =>
      obtain ⟨ls, hls⟩ := ih (by omega)
      exact ⟨_, hls.append (grab_step hq hflags (by omega))⟩

theorem held_grabbing (hq : Long q) {k : ℕ} (hk : k ≤ 256) :
    held (grabbing q table k).lock.queues = k := by
  rw [held, Fintype.sum_unique]
  exact heldBy_grabbed hq hk

end Wrap

/-- ESP32-C6 with light sleep. -/
def sleepBuild : Build := ⟨c6Defaults, true, 32⟩

/-- The main core initializes a queue of 256 words on which it receives. -/
theorem long_queue_admitted : ∃ res a m,
    queueMainInit sleepBuild 1 (SysInfo.State.start c6Defaults fun _ => 0).mem 256 4 none 0 false
      3 = some res ∧ res.ret = espOk ∧ res.areas = [a] ∧ res.mem = initBuffer a m ∧
      a.len = 256 ∧ a.itemSize = 4 ∧ Apart a.conf 12 a.desc (8 * a.len.toNat) := by
  obtain ⟨res, hres, hok⟩ : ∃ res, queueMainInit sleepBuild 1
      (SysInfo.State.start c6Defaults fun _ => 0).mem 256 4 none 0 false 3 = some res ∧
      res.ret = espOk := ⟨_, rfl, rfl⟩
  have hinit := hres
  simp only [queueMainInit, show getPowerLen sleepBuild.clzZero 256 = 256 from rfl,
    show getAlignedSize 4 = 4 from rfl, Bool.and_false] at hinit
  rw [if_neg (by decide), if_neg (by decide)] at hinit
  obtain ⟨vq, m, r, -, -, hk, -, rfl⟩ := allocOr_eq (by decide) hinit hok
  obtain rfl := Option.some.inj hk
  have h₀ : vq = vq + BitVec.ofNat 32 0 := by simp
  have hap : Apart vq 12 (vq + 12#32) 2048 := by
    have h := apart_of_offsets (a := vq) (i := 0) (n := 12) (j := 12) (k := 2048) (by decide)
      (by decide)
    rwa [← h₀] at h
  exact ⟨_, _, m, hres, hok, rfl, rfl, rfl, rfl, hap⟩

/-- The main core may sleep once the subcore has allocated all the items of such a
queue. -/
theorem full_queue_lets_maincore_sleep : ∃ res a,
    queueMainInit sleepBuild 1 (SysInfo.State.start c6Defaults fun _ => 0).mem 256 4 none 0 false
      3 = some res ∧ res.ret = espOk ∧ res.areas = [a] ∧
    ∃ ls s, Run Step (Core.start fun _ : Unit =>
        ⟨confAt res.mem a.conf, none, 0, true, descAt res.mem a.desc⟩) ls s ∧
      0 < held s.lock.queues ∧ maincoreCheckLsCtrl s.lock.cnt = false := by
  obtain ⟨res, a, m, hres, hok, hareas, hmem, hlen, hitem, hap⟩ := long_queue_admitted
  obtain ⟨hconf, hdesc, -⟩ := initBuffer_spec a m hap fun _ => ⟨0, 0, 0⟩
  have hlong : Long (queueCreate (confAt res.mem a.conf) none 0 true) := by
    rw [hmem, hconf]
    exact ⟨rfl, hlen, hitem, rfl, rfl, rfl⟩
  have hflags (i : ℕ) (hi : i < 256) : (descAt res.mem a.desc i).flags = 0 := by
    have hlen' : a.len.toNat = 256 := by rw [hlen]; rfl
    rw [hmem, hdesc i (by omega), queueInitBuffer]
    simp only [initDescs_apply]
    rw [if_pos (by omega)]
  obtain ⟨ls, hls⟩ := grab_run hlong hflags le_rfl
  refine ⟨res, a, hres, hok, hareas, ls, _, hls, ?_, rfl⟩
  rw [held_grabbing hlong le_rfl]
  decide

end EspAmp.SleepLock
