import EspAmp.ByteMemory
import EspAmp.ReplyMachine
import EspAmp.Virtqueue
import Mathlib.Algebra.Order.BigOperators.Group.Finset
import Mathlib.Data.Fintype.BigOperators

/-!
# The light-sleep lock of the subcore

`lp_access_hp_cnt` is one byte that counts the requests of the subcore to keep the
main core awake. The queue calls move it: an allocation takes the lock at its
entry and gives it back when it fails, a receive takes it once it has found a
message, while send and free give it back on every path. The notify function of a send
runs before that and triggers an interrupt, which takes the lock once more. A handle
itself tells how many buffers its core holds, as the distance of its two indices. The
first part compares the counter with that number after every call, the second one also
in the middle of the calls.
-/
namespace EspAmp.SleepLock
open ByteMemory ReplyMachine Virtqueue

/-- The critical section of `esp_amp_system_pm_subcore_skip_light_sleep_enter`:
the counter, and whether a trigger is needed. -/
def skipLightSleepEnter (cnt : U8) : U8 × Bool := (cnt + 1, cnt == 0)

/-- `esp_amp_system_pm_subcore_skip_light_sleep_exit`; `none` is its assertion. -/
def skipLightSleepExit (cnt : U8) : Option U8 := if 0 < cnt then some (cnt - 1) else none

/-- `esp_amp_system_pm_maincore_check_ls_ctrl`. -/
def maincoreCheckLsCtrl (cnt : U8) : Bool := decide (0 < cnt)

/-- The lock calls of one queue call. -/
def runPm : List PmCall → U8 → Option U8
  | [], cnt => some cnt
  | .enter :: rest, cnt => runPm rest (skipLightSleepEnter cnt).1
  | .exit :: rest, cnt =>
      match skipLightSleepExit cnt with
      | none => none
      | some cnt => runPm rest cnt

/-- The lock calls that a function still makes while it holds `depth` locks of its own.
It gives back every lock that it takes. -/
inductive LockCalls : ℕ → Type
  | done : LockCalls 0
  | enter {depth : ℕ} (rest : LockCalls (depth + 1)) : LockCalls depth
  | exit {depth : ℕ} (rest : LockCalls depth) : LockCalls (depth + 1)

def LockCalls.pm {depth : ℕ} : LockCalls depth → List PmCall
  | .done => []
  | .enter rest => .enter :: rest.pm
  | .exit rest => .exit :: rest.pm

/-- The most locks that the remaining calls add to those held now. -/
def LockCalls.peak {depth : ℕ} : LockCalls depth → ℕ
  | .done => 0
  | .enter rest => rest.peak + 1
  | .exit rest => rest.peak - 1

/-- `esp_amp_sw_intr_trigger`, which is what the notify functions of the component call. -/
def swIntrTrigger : LockCalls 0 := .enter (.exit .done)

inductive Op where
  | alloc (size : U16)
  | send (data : U32) (size : U16)
  | recv
  | free (buffer : U32)
deriving DecidableEq, Repr

def Op.outcome (q : Queue) (desc : Table) : Op → Outcome
  | .alloc size => queueAllocTry q desc size
  | .send data size => queueSendTry q desc data size
  | .recv => queueRecvTry q desc
  | .free buffer => queueFreeTry q desc buffer

/-- Buffers taken through a handle and not yet handed over: the code tells them
from the same two indices. -/
def heldBy (q : Queue) : ℕ := (q.freeIndex - q.usedIndex).toNat

/-- A send that meets none of its error branches. -/
def SendSucceeds (q : Queue) (desc : Table) (size : U16) : Prop :=
  q.master = true ∧ q.usedIndex ≠ q.freeIndex ∧ ¬ q.maxItemSize < size ∧
    flagIsUsed q.usedFlipCounter (desc (q.qIdx q.usedIndex)).flags = true ∧ q.notify = espOk

/-- A free that meets none of its error branches. -/
def FreeSucceeds (q : Queue) (desc : Table) : Prop :=
  q.master = false ∧ q.usedIndex ≠ q.freeIndex ∧
    flagIsAvailable q.usedFlipCounter (desc (q.qIdx q.usedIndex)).flags = true

instance (q : Queue) (desc : Table) (size : U16) : Decidable (SendSucceeds q desc size) :=
  inferInstanceAs (Decidable (_ ∧ _))

instance (q : Queue) (desc : Table) : Decidable (FreeSucceeds q desc) :=
  inferInstanceAs (Decidable (_ ∧ _))

section Outcomes
variable {q : Queue} {desc : Table}

theorem alloc_outcome (q : Queue) (desc : Table) (size : U16) :
    ((queueAllocTry q desc size).ret = espOk ∧
        (queueAllocTry q desc size).queue = q.advanceFree ∧
        (queueAllocTry q desc size).pm = [.enter]) ∨
      ((queueAllocTry q desc size).ret ≠ espOk ∧ (queueAllocTry q desc size).queue = q ∧
        (queueAllocTry q desc size).pm = [.enter, .exit]) := by
  simp only [queueAllocTry]
  split_ifs
  · exact Or.inr ⟨by simp, rfl, rfl⟩
  · exact Or.inr ⟨by simp, rfl, rfl⟩
  · exact Or.inr ⟨by simp, rfl, rfl⟩
  · exact Or.inl ⟨rfl, rfl, rfl⟩

theorem recv_outcome (q : Queue) (desc : Table) :
    ((queueRecvTry q desc).ret = espOk ∧ (queueRecvTry q desc).queue = q.advanceFree ∧
        (queueRecvTry q desc).pm = [.enter]) ∨
      ((queueRecvTry q desc).ret ≠ espOk ∧ (queueRecvTry q desc).queue = q ∧
        (queueRecvTry q desc).pm = []) := by
  simp only [queueRecvTry]
  split_ifs
  · exact Or.inr ⟨by simp, rfl, rfl⟩
  · exact Or.inr ⟨by simp, rfl, rfl⟩
  · exact Or.inl ⟨rfl, rfl, rfl⟩

theorem send_pm (data : U32) (size : U16) : (queueSendTry q desc data size).pm = [.exit] := by
  simp only [queueSendTry]
  split_ifs <;> rfl

theorem free_pm (buffer : U32) : (queueFreeTry q desc buffer).pm = [.exit] := by
  simp only [queueFreeTry]
  split_ifs <;> rfl

theorem alloc_notified (size : U16) : (queueAllocTry q desc size).notified = false := by
  simp only [queueAllocTry]
  split_ifs <;> rfl

theorem recv_notified : (queueRecvTry q desc).notified = false := by
  simp only [queueRecvTry]
  split_ifs <;> rfl

theorem free_notified (buffer : U32) : (queueFreeTry q desc buffer).notified = false := by
  simp only [queueFreeTry]
  split_ifs <;> rfl

theorem send_ret_ok_iff (data : U32) (size : U16) :
    (queueSendTry q desc data size).ret = espOk ↔ SendSucceeds q desc size := by
  simp only [queueSendTry, SendSucceeds]
  split_ifs with hm hi hs hf
  · simp_all
  · simp_all
  · simp_all
  · simp_all
  · simp_all

theorem free_ret_ok_iff (buffer : U32) :
    (queueFreeTry q desc buffer).ret = espOk ↔ FreeSucceeds q desc := by
  simp only [queueFreeTry, FreeSucceeds]
  split_ifs with hm hi hf
  · simp_all
  · simp_all
  · simp_all
  · simp_all

theorem send_queue {data : U32} {size : U16} (h : SendSucceeds q desc size) :
    (queueSendTry q desc data size).queue = q.advanceUsed := by
  obtain ⟨hm, hi, hs, hf, -⟩ := h
  simp [queueSendTry, hm, hi, hs, hf]

theorem send_notified {data : U32} {size : U16} (h : SendSucceeds q desc size) :
    (queueSendTry q desc data size).notified = q.notifyFc.isSome := by
  obtain ⟨hm, hi, hs, hf, -⟩ := h
  simp [queueSendTry, hm, hi, hs, hf]

theorem free_queue {buffer : U32} (h : FreeSucceeds q desc) :
    (queueFreeTry q desc buffer).queue = q.advanceUsed := by
  obtain ⟨hm, hi, hf⟩ := h
  simp [queueFreeTry, hm, hi, hf]

theorem heldBy_advanceFree (h : heldBy q < 65535) : heldBy q.advanceFree = heldBy q + 1 := by
  have hsum : q.advanceFree.freeIndex - q.advanceFree.usedIndex =
      (q.freeIndex - q.usedIndex) + 1 := by
    simp only [Queue.advanceFree]
    bv_omega
  unfold heldBy at h ⊢
  rw [hsum, BitVec.toNat_add]
  exact Nat.mod_eq_of_lt (Nat.add_lt_add_right h 1)

theorem heldBy_advanceUsed (h : q.usedIndex ≠ q.freeIndex) :
    heldBy q.advanceUsed + 1 = heldBy q := by
  simp only [heldBy, Queue.advanceUsed]
  bv_omega

end Outcomes

section Counter
variable {cnt : U8}

theorem enter_toNat (h : cnt.toNat < 255) :
    (skipLightSleepEnter cnt).1.toNat = cnt.toNat + 1 := by
  rw [skipLightSleepEnter, BitVec.toNat_add]
  exact Nat.mod_eq_of_lt (Nat.add_lt_add_right h 1)

theorem exit_of_pos (h : 0 < cnt.toNat) :
    ∃ cnt', skipLightSleepExit cnt = some cnt' ∧ cnt'.toNat + 1 = cnt.toNat := by
  have hlt : 0 < cnt := by bv_omega
  refine ⟨cnt - 1, if_pos hlt, ?_⟩
  bv_omega

/-- Where the assertion holds, the counter goes down by one. -/
theorem exit_toNat {cnt' : U8} (h : skipLightSleepExit cnt = some cnt') :
    cnt'.toNat + 1 = cnt.toNat := by
  unfold skipLightSleepExit at h
  split_ifs at h with hpos
  obtain rfl := Option.some.inj h
  bv_omega

/-- The lock is never given back without moving the counter. -/
theorem exit_ne (cnt : U8) : skipLightSleepExit cnt ≠ some cnt := by
  unfold skipLightSleepExit
  split_ifs with h
  · intro heq
    have := Option.some.inj heq
    bv_omega
  · exact Option.some_ne_none _ ∘ Eq.symm

@[simp] theorem runPm_enter : runPm [.enter] cnt = some (skipLightSleepEnter cnt).1 := rfl

theorem runPm_exit_cons (rest : List PmCall) (cnt : U8) :
    runPm (.exit :: rest) cnt = (skipLightSleepExit cnt).bind (runPm rest) := by
  rw [runPm]
  cases skipLightSleepExit cnt <;> rfl

@[simp] theorem runPm_exit : runPm [.exit] cnt = skipLightSleepExit cnt := by
  rw [runPm_exit_cons]
  exact Option.bind_fun_some _

theorem runPm_enter_exit :
    runPm [.enter, .exit] cnt = if cnt.toNat < 255 then some cnt else none := by
  have hcnt := cnt.isLt
  have hexit : runPm [.enter, .exit] cnt = skipLightSleepExit (cnt + 1) := runPm_exit
  rw [hexit, skipLightSleepExit]
  split_ifs with h₁ h₂ h₂
  · rw [BitVec.add_sub_cancel]
  · bv_omega
  · bv_omega
  · rfl

theorem runPm_append (first second : List PmCall) (cnt : U8) :
    runPm (first ++ second) cnt = (runPm first cnt).bind (runPm second) := by
  induction first generalizing cnt with
  | nil => rfl
  | cons call first ih =>
      cases call with
      | enter => exact ih _
      | exit =>
          rw [List.cons_append, runPm_exit_cons, runPm_exit_cons, Option.bind_assoc]
          exact congrArg _ (funext ih)

/-- Below the locks that are still to be given back the assertion fires. -/
theorem LockCalls.run_below {depth : ℕ} (calls : LockCalls depth) (h : cnt.toNat < depth) :
    runPm calls.pm cnt = none := by
  induction calls generalizing cnt with
  | done => exact absurd h (Nat.not_lt_zero _)
  | enter rest ih =>
      refine ih ?_
      change (cnt + 1).toNat < _
      bv_omega
  | exit rest ih =>
      rw [LockCalls.pm, runPm_exit_cons, skipLightSleepExit]
      split_ifs with hpos
      · exact ih (by bv_omega)
      · rfl

/-- The calls come back to the counter that they found, without the locks they had, as
long as the byte can hold all they take on the way. -/
theorem LockCalls.run_eq {depth : ℕ} (calls : LockCalls depth) (h : depth ≤ cnt.toNat) :
    runPm calls.pm cnt =
      if cnt.toNat + calls.peak ≤ 255 then some (cnt - BitVec.ofNat 8 depth) else none := by
  induction calls generalizing cnt with
  | done =>
      have hcnt := cnt.isLt
      rw [BitVec.sub_zero]
      exact (if_pos (show cnt.toNat + 0 ≤ 255 by omega)).symm
  | @enter depth rest ih =>
      have hcnt := cnt.isLt
      change runPm rest.pm (cnt + 1) = if cnt.toNat + (rest.peak + 1) ≤ 255 then _ else _
      by_cases hfull : cnt.toNat = 255
      · rw [rest.run_below (by bv_omega), if_neg (by omega)]
      · have hnat : (cnt + 1).toNat = cnt.toNat + 1 := enter_toNat (by omega)
        rw [ih (by omega), hnat, BitVec.ofNat_add]
        split_ifs
        · congr 1
          bv_omega
        · omega
        · omega
        · rfl
  | @exit depth rest ih =>
      have hcnt := cnt.isLt
      obtain ⟨cnt', hexit, hnat⟩ := exit_of_pos (show 0 < cnt.toNat by omega)
      have hsub : cnt' = cnt - 1 := by bv_omega
      have hrun : runPm (LockCalls.exit rest).pm cnt = runPm rest.pm cnt' := by
        rw [LockCalls.pm, runPm_exit_cons, hexit, Option.bind_some]
      change _ = if cnt.toNat + (rest.peak - 1) ≤ 255 then _ else _
      rw [hrun, ih (by omega), BitVec.ofNat_add]
      split_ifs
      · congr 1
        bv_omega
      · omega
      · omega
      · rfl

end Counter

variable {ι : Type} [DecidableEq ι] [Fintype ι]

/-- The handles of the subcore, the tables they refer to, and the counter. -/
structure State (ι : Type) where
  queues : ι → Queue
  tables : ι → Table
  cnt : U8

/-- Buffers that the subcore holds. -/
def held (queues : ι → Queue) : ℕ := ∑ i, heldBy (queues i)

/-- The main core may leave anything in a table between two calls. A call carries the
lock calls that the notify function would make in it. -/
inductive Label (ι : Type) where
  | peer (i : ι) (desc : Table)
  | call (i : ι) (op : Op) (notify : LockCalls 0)

def State.outcome (s : State ι) (i : ι) (op : Op) : Outcome := op.outcome (s.queues i) (s.tables i)

/-- The lock calls of the notify function, when the call gets that far. -/
def State.notifyCalls (s : State ι) (i : ι) (op : Op) (notify : LockCalls 0) : LockCalls 0 :=
  if (s.outcome i op).notified then notify else .done

/-- All lock calls of one queue call. The notify function runs in front of the exit. -/
def State.pm (s : State ι) (i : ι) (op : Op) (notify : LockCalls 0) : List PmCall :=
  (s.notifyCalls i op notify).pm ++ (s.outcome i op).pm

/-- One step; `none` is the assertion of the exit function. -/
def exec (s : State ι) : Label ι → Option (State ι)
  | .peer i desc => some { s with tables := Function.update s.tables i desc }
  | .call i op notify =>
      match runPm (s.pm i op notify) s.cnt with
      | none => none
      | some cnt =>
          some { queues := Function.update s.queues i (s.outcome i op).queue
                 tables := Function.update s.tables i (s.outcome i op).desc
                 cnt := cnt }

/-- By exactly one: up for an allocation or a receive, down for a send or a free. -/
def Moved (op : Op) (old new : ℕ) : Prop :=
  match op with
  | .alloc _ | .recv => new = old + 1
  | .send _ _ | .free _ => new + 1 = old

/-- A call returns, moves the counter by one when it succeeds, and leaves it alone
when it fails. -/
def LockLaw (s : State ι) : Label ι → Prop
  | .peer _ _ => True
  | .call i op notify => ∃ t, exec s (.call i op notify) = some t ∧
      ((s.outcome i op).ret = espOk → Moved op s.cnt.toNat t.cnt.toNat) ∧
      ((s.outcome i op).ret ≠ espOk → t.cnt = s.cnt)

/-- Along the whole sequence the counter is the number of buffers held and every
call follows the law. -/
def Balanced : State ι → List (Label ι) → Prop
  | s, [] => s.cnt.toNat = held s.queues
  | s, l :: ls => s.cnt.toNat = held s.queues ∧ LockLaw s l ∧
      ∀ t, exec s l = some t → Balanced t ls

/-- At most so many buffers are held in every state of the sequence. -/
def AtMost (n : ℕ) : State ι → List (Label ι) → Prop
  | s, [] => held s.queues ≤ n
  | s, l :: ls => held s.queues ≤ n ∧ ∀ t, exec s l = some t → AtMost n t ls

/-- Sends and frees are called when they succeed, no allocation is tried while 255
buffers are held, and a notify function finds room for the locks it takes. -/
def Ready (s : State ι) : Label ι → Prop
  | .peer _ _ => True
  | .call _ (.alloc _) _ => held s.queues < 255
  | .call _ .recv _ => True
  | .call i (.send _ size) notify =>
      SendSucceeds (s.queues i) (s.tables i) size ∧
        ((s.queues i).notifyFc.isSome = true → held s.queues + notify.peak ≤ 255)
  | .call i (.free _) _ => FreeSucceeds (s.queues i) (s.tables i)

def AllReady : State ι → List (Label ι) → Prop
  | _, [] => True
  | s, l :: ls => Ready s l ∧ ∀ t, exec s l = some t → AllReady t ls

section Family
variable {queues : ι → Queue} {i : ι}

omit [DecidableEq ι] in
theorem heldBy_le (queues : ι → Queue) (i : ι) : heldBy (queues i) ≤ held queues :=
  Finset.single_le_sum (f := fun j => heldBy (queues j)) (fun _ _ => Nat.zero_le _)
    (Finset.mem_univ i)

theorem held_update (queues : ι → Queue) (i : ι) (q : Queue) :
    held (Function.update queues i q) + heldBy (queues i) = held queues + heldBy q := by
  have hcomp : (fun j => heldBy (Function.update queues i q j)) =
      Function.update (fun j => heldBy (queues j)) i (heldBy q) := by
    funext j
    exact Function.apply_update (fun _ => heldBy) queues i q j
  have hnew : held (Function.update queues i q) =
      heldBy q + ∑ j ∈ Finset.univ \ {i}, heldBy (queues j) := by
    rw [held, hcomp, Finset.sum_update_of_mem (Finset.mem_univ i)]
  have hold : held queues = heldBy (queues i) + ∑ j ∈ Finset.univ \ {i}, heldBy (queues j) := by
    rw [held, ← Finset.erase_eq]
    exact (Finset.add_sum_erase _ _ (Finset.mem_univ i)).symm
  omega

theorem held_take (h : held queues < 65535) :
    held (Function.update queues i (queues i).advanceFree) = held queues + 1 := by
  have hle := heldBy_le queues i
  have hadd := held_update queues i (queues i).advanceFree
  rw [heldBy_advanceFree (by omega)] at hadd
  omega

theorem held_give (h : (queues i).usedIndex ≠ (queues i).freeIndex) :
    held (Function.update queues i (queues i).advanceUsed) + 1 = held queues := by
  have hadd := held_update queues i (queues i).advanceUsed
  have hgive := heldBy_advanceUsed h
  omega

end Family

section Calls
variable {s t : State ι} {i : ι} {op : Op} {notify : LockCalls 0}

omit [DecidableEq ι] [Fintype ι] in
theorem run_pm (s : State ι) (i : ι) (op : Op) (notify : LockCalls 0) :
    runPm (s.pm i op notify) s.cnt =
      if s.cnt.toNat + (s.notifyCalls i op notify).peak ≤ 255 then
        runPm (s.outcome i op).pm s.cnt
      else none := by
  rw [State.pm, runPm_append, LockCalls.run_eq _ (Nat.zero_le _)]
  split_ifs
  · rw [Option.bind_some, BitVec.sub_zero]
  · rfl

omit [DecidableEq ι] [Fintype ι] in
/-- A call without a notify function makes its own lock calls only. -/
theorem run_pm_quiet (s : State ι) (i : ι) (op : Op) (notify : LockCalls 0)
    (hquiet : (s.outcome i op).notified = false) :
    runPm (s.pm i op notify) s.cnt = runPm (s.outcome i op).pm s.cnt := by
  rw [State.pm, State.notifyCalls, hquiet]
  rfl

theorem call_step (cnt : U8) (hpm : runPm (s.pm i op notify) s.cnt = some cnt)
    (hok : (s.outcome i op).ret = espOk → Moved op s.cnt.toNat cnt.toNat)
    (hfail : (s.outcome i op).ret ≠ espOk → cnt = s.cnt)
    (hheld : cnt.toNat = held (Function.update s.queues i (s.outcome i op).queue)) :
    LockLaw s (.call i op notify) ∧
      ∀ t, exec s (.call i op notify) = some t → t.cnt.toNat = held t.queues := by
  have hexec : exec s (.call i op notify) =
      some ⟨Function.update s.queues i (s.outcome i op).queue,
        Function.update s.tables i (s.outcome i op).desc, cnt⟩ := by
    simp only [exec, hpm]
  refine ⟨⟨_, hexec, hok, hfail⟩, fun t ht => ?_⟩
  obtain rfl := Option.some.inj (hexec.symm.trans ht)
  exact hheld

theorem alloc_step (size : U16) (hbal : s.cnt.toNat = held s.queues)
    (hlt : held s.queues < 255) :
    LockLaw s (.call i (.alloc size) notify) ∧
      ∀ t, exec s (.call i (.alloc size) notify) = some t → t.cnt.toNat = held t.queues := by
  have hcnt := enter_toNat (show s.cnt.toNat < 255 by omega)
  have hrun := run_pm_quiet s i (.alloc size) notify (alloc_notified size)
  rcases alloc_outcome (s.queues i) (s.tables i) size with ⟨hret, hq, hpm⟩ | ⟨hret, hq, hpm⟩
  · refine call_step (skipLightSleepEnter s.cnt).1 ?_ (fun _ => hcnt)
      (fun h => absurd hret h) ?_
    · rw [hrun, State.outcome, Op.outcome, hpm, runPm_enter]
    · rw [hcnt, hbal, State.outcome, Op.outcome, hq, held_take (by omega)]
  · refine call_step s.cnt ?_ (fun h => absurd h hret) (fun _ => rfl) ?_
    · rw [hrun, State.outcome, Op.outcome, hpm, runPm_enter_exit, if_pos (by omega)]
    · rw [State.outcome, Op.outcome, hq, Function.update_eq_self, hbal]

theorem recv_step (hbal : s.cnt.toNat = held s.queues)
    (hlt : (s.outcome i .recv).ret = espOk → held s.queues < 255) :
    LockLaw s (.call i .recv notify) ∧
      ∀ t, exec s (.call i .recv notify) = some t → t.cnt.toNat = held t.queues := by
  have hrun := run_pm_quiet s i .recv notify recv_notified
  rcases recv_outcome (s.queues i) (s.tables i) with ⟨hret, hq, hpm⟩ | ⟨hret, hq, hpm⟩
  · have hlt := hlt hret
    have hcnt := enter_toNat (show s.cnt.toNat < 255 by omega)
    refine call_step (skipLightSleepEnter s.cnt).1 ?_ (fun _ => hcnt)
      (fun h => absurd hret h) ?_
    · rw [hrun, State.outcome, Op.outcome, hpm, runPm_enter]
    · rw [hcnt, hbal, State.outcome, Op.outcome, hq, held_take (by omega)]
  · refine call_step s.cnt ?_ (fun h => absurd h hret) (fun _ => rfl) ?_
    · rw [hrun, State.outcome, Op.outcome, hpm, runPm]
    · rw [State.outcome, Op.outcome, hq, Function.update_eq_self, hbal]

/-- A successful call that gives a buffer away. -/
theorem give_step (hbal : s.cnt.toNat = held s.queues) (hpm : (s.outcome i op).pm = [.exit])
    (hroom : s.cnt.toNat + (s.notifyCalls i op notify).peak ≤ 255)
    (hret : (s.outcome i op).ret = espOk)
    (hq : (s.outcome i op).queue = (s.queues i).advanceUsed)
    (hne : (s.queues i).usedIndex ≠ (s.queues i).freeIndex)
    (hop : ∀ old new, new + 1 = old → Moved op old new) :
    LockLaw s (.call i op notify) ∧
      ∀ t, exec s (.call i op notify) = some t → t.cnt.toNat = held t.queues := by
  have hgive := held_give hne
  obtain ⟨cnt, hexit, hcnt⟩ := exit_of_pos (show 0 < s.cnt.toNat by omega)
  refine call_step cnt ?_ (fun _ => hop _ _ hcnt) (fun h => absurd hret h) ?_
  · rw [run_pm, if_pos hroom, hpm, runPm_exit, hexit]
  · rw [hq]
    omega

omit [Fintype ι] in
/-- A failing call that gives the lock back breaks the law. -/
theorem not_lockLaw_of_exit (s : State ι) (i : ι) (op : Op) (notify : LockCalls 0)
    (hpm : (s.outcome i op).pm = [.exit]) (hret : (s.outcome i op).ret ≠ espOk) :
    ¬ LockLaw s (.call i op notify) := by
  rintro ⟨t, ht, -, hfail⟩
  simp only [exec, run_pm, hpm, runPm_exit] at ht
  split_ifs at ht
  cases hexit : skipLightSleepExit s.cnt with
  | none => simp [hexit] at ht
  | some cnt =>
      rw [hexit] at ht
      have hcnt := hfail hret
      rw [← Option.some.inj ht] at hcnt
      exact exit_ne s.cnt (hexit.trans (congrArg some hcnt))

omit [Fintype ι] in
/-- A notify function that takes more locks than fit runs into the assertion. -/
theorem not_lockLaw_of_peak (h : 255 < s.cnt.toNat + (s.notifyCalls i op notify).peak) :
    ¬ LockLaw s (.call i op notify) := by
  rintro ⟨t, ht, -⟩
  simp [exec, run_pm, Nat.not_le.mpr h] at ht

omit [Fintype ι] in
/-- An allocation at 255 wraps the counter, or asserts when it gives up. -/
theorem not_lockLaw_of_full (size : U16) (hfull : s.cnt.toNat = 255) :
    ¬ LockLaw s (.call i (.alloc size) notify) := by
  rintro ⟨t, ht, hok, -⟩
  rcases alloc_outcome (s.queues i) (s.tables i) size with ⟨hret, -, -⟩ | ⟨-, -, hpm⟩
  · have hmoved : t.cnt.toNat = s.cnt.toNat + 1 := hok hret
    have hlt := t.cnt.isLt
    omega
  · have hrun := run_pm_quiet s i (.alloc size) notify (alloc_notified size)
    simp [exec, hrun, State.outcome, Op.outcome, hpm, runPm_enter_exit, hfull] at ht

omit [DecidableEq ι] [Fintype ι] in
theorem send_notifyCalls {data : U32} {size : U16}
    (h : SendSucceeds (s.queues i) (s.tables i) size) :
    s.notifyCalls i (.send data size) notify =
      if (s.queues i).notifyFc.isSome = true then notify else .done := by
  rw [State.notifyCalls, State.outcome, Op.outcome, send_notified h]

theorem ready_of_lockLaw {l : Label ι} (hbal : s.cnt.toNat = held s.queues)
    (h : LockLaw s l) : Ready s l := by
  cases l with
  | peer i desc => trivial
  | call i op notify =>
      cases op with
      | alloc size =>
          by_contra hfull
          have hge : ¬ held s.queues < 255 := hfull
          have hcnt := s.cnt.isLt
          exact not_lockLaw_of_full size (by omega) h
      | recv => trivial
      | send data size =>
          have hsend : SendSucceeds (s.queues i) (s.tables i) size := by
            by_contra hready
            refine not_lockLaw_of_exit s i (.send data size) notify (send_pm data size) ?_ h
            exact fun hret => hready ((send_ret_ok_iff data size).mp hret)
          refine ⟨hsend, fun hnotify => ?_⟩
          by_contra hroom
          refine not_lockLaw_of_peak ?_ h
          rw [send_notifyCalls hsend, if_pos hnotify]
          omega
      | free buffer =>
          by_contra hready
          refine not_lockLaw_of_exit s i (.free buffer) notify (free_pm buffer) ?_ h
          exact fun hret => hready ((free_ret_ok_iff buffer).mp hret)

/-- A step that meets the condition follows the law and keeps the balance. -/
theorem ready_step {l : Label ι} (hbal : s.cnt.toNat = held s.queues)
    (hnext : ∀ t, exec s l = some t → held t.queues ≤ 255)
    (h : Ready s l) :
    LockLaw s l ∧ ∀ t, exec s l = some t → t.cnt.toNat = held t.queues := by
  have hcnt := s.cnt.isLt
  cases l with
  | peer i desc =>
      refine ⟨trivial, fun t ht => ?_⟩
      obtain rfl := Option.some.inj ht
      exact hbal
  | call i op notify =>
      cases op with
      | alloc size => exact alloc_step size hbal h
      | recv =>
          refine recv_step hbal fun hret => ?_
          rcases recv_outcome (s.queues i) (s.tables i) with ⟨-, hq, hpm⟩ | ⟨hfail, -, -⟩
          · have hrun := run_pm_quiet s i .recv notify recv_notified
            have hexec : exec s (.call i .recv notify) =
                some ⟨Function.update s.queues i (s.queues i).advanceFree,
                  Function.update s.tables i (s.outcome i .recv).desc,
                  (skipLightSleepEnter s.cnt).1⟩ := by
              simp only [exec, hrun, State.outcome, Op.outcome, hpm, hq, runPm_enter]
            have hheld := hnext _ hexec
            have htake := held_take (i := i) (show held s.queues < 65535 by omega)
            simp only [htake] at hheld
            omega
          · exact absurd hret hfail
      | send data size =>
          obtain ⟨hsend, hroom⟩ := h
          refine give_step hbal (send_pm data size) ?_ ((send_ret_ok_iff data size).mpr hsend)
            (send_queue hsend) hsend.2.1 fun _ _ hm => hm
          rw [send_notifyCalls hsend]
          split_ifs with hnotify
          · have hpeak := hroom hnotify
            omega
          · change s.cnt.toNat + 0 ≤ 255
            omega
      | free buffer =>
          have hquiet : s.notifyCalls i (.free buffer) notify = .done := by
            rw [State.notifyCalls, State.outcome, Op.outcome, free_notified]
            rfl
          refine give_step hbal (free_pm buffer) ?_ ((free_ret_ok_iff buffer).mpr h)
            (free_queue h) h.2.1 fun _ _ hm => hm
          rw [hquiet]
          change s.cnt.toNat + 0 ≤ 255
          omega

theorem AtMost.here {n : ℕ} {ls : List (Label ι)} (h : AtMost n s ls) : held s.queues ≤ n := by
  cases ls with
  | nil => exact h
  | cons l ls => exact h.1

end Calls

/-- For any handles of either role, any tables, any notify functions and any sequence of
calls with arbitrary arguments that never holds more than 255 buffers: the counter
follows the ownership of buffers all along exactly when every send and every free is
called in a state in which it succeeds, no allocation is tried with 255 buffers held,
and every notify function finds room for the locks it takes. -/
theorem sleep_lock_balanced_iff_ready (s : State ι) (ls : List (Label ι))
    (hstart : s.cnt.toNat = held s.queues) (hmost : AtMost 255 s ls) :
    Balanced s ls ↔ AllReady s ls := by
  induction ls generalizing s with
  | nil => exact iff_of_true hstart trivial
  | cons l ls ih =>
      have hnext (t : State ι) (ht : exec s l = some t) : held t.queues ≤ 255 :=
        (hmost.2 t ht).here
      constructor
      · rintro ⟨-, hlaw, hrest⟩
        have hready := ready_of_lockLaw hstart hlaw
        refine ⟨hready, fun t ht => ?_⟩
        exact (ih t ((ready_step hstart hnext hready).2 t ht) (hmost.2 t ht)).mp (hrest t ht)
      · rintro ⟨hready, hrest⟩
        obtain ⟨hlaw, hkeep⟩ := ready_step hstart hnext hready
        refine ⟨hstart, hlaw, fun t ht => ?_⟩
        exact (ih t (hkeep t ht) (hmost.2 t ht)).mpr (hrest t ht)

/-- A new queue of four items of sixteen bytes on which the subcore sends. Its notify
function succeeds. -/
def sendingQueue : State Unit where
  queues := fun _ => queueCreate ⟨4, 16, 0x1000, 0x2000⟩ (some fun _ => espOk) 0 true
  tables := fun _ => (queueInitBuffer 4 16 0x2000 0x1000 fun _ => ⟨0, 0, 0⟩).2
  cnt := 0

theorem one_message_balanced : Balanced sendingQueue [.call () (.alloc 16) .done,
    .call () (.send 0x1000 16) swIntrTrigger] := by
  have hmost : AtMost 255 sendingQueue [.call () (.alloc 16) .done,
      .call () (.send 0x1000 16) swIntrTrigger] := by
    refine ⟨by decide, ?_⟩
    rintro t ⟨⟩
    refine ⟨by decide, ?_⟩
    rintro t ⟨⟩
    exact show _ ≤ _ by decide
  refine (sleep_lock_balanced_iff_ready _ _ (by decide) hmost).mpr ⟨show _ < _ by decide, ?_⟩
  rintro t ⟨⟩
  refine ⟨⟨show SendSucceeds _ _ _ by decide, fun _ => by decide⟩, ?_⟩
  rintro t ⟨⟩
  trivial

/-- A send of too many bytes fails and gives the lock back, although the buffer is
still held. -/
theorem failed_send_releases_lock :
    sendingQueue.cnt.toNat = held sendingQueue.queues ∧
      AtMost 255 sendingQueue [.call () (.alloc 16) .done,
        .call () (.send 0x1000 17) swIntrTrigger] ∧
      ¬ Balanced sendingQueue [.call () (.alloc 16) .done,
        .call () (.send 0x1000 17) swIntrTrigger] := by
  refine ⟨by decide, ⟨by decide, ?_⟩, ?_⟩
  · rintro t ⟨⟩
    refine ⟨by decide, ?_⟩
    rintro t ⟨⟩
    exact show _ ≤ _ by decide
  · rintro ⟨-, -, hrest⟩
    obtain ⟨-, ⟨t, ht, -, hfail⟩, -⟩ := hrest _ rfl
    obtain rfl := Option.some.inj ht
    exact absurd (hfail (by decide)) (by decide)

end EspAmp.SleepLock
