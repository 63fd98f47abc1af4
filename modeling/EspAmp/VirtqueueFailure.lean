import EspAmp.VirtqueueFifo

/-!
# Failed queue calls

Every call may be made on either handle, whatever its role. The checks of the four
calls come before their first write, and only a send continues after its last one:
there the result of the application's notify function becomes the result of a call
that has already published its message.
-/
namespace EspAmp.VirtqueueFailure
open ByteMemory Virtqueue VirtqueueFifo

/-- A call on a given handle, of either role. -/
def tryCall (q : Queue) (desc : Table) : Call → Outcome
  | .alloc size => queueAllocTry q desc size
  | .send data size => queueSendTry q desc data size
  | .recv => queueRecvTry q desc
  | .free buffer => queueFreeTry q desc buffer

def handle (s : Vring) (onMaster : Bool) : Queue := if onMaster then s.master else s.remote

def applyOn (s : Vring) (onMaster : Bool) (call : Call) : Vring :=
  let out := tryCall (handle s onMaster) s.desc call
  if onMaster then { s with master := out.queue, desc := out.desc }
  else { s with remote := out.queue, desc := out.desc }

/-- The state after any calls on any handles. -/
def reached (u : Setup) (calls : List (Bool × Call)) : Vring :=
  calls.foldl (fun s c => applyOn s c.1 c.2) u.start

/-- A send passes every check of `esp_amp_queue_send_try`. -/
def SendPasses (q : Queue) (desc : Table) (size : U16) : Prop :=
  q.master = true ∧ q.usedIndex ≠ q.freeIndex ∧ size ≤ q.maxItemSize ∧
    flagIsUsed q.usedFlipCounter (desc (q.qIdx q.usedIndex)).flags = true

/-- The call publishes a message and then reports the failure of its notification. -/
def LateFailure (q : Queue) (desc : Table) (call : Call) : Prop :=
  ∃ data size, call = .send data size ∧ SendPasses q desc size ∧ q.notify ≠ espOk

section Calls
variable (q : Queue) (desc : Table)

theorem queueAllocTry_failed (size : U16) (h : (queueAllocTry q desc size).ret ≠ espOk) :
    (queueAllocTry q desc size).queue = q ∧ (queueAllocTry q desc size).desc = desc := by
  simp only [queueAllocTry] at h ⊢
  split_ifs at h ⊢
  · exact ⟨rfl, rfl⟩
  · exact ⟨rfl, rfl⟩
  · exact ⟨rfl, rfl⟩
  · exact absurd rfl h

theorem queueRecvTry_failed (h : (queueRecvTry q desc).ret ≠ espOk) :
    (queueRecvTry q desc).queue = q ∧ (queueRecvTry q desc).desc = desc := by
  simp only [queueRecvTry] at h ⊢
  split_ifs at h ⊢
  · exact ⟨rfl, rfl⟩
  · exact ⟨rfl, rfl⟩
  · exact absurd rfl h

theorem queueFreeTry_failed (buffer : U32) (h : (queueFreeTry q desc buffer).ret ≠ espOk) :
    (queueFreeTry q desc buffer).queue = q ∧ (queueFreeTry q desc buffer).desc = desc := by
  simp only [queueFreeTry] at h ⊢
  split_ifs at h ⊢
  · exact ⟨rfl, rfl⟩
  · exact ⟨rfl, rfl⟩
  · exact ⟨rfl, rfl⟩
  · exact absurd rfl h

/-- A send that passes its checks publishes and returns what the notification
returned; any other send fails without a write. -/
theorem queueSendTry_cases (data : U32) (size : U16) :
    (SendPasses q desc size ∧ (queueSendTry q desc data size).ret = q.notify ∧
      (queueSendTry q desc data size).queue = q.advanceUsed) ∨
    (¬ SendPasses q desc size ∧ (queueSendTry q desc data size).queue = q ∧
      (queueSendTry q desc data size).desc = desc) := by
  simp only [queueSendTry, SendPasses]
  split_ifs with hmaster hindex hsize hflag
  · right
    exact ⟨fun h => by simp [h.1] at hmaster, rfl, rfl⟩
  · right
    exact ⟨fun h => h.2.1 hindex, rfl, rfl⟩
  · right
    exact ⟨fun h => BitVec.not_lt.mpr h.2.2.1 hsize, rfl, rfl⟩
  · right
    exact ⟨fun h => by simp [h.2.2.2] at hflag, rfl, rfl⟩
  · left
    exact ⟨⟨by simpa using hmaster, hindex, BitVec.not_lt.mp hsize, by simpa using hflag⟩, rfl, rfl⟩

theorem advanceUsed_ne : q.advanceUsed ≠ q := by
  intro h
  have hindex : q.usedIndex + 1 = q.usedIndex := congrArg Queue.usedIndex h
  simp at hindex

/-- A failed call keeps handle and table unless its failure comes late. -/
theorem tryCall_failed_iff (call : Call) :
    ((tryCall q desc call).ret ≠ espOk →
      (tryCall q desc call).queue = q ∧ (tryCall q desc call).desc = desc) ↔
    ¬ LateFailure q desc call := by
  have hother (hcall : ∀ data size, call ≠ .send data size) : ¬ LateFailure q desc call :=
    fun ⟨data, size, heq, _⟩ => hcall data size heq
  cases call with
  | alloc size => exact iff_of_true (queueAllocTry_failed q desc size) (hother (by simp))
  | recv => exact iff_of_true (queueRecvTry_failed q desc) (hother (by simp))
  | free buffer => exact iff_of_true (queueFreeTry_failed q desc buffer) (hother (by simp))
  | send data size =>
      have hlate : LateFailure q desc (.send data size) ↔
          SendPasses q desc size ∧ q.notify ≠ espOk := by
        simp [LateFailure]
      rw [hlate, tryCall]
      rcases queueSendTry_cases q desc data size with ⟨hpass, hret, hqueue⟩ | ⟨hpass, hqueue, hdesc⟩
      · rw [hret, hqueue]
        constructor
        · exact fun h hc => advanceUsed_ne q (h hc.2).1
        · exact fun h hne => absurd ⟨hpass, hne⟩ h
      · exact iff_of_true (fun _ => ⟨hqueue, hdesc⟩) fun hc => hpass hc.1

end Calls

theorem applyOn_eq_iff (s : Vring) (onMaster : Bool) (call : Call) :
    applyOn s onMaster call = s ↔
      (tryCall (handle s onMaster) s.desc call).queue = handle s onMaster ∧
        (tryCall (handle s onMaster) s.desc call).desc = s.desc := by
  cases onMaster with
  | true => simp [applyOn, handle, Vring.ext_iff]
  | false => simp [applyOn, handle, Vring.ext_iff]

/-- In every reachable state, on either handle, a call that does not return `ESP_OK`
changes neither the handles nor the table exactly when it is not a send that passes
its checks and whose notify function fails. -/
theorem failed_queue_call_changes_nothing_iff (u : Setup) (calls : List (Bool × Call))
    (onMaster : Bool) (call : Call) :
    ((tryCall (handle (reached u calls) onMaster) (reached u calls).desc call).ret ≠ espOk →
      applyOn (reached u calls) onMaster call = reached u calls) ↔
    ¬ LateFailure (handle (reached u calls) onMaster) (reached u calls).desc call := by
  rw [applyOn_eq_iff]
  exact tryCall_failed_iff _ _ call

/-- Two buffers with a notify function that reports an error. -/
def failingNotify : Setup := { twoBuffers with notifyFc := some fun _ => -1 }

/-- The failed send has published its message: the remote receives it. -/
theorem failed_send_is_received :
    (tryCall (reached failingNotify [(true, .alloc 4)]).master
        (reached failingNotify [(true, .alloc 4)]).desc (.send 0x4087a610 4)).ret = -1 ∧
      applyOn (reached failingNotify [(true, .alloc 4)]) true (.send 0x4087a610 4) ≠
        reached failingNotify [(true, .alloc 4)] ∧
      (reached failingNotify [(true, .alloc 4), (true, .send 0x4087a610 4)]).reply .recv =
        ⟨espOk, 0x4087a610, 4⟩ := by
  refine ⟨by decide, fun h => ?_, by decide⟩
  have hindex := congrArg (fun s => s.master.usedIndex) h
  revert hindex
  decide

end EspAmp.VirtqueueFailure
