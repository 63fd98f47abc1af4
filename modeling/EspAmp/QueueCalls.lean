import EspAmp.QueueTable
import EspAmp.VirtqueueFifo

/-!
# The calls of a sender on bytes

The two calls of a master handle, with the descriptors read from memory and stored
there. A table that agrees with the memory on the entries of the queue makes the
word-level calls answer alike and agrees again afterwards, and no other byte
changes. A whole run of these calls therefore follows a run of the virtqueue.
-/
namespace EspAmp.QueueMemory
open ByteMemory ReplyMachine SysInfo Virtqueue VirtqueueFifo

/-- `esp_amp_queue_alloc_try` on memory: return value, buffer and handle. -/
def allocTryAt (q : Queue) (m : Memory 32) (size : U16) : Int × U32 × Queue :=
  if !q.master then (espErrNotSupported, 0, q)
  else if q.maxItemSize < size then (espErrNoMem, 0, q)
  else
    let e := descAddr q.desc (q.qIdx q.freeIndex)
    if !flagIsUsed q.freeFlipCounter (word16 m (e + 6#32)) then (espErrNotFound, 0, q)
    else (espOk, word32 m e, q.advanceFree)

/-- The three stores of `esp_amp_queue_send_try`. -/
def storeSent (m : Memory 32) (e data : U32) (size : U16) : Memory 32 :=
  let m := write32 m e data
  let m := write16 m (e + 4#32) size
  write16 m (e + 6#32) (word16 m (e + 6#32) ^^^ availableMask 1)

/-- `esp_amp_queue_send_try` on memory: return value, handle and memory. -/
def sendTryAt (q : Queue) (m : Memory 32) (data : U32) (size : U16) : Int × Queue × Memory 32 :=
  if !q.master then (espErrNotSupported, q, m)
  else if q.usedIndex = q.freeIndex then (espErrNotAllowed, q, m)
  else if q.maxItemSize < size then (espErrNoMem, q, m)
  else
    let e := descAddr q.desc (q.qIdx q.usedIndex)
    if !flagIsUsed q.usedFlipCounter (word16 m (e + 6#32)) then (espErrNotAllowed, q, m)
    else (q.notify, q.advanceUsed, storeSent m e data size)

/-- The sender, the memory and the messages it has sent, in order. -/
structure Sender where
  queue : Queue
  mem : Memory 32
  sent : List (U32 × U16)

inductive SenderOp where
  | alloc (size : U16)
  | send (data : U32) (size : U16)
  | store (x : U32) (v : U8)
deriving DecidableEq, Repr

/-- The sender also writes into the data area of its queue. -/
def senderExec (data : U32 × ℕ) (s : Sender) : SenderOp → Sender
  | .alloc size => { s with queue := (allocTryAt s.queue s.mem size).2.2 }
  | .send addr size =>
      let r := sendTryAt s.queue s.mem addr size
      ⟨r.2.1, r.2.2, if r.1 = espOk then s.sent ++ [(addr, size)] else s.sent⟩
  | .store x v =>
      if Within data.1 data.2 x then { s with mem := write s.mem x [v] } else s

def senderRun (data : U32 × ℕ) : Sender → List SenderOp → Sender
  | s, [] => s
  | s, op :: ops => senderRun data (senderExec data s op) ops

/-- What these calls get into a queue with so many free items, of which the sender holds so
many already and nobody frees another. -/
def sentMessages (item : U16) : ℕ → ℕ → List SenderOp → List (U32 × U16)
  | _, _, [] => []
  | free, held, .alloc size :: ops =>
      if size ≤ item ∧ 0 < free then sentMessages item (free - 1) (held + 1) ops
      else sentMessages item free held ops
  | free, held, .send addr size :: ops =>
      if 0 < held ∧ size ≤ item then (addr, size) :: sentMessages item free (held - 1) ops
      else sentMessages item free held ops
  | free, held, .store _ _ :: ops => sentMessages item free held ops

section Calls
variable {q : Queue} {m : Memory 32} {t : Table} {n : ℕ}

theorem allocTryAt_eq (size : U16)
    (ht : descAt m q.desc (q.qIdx q.freeIndex) = t (q.qIdx q.freeIndex)) :
    (allocTryAt q m size).2.2 = (queueAllocTry q t size).queue ∧
      (queueAllocTry q t size).desc = t := by
  have hflags := congrArg Desc.flags ht
  simp only [descAt] at hflags
  simp only [allocTryAt, queueAllocTry, hflags]
  split_ifs <;> exact ⟨rfl, rfl⟩

theorem storeSent_of_outside {e data x : U32} {size : U16} (h : ¬ Within e 8 x) :
    storeSent m e data size x = m x :=
  writeFields_of_outside (i := 4) (j := 6) (by decide) (by decide) h

theorem storeSent_words (e data : U32) (size : U16) :
    word32 (storeSent m e data size) e = data ∧
      word16 (storeSent m e data size) (e + 4#32) = size ∧
      word16 (storeSent m e data size) (e + 6#32) =
        word16 m (e + 6#32) ^^^ availableMask 1 := by
  obtain ⟨h₄, h₆, h₄₆⟩ := entry_apart e
  simp only [storeSent]
  refine ⟨?_, ?_, ?_⟩
  · rw [word32_write16_apart h₆, word32_write16_apart h₄, word32_write32 (by decide)]
  · rw [word16_write16_apart h₄₆, word16_write16 (by decide)]
  · rw [word16_write16 (by decide), word16_write16_apart h₄₆.symm, word16_write32_apart h₆.symm]

/-- A send on memory answers like the word-level one and keeps the agreement. -/
theorem sendTryAt_eq (data : U32) (size : U16) (hn : 8 * n ≤ 2 ^ 32)
    (ht : ∀ i < n, descAt m q.desc i = t i) (hi : q.qIdx q.usedIndex < n) :
    (sendTryAt q m data size).1 = (queueSendTry q t data size).ret ∧
      (sendTryAt q m data size).2.1 = (queueSendTry q t data size).queue ∧
      (∀ i < n, descAt (sendTryAt q m data size).2.2 q.desc i =
        (queueSendTry q t data size).desc i) ∧
      ∀ x, ¬ Within q.desc (8 * n) x → (sendTryAt q m data size).2.2 x = m x := by
  have hflags := congrArg Desc.flags (ht _ hi)
  simp only [descAt] at hflags
  simp only [sendTryAt, queueSendTry, hflags]
  split_ifs with hm hfull hsize hused
  · exact ⟨rfl, rfl, ht, fun _ _ => rfl⟩
  · exact ⟨rfl, rfl, ht, fun _ _ => rfl⟩
  · exact ⟨rfl, rfl, ht, fun _ _ => rfl⟩
  · exact ⟨rfl, rfl, ht, fun _ _ => rfl⟩
  · refine ⟨rfl, rfl, fun i hin => ?_, fun x hx => ?_⟩
    · dsimp only
      by_cases heq : i = q.qIdx q.usedIndex
      · obtain ⟨h₀, h₄, h₆⟩ := storeSent_words (m := m) (descAddr q.desc i) data size
        subst heq
        rw [Function.update_self, descAt, h₀, h₄, h₆, hflags]
      · rw [Function.update_of_ne heq, ← ht i hin]
        refine descAt_congr fun x hx => storeSent_of_outside ?_
        exact entries_apart hn hin hi heq x hx
    · exact storeSent_of_outside fun hw => hx (within_table hi hw)

end Calls

/-- The sender and its memory stand where a run of the virtqueue stands. Nothing but
the table and the data area has changed. -/
structure Follows (u : Setup) (data : U32 × ℕ) (m₀ : Memory 32) (s : Sender) (ring : Vring)
    (t : Fifos) : Prop where
  reached : ∃ calls, vring.final u.start calls = ring
  refines : Refines u ring t
  queue : s.queue = ring.master
  remote : ring.remote = u.remoteHandle
  table : ∀ i < u.n, descAt s.mem u.descPtr i = ring.desc i
  sent : t.sent = s.sent
  frame : ∀ x, ¬ Within u.descPtr (8 * u.n) x → ¬ Within data.1 data.2 x → s.mem x = m₀ x

section Simulation
variable {u : Setup} {data : U32 × ℕ} {m₀ : Memory 32} {s : Sender} {ring : Vring} {t : Fifos}

/-- Right after the initialization. -/
theorem Follows.start (htable : ∀ i < u.n, descAt m₀ u.descPtr i = u.start.desc i) :
    Follows u data m₀ ⟨u.masterHandle, m₀, []⟩ u.start u.fifos where
  reached := ⟨[], rfl⟩
  refines := refines_start u
  queue := rfl
  remote := rfl
  table := htable
  sent := rfl
  frame := fun _ _ _ => rfl

theorem refines_master (h : Refines u ring t) : ring.master.desc = u.descPtr ∧
    ring.master.qIdx ring.master.freeIndex < u.n ∧
    ring.master.qIdx ring.master.usedIndex < u.n := by
  obtain ⟨c, hc, -⟩ := h
  rw [hc.master]
  refine ⟨rfl, ?_, ?_⟩
  · rw [qIdx_freeIndex rfl]
    exact Nat.mod_lt _ u.n_pos
  · rw [qIdx_usedIndex rfl]
    exact Nat.mod_lt _ u.n_pos

theorem fifoStep_alloc_sent (item : U16) (t : Fifos) (size : U16) :
    (fifoStep item t (.alloc size)).2.sent = t.sent := by
  simp only [fifoStep]
  by_cases hsize : item < size
  · simp [hsize]
  · cases hf : t.free <;> simp [hsize]

/-- A message joins the ones under way exactly when its send succeeds. -/
theorem fifoStep_send_sent (item : U16) (t : Fifos) (addr : U32) (size : U16) :
    (fifoStep item t (.send addr size)).2.sent =
      if (fifoStep item t (.send addr size)).1.ret = espOk then t.sent ++ [(addr, size)]
      else t.sent := by
  simp only [fifoStep]
  by_cases hnone : t.allocated = 0
  · simp [hnone]
  · by_cases hsize : item < size
    · simp [hnone, hsize]
    · simp [hnone, hsize]

/-- The next call of the run. -/
theorem Follows.reach (h : Follows u data m₀ s ring t) (call : Call) :
    ∃ calls, vring.final u.start calls = ring.apply call := by
  obtain ⟨calls, hcalls⟩ := h.reached
  refine ⟨calls ++ [call], ?_⟩
  rw [Machine.final_append, hcalls]
  rfl

theorem Follows.alloc (hu : u.QuietNotify) (h : Follows u data m₀ s ring t) (size : U16) :
    Follows u data m₀ (senderExec data s (.alloc size)) (ring.apply (.alloc size))
      (fifoStep u.itemSize t (.alloc size)).2 := by
  obtain ⟨hdesc, hfree, -⟩ := refines_master h.refines
  have ht : descAt s.mem ring.master.desc (ring.master.qIdx ring.master.freeIndex) =
      ring.desc (ring.master.qIdx ring.master.freeIndex) := by
    rw [hdesc]
    exact h.table _ hfree
  obtain ⟨hq, hsame⟩ := allocTryAt_eq size ht
  refine ⟨h.reach _, (refines_step hu h.refines (.alloc size)).2, ?_, h.remote, ?_, ?_,
    h.frame⟩
  · simp only [senderExec, h.queue]
    exact hq
  · change ∀ i < u.n, descAt s.mem u.descPtr i = (queueAllocTry ring.master ring.desc size).desc i
    rw [hsame]
    exact h.table
  · rw [fifoStep_alloc_sent]
    exact h.sent

theorem Follows.send (hu : u.QuietNotify) (h : Follows u data m₀ s ring t) (addr : U32)
    (size : U16) :
    Follows u data m₀ (senderExec data s (.send addr size)) (ring.apply (.send addr size))
      (fifoStep u.itemSize t (.send addr size)).2 := by
  obtain ⟨hdesc, -, hused⟩ := refines_master h.refines
  have hn := u.n_le
  have ht : ∀ i < u.n, descAt s.mem ring.master.desc i = ring.desc i := by
    rw [hdesc]
    exact h.table
  obtain ⟨hret, hq, htable, hframe⟩ := sendTryAt_eq addr size (by omega) ht hused
  obtain ⟨hreply, hnext⟩ := refines_step hu h.refines (.send addr size)
  rw [hdesc] at htable hframe
  have hok := hret.trans (congrArg Reply.ret hreply)
  refine ⟨h.reach _, hnext, ?_, h.remote, ?_, ?_, ?_⟩
  · simp only [senderExec, h.queue]
    exact hq
  · simp only [senderExec, h.queue]
    exact htable
  · simp only [senderExec, h.queue, hok]
    rw [fifoStep_send_sent, h.sent]
    rfl
  · intro x hx hx'
    simp only [senderExec, h.queue]
    rw [hframe x hx]
    exact h.frame x hx hx'

theorem Follows.store (hap : Apart u.descPtr (8 * u.n) data.1 data.2)
    (h : Follows u data m₀ s ring t) (x : U32) (v : U8) :
    Follows u data m₀ (senderExec data s (.store x v)) ring t := by
  simp only [senderExec]
  split_ifs with hx
  · refine ⟨h.reached, h.refines, h.queue, h.remote, ?_, h.sent, ?_⟩
    · intro i hi
      rw [← h.table i hi]
      refine descAt_congr fun y hy => write_byte_of_ne ?_
      rintro rfl
      exact hap y (within_table hi hy) hx
    · intro y hy hy'
      rw [← h.frame y hy hy']
      refine write_byte_of_ne ?_
      rintro rfl
      exact hy' hx
  · exact h

/-- Every run of the sender follows the virtqueue. -/
theorem Follows.run (hu : u.QuietNotify) (hap : Apart u.descPtr (8 * u.n) data.1 data.2)
    (ops : List SenderOp) (h : Follows u data m₀ s ring t) :
    ∃ ring' t', Follows u data m₀ (senderRun data s ops) ring' t' := by
  induction ops generalizing s ring t with
  | nil => exact ⟨ring, t, h⟩
  | cons op ops ih =>
      cases op with
      | alloc size => exact ih (h.alloc hu size)
      | send addr size => exact ih (h.send hu addr size)
      | store x v => exact ih (h.store hap x v)

/-- The calls alone decide which messages are sent. -/
theorem Follows.run_sent (hu : u.QuietNotify) (hap : Apart u.descPtr (8 * u.n) data.1 data.2)
    (ops : List SenderOp) (h : Follows u data m₀ s ring t) :
    (senderRun data s ops).sent =
      s.sent ++ sentMessages u.itemSize t.free.length t.allocated ops := by
  induction ops generalizing s ring t with
  | nil => exact (List.append_nil _).symm
  | cons op ops ih =>
      cases op with
      | alloc size =>
          have hrest := ih (h.alloc hu size)
          rw [senderRun, hrest, sentMessages]
          simp only [fifoStep, senderExec]
          by_cases hsize : u.itemSize < size
          · rw [if_pos hsize, if_neg fun hok => BitVec.not_le.mpr hsize hok.1]
          · cases hfree : t.free with
            | nil => simp [hsize, hfree]
            | cons b bs => simp [hsize, BitVec.not_lt.mp hsize]
      | send addr size =>
          have hnext := h.send hu addr size
          rw [senderRun, ih hnext, ← hnext.sent, ← h.sent, sentMessages]
          simp only [fifoStep]
          by_cases hheld : t.allocated = 0
          · simp [hheld]
          · by_cases hsize : u.itemSize < size
            · simp [hheld, hsize]
            · simp [hheld, hsize, Nat.pos_of_ne_zero hheld, BitVec.not_lt.mp hsize]
      | store x v =>
          rw [senderRun, ih (h.store hap x v), sentMessages]
          simp only [senderExec]
          split_ifs <;> rfl

end Simulation

/-- Exactly these messages can be received, in this order. -/
def Pending (ring : Vring) (msgs : List (U32 × U16)) : Prop :=
  vring.replies ring (List.replicate (msgs.length + 1) .recv) =
    msgs.map (fun msg => ⟨espOk, msg.1, msg.2⟩) ++ [⟨espErrNotFound, 0, 0⟩]

theorem fifos_recvs (item : U16) (t : Fifos) :
    (fifos item).replies t (List.replicate (t.sent.length + 1) .recv) =
      t.sent.map (fun msg => ⟨espOk, msg.1, msg.2⟩) ++ [⟨espErrNotFound, 0, 0⟩] := by
  obtain ⟨free, sent, allocated, received⟩ := t
  induction sent generalizing received with
  | nil => rfl
  | cons msg sent ih => exact congrArg (List.cons _) (ih (received + 1))

theorem refines_pending {u : Setup} (hu : u.QuietNotify) {ring : Vring} {t : Fifos}
    (h : Refines u ring t) : Pending ring t.sent := by
  rw [Pending, Machine.replies_eq_of_simulation vring (fifos u.itemSize)
    (fun _ _ call hr => refines_step hu hr call) h]
  exact fifos_recvs u.itemSize t

end EspAmp.QueueMemory
