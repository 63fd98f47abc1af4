import EspAmp.ByteMemory
import EspAmp.ReplyMachine
import EspAmp.RingLaps
import Mathlib.Logic.Function.Basic

/-!
# The packed virtqueue

The four queue calls of `esp_amp_queue.c` together with buffer initialization
and handle creation. Machine words are bit vectors of the width of the C type.
The descriptor table is shared by the two handles and is passed next to the
handle that points to it; whole calls are sequential, so memory barriers have
no counterpart here. Every call also reports the descriptor slots it accessed,
whether it called the notify function, and the light-sleep macro calls it made
itself, in order; these are read-only ghosts which influence neither the answer nor
the queue.
-/
namespace EspAmp.Virtqueue
open ByteMemory

/-- `esp_amp_queue_desc_t`. -/
structure Desc where
  addr : U32
  len : U16
  flags : U16
deriving DecidableEq, Repr

/-- The shared array of descriptors, indexed as the code indexes it. -/
abbrev Table := ℕ → Desc

/-- `esp_amp_queue_cb_t`, applied to its private data pointer. -/
abbrev QueueCb := U32 → Int

/-- `esp_amp_queue_t`, the private handle of one core. -/
structure Queue where
  desc : U32
  size : U16
  freeIndex : U16
  usedIndex : U16
  maxItemSize : U16
  master : Bool
  callbackFc : Option QueueCb
  notifyFc : Option QueueCb
  privData : U32
  freeFlipCounter : U16
  usedFlipCounter : U16

/-- `esp_amp_queue_conf_t`. -/
structure QueueConf where
  queueSize : U16
  maxQueueItemSize : U16
  queueBuffer : U32
  queueDesc : U32
deriving DecidableEq, Repr

/-- The two light-sleep macros. They expand to nothing on the main core and in
builds without light sleep. -/
inductive PmCall where
  | enter | exit
deriving DecidableEq, Repr

/-- Result, out-parameters and successor state of one queue call. -/
structure Outcome where
  ret : Int
  buffer : U32 := 0
  size : U16 := 0
  queue : Queue
  desc : Table
  slots : List ℕ := []
  notified : Bool := false
  pm : List PmCall := []

def availableMask (bit : U16) : U16 := bit <<< 7
def usedMask (bit : U16) : U16 := bit <<< 15

/-- `ESP_AMP_QUEUE_FLAG_IS_USED`. -/
def flagIsUsed (flipCounter flag : U16) : Bool :=
  (availableMask 1 &&& flag) != availableMask flipCounter &&
    (usedMask 1 &&& flag) != usedMask flipCounter

/-- `ESP_AMP_QUEUE_FLAG_IS_AVAILABLE`. -/
def flagIsAvailable (flipCounter flag : U16) : Bool :=
  (availableMask 1 &&& flag) == availableMask flipCounter &&
    (usedMask 1 &&& flag) != usedMask flipCounter

/-- The C operator `!` on a counter. -/
def logicalNot (w : U16) : U16 := if w = 0 then 1 else 0

/-- `q_idx` for one of the two indices. -/
def Queue.qIdx (q : Queue) (index : U16) : ℕ := (index &&& (q.size - 1)).toNat

/-- `free_index += 1` and the flip at the end of the table. -/
def Queue.advanceFree (q : Queue) : Queue :=
  { q with
    freeIndex := q.freeIndex + 1
    freeFlipCounter :=
      if q.qIdx q.freeIndex + 1 = q.size.toNat then logicalNot q.freeFlipCounter
      else q.freeFlipCounter }

/-- `used_index += 1` and the flip at the end of the table. -/
def Queue.advanceUsed (q : Queue) : Queue :=
  { q with
    usedIndex := q.usedIndex + 1
    usedFlipCounter :=
      if q.qIdx q.usedIndex + 1 = q.size.toNat then logicalNot q.usedFlipCounter
      else q.usedFlipCounter }

/-- The tail of a send: the notify function decides the result. -/
def Queue.notify (q : Queue) : Int :=
  match q.notifyFc with
  | none => espOk
  | some f => f q.privData

/-- `esp_amp_queue_send_try`. -/
def queueSendTry (q : Queue) (desc : Table) (data : U32) (size : U16) : Outcome :=
  if !q.master then
    { ret := espErrNotSupported, queue := q, desc := desc, pm := [.exit] }
  else if q.usedIndex = q.freeIndex then
    { ret := espErrNotAllowed, queue := q, desc := desc, pm := [.exit] }
  else if q.maxItemSize < size then
    { ret := espErrNoMem, queue := q, desc := desc, pm := [.exit] }
  else
    let i := q.qIdx q.usedIndex
    let flags := (desc i).flags
    if !flagIsUsed q.usedFlipCounter flags then
      { ret := espErrNotAllowed, queue := q, desc := desc, slots := [i], pm := [.exit] }
    else
      { ret := q.notify
        queue := q.advanceUsed
        desc := Function.update desc i ⟨data, size, flags ^^^ availableMask 1⟩
        slots := [i]
        notified := q.notifyFc.isSome
        pm := [.exit] }

/-- `esp_amp_queue_recv_try`. -/
def queueRecvTry (q : Queue) (desc : Table) : Outcome :=
  if q.master then
    { ret := espErrNotSupported, queue := q, desc := desc }
  else
    let i := q.qIdx q.freeIndex
    let flags := (desc i).flags
    if !flagIsAvailable q.freeFlipCounter flags then
      { ret := espErrNotFound, queue := q, desc := desc, slots := [i] }
    else
      { ret := espOk
        buffer := (desc i).addr
        size := (desc i).len
        queue := q.advanceFree
        desc := desc
        slots := [i]
        pm := [.enter] }

/-- `esp_amp_queue_alloc_try`. -/
def queueAllocTry (q : Queue) (desc : Table) (size : U16) : Outcome :=
  if !q.master then
    { ret := espErrNotSupported, queue := q, desc := desc, pm := [.enter, .exit] }
  else if q.maxItemSize < size then
    { ret := espErrNoMem, queue := q, desc := desc, pm := [.enter, .exit] }
  else
    let i := q.qIdx q.freeIndex
    let flags := (desc i).flags
    if !flagIsUsed q.freeFlipCounter flags then
      { ret := espErrNotFound, queue := q, desc := desc, slots := [i], pm := [.enter, .exit] }
    else
      { ret := espOk
        buffer := (desc i).addr
        queue := q.advanceFree
        desc := desc
        slots := [i]
        pm := [.enter] }

/-- `esp_amp_queue_free_try`. -/
def queueFreeTry (q : Queue) (desc : Table) (buffer : U32) : Outcome :=
  if q.master then
    { ret := espErrNotSupported, queue := q, desc := desc, pm := [.exit] }
  else if q.usedIndex = q.freeIndex then
    { ret := espErrNotAllowed, queue := q, desc := desc, pm := [.exit] }
  else
    let i := q.qIdx q.usedIndex
    let flags := (desc i).flags
    if !flagIsAvailable q.usedFlipCounter flags then
      { ret := espErrNotAllowed, queue := q, desc := desc, slots := [i], pm := [.exit] }
    else
      { ret := espOk
        queue := q.advanceUsed
        desc := Function.update desc i ⟨buffer, q.maxItemSize, flags ^^^ usedMask 1⟩
        slots := [i]
        pm := [.exit] }

/-- The loop of `esp_amp_queue_init_buffer`: `left` entries remain, the next one
is `descIdx` and receives the address `buffer`. -/
def initDescs (itemSize : U16) : ℕ → ℕ → U32 → Table → Table
  | 0, _, _, desc => desc
  | left + 1, descIdx, buffer, desc =>
      initDescs itemSize left (descIdx + 1) (buffer + itemSize.setWidth 32)
        (Function.update desc descIdx ⟨buffer, itemSize, 0⟩)

/-- `esp_amp_queue_init_buffer`. -/
def queueInitBuffer (queueLen queueItemSize : U16) (queueDesc queueBuffer : U32)
    (desc : Table) : QueueConf × Table :=
  (⟨queueLen, queueItemSize, queueBuffer, queueDesc⟩,
    initDescs queueItemSize queueLen.toNat 0 queueBuffer desc)

/-- `esp_amp_queue_create`. -/
def queueCreate (conf : QueueConf) (cbFunc : Option QueueCb) (privData : U32)
    (isMaster : Bool) : Queue where
  desc := conf.queueDesc
  size := conf.queueSize
  freeFlipCounter := 1
  usedFlipCounter := 1
  freeIndex := 0
  usedIndex := 0
  maxItemSize := conf.maxQueueItemSize
  notifyFc := if isMaster then cbFunc else none
  callbackFc := if isMaster then none else cbFunc
  privData := privData
  master := isMaster

/-- Address of the `i`-th item buffer. -/
def itemAddr (buffer : U32) (itemSize : U16) (i : ℕ) : U32 :=
  buffer + BitVec.ofNat 32 (i * itemSize.toNat)

theorem itemAddr_succ (buffer : U32) (itemSize : U16) (i : ℕ) :
    itemAddr (buffer + itemSize.setWidth 32) itemSize i = itemAddr buffer itemSize (i + 1) := by
  apply BitVec.eq_of_toNat_eq
  simp only [itemAddr, BitVec.toNat_add, BitVec.toNat_setWidth, BitVec.toNat_ofNat, Nat.add_mod_mod,
    Nat.mod_add_mod, Nat.succ_mul]
  congr 1
  omega

theorem initDescs_apply (itemSize : U16) (left first : ℕ) (buffer : U32) (desc : Table) (i : ℕ) :
    initDescs itemSize left first buffer desc i =
      if first ≤ i ∧ i < first + left then ⟨itemAddr buffer itemSize (i - first), itemSize, 0⟩
      else desc i := by
  induction left generalizing first buffer desc with
  | zero =>
      have h : ¬ (first ≤ i ∧ i < first + 0) := by omega
      rw [if_neg h, initDescs]
  | succ left ih =>
      rw [initDescs, ih]
      rcases Nat.lt_trichotomy i first with h | rfl | h
      · rw [if_neg (by omega), if_neg (by omega), Function.update_of_ne (by omega)]
      · rw [if_neg (by omega), if_pos (by omega), Function.update_self, Nat.sub_self]
        simp [itemAddr]
      · by_cases hi : i < first + (left + 1)
        · rw [if_pos (by omega), if_pos (by omega), itemAddr_succ]
          congr 2
          omega
        · rw [if_neg (by omega), if_neg (by omega), Function.update_of_ne (by omega)]

end EspAmp.Virtqueue
