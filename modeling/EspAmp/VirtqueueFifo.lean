import EspAmp.Virtqueue
import Mathlib.Tactic.Linarith

/-!
# The virtqueue refines a pair of FIFOs

No handle counts anything: emptiness and fullness are read off two flag bits of
one slot against a flip counter. The unbounded numbers of successful calls of
the four kinds are therefore kept as ghosts. They order themselves as
`frees ≤ recvs ≤ sends ≤ allocs ≤ frees + n`, so the slots of the four live
ranges never meet, and a slot's two flags are the lap parities of the send and
free counters there. Both handles are functions of the counters.

One lemma per call states its complete outcome under this invariant. The
abstract machine with a free FIFO, a sent FIFO and two counters is then read
off the counters and the descriptor table, and answers every call alike.
-/
namespace EspAmp.VirtqueueFifo
open ByteMemory Virtqueue RingLaps ReplyMachine

inductive Call where
  | alloc (size : U16)
  | send (data : U32) (size : U16)
  | recv
  | free (buffer : U32)
deriving DecidableEq, Repr

def Call.onMaster : Call → Bool
  | .alloc _ | .send _ _ => true
  | .recv | .free _ => false

/-- Return code and out-parameters of a call; parameters a call does not have
stay zero. -/
structure Reply where
  ret : Int
  buffer : U32 := 0
  size : U16 := 0
deriving DecidableEq, Repr

/-- Both handles and the table they share. -/
@[ext] structure Vring where
  master : Queue
  remote : Queue
  desc : Table

def Vring.outcome (s : Vring) : Call → Outcome
  | .alloc size => queueAllocTry s.master s.desc size
  | .send data size => queueSendTry s.master s.desc data size
  | .recv => queueRecvTry s.remote s.desc
  | .free buffer => queueFreeTry s.remote s.desc buffer

def Vring.apply (s : Vring) (c : Call) : Vring :=
  if c.onMaster then { s with master := (s.outcome c).queue, desc := (s.outcome c).desc }
  else { s with remote := (s.outcome c).queue, desc := (s.outcome c).desc }

def Vring.reply (s : Vring) (c : Call) : Reply :=
  ⟨(s.outcome c).ret, (s.outcome c).buffer, (s.outcome c).size⟩

def vring : Machine Vring Call Reply where
  step s c := (s.reply c, s.apply c)

/-- Arguments of the initialization of one virtqueue, and the arbitrary former
content of its descriptor memory. -/
structure Setup where
  k : ℕ
  k_le : k ≤ 15
  itemSize : U16
  descPtr : U32
  buffer : U32
  table : Table
  notifyFc : Option QueueCb
  callbackFc : Option QueueCb
  masterPriv : U32
  remotePriv : U32

namespace Setup

def n (u : Setup) : ℕ := 2 ^ u.k

def conf (u : Setup) : QueueConf :=
  (queueInitBuffer (BitVec.ofNat 16 u.n) u.itemSize u.descPtr u.buffer u.table).1

def masterHandle (u : Setup) : Queue := queueCreate u.conf u.notifyFc u.masterPriv true
def remoteHandle (u : Setup) : Queue := queueCreate u.conf u.callbackFc u.remotePriv false

/-- `esp_amp_queue_init_buffer` followed by `esp_amp_queue_create` on both sides. -/
def start (u : Setup) : Vring where
  master := u.masterHandle
  remote := u.remoteHandle
  desc := (queueInitBuffer (BitVec.ofNat 16 u.n) u.itemSize u.descPtr u.buffer u.table).2

@[simp] theorem masterHandle_master (u : Setup) : u.masterHandle.master = true := rfl
@[simp] theorem remoteHandle_master (u : Setup) : u.remoteHandle.master = false := rfl

@[simp] theorem masterHandle_maxItemSize (u : Setup) :
    u.masterHandle.maxItemSize = u.itemSize := rfl

@[simp] theorem remoteHandle_maxItemSize (u : Setup) :
    u.remoteHandle.maxItemSize = u.itemSize := rfl

theorem n_pos (u : Setup) : 0 < u.n := Nat.two_pow_pos u.k

theorem n_le (u : Setup) : u.n ≤ 32768 :=
  (Nat.pow_le_pow_right (by decide) u.k_le).trans (by decide)

theorem toNat_n (u : Setup) : (BitVec.ofNat 16 u.n).toNat = u.n := by
  have h := u.n_le
  simp only [BitVec.toNat_ofNat]
  omega

/-- Addresses of the item buffers, in order. -/
def addrs (u : Setup) : List U32 := (List.range u.n).map (itemAddr u.buffer u.itemSize)

end Setup

structure Fifos where
  free : List U32
  sent : List (U32 × U16)
  allocated : ℕ
  received : ℕ
deriving DecidableEq, Repr

/-- The abstract machine: a free FIFO, a sent FIFO and two counters. -/
def fifoStep (maxItemSize : U16) (t : Fifos) : Call → Reply × Fifos
  | .alloc size =>
      if maxItemSize < size then ({ ret := espErrNoMem }, t) else
        match t.free with
        | [] => ({ ret := espErrNotFound }, t)
        | b :: bs =>
            ({ ret := espOk, buffer := b }, { t with free := bs, allocated := t.allocated + 1 })
  | .send b size =>
      if t.allocated = 0 then ({ ret := espErrNotAllowed }, t)
      else if maxItemSize < size then ({ ret := espErrNoMem }, t)
      else ({ ret := espOk },
        { t with sent := t.sent ++ [(b, size)], allocated := t.allocated - 1 })
  | .recv =>
      match t.sent with
      | [] => ({ ret := espErrNotFound }, t)
      | (b, size) :: rest =>
          ({ ret := espOk, buffer := b, size := size },
            { t with sent := rest, received := t.received + 1 })
  | .free b =>
      if t.received = 0 then ({ ret := espErrNotAllowed }, t)
      else ({ ret := espOk }, { t with free := t.free ++ [b], received := t.received - 1 })

def fifos (maxItemSize : U16) : Machine Fifos Call Reply where
  step := fifoStep maxItemSize

def Setup.fifos (u : Setup) : Fifos := ⟨u.addrs, [], 0, 0⟩

/-- The flip counter of a handle whose index has been advanced `m` times. -/
def flipAt (n m : ℕ) : U16 := if m / n % 2 == 1 then 0 else 1

def ringFlags (available used : Bool) : U16 :=
  (if available then availableMask 1 else 0) ||| (if used then usedMask 1 else 0)

theorem flagIsUsed_ringFlags (p a b : Bool) :
    flagIsUsed (if p then 0 else 1) (ringFlags a b) = (a == p && b == p) := by
  cases p <;> cases a <;> cases b <;> decide

theorem flagIsAvailable_ringFlags (p a b : Bool) :
    flagIsAvailable (if p then 0 else 1) (ringFlags a b) = (a != p && b == p) := by
  cases p <;> cases a <;> cases b <;> decide

theorem ringFlags_xor_available (a b : Bool) :
    ringFlags a b ^^^ availableMask 1 = ringFlags (!a) b := by
  cases a <;> cases b <;> decide

theorem ringFlags_xor_used (a b : Bool) :
    ringFlags a b ^^^ usedMask 1 = ringFlags a (!b) := by
  cases a <;> cases b <;> decide

/-- A handle after `free` allocations or receptions and `used` sends or frees. -/
def handleAt (q : Queue) (n free used : ℕ) : Queue :=
  { q with
    freeIndex := BitVec.ofNat 16 free
    usedIndex := BitVec.ofNat 16 used
    freeFlipCounter := flipAt n free
    usedFlipCounter := flipAt n used }

theorem and_size_sub_one {k : ℕ} (hk : k ≤ 15) (m : ℕ) :
    (BitVec.ofNat 16 m &&& (BitVec.ofNat 16 (2 ^ k) - 1)).toNat = m % 2 ^ k := by
  have hle : 2 ^ k ≤ 2 ^ 15 := Nat.pow_le_pow_right (by decide) hk
  have hpos : 0 < 2 ^ k := Nat.two_pow_pos k
  have hsub : (BitVec.ofNat 16 (2 ^ k) - 1).toNat = 2 ^ k - 1 := by
    have hone : (1 : BitVec 16).toNat = 1 := rfl
    simp only [BitVec.toNat_sub, BitVec.toNat_ofNat, hone]
    omega
  have hdvd : 2 ^ k ∣ 2 ^ 16 := Nat.pow_dvd_pow 2 (by omega)
  rw [BitVec.toNat_and, hsub, Nat.and_two_pow_sub_one_eq_mod, BitVec.toNat_ofNat,
    Nat.mod_mod_of_dvd _ hdvd]

theorem logicalNot_flipAt {n m : ℕ} (hn : 0 < n) :
    (if m % n + 1 = n then logicalNot (flipAt n m) else flipAt n m) = flipAt n (m + 1) := by
  by_cases h : m % n + 1 = n
  · rw [if_pos h, flipAt, flipAt, succ_div_of_last h]
    rcases Nat.mod_two_eq_zero_or_one (m / n) with hp | hp
    · simp [Nat.add_mod, hp, logicalNot]
    · simp [Nat.add_mod, hp, logicalNot]
  · rw [if_neg h, flipAt, flipAt, succ_div_of_not_last hn h]

section Handle
variable {u : Setup} {q : Queue}

@[simp] theorem handleAt_master (n free used : ℕ) :
    (handleAt q n free used).master = q.master := rfl

@[simp] theorem handleAt_maxItemSize (n free used : ℕ) :
    (handleAt q n free used).maxItemSize = q.maxItemSize := rfl

@[simp] theorem handleAt_notify (n free used : ℕ) :
    (handleAt q n free used).notify = q.notify := rfl

@[simp] theorem handleAt_freeFlipCounter (n free used : ℕ) :
    (handleAt q n free used).freeFlipCounter = flipAt n free := rfl

@[simp] theorem handleAt_usedFlipCounter (n free used : ℕ) :
    (handleAt q n free used).usedFlipCounter = flipAt n used := rfl

theorem qIdx_handleAt (hq : q.size = BitVec.ofNat 16 u.n) (free used m : ℕ) :
    (handleAt q u.n free used).qIdx (BitVec.ofNat 16 m) = m % u.n := by
  change (BitVec.ofNat 16 m &&& (q.size - 1)).toNat = m % u.n
  rw [hq]
  exact and_size_sub_one u.k_le m

theorem qIdx_freeIndex (hq : q.size = BitVec.ofNat 16 u.n) (free used : ℕ) :
    (handleAt q u.n free used).qIdx (handleAt q u.n free used).freeIndex = free % u.n :=
  qIdx_handleAt hq free used free

theorem qIdx_usedIndex (hq : q.size = BitVec.ofNat 16 u.n) (free used : ℕ) :
    (handleAt q u.n free used).qIdx (handleAt q u.n free used).usedIndex = used % u.n :=
  qIdx_handleAt hq free used used

theorem advanceFree_handleAt (hq : q.size = BitVec.ofNat 16 u.n) (free used : ℕ) :
    (handleAt q u.n free used).advanceFree = handleAt q u.n (free + 1) used := by
  have hidx := qIdx_handleAt hq free used free
  have hsize : (handleAt q u.n free used).size.toNat = u.n := by
    change q.size.toNat = u.n
    rw [hq, u.toNat_n]
  unfold Queue.advanceFree
  change { handleAt q u.n free used with
    freeIndex := BitVec.ofNat 16 free + 1
    freeFlipCounter := if (handleAt q u.n free used).qIdx (BitVec.ofNat 16 free) + 1 =
      (handleAt q u.n free used).size.toNat then logicalNot (flipAt u.n free)
      else flipAt u.n free } = _
  rw [hidx, hsize, logicalNot_flipAt u.n_pos, handleAt, handleAt, BitVec.ofNat_add]
  rfl

theorem advanceUsed_handleAt (hq : q.size = BitVec.ofNat 16 u.n) (free used : ℕ) :
    (handleAt q u.n free used).advanceUsed = handleAt q u.n free (used + 1) := by
  have hidx := qIdx_handleAt hq free used used
  have hsize : (handleAt q u.n free used).size.toNat = u.n := by
    change q.size.toNat = u.n
    rw [hq, u.toNat_n]
  unfold Queue.advanceUsed
  change { handleAt q u.n free used with
    usedIndex := BitVec.ofNat 16 used + 1
    usedFlipCounter := if (handleAt q u.n free used).qIdx (BitVec.ofNat 16 used) + 1 =
      (handleAt q u.n free used).size.toNat then logicalNot (flipAt u.n used)
      else flipAt u.n used } = _
  rw [hidx, hsize, logicalNot_flipAt u.n_pos, handleAt, handleAt, BitVec.ofNat_add]
  rfl

/-- At most `2 ^ 15` outstanding buffers keep the wrapping comparison exact. -/
theorem usedIndex_eq_freeIndex {free used : ℕ} (h : used ≤ free) (h' : free ≤ used + u.n) :
    (handleAt q u.n free used).usedIndex = (handleAt q u.n free used).freeIndex ↔
      used = free := by
  change BitVec.ofNat 16 used = BitVec.ofNat 16 free ↔ used = free
  have hn := u.n_le
  rw [← BitVec.toNat_inj, BitVec.toNat_ofNat, BitVec.toNat_ofNat]
  omega

end Handle

/-- Numbers of successful calls of the four kinds. -/
@[ext] structure Counters where
  allocs : ℕ := 0
  sends : ℕ := 0
  recvs : ℕ := 0
  frees : ℕ := 0
deriving DecidableEq, Repr

/-- The ghost counters explain both handles and every flag of the table. -/
structure Inv (u : Setup) (s : Vring) (c : Counters) : Prop where
  frees_le : c.frees ≤ c.recvs
  recvs_le : c.recvs ≤ c.sends
  sends_le : c.sends ≤ c.allocs
  allocs_le : c.allocs ≤ c.frees + u.n
  master : s.master = handleAt u.masterHandle u.n c.allocs c.sends
  remote : s.remote = handleAt u.remoteHandle u.n c.recvs c.frees
  flags : ∀ i < u.n, (s.desc i).flags = ringFlags (lapBit u.n c.sends i) (lapBit u.n c.frees i)

namespace Inv
variable {u : Setup} {s : Vring} {c : Counters}

theorem order (h : Inv u s c) : c.frees ≤ c.recvs ∧ c.recvs ≤ c.sends ∧ c.sends ≤ c.allocs ∧
    c.allocs ≤ c.frees + u.n :=
  ⟨h.frees_le, h.recvs_le, h.sends_le, h.allocs_le⟩

theorem flags_mod (h : Inv u s c) (m : ℕ) : (s.desc (m % u.n)).flags =
    ringFlags (lapBit u.n c.sends (m % u.n)) (lapBit u.n c.frees (m % u.n)) :=
  h.flags _ (Nat.mod_lt _ u.n_pos)

theorem flagIsUsed_iff (h : Inv u s c) {m : ℕ} (hm : c.sends ≤ m) (hm' : m ≤ c.frees + u.n) :
    flagIsUsed (flipAt u.n m) (s.desc (m % u.n)).flags = true ↔ m < c.frees + u.n := by
  have h₁ := h.frees_le
  have h₂ := h.recvs_le
  have hn := u.n_pos
  rw [h.flags_mod, flipAt, flagIsUsed_ringFlags]
  rcases Nat.lt_or_ge m (c.frees + u.n) with hlt | hge
  · rw [lapBit_of_window hm (by omega), lapBit_of_window (by omega) hlt]
    simp [hlt]
  · obtain rfl : m = c.frees + u.n := by omega
    rw [Nat.add_mod_right, Nat.add_div_right _ hn, lapBit_of_window le_rfl (by omega)]
    rcases Nat.mod_two_eq_zero_or_one (c.frees / u.n) with hp | hp
    · simp [Nat.add_mod, hp]
    · simp [Nat.add_mod, hp]

theorem flagIsAvailable_iff (h : Inv u s c) {m : ℕ} (hm : c.frees ≤ m) (hm' : m ≤ c.sends) :
    flagIsAvailable (flipAt u.n m) (s.desc (m % u.n)).flags = true ↔ m < c.sends := by
  have h₁ := h.sends_le
  have h₂ := h.allocs_le
  have hn := u.n_pos
  rw [h.flags_mod, flipAt, flagIsAvailable_ringFlags]
  rcases Nat.lt_or_ge m c.sends with hlt | hge
  · rw [lapBit_of_behind hlt (by omega) hn, lapBit_of_window hm (by omega)]
    cases (m / u.n % 2 == 1) <;> simp [hlt]
  · obtain rfl : m = c.sends := by omega
    rw [lapBit_of_window le_rfl (by omega)]
    simp

end Inv

section Spec
variable {u : Setup} {s : Vring} {c : Counters}

theorem start_inv (u : Setup) : Inv u u.start {} where
  frees_le := le_rfl
  recvs_le := le_rfl
  sends_le := le_rfl
  allocs_le := Nat.zero_le _
  master := by simp [Setup.start, handleAt, flipAt, Setup.masterHandle, queueCreate]
  remote := by simp [Setup.start, handleAt, flipAt, Setup.remoteHandle, queueCreate]
  flags := by
    intro i hi
    rw [lapBit_zero hi]
    simp only [Setup.start, queueInitBuffer, initDescs_apply, u.toNat_n]
    rw [if_pos ⟨Nat.zero_le _, by omega⟩]
    rfl

/-- The complete outcome of an allocation. -/
theorem alloc_spec (h : Inv u s c) (size : U16) :
    queueAllocTry s.master s.desc size =
      if u.itemSize < size then
        { ret := espErrNoMem, queue := s.master, desc := s.desc, pm := [.enter, .exit] }
      else if c.allocs < c.frees + u.n then
        { ret := espOk, buffer := (s.desc (c.allocs % u.n)).addr,
          queue := handleAt u.masterHandle u.n (c.allocs + 1) c.sends, desc := s.desc,
          slots := [c.allocs % u.n], pm := [.enter] }
      else
        { ret := espErrNotFound, queue := s.master, desc := s.desc,
          slots := [c.allocs % u.n], pm := [.enter, .exit] } := by
  have hflag := h.flagIsUsed_iff h.sends_le h.allocs_le
  have hq : u.masterHandle.size = BitVec.ofNat 16 u.n := rfl
  simp only [queueAllocTry, h.master, handleAt_master, handleAt_maxItemSize,
    handleAt_freeFlipCounter, qIdx_freeIndex hq, advanceFree_handleAt hq, u.masterHandle_master,
    u.masterHandle_maxItemSize, Bool.not_true, Bool.false_eq_true, if_false]
  split_ifs with h₁ h₂ h₃ h₃
  · rfl
  · simp [hflag.mpr h₃] at h₂
  · rfl
  · rfl
  · simp [mt hflag.mp h₃] at h₂

/-- The complete outcome of a send. -/
theorem send_spec (h : Inv u s c) (data : U32) (size : U16) :
    queueSendTry s.master s.desc data size =
      if c.sends = c.allocs then
        { ret := espErrNotAllowed, queue := s.master, desc := s.desc, pm := [.exit] }
      else if u.itemSize < size then
        { ret := espErrNoMem, queue := s.master, desc := s.desc, pm := [.exit] }
      else
        { ret := u.masterHandle.notify
          queue := handleAt u.masterHandle u.n c.allocs (c.sends + 1)
          desc := Function.update s.desc (c.sends % u.n)
            ⟨data, size, (s.desc (c.sends % u.n)).flags ^^^ availableMask 1⟩
          slots := [c.sends % u.n], notified := u.masterHandle.notifyFc.isSome,
          pm := [.exit] } := by
  obtain ⟨h₁, h₂, h₃, h₄⟩ := h.order
  have hq : u.masterHandle.size = BitVec.ofNat 16 u.n := rfl
  have heq := usedIndex_eq_freeIndex (q := u.masterHandle) h₃
    (show c.allocs ≤ c.sends + u.n by omega)
  simp only [queueSendTry, h.master, handleAt_master, handleAt_maxItemSize, handleAt_notify,
    handleAt_usedFlipCounter, qIdx_usedIndex hq, advanceUsed_handleAt hq, heq,
    u.masterHandle_master, u.masterHandle_maxItemSize, Bool.not_true, Bool.false_eq_true, if_false]
  split_ifs with g₁ g₂ g₃
  · rfl
  · rfl
  · have hflag := h.flagIsUsed_iff le_rfl (by omega)
    simp [hflag.mpr (by omega)] at g₃
  · rfl

/-- The complete outcome of a reception. -/
theorem recv_spec (h : Inv u s c) :
    queueRecvTry s.remote s.desc =
      if c.recvs < c.sends then
        { ret := espOk, buffer := (s.desc (c.recvs % u.n)).addr,
          size := (s.desc (c.recvs % u.n)).len,
          queue := handleAt u.remoteHandle u.n (c.recvs + 1) c.frees, desc := s.desc,
          slots := [c.recvs % u.n], pm := [.enter] }
      else
        { ret := espErrNotFound, queue := s.remote, desc := s.desc,
          slots := [c.recvs % u.n] } := by
  have hflag := h.flagIsAvailable_iff h.frees_le h.recvs_le
  have hq : u.remoteHandle.size = BitVec.ofNat 16 u.n := rfl
  simp only [queueRecvTry, h.remote, handleAt_master, handleAt_freeFlipCounter, qIdx_freeIndex hq,
    advanceFree_handleAt hq, u.remoteHandle_master, Bool.false_eq_true, if_false]
  split_ifs with h₁ h₂ h₂
  · simp [hflag.mpr h₂] at h₁
  · rfl
  · rfl
  · simp [mt hflag.mp h₂] at h₁

/-- The complete outcome of a free. -/
theorem free_spec (h : Inv u s c) (buffer : U32) :
    queueFreeTry s.remote s.desc buffer =
      if c.frees = c.recvs then
        { ret := espErrNotAllowed, queue := s.remote, desc := s.desc, pm := [.exit] }
      else
        { ret := espOk
          queue := handleAt u.remoteHandle u.n c.recvs (c.frees + 1)
          desc := Function.update s.desc (c.frees % u.n)
            ⟨buffer, u.itemSize, (s.desc (c.frees % u.n)).flags ^^^ usedMask 1⟩
          slots := [c.frees % u.n], pm := [.exit] } := by
  obtain ⟨h₁, h₂, h₃, h₄⟩ := h.order
  have hq : u.remoteHandle.size = BitVec.ofNat 16 u.n := rfl
  have heq := usedIndex_eq_freeIndex (q := u.remoteHandle) h₁
    (show c.recvs ≤ c.frees + u.n by omega)
  simp only [queueFreeTry, h.remote, handleAt_master, handleAt_maxItemSize,
    handleAt_usedFlipCounter, qIdx_usedIndex hq, advanceUsed_handleAt hq, heq,
    u.remoteHandle_master, u.remoteHandle_maxItemSize, Bool.false_eq_true, if_false]
  split_ifs with g₁ g₂
  · rfl
  · have hflag := h.flagIsAvailable_iff le_rfl (by omega)
    simp [hflag.mpr (by omega)] at g₂
  · rfl

/-- Counters after one more call. -/
def Setup.next (u : Setup) (c : Counters) : Call → Counters
  | .alloc size =>
      if u.itemSize < size then c
      else if c.allocs < c.frees + u.n then { c with allocs := c.allocs + 1 } else c
  | .send _ size =>
      if c.sends = c.allocs then c
      else if u.itemSize < size then c else { c with sends := c.sends + 1 }
  | .recv => if c.recvs < c.sends then { c with recvs := c.recvs + 1 } else c
  | .free _ => if c.frees = c.recvs then c else { c with frees := c.frees + 1 }

theorem next_alloc_ne {size : U16} : u.next c (.alloc size) ≠ c ↔
    ¬ u.itemSize < size ∧ c.allocs < c.frees + u.n := by
  simp only [Setup.next]
  split_ifs with g₁ g₂ <;> simp_all [Counters.ext_iff]

theorem next_send_ne {data : U32} {size : U16} : u.next c (.send data size) ≠ c ↔
    c.sends ≠ c.allocs ∧ ¬ u.itemSize < size := by
  simp only [Setup.next]
  split_ifs with g₁ g₂ <;> simp_all [Counters.ext_iff]

theorem next_recv_ne : u.next c .recv ≠ c ↔ c.recvs < c.sends := by
  simp only [Setup.next]
  split_ifs with g₁ <;> simp_all [Counters.ext_iff]

theorem next_free_ne {buffer : U32} : u.next c (.free buffer) ≠ c ↔ c.frees ≠ c.recvs := by
  simp only [Setup.next]
  split_ifs with g₁ <;> simp_all [Counters.ext_iff]

/-- A call that moves no counter changes neither the handles nor the table. -/
theorem apply_of_rejected (h : Inv u s c) {call : Call} (hc : u.next c call = c) :
    s.apply call = s := by
  cases call with
  | alloc size =>
      have g := mt next_alloc_ne.mpr (not_not.mpr hc)
      simp only [Vring.apply, Call.onMaster, if_true, Vring.outcome, alloc_spec h]
      split_ifs with g₁ g₂
      · rfl
      · exact (g ⟨g₁, g₂⟩).elim
      · rfl
  | send data size =>
      have g := mt next_send_ne.mpr (not_not.mpr hc)
      simp only [Vring.apply, Call.onMaster, if_true, Vring.outcome, send_spec h]
      split_ifs with g₁ g₂
      · rfl
      · rfl
      · exact (g ⟨g₁, g₂⟩).elim
  | recv =>
      have g := mt next_recv_ne.mpr (not_not.mpr hc)
      simp only [Vring.apply, Call.onMaster, Bool.false_eq_true, if_false, Vring.outcome,
        recv_spec h, if_neg g]
  | free buffer =>
      have g := mt next_free_ne.mpr (not_not.mpr hc)
      simp only [Vring.apply, Call.onMaster, Bool.false_eq_true, if_false, Vring.outcome,
        free_spec h, if_pos (not_not.mp g)]

theorem flags_after_send (h : Inv u s c) (d : Desc)
    (hd : d.flags = (s.desc (c.sends % u.n)).flags ^^^ availableMask 1) :
    ∀ i < u.n, (Function.update s.desc (c.sends % u.n) d i).flags =
      ringFlags (lapBit u.n (c.sends + 1) i) (lapBit u.n c.frees i) := by
  intro i hi
  by_cases he : i = c.sends % u.n
  · subst he
    rw [Function.update_self, hd, h.flags _ hi, ringFlags_xor_available,
      lapBit_succ_same u.n_pos]
  · rw [Function.update_of_ne he, h.flags i hi, lapBit_succ_ne hi he]

theorem flags_after_free (h : Inv u s c) (d : Desc)
    (hd : d.flags = (s.desc (c.frees % u.n)).flags ^^^ usedMask 1) :
    ∀ i < u.n, (Function.update s.desc (c.frees % u.n) d i).flags =
      ringFlags (lapBit u.n c.sends i) (lapBit u.n (c.frees + 1) i) := by
  intro i hi
  by_cases he : i = c.frees % u.n
  · subst he
    rw [Function.update_self, hd, h.flags _ hi, ringFlags_xor_used, lapBit_succ_same u.n_pos]
  · rw [Function.update_of_ne he, h.flags i hi, lapBit_succ_ne hi he]

/-- Every call, successful or not, keeps the invariant. -/
theorem inv_apply (h : Inv u s c) (call : Call) : Inv u (s.apply call) (u.next c call) := by
  obtain ⟨h₁, h₂, h₃, h₄⟩ := h.order
  cases call with
  | alloc size =>
      simp only [Vring.apply, Call.onMaster, if_true, Vring.outcome, alloc_spec h, Setup.next]
      split_ifs with g₁ g₂
      · exact h
      · exact ⟨h₁, h₂, Nat.le_succ_of_le h₃, g₂, rfl, h.remote, h.flags⟩
      · exact h
  | send data size =>
      simp only [Vring.apply, Call.onMaster, if_true, Vring.outcome, send_spec h, Setup.next]
      split_ifs with g₁ g₂
      · exact h
      · exact h
      · exact ⟨h₁, Nat.le_succ_of_le h₂, Nat.lt_of_le_of_ne h₃ g₁, h₄, rfl, h.remote,
          flags_after_send h _ rfl⟩
  | recv =>
      simp only [Vring.apply, Call.onMaster, Bool.false_eq_true, if_false, Vring.outcome,
        recv_spec h, Setup.next]
      split_ifs with g₁
      · exact ⟨Nat.le_succ_of_le h₁, g₁, h₃, h₄, h.master, rfl, h.flags⟩
      · exact h
  | free buffer =>
      simp only [Vring.apply, Call.onMaster, Bool.false_eq_true, if_false, Vring.outcome,
        free_spec h, Setup.next]
      split_ifs with g₁
      · exact h
      · exact ⟨Nat.lt_of_le_of_ne h₁ g₁, h₂, h₃, show c.allocs ≤ c.frees + 1 + u.n by omega,
          h.master, rfl, flags_after_free h _ rfl⟩

/-- Every reachable state is explained by some counters. -/
theorem exists_inv (u : Setup) (calls : List Call) :
    ∃ c, Inv u (vring.final u.start calls) c :=
  vring.final_invariant (P := fun s => ∃ c, Inv u s c) (A := fun _ => True)
    (fun _ call _ ⟨c, hc⟩ => ⟨u.next c call, inv_apply hc call⟩) ⟨{}, start_inv u⟩ calls
    (fun _ _ => trivial)

/-- What the table says at the positions still to be allocated and received. -/
def Setup.view (u : Setup) (s : Vring) (c : Counters) : Fifos where
  free := (List.Ico c.allocs (c.frees + u.n)).map fun j => (s.desc (j % u.n)).addr
  sent := (List.Ico c.recvs c.sends).map fun j =>
    ((s.desc (j % u.n)).addr, (s.desc (j % u.n)).len)
  allocated := c.allocs - c.sends
  received := c.recvs - c.frees

theorem view_start (u : Setup) : u.view u.start {} = u.fifos := by
  simp only [Setup.view, Setup.fifos, Nat.zero_add, List.Ico.zero_bot, Setup.addrs,
    List.range_zero, List.map_nil, Nat.sub_self, Fifos.mk.injEq, and_true]
  apply List.map_congr_left
  intro j hj
  rw [List.mem_range] at hj
  simp only [Setup.start, queueInitBuffer, initDescs_apply, u.toNat_n, Nat.mod_eq_of_lt hj]
  rw [if_pos ⟨Nat.zero_le _, by omega⟩, Nat.sub_zero]

/-- Writing one slot does not show at positions that avoid it. -/
theorem map_update_window {α : Type} {n lo hi p : ℕ} (f : Desc → α) (desc : Table) (d : Desc)
    (h : ∀ j, lo ≤ j → j < hi → j % n ≠ p % n) :
    ((List.Ico lo hi).map fun j => f (Function.update desc (p % n) d (j % n))) =
      (List.Ico lo hi).map fun j => f (desc (j % n)) := by
  apply List.map_congr_left
  intro j hj
  rw [List.Ico.mem] at hj
  rw [Function.update_of_ne (h j hj.1 hj.2)]

/-- Reading the abstract machine off the table commutes with every call. -/
theorem view_apply (h : Inv u s c) (call : Call) :
    u.view (s.apply call) (u.next c call) = (fifoStep u.itemSize (u.view s c) call).2 := by
  obtain ⟨h₁, h₂, h₃, h₄⟩ := h.order
  cases call with
  | alloc size =>
      simp only [Vring.apply, Call.onMaster, if_true, Vring.outcome, alloc_spec h, Setup.next,
        fifoStep]
      split_ifs with g₁ g₂
      · rfl
      · simp only [Setup.view, List.Ico.eq_cons g₂, List.map_cons, Fifos.mk.injEq, true_and,
          and_true]
        omega
      · simp only [Setup.view, List.Ico.eq_nil_of_le (Nat.le_of_not_lt g₂), List.map_nil]
  | send data size =>
      simp only [Vring.apply, Call.onMaster, if_true, Vring.outcome, send_spec h, Setup.next,
        fifoStep, show (u.view s c).allocated = c.allocs - c.sends from rfl]
      by_cases g₁ : c.sends = c.allocs
      · rw [if_pos g₁, if_pos g₁, if_pos (by omega)]
      · have g₀ : ¬ c.allocs - c.sends = 0 := by omega
        rw [if_neg g₁, if_neg g₁, if_neg g₀]
        split_ifs with g₂
        · rfl
        · simp only [Setup.view, List.Ico.succ_top h₂, List.map_append, List.map_cons,
            List.map_nil, Function.update_self, Fifos.mk.injEq, and_true]
          refine ⟨?_, ?_, by omega⟩
          · exact map_update_window Desc.addr s.desc _
              fun j hj hj' => (slot_ne (by omega) (by omega)).symm
          · rw [map_update_window (fun d => (d.addr, d.len)) s.desc _
              fun j hj hj' => slot_ne (by omega) (by omega)]
  | recv =>
      simp only [Vring.apply, Call.onMaster, Bool.false_eq_true, if_false, Vring.outcome,
        recv_spec h, Setup.next, fifoStep]
      split_ifs with g₁
      · simp only [Setup.view, List.Ico.eq_cons g₁, List.map_cons, Fifos.mk.injEq, true_and]
        omega
      · simp only [Setup.view, List.Ico.eq_nil_of_le (Nat.le_of_not_lt g₁), List.map_nil]
  | free buffer =>
      simp only [Vring.apply, Call.onMaster, Bool.false_eq_true, if_false, Vring.outcome,
        free_spec h, Setup.next, fifoStep,
        show (u.view s c).received = c.recvs - c.frees from rfl]
      by_cases g₁ : c.frees = c.recvs
      · rw [if_pos g₁, if_pos g₁, if_pos (by omega)]
      · have g₀ : ¬ c.recvs - c.frees = 0 := by omega
        rw [if_neg g₁, if_neg g₁, if_neg g₀]
        have htop : List.Ico c.allocs (c.frees + 1 + u.n) =
            List.Ico c.allocs (c.frees + u.n) ++ [c.frees + u.n] := by
          rw [Nat.add_right_comm, List.Ico.succ_top h₄]
        simp only [Setup.view, htop, List.map_append, List.map_cons, List.map_nil,
          Nat.add_mod_right, Function.update_self, Fifos.mk.injEq, true_and]
        refine ⟨?_, ?_, by omega⟩
        · rw [map_update_window Desc.addr s.desc _
            fun j hj hj' => (slot_ne (by omega) (by omega)).symm]
        · exact map_update_window (fun d => (d.addr, d.len)) s.desc _
            fun j hj hj' => (slot_ne (by omega) (by omega)).symm

/-- With a quiet notify function the answers agree as well. -/
theorem reply_view (h : Inv u s c) (hnotify : u.masterHandle.notify = espOk) (call : Call) :
    s.reply call = (fifoStep u.itemSize (u.view s c) call).1 := by
  obtain ⟨h₁, h₂, h₃, h₄⟩ := h.order
  cases call with
  | alloc size =>
      simp only [Vring.reply, Vring.outcome, alloc_spec h, fifoStep]
      split_ifs with g₁ g₂
      · rfl
      · simp only [Setup.view, List.Ico.eq_cons g₂, List.map_cons]
      · simp only [Setup.view, List.Ico.eq_nil_of_le (Nat.le_of_not_lt g₂), List.map_nil]
  | send data size =>
      simp only [Vring.reply, Vring.outcome, send_spec h, fifoStep, hnotify,
        show (u.view s c).allocated = c.allocs - c.sends from rfl]
      by_cases g₁ : c.sends = c.allocs
      · rw [if_pos g₁, if_pos (by omega)]
      · have g₀ : ¬ c.allocs - c.sends = 0 := by omega
        rw [if_neg g₁, if_neg g₀]
        split_ifs <;> rfl
  | recv =>
      simp only [Vring.reply, Vring.outcome, recv_spec h, fifoStep]
      split_ifs with g₁
      · simp only [Setup.view, List.Ico.eq_cons g₁, List.map_cons]
      · simp only [Setup.view, List.Ico.eq_nil_of_le (Nat.le_of_not_lt g₁), List.map_nil]
  | free buffer =>
      simp only [Vring.reply, Vring.outcome, free_spec h, fifoStep,
        show (u.view s c).received = c.recvs - c.frees from rfl]
      by_cases g₁ : c.frees = c.recvs
      · rw [if_pos g₁, if_pos (by omega)]
      · have g₀ : ¬ c.recvs - c.frees = 0 := by omega
        rw [if_neg g₁, if_neg g₀]

end Spec

/-- The notify function is absent or returns zero. -/
def Setup.QuietNotify (u : Setup) : Prop := ∀ f, u.notifyFc = some f → f u.masterPriv = espOk

theorem Setup.QuietNotify.notify {u : Setup} (h : u.QuietNotify) :
    u.masterHandle.notify = espOk := by
  have hfc : u.masterHandle.notifyFc = u.notifyFc := rfl
  have hpriv : u.masterHandle.privData = u.masterPriv := rfl
  rw [Queue.notify, hfc, hpriv]
  cases hf : u.notifyFc with
  | none => rfl
  | some f => exact h f hf

/-- The two machines stand in correspondence through some ghost counters. -/
def Refines (u : Setup) (s : Vring) (t : Fifos) : Prop := ∃ c, Inv u s c ∧ t = u.view s c

theorem refines_start (u : Setup) : Refines u u.start u.fifos :=
  ⟨{}, start_inv u, (view_start u).symm⟩

theorem refines_step {u : Setup} (hu : u.QuietNotify) {s : Vring} {t : Fifos}
    (h : Refines u s t) (call : Call) :
    (vring.step s call).1 = ((fifos u.itemSize).step t call).1 ∧
      Refines u (vring.step s call).2 ((fifos u.itemSize).step t call).2 := by
  obtain ⟨c, hi, rfl⟩ := h
  exact ⟨reply_view hi hu.notify call,
    u.next c call, inv_apply hi call, (view_apply hi call).symm⟩

/-- Every finite run of calls is answered exactly as by the pair of FIFOs. -/
theorem virtqueue_refines_fifos (u : Setup) (hu : u.QuietNotify) (calls : List Call) :
    vring.replies u.start calls = (fifos u.itemSize).replies u.fifos calls :=
  Machine.replies_eq_of_simulation vring (fifos u.itemSize)
    (fun _ _ call h => refines_step hu h call) (refines_start u) calls

/-- Two buffers of sixteen bytes, with a notify function that returns zero. -/
def twoBuffers : Setup where
  k := 1
  k_le := by decide
  itemSize := 16
  descPtr := 0x4087a600
  buffer := 0x4087a610
  table := fun _ => ⟨0, 0, 0⟩
  notifyFc := some fun _ => 0
  callbackFc := none
  masterPriv := 0
  remotePriv := 0

theorem twoBuffers_quietNotify : twoBuffers.QuietNotify := by
  intro f hf
  cases hf
  rfl

theorem twoBuffers_replies : twoBuffers.QuietNotify ∧
    vring.replies twoBuffers.start
        [.send 0 4, .alloc 17, .alloc 4, .recv, .send 0x4087a610 4, .recv, .alloc 0, .alloc 0,
          .free 0x4087a610, .alloc 0] =
      [⟨espErrNotAllowed, 0, 0⟩, ⟨espErrNoMem, 0, 0⟩, ⟨espOk, 0x4087a610, 0⟩,
        ⟨espErrNotFound, 0, 0⟩, ⟨espOk, 0, 0⟩, ⟨espOk, 0x4087a610, 4⟩, ⟨espOk, 0x4087a620, 0⟩,
        ⟨espErrNotFound, 0, 0⟩, ⟨espOk, 0, 0⟩, ⟨espOk, 0x4087a610, 0⟩] := by
  refine ⟨twoBuffers_quietNotify, ?_⟩
  rw [virtqueue_refines_fifos twoBuffers twoBuffers_quietNotify]
  decide

end EspAmp.VirtqueueFifo
