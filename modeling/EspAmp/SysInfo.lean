import EspAmp.ByteMemory
import EspAmp.ReplyMachine
import Mathlib.Tactic.Linarith

/-!
# The SysInfo allocator

`esp_amp_sys_info.c` over byte memory. A pool begins with a sentinel header and
holds a list of headers that is threaded through the very memory handed out to
clients: each header stores an id, the requested size and a pointer to the next
header, which is recomputed from the stored size of the last one. The two list
walks take fuel; running out of it is reported apart from every answer of the
code. Addresses follow `esp_amp_mem_priv.h`, with the Kconfig ranges of the
sizes carried by the configuration.
-/
namespace EspAmp.SysInfo
open ByteMemory ReplyMachine

inductive Target where
  | esp32c5 | esp32c6 | esp32p4
deriving DecidableEq, Repr

/-- `CONFIG_ESP_AMP_SUBCORE_TYPE_LP_CORE`. -/
def Target.lpCore : Target → Bool
  | .esp32c5 | .esp32c6 => true
  | .esp32p4 => false

def Target.hpSharedMemEnd : Target → ℕ
  | .esp32c6 => 0x4087e560
  | .esp32c5 => 0x4085e4f0
  | .esp32p4 => 0x4ff7f000

def alignDown (size align : ℕ) : ℕ := size - size % align
def alignUp (size align : ℕ) : ℕ := alignDown (size + align - 1) align

/-- Build options. `RESERVE_RTC_MEM` and `CONFIG_ULP_COPROC_RESERVE_MEM` come
from ESP-IDF and name parts of the 16 KB of RTC RAM. -/
structure MemConfig where
  target : Target
  hpSharedMemSize : ℕ
  hp_range : 1024 ≤ hpSharedMemSize ∧
    hpSharedMemSize ≤ if target.lpCore then 20480 else 65536
  rtcSharedMemSize : ℕ
  rtc_range : 2 ≤ rtcSharedMemSize ∧ rtcSharedMemSize ≤ 1024
  reserveRtcMem : ℕ
  ulpCoprocReserveMem : ℕ
  rtc_ram : reserveRtcMem + ulpCoprocReserveMem ≤ 0x4000

/-- A pool inside the address space, with room for its sentinel. -/
structure Pool where
  start : ℕ
  stop : ℕ
  start_pos : 0 < start
  sentinel : start + 8 ≤ stop
  stop_le : stop ≤ 0x60000000

namespace MemConfig
variable (cfg : MemConfig)

def hpSharedMemStart : ℕ := alignDown (cfg.target.hpSharedMemEnd - cfg.hpSharedMemSize) 0x10
def hpPoolStart : ℕ := cfg.hpSharedMemStart + 0x20
def rtcPoolSize : ℕ := alignUp cfg.rtcSharedMemSize 0x10
def rtcPoolStart : ℕ :=
  0x50000000 + cfg.reserveRtcMem + alignDown cfg.ulpCoprocReserveMem 0x8 - cfg.rtcPoolSize

def hpPool : Pool where
  start := cfg.hpPoolStart
  stop := cfg.target.hpSharedMemEnd
  start_pos := Nat.succ_pos _
  sentinel := by
    have h := cfg.hp_range.1
    have he : 0x4085e4f0 ≤ cfg.target.hpSharedMemEnd := by cases cfg.target <;> decide
    simp only [hpPoolStart, hpSharedMemStart, alignDown]
    omega
  stop_le := by cases cfg.target <;> decide

def rtcPool : Pool where
  start := cfg.rtcPoolStart
  stop := cfg.rtcPoolStart + cfg.rtcPoolSize
  start_pos := by
    have h := cfg.rtc_range.2
    simp only [rtcPoolStart, rtcPoolSize, alignUp, alignDown]
    omega
  sentinel := by
    have h := cfg.rtc_range.1
    simp only [rtcPoolSize, alignUp, alignDown]
    omega
  stop_le := by
    have h := cfg.rtc_range
    have h' := cfg.rtc_ram
    simp only [rtcPoolStart, rtcPoolSize, alignUp, alignDown]
    omega

end MemConfig

/-- `esp_amp_sys_info_cap_t`. -/
inductive Cap where
  | hp | rtc
deriving DecidableEq, Repr

/-- The RTC pool exists on LP-core targets only. -/
def MemConfig.pool (cfg : MemConfig) : Cap → Option Pool
  | .hp => some cfg.hpPool
  | .rtc => if cfg.target.lpCore then some cfg.rtcPool else none

def addr (a : ℕ) : U32 := BitVec.ofNat 32 a

def infoIdAt (m : Memory 32) (e : U32) : U16 := word16 m e
def sizeAt (m : Memory 32) (e : U32) : U16 := word16 m (e + 2#32)
def nextAt (m : Memory 32) (e : U32) : U32 := word32 m (e + 4#32)

def getSizeWord (size : U16) : U16 :=
  if size &&& 3#16 ≠ 0 then (size >>> 2) + 1 else size >>> 2

/-- `4 * get_size_word(size)`, as an offset. -/
def sizeBytes (size : U16) : U32 := 4#32 * (getSizeWord size).setWidth 32

/-- The search loop of an allocation: the last header, or `none` once the next
one carries the requested id. -/
def lastEntry (m : Memory 32) (infoId : U16) : ℕ → U32 → Option (Option U32)
  | 0, _ => none
  | fuel + 1, e =>
      if nextAt m e = 0 then some (some e)
      else if infoIdAt m (nextAt m e) = infoId then some none
      else lastEntry m infoId fuel (nextAt m e)

def linkEntry (m : Memory 32) (e start : U32) (infoId size : U16) : Memory 32 :=
  write16 (write16 (write32 (write32 m (e + 4#32) start) (start + 4#32) 0) start infoId)
    (start + 2#32) size

/-- `esp_amp_sys_info_alloc` in one pool; a null pointer is zero. -/
def poolAlloc (p : Pool) (fuel : ℕ) (m : Memory 32) (infoId size : U16) :
    Option (U32 × Memory 32) :=
  match lastEntry m infoId fuel (addr p.start) with
  | none => none
  | some none => some (0, m)
  | some (some e) =>
      let start := e + 8#32 + sizeBytes (sizeAt m e)
      let stop := start + 8#32 + sizeBytes size
      if addr p.stop < stop then some (0, m)
      else some (start + 8#32, linkEntry m e start infoId size)

def sysInfoAlloc (cfg : MemConfig) (fuel : ℕ) (m : Memory 32) (infoId size : U16) (cap : Cap) :
    Option (U32 × Memory 32) :=
  match cfg.pool cap with
  | none => some (0, m)
  | some p => poolAlloc p fuel m infoId size

/-- The search loop of `esp_amp_sys_info_get`. -/
def findEntry (m : Memory 32) (infoId : U16) : ℕ → U32 → Option (Option U32)
  | 0, _ => none
  | fuel + 1, e =>
      if e = 0 then some none
      else if infoIdAt m e = infoId then some (some e)
      else findEntry m infoId fuel (nextAt m e)

/-- `esp_amp_sys_info_get`: the buffer with its size, or a null pointer. -/
def sysInfoGet (cfg : MemConfig) (fuel : ℕ) (m : Memory 32) (infoId : U16) (cap : Cap) :
    Option (Option (U32 × U16)) :=
  match cfg.pool cap with
  | none => some none
  | some p =>
      (findEntry m infoId fuel (nextAt m (addr p.start))).map
        (Option.map fun e => (e + 8#32, sizeAt m e))

def initPool (p : Pool) (m : Memory 32) : Memory 32 :=
  write32 (write16 (write16 m (addr p.start) 0xffff) (addr p.start + 2#32) 0)
    (addr p.start + 4#32) 0

/-- `esp_amp_sys_info_init` on the main core. -/
def sysInfoInit (cfg : MemConfig) (m : Memory 32) : Memory 32 :=
  let m := initPool cfg.hpPool m
  if cfg.target.lpCore then initPool cfg.rtcPool m else m

/-- One successful allocation, as its caller sees it. -/
structure Grant where
  id : U16
  size : U16
  buffer : U32
deriving DecidableEq, Repr

/-- Bytes of a request rounded up to words. -/
def rounded (size : U16) : ℕ := 4 * ((size.toNat + 3) / 4)

theorem toNat_getSizeWord (size : U16) : (getSizeWord size).toNat = (size.toNat + 3) / 4 := by
  have hlt := size.isLt
  have hand : (size &&& 3#16).toNat = size.toNat % 4 := by
    rw [BitVec.toNat_and]
    exact Nat.and_two_pow_sub_one_eq_mod size.toNat 2
  have hshift : (size >>> 2).toNat = size.toNat / 4 := by
    rw [BitVec.toNat_ushiftRight, Nat.shiftRight_eq_div_pow]
  unfold getSizeWord
  split_ifs with h
  · have hne : size.toNat % 4 ≠ 0 := by
      intro hz
      exact h (BitVec.eq_of_toNat_eq (by rw [hand, hz]; rfl))
    rw [BitVec.toNat_add, hshift, show (1 : BitVec 16).toNat = 1 from rfl]
    omega
  · have heq : size.toNat % 4 = 0 := by
      rw [← hand, not_not.mp h]
      rfl
    rw [hshift]
    omega

theorem sizeBytes_eq (size : U16) : sizeBytes size = addr (rounded size) := by
  have hlt := size.isLt
  apply BitVec.eq_of_toNat_eq
  simp only [sizeBytes, addr, rounded, BitVec.toNat_mul, BitVec.toNat_setWidth,
    BitVec.toNat_ofNat, toNat_getSizeWord]
  omega

theorem rounded_lt (size : U16) : rounded size ≤ 65536 := by
  have hlt := size.isLt
  unfold rounded
  omega

theorem size_le_rounded (size : U16) : size.toNat ≤ rounded size := by
  unfold rounded
  omega

theorem addr_add (a b : ℕ) : addr a + BitVec.ofNat 32 b = addr (a + b) :=
  (BitVec.ofNat_add _ _).symm

theorem toNat_addr {a : ℕ} (h : a < 2 ^ 32) : (addr a).toNat = a := by
  rw [addr, BitVec.toNat_ofNat, Nat.mod_eq_of_lt h]

theorem within_addr {a n : ℕ} {x : U32} (ha : a < 2 ^ 32) (h : a + n ≤ 2 ^ 32) :
    Within (addr a) n x ↔ a ≤ x.toNat ∧ x.toNat < a + n := by
  have := within_iff (a := addr a) (x := x) (n := n) (by rw [toNat_addr ha]; exact h)
  rwa [toNat_addr ha] at this

theorem not_within_addr {a n : ℕ} {x : U32} (h : a + n < 2 ^ 32)
    (hx : x.toNat < a ∨ a + n ≤ x.toNat) : ¬ Within (addr a) n x := by
  rw [within_addr (by omega) (by omega)]
  omega

theorem apart_addr {a n b k : ℕ} (ha : a + n < 2 ^ 32) (hb : b + k < 2 ^ 32)
    (h : a + n ≤ b ∨ b + k ≤ a) : Apart (addr a) n (addr b) k := by
  intro x hx
  rw [within_addr (by omega) (by omega)] at hx
  exact not_within_addr hb (by omega)

end EspAmp.SysInfo
