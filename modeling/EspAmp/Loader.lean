import EspAmp.SysInfo

/-!
# Loading the subcore

`esp_amp_load_sub` of `esp_amp_loader.c`. The image is constant data, given by its
bytes at every offset from `sub_bin`, so parsing it does not depend on the memory that
is loaded. Addresses are compared as signed words, as `intptr_t` is on these targets,
and every bound of a reserved region counts as a valid address. A run keeps what the
rest of the program can see of it: the memory, the headers in the order of their
indices, the copied regions, and the part of HP RAM offered to the heap.
-/
namespace EspAmp.Loader
open ByteMemory
open SysInfo (MemConfig alignDown addr)

/-- `ESP_IMAGE_MAX_SEGMENTS` -/
def imageMaxSegments : ℕ := 16

/-- `ESP_APP_DESC_MAGIC_WORD` -/
def appDescMagicWord : U32 := 0xabcd5432

/-- Build options of the loader. The RTC pool lies in the memory reserved for the
coprocessor, and the flash mapping apart from the RAM that is reserved. -/
structure Build where
  mem : MemConfig
  /-- `CONFIG_ESP_AMP_SUBCORE_BUILD_TYPE_PURE_RTC_RAM_APP` -/
  pureRtcRamApp : Bool
  pure_lp : pureRtcRamApp = true → mem.target.lpCore = true
  /-- `CONFIG_ESP_AMP_SUBCORE_USE_HP_MEM_SIZE` -/
  hpMemSize : ℕ
  hp_range : (if mem.target.lpCore then 16384 else 65536) ≤ hpMemSize ∧
    hpMemSize ≤ if mem.target.lpCore then 49152 else 196608
  rtc_room : mem.target.lpCore = true → mem.rtcPoolSize ≤ alignDown mem.ulpCoprocReserveMem 0x8
  /-- `SOC_DROM_LOW` and `SOC_DROM_HIGH` -/
  dromLow : ℕ
  dromHigh : ℕ
  drom_apart : mem.hpSharedMemStart < dromLow ∨ dromHigh < mem.hpSharedMemStart - hpMemSize
  drom_below : dromLow ≤ dromHigh ∧ dromHigh < 0x50000000

namespace Build
variable (b : Build)

/-- `SUBCORE_USE_HP_MEM_END` -/
def hpMemEnd : ℕ := b.mem.hpSharedMemStart
/-- `SUBCORE_USE_HP_MEM_START` -/
def hpMemStart : ℕ := b.hpMemEnd - b.hpMemSize
/-- `ulp_base_address` -/
def ulpBase : ℕ := 0x50000000 + b.mem.reserveRtcMem
/-- The end of the RTC RAM reserved for the coprocessor. -/
def rtcEnd : ℕ := b.ulpBase + alignDown b.mem.ulpCoprocReserveMem 0x8
/-- `ULP_RESET_HANDLER_ADDR` -/
def ulpResetHandlerAddr : U32 := addr (b.ulpBase + 0x80)

theorem hpMemEnd_bounds : 0x40850000 ≤ b.hpMemEnd ∧ b.hpMemEnd < 0x50000000 := by
  have hsize := b.mem.hp_range.2
  have hlimit : 0x40850010 + (if b.mem.target.lpCore then 20480 else 65536) ≤
      b.mem.target.hpSharedMemEnd := by
    cases b.mem.target <;> decide
  have htop : b.mem.target.hpSharedMemEnd < 0x50000000 := by cases b.mem.target <;> decide
  simp only [hpMemEnd, MemConfig.hpSharedMemStart, alignDown]
  omega

theorem hpMemSize_bounds : 0 < b.hpMemSize ∧ b.hpMemSize ≤ 196608 := by
  have h := b.hp_range
  split_ifs at h
  · omega
  · omega

theorem hpMemStart_add_size : b.hpMemStart + b.hpMemSize = b.hpMemEnd := by
  have h := b.hpMemEnd_bounds
  have hsize := b.hpMemSize_bounds
  rw [hpMemStart]
  omega

theorem rtcEnd_bounds : b.ulpBase ≤ b.rtcEnd ∧ b.rtcEnd ≤ 0x50004000 := by
  have h := b.mem.rtc_ram
  simp only [rtcEnd, ulpBase, alignDown]
  omega

end Build

/-- Both bounds of a range of `intptr_t` are inside. -/
def inRange (start stop : ℕ) (a : U32) : Bool := (addr start).sle a && a.sle (addr stop)

section Ranges
variable {start stop : ℕ} {a : U32}

/-- The bounds are small, so a signed comparison with both is an unsigned one. -/
theorem inRange_iff (hstart : start < 2 ^ 31) (hstop : stop < 2 ^ 31) :
    inRange start stop a = true ↔ start ≤ a.toNat ∧ a.toNat ≤ stop := by
  have ha := a.isLt
  rw [inRange, Bool.and_eq_true, BitVec.sle_iff_toInt_le, BitVec.sle_iff_toInt_le]
  simp only [addr, BitVec.toInt_eq_toNat_cond, BitVec.toNat_ofNat]
  omega

end Ranges

def isValidSubcoreAppDramAddr (b : Build) (a : U32) : Bool := inRange b.hpMemStart b.hpMemEnd a

def isValidSubcoreAppRtcramAddr (b : Build) (a : U32) : Bool := inRange b.ulpBase b.rtcEnd a

def isValidSubcoreAppAddr (b : Build) (a : U32) : Bool :=
  (!b.pureRtcRamApp && isValidSubcoreAppDramAddr b a) ||
    (b.mem.target.lpCore && isValidSubcoreAppRtcramAddr b a)

section Addresses
variable {b : Build} {a : U32}

theorem dramAddr_iff :
    isValidSubcoreAppDramAddr b a = true ↔ b.hpMemStart ≤ a.toNat ∧ a.toNat ≤ b.hpMemEnd := by
  have h := b.hpMemEnd_bounds
  have hsum := b.hpMemStart_add_size
  exact inRange_iff (by omega) (by omega)

theorem rtcramAddr_iff :
    isValidSubcoreAppRtcramAddr b a = true ↔ b.ulpBase ≤ a.toNat ∧ a.toNat ≤ b.rtcEnd := by
  have h := b.rtcEnd_bounds
  exact inRange_iff (by omega) (by omega)

theorem appAddr_iff :
    isValidSubcoreAppAddr b a = true ↔
      (b.pureRtcRamApp = false ∧ isValidSubcoreAppDramAddr b a = true) ∨
        (b.mem.target.lpCore = true ∧ isValidSubcoreAppRtcramAddr b a = true) := by
  simp [isValidSubcoreAppAddr]

end Addresses

/-- `esp_image_segment_header_t` -/
structure Segment where
  loadAddr : U32
  dataLen : U32
deriving DecidableEq, Repr

def Segment.stop (seg : Segment) : U32 := seg.loadAddr + seg.dataLen

section Image
variable (image : Memory 32)

def segmentCount : U8 := image 1
def entryAddr : U32 := word32 image 4
def segmentAt (off : U32) : Segment := ⟨word32 image off, word32 image (off + 4#32)⟩

end Image

/-- The segment is copied to RAM. -/
def copied (b : Build) (seg : Segment) : Bool :=
  isValidSubcoreAppAddr b seg.loadAddr && isValidSubcoreAppAddr b seg.stop

/-- The segment is taken for the application descriptor. -/
def inDrom (b : Build) (seg : Segment) : Bool :=
  (addr b.dromLow).sle seg.loadAddr && seg.stop.sle (addr b.dromHigh)

/-- The local variables of a call and the memory. -/
structure State where
  ret : Int
  mem : Memory 32
  nextAddr : U32
  segments : List Segment
  copies : List (U32 × ℕ)
  unusedStart : U32

/-- The end of a copied segment in HP RAM may raise the start of the unused part. -/
def raiseUnused (b : Build) (unusedStart segmentEnd : U32) : U32 :=
  if b.pureRtcRamApp = false ∧ isValidSubcoreAppDramAddr b segmentEnd ∧
      unusedStart.slt segmentEnd then segmentEnd
  else unusedStart

/-- One iteration over the segments. -/
def loadSegment (b : Build) (image : Memory 32) (s : State) : State :=
  let seg := segmentAt image s.nextAddr
  let nextAddr := s.nextAddr + 8#32
  let s := { s with segments := s.segments ++ [seg], nextAddr := nextAddr }
  if copied b seg then
    { s with
      mem := write s.mem seg.loadAddr (read image nextAddr seg.dataLen.toNat)
      nextAddr := nextAddr + seg.dataLen
      copies := s.copies ++ [(seg.loadAddr, seg.dataLen.toNat)]
      unusedStart := raiseUnused b s.unusedStart seg.stop }
  else if inDrom b seg then
    if word32 image nextAddr = appDescMagicWord then { s with nextAddr := nextAddr + seg.dataLen }
    else { s with ret := espFail }
  else { s with ret := espFail }

section Iteration
variable {b : Build} {image : Memory 32} {s : State} {seg : Segment}

theorem loadSegment_of_copied (hseg : segmentAt image s.nextAddr = seg)
    (h : copied b seg = true) :
    loadSegment b image s =
      { ret := s.ret
        mem := write s.mem seg.loadAddr (read image (s.nextAddr + 8#32) seg.dataLen.toNat)
        nextAddr := s.nextAddr + 8#32 + seg.dataLen
        segments := s.segments ++ [seg]
        copies := s.copies ++ [(seg.loadAddr, seg.dataLen.toNat)]
        unusedStart := raiseUnused b s.unusedStart seg.stop } := by
  subst hseg
  exact if_pos h

theorem loadSegment_of_skipped (hseg : segmentAt image s.nextAddr = seg)
    (h : copied b seg = false) (hdrom : inDrom b seg = true)
    (hmagic : word32 image (s.nextAddr + 8#32) = appDescMagicWord) :
    loadSegment b image s =
      { s with
        nextAddr := s.nextAddr + 8#32 + seg.dataLen
        segments := s.segments ++ [seg] } := by
  subst hseg
  simp only [loadSegment, h, hdrom, hmagic, Bool.false_eq_true, if_false, if_true]

theorem loadSegment_of_refused (hseg : segmentAt image s.nextAddr = seg)
    (h : copied b seg = false)
    (hdrom : ¬ (inDrom b seg = true ∧ word32 image (s.nextAddr + 8#32) = appDescMagicWord)) :
    loadSegment b image s =
      { s with
        ret := espFail
        nextAddr := s.nextAddr + 8#32
        segments := s.segments ++ [seg] } := by
  subst hseg
  rw [not_and] at hdrom
  simp only [loadSegment, h, Bool.false_eq_true, if_false]
  split_ifs with hin hmagic
  · exact absurd hmagic (hdrom hin)
  · rfl
  · rfl

end Iteration

/-- The loop over `left` more segments, which a failure ends. -/
def loadSegments (b : Build) (image : Memory 32) : ℕ → State → State
  | 0, s => s
  | left + 1, s =>
      if (loadSegment b image s).ret = espOk then loadSegments b image left (loadSegment b image s)
      else loadSegment b image s

def memset (m : Memory 32) (a : U32) (n : ℕ) : Memory 32 := write m a (List.replicate n 0)

/-- The regions that a call clears. -/
def cleared (b : Build) : List (U32 × ℕ) :=
  (if b.pureRtcRamApp then [] else [(addr b.hpMemStart, b.hpMemSize)]) ++
    if b.mem.target.lpCore then
      [(addr b.ulpBase, b.mem.ulpCoprocReserveMem - b.mem.rtcPoolSize)]
    else []

def clearReserved (b : Build) (m : Memory 32) : Memory 32 :=
  (cleared b).foldl (fun m r => memset m r.1 r.2) m

def validEntry (b : Build) (image : Memory 32) : Bool :=
  if b.mem.target.lpCore then entryAddr image == b.ulpResetHandlerAddr
  else isValidSubcoreAppAddr b (entryAddr image)

/-- The variables in front of the loop. -/
def State.start (b : Build) (m : Memory 32) : State where
  ret := espOk
  mem := clearReserved b m
  nextAddr := 24
  segments := []
  copies := []
  unusedStart := addr b.hpMemStart

/-- The state of `esp_amp_load_sub` behind the loop. -/
def loadSubLoop (b : Build) (image m : Memory 32) : State :=
  if validEntry b image then
    loadSegments b image (segmentCount image).toNat (State.start b m)
  else { State.start b m with ret := espFail }

/-- What a call does: its result, the memory, the region it offers to the heap, and the
address from which an HP subcore boots. -/
structure Outcome where
  ret : Int
  mem : Memory 32
  offered : Option (U32 × U32)
  bootAddr : Option U32

/-- The part of `esp_amp_load_sub` behind the loop. -/
def finishLoad (b : Build) (image : Memory 32) (s : State) : Outcome :=
  let unusedStart := if s.ret = espOk then s.unusedStart else addr b.hpMemStart
  { ret := s.ret
    mem := s.mem
    offered := if b.pureRtcRamApp then none else some (unusedStart, addr b.hpMemEnd)
    bootAddr := if b.mem.target.lpCore then none else some (entryAddr image) }

/-- `esp_amp_load_sub` -/
def loadSub (b : Build) (image m : Memory 32) : Outcome :=
  finishLoad b image (loadSubLoop b image m)

end EspAmp.Loader
