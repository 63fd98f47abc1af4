import EspAmp.LoaderSafety

/-!
# Booting an HP subcore

`esp_amp_load_sub` leaves the entry address of its image in `hp_subcore_boot_addr`, and
`esp_amp_start_subcore` hands this global to the boot ROM unless it is zero. A history is
any sequence of loads, each with its image and the memory it finds. The headers of the
segments are kept in an array of sixteen entries on the stack, and what a load does that
stores a header behind it is not defined. The start call also writes back the cache and
turns on the clock of the subcore, which nothing here reads.
-/
namespace EspAmp.SubcoreBoot
open ByteMemory Loader LoaderSafety
open SysInfo (MemConfig)

/-- A build whose subcore is an HP core. -/
structure HpBuild extends Build where
  hp_core : mem.target.lpCore = false

/-- One load: its image and the memory it finds. -/
structure Load where
  image : Memory 32
  mem : Memory 32

/-- The loop with the array it stores the headers in; `none` is a store behind the array. -/
def loadSegmentsArray (b : Build) (image : Memory 32) : ℕ → State → Option State
  | 0, s => some s
  | left + 1, s =>
      if imageMaxSegments ≤ s.segments.length then none
      else if (loadSegment b image s).ret = espOk then
        loadSegmentsArray b image left (loadSegment b image s)
      else some (loadSegment b image s)

/-- `esp_amp_load_sub` as far as it is defined. -/
def loadSubArray (b : Build) (image m : Memory 32) : Option Outcome :=
  if validEntry b image then
    (loadSegmentsArray b image (segmentCount image).toNat (State.start b m)).map
      (finishLoad b image)
  else some (loadSub b image m)

/-- `hp_subcore_boot_addr` after a call. -/
def bootAddrAfter (b : HpBuild) (bootAddr : U32) (c : Load) : Option U32 :=
  (loadSubArray b.toBuild c.image c.mem).map fun o => o.bootAddr.getD bootAddr

/-- `hp_subcore_boot_addr` after a history; the global starts at zero. -/
def bootAddr (b : HpBuild) (loads : List Load) : Option U32 := loads.foldlM (bootAddrAfter b) 0

/-- `esp_amp_start_subcore`: the result and the address set in the boot ROM. -/
def startSubcore (hpSubcoreBootAddr : U32) : Int × Option U32 :=
  if hpSubcoreBootAddr = 0 then (-1, none) else (0, some hpSubcoreBootAddr)

/-- What a start should do after a history: boot the last image if it was loaded, and
refuse otherwise. -/
def intendedStart (b : HpBuild) (loads : List Load) : Int × Option U32 :=
  match loads.getLast? with
  | none => (-1, none)
  | some c =>
      if (loadSub b.toBuild c.image c.mem).ret = espOk then (0, some (entryAddr c.image))
      else (-1, none)

/-- The array has an entry for every segment that the loop reaches. -/
def ArrayHolds (b : Build) (image : Memory 32) : Prop :=
  (reached b image).length ≤ imageMaxSegments

instance (b : Build) (image : Memory 32) : Decidable (ArrayHolds b image) :=
  inferInstanceAs (Decidable (_ ≤ _))

/-- The loader accepts the segment at an offset. -/
def acceptedAt (b : Build) (image : Memory 32) (off : U32) : Bool :=
  copied b (segmentAt image off) ||
    (inDrom b (segmentAt image off) && word32 image (off + 8#32) == appDescMagicWord)

/-- Every one of the next segments is accepted. -/
def allAccepted (b : Build) (image : Memory 32) : ℕ → U32 → Bool
  | 0, _ => true
  | left + 1, off =>
      acceptedAt b image off &&
        allAccepted b image left (off + 8#32 + (segmentAt image off).dataLen)

/-- An image with a valid entry address and acceptable segments. -/
def loadable (b : Build) (image : Memory 32) : Bool :=
  validEntry b image && allAccepted b image (segmentCount image).toNat 24

section Result
variable {b : Build} {image : Memory 32}

theorem loadSegments_ret {left : ℕ} {s : State} (hret : s.ret = espOk) :
    (loadSegments b image left s).ret = espOk ↔ allAccepted b image left s.nextAddr = true := by
  induction left generalizing s with
  | zero => simp [loadSegments, allAccepted, hret]
  | succ left ih =>
      generalize hseg : segmentAt image s.nextAddr = seg
      rw [loadSegments, allAccepted, acceptedAt, hseg]
      cases hcopied : copied b seg with
      | true =>
          have hstep := loadSegment_of_copied hseg hcopied
          have hok : (loadSegment b image s).ret = espOk := by rw [hstep, hret]
          rw [if_pos hok, ih hok, hstep]
          simp
      | false =>
          by_cases hdrom : inDrom b seg = true ∧
              word32 image (s.nextAddr + 8#32) = appDescMagicWord
          · have hstep := loadSegment_of_skipped hseg hcopied hdrom.1 hdrom.2
            have hok : (loadSegment b image s).ret = espOk := by rw [hstep, hret]
            rw [if_pos hok, ih hok, hstep]
            simp [hdrom.1, hdrom.2]
          · have hstep := loadSegment_of_refused hseg hcopied hdrom
            have hfail : (loadSegment b image s).ret ≠ espOk := by
              rw [hstep]
              exact (by decide : espFail ≠ espOk)
            rw [if_neg hfail]
            refine iff_of_false hfail ?_
            simpa using fun hin hmagic => absurd ⟨hin, hmagic⟩ hdrom

/-- A call succeeds exactly on the images that are loadable. -/
theorem loadSub_ret_iff (b : Build) (image m : Memory 32) :
    (loadSub b image m).ret = espOk ↔ loadable b image = true := by
  have hret : (loadSub b image m).ret = (loadSubLoop b image m).ret := rfl
  rw [hret, loadSubLoop, loadable]
  cases hentry : validEntry b image with
  | true =>
      rw [if_pos rfl, Bool.true_and]
      exact loadSegments_ret rfl
  | false =>
      rw [if_neg Bool.false_ne_true]
      exact iff_of_false (by decide : espFail ≠ espOk) Bool.false_ne_true

end Result

section Array
variable {b : Build} {image : Memory 32}

theorem length_loadSegment (b : Build) (image : Memory 32) (s : State) :
    (loadSegment b image s).segments.length = s.segments.length + 1 := by
  simp only [loadSegment]
  split_ifs <;> exact List.length_append

/-- The loop keeps to the array when all its headers fit, and is then the loop that does
not look at the array. -/
theorem loadSegmentsArray_eq {left : ℕ} {s : State} (hret : s.ret = espOk)
    (hs : s.segments.length ≤ imageMaxSegments) :
    loadSegmentsArray b image left s =
      if s.segments.length + (reachedFrom b image left s.nextAddr).length ≤ imageMaxSegments then
        some (loadSegments b image left s)
      else none := by
  induction left generalizing s with
  | zero => exact (if_pos hs).symm
  | succ left ih =>
      have hgrow := length_loadSegment b image s
      have hall := congrArg List.length (loadSegments_spec b image (left + 1) s hret).1
      rw [List.length_append] at hall
      rw [← hall, loadSegmentsArray, loadSegments]
      by_cases hok : (loadSegment b image s).ret = espOk
      · have hrest := congrArg List.length (loadSegments_spec b image left _ hok).1
        rw [List.length_append] at hrest
        simp only [if_pos hok]
        by_cases hfull : imageMaxSegments ≤ s.segments.length
        · rw [if_pos hfull, if_neg (by omega)]
        · rw [if_neg hfull, ih hok (by omega), ← hrest]
      · simp only [if_neg hok]
        by_cases hfull : imageMaxSegments ≤ s.segments.length
        · rw [if_pos hfull, if_neg (by omega)]
        · rw [if_neg hfull, if_pos (by omega)]

theorem loadSubArray_eq (b : Build) (image m : Memory 32) :
    loadSubArray b image m = if ArrayHolds b image then some (loadSub b image m) else none := by
  unfold ArrayHolds reached
  rw [loadSubArray, loadSub, loadSubLoop]
  by_cases hentry : validEntry b image = true
  · simp only [if_pos hentry]
    rw [loadSegmentsArray_eq rfl (Nat.zero_le _)]
    simp only [State.start, List.length_nil, Nat.zero_add]
    split_ifs
    · rfl
    · rfl
  · simp only [if_neg hentry]
    exact (if_pos (Nat.zero_le _)).symm

end Array

section Histories
variable (b : HpBuild)

theorem bootAddrAfter_eq (bootAddr : U32) (c : Load) :
    bootAddrAfter b bootAddr c =
      if ArrayHolds b.toBuild c.image then some (entryAddr c.image) else none := by
  have hboot : (loadSub b.toBuild c.image c.mem).bootAddr = some (entryAddr c.image) := by
    simp [loadSub, finishLoad, b.hp_core]
  rw [bootAddrAfter, loadSubArray_eq]
  split_ifs
  · simp [hboot]
  · rfl

/-- A history is defined when the array holds the segments of every image in it, and
leaves the entry address of the last image. -/
theorem bootAddr_eq (loads : List Load) :
    bootAddr b loads =
      if ∀ c ∈ loads, ArrayHolds b.toBuild c.image then
        some ((loads.getLast?.map fun c => entryAddr c.image).getD 0)
      else none := by
  induction loads using List.reverseRecOn with
  | nil => rfl
  | append_singleton loads c ih =>
      have hfold : bootAddr b (loads ++ [c]) =
          (bootAddr b loads).bind fun a => bootAddrAfter b a c := by
        rw [bootAddr, List.foldlM_append]
        simp only [List.foldlM_cons, List.foldlM_nil, bind_pure]
        rfl
      rw [hfold, ih, List.getLast?_concat]
      simp only [List.forall_mem_append, List.forall_mem_singleton]
      by_cases hbefore : ∀ c ∈ loads, ArrayHolds b.toBuild c.image
      · rw [if_pos hbefore, Option.bind_some, bootAddrAfter_eq]
        by_cases hlast : ArrayHolds b.toBuild c.image
        · rw [if_pos hlast, if_pos ⟨hbefore, hlast⟩]
          rfl
        · rw [if_neg hlast, if_neg fun h => hlast h.2]
      · rw [if_neg hbefore, if_neg fun h => hbefore h.1]
        rfl

/-- The entry address of an image that can be loaded is not null. -/
theorem entryAddr_ne_zero {image : Memory 32} (h : loadable b.toBuild image = true) :
    entryAddr image ≠ 0 := by
  rw [loadable, Bool.and_eq_true, validEntry, if_neg (by simp [b.hp_core])] at h
  intro hzero
  have haddr := appAddr_iff.mp h.1
  rw [b.hp_core, dramAddr_iff, hzero] at haddr
  have hend := b.hpMemEnd_bounds
  have hsize := b.hpMemSize_bounds
  have hstart := b.hpMemStart_add_size
  simp at haddr
  omega

end Histories

/-- An ESP32-P4 build. -/
def p4Build : HpBuild where
  mem :=
    { target := .esp32p4
      hpSharedMemSize := 16384
      hp_range := by decide
      rtcSharedMemSize := 256
      rtc_range := SysInfo.c6Defaults.rtc_range
      reserveRtcMem := 0
      ulpCoprocReserveMem := 0
      rtc_ram := by decide }
  pureRtcRamApp := false
  pure_lp := by decide
  hpMemSize := 65536
  hp_range := by decide
  rtc_room := by decide
  dromLow := 0x40000000
  dromHigh := 0x4c000000
  drom_apart := by decide
  drom_below := by decide
  hp_core := rfl

end EspAmp.SubcoreBoot
