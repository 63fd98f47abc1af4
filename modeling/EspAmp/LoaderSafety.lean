import EspAmp.Loader
import EspAmp.SysInfoInvariant

/-!
# Where loading writes

A segment is accepted by its two end points alone. A nonempty segment whose end points
are accepted stays inside the memory of the subcore exactly when they lie in one region,
in order, and in RTC RAM not behind the start of the SysInfo pool. The image alone says
which segments a call reaches.
-/
namespace EspAmp.LoaderSafety
open ByteMemory Loader
open SysInfo (MemConfig alignDown addr c6Defaults)

section Regions
variable (b : Build)

/-- The HP RAM that is reserved for the subcore. -/
def InHpRegion (x : U32) : Prop :=
  b.pureRtcRamApp = false ∧ b.hpMemStart ≤ x.toNat ∧ x.toNat < b.hpMemEnd

/-- The RTC RAM of the application, below the SysInfo pool. -/
def InRtcArea (x : U32) : Prop :=
  b.mem.target.lpCore = true ∧ b.ulpBase ≤ x.toNat ∧ x.toNat < b.mem.rtcPoolStart

def InSubcoreMem (x : U32) : Prop := InHpRegion b x ∨ InRtcArea b x

/-- The address belongs to one of the SysInfo pools. -/
def InPool (x : U32) : Prop :=
  ∃ cap pool, b.mem.pool cap = some pool ∧ pool.start ≤ x.toNat ∧ x.toNat < pool.stop

/-- The end points lie in order in one region, in RTC RAM not behind the pool's start. -/
def EndsInOneRegion (seg : Segment) : Prop :=
  seg.loadAddr ≤ seg.stop ∧
    ((b.pureRtcRamApp = false ∧ isValidSubcoreAppDramAddr b seg.loadAddr = true ∧
        isValidSubcoreAppDramAddr b seg.stop = true) ∨
      (b.mem.target.lpCore = true ∧ isValidSubcoreAppRtcramAddr b seg.loadAddr = true ∧
        seg.stop.toNat ≤ b.mem.rtcPoolStart))

/-- The segments that the loop reaches with `left` of them to go, the last of which it
may refuse. -/
def reachedFrom (image : Memory 32) : ℕ → U32 → List Segment
  | 0, _ => []
  | left + 1, off =>
      let seg := segmentAt image off
      if copied b seg ∨ (inDrom b seg ∧ word32 image (off + 8#32) = appDescMagicWord) then
        seg :: reachedFrom image left (off + 8#32 + seg.dataLen)
      else [seg]

def reached (image : Memory 32) : List Segment :=
  if validEntry b image then reachedFrom b image (segmentCount image).toNat 24 else []

/-- Every segment has an index in the array, and an accepted one is empty or ends where
it should. -/
def WellPlaced (image : Memory 32) : Prop :=
  (reached b image).length ≤ imageMaxSegments ∧
    ∀ seg ∈ reached b image, copied b seg → seg.dataLen = 0 ∨ EndsInOneRegion b seg

end Regions

section Segments
variable {b : Build} {seg : Segment} {x : U32}

theorem rtcPoolStart_bounds (hlp : b.mem.target.lpCore = true) :
    b.ulpBase ≤ b.mem.rtcPoolStart ∧ b.mem.rtcPoolStart + b.mem.rtcPoolSize = b.rtcEnd := by
  have hroom := b.rtc_room hlp
  simp only [Build.rtcEnd, Build.ulpBase, MemConfig.rtcPoolStart]
  omega

theorem InSubcoreMem.lt (h : InSubcoreMem b x) : x.toNat < 0x50004000 := by
  have hhp := b.hpMemEnd_bounds
  have hrtc := b.rtcEnd_bounds
  obtain ⟨-, -, hlt⟩ | ⟨hlp, -, hlt⟩ := h
  · omega
  · have hpool := rtcPoolStart_bounds hlp
    omega

theorem stop_toNat : seg.stop.toNat = (seg.loadAddr.toNat + seg.dataLen.toNat) % 2 ^ 32 :=
  BitVec.toNat_add ..

/-- A segment in order does not wrap. -/
theorem add_dataLen_of_le (h : seg.loadAddr ≤ seg.stop) :
    seg.loadAddr.toNat + seg.dataLen.toNat = seg.stop.toNat := by
  have hle : seg.loadAddr.toNat ≤ seg.stop.toNat := h
  have hstart := seg.loadAddr.isLt
  have hlen := seg.dataLen.isLt
  rw [stop_toNat] at hle ⊢
  omega

/-- A segment that wraps writes the highest address. -/
theorem within_top_of_wrap (h : ¬ seg.loadAddr ≤ seg.stop) :
    Within seg.loadAddr seg.dataLen.toNat (BitVec.allOnes 32) := by
  have hle : ¬ seg.loadAddr.toNat ≤ seg.stop.toNat := h
  have hstart := seg.loadAddr.isLt
  have hlen := seg.dataLen.isLt
  rw [stop_toNat] at hle
  rw [Within, BitVec.toNat_sub, BitVec.toNat_allOnes]
  omega

theorem within_segment_iff (h : seg.loadAddr ≤ seg.stop) :
    Within seg.loadAddr seg.dataLen.toNat x ↔
      seg.loadAddr.toNat ≤ x.toNat ∧ x.toNat < seg.stop.toNat := by
  have hsum := add_dataLen_of_le h
  have hstop := seg.stop.isLt
  rw [within_iff (by omega), hsum]

/-- A nonempty segment in order that stays inside has its end points in one region: the
first address behind the HP region or its own last address would be outside. -/
theorem ends_of_inside (hle : seg.loadAddr ≤ seg.stop) (hempty : seg.dataLen ≠ 0)
    (hcopied : copied b seg = true)
    (h : ∀ x, Within seg.loadAddr seg.dataLen.toNat x → InSubcoreMem b x) :
    (b.pureRtcRamApp = false ∧ isValidSubcoreAppDramAddr b seg.loadAddr = true ∧
        isValidSubcoreAppDramAddr b seg.stop = true) ∨
      (b.mem.target.lpCore = true ∧ isValidSubcoreAppRtcramAddr b seg.loadAddr = true ∧
        seg.stop.toNat ≤ b.mem.rtcPoolStart) := by
  have hhp := b.hpMemEnd_bounds
  have hbase : 0x50000000 ≤ b.ulpBase := Nat.le_add_right ..
  have hrtcEnd := b.rtcEnd_bounds
  have hsum := add_dataLen_of_le hle
  have hpos : 0 < seg.dataLen.toNat :=
    Nat.pos_of_ne_zero fun h0 => hempty (BitVec.eq_of_toNat_eq h0)
  have hinside (n : ℕ) (hstart : seg.loadAddr.toNat ≤ n) (hstop : n < seg.stop.toNat) :
      InSubcoreMem b (addr n) ∧ (addr n).toNat = n := by
    have hn : (addr n).toNat = n := by
      have hlt := seg.stop.isLt
      rw [addr, BitVec.toNat_ofNat]
      omega
    exact ⟨h _ ((within_segment_iff hle).mpr (by omega)), hn⟩
  obtain ⟨hstart, hstop⟩ := Bool.and_eq_true_iff.mp hcopied
  rw [appAddr_iff, dramAddr_iff, rtcramAddr_iff] at hstart hstop
  rw [dramAddr_iff, dramAddr_iff, rtcramAddr_iff]
  obtain ⟨hpure, hstart⟩ | ⟨hlp, hstart⟩ := hstart
  · obtain ⟨-, hstop⟩ | ⟨hlp, hstop⟩ := hstop
    · exact Or.inl ⟨hpure, hstart, hstop⟩
    · obtain ⟨⟨-, -, hx⟩ | ⟨-, hx, -⟩, hn⟩ := hinside b.hpMemEnd (by omega) (by omega)
      · omega
      · omega
  · obtain ⟨hpure, hstop⟩ | ⟨-, hstop⟩ := hstop
    · omega
    · refine Or.inr ⟨hlp, hstart, ?_⟩
      by_contra hpool
      obtain ⟨⟨-, -, hx⟩ | ⟨-, -, hx⟩, hn⟩ := hinside (seg.stop.toNat - 1) (by omega) (by omega)
      · omega
      · omega

/-- The two end points decide whether the copy of an accepted segment stays inside. -/
theorem copy_inside_iff (hcopied : copied b seg = true) :
    (∀ x, Within seg.loadAddr seg.dataLen.toNat x → InSubcoreMem b x) ↔
      seg.dataLen = 0 ∨ EndsInOneRegion b seg := by
  have hhp := b.hpMemEnd_bounds
  have hrtc := b.rtcEnd_bounds
  constructor
  · intro h
    by_cases hempty : seg.dataLen = 0
    · exact Or.inl hempty
    · have hle : seg.loadAddr ≤ seg.stop := by
        by_contra hwrap
        have htop := (h _ (within_top_of_wrap hwrap)).lt
        rw [BitVec.toNat_allOnes] at htop
        omega
      exact Or.inr ⟨hle, ends_of_inside hle hempty hcopied h⟩
  · rintro (hempty | ⟨hle, hregion⟩) x hx
    · rw [hempty] at hx
      exact absurd hx (Nat.not_lt_zero _)
    · rw [within_segment_iff hle] at hx
      obtain ⟨hpure, hstart, hstop⟩ | ⟨hlp, hstart, hstop⟩ := hregion
      · rw [dramAddr_iff] at hstart hstop
        exact Or.inl ⟨hpure, by omega, by omega⟩
      · rw [rtcramAddr_iff] at hstart
        exact Or.inr ⟨hlp, by omega, by omega⟩

end Segments

section Loop
variable {b : Build} {image : Memory 32} {s : State} {x : U32}

/-- The regions of the accepted segments. -/
def copiesOf (b : Build) (segs : List Segment) : List (U32 × ℕ) :=
  (segs.filter (copied b)).map fun seg => (seg.loadAddr, seg.dataLen.toNat)

theorem copiesOf_cons (seg : Segment) (segs : List Segment) :
    copiesOf b (seg :: segs) =
      (if copied b seg then [(seg.loadAddr, seg.dataLen.toNat)] else []) ++ copiesOf b segs := by
  rw [copiesOf, List.filter_cons]
  split_ifs with h
  · rfl
  · rfl

/-- The loop goes through the segments that the image alone determines, copies those that
are accepted, and changes nothing outside the copies. -/
theorem loadSegments_spec (b : Build) (image : Memory 32) (left : ℕ) (s : State)
    (hret : s.ret = espOk) :
    let segs := reachedFrom b image left s.nextAddr
    (loadSegments b image left s).segments = s.segments ++ segs ∧
      (loadSegments b image left s).copies = s.copies ++ copiesOf b segs ∧
      ∀ x, (∀ c ∈ copiesOf b segs, ¬ Within c.1 c.2 x) →
        (loadSegments b image left s).mem x = s.mem x := by
  induction left generalizing s with
  | zero => simp [loadSegments, reachedFrom, copiesOf]
  | succ left ih =>
      simp only [reachedFrom]
      generalize hseg : segmentAt image s.nextAddr = seg
      rw [loadSegments]
      cases hcopied : copied b seg with
      | true =>
          have hstep := loadSegment_of_copied hseg hcopied
          obtain ⟨hsegs, hcopies, hmem⟩ := ih (loadSegment b image s) (by rw [hstep, hret])
          rw [if_pos (by rw [hstep, hret]), if_pos (by simp)]
          rw [hstep] at hsegs hcopies hmem ⊢
          refine ⟨?_, ?_, ?_⟩
          · rw [hsegs, List.append_assoc, List.singleton_append]
          · rw [hcopies, copiesOf_cons, if_pos hcopied, List.append_assoc]
          · intro x hx
            rw [copiesOf_cons, if_pos hcopied, List.singleton_append] at hx
            rw [hmem x fun c hc => hx c (List.mem_cons_of_mem _ hc)]
            refine write_of_not_within ?_
            rw [length_read]
            exact hx _ List.mem_cons_self
      | false =>
          by_cases hdrom : inDrom b seg = true ∧
              word32 image (s.nextAddr + 8#32) = appDescMagicWord
          · have hstep := loadSegment_of_skipped hseg hcopied hdrom.1 hdrom.2
            obtain ⟨hsegs, hcopies, hmem⟩ := ih (loadSegment b image s) (by rw [hstep, hret])
            rw [if_pos (by rw [hstep, hret]), if_pos (Or.inr hdrom)]
            rw [hstep] at hsegs hcopies hmem ⊢
            have hcons (segs : List Segment) : copiesOf b (seg :: segs) = copiesOf b segs := by
              rw [copiesOf_cons, if_neg (by simp [hcopied]), List.nil_append]
            refine ⟨?_, ?_, ?_⟩
            · rw [hsegs, List.append_assoc, List.singleton_append]
            · rw [hcopies, hcons]
            · intro x hx
              rw [hcons] at hx
              exact hmem x hx
          · have hstep := loadSegment_of_refused hseg hcopied hdrom
            have hfail : (loadSegment b image s).ret ≠ espOk := by
              rw [hstep]
              exact (by decide : espFail ≠ espOk)
            rw [if_neg hfail, if_neg (by simpa using hdrom), hstep]
            simp [copiesOf, hcopied]

theorem loadSubLoop_spec (b : Build) (image m : Memory 32) :
    (loadSubLoop b image m).segments = reached b image ∧
      (loadSubLoop b image m).copies = copiesOf b (reached b image) ∧
      ∀ x, (∀ c ∈ copiesOf b (reached b image), ¬ Within c.1 c.2 x) →
        (loadSubLoop b image m).mem x = clearReserved b m x := by
  rw [loadSubLoop, reached]
  split_ifs with hentry
  · exact loadSegments_spec b image (segmentCount image).toNat (State.start b m) rfl
  · exact ⟨rfl, rfl, fun _ _ => rfl⟩

end Loop

section Pools
variable {b : Build} {m : Memory 32} {x : U32}

/-- The pools lie outside the memory of the subcore. -/
theorem InPool.not_inSubcoreMem (h : InPool b x) : ¬ InSubcoreMem b x := by
  have hhp := b.hpMemEnd_bounds
  have hbase : 0x50000000 ≤ b.ulpBase := Nat.le_add_right ..
  obtain ⟨cap, pool, hpool, hstart, hstop⟩ := h
  cases cap with
  | hp =>
      obtain rfl := Option.some.inj hpool
      have htop : b.mem.hpPool.stop < 0x50000000 := by
        simp only [MemConfig.hpPool]
        cases b.mem.target <;> decide
      have hfirst : b.mem.hpPool.start = b.hpMemEnd + 0x20 := rfl
      rintro (⟨-, -, hx⟩ | ⟨-, hx, -⟩)
      · omega
      · omega
  | rtc =>
      simp only [MemConfig.pool, Option.ite_none_right_eq_some] at hpool
      obtain ⟨hlp, hpool⟩ := hpool
      obtain rfl := Option.some.inj hpool
      have hfirst : b.mem.rtcPool.start = b.mem.rtcPoolStart := rfl
      have hbounds := rtcPoolStart_bounds hlp
      rintro (⟨-, -, hx⟩ | ⟨-, -, hx⟩)
      · omega
      · omega

theorem memset_apply (a : U32) (n : ℕ) : memset m a n x = if Within a n x then 0 else m x := by
  rw [memset, write, List.getElem?_replicate]
  split_ifs with h h' h'
  · rfl
  · exact absurd h h'
  · exact absurd h' h
  · rfl

theorem clearReserved_apply :
    clearReserved b m x = if ∃ r ∈ cleared b, Within r.1 r.2 x then 0 else m x := by
  rw [clearReserved]
  induction cleared b using List.reverseRecOn with
  | nil => simp
  | append_singleton rs r ih =>
      simp only [List.foldl_append, List.foldl_cons, List.foldl_nil, memset_apply, ih,
        List.mem_append, List.mem_singleton, or_and_right, exists_or, exists_eq_left]
      by_cases hr : Within r.1 r.2 x
      · rw [if_pos hr, if_pos (Or.inr hr)]
      · simp only [hr, if_false, or_false]

theorem within_hp_iff :
    Within (addr b.hpMemStart) b.hpMemSize x ↔ b.hpMemStart ≤ x.toNat ∧ x.toNat < b.hpMemEnd := by
  have hhp := b.hpMemEnd_bounds
  have hsum := b.hpMemStart_add_size
  have hn : (addr b.hpMemStart).toNat = b.hpMemStart := Nat.mod_eq_of_lt (by omega)
  rw [within_iff (by omega), hn, hsum]

theorem within_rtc_iff {n : ℕ} (h : b.mem.reserveRtcMem + n ≤ 0x4000) :
    Within (addr b.ulpBase) n x ↔ b.ulpBase ≤ x.toNat ∧ x.toNat < b.ulpBase + n := by
  have hbase : b.ulpBase = 0x50000000 + b.mem.reserveRtcMem := rfl
  have hn : (addr b.ulpBase).toNat = b.ulpBase := Nat.mod_eq_of_lt (by omega)
  rw [within_iff (by omega), hn]

/-- A cleared byte is in the HP region, or in RTC RAM below the size of the pool. -/
theorem cleared_cases {r : U32 × ℕ} (hr : r ∈ cleared b) (hx : Within r.1 r.2 x) :
    InHpRegion b x ∨ (b.mem.target.lpCore = true ∧ b.ulpBase ≤ x.toNat ∧
      x.toNat < b.ulpBase + (b.mem.ulpCoprocReserveMem - b.mem.rtcPoolSize)) := by
  rw [cleared, List.mem_append] at hr
  obtain hr | hr := hr
  · split_ifs at hr with hpure
    · cases hr
    · obtain rfl := List.mem_singleton.mp hr
      exact Or.inl ⟨Bool.eq_false_of_not_eq_true hpure, within_hp_iff.mp hx⟩
  · split_ifs at hr with hlp
    · obtain rfl := List.mem_singleton.mp hr
      have hram := b.mem.rtc_ram
      exact Or.inr ⟨hlp, (within_rtc_iff (by omega)).mp hx⟩
    · cases hr

/-- With a reserved size that is a multiple of the alignment, only memory of the subcore
is cleared. -/
theorem inSubcoreMem_of_cleared
    (halign : b.mem.target.lpCore = true → b.mem.ulpCoprocReserveMem % 8 = 0)
    {r : U32 × ℕ} (hr : r ∈ cleared b) (hx : Within r.1 r.2 x) : InSubcoreMem b x := by
  refine (cleared_cases hr hx).imp_right fun ⟨hlp, hstart, hstop⟩ => ?_
  have hbounds := rtcPoolStart_bounds hlp
  have hend : b.rtcEnd = b.ulpBase + b.mem.ulpCoprocReserveMem := by
    rw [Build.rtcEnd, alignDown, halign hlp, Nat.sub_zero]
  exact ⟨hlp, hstart, by omega⟩

end Pools

/-- The copies of a call stay in the memory of the subcore, leave every byte outside of it
and the pools as they were in front of them, and the headers of their segments fit in
their array. -/
structure Confined (b : Build) (image m : Memory 32) : Prop where
  copies : ∀ c ∈ (loadSubLoop b image m).copies, ∀ x, Within c.1 c.2 x → InSubcoreMem b x
  outside : ∀ x, ¬ InSubcoreMem b x → (loadSub b image m).mem x = clearReserved b m x
  pools : ∀ x, InPool b x → (loadSub b image m).mem x = clearReserved b m x
  indices : ∀ i, i < (loadSubLoop b image m).segments.length → i < imageMaxSegments

section Confinement
variable {b : Build} {image m : Memory 32}

theorem copies_inside_iff :
    (∀ c ∈ (loadSubLoop b image m).copies, ∀ x, Within c.1 c.2 x → InSubcoreMem b x) ↔
      ∀ seg ∈ reached b image, copied b seg → seg.dataLen = 0 ∨ EndsInOneRegion b seg := by
  rw [(loadSubLoop_spec b image m).2.1]
  constructor
  · intro h seg hseg hcopied
    refine (copy_inside_iff hcopied).mp (h (seg.loadAddr, seg.dataLen.toNat) ?_)
    exact List.mem_map.mpr ⟨seg, List.mem_filter.mpr ⟨hseg, hcopied⟩, rfl⟩
  · intro h c hc
    obtain ⟨seg, hseg, rfl⟩ := List.mem_map.mp hc
    obtain ⟨hseg, hcopied⟩ := List.mem_filter.mp hseg
    exact (copy_inside_iff hcopied).mpr (h seg hseg hcopied)

/-- Copies that stay inside leave everything else alone. -/
theorem outside_kept
    (h : ∀ c ∈ (loadSubLoop b image m).copies, ∀ x, Within c.1 c.2 x → InSubcoreMem b x)
    {x : U32} (hx : ¬ InSubcoreMem b x) : (loadSub b image m).mem x = clearReserved b m x := by
  obtain ⟨-, hcopies, hmem⟩ := loadSubLoop_spec b image m
  refine hmem x fun c hc hwithin => hx ?_
  exact h c (hcopies ▸ hc) x hwithin

end Confinement

/-- A call is confined exactly when its image is well placed; the whole call then leaves
everything outside the memory of the subcore alone, the pools included, if the reserved
RTC size is a multiple of its alignment. -/
theorem load_confined_iff (b : Build) (image m : Memory 32) :
    (Confined b image m ↔ WellPlaced b image) ∧
      (WellPlaced b image →
        (b.mem.target.lpCore = true → b.mem.ulpCoprocReserveMem % 8 = 0) →
        ∀ x, (¬ InSubcoreMem b x ∨ InPool b x) → (loadSub b image m).mem x = m x) := by
  have hsegs := (loadSubLoop_spec b image m).1
  refine ⟨⟨?_, ?_⟩, ?_⟩
  · intro h
    refine ⟨?_, copies_inside_iff.mp h.copies⟩
    by_contra hmany
    have hlast := h.indices imageMaxSegments (by rw [hsegs]; omega)
    exact absurd hlast (lt_irrefl _)
  · rintro ⟨hcount, hplaced⟩
    have hcopies := (copies_inside_iff (m := m)).mpr hplaced
    refine ⟨hcopies, fun x hx => outside_kept hcopies hx,
      fun x hx => outside_kept hcopies hx.not_inSubcoreMem, ?_⟩
    intro i hi
    rw [hsegs] at hi
    omega
  · rintro ⟨-, hplaced⟩ halign x hx
    have hout : ¬ InSubcoreMem b x := hx.elim id InPool.not_inSubcoreMem
    rw [outside_kept (copies_inside_iff.mpr hplaced) hout]
    refine clearReserved_apply.trans (if_neg ?_)
    rintro ⟨r, hr, hwithin⟩
    exact hout (inSubcoreMem_of_cleared halign hr hwithin)

/-- A default build for the ESP32-C6. -/
def c6Build : Build where
  mem := c6Defaults
  pureRtcRamApp := false
  pure_lp := by decide
  hpMemSize := 16384
  hp_range := by decide
  rtc_room := by decide
  dromLow := 0x42000000
  dromHigh := 0x43000000
  drom_apart := by decide
  drom_below := by decide

/-- An image with the given number of segments and the entry address `0x50000080`, and
the bytes behind its header. -/
def c6Image (segmentCount : U8) (bytes : List U8) : Memory 32 := fun off =>
  ([0xe9, segmentCount, 0, 0, 0x80, 0, 0, 0x50, 0, 0, 0, 0, 0, 0, 0, 0, 0, 0, 0, 0, 0, 0, 0, 0] ++
    bytes).getD off.toNat 0

/-- One segment of four bytes that begins where the RTC pool does. -/
def poolImage : Memory 32 :=
  c6Image 1 [0, 0x0f, 0, 0x50, 4, 0, 0, 0, 1, 2, 3, 4]

theorem poolImage_overwrites_pool : ¬ Confined c6Build poolImage fun _ => 0 := by
  intro h
  have hreached : reached c6Build poolImage = [⟨0x50000f00, 4⟩] := by decide +kernel
  have hcopy : (0x50000f00, 4) ∈ (loadSubLoop c6Build poolImage fun _ => 0).copies := by
    rw [(loadSubLoop_spec c6Build poolImage fun _ => 0).2.1, hreached]
    decide +kernel
  have hpool : InPool c6Build 0x50000f00 :=
    ⟨.rtc, c6Defaults.rtcPool, rfl, by decide +kernel, by decide +kernel⟩
  exact hpool.not_inSubcoreMem (h.copies _ hcopy _ (by decide))

end EspAmp.LoaderSafety
