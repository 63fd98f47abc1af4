import EspAmp.LoaderSafety

/-!
# Loading a well-formed image

An image is a sequence of parts, each with a load address and data. Each part either
lies inside one reserved region of RAM or is an application descriptor in the flash
mapping. Going through the parts, the loop keeps its offset behind them, writes their
data over earlier ones and remembers where the last part in HP RAM ends.
-/
namespace EspAmp.LoaderFaithful
open ByteMemory Loader LoaderSafety
open SysInfo (addr)

/-- A segment with its data. -/
structure Part where
  loadAddr : U32
  data : List U8

namespace Part

def len (p : Part) : U32 := BitVec.ofNat 32 p.data.length

def segment (p : Part) : Segment := ⟨p.loadAddr, p.len⟩

/-- The end of the part, without wrap. -/
def stop (p : Part) : ℕ := p.loadAddr.toNat + p.data.length

/-- The byte that the part maps to an address. -/
def byteAt (p : Part) (x : U32) : Option U8 := p.data[(x - p.loadAddr).toNat]?

def InHp (b : Build) (p : Part) : Prop :=
  b.pureRtcRamApp = false ∧ b.hpMemStart ≤ p.loadAddr.toNat ∧ p.stop ≤ b.hpMemEnd

instance (b : Build) (p : Part) : Decidable (InHp b p) :=
  inferInstanceAs (Decidable (_ ∧ _ ∧ _))

def InRtc (b : Build) (p : Part) : Prop :=
  b.mem.target.lpCore = true ∧ b.ulpBase ≤ p.loadAddr.toNat ∧ p.stop ≤ b.rtcEnd

def InDrom (b : Build) (p : Part) : Prop := b.dromLow ≤ p.loadAddr.toNat ∧ p.stop ≤ b.dromHigh

end Part

/-- The image holds the parts one behind the other from the offset on. -/
def WellFormed (b : Build) (image : Memory 32) : U32 → List Part → Prop
  | _, [] => True
  | off, p :: parts =>
      segmentAt image off = p.segment ∧ p.data.length < 2 ^ 32 ∧
        read image (off + 8#32) p.data.length = p.data ∧
        ((p.InHp b ∨ p.InRtc b) ∨
          (p.InDrom b ∧ word32 image (off + 8#32) = appDescMagicWord)) ∧
        WellFormed b image (off + 8#32 + p.len) parts

/-- The byte of the last part that maps one to the address. -/
def lastByte (parts : List Part) (x : U32) : Option U8 :=
  parts.foldl (fun byte p => (p.byteAt x).or byte) none

/-- The highest end of a part in HP RAM, from a given one on. -/
def unusedFrom (b : Build) (u : ℕ) (parts : List Part) : ℕ :=
  ((parts.filter fun p => p.InHp b).map Part.stop).foldl max u

/-- The bytes of the parts with their headers. -/
def imageLen (parts : List Part) : ℕ := (parts.map fun p => 8 + p.data.length).sum

section Parts
variable {b : Build} {p : Part} {x : U32}

theorem segment_stop (h : p.stop < 2 ^ 32) : p.segment.stop.toNat = p.stop := by
  have hload := p.loadAddr.isLt
  rw [stop_toNat]
  simp only [Part.stop] at h
  simp only [Part.segment, Part.len, Part.stop, BitVec.toNat_ofNat]
  omega

theorem dataLen_toNat (h : p.data.length < 2 ^ 32) : p.segment.dataLen.toNat = p.data.length :=
  Nat.mod_eq_of_lt h

theorem Part.InHp.valid (h : p.InHp b) :
    isValidSubcoreAppDramAddr b p.loadAddr = true ∧
      isValidSubcoreAppDramAddr b p.segment.stop = true := by
  obtain ⟨-, hstart, hstop⟩ := h
  have hhp := b.hpMemEnd_bounds
  have hle : p.loadAddr.toNat ≤ p.stop := Nat.le_add_right ..
  rw [dramAddr_iff, dramAddr_iff, segment_stop (by omega)]
  omega

theorem Part.InRtc.valid (h : p.InRtc b) :
    isValidSubcoreAppRtcramAddr b p.loadAddr = true ∧
      isValidSubcoreAppRtcramAddr b p.segment.stop = true := by
  obtain ⟨-, hstart, hstop⟩ := h
  have hrtc := b.rtcEnd_bounds
  have hle : p.loadAddr.toNat ≤ p.stop := Nat.le_add_right ..
  rw [rtcramAddr_iff, rtcramAddr_iff, segment_stop (by omega)]
  omega

theorem copied_of_ram (h : p.InHp b ∨ p.InRtc b) : copied b p.segment = true := by
  rw [copied, Bool.and_eq_true]
  obtain h | h := h
  · exact ⟨appAddr_iff.mpr (Or.inl ⟨h.1, h.valid.1⟩), appAddr_iff.mpr (Or.inl ⟨h.1, h.valid.2⟩)⟩
  · exact ⟨appAddr_iff.mpr (Or.inr ⟨h.1, h.valid.1⟩), appAddr_iff.mpr (Or.inr ⟨h.1, h.valid.2⟩)⟩

/-- An address of the flash mapping is in neither of the reserved ranges. -/
theorem not_valid_of_drom {a : U32} (hlow : b.dromLow ≤ a.toNat) (hhigh : a.toNat ≤ b.dromHigh) :
    isValidSubcoreAppAddr b a ≠ true := by
  have hapart : b.hpMemEnd < b.dromLow ∨ b.dromHigh < b.hpMemStart := b.drom_apart
  have hbelow := b.drom_below
  have hbase : 0x50000000 ≤ b.ulpBase := Nat.le_add_right ..
  rw [Ne, appAddr_iff, dramAddr_iff, rtcramAddr_iff]
  omega

theorem Part.InDrom.skipped (h : p.InDrom b) :
    copied b p.segment = false ∧ inDrom b p.segment = true := by
  obtain ⟨hlow, hhigh⟩ := h
  have hbelow := b.drom_below
  have hle : p.loadAddr.toNat ≤ p.stop := Nat.le_add_right ..
  refine ⟨?_, ?_⟩
  · rw [copied, Bool.and_eq_false_iff]
    exact Or.inl (Bool.eq_false_iff.mpr (not_valid_of_drom hlow (by simp only [segment]; omega)))
  · have hfirst : inRange b.dromLow b.dromHigh p.segment.loadAddr = true :=
      (inRange_iff (by omega) (by omega)).mpr ⟨hlow, by simp only [segment]; omega⟩
    have hlast : inRange b.dromLow b.dromHigh p.segment.stop = true :=
      (inRange_iff (by omega) (by omega)).mpr (by rw [segment_stop (by omega)]; omega)
    rw [inRange, Bool.and_eq_true] at hfirst hlast
    rw [inDrom, Bool.and_eq_true]
    exact ⟨hfirst.1, hlast.2⟩

/-- A part maps a byte to exactly the addresses in its region. -/
theorem byteAt_eq_none (h : ¬ Within p.loadAddr p.data.length x) : p.byteAt x = none :=
  List.getElem?_eq_none (Nat.le_of_not_lt h)

theorem Part.InDrom.byteAt (h : p.InDrom b) (hx : ¬ (b.dromLow ≤ x.toNat ∧ x.toNat ≤ b.dromHigh)) :
    p.byteAt x = none := by
  obtain ⟨hlow, hhigh⟩ := h
  have hbelow := b.drom_below
  simp only [stop] at hhigh
  refine byteAt_eq_none fun hwithin => hx ?_
  rw [within_iff (by omega)] at hwithin
  omega

/-- The end of a copied part raises the start of the unused part when it is in HP RAM. -/
theorem raiseUnused_eq {u : ℕ} (h : p.InHp b ∨ p.InRtc b) (hu : u ≤ b.hpMemEnd) :
    raiseUnused b (addr u) p.segment.stop = addr (if p.InHp b then max u p.stop else u) := by
  have hhp := b.hpMemEnd_bounds
  have hbase : 0x50000000 ≤ b.ulpBase := Nat.le_add_right ..
  have hle : p.loadAddr.toNat ≤ p.stop := Nat.le_add_right ..
  by_cases hin : p.InHp b
  · have hstop : p.stop ≤ b.hpMemEnd := hin.2.2
    have hnat := segment_stop (show p.stop < 2 ^ 32 by omega)
    have haddr : p.segment.stop = addr p.stop :=
      BitVec.eq_of_toNat_eq (hnat.trans (Nat.mod_eq_of_lt (by omega)).symm)
    have hslt : (addr u).slt p.segment.stop = true ↔ u < p.stop := by
      rw [haddr, BitVec.slt_iff_toInt_lt]
      simp only [addr, BitVec.toInt_eq_toNat_cond, BitVec.toNat_ofNat]
      omega
    rw [if_pos hin, raiseUnused]
    simp only [hin.1, hin.valid.2, true_and, hslt]
    split_ifs with hlt
    · rw [haddr, max_eq_right hlt.le]
    · rw [max_eq_left (Nat.le_of_not_lt hlt)]
  · obtain ⟨-, hstart, hstop⟩ := h.resolve_left hin
    have hrtc := b.rtcEnd_bounds
    rw [if_neg hin, raiseUnused, if_neg]
    rintro ⟨-, hvalid, -⟩
    rw [dramAddr_iff, segment_stop (by omega)] at hvalid
    omega

end Parts

section Loop
variable {b : Build} {image : Memory 32} {s : State} {p : Part} {parts : List Part} {x : U32}
  {u : ℕ}

theorem lastByte_cons : lastByte (p :: parts) x = (lastByte parts x).or (p.byteAt x) := by
  have hfold (byte : Option U8) : parts.foldl (fun byte p => (p.byteAt x).or byte) byte =
      (parts.foldl (fun byte p => (p.byteAt x).or byte) none).or byte := by
    induction parts generalizing byte with
    | nil => rfl
    | cons q parts ih =>
        rw [List.foldl_cons, List.foldl_cons, ih, ih ((q.byteAt x).or none), Option.or_none,
          Option.or_assoc]
  rw [lastByte, List.foldl_cons, Option.or_none, hfold]
  rfl

theorem unusedFrom_cons :
    unusedFrom b u (p :: parts) = unusedFrom b (if p.InHp b then max u p.stop else u) parts := by
  rw [unusedFrom, List.filter_cons]
  split_ifs with h h' h'
  · rfl
  · exact absurd (of_decide_eq_true h) h'
  · exact absurd (decide_eq_true h') h
  · rfl

theorem le_unusedFrom : u ≤ unusedFrom b u parts := by
  induction parts generalizing u with
  | nil => exact le_rfl
  | cons p parts ih =>
      rw [unusedFrom_cons]
      split_ifs with hin
      · exact (le_max_left u p.stop).trans ih
      · exact ih

/-- Every part in HP RAM ends below the unused part. -/
theorem stop_le_unusedFrom (hp : p ∈ parts) (hin : p.InHp b) : p.stop ≤ unusedFrom b u parts := by
  induction parts generalizing u with
  | nil => cases hp
  | cons q parts ih =>
      rw [unusedFrom_cons]
      cases hp with
      | head =>
          rw [if_pos hin]
          exact (le_max_right u p.stop).trans le_unusedFrom
      | tail _ hp => exact ih hp

theorem imageLen_cons : imageLen (p :: parts) = 8 + p.data.length + imageLen parts :=
  List.sum_cons

/-- The effect of going through the parts. -/
structure Loaded (b : Build) (s s' : State) (u : ℕ) (parts : List Part) : Prop where
  ret : s'.ret = espOk
  nextAddr : s'.nextAddr = s.nextAddr + BitVec.ofNat 32 (imageLen parts)
  segments : s'.segments = s.segments ++ parts.map Part.segment
  unusedStart : s'.unusedStart = addr (unusedFrom b u parts)
  mem : ∀ x, ¬ (b.dromLow ≤ x.toNat ∧ x.toNat ≤ b.dromHigh) →
    s'.mem x = (lastByte parts x).getD (s.mem x)

/-- One more part in front. -/
theorem Loaded.cons {s₁ s' : State}
    (hnext : s₁.nextAddr = s.nextAddr + 8#32 + p.segment.dataLen)
    (hsegs : s₁.segments = s.segments ++ [p.segment])
    (hmem : ∀ x, ¬ (b.dromLow ≤ x.toNat ∧ x.toNat ≤ b.dromHigh) →
      s₁.mem x = (p.byteAt x).getD (s.mem x))
    (h : Loaded b s₁ s' (if p.InHp b then max u p.stop else u) parts) :
    Loaded b s s' u (p :: parts) := by
  refine ⟨h.ret, ?_, ?_, ?_, ?_⟩
  · rw [h.nextAddr, hnext, imageLen_cons, BitVec.ofNat_add, BitVec.ofNat_add]
    simp only [Part.segment, Part.len, BitVec.add_assoc]
  · rw [h.segments, hsegs, List.append_assoc, List.singleton_append, List.map_cons]
  · rw [h.unusedStart, unusedFrom_cons]
  · intro x hx
    rw [h.mem x hx, hmem x hx, lastByte_cons, Option.getD_or]

theorem loadSegments_loaded (hret : s.ret = espOk) (hwf : WellFormed b image s.nextAddr parts)
    (hu : u ≤ b.hpMemEnd) (hunused : s.unusedStart = addr u) :
    Loaded b s (loadSegments b image parts.length s) u parts := by
  induction parts generalizing s u with
  | nil =>
      exact ⟨hret, by simp [loadSegments, imageLen], by simp [loadSegments], hunused,
        fun x _ => rfl⟩
  | cons p parts ih =>
      obtain ⟨hseg, hlen, hdata, hplace, hrest⟩ := hwf
      rw [List.length_cons, loadSegments]
      obtain hram | ⟨hdrom, hmagic⟩ := hplace
      · have hstep := loadSegment_of_copied hseg (copied_of_ram hram)
        have hok : (loadSegment b image s).ret = espOk := by rw [hstep, hret]
        have hu' : (if p.InHp b then max u p.stop else u) ≤ b.hpMemEnd := by
          split_ifs with hin
          · exact max_le hu hin.2.2
          · exact hu
        rw [if_pos hok]
        refine Loaded.cons (by rw [hstep]) (by rw [hstep]) ?_ (ih hok ?_ hu' ?_)
        · intro x _
          rw [hstep, dataLen_toNat hlen, hdata]
          rfl
        · rw [hstep]
          exact hrest
        · rw [hstep, hunused, raiseUnused_eq hram hu]
      · obtain ⟨hcopied, hin⟩ := hdrom.skipped
        have hstep := loadSegment_of_skipped hseg hcopied hin hmagic
        have hok : (loadSegment b image s).ret = espOk := by rw [hstep, hret]
        have hnot : ¬ p.InHp b := fun h => by
          rw [copied_of_ram (Or.inl h)] at hcopied
          cases hcopied
        rw [if_pos hok]
        refine Loaded.cons (by rw [hstep]) (by rw [hstep]) ?_ (ih hok ?_ ?_ ?_)
        · intro x hx
          rw [hstep, hdrom.byteAt hx]
          rfl
        · rw [hstep]
          exact hrest
        · rw [if_neg hnot]
          exact hu
        · rw [hstep, hunused, if_neg hnot]

end Loop

/-- What is cleared is apart from the flash mapping. -/
theorem not_drom_of_cleared {b : Build} {x : U32} {r : U32 × ℕ} (hr : r ∈ cleared b)
    (hx : Within r.1 r.2 x) : ¬ (b.dromLow ≤ x.toNat ∧ x.toNat ≤ b.dromHigh) := by
  have hapart : b.hpMemEnd < b.dromLow ∨ b.dromHigh < b.hpMemStart := b.drom_apart
  have hbelow := b.drom_below
  have hbase : 0x50000000 ≤ b.ulpBase := Nat.le_add_right ..
  obtain ⟨-, hstart, hstop⟩ | ⟨-, hstart, -⟩ := cleared_cases hr hx
  · omega
  · omega

/-- A well-formed image is loaded: the call succeeds, its offset ends behind the last part,
each cleared byte holds what the last part maps to it, and the region offered to the heap
begins behind every part in HP RAM. -/
theorem image_loaded_faithfully (b : Build) (image m : Memory 32) (parts : List Part)
    (hentry : validEntry b image = true) (hcount : (segmentCount image).toNat = parts.length)
    (hmax : parts.length ≤ imageMaxSegments) (hparts : WellFormed b image 24 parts) :
    let u := unusedFrom b b.hpMemStart parts
    (loadSub b image m).ret = espOk ∧
      (loadSubLoop b image m).segments = parts.map Part.segment ∧
      (loadSubLoop b image m).segments.length ≤ imageMaxSegments ∧
      (loadSubLoop b image m).nextAddr = BitVec.ofNat 32 (24 + imageLen parts) ∧
      (∀ r ∈ cleared b, ∀ x, Within r.1 r.2 x →
        (loadSub b image m).mem x = (lastByte parts x).getD 0) ∧
      (b.pureRtcRamApp = false →
        (loadSub b image m).offered = some (addr u, addr b.hpMemEnd) ∧
        ∀ p ∈ parts, p.InHp b ∨ p.InRtc b → ∀ x, Within p.loadAddr p.data.length x →
          ¬ (u ≤ x.toNat ∧ x.toNat < b.hpMemEnd)) := by
  intro u
  have hsum := b.hpMemStart_add_size
  have hloaded : Loaded b (State.start b m) (loadSubLoop b image m) b.hpMemStart parts := by
    rw [loadSubLoop, if_pos hentry, hcount]
    exact loadSegments_loaded rfl hparts (by omega) rfl
  have hsegs : (loadSubLoop b image m).segments = parts.map Part.segment := hloaded.segments
  refine ⟨hloaded.ret, hsegs, ?_, ?_, ?_, ?_⟩
  · rw [hsegs, List.length_map]
    exact hmax
  · rw [hloaded.nextAddr, BitVec.ofNat_add]
    rfl
  · intro r hr x hx
    have hmem := hloaded.mem x (not_drom_of_cleared hr hx)
    have hzero : (State.start b m).mem x = 0 := clearReserved_apply.trans (if_pos ⟨r, hr, hx⟩)
    rw [hzero] at hmem
    exact hmem
  · intro hpure
    refine ⟨?_, ?_⟩
    · simp only [loadSub, finishLoad, hloaded.ret, if_true, hpure, hloaded.unusedStart]
      rfl
    · intro p hp hram x hx
      have hhp := b.hpMemEnd_bounds
      have hbase : 0x50000000 ≤ b.ulpBase := Nat.le_add_right ..
      obtain hin | hin := hram
      · have hle : p.stop ≤ u := stop_le_unusedFrom hp hin
        have hstop := hin.2.2
        simp only [Part.stop] at hle hstop
        rw [within_iff (by omega)] at hx
        omega
      · have hrtc := b.rtcEnd_bounds
        obtain ⟨-, hstart, hstop⟩ := hin
        simp only [Part.stop] at hstop
        rw [within_iff (by omega)] at hx
        omega

/-- A descriptor, two bytes at the start of the HP region, two more that begin on the
second of them, and one byte in RTC RAM. -/
def overlappingParts : List Part :=
  [⟨0x42000020, [0x32, 0x54, 0xcd, 0xab]⟩, ⟨0x40876560, [1, 2]⟩, ⟨0x40876561, [4, 5]⟩,
    ⟨0x50000000, [3]⟩]

def overlappingImage : Memory 32 :=
  c6Image 4 [0x20, 0, 0, 0x42, 4, 0, 0, 0, 0x32, 0x54, 0xcd, 0xab,
    0x60, 0x65, 0x87, 0x40, 2, 0, 0, 0, 1, 2, 0x61, 0x65, 0x87, 0x40, 2, 0, 0, 0, 4, 5,
    0, 0, 0, 0x50, 1, 0, 0, 0, 3]

/-- The byte in which two parts overlap comes from the later one. -/
theorem overlappingImage_loaded :
    (loadSub c6Build overlappingImage fun _ => 0xff).ret = espOk ∧
      (loadSub c6Build overlappingImage fun _ => 0xff).mem 0x40876561 = 4 ∧
      (loadSub c6Build overlappingImage fun _ => 0xff).offered =
        some (0x40876563, 0x4087a560) := by
  have hparts : WellFormed c6Build overlappingImage 24 overlappingParts := by
    refine ⟨by decide +kernel, by decide, by decide +kernel,
      Or.inr ⟨⟨by decide, by decide⟩, by decide +kernel⟩, ?_⟩
    refine ⟨by decide +kernel, by decide, by decide +kernel, Or.inl (Or.inl (by decide)), ?_⟩
    refine ⟨by decide +kernel, by decide, by decide +kernel, Or.inl (Or.inl (by decide)), ?_⟩
    exact ⟨by decide +kernel, by decide, by decide +kernel,
      Or.inl (Or.inr ⟨by decide, by decide, by decide⟩), trivial⟩
  obtain ⟨hret, -, -, -, hmem, hoffered⟩ := image_loaded_faithfully c6Build overlappingImage
    (fun _ => 0xff) overlappingParts (by decide +kernel) (by decide) (by decide) hparts
  refine ⟨hret, ?_, (hoffered rfl).1.trans (by decide +kernel)⟩
  exact (hmem (addr c6Build.hpMemStart, c6Build.hpMemSize) (by decide) 0x40876561
    (by decide)).trans (by decide)

end EspAmp.LoaderFaithful
