import EspAmp.QueueLayout

/-!
# Failed queue initialization

The SysInfo allocator has no way to give memory back. An initialization that makes
one allocation therefore either succeeds or writes nothing, while the light-sleep
layouts allocate in the HP pool first and in the RTC pool second. Both entry points
are compared with the pools as `esp_amp_sys_info_get` and a walk to the last header
show them.
-/
namespace EspAmp.QueueMemory
open ByteMemory ReplyMachine SysInfo Virtqueue

/-- The last header of a pool. -/
def tailEntry (m : Memory 32) : ℕ → U32 → Option U32
  | 0, _ => none
  | fuel + 1, e => if nextAt m e = 0 then some e else tailEntry m fuel (nextAt m e)

/-- Bytes between the end of the last entry and the end of the pool. -/
def freeSpace (cfg : MemConfig) (fuel : ℕ) (m : Memory 32) (cap : Cap) : Option ℕ :=
  match cfg.pool cap with
  | none => some 0
  | some p =>
      (tailEntry m fuel (addr p.start)).map fun e =>
        p.stop - (e + 8#32 + sizeBytes (sizeAt m e)).toNat

/-- Both pools show the same entries and the same free space. -/
def PoolsUnchanged (cfg : MemConfig) (m m' : Memory 32) : Prop :=
  ∀ cap fuel, (∀ id, sysInfoGet cfg fuel m' id cap = sysInfoGet cfg fuel m id cap) ∧
    freeSpace cfg fuel m' cap = freeSpace cfg fuel m cap

/-- An allocation of these bytes is refused: there is no such pool, the id is taken,
or there is no room. -/
def CapRefused (cfg : MemConfig) (s : State) (cap : Cap) (id : U16) (bytes : U32) : Prop :=
  ∀ p, cfg.pool cap = some p → Refused p (s.grants cap) id (bytes.setWidth 16)

/-- The HP allocation of a light-sleep layout is granted and its RTC allocation is
refused. -/
def HalfDone (b : Build) (s : State) (id : U16) (hpBytes rtcBytes : U32) : Prop :=
  ¬ CapRefused b.mem s .hp id hpBytes ∧ CapRefused b.mem s .rtc id rtcBytes

section Allocations
variable {b : Build} {s : State} {fuel : ℕ} {id : U16} {bytes : U32} {cap : Cap}

/-- Every allocation ends, and it fails exactly when it is refused. -/
theorem sysInfoAlloc_total (hwf : Wf b.mem s) (hf : (s.grants cap).length < fuel) (id : U16)
    (bytes : U32) :
    ∃ r m, sysInfoAlloc b.mem fuel s.mem id (bytes.setWidth 16) cap = some (r, m) ∧
      (r = 0 ↔ CapRefused b.mem s cap id bytes) ∧ (r = 0 → m = s.mem) := by
  cases hp : b.mem.pool cap with
  | none =>
      refine ⟨0, s.mem, by rw [sysInfoAlloc, hp], ⟨fun _ p hp' => ?_, fun _ => rfl⟩, fun _ => rfl⟩
      rw [hp] at hp'
      cases hp'
  | some p =>
      have hiff : CapRefused b.mem s cap id bytes ↔
          Refused p (s.grants cap) id (bytes.setWidth 16) := by
        simp [CapRefused, hp]
      rw [hiff, sysInfoAlloc, hp]
      exact (hwf cap p hp).poolAlloc_total id (bytes.setWidth 16) hf

/-- A refused allocation ends the call with the memory untouched. -/
theorem allocOr_refused (hwf : Wf b.mem s) (hf : (s.grants cap).length < fuel) (fail : Int)
    (k : U32 → Memory 32 → Option InitResult) (hr : CapRefused b.mem s cap id bytes) :
    allocOr b fuel s.mem id bytes cap fail k = some { ret := fail, mem := s.mem } := by
  obtain ⟨r, m, ha, hiff, hm⟩ := sysInfoAlloc_total hwf hf id bytes
  obtain rfl := hiff.mpr hr
  rw [allocOr, ha, hm rfl]
  rfl

/-- A granted allocation continues with a recorded grant. -/
theorem allocOr_granted (hwf : Wf b.mem s) (hf : (s.grants cap).length < fuel) (fail : Int)
    (k : U32 → Memory 32 → Option InitResult) (hr : ¬ CapRefused b.mem s cap id bytes) :
    ∃ r m, r ≠ 0 ∧ Wf b.mem ⟨m, record s.grants cap ⟨id, bytes.setWidth 16, r⟩⟩ ∧
      allocOr b fuel s.mem id bytes cap fail k = (k r m).map fun res =>
        { res with grants := (cap, ⟨id, bytes.setWidth 16, r⟩) :: res.grants } := by
  obtain ⟨r, m, ha, hiff, -⟩ := sysInfoAlloc_total hwf hf id bytes
  have hz : r ≠ 0 := fun hz => hr (hiff.mp hz)
  refine ⟨r, m, hz, alloc_wf hwf ha, ?_⟩
  rw [allocOr, ha]
  exact if_neg hz

theorem PoolsUnchanged.refl (cfg : MemConfig) (m : Memory 32) : PoolsUnchanged cfg m m :=
  fun _ _ => ⟨fun _ => rfl, rfl⟩

/-- A new entry is visible. -/
theorem not_unchanged_of_grant {r : U32} {m : Memory 32} {p : Pool} (hp : b.mem.pool cap = some p)
    (hwf : Wf b.mem s) (hid : id ∉ (s.grants cap).map Grant.id)
    (hwf' : Wf b.mem ⟨m, record s.grants cap ⟨id, bytes.setWidth 16, r⟩⟩) (hr : r ≠ 0) :
    ¬ PoolsUnchanged b.mem s.mem m := by
  intro h
  have hget := (h cap ((s.grants cap).length + 2)).1 id
  have hnew := hwf' cap p hp
  dsimp only at hnew
  rw [record_same hr] at hnew
  have hold := hwf cap p hp
  rw [sysInfoGet, sysInfoGet, hp] at hget
  dsimp only at hget
  rw [hnew.chain.findEntry_eq hnew.top_lt id (by simp),
    hold.chain.findEntry_eq hold.top_lt id (by omega)] at hget
  have hnone : (s.grants cap).find? (·.id = id) = none := by
    rw [List.find?_eq_none]
    intro g hg
    have hne : g.id ≠ id := fun heq => hid (heq ▸ List.mem_map_of_mem hg)
    simpa using hne
  rw [hnone, List.find?_append, hnone] at hget
  simp at hget

/-- How a call relates to the pools it found: it fails with a visible entry when it
gets stuck half-way, and any other failure leaves the memory as it was. -/
structure Outcome (b : Build) (s : State) (ok : Int) (stuck : Prop) (res : InitResult) : Prop where
  of_stuck : stuck → res.ret ≠ ok ∧ ¬ PoolsUnchanged b.mem s.mem res.mem
  of_not_stuck : ¬ stuck → res.ret ≠ ok → res.mem = s.mem

theorem Outcome.iff {ok : Int} {stuck : Prop} {res : InitResult} (h : Outcome b s ok stuck res) :
    (res.ret ≠ ok → PoolsUnchanged b.mem s.mem res.mem) ↔ ¬ stuck := by
  constructor
  · intro hkeep hstuck
    obtain ⟨hret, hchanged⟩ := h.of_stuck hstuck
    exact hchanged (hkeep hret)
  · intro hstuck hret
    rw [h.of_not_stuck hstuck hret]
    exact PoolsUnchanged.refl _ _

/-- One allocation cannot get stuck. -/
theorem oneAlloc_outcome (hwf : Wf b.mem s) (hf : ∀ cap, (s.grants cap).length < fuel)
    (id : U16) (bytes : U32) (fail ok : Int) (k : U32 → Memory 32 → InitResult)
    (hok : ∀ r m, (k r m).ret = ok) :
    ∃ res, allocOr b fuel s.mem id bytes .hp fail (fun r m => some (k r m)) = some res ∧
      Outcome b s ok False res := by
  by_cases hr : CapRefused b.mem s .hp id bytes
  · exact ⟨_, allocOr_refused hwf (hf .hp) fail _ hr, ⟨False.elim, fun _ _ => rfl⟩⟩
  · obtain ⟨r, m, -, -, heq⟩ :=
      allocOr_granted hwf (hf .hp) fail (fun r m => some (k r m)) hr
    exact ⟨_, heq, ⟨False.elim, fun _ hret => absurd (hok r m) hret⟩⟩

/-- Two allocations get stuck exactly between them. -/
theorem twoAllocs_outcome (hwf : Wf b.mem s) (hf : ∀ cap, (s.grants cap).length < fuel)
    (id : U16) (hpBytes rtcBytes : U32) {fail ok : Int} (hfail : fail ≠ ok)
    (k : U32 → U32 → Memory 32 → InitResult) (hok : ∀ hp rtc m, (k hp rtc m).ret = ok) :
    ∃ res, allocOr b fuel s.mem id hpBytes .hp fail (fun hp m =>
        allocOr b fuel m id rtcBytes .rtc fail fun rtc m => some (k hp rtc m)) = some res ∧
      Outcome b s ok (HalfDone b s id hpBytes rtcBytes) res := by
  by_cases hr : CapRefused b.mem s .hp id hpBytes
  · refine ⟨_, allocOr_refused hwf (hf .hp) fail _ hr, ⟨fun h => absurd hr h.1, fun _ _ => rfl⟩⟩
  · obtain ⟨hp, m, hz, hwf', heq⟩ := allocOr_granted hwf (hf .hp) fail (fun hp m =>
      allocOr b fuel m id rtcBytes .rtc fail fun rtc m => some (k hp rtc m)) hr
    let s' : State := ⟨m, record s.grants .hp ⟨id, hpBytes.setWidth 16, hp⟩⟩
    have hrtc : s'.grants .rtc = s.grants .rtc := record_other _ (by decide)
    have hiff : CapRefused b.mem s' .rtc id rtcBytes ↔ CapRefused b.mem s .rtc id rtcBytes := by
      simp only [CapRefused, hrtc]
    have hf' : (s'.grants .rtc).length < fuel := by
      rw [hrtc]
      exact hf .rtc
    by_cases hr' : CapRefused b.mem s .rtc id rtcBytes
    · have hinner := allocOr_refused hwf' hf' fail (fun rtc m => some (k hp rtc m))
        (hiff.mpr hr')
      rw [heq, hinner]
      refine ⟨_, rfl, ⟨fun _ => ⟨hfail, ?_⟩, fun h => absurd ⟨hr, hr'⟩ h⟩⟩
      obtain ⟨p, hp', hnot⟩ : ∃ p, b.mem.pool .hp = some p ∧
          ¬ Refused p (s.grants .hp) id (hpBytes.setWidth 16) := by
        simpa [CapRefused] using hr
      exact not_unchanged_of_grant hp' hwf (fun hid => hnot (Or.inl hid)) hwf' hz
    · obtain ⟨rtc, m', -, -, hinner⟩ := allocOr_granted hwf' hf' fail
        (fun rtc m => some (k hp rtc m)) (fun h => hr' (hiff.mp h))
      rw [heq, hinner]
      refine ⟨_, rfl, ⟨fun h => absurd h.2 hr', fun _ hret => absurd (hok hp rtc m') hret⟩⟩

end Allocations

section Calls
variable {b : Build} {s : State} {fuel : ℕ}

/-- Bytes of the descriptor table and of the items, as `size_t`. -/
def descBytes (b : Build) (queueLen : U16) : U32 :=
  8#32 * (getPowerLen b.clzZero queueLen).setWidth 32

def itemBytes (b : Build) (queueLen queueItemSize : U16) : U32 :=
  (getAlignedSize queueItemSize).setWidth 32 * (getPowerLen b.clzZero queueLen).setWidth 32

/-- Length and item size pass the argument check. -/
def SizesValid (b : Build) (queueLen queueItemSize : U16) : Prop :=
  getPowerLen b.clzZero queueLen ≠ 0 ∧ getAlignedSize queueItemSize ≠ 0

theorem not_sizesValid {queueLen queueItemSize : U16}
    (h : getPowerLen b.clzZero queueLen = 0 ∨ getAlignedSize queueItemSize = 0) :
    ¬ SizesValid b queueLen queueItemSize :=
  fun hvalid => h.elim hvalid.1 hvalid.2

/-- `esp_amp_queue_main_init` stops between its two allocations. -/
def QueueStuck (b : Build) (s : State) (queueLen queueItemSize : U16) (isMaster : Bool)
    (id : U16) : Prop :=
  SizesValid b queueLen queueItemSize ∧ b.lightSleep = true ∧ isMaster = true ∧
    HalfDone b s id (12#32 + itemBytes b queueLen queueItemSize) (descBytes b queueLen)

/-- `esp_amp_rpmsg_main_init_by_id` stops between its two allocations. -/
def RpmsgStuck (b : Build) (s : State) (queueLen queueItemSize id : U16) : Prop :=
  SizesValid b queueLen queueItemSize ∧ b.lightSleep = true ∧
    HalfDone b s id
      (2#32 * (12#32 + itemBytes b queueLen queueItemSize) + descBytes b queueLen)
      (descBytes b queueLen)

theorem queueMainInit_outcome (hwf : Wf b.mem s) (hf : ∀ cap, (s.grants cap).length < fuel)
    (queueLen queueItemSize : U16) (cbFunc : Option QueueCb) (privData : U32) (isMaster : Bool)
    (id : U16) :
    ∃ res, queueMainInit b fuel s.mem queueLen queueItemSize cbFunc privData isMaster id =
        some res ∧ Outcome b s espOk (QueueStuck b s queueLen queueItemSize isMaster id) res := by
  simp only [queueMainInit]
  by_cases hsizes : getPowerLen b.clzZero queueLen = 0 ∨ getAlignedSize queueItemSize = 0
  · rw [if_pos hsizes]
    exact ⟨_, rfl, ⟨fun h => absurd h.1 (not_sizesValid hsizes), fun _ _ => rfl⟩⟩
  · rw [if_neg hsizes]
    by_cases hsleep : (b.lightSleep && isMaster) = true
    · rw [if_pos hsleep]
      rw [Bool.and_eq_true] at hsleep
      obtain ⟨res, hres, hout⟩ := twoAllocs_outcome hwf hf id
        (12#32 + itemBytes b queueLen queueItemSize) (descBytes b queueLen)
        (by decide : espErrNoMem ≠ espOk)
        (fun hp rtc m => finishQueue ⟨hp, rtc, hp + 12#32, getPowerLen b.clzZero queueLen,
          getAlignedSize queueItemSize⟩ cbFunc privData isMaster m) fun _ _ _ => rfl
      refine ⟨res, hres, ⟨fun h => hout.of_stuck h.2.2.2, fun h => hout.of_not_stuck ?_⟩⟩
      exact fun hhalf => h ⟨not_or.mp hsizes, hsleep.1, hsleep.2, hhalf⟩
    · rw [if_neg hsleep]
      obtain ⟨res, hres, hout⟩ := oneAlloc_outcome hwf hf id
        (12#32 + descBytes b queueLen + itemBytes b queueLen queueItemSize) espErrNoMem espOk
        (fun vq m => finishQueue ⟨vq, vq + 12#32, vq + 12#32 + descBytes b queueLen,
          getPowerLen b.clzZero queueLen, getAlignedSize queueItemSize⟩ cbFunc privData isMaster m)
        fun _ _ => rfl
      refine ⟨res, hres, ⟨fun h => absurd ?_ hsleep, fun _ => hout.of_not_stuck not_false⟩⟩
      rw [h.2.1, h.2.2.1]
      rfl

theorem rpmsgMainInitById_outcome (hwf : Wf b.mem s) (hf : ∀ cap, (s.grants cap).length < fuel)
    (rpmsgDev : U32) (queueLen queueItemSize : U16) (notify poll : Bool) (id : U16) :
    ∃ res, rpmsgMainInitById b fuel s.mem rpmsgDev queueLen queueItemSize notify poll id =
        some res ∧ Outcome b s 0 (RpmsgStuck b s queueLen queueItemSize id) res := by
  simp only [rpmsgMainInitById]
  by_cases hsizes : getPowerLen b.clzZero queueLen = 0 ∨ getAlignedSize queueItemSize = 0
  · rw [if_pos hsizes]
    exact ⟨_, rfl, ⟨fun h => absurd h.1 (not_sizesValid hsizes), fun _ _ => rfl⟩⟩
  · rw [if_neg hsizes]
    by_cases hsleep : b.lightSleep = true
    · rw [if_pos hsleep]
      obtain ⟨res, hres, hout⟩ := twoAllocs_outcome hwf hf id
        (2#32 * (12#32 + itemBytes b queueLen queueItemSize) + descBytes b queueLen)
        (descBytes b queueLen) (by decide : (-1 : Int) ≠ 0)
        (fun hp rtc m => finishRpmsg
          ⟨hp, rtc, hp + 12#32 + 12#32 + descBytes b queueLen, getPowerLen b.clzZero queueLen,
            getAlignedSize queueItemSize⟩
          ⟨hp + 12#32, hp + 12#32 + 12#32,
            hp + 12#32 + 12#32 + descBytes b queueLen + itemBytes b queueLen queueItemSize,
            getPowerLen b.clzZero queueLen, getAlignedSize queueItemSize⟩
          notify poll rpmsgDev m) fun _ _ _ => rfl
      refine ⟨res, hres, ⟨fun h => hout.of_stuck h.2.2, fun h => hout.of_not_stuck ?_⟩⟩
      exact fun hhalf => h ⟨not_or.mp hsizes, hsleep, hhalf⟩
    · rw [if_neg hsleep]
      obtain ⟨res, hres, hout⟩ := oneAlloc_outcome hwf hf id
        (2#32 * (12#32 + descBytes b queueLen + itemBytes b queueLen queueItemSize)) (-1) 0
        (fun vq m => finishRpmsg
          ⟨vq, vq + 12#32 + 12#32,
            vq + 12#32 + 12#32 + descBytes b queueLen + descBytes b queueLen,
            getPowerLen b.clzZero queueLen, getAlignedSize queueItemSize⟩
          ⟨vq + 12#32, vq + 12#32 + 12#32 + descBytes b queueLen,
            vq + 12#32 + 12#32 + descBytes b queueLen + descBytes b queueLen +
              itemBytes b queueLen queueItemSize,
            getPowerLen b.clzZero queueLen, getAlignedSize queueItemSize⟩
          notify poll rpmsgDev m) fun _ _ => rfl
      exact ⟨res, hres, ⟨fun h => absurd h.2.1 hsleep, fun _ => hout.of_not_stuck not_false⟩⟩

end Calls

/-- In every state of the pools a failed initialization keeps the entries and the
free space of both pools exactly when it does not stop between its HP and its RTC
allocation; it then leaves the memory as it was. -/
theorem failed_init_keeps_pools_iff (b : Build) (m : Memory 32) (ls : List Label) (s : State)
    (hrun : Run (Step b.mem) (State.start b.mem m) ls s) (fuel : ℕ)
    (hfuel : ∀ cap, (s.grants cap).length < fuel) (queueLen queueItemSize id : U16) :
    (∀ cbFunc privData isMaster, ∃ res,
      queueMainInit b fuel s.mem queueLen queueItemSize cbFunc privData isMaster id = some res ∧
      ((res.ret ≠ espOk → PoolsUnchanged b.mem s.mem res.mem) ↔
        ¬ QueueStuck b s queueLen queueItemSize isMaster id) ∧
      (¬ QueueStuck b s queueLen queueItemSize isMaster id → res.ret ≠ espOk →
        res.mem = s.mem)) ∧
    ∀ rpmsgDev notify poll, ∃ res,
      rpmsgMainInitById b fuel s.mem rpmsgDev queueLen queueItemSize notify poll id = some res ∧
      ((res.ret ≠ 0 → PoolsUnchanged b.mem s.mem res.mem) ↔
        ¬ RpmsgStuck b s queueLen queueItemSize id) ∧
      (¬ RpmsgStuck b s queueLen queueItemSize id → res.ret ≠ 0 → res.mem = s.mem) := by
  have hwf := run_wf hrun
  constructor
  · intro cbFunc privData isMaster
    obtain ⟨res, hres, hout⟩ :=
      queueMainInit_outcome hwf hfuel queueLen queueItemSize cbFunc privData isMaster id
    exact ⟨res, hres, hout.iff, hout.of_not_stuck⟩
  · intro rpmsgDev notify poll
    obtain ⟨res, hres, hout⟩ :=
      rpmsgMainInitById_outcome hwf hfuel rpmsgDev queueLen queueItemSize notify poll id
    exact ⟨res, hres, hout.iff, hout.of_not_stuck⟩

/-- ESP32-C6 with light sleep. -/
def c6SleepBuild : Build := ⟨c6Defaults, true, 32⟩

/-- The table of 32 descriptors does not fit the default RTC pool. -/
theorem thirtyTwo_halfDone (m : Memory 32) {hpBytes : U32}
    (hfits : ¬ Refused c6Defaults.hpPool [] 3 (hpBytes.setWidth 16)) :
    HalfDone c6SleepBuild (State.start c6Defaults m) 3 hpBytes (descBytes c6SleepBuild 32) := by
  refine ⟨fun h => hfits (h c6Defaults.hpPool rfl), fun p hp => ?_⟩
  obtain rfl := Option.some.inj hp
  have hroom : c6Defaults.rtcPool.stop < c6Defaults.rtcPool.start + 8 + occupied [] + 8 +
      rounded ((descBytes c6SleepBuild 32).setWidth 16) := by decide
  exact Or.inr hroom

instance (p : Pool) (gs : List Grant) (id size : U16) : Decidable (Refused p gs id size) :=
  inferInstanceAs (Decidable (_ ∨ _))

instance (b : Build) (queueLen queueItemSize : U16) :
    Decidable (SizesValid b queueLen queueItemSize) :=
  inferInstanceAs (Decidable (_ ∧ _))

/-- A failed light-sleep initialization of 32 items leaves its HP entry behind. -/
theorem light_sleep_init_leaves_entry :
    (∃ res, queueMainInit c6SleepBuild 1 (State.start c6Defaults fun _ => 0).mem 32 16 none 0 true
        3 = some res ∧ res.ret ≠ espOk ∧
      ¬ PoolsUnchanged c6Defaults (State.start c6Defaults fun _ => 0).mem res.mem) ∧
    ∃ res, rpmsgMainInitById c6SleepBuild 1 (State.start c6Defaults fun _ => 0).mem 0 32 16 true
        true 3 = some res ∧ res.ret ≠ 0 ∧
      ¬ PoolsUnchanged c6Defaults (State.start c6Defaults fun _ => 0).mem res.mem := by
  have hwf : Wf c6SleepBuild.mem (State.start c6Defaults fun _ => 0) := start_wf c6Defaults _
  constructor
  · obtain ⟨res, hres, hout⟩ :=
      queueMainInit_outcome hwf (fun _ => Nat.one_pos) 32 16 none 0 true 3
    exact ⟨res, hres, hout.of_stuck
      ⟨by decide, rfl, rfl, thirtyTwo_halfDone _ (by decide)⟩⟩
  · obtain ⟨res, hres, hout⟩ :=
      rpmsgMainInitById_outcome hwf (fun _ => Nat.one_pos) 0 32 16 true true 3
    exact ⟨res, hres, hout.of_stuck ⟨by decide, rfl, thirtyTwo_halfDone _ (by decide)⟩⟩

/-- Without light sleep a queue that is too long for the HP pool leaves no trace. -/
theorem long_queue_leaves_no_trace : ∃ res,
    queueMainInit c6Build 1 (State.start c6Defaults fun _ => 0).mem 1024 16 none 0 true 3 =
      some res ∧ res.ret = espErrNoMem ∧
      PoolsUnchanged c6Defaults (State.start c6Defaults fun _ => 0).mem res.mem := by
  obtain ⟨res, hres, hiff, -⟩ := (failed_init_keeps_pools_iff c6Build (fun _ => 0) [] _ (.done _) 1
    (fun _ => Nat.one_pos) 1024 16 3).1 none 0 true
  obtain ⟨res', hres', hret⟩ : ∃ res, queueMainInit c6Build 1
      (State.start c6Defaults fun _ => 0).mem 1024 16 none 0 true 3 = some res ∧
      res.ret = espErrNoMem := ⟨_, rfl, rfl⟩
  obtain rfl := Option.some.inj (hres.symm.trans hres')
  refine ⟨res, hres, hret, hiff.mpr (fun h => by cases h.2.1) ?_⟩
  rw [hret]
  decide

end EspAmp.QueueMemory
