import EspAmp.QueueTable
import EspAmp.ServiceBuffers
import EspAmp.SystemStart

/-!
# What the main core needs to start, and what it leaves behind

The parts of `esp_amp_init` one after the other. Each of them is granted its memory exactly
when the request fits into what the earlier ones have left, and none of them touches what
the earlier ones have stored. So the whole initialization succeeds exactly when all requests
fit, the handlers find free slots and nothing outside of the component fails; behind it the
lock, the service queue and the event words lie in the grants that the subcore looks for.
-/
namespace EspAmp.SystemStart
open ByteMemory SysInfo QueueMemory Virtqueue
open SoftwareInterrupt (Slot addHandler)
open EventTable (Entry)
open RpmsgAttach (Fresh)
open ServiceQueue (write_byte_self)

/-- `notify_cb` of the subcore as a value of a handle. -/
def notifyCb : QueueCb := fun _ => 0

/-- Where the service queue lies behind the address of its grant. -/
def serviceArea (vq : U32) : QueueArea := ⟨vq, vq + 12#32, vq + 12#32 + 128#32, 16, 128⟩

theorem service_k_le : 4 ≤ 15 := by decide

/-- The service queue, with the subcore as the master. -/
def serviceRing (vq : U32) : VirtqueueFifo.Setup :=
  RpmsgAttach.areaSetup (serviceArea vq) service_k_le (some notifyCb) (some recvCb) 0 0

/-- Requests that were granted, as id and size. -/
def requests (s : SysInfo.State) (cap : Cap) : List (U16 × U16) :=
  (s.grants cap).map fun g => (g.id, g.size)

/-- Bytes taken by such requests, headers included. -/
def used (reqs : List (U16 × U16)) : ℕ := (reqs.map fun r => 8 + rounded r.2).sum

theorem occupied_eq_used (gs : List Grant) :
    occupied gs = used (gs.map fun g => (g.id, g.size)) := by
  induction gs with
  | nil => rfl
  | cons g gs ih => simp only [occupied, ih, used, List.map_cons, List.sum_cons]

section Shared
variable {G : Type} {c : MainCore G} {s t : SysInfo.State} {P : Cap → Grant → Prop}

/-- The lock lies in its grant and is not taken. -/
def LockAt (c : MainCore G) (s : SysInfo.State) : Prop :=
  ⟨idPm, 4, c.lpAccessHpCnt⟩ ∈ s.grants .rtc ∧ s.mem c.lpAccessHpCnt = 0

/-- The service queue lies in its grant, and the main core has its receiving side. -/
def ServiceAt (c : MainCore G) (s : SysInfo.State) (vq : U32) : Prop :=
  ⟨idSystem, 2188, vq⟩ ∈ s.grants .hp ∧ Fresh (serviceArea vq) s.mem ∧
    c.serviceQueue = some (serviceRing vq).remoteHandle

/-- The byte of the lock lies in its grant. -/
theorem lock_keep {lp : U32} (hg : ⟨idPm, 4, lp⟩ ∈ s.grants .rtc) (hk : Keeps P s t)
    (hP : P .rtc ⟨idPm, 4, lp⟩) : t.mem lp = s.mem lp := by
  refine (hk _ _ hg hP).2 lp ?_
  rw [Within, BitVec.sub_self]
  exact show (0#32).toNat < (4#16).toNat by decide

theorem LockAt.keep (h : LockAt c s) (hk : Keeps P s t)
    (hP : P .rtc ⟨idPm, 4, c.lpAccessHpCnt⟩) : LockAt c t :=
  ⟨(hk _ _ h.1 hP).1, (lock_keep h.1 hk hP).trans h.2⟩

/-- The bytes of a fresh service queue lie in its grant. -/
theorem fresh_keep {vq : U32} {m m' : Memory 32} (h : Fresh (serviceArea vq) m)
    (hbytes : ∀ x, Within vq (2188#16).toNat x → m' x = m x) : Fresh (serviceArea vq) m' :=
  h.congr (fun x hx => hbytes x (hx.mono (show 12 ≤ (2188#16).toNat by decide)))
    fun x hx => hbytes x
      (within_of_offset (show 12 + 8 * (16#16).toNat ≤ (2188#16).toNat by decide) hx)

theorem ServiceAt.keep {vq : U32} (h : ServiceAt c s vq) (hk : Keeps P s t)
    (hP : P .hp ⟨idSystem, 2188, vq⟩) : ServiceAt c t vq := by
  obtain ⟨hmem, hbytes⟩ := hk _ _ h.1 hP
  exact ⟨hmem, fresh_keep h.2.1 hbytes, h.2.2⟩

/-- Where the initialization stands: the requests it has made, the free slots of the handler
table, and the handlers it has registered. -/
structure Progress (sys : System) (req : Cap → List (U16 × U16)) (free : ℕ)
    (entries : List (Fin 32 × Handler)) (c : MainCore G) : Prop where
  sound : Sound sys.mem c.pools
  requests : ∀ cap, requests c.pools cap = req cap
  free : freeSlots c.handlers = free
  entries : ∀ e ∈ entries, ⟨e.1, some e.2, 0⟩ ∈ c.handlers
  lock : (idPm, 4) ∈ req .rtc → LockAt c c.pools
  service : (idSystem, 2188) ∈ req .hp → ∃ vq, ServiceAt c c.pools vq

end Shared

section Parts
variable {G : Type} {sys : System} {ans : Answers G} {fuel : ℕ} {c : MainCore G}
  {req : Cap → List (U16 × U16)} {free : ℕ} {entries : List (Fin 32 × Handler)} {p : Pool}
  {cap : Cap} {id : U16}

/-- A new request is granted exactly when it fits. -/
theorem alloc_spec (id : U16) (h : Progress sys req free entries c) (hp : sys.mem.pool cap = some p)
    (hid : id ∉ (req cap).map Prod.fst) (hf : (req cap).length < fuel) (size : U16) :
    ∃ r m, sysInfoAlloc sys.mem fuel c.pools.mem id size cap = some (r, m) ∧
      (r ≠ 0 ↔ p.start + 8 + used (req cap) + 8 + rounded size ≤ p.stop) := by
  have hreq := h.requests cap
  have hlength : (c.pools.grants cap).length < fuel := by
    rwa [← hreq, SystemStart.requests, List.length_map] at hf
  obtain ⟨r, m, ha, hiff, -⟩ := (h.sound.wf cap p hp).poolAlloc_total id size hlength
  refine ⟨r, m, by rw [sysInfoAlloc, hp]; exact ha, ?_⟩
  have hids : (c.pools.grants cap).map Grant.id = (req cap).map Prod.fst := by
    rw [← hreq, SystemStart.requests, List.map_map]
    rfl
  rw [ne_eq, hiff, Refused, hids, occupied_eq_used]
  change ¬ (_ ∨ _ < _ + 8 + used (SystemStart.requests c.pools cap) + 8 + _) ↔ _
  rw [hreq, or_iff_right hid, not_lt]

/-- One more request. -/
def grow (req : Cap → List (U16 × U16)) (cap : Cap) (r : U16 × U16) : Cap → List (U16 × U16) :=
  fun d => if d = cap then req d ++ [r] else req d

theorem requests_record (s : SysInfo.State) {m : Memory 32} {size : U16} {r : U32} (hr : r ≠ 0) :
    requests ⟨m, record s.grants cap ⟨id, size, r⟩⟩ = grow (requests s) cap (id, size) := by
  funext d
  unfold grow
  by_cases hd : d = cap
  · subst hd
    simp [requests, record_same (g := ⟨id, size, r⟩) hr]
  · simp [requests, record_other _ hd, hd]

/-- A registration. -/
theorem swIntrAddHandler_succeeds (h : Progress sys req free entries c) (intrId : Fin 32)
    (handler : Handler) : Succeeds (swIntrAddHandler c intrId handler) (1 ≤ free)
      (fun c' => Progress sys req (free - 1) ((intrId, handler) :: entries) c' ∧
        ∃ hs, c' = { c with handlers := hs }) := by
  obtain ⟨hzero, hfree⟩ := @addHandler_spec ⟨intrId, some handler, 0⟩ c.handlers rfl
  rw [h.free] at hzero hfree
  constructor
  · intro hslot
    obtain ⟨hnew, hold⟩ := mem_addHandler (hzero.mpr hslot)
    refine ⟨{ c with handlers := (addHandler ⟨intrId, some handler, 0⟩ c.handlers).2 },
      by rw [swIntrAddHandler, hzero.mpr hslot],
      ⟨h.sound, h.requests, hfree, fun e he => ?_, h.lock, h.service⟩, _, rfl⟩
    rcases List.mem_cons.mp he with rfl | he
    · exact hnew
    · exact hold _ (h.entries e he) rfl
  · intro hslot c' hc
    simp only [swIntrAddHandler, Option.some.injEq, Prod.mk.injEq] at hc
    exact hslot (hzero.mp hc.1)

theorem rtc_ne_hp : Cap.rtc ≠ Cap.hp := by decide

/-- The requests of the lock, and those of the lock and the service queue. -/
def pmRequests (sys : System) : Cap → List (U16 × U16)
  | .hp => []
  | .rtc => if sys.lightSleep then [(idPm, 4)] else []

def systemRequests (sys : System) : Cap → List (U16 × U16)
  | .hp => if sys.supplicant then [(idSystem, 2188)] else []
  | .rtc => if sys.lightSleep then [(idPm, 4)] else []

theorem rtc_room (cfg : MemConfig) : cfg.rtcPool.start + 8 + used [] + 8 + rounded 4 ≤
    cfg.rtcPool.stop ↔ 17 ≤ cfg.rtcSharedMemSize := by
  have hrounded : rounded 4 = 4 := by decide
  rw [hrounded]
  simp only [MemConfig.rtcPool, MemConfig.rtcPoolSize, alignUp, alignDown, used, List.map_nil,
    List.sum_nil]
  omega

theorem systemPmInit_eq {r : U32} {m : Memory 32}
    (ha : sysInfoAlloc sys.mem fuel c.pools.mem idPm 4 .rtc = some (r, m)) :
    systemPmInit sys ans fuel c =
      let gs := record c.pools.grants .rtc ⟨idPm, 4, r⟩
      some (if r = 0 then (-1, { c with pools := ⟨m, gs⟩, lpAccessHpCnt := r })
        else if ans.registerSkipLightSleep ≠ espOk then
          (-1, { c with pools := ⟨write m r [0], gs⟩, lpAccessHpCnt := r })
        else (0, { c with pools := ⟨write m r [0], gs⟩, lpAccessHpCnt := r })) := by
  rw [systemPmInit, MainCore.alloc, ha]
  rfl

theorem requests_grow {s : SysInfo.State} {m : Memory 32} {size : U16} {r : U32} (hr : r ≠ 0)
    (hreq : ∀ d, requests s d = req d) (d : Cap) :
    requests ⟨m, record s.grants cap ⟨id, size, r⟩⟩ d = grow req cap (id, size) d := by
  rw [requests_record s hr, grow, grow, hreq]

/-- The light-sleep lock. -/
theorem systemPmInit_succeeds (h : Progress sys (fun _ => []) free entries c)
    (hls : sys.lightSleep = true) (hf : 0 < fuel) :
    Succeeds (systemPmInit sys ans fuel c)
      (17 ≤ sys.mem.rtcSharedMemSize ∧ ans.registerSkipLightSleep = espOk)
      (Progress sys (pmRequests sys) free entries) := by
  have hpool : sys.mem.pool .rtc = some sys.mem.rtcPool := by
    rw [MemConfig.pool, if_pos (sys.sleep_lp hls)]
  obtain ⟨r, m, ha, hiff⟩ := alloc_spec idPm h hpool (by simp) hf 4
  rw [rtc_room] at hiff
  rw [systemPmInit_eq ha]
  constructor
  · rintro ⟨hroom, hregister⟩
    have hr := hiff.mpr hroom
    obtain ⟨hsound, -⟩ := h.sound.alloc ha
    have hmem : (⟨idPm, 4, r⟩ : Grant) ∈ record c.pools.grants .rtc ⟨idPm, 4, r⟩ .rtc := by
      rw [record_same hr]
      exact List.mem_append_right _ (List.mem_singleton_self _)
    have hone : ([0] : List U8).length ≤ (4#16).toNat := by decide
    refine ⟨{ c with
      pools := ⟨write m r [0], record c.pools.grants .rtc ⟨idPm, 4, r⟩⟩
      lpAccessHpCnt := r }, ?_, ⟨?_, fun d => ?_, h.free, h.entries,
        fun _ => ⟨hmem, write_byte_self _ _ _⟩, ?_⟩⟩
    · dsimp only
      rw [if_neg hr, if_neg (not_not.mpr hregister)]
    · exact (hsound.change hmem fun x hx =>
        write_of_not_within fun hw => hx (hw.mono hone)).1
    · rw [requests_grow hr h.requests]
      cases d with
      | hp => rfl
      | rtc => rw [grow, if_pos rfl, pmRequests, if_pos hls, List.nil_append]
    · exact fun hin => absurd hin List.not_mem_nil
  · intro hno c' hc
    dsimp only at hc
    split_ifs at hc with hr hregister
    · exact absurd (congrArg Prod.fst (Option.some.inj hc)) (show (-1 : Int) ≠ 0 by decide)
    · exact absurd (congrArg Prod.fst (Option.some.inj hc)) (show (-1 : Int) ≠ 0 by decide)
    · exact hno ⟨hiff.mp hr, not_not.mp hregister⟩

/-- The HP pool has room for so many bytes behind its start. -/
theorem hp_room (cfg : MemConfig) (k : ℕ) : cfg.hpPool.start + k ≤ cfg.hpPool.stop ↔
    k + 32 ≤ alignUp cfg.hpSharedMemSize 16 := by
  obtain ⟨hlow, hhigh⟩ := cfg.hp_range
  simp only [MemConfig.hpPool, MemConfig.hpPoolStart, MemConfig.hpSharedMemStart, alignUp,
    alignDown]
  cases ht : cfg.target with
  | esp32c5 =>
      simp only [ht, Target.lpCore, if_true] at hhigh
      simp only [Target.hpSharedMemEnd]
      omega
  | esp32c6 =>
      simp only [ht, Target.lpCore, if_true] at hhigh
      simp only [Target.hpSharedMemEnd]
      omega
  | esp32p4 =>
      simp only [ht, Target.lpCore, Bool.false_eq_true, if_false] at hhigh
      simp only [Target.hpSharedMemEnd]
      omega

/-- An allocation behind which nothing can fail. -/
theorem allocOr_map (b : Build) (m : Memory 32) (size : U32) (fail : Int)
    (k : U32 → Memory 32 → InitResult) :
    allocOr b fuel m id size cap fail (fun a m => some (k a m)) =
      (sysInfoAlloc b.mem fuel m id (size.setWidth 16) cap).map fun r =>
        if r.1 = 0 then { ret := fail, mem := r.2 }
        else
          { k r.1 r.2 with
              grants := (cap, ⟨id, size.setWidth 16, r.1⟩) :: (k r.1 r.2).grants } := by
  rw [allocOr]
  cases sysInfoAlloc b.mem fuel m id (size.setWidth 16) cap with
  | none => rfl
  | some r =>
      simp only [Option.map_some]
      split_ifs
      · rfl
      · rfl

/-- The layout of the service queue, with the config struct, the table and the items behind
one another. -/
theorem queueMainInit_service (m : Memory 32) :
    queueMainInit sys.toBuild fuel m 16 128 (some recvCb) 0 false idSystem =
      (sysInfoAlloc sys.mem fuel m idSystem 2188 .hp).map fun r =>
        if r.1 = 0 then { ret := espErrNoMem, mem := r.2 }
        else
          { finishQueue (serviceArea r.1) (some recvCb) 0 false r.2 with
              grants := [(.hp, ⟨idSystem, 2188, r.1⟩)] } := by
  have hlen : getPowerLen sys.clzZero 16 = 16 := rfl
  have hitem : getAlignedSize 128 = 128 := by decide
  have hne : ¬ ((16 : U16) = 0 ∨ (128 : U16) = 0) := by decide
  rw [queueMainInit, hlen, hitem]
  dsimp only
  rw [if_neg hne, Bool.and_false, if_neg Bool.false_ne_true, allocOr_map]
  rfl

theorem serviceArea_apart (vq : U32) : Apart (serviceArea vq).conf 12 (serviceArea vq).desc
    (8 * (serviceArea vq).len.toNat) := by
  have h := apart_of_offsets (a := vq) (show 0 + 12 ≤ 12 by decide)
    (show 12 + 8 * (16#16).toNat ≤ 2 ^ 32 by decide)
  rwa [BitVec.add_zero] at h

theorem systemServiceInit_eq {r : U32} {m : Memory 32}
    (ha : sysInfoAlloc sys.mem fuel c.pools.mem idSystem 2188 .hp = some (r, m)) :
    systemServiceInit sys ans fuel c =
      if r = 0 then none
      else if (addHandler ⟨sysSvcIntrId, some .recvCb, 0⟩ c.handlers).1 ≠ 0 then none
      else if !ans.supplicantCreated then none
      else
        some (0, { c with
          pools := ⟨initBuffer (serviceArea r) m,
            record c.pools.grants .hp ⟨idSystem, 2188, r⟩⟩
          handlers := (addHandler ⟨sysSvcIntrId, some .recvCb, 0⟩ c.handlers).2
          serviceQueue := some (serviceRing r).remoteHandle
          serviceReady := true }) := by
  have hno : ¬ espOk ≠ 0 := by decide
  have hyes : espErrNoMem ≠ 0 := by decide
  have hfull : espErrNotFinished ≠ 0 := by decide
  have hqueues := finishQueue_queues (serviceArea r) (serviceArea_apart r) (some recvCb) 0 false m
    fun _ => ⟨0, 0, 0⟩
  rw [systemServiceInit, queueMainInit_service, ha, Option.map_some, Option.bind_some]
  by_cases hr : r = 0
  · rw [if_pos hr, if_pos hr]
    exact if_pos hyes
  · rw [if_neg hr, if_neg hr]
    dsimp only
    rw [hqueues]
    change (if espOk ≠ 0 then none else
      if (if (addHandler ⟨sysSvcIntrId, some .recvCb, 0⟩ c.handlers).1 ≠ 0 then espErrNotFinished
        else espOk) ≠ 0 then none else _) = _
    rw [if_neg hno]
    by_cases hadd : (addHandler ⟨sysSvcIntrId, some .recvCb, 0⟩ c.handlers).1 = 0
    · rw [if_neg (not_not.mpr hadd), if_neg hno, if_neg (not_not.mpr hadd)]
      rfl
    · rw [if_pos hadd, if_pos hadd]
      exact if_pos hfull

/-- The service queue. -/
theorem systemServiceInit_succeeds (h : Progress sys (pmRequests sys) free entries c)
    (hsup : sys.supplicant = true) (hf : 0 < fuel) :
    Succeeds (systemServiceInit sys ans fuel c)
      (2225 ≤ sys.mem.hpSharedMemSize ∧ 1 ≤ free ∧ ans.supplicantCreated = true)
      (Progress sys (systemRequests sys) (free - 1) ((sysSvcIntrId, .recvCb) :: entries)) := by
  obtain ⟨r, m, ha, hiff⟩ := alloc_spec idSystem h
    (rfl : sys.mem.pool .hp = some sys.mem.hpPool) (by simp [pmRequests]) hf 2188
  have hroom : sys.mem.hpPool.start + 8 + used (pmRequests sys .hp) + 8 + rounded 2188 ≤
      sys.mem.hpPool.stop ↔ 2225 ≤ sys.mem.hpSharedMemSize := by
    have hrounded : rounded 2188 = 2188 := by decide
    have hbytes := hp_room sys.mem 2204
    rw [alignUp, alignDown] at hbytes
    rw [hrounded]
    change sys.mem.hpPool.start + 8 + 0 + 8 + 2188 ≤ _ ↔ _
    omega
  rw [hroom] at hiff
  obtain ⟨hzero, hfree⟩ := @addHandler_spec ⟨sysSvcIntrId, some .recvCb, 0⟩ c.handlers rfl
  rw [h.free] at hzero hfree
  rw [systemServiceInit_eq ha]
  constructor
  · rintro ⟨hfits, hslot, hcreated⟩
    have hr := hiff.mpr hfits
    obtain ⟨hnew, hold⟩ := mem_addHandler (hzero.mpr hslot)
    obtain ⟨hsound, hkeep⟩ := h.sound.alloc ha
    have hmem : (⟨idSystem, 2188, r⟩ : Grant) ∈
        record c.pools.grants .hp ⟨idSystem, 2188, r⟩ .hp := by
      rw [record_same hr]
      exact List.mem_append_right _ (List.mem_singleton_self _)
    have hinit := initBuffer_spec (serviceArea r) m (serviceArea_apart r)
    obtain ⟨hsound', hkeep'⟩ := hsound.change hmem (m := initBuffer (serviceArea r) m)
      fun x hx => (hinit fun _ => ⟨0, 0, 0⟩).2.2 x
        (fun hw => hx (hw.mono (show 12 ≤ (2188#16).toNat by decide)))
        (fun hw => hx (within_of_offset
          (show 12 + 8 * (16#16).toNat ≤ (2188#16).toNat by decide) hw))
    refine ⟨{ c with
      pools := ⟨initBuffer (serviceArea r) m, record c.pools.grants .hp ⟨idSystem, 2188, r⟩⟩
      handlers := (addHandler ⟨sysSvcIntrId, some .recvCb, 0⟩ c.handlers).2
      serviceQueue := some (serviceRing r).remoteHandle
      serviceReady := true }, ?_, ⟨hsound', fun d => ?_, hfree, fun e he => ?_, fun hin => ?_,
        fun _ => ⟨r, hmem, ⟨fun table => (hinit table).1, fun table => (hinit table).2.1⟩, rfl⟩⟩⟩
    · rw [if_neg hr, if_neg (not_not.mpr (hzero.mpr hslot)), hcreated]
      rfl
    · rw [requests_grow hr h.requests]
      cases d with
      | hp => rw [grow, if_pos rfl, systemRequests, if_pos hsup, pmRequests, List.nil_append]
      | rtc => rfl
    · rcases List.mem_cons.mp he with rfl | he
      · exact hnew
      · exact hold _ (h.entries e he) rfl
    · exact ((h.lock hin).keep hkeep trivial).keep hkeep' fun heq =>
        rtc_ne_hp (congrArg Prod.fst heq)
  · intro hno c' hc
    split_ifs at hc with hr hadd hcreated
    exact hno ⟨hiff.mp hr, hzero.mp (not_not.mp hadd), by simpa using hcreated⟩

/-- What `esp_amp_system_init` has registered. -/
def systemEntries (sys : System) : List (Fin 32 × Handler) :=
  (panicIntrId, .subcorePanicHandler) :: if sys.supplicant then [(sysSvcIntrId, .recvCb)] else []

/-- Lock, service queue and panic handler. -/
theorem systemInit_succeeds (h : Progress sys (fun _ => []) free [] c) (hf : 0 < fuel) :
    Succeeds (systemInit sys ans fuel c)
      ((sys.lightSleep = true →
          17 ≤ sys.mem.rtcSharedMemSize ∧ ans.registerSkipLightSleep = espOk) ∧
        (sys.supplicant = true →
          2225 ≤ sys.mem.hpSharedMemSize ∧ 1 ≤ free ∧ ans.supplicantCreated = true) ∧
        1 ≤ free - if sys.supplicant then 1 else 0)
      (Progress sys (systemRequests sys) (free - (if sys.supplicant then 1 else 0) - 1)
        (systemEntries sys)) := by
  have hpm : Succeeds (if sys.lightSleep then systemPmInit sys ans fuel c else some (0, c))
      (sys.lightSleep = true →
        17 ≤ sys.mem.rtcSharedMemSize ∧ ans.registerSkipLightSleep = espOk)
      (Progress sys (pmRequests sys) free []) := by
    refine Succeeds.optional (fun hls => systemPmInit_succeeds h hls hf) fun hls => ?_
    have hreq : pmRequests sys = fun _ => [] := by
      funext d
      cases d <;> simp [pmRequests, hls]
    rw [hreq]
    exact h
  have hservice : ∀ c, Progress sys (pmRequests sys) free [] c →
      Succeeds (if sys.supplicant then systemServiceInit sys ans fuel c else some (0, c))
        (sys.supplicant = true →
          2225 ≤ sys.mem.hpSharedMemSize ∧ 1 ≤ free ∧ ans.supplicantCreated = true)
        (Progress sys (systemRequests sys) (free - if sys.supplicant then 1 else 0)
          (if sys.supplicant then [(sysSvcIntrId, .recvCb)] else [])) := by
    intro c hc
    refine Succeeds.optional (fun hsup => ?_) fun hsup => ?_
    · simp only [hsup, if_true]
      exact systemServiceInit_succeeds hc hsup hf
    · have hreq : systemRequests sys = pmRequests sys := by
        funext d
        cases d <;> simp [systemRequests, pmRequests, hsup]
      simp only [hsup, Bool.false_eq_true, if_false, hreq]
      exact hc
  refine hpm.orExit fun c hc => (hservice c hc).orExit fun c hc => ?_
  obtain ⟨hyes, hno⟩ := swIntrAddHandler_succeeds hc panicIntrId .subcorePanicHandler
  refine ⟨fun hslot => ?_, hno⟩
  obtain ⟨c', heq, hprogress, -⟩ := hyes hslot
  exact ⟨c', heq, hprogress⟩

/-- A request of an event word. -/
theorem Progress.granted (h : Progress sys req free entries c) {r : U32} {m : Memory 32}
    (ha : sysInfoAlloc sys.mem fuel c.pools.mem id 4 .hp = some (r, m)) (hr : r ≠ 0) :
    Progress sys (grow req .hp (id, 4)) free entries
      { c with pools := ⟨m, record c.pools.grants .hp ⟨id, 4, r⟩⟩ } := by
  obtain ⟨hsound, hkeep⟩ := h.sound.alloc ha
  refine ⟨hsound, fun d => requests_grow hr h.requests d, h.free, h.entries, fun hin => ?_,
    fun hin => ?_⟩
  · exact (h.lock hin).keep hkeep trivial
  · have hin' : (idSystem, (2188 : U16)) ∈ req .hp := by
      rcases List.mem_append.mp hin with hin | hin
      · exact hin
      · have heq := (Prod.mk.inj (List.mem_singleton.mp hin)).2
        exact absurd heq (by decide)
    obtain ⟨vq, hvq⟩ := h.service hin'
    exact ⟨vq, hvq.keep hkeep trivial⟩

/-- A change of an event word. -/
theorem Progress.change (h : Progress sys req free entries c) {g : Grant}
    (hg : g ∈ c.pools.grants .hp) (hne : g.id ≠ idSystem) {m : Memory 32}
    (hm : ∀ x, ¬ Within g.buffer g.size.toNat x → m x = c.pools.mem x) :
    Progress sys req free entries (c.store m) ∧
      Keeps (fun cap k => (cap, k) ≠ (Cap.hp, g)) c.pools (c.store m).pools := by
  obtain ⟨hsound, hkeep⟩ := h.sound.change hg hm
  refine ⟨⟨hsound, h.requests, h.free, h.entries, fun hin => ?_, fun hin => ?_⟩, hkeep⟩
  · exact (h.lock hin).keep hkeep fun heq => rtc_ne_hp (congrArg Prod.fst heq)
  · obtain ⟨vq, hvq⟩ := h.service hin
    exact ⟨vq, hvq.keep hkeep fun heq => hne (congrArg (fun k => k.2.id) heq).symm⟩

theorem write32_inside (id : U16) {r v : U32} {m : Memory 32} :
    ∀ x, ¬ Within (⟨id, 4, r⟩ : Grant).buffer (⟨id, 4, r⟩ : Grant).size.toNat x →
      write32 m r v x = m x :=
  fun _ hx => write32_of_not_within hx

theorem eventCreate_eq {r : U32} {m : Memory 32}
    (ha : sysInfoAlloc sys.mem fuel c.pools.mem id 4 .hp = some (r, m)) :
    eventCreate sys fuel c id =
      let c' : MainCore G := { c with pools := ⟨m, record c.pools.grants .hp ⟨id, 4, r⟩⟩ }
      some (if r = 0 then (-1, c') else (0, c'.store (write32 m r 0))) := by
  rw [eventCreate, MainCore.alloc, ha]
  rfl

/-- An event word. -/
theorem eventCreate_succeeds (h : Progress sys req free entries c)
    (hid : id ∉ (req .hp).map Prod.fst) (hne : id ≠ idSystem) (hf : (req .hp).length < fuel) :
    Succeeds (eventCreate sys fuel c id)
      (sys.mem.hpPool.start + 8 + used (req .hp) + 8 + rounded 4 ≤ sys.mem.hpPool.stop)
      (fun c' => Progress sys (grow req .hp (id, 4)) free entries c' ∧
        Keeps (fun _ g => g.id ≠ id) c.pools c'.pools ∧
        ∃ bits, ⟨id, 4, bits⟩ ∈ c'.pools.grants .hp ∧ word32 c'.pools.mem bits = 0) := by
  obtain ⟨r, m, ha, hiff⟩ := alloc_spec id h (rfl : sys.mem.pool .hp = some sys.mem.hpPool) hid hf 4
  rw [eventCreate_eq ha]
  constructor
  · intro hroom
    have hr := hiff.mpr hroom
    obtain ⟨-, hkeep⟩ := h.sound.alloc ha
    have hmem : (⟨id, 4, r⟩ : Grant) ∈ record c.pools.grants .hp ⟨id, 4, r⟩ .hp := by
      rw [record_same hr]
      exact List.mem_append_right _ (List.mem_singleton_self _)
    obtain ⟨hprogress, hkeep'⟩ := (h.granted ha hr).change hmem hne
      (write32_inside id (v := 0))
    refine ⟨_, ?_, hprogress, ?_, r, hmem, word32_write32 (by decide) 0⟩
    · dsimp only
      rw [if_neg hr]
    · exact (hkeep.mono fun _ _ _ => trivial).trans
        (hkeep'.mono fun _ g hg heq => hg (congrArg (fun k => k.2.id) heq))
  · intro hno c' hc
    dsimp only at hc
    split_ifs at hc with hr
    · exact absurd (congrArg Prod.fst (Option.some.inj hc)) (show (-1 : Int) ≠ 0 by decide)
    · exact hno (hiff.mp hr)

/-- The bind of an id whose word is there, into an empty table. -/
theorem bindHandle_eq (hsound : Sound sys.mem c.pools) {bits : U32} {n : ℕ}
    (hg : ⟨id, 4, bits⟩ ∈ c.pools.grants .hp) (hid : id ≠ 0)
    (hf : (c.pools.grants .hp).length < fuel)
    (htable : c.eventTable = List.replicate (n + 1) Entry.empty) (group : G) :
    bindHandle sys fuel c id group =
      some (0, { c with
        pools := ⟨write32 c.pools.mem bits 0, c.pools.grants⟩
        eventTable := ⟨id, some group, bits⟩ :: List.replicate n Entry.empty
        groupBits := c.groupBits ||| word32 c.pools.mem bits }) := by
  have hfree : EventTable.idxFree c.eventTable = 0 := by
    rw [htable, List.replicate_succ, EventTable.idxFree, List.findIdx_cons]
    rfl
  have hdup : EventTable.idxDup c.eventTable id = c.eventTable.length := by
    rw [EventTable.idxDup, List.findIdx_eq_length]
    intro e he
    rw [htable] at he
    rw [List.eq_of_mem_replicate he]
    simpa [Entry.empty] using hid.symm
  have hlength : c.eventTable.length = n + 1 := by rw [htable, List.length_replicate]
  have hresult : EventTable.bindResult c.eventTable id = 0 := by
    rw [EventTable.bindResult, hfree, if_neg (by omega)]
  have hinsert : EventTable.insertEntry c.eventTable id group bits =
      ⟨id, some group, bits⟩ :: List.replicate n Entry.empty := by
    rw [EventTable.insertEntry, EventTable.idxInsert, if_pos hdup, hfree, if_neg (by omega),
      htable, List.replicate_succ, List.set_cons_zero]
  have hget := hsound.sysInfoGet_eq hg hf
  rw [bindHandle, hget, Option.bind_some, EventTable.eventBindHandle]
  dsimp only
  rw [if_pos rfl, hresult, hinsert]
  rfl

/-- The event table and the bits of the default event. -/
theorem Progress.bound (h : Progress sys req free entries c) (table : EventTable.Table G)
    (bits : U32) :
    Progress sys req free entries { c with eventTable := table, groupBits := bits } :=
  ⟨h.sound, h.requests, h.free, h.entries, h.lock, h.service⟩

/-- Both event words are there and clear, and the main core has bound that of the subcore. -/
structure EventsAt (sys : System) (ans : Answers G) (c : MainCore G) : Prop where
  main : ∃ bits, ⟨idEventMain, 4, bits⟩ ∈ c.pools.grants .hp ∧ word32 c.pools.mem bits = 0
  sub : ∃ group bits, ans.defaultEvent = some group ∧
    ⟨idEventSub, 4, bits⟩ ∈ c.pools.grants .hp ∧ word32 c.pools.mem bits = 0 ∧
    c.eventTable = ⟨idEventSub, some group, bits⟩ :: List.replicate sys.eventTableLen Entry.empty
  groupBits : c.groupBits = 0

/-- What `esp_amp_event_init` does with the two words. -/
theorem eventBind_succeeds (h : Progress sys req free entries c)
    (hf : (req .hp).length < fuel)
    (hmain : ∃ bits, ⟨idEventMain, 4, bits⟩ ∈ c.pools.grants .hp ∧ word32 c.pools.mem bits = 0)
    (hsub : ∃ bits, ⟨idEventSub, 4, bits⟩ ∈ c.pools.grants .hp ∧
      word32 c.pools.mem bits = 0) :
    Succeeds (ans.defaultEvent.bind fun group =>
        let c := { c with
          eventTable := List.replicate (sys.eventTableLen + 1) Entry.empty
          groupBits := 0 }
        (bindHandle sys fuel c idEventSub group).bind fun r =>
          orAbort (swIntrAddHandler r.2 eventIntrId .osEnvEventIsr) fun c => some (0, c))
      (ans.defaultEvent.isSome ∧ 1 ≤ free)
      (fun c' => Progress sys req (free - 1) ((eventIntrId, .osEnvEventIsr) :: entries) c' ∧
        EventsAt sys ans c') := by
  cases hdefault : ans.defaultEvent with
  | none =>
      refine ⟨fun hok => absurd hok.1 Bool.false_ne_true, fun _ c' hc => ?_⟩
      cases hc
  | some group =>
      obtain ⟨bits, hg, hzero⟩ := hsub
      obtain ⟨bitsMain, hgMain, hzeroMain⟩ := hmain
      have hlength : (c.pools.grants .hp).length < fuel := by
        have hreq := congrArg List.length (h.requests .hp)
        rw [requests, List.length_map] at hreq
        rwa [hreq]
      have hbind := bindHandle_eq (c := { c with
          eventTable := List.replicate (sys.eventTableLen + 1) Entry.empty
          groupBits := 0 }) h.sound hg (by decide) hlength rfl group
      obtain ⟨hprogress, hkeep⟩ := h.change hg (show idEventSub ≠ idSystem by decide)
        (write32_inside idEventSub (v := 0))
      obtain ⟨hgMain', hbytes⟩ := hkeep _ _ hgMain fun heq =>
        absurd (congrArg (fun k => k.2.id) heq) (show idEventMain ≠ idEventSub by decide)
      have hadd := swIntrAddHandler_succeeds (hprogress.bound
        (⟨idEventSub, some group, bits⟩ :: List.replicate sys.eventTableLen Entry.empty)
        (0 ||| word32 c.pools.mem bits)) eventIntrId .osEnvEventIsr
      rw [Option.bind_some]
      dsimp only
      rw [hbind, Option.bind_some]
      refine (hadd.orAbort fun c' hc' => Succeeds.skip ?_).congr (by simp)
      obtain ⟨hprogress', hs, rfl⟩ := hc'
      refine ⟨hprogress', ⟨bitsMain, hgMain', ?_⟩, ⟨group, bits, hdefault, hg, ?_, rfl⟩, ?_⟩
      · exact (word32_congr hbytes).trans hzeroMain
      · exact word32_write32 (by decide) 0
      · exact (congrArg (0 ||| ·) hzero).trans (by decide)

/-- The requests of the whole initialization. -/
def startRequests (sys : System) : Cap → List (U16 × U16) :=
  grow (grow (systemRequests sys) .hp (idEventMain, 4)) .hp (idEventSub, 4)

theorem systemRequests_hp_length (sys : System) : (systemRequests sys .hp).length ≤ 1 := by
  simp only [systemRequests]
  split_ifs
  · exact le_rfl
  · exact Nat.zero_le 1

/-- Room for both event words behind what lies in the HP pool before them. -/
theorem event_room (sys : System) :
    (sys.mem.hpPool.start + 8 + used (systemRequests sys .hp) + 8 + rounded 4 ≤
        sys.mem.hpPool.stop ∧
      sys.mem.hpPool.start + 8 +
        used (grow (systemRequests sys) .hp (idEventMain, 4) .hp) + 8 + rounded 4 ≤
          sys.mem.hpPool.stop) ↔
      (sys.supplicant = true → 2257 ≤ sys.mem.hpSharedMemSize) := by
  have hword : rounded 4 = 4 := by decide
  have hqueue : rounded 2188 = 2188 := by decide
  have hlow := sys.mem.hp_range.1
  have hbytes := hp_room sys.mem
  simp only [alignUp, alignDown] at hbytes
  cases hsup : sys.supplicant with
  | true =>
      have hmain := hbytes 2216
      have hsub := hbytes 2228
      have hused : used (systemRequests sys .hp) = 8 + rounded 2188 := by
        simp [systemRequests, hsup, used]
      have hused' : used (grow (systemRequests sys) .hp (idEventMain, 4) .hp) =
          8 + rounded 2188 + (8 + rounded 4) := by
        simp [grow, systemRequests, hsup, used]
      rw [hused, hused', hword, hqueue, forall_prop_of_true rfl]
      omega
  | false =>
      have hmain := hbytes 20
      have hsub := hbytes 32
      have hused : used (systemRequests sys .hp) = 0 := by
        simp [systemRequests, hsup, used]
      have hused' : used (grow (systemRequests sys) .hp (idEventMain, 4) .hp) = 8 + rounded 4 := by
        simp [grow, systemRequests, hsup, used]
      rw [hused, hused', hword]
      simp only [Bool.false_eq_true, false_imp_iff, iff_true]
      omega

/-- The default event. -/
theorem eventInit_succeeds (h : Progress sys (systemRequests sys) free entries c)
    (hf : 3 < fuel) :
    Succeeds (eventInit sys ans fuel c)
      ((sys.supplicant = true → 2257 ≤ sys.mem.hpSharedMemSize) ∧
        ans.defaultEvent.isSome ∧ 1 ≤ free)
      (fun c' => Progress sys (startRequests sys) (free - 1)
        ((eventIntrId, .osEnvEventIsr) :: entries) c' ∧ EventsAt sys ans c') := by
  have hlength := systemRequests_hp_length sys
  have hlength' : (grow (systemRequests sys) .hp (idEventMain, 4) .hp).length ≤ 2 := by
    rw [grow, if_pos rfl, List.length_append, List.length_singleton]
    omega
  have hlength'' : (startRequests sys .hp).length ≤ 3 := by
    rw [startRequests, grow, if_pos rfl, List.length_append, List.length_singleton]
    omega
  have hfresh : idEventMain ∉ (systemRequests sys .hp).map Prod.fst ∧
      idEventSub ∉ (grow (systemRequests sys) .hp (idEventMain, 4) .hp).map Prod.fst := by
    simp only [grow, systemRequests]
    split_ifs <;> decide
  refine Succeeds.congr (Succeeds.orAbort
    (eventCreate_succeeds h hfresh.1 (by decide) (by omega)) fun c hc =>
      Succeeds.orAbort (eventCreate_succeeds hc.1 hfresh.2 (by decide) (by omega))
        fun c' hc' => eventBind_succeeds hc'.1 (hlength''.trans_lt hf) ?_ hc'.2.2) ?_
  · obtain ⟨-, -, bits, hg, hzero⟩ := hc
    obtain ⟨hg', hbytes⟩ := hc'.2.1 _ _ hg (show idEventMain ≠ idEventSub by decide)
    exact ⟨bits, hg', (word32_congr hbytes).trans hzero⟩
  · rw [← and_assoc, event_room]

end Parts

section Start
variable {G : Type} {sys : System} {ans : Answers G} {fuel : ℕ} {c : MainCore G}

/-- The handlers of a main core that has started, the last one first. -/
def startEntries (sys : System) : List (Fin 32 × Handler) :=
  (eventIntrId, .osEnvEventIsr) :: systemEntries sys

/-- What `esp_amp_init` asks of its environment, its configuration and the handler table. -/
structure CanStart (sys : System) (ans : Answers G) (c : MainCore G) : Prop where
  intr : ans.intrAlloc = 0
  skip : sys.lightSleep = true → ans.registerSkipLightSleep = espOk
  task : sys.supplicant = true → ans.supplicantCreated = true
  event : ans.defaultEvent.isSome
  slots : (startEntries sys).length ≤ freeSlots c.handlers
  hp : sys.supplicant = true → 2257 ≤ sys.mem.hpSharedMemSize
  rtc : sys.lightSleep = true → 17 ≤ sys.mem.rtcSharedMemSize

/-- A main core that has started. -/
structure Started (sys : System) (ans : Answers G) (c : MainCore G) : Prop where
  sound : Sound sys.mem c.pools
  lock : sys.lightSleep = true → LockAt c c.pools
  service : sys.supplicant = true → ∃ vq, ServiceAt c c.pools vq
  events : EventsAt sys ans c
  handlers : ∀ e ∈ startEntries sys, ⟨e.1, some e.2, 0⟩ ∈ c.handlers

/-- A main core whose pools are empty. -/
theorem sysInfoInit_succeeds : Succeeds (sysInfoInit sys c) True
    (Progress sys (fun _ => []) (freeSlots c.handlers) []) :=
  Succeeds.skip ⟨start_sound sys.mem c.pools.mem, fun _ => rfl, rfl,
    fun _ he => absurd he List.not_mem_nil, fun hin => absurd hin List.not_mem_nil,
    fun hin => absurd hin List.not_mem_nil⟩

theorem swIntrInit_succeeds : Succeeds (swIntrInit sys ans c) (ans.intrAlloc = 0)
    (fun c' => freeSlots c'.handlers = freeSlots c.handlers) := by
  constructor
  · intro hok
    rw [swIntrInit, hok]
    exact ⟨_, rfl, rfl⟩
  · intro hno c' hc
    exact hno (congrArg Prod.fst (Option.some.inj hc))

theorem startEntries_length (sys : System) :
    (startEntries sys).length = (if sys.supplicant then 1 else 0) + 2 := by
  simp only [startEntries, systemEntries, List.length_cons]
  split_ifs <;> rfl

theorem Progress.started {free : ℕ}
    (h : Progress sys (startRequests sys) free (startEntries sys) c)
    (he : EventsAt sys ans c) : Started sys ans c := by
  refine ⟨h.sound, fun hls => h.lock ?_, fun hsup => h.service ?_, he, h.entries⟩
  · simp [startRequests, grow, systemRequests, hls]
  · simp [startRequests, grow, systemRequests, hsup]

/-- What the parts ask for one after the other. -/
theorem canStart_iff (sys : System) (ans : Answers G) (c : MainCore G) :
    (ans.intrAlloc = 0 ∧ True ∧
      ((sys.lightSleep = true →
          17 ≤ sys.mem.rtcSharedMemSize ∧ ans.registerSkipLightSleep = espOk) ∧
        (sys.supplicant = true → 2225 ≤ sys.mem.hpSharedMemSize ∧
          1 ≤ freeSlots c.handlers ∧ ans.supplicantCreated = true) ∧
        1 ≤ freeSlots c.handlers - if sys.supplicant then 1 else 0) ∧
      ((sys.supplicant = true → 2257 ≤ sys.mem.hpSharedMemSize) ∧ ans.defaultEvent.isSome ∧
        1 ≤ (freeSlots c.handlers - if sys.supplicant then 1 else 0) - 1) ∧ True) ↔
      CanStart sys ans c := by
  constructor
  · rintro ⟨hintr, -, ⟨hpm, hservice, hpanic⟩, ⟨hhp, hevent, hslot⟩, -⟩
    refine ⟨hintr, fun hls => (hpm hls).2, fun hsup => (hservice hsup).2.2, hevent, ?_, hhp,
      fun hls => (hpm hls).1⟩
    rw [startEntries_length]
    omega
  · rintro ⟨hintr, hskip, htask, hevent, hslots, hhp, hrtc⟩
    rw [startEntries_length] at hslots
    refine ⟨hintr, trivial, ⟨fun hls => ⟨hrtc hls, hskip hls⟩, fun hsup => ?_, ?_⟩,
      ⟨hhp, hevent, ?_⟩, trivial⟩
    · exact ⟨(by decide : 2225 ≤ 2257).trans (hhp hsup), by omega, htask hsup⟩
    · omega
    · omega

/-- The four parts of `esp_amp_init`. -/
theorem espAmpInit_succeeds (hf : 3 < fuel) :
    Succeeds (espAmpInit sys ans fuel c) (CanStart sys ans c) (Started sys ans) := by
  have hempty : ∀ c' : MainCore G, freeSlots c'.handlers = freeSlots c.handlers →
      Succeeds (sysInfoInit sys c') True
        (Progress sys (fun _ => []) (freeSlots c.handlers) []) := by
    intro c' hc'
    rw [← hc']
    exact sysInfoInit_succeeds
  refine Succeeds.congr (swIntrInit_succeeds.orAbort fun c₁ hc₁ =>
    (hempty c₁ hc₁).orAbort fun c₂ hc₂ =>
      (systemInit_succeeds hc₂ (Nat.zero_lt_of_lt hf)).orAbort fun c₃ hc₃ =>
        (eventInit_succeeds hc₃ hf).orAbort fun c₄ hc₄ =>
          Succeeds.skip (hc₄.1.started hc₄.2)) (canStart_iff sys ans c)

theorem orAbort_some {r : Result G} {k : MainCore G → Result G} {v : Int × MainCore G}
    (h : orAbort r k = some v) : ∃ c, k c = some v := by
  rcases r with _ | ⟨ret, c⟩
  · cases h
  · simp only [orAbort, Option.bind_some] at h
    split_ifs at h
    exact ⟨c, h⟩

/-- All failures of `esp_amp_init` end in an assertion. -/
theorem espAmpInit_zero {r : Int} {c' : MainCore G}
    (h : espAmpInit sys ans fuel c = some (r, c')) : r = 0 := by
  obtain ⟨c₁, h⟩ := orAbort_some h
  obtain ⟨c₂, h⟩ := orAbort_some h
  obtain ⟨c₃, h⟩ := orAbort_some h
  obtain ⟨c₄, h⟩ := orAbort_some h
  exact (congrArg Prod.fst (Option.some.inj h)).symm

theorem espAmpInit_started (hf : 3 < fuel) {r : Int} {c' : MainCore G}
    (h : espAmpInit sys ans fuel c = some (r, c')) :
    r = 0 ∧ CanStart sys ans c ∧ Started sys ans c' := by
  obtain rfl := espAmpInit_zero h
  obtain ⟨hyes, hno⟩ := @espAmpInit_succeeds G sys ans fuel c hf
  have hok : CanStart sys ans c := by_contra fun hnot => hno hnot c' h
  obtain ⟨c'', h', hstarted⟩ := hyes hok
  obtain rfl := (Prod.mk.inj (Option.some.inj (h'.symm.trans h))).2
  exact ⟨rfl, hok, hstarted⟩

/-- `esp_amp_init` returns exactly when nothing outside of the component fails, the handlers
find free slots and the pools are large enough. Then the lock, the service queue and the
event words are where the subcore looks for them, and the handlers are registered. -/
theorem main_core_starts_iff (sys : System) (ans : Answers G) (c : MainCore G) {fuel : ℕ}
    (hf : 3 < fuel) :
    ((∃ r, espAmpInit sys ans fuel c = some r) ↔ CanStart sys ans c) ∧
      ∀ r c', espAmpInit sys ans fuel c = some (r, c') → r = 0 ∧ Started sys ans c' := by
  refine ⟨⟨fun hreturns => ?_, fun hok => ?_⟩, fun r c' h => ?_⟩
  · obtain ⟨r, h⟩ := hreturns
    exact (espAmpInit_started hf h).2.1
  · obtain ⟨c', h, -⟩ := (espAmpInit_succeeds hf).yes hok
    exact ⟨_, h⟩
  · obtain ⟨hr, -, hstarted⟩ := espAmpInit_started hf h
    exact ⟨hr, hstarted⟩

/-- The defaults of an ESP32-C6 with light sleep and a supplicant. -/
def c6Both : System where
  mem := c6Defaults
  lightSleep := true
  clzZero := 32
  sleep_lp := fun _ => rfl
  supplicant := true
  eventTableLen := 8

theorem firstIntrId_lt : 0 < 32 := by decide

/-- A main core after reset, with three free slots. -/
def c6Reset : MainCore ℕ where
  pools := ⟨fun _ => 0, fun _ => []⟩
  handlers := List.replicate 3 ⟨⟨0, firstIntrId_lt⟩, none, 0⟩
  lpAccessHpCnt := 0
  serviceQueue := none
  serviceReady := false
  eventTable := []
  groupBits := 0

/-- Good answers, with an event group. -/
def c6Answers : Answers ℕ := ⟨0, espOk, true, some 7⟩

theorem c6_can_start : CanStart c6Both c6Answers c6Reset where
  intr := rfl
  skip := fun _ => rfl
  task := fun _ => rfl
  event := rfl
  slots := by decide
  hp := fun _ => by decide
  rtc := fun _ => by decide

theorem c6_main_core_starts : ∃ c', espAmpInit c6Both c6Answers 4 c6Reset = some (0, c') ∧
    Started c6Both c6Answers c' := by
  obtain ⟨hiff, hstarted⟩ := main_core_starts_iff c6Both c6Answers c6Reset (show 3 < 4 by decide)
  obtain ⟨⟨r, c'⟩, h⟩ := hiff.mpr c6_can_start
  obtain ⟨rfl, hc'⟩ := hstarted r c' h
  exact ⟨c', h, hc'⟩

end Start
end EspAmp.SystemStart
