import EspAmp.MainCoreStart
import EspAmp.ServiceBuffers

/-!
# The start of the subcore

`esp_amp_init` on a subcore without an operating system, from the point where its interrupt
is installed. It looks up the light-sleep lock, makes its side of the service queue and looks
up the event words; an assertion fails if one of them is missing. The main core has started
before and goes on meanwhile: it allocates, writes into its grants other than the lock and
the service queue, and changes memory outside of the pools. The subcore holds the lock while
it reads the queue's config struct. The interrupt it requests then is not followed.

No assertion fails, and the two sides of the service queue belong together. What
`ServiceQueue` proves of a service thus holds from the start of the two cores on.
-/
namespace EspAmp.SystemStart
open ByteMemory ReplyMachine SysInfo QueueMemory Virtqueue
open RpmsgAttach (Fresh)
open ServiceQueue (Service write_byte_self)

/-- What the subcore does next. -/
inductive Stage where
  | pm
  | service
  | enter
  | create
  | exit
  | eventMain
  | eventSub
  | done
deriving DecidableEq, Repr

/-- The variables of the subcore. -/
structure Subcore where
  stage : Stage
  lpAccessHpCnt : U32
  vqBuffer : U32
  serviceQueue : Option Queue
  serviceReady : Bool

def Subcore.reset : Subcore := ⟨.pm, 0, 0, none, false⟩

/-- Both cores. The main core is what it does to the pools. -/
structure Cores where
  pools : SysInfo.State
  sub : Subcore

inductive Event where
  | main (l : SysInfo.Label)
  | elsewhere
  | sub

def Event.isSub : Event → Bool
  | .sub => true
  | _ => false

section Model
variable (sys : System) (fuel : ℕ) (m : Memory 32)

/-- A lookup that has to find something. -/
def getOrAbort (id : U16) (cap : Cap) (k : U32 → Subcore) : Option (Memory 32 × Subcore) :=
  (sysInfoGet sys.mem fuel m id cap).bind fun info => info.map fun i => (m, k i.1)

/-- The next part of `esp_amp_init`; `none` stands for a failed assertion. -/
def subStep (b : Subcore) : Option (Memory 32 × Subcore) :=
  match b.stage with
  | .pm =>
      if sys.lightSleep then
        getOrAbort sys fuel m idPm .rtc fun a => { b with stage := .service, lpAccessHpCnt := a }
      else some (m, { b with stage := .service })
  | .service =>
      if sys.supplicant then
        getOrAbort sys fuel m idSystem .hp fun a => { b with stage := .enter, vqBuffer := a }
      else some (m, { b with stage := .eventMain })
  | .enter =>
      let cnt := b.lpAccessHpCnt
      some (if sys.lightSleep then write m cnt [m cnt + 1] else m, { b with stage := .create })
  | .create =>
      some (m, { b with
        stage := .exit
        serviceQueue := some (queueCreate (confAt m b.vqBuffer) (some notifyCb) 0 true) })
  | .exit =>
      let cnt := b.lpAccessHpCnt
      let b := { b with stage := .eventMain, serviceReady := true }
      if sys.lightSleep then if m cnt = 0 then none else some (write m cnt [m cnt - 1], b)
      else some (m, b)
  | .eventMain => getOrAbort sys fuel m idEventMain .hp fun _ => { b with stage := .eventSub }
  | .eventSub => getOrAbort sys fuel m idEventSub .hp fun _ => { b with stage := .done }
  | .done => none

/-- The main core writes neither the lock nor, before it has received a request, the service
queue. -/
def Spares : SysInfo.Label → Prop
  | .alloc .. => True
  | .store cap g _ _ => (cap, g.id) ≠ (Cap.rtc, idPm) ∧ (cap, g.id) ≠ (Cap.hp, idSystem)

/-- Steps of the two cores in any order. -/
inductive CoreStep : Cores → Event → Cores → Prop
  | main {s : Cores} {l : SysInfo.Label} {p : SysInfo.State} :
      SysInfo.Step sys.mem s.pools l p → Spares l → CoreStep s (.main l) ⟨p, s.sub⟩
  | elsewhere {s : Cores} {m : Memory 32} :
      (∀ cap p, sys.mem.pool cap = some p → ∀ x : U32, p.start ≤ x.toNat → x.toNat < p.stop →
        m x = s.pools.mem x) →
      CoreStep s .elsewhere ⟨⟨m, s.pools.grants⟩, s.sub⟩
  | sub {s : Cores} {fuel : ℕ} {m : Memory 32} {b : Subcore} :
      (∀ cap, (s.pools.grants cap).length < fuel) →
      subStep sys fuel s.pools.mem s.sub = some (m, b) →
      CoreStep s .sub ⟨⟨m, s.pools.grants⟩, b⟩

end Model

section Pools
variable {sys : System} {lp vq : U32} {p q : SysInfo.State} {P : Cap → Grant → Prop}

/-- What the main core has left in the pools for the subcore. -/
structure Ready (sys : System) (lp vq : U32) (p : SysInfo.State) : Prop where
  sound : Sound sys.mem p
  lock : sys.lightSleep = true → ⟨idPm, 4, lp⟩ ∈ p.grants .rtc
  service : sys.supplicant = true →
    ⟨idSystem, 2188, vq⟩ ∈ p.grants .hp ∧ Fresh (serviceArea vq) p.mem
  eventMain : ∃ a, ⟨idEventMain, 4, a⟩ ∈ p.grants .hp
  eventSub : ∃ a, ⟨idEventSub, 4, a⟩ ∈ p.grants .hp

theorem Ready.keep (h : Ready sys lp vq p) (hsound : Sound sys.mem q)
    (hgrants : ∀ cap, p.grants cap ⊆ q.grants cap) (hk : Keeps P p q)
    (hP : P .hp ⟨idSystem, 2188, vq⟩) : Ready sys lp vq q := by
  refine ⟨hsound, fun hls => hgrants _ (h.lock hls), fun hsup => ?_, ?_, ?_⟩
  · obtain ⟨hg, hfresh⟩ := h.service hsup
    obtain ⟨hg', hbytes⟩ := hk _ _ hg hP
    exact ⟨hg', fresh_keep hfresh hbytes⟩
  · obtain ⟨a, ha⟩ := h.eventMain
    exact ⟨a, hgrants _ ha⟩
  · obtain ⟨a, ha⟩ := h.eventSub
    exact ⟨a, hgrants _ ha⟩

/-- The two grants that the main core leaves alone. -/
def Reserved (cap : Cap) (g : Grant) : Prop :=
  (cap, g.id) = (Cap.rtc, idPm) ∨ (cap, g.id) = (Cap.hp, idSystem)

theorem main_keeps {cfg : MemConfig} {l : SysInfo.Label} (h : Sound cfg p)
    (hs : SysInfo.Step cfg p l q) (hl : Spares l) :
    Sound cfg q ∧ (∀ cap, p.grants cap ⊆ q.grants cap) ∧ Keeps Reserved p q := by
  cases hs with
  | alloc ha =>
      obtain ⟨hsound, hk⟩ := h.alloc ha
      exact ⟨hsound, fun cap g hg => (hk cap g hg trivial).1, hk.mono fun _ _ _ => trivial⟩
  | @store cap g off bs hg hoff =>
      obtain ⟨hsound, hk⟩ := h.change hg
        (m := write p.mem (g.buffer + BitVec.ofNat 32 off) bs)
        fun x hx => write_of_not_within fun hw => hx (within_of_offset hoff hw)
      refine ⟨hsound, fun _ _ hg => hg, hk.mono fun d k hres heq => ?_⟩
      obtain ⟨rfl, rfl⟩ := Prod.mk.inj heq
      exact hres.elim hl.1 hl.2

/-- The lock's own byte changes. -/
theorem Ready.lockByte (h : Ready sys lp vq p) (hls : sys.lightSleep = true) (v : U8) :
    Ready sys lp vq ⟨write p.mem lp [v], p.grants⟩ := by
  obtain ⟨hsound, hk⟩ := h.sound.change (h.lock hls) (m := write p.mem lp [v])
    fun x hx => write_of_not_within fun hw => hx (hw.mono (show 1 ≤ (4#16).toNat by decide))
  exact h.keep hsound (fun _ => List.Subset.refl _) hk
    fun heq => rtc_ne_hp (congrArg Prod.fst heq).symm

end Pools

/-- The subcore is inside of its lock. -/
def Stage.locked : Stage → Bool
  | .create | .exit => true
  | _ => false

/-- The subcore is about to make its side of the service queue. -/
def Stage.serving : Stage → Bool
  | .enter | .create | .exit => true
  | _ => false

/-- The subcore has made its side of the service queue, if it makes one. -/
def Stage.made : Stage → Bool
  | .exit | .eventMain | .eventSub | .done => true
  | _ => false

/-- The service is ready, if there is one. -/
def Stage.served : Stage → Bool
  | .eventMain | .eventSub | .done => true
  | _ => false

def Stage.left : Stage → ℕ
  | .pm => 7
  | .service => 6
  | .enter => 5
  | .create => 4
  | .exit => 3
  | .eventMain => 2
  | .eventSub => 1
  | .done => 0

/-- Where the two cores stand while the subcore starts. -/
structure Attaching (sys : System) (lp vq : U32) (s : Cores) : Prop where
  ready : Ready sys lp vq s.pools
  count : sys.lightSleep = true → s.pools.mem lp = if s.sub.stage.locked then 1 else 0
  found : sys.lightSleep = true → s.sub.stage ≠ .pm → s.sub.lpAccessHpCnt = lp
  buffer : s.sub.stage.serving = true → sys.supplicant = true ∧ s.sub.vqBuffer = vq
  queue : sys.supplicant = true → s.sub.stage.made = true →
    s.sub.serviceQueue = some (serviceRing vq).masterHandle
  served : sys.supplicant = true → s.sub.stage.served = true → s.sub.serviceReady = true

section Starting
variable {sys : System} {lp vq : U32} {s t : Cores} {fuel : ℕ}

theorem getOrAbort_eq {p : SysInfo.State} (h : Sound sys.mem p) {cap : Cap} {id size : U16}
    {a : U32} (hg : ⟨id, size, a⟩ ∈ p.grants cap) (hf : (p.grants cap).length < fuel)
    (k : U32 → Subcore) :
    getOrAbort sys fuel p.mem id cap k = some (p.mem, k a) := by
  rw [getOrAbort, h.sysInfoGet_eq hg hf]
  rfl

theorem serviceRing_over (vq : U32) : RpmsgAttach.Over (serviceRing vq) (serviceArea vq) :=
  RpmsgAttach.areaSetup_over service_k_le (some notifyCb) (some recvCb) 0 0 rfl

/-- The fresh config struct gives the handle of the sending side. -/
theorem Ready.queueCreate_eq {p : SysInfo.State} (h : Ready sys lp vq p)
    (hsup : sys.supplicant = true) :
    queueCreate (confAt p.mem vq) (some notifyCb) 0 true = (serviceRing vq).masterHandle := by
  have hconf := ((h.service hsup).2.setup (serviceRing_over vq)).1
  rw [VirtqueueFifo.Setup.masterHandle, hconf]
  rfl

/-- No assertion fails in the next part, and it leads on. -/
def Leads (sys : System) (fuel : ℕ) (lp vq : U32) (s : Cores) : Prop :=
  ∃ m b, subStep sys fuel s.pools.mem s.sub = some (m, b) ∧
    Attaching sys lp vq ⟨⟨m, s.pools.grants⟩, b⟩ ∧ b.stage.left < s.sub.stage.left

section Parts
variable {p : SysInfo.State} {cnt vqb : U32} {q : Option Queue} {sr : Bool}

theorem no_flag : ¬ false = true := Bool.false_ne_true

/-- The lock is looked up. -/
theorem Attaching.leads_pm (h : Attaching sys lp vq ⟨p, .pm, cnt, vqb, q, sr⟩)
    (hf : ∀ cap, (p.grants cap).length < fuel) :
    Leads sys fuel lp vq ⟨p, .pm, cnt, vqb, q, sr⟩ := by
  by_cases hls : sys.lightSleep = true
  · refine ⟨p.mem, ⟨.service, lp, vqb, q, sr⟩, ?_, ⟨h.ready, h.count, fun _ _ => rfl,
      fun hs => absurd hs no_flag, fun _ hs => absurd hs no_flag,
      fun _ hs => absurd hs no_flag⟩, (by decide : 6 < 7)⟩
    rw [subStep]
    dsimp only
    rw [if_pos hls, getOrAbort_eq h.ready.sound (h.ready.lock hls) (hf .rtc)]
  · refine ⟨p.mem, ⟨.service, cnt, vqb, q, sr⟩, ?_, ⟨h.ready, h.count, fun hs => absurd hs hls,
      fun hs => absurd hs no_flag, fun _ hs => absurd hs no_flag,
      fun _ hs => absurd hs no_flag⟩, (by decide : 6 < 7)⟩
    rw [subStep]
    dsimp only
    rw [if_neg hls]

/-- The service queue is looked up. -/
theorem Attaching.leads_service (h : Attaching sys lp vq ⟨p, .service, cnt, vqb, q, sr⟩)
    (hf : ∀ cap, (p.grants cap).length < fuel) :
    Leads sys fuel lp vq ⟨p, .service, cnt, vqb, q, sr⟩ := by
  have hpm : Stage.service ≠ .pm := by decide
  by_cases hsup : sys.supplicant = true
  · refine ⟨p.mem, ⟨.enter, cnt, vq, q, sr⟩, ?_, ⟨h.ready, h.count,
      fun hls _ => h.found hls hpm, fun _ => ⟨hsup, rfl⟩, fun _ hs => absurd hs no_flag,
      fun _ hs => absurd hs no_flag⟩, (by decide : 5 < 6)⟩
    rw [subStep]
    dsimp only
    rw [if_pos hsup, getOrAbort_eq h.ready.sound (h.ready.service hsup).1 (hf .hp)]
  · refine ⟨p.mem, ⟨.eventMain, cnt, vqb, q, sr⟩, ?_, ⟨h.ready, h.count,
      fun hls _ => h.found hls hpm, fun hs => absurd hs no_flag, fun hs => absurd hs hsup,
      fun hs => absurd hs hsup⟩, (by decide : 2 < 6)⟩
    rw [subStep]
    dsimp only
    rw [if_neg hsup]

/-- The lock is taken. -/
theorem Attaching.leads_enter (h : Attaching sys lp vq ⟨p, .enter, cnt, vqb, q, sr⟩) :
    Leads sys fuel lp vq ⟨p, .enter, cnt, vqb, q, sr⟩ := by
  have hbuffer := h.buffer rfl
  by_cases hls : sys.lightSleep = true
  · obtain rfl : cnt = lp := h.found hls (show Stage.enter ≠ .pm by decide)
    refine ⟨write p.mem cnt [p.mem cnt + 1], ⟨.create, cnt, vqb, q, sr⟩, ?_,
      ⟨h.ready.lockByte hls _, fun _ => ?_, fun _ _ => rfl, fun _ => hbuffer,
        fun _ hs => absurd hs no_flag, fun _ hs => absurd hs no_flag⟩, (by decide : 4 < 5)⟩
    · rw [subStep]
      dsimp only
      rw [if_pos hls]
    · have hzero : p.mem cnt = 0 := h.count hls
      change write p.mem cnt [p.mem cnt + 1] cnt = 1
      rw [write_byte_self, hzero]
      rfl
  · refine ⟨p.mem, ⟨.create, cnt, vqb, q, sr⟩, ?_, ⟨h.ready, fun hs => absurd hs hls,
      fun hs => absurd hs hls, fun _ => hbuffer, fun _ hs => absurd hs no_flag,
      fun _ hs => absurd hs no_flag⟩, (by decide : 4 < 5)⟩
    rw [subStep]
    dsimp only
    rw [if_neg hls]

/-- The handle is made. -/
theorem Attaching.leads_create (h : Attaching sys lp vq ⟨p, .create, cnt, vqb, q, sr⟩) :
    Leads sys fuel lp vq ⟨p, .create, cnt, vqb, q, sr⟩ := by
  obtain ⟨hsup, hvq⟩ := h.buffer rfl
  obtain rfl : vqb = vq := hvq
  refine ⟨p.mem, ⟨.exit, cnt, vqb, some (serviceRing vqb).masterHandle, sr⟩, ?_,
    ⟨h.ready, h.count, fun hls _ => h.found hls (show Stage.create ≠ .pm by decide),
      fun _ => ⟨hsup, rfl⟩, fun _ _ => rfl, fun _ hs => absurd hs no_flag⟩, (by decide : 3 < 4)⟩
  rw [subStep]
  dsimp only
  rw [h.ready.queueCreate_eq hsup]

/-- The lock is released. -/
theorem Attaching.leads_exit (h : Attaching sys lp vq ⟨p, .exit, cnt, vqb, q, sr⟩) :
    Leads sys fuel lp vq ⟨p, .exit, cnt, vqb, q, sr⟩ := by
  by_cases hls : sys.lightSleep = true
  · obtain rfl : cnt = lp := h.found hls (show Stage.exit ≠ .pm by decide)
    have hone : p.mem cnt = 1 := h.count hls
    refine ⟨write p.mem cnt [p.mem cnt - 1], ⟨.eventMain, cnt, vqb, q, true⟩, ?_,
      ⟨h.ready.lockByte hls _, fun _ => ?_, fun _ _ => rfl, fun hs => absurd hs no_flag,
        fun hsup _ => h.queue hsup rfl, fun _ _ => rfl⟩, (by decide : 2 < 3)⟩
    · rw [subStep]
      dsimp only
      rw [if_pos hls, if_neg (by rw [hone]; decide)]
    · change write p.mem cnt [p.mem cnt - 1] cnt = 0
      rw [write_byte_self, hone]
      rfl
  · refine ⟨p.mem, ⟨.eventMain, cnt, vqb, q, true⟩, ?_, ⟨h.ready, fun hs => absurd hs hls,
      fun hs => absurd hs hls, fun hs => absurd hs no_flag, fun hsup _ => h.queue hsup rfl,
      fun _ _ => rfl⟩, (by decide : 2 < 3)⟩
    rw [subStep]
    dsimp only
    rw [if_neg hls]

/-- The main core's event word is looked up. -/
theorem Attaching.leads_eventMain (h : Attaching sys lp vq ⟨p, .eventMain, cnt, vqb, q, sr⟩)
    (hf : ∀ cap, (p.grants cap).length < fuel) :
    Leads sys fuel lp vq ⟨p, .eventMain, cnt, vqb, q, sr⟩ := by
  obtain ⟨a, ha⟩ := h.ready.eventMain
  refine ⟨p.mem, ⟨.eventSub, cnt, vqb, q, sr⟩, ?_, ⟨h.ready, h.count,
    fun hls _ => h.found hls (show Stage.eventMain ≠ .pm by decide), fun hs => absurd hs no_flag,
    fun hsup _ => h.queue hsup rfl, fun hsup _ => h.served hsup rfl⟩, (by decide : 1 < 2)⟩
  rw [subStep]
  dsimp only
  rw [getOrAbort_eq h.ready.sound ha (hf .hp)]

/-- The subcore's event word is looked up. -/
theorem Attaching.leads_eventSub (h : Attaching sys lp vq ⟨p, .eventSub, cnt, vqb, q, sr⟩)
    (hf : ∀ cap, (p.grants cap).length < fuel) :
    Leads sys fuel lp vq ⟨p, .eventSub, cnt, vqb, q, sr⟩ := by
  obtain ⟨a, ha⟩ := h.ready.eventSub
  refine ⟨p.mem, ⟨.done, cnt, vqb, q, sr⟩, ?_, ⟨h.ready, h.count,
    fun hls _ => h.found hls (show Stage.eventSub ≠ .pm by decide), fun hs => absurd hs no_flag,
    fun hsup _ => h.queue hsup rfl, fun hsup _ => h.served hsup rfl⟩, (by decide : 0 < 1)⟩
  rw [subStep]
  dsimp only
  rw [getOrAbort_eq h.ready.sound ha (hf .hp)]

end Parts

theorem Attaching.leads (h : Attaching sys lp vq s)
    (hf : ∀ cap, (s.pools.grants cap).length < fuel) (hdone : s.sub.stage ≠ .done) :
    Leads sys fuel lp vq s := by
  obtain ⟨p, stage, cnt, vqb, q, sr⟩ := s
  cases stage with
  | pm => exact h.leads_pm hf
  | service => exact h.leads_service hf
  | enter => exact h.leads_enter
  | create => exact h.leads_create
  | exit => exact h.leads_exit
  | eventMain => exact h.leads_eventMain hf
  | eventSub => exact h.leads_eventSub hf
  | done => exact absurd rfl hdone

/-- Memory changes and new grants that leave the lock and the service queue alone. -/
theorem Attaching.keep (h : Attaching sys lp vq s) {q : SysInfo.State} {P : Cap → Grant → Prop}
    (hsound : Sound sys.mem q) (hgrants : ∀ cap, s.pools.grants cap ⊆ q.grants cap)
    (hk : Keeps P s.pools q) (hlock : P .rtc ⟨idPm, 4, lp⟩)
    (hservice : P .hp ⟨idSystem, 2188, vq⟩) : Attaching sys lp vq ⟨q, s.sub⟩ := by
  refine ⟨h.ready.keep hsound hgrants hk hservice, fun hls => ?_, h.found, h.buffer, h.queue,
    h.served⟩
  rw [lock_keep (h.ready.lock hls) hk hlock]
  exact h.count hls

theorem step_attaching {e : Event} (hs : CoreStep sys s e t) (h : Attaching sys lp vq s) :
    Attaching sys lp vq t ∧
      t.sub.stage.left + (if e.isSub then 1 else 0) ≤ s.sub.stage.left := by
  cases hs with
  | main hs hl =>
      obtain ⟨hsound, hgrants, hk⟩ := main_keeps h.ready.sound hs hl
      exact ⟨h.keep hsound hgrants hk (Or.inl rfl) (Or.inr rfl), le_rfl⟩
  | elsewhere hm =>
      obtain ⟨hsound, hk⟩ := h.ready.sound.elsewhere hm
      exact ⟨h.keep hsound (fun _ => List.Subset.refl _) hk trivial trivial, le_rfl⟩
  | sub hf hsub =>
      have hdone : s.sub.stage ≠ .done := by
        intro hdone
        rw [subStep, hdone] at hsub
        cases hsub
      obtain ⟨m, b, heq, hnext, hleft⟩ := h.leads hf hdone
      obtain ⟨rfl, rfl⟩ := Prod.mk.inj (Option.some.inj (heq.symm.trans hsub))
      exact ⟨hnext, hleft⟩

theorem run_attaching {es : List Event} (hrun : Run (CoreStep sys) s es t)
    (h : Attaching sys lp vq s) :
    Attaching sys lp vq t ∧ t.sub.stage.left + es.countP Event.isSub ≤ s.sub.stage.left := by
  induction hrun with
  | done s => exact ⟨h, le_rfl⟩
  | @next s t v e es hs _ ih =>
      obtain ⟨ht, hle⟩ := step_attaching hs h
      obtain ⟨hv, hle'⟩ := ih ht
      refine ⟨hv, ?_⟩
      rw [List.countP_cons]
      omega

/-- The subcore can end on its own. -/
theorem Attaching.finish (h : Attaching sys lp vq s) :
    ∃ es t, Run (CoreStep sys) s es t ∧ t.sub.stage = .done := by
  induction hn : s.sub.stage.left using Nat.strongRecOn generalizing s with
  | ind n ih =>
      by_cases hdone : s.sub.stage = .done
      · exact ⟨[], s, .done s, hdone⟩
      · have hf : ∀ cap, (s.pools.grants cap).length <
            (s.pools.grants .hp).length + (s.pools.grants .rtc).length + 1 := by
          intro cap
          cases cap <;> omega
        obtain ⟨m, b, heq, hnext, hleft⟩ := h.leads hf hdone
        obtain ⟨es, t, hrun, ht⟩ := ih _ (hn ▸ hleft) hnext rfl
        exact ⟨.sub :: es, t, .next (.sub hf heq) hrun, ht⟩

end Starting

section Together
variable {G : Type} {sys : System} {ans : Answers G} {c : MainCore G} {s : Cores}

/-- The service queue of the component is one of `ServiceQueue`. -/
theorem serviceRing_placed {p : SysInfo.State} {vq : U32} (h : Sound sys.mem p)
    (hg : ⟨idSystem, 2188, vq⟩ ∈ p.grants .hp) : RpmsgChannel.Placed (serviceRing vq) := by
  obtain ⟨pool, hpool, hinv⟩ := h.pool hg
  have hb := hinv.chain.bounds hinv.top_lt hg
  have htop := hinv.top_lt
  have hsize : rounded 2188 = 2188 := by decide
  have hlt : vq.toNat + 2188 < 2 ^ 32 := by
    rw [hsize] at hb
    exact hb.2.trans_lt htop
  have hbuffer : (serviceRing vq).buffer.toNat = vq.toNat + 140 := by
    change (vq + 12#32 + 128#32).toNat = _
    rw [BitVec.toNat_add, BitVec.toNat_add]
    change ((vq.toNat + 12) % 2 ^ 32 + 128) % 2 ^ 32 = _
    omega
  refine ⟨?_, show (128 : U16) ≠ 0 by decide, ?_, ?_⟩
  · intro f hf
    cases hf
    rfl
  · omega
  · rw [hbuffer]
    change vq.toNat + 140 + 2 ^ 4 * 128 < 2 ^ 32
    omega

/-- The service of an image pair. -/
def serviceOf (vq : U32) (h : RpmsgChannel.Placed (serviceRing vq)) : Service :=
  ⟨serviceRing vq, h, rfl, rfl⟩

/-- Both cores share the lock, which is not taken, and the two sides of one fresh service. -/
structure Attached (sys : System) (c : MainCore G) (s : Cores) : Prop where
  lock : sys.lightSleep = true →
    s.sub.lpAccessHpCnt = c.lpAccessHpCnt ∧ s.pools.mem c.lpAccessHpCnt = 0
  service : sys.supplicant = true → ∃ service : Service,
    c.serviceQueue = some service.ring.remoteHandle ∧
    s.sub.serviceQueue = some service.ring.masterHandle ∧ s.sub.serviceReady = true ∧
    ∀ i < service.ring.n, descAt s.pools.mem service.ring.descPtr i = service.ring.start.desc i

theorem Started.attaching (h : Started sys ans c) : ∃ vq,
    Attaching sys c.lpAccessHpCnt vq ⟨c.pools, .reset⟩ ∧
      (sys.supplicant = true → c.serviceQueue = some (serviceRing vq).remoteHandle) := by
  have hno : ¬ false = true := Bool.false_ne_true
  have hservice : ∃ vq, sys.supplicant = true → ServiceAt c c.pools vq := by
    by_cases hsup : sys.supplicant = true
    · obtain ⟨vq, hvq⟩ := h.service hsup
      exact ⟨vq, fun _ => hvq⟩
    · exact ⟨0, fun hs => absurd hs hsup⟩
  obtain ⟨vq, hvq⟩ := hservice
  obtain ⟨bits, hbits, -⟩ := h.events.main
  obtain ⟨-, bits', -, hbits', -⟩ := h.events.sub
  refine ⟨vq, ⟨⟨h.sound, fun hls => (h.lock hls).1, fun hsup => ⟨(hvq hsup).1, (hvq hsup).2.1⟩,
    ⟨bits, hbits⟩, ⟨bits', hbits'⟩⟩, fun hls => (h.lock hls).2, fun _ hpm => absurd rfl hpm,
    fun hs => absurd hs hno, fun _ hs => absurd hs hno, fun _ hs => absurd hs hno⟩,
    fun hsup => (hvq hsup).2.2⟩

end Together
end EspAmp.SystemStart
