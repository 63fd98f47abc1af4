import EspAmp.EventTable
import EspAmp.QueueInitFailure
import EspAmp.RpmsgAttach
import EspAmp.SoftwareInterrupt
import EspAmp.SysInfoFrame

/-!
# The start of the main core

`esp_amp_init` on the main core: software interrupts, the SysInfo pools, the light-sleep
lock, the service queue with its supplicant, the panic handler and the default event. Each
part can fail, and all failures end in an assertion; `none` stands for it, and for a list
walk that ran out of fuel. What ESP-IDF and FreeRTOS answer is arbitrary.

The initialization succeeds exactly when these answers are good, the table of software
interrupts has enough free slots, and the two pools are large enough for what the component
itself puts into them. For the pools this is a bound on their configured sizes.
-/
namespace EspAmp.SystemStart
open ByteMemory SysInfo QueueMemory Virtqueue
open SoftwareInterrupt (Slot addHandler)
open EventTable (Entry eventBindHandle)
open RpmsgAttach (Fresh)

/-- Build options of the two images. Automatic light sleep depends on an LP core. -/
structure System extends QueueMemory.Build where
  sleep_lp : lightSleep = true → mem.target.lpCore = true
  supplicant : Bool
  eventTableLen : ℕ

/-- The functions the component registers for software interrupts, and others. -/
inductive Handler where
  | recvCb
  | subcorePanicHandler
  | osEnvEventIsr
  | app (f : U32)
deriving DecidableEq, Repr

/-- What the calls into ESP-IDF and FreeRTOS return. -/
structure Answers (G : Type) where
  intrAlloc : Int
  registerSkipLightSleep : Int
  supplicantCreated : Bool
  defaultEvent : Option G

/-- The variables of the main core. The pools hold the whole memory and, as ghosts, the
grants made since they were initialized. -/
structure MainCore (G : Type) where
  pools : SysInfo.State
  handlers : List (Slot Handler U32)
  lpAccessHpCnt : U32
  serviceQueue : Option Queue
  serviceReady : Bool
  eventTable : EventTable.Table G
  groupBits : U32

/-- `esp_amp_sys_info_id_t`. -/
def idEventMain : U16 := 0xff01
def idEventSub : U16 := 0xff02
def idSystem : U16 := 0xff04
def idPm : U16 := 0xff05

theorem sysSvcIntrId_lt : 27 < 32 := by decide
theorem panicIntrId_lt : 28 < 32 := by decide
theorem eventIntrId_lt : 30 < 32 := by decide

/-- `SW_INTR_RESERVED_ID_SYS_SVC`. -/
def sysSvcIntrId : Fin 32 := ⟨27, sysSvcIntrId_lt⟩
/-- `SW_INTR_RESERVED_ID_PANIC`. -/
def panicIntrId : Fin 32 := ⟨28, panicIntrId_lt⟩
/-- `SW_INTR_RESERVED_ID_EVENT`. -/
def eventIntrId : Fin 32 := ⟨30, eventIntrId_lt⟩

/-- `recv_cb` as a value of a handle: it always returns zero. -/
def recvCb : QueueCb := fun _ => 0

/-- `esp_amp_queue_intr_enable`; the handle's callback is the named handler. -/
def queueIntrEnable (q : Queue) (intrId : Fin 32) (callback : Handler)
    (handlers : List (Slot Handler U32)) : Int × List (Slot Handler U32) :=
  if q.master then (espErrNotSupported, handlers)
  else
    let r := addHandler ⟨intrId, some callback, q.privData⟩ handlers
    (if r.1 ≠ 0 then espErrNotFinished else espOk, r.2)

section Calls
variable {G : Type}

abbrev Result (G : Type) := Option (Int × MainCore G)

/-- A call whose failure ends its caller with the same result. -/
def orExit (r : Result G) (k : MainCore G → Result G) : Result G :=
  r.bind fun r => if r.1 ≠ 0 then some r else k r.2

/-- A call whose result is asserted to be zero. -/
def orAbort (r : Result G) (k : MainCore G → Result G) : Result G :=
  r.bind fun r => if r.1 ≠ 0 then none else k r.2

variable (sys : System) (ans : Answers G) (fuel : ℕ) (c : MainCore G)

def MainCore.store (m : Memory 32) : MainCore G := { c with pools := ⟨m, c.pools.grants⟩ }

def MainCore.alloc (id size : U16) (cap : Cap) : Option (U32 × MainCore G) :=
  (sysInfoAlloc sys.mem fuel c.pools.mem id size cap).map fun r =>
    (r.1, { c with pools := ⟨r.2, record c.pools.grants cap ⟨id, size, r.1⟩⟩ })

/-- `esp_amp_sw_intr_init`: the words of both cores are cleared. -/
def swIntrInit : Result G :=
  let word := addr sys.mem.hpSharedMemStart
  some (ans.intrAlloc, c.store (write32 (write32 c.pools.mem word 0) (word + 4#32) 0))

/-- `esp_amp_sys_info_init`. -/
def sysInfoInit : Result G := some (0, { c with pools := .start sys.mem c.pools.mem })

/-- `esp_amp_system_pm_init`. -/
def systemPmInit : Result G :=
  (c.alloc sys fuel idPm 4 .rtc).map fun r =>
    let c := { r.2 with lpAccessHpCnt := r.1 }
    if r.1 = 0 then (-1, c)
    else
      let c := c.store (write c.pools.mem r.1 [0])
      if ans.registerSkipLightSleep ≠ espOk then (-1, c) else (0, c)

/-- `esp_amp_system_service_init`. -/
def systemServiceInit : Result G :=
  (queueMainInit sys.toBuild fuel c.pools.mem 16 128 (some recvCb) 0 false idSystem).bind fun r =>
    if r.ret ≠ 0 then none
    else
      r.queues.head?.bind fun q =>
        let e := queueIntrEnable q sysSvcIntrId .recvCb c.handlers
        if e.1 ≠ 0 then none
        else if !ans.supplicantCreated then none
        else
          some (0, { c with
            pools := ⟨r.mem, r.grants.foldl (fun gs g => record gs g.1 g.2) c.pools.grants⟩
            handlers := e.2
            serviceQueue := some q
            serviceReady := true })

/-- `esp_amp_sw_intr_add_handler`, whose result is also that of
`esp_amp_system_panic_init`. -/
def swIntrAddHandler (intrId : Fin 32) (handler : Handler) : Result G :=
  let r := addHandler ⟨intrId, some handler, 0⟩ c.handlers
  some (r.1, { c with handlers := r.2 })

/-- `esp_amp_system_panic_init`. -/
def systemPanicInit : Result G := swIntrAddHandler c panicIntrId .subcorePanicHandler

/-- `esp_amp_system_init`. -/
def systemInit : Result G :=
  orExit (if sys.lightSleep then systemPmInit sys ans fuel c else some (0, c)) fun c =>
    orExit (if sys.supplicant then systemServiceInit sys ans fuel c else some (0, c)) fun c =>
      systemPanicInit c

/-- `esp_amp_event_create`. -/
def eventCreate (id : U16) : Result G :=
  (c.alloc sys fuel id 4 .hp).map fun r =>
    if r.1 = 0 then (-1, r.2) else (0, r.2.store (write32 r.2.pools.mem r.1 0))

/-- `esp_amp_event_bind_handle`. Its exchange loop runs before any other core knows the
word, so that it takes what it has loaded. -/
def bindHandle (id : U16) (group : G) : Result G :=
  (sysInfoGet sys.mem fuel c.pools.mem id .hp).bind fun info =>
    (eventBindHandle info id (some group) c.eventTable).map fun r =>
      let c := { c with eventTable := r.2 }
      if r.1 ≠ 0 then (r.1, c)
      else
        let bits := info.elim 0 Prod.fst
        (0, { c.store (write32 c.pools.mem bits 0) with
                groupBits := c.groupBits ||| word32 c.pools.mem bits })

/-- `esp_amp_event_init`; the result of the bind is not looked at. -/
def eventInit : Result G :=
  orAbort (eventCreate sys fuel c idEventMain) fun c =>
    orAbort (eventCreate sys fuel c idEventSub) fun c =>
      ans.defaultEvent.bind fun group =>
        let c := { c with
          eventTable := List.replicate (sys.eventTableLen + 1) Entry.empty
          groupBits := 0 }
        (bindHandle sys fuel c idEventSub group).bind fun r =>
          orAbort (swIntrAddHandler r.2 eventIntrId .osEnvEventIsr) fun c => some (0, c)

/-- `esp_amp_init`. -/
def espAmpInit : Result G :=
  orAbort (swIntrInit sys ans c) fun c =>
    orAbort (sysInfoInit sys c) fun c =>
      orAbort (systemInit sys ans fuel c) fun c =>
        orAbort (eventInit sys ans fuel c) fun c => some (0, c)

end Calls

section Success
variable {G : Type} {r : Result G} {k : MainCore G → Result G} {ok ok' : Prop}
  {post post' : MainCore G → Prop} {c : MainCore G}

/-- The call returns zero exactly when `ok` holds, and then in a state with `post`. -/
structure Succeeds (r : Result G) (ok : Prop) (post : MainCore G → Prop) : Prop where
  yes : ok → ∃ c, r = some (0, c) ∧ post c
  no : ¬ ok → ∀ c, r ≠ some (0, c)

theorem Succeeds.skip (h : post c) : Succeeds (some (0, c)) True post :=
  ⟨fun _ => ⟨c, rfl, h⟩, fun hno => absurd trivial hno⟩

theorem Succeeds.congr (h : Succeeds r ok post) (hok : ok ↔ ok') : Succeeds r ok' post :=
  ⟨fun h' => h.yes (hok.mpr h'), fun h' => h.no fun h => h' (hok.mp h)⟩

/-- An optional part. -/
theorem Succeeds.optional {b : Bool} (hon : b = true → Succeeds r ok post)
    (hoff : b = false → post c) : Succeeds (if b then r else some (0, c)) (b = true → ok) post := by
  cases b with
  | true => exact (hon rfl).congr (by simp)
  | false => exact (Succeeds.skip (hoff rfl)).congr (by simp)

/-- Two calls in a row, whatever becomes of a failure of the first one. -/
theorem Succeeds.next {q : Result G} (h : Succeeds r ok post)
    (hk : ∀ c, post c → Succeeds (k c) ok' post') (hzero : ∀ c, r = some (0, c) → q = k c)
    (hfail : (∀ c, r ≠ some (0, c)) → ∀ c, q ≠ some (0, c)) :
    Succeeds q (ok ∧ ok') post' := by
  constructor
  · rintro ⟨hok, hok'⟩
    obtain ⟨c, hr, hpost⟩ := h.yes hok
    rw [hzero c hr]
    exact (hk c hpost).yes hok'
  · intro hno
    by_cases hok : ok
    · obtain ⟨c, hr, hpost⟩ := h.yes hok
      rw [hzero c hr]
      exact (hk c hpost).no fun hok' => hno ⟨hok, hok'⟩
    · exact hfail (h.no hok)

theorem Succeeds.orExit (h : Succeeds r ok post)
    (hk : ∀ c, post c → Succeeds (k c) ok' post') : Succeeds (orExit r k) (ok ∧ ok') post' := by
  refine h.next hk ?_ ?_
  · rintro c rfl
    rfl
  · rintro hr c
    rcases r with _ | ⟨ret, c'⟩
    · exact fun h => nomatch h
    · have hret : ret ≠ 0 := fun h => hr c' (h ▸ rfl)
      simp [SystemStart.orExit, hret]

theorem Succeeds.orAbort (h : Succeeds r ok post)
    (hk : ∀ c, post c → Succeeds (k c) ok' post') : Succeeds (orAbort r k) (ok ∧ ok') post' := by
  refine h.next hk ?_ ?_
  · rintro c rfl
    rfl
  · rintro hr c
    rcases r with _ | ⟨ret, c'⟩
    · exact fun h => nomatch h
    · have hret : ret ≠ 0 := fun h => hr c' (h ▸ rfl)
      simp [SystemStart.orAbort, hret]

end Success

section Handlers
variable {new slot : Slot Handler U32} {handlers : List (Slot Handler U32)}

/-- Slots of the table that take a handler. -/
def freeSlots (handlers : List (Slot Handler U32)) : ℕ := handlers.countP (·.handler.isNone)

/-- A registration needs a free slot and takes it. -/
theorem addHandler_spec (hnew : new.handler.isSome) :
    ((addHandler new handlers).1 = 0 ↔ 1 ≤ freeSlots handlers) ∧
      freeSlots (addHandler new handlers).2 = freeSlots handlers - 1 := by
  induction handlers with
  | nil => simp [addHandler, freeSlots]
  | cons slot handlers ih =>
      cases hslot : slot.handler with
      | none => simp [addHandler, freeSlots, hslot, Option.isNone_eq_false_iff.mpr hnew]
      | some f =>
          simp only [freeSlots] at ih
          simp [addHandler, freeSlots, hslot, ih]

/-- The new entry is in the table, and those with a handler stay there. -/
theorem mem_addHandler (h : (addHandler new handlers).1 = 0) :
    new ∈ (addHandler new handlers).2 ∧
      ∀ slot ∈ handlers, slot.handler.isSome → slot ∈ (addHandler new handlers).2 := by
  induction handlers with
  | nil => exact absurd h (show (-1 : Int) ≠ 0 by decide)
  | cons slot handlers ih =>
      cases hslot : slot.handler with
      | none =>
          simp only [addHandler, hslot]
          refine ⟨List.mem_cons_self .., fun s hs hsome => ?_⟩
          rcases List.mem_cons.mp hs with rfl | hs
          · rw [hslot] at hsome
            cases hsome
          · exact List.mem_cons_of_mem _ hs
      | some f =>
          simp only [addHandler, hslot] at h ⊢
          obtain ⟨hmem, hkept⟩ := ih h
          refine ⟨List.mem_cons_of_mem _ hmem, fun s hs hsome => ?_⟩
          rcases List.mem_cons.mp hs with rfl | hs
          · exact List.mem_cons_self ..
          · exact List.mem_cons_of_mem _ (hkept s hs hsome)

end Handlers
end EspAmp.SystemStart
