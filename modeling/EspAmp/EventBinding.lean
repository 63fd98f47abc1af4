import EspAmp.AtomicWord
import EspAmp.EventTable
import EspAmp.SysInfoInvariant

/-!
# Binding events while they are being notified

Any number of bind and notify calls run at the same time as the interrupt handler
and as unbinds. One step is one access of shared state with the local code up to
the next access: the critical section of a bind, its load, each of its
compare-exchange attempts, the OR of a notification, its trigger, the critical
section of an unbind, and one whole run of the handler, which is atomic. The step
of a successful exchange therefore includes the set-bits call that follows it.
Every set-bits call is kept in a log, every notified mask with the length the log
had, and every pair of an id and a handle that was ever inserted. SysInfo is the
one that holds every id in use.
-/
namespace EspAmp.EventBinding
open AtomicWord ReplyMachine ByteMemory SysInfo EventTable

variable {H : Type}

/-- One call of `xEventGroupSetBits` or `xEventGroupSetBitsFromISR`. -/
structure Delivery (H : Type) where
  id : U16
  handle : H
  bits : U32
deriving DecidableEq, Repr

/-- One mask put into the word of an id, when so many deliveries had been made. -/
structure Note where
  id : U16
  mask : U32
  since : ℕ
deriving DecidableEq, Repr

/-- A call between two accesses. A bind also knows whether its id has been bound
ever since its insertion. -/
inductive Local (H : Type) where
  | trigger (id : U16)
  | load (id : U16) (handle : H) (bits : U32) (kept : Bool)
  | exchange (id : U16) (handle : H) (bits : U32) (kept : Bool) (unprocessed : U32)
deriving DecidableEq, Repr

def Local.unbound (id : U16) : Local H → Local H
  | .load id' h bits kept => .load id' h bits (kept && id' != id)
  | .exchange id' h bits kept u => .exchange id' h bits (kept && id' != id) u
  | .trigger id' => .trigger id'

/-- A bind of an id is `settled` once it has returned, until the id is unbound. -/
structure State (H : Type) where
  table : Table H
  words : U32 → U32
  pending : Bool
  calls : ℕ → Option (Local H)
  settled : U16 → Bool
  bound : List (U16 × H)
  log : List (Delivery H)
  notes : List Note

/-- The event words may hold anything before the first bind. -/
def State.start (n : ℕ) (words : U32 → U32) : State H where
  table := List.replicate n Entry.empty
  words := words
  pending := false
  calls := fun _ => none
  settled := fun _ => false
  bound := []
  log := []
  notes := []

/-- One turn of the loop of `os_env_event_isr`. -/
def isrEntry (choices : U32 → List Bool) (e : Entry H) (words : U32 → U32)
    (log : List (Delivery H)) : Option ((U32 → U32) × List (Delivery H)) :=
  match e.eventHandle with
  | none => some (words, log)
  | some h =>
      (exchangeLoop (words e.eventBits) 0 (choices e.eventBits) 0).map fun r =>
        (Function.update words e.eventBits r.2, log ++ [⟨e.sysinfoId, h, r.1⟩])

def osEnvEventIsr (choices : U32 → List Bool) : Table H → (U32 → U32) → List (Delivery H) →
    Option ((U32 → U32) × List (Delivery H))
  | [], words, log => some (words, log)
  | e :: t, words, log =>
      match isrEntry choices e words log with
      | none => none
      | some r => osEnvEventIsr choices t r.1 r.2

inductive Label (H : Type) where
  | bind (c : ℕ) (id : U16) (handle : H)
  | bindFailed (id : U16)
  | load (c : ℕ)
  | exchange (c : ℕ)
  | unbind (id : U16)
  | notify (c : ℕ) (id : U16) (mask : U32)
  | trigger (c : ℕ)
  | isr
deriving DecidableEq, Repr

section Steps
variable (cfg : MemConfig) (fuel : ℕ) (mem : Memory 32)

/-- What `esp_amp_sys_info_get` answers for an id. -/
def eventInfo (id : U16) : Option (U32 × U16) := (sysInfoGet cfg fuel mem id .hp).join

inductive Step : State H → Label H → State H → Prop
  | bind {s : State H} {c : ℕ} {id : U16} {h : H} {bits : U32} {t : Table H} :
      s.calls c = none → id ≠ 0 → eventInfo cfg fuel mem id = some (bits, 4) →
      eventBindHandle (eventInfo cfg fuel mem id) id (some h) s.table = some (0, t) →
      Step s (.bind c id h)
        { s with table := t, bound := (id, h) :: s.bound,
                 calls := Function.update s.calls c (some (.load id h bits true)) }
  | bindFailed {s : State H} {id : U16} {handle : Option H} {t : Table H} : id ≠ 0 →
      eventBindHandle (eventInfo cfg fuel mem id) id handle s.table = some (-1, t) →
      Step s (.bindFailed id) { s with table := t }
  | load {s : State H} {c : ℕ} {id : U16} {h : H} {bits : U32} {kept : Bool} :
      s.calls c = some (.load id h bits kept) →
      Step s (.load c) { s with calls := Function.update s.calls c
                                  (some (.exchange id h bits kept (s.words bits))) }
  | exchangeFails {s : State H} {c : ℕ} {id : U16} {h : H} {bits u : U32} {kept : Bool}
      (spurious : Bool) : s.calls c = some (.exchange id h bits kept u) →
      (compareExchangeWeak spurious (s.words bits) u 0).success = false →
      Step s (.exchange c)
        { s with words := Function.update s.words bits
                   (compareExchangeWeak spurious (s.words bits) u 0).word,
                 calls := Function.update s.calls c (some (.exchange id h bits kept
                   (compareExchangeWeak spurious (s.words bits) u 0).expected)) }
  | exchange {s : State H} {c : ℕ} {id : U16} {h : H} {bits u : U32} {kept : Bool}
      (spurious : Bool) : s.calls c = some (.exchange id h bits kept u) →
      (compareExchangeWeak spurious (s.words bits) u 0).success = true →
      Step s (.exchange c)
        { s with words := Function.update s.words bits
                   (compareExchangeWeak spurious (s.words bits) u 0).word,
                 calls := Function.update s.calls c none,
                 settled := Function.update s.settled id (kept || s.settled id),
                 log := s.log ++
                   [⟨id, h, (compareExchangeWeak spurious (s.words bits) u 0).expected⟩] }
  | unbind {s : State H} {id : U16} : id ≠ 0 →
      Step s (.unbind id)
        { s with table := eventUnbindHandle id s.table,
                 calls := fun c => (s.calls c).map (Local.unbound id),
                 settled := Function.update s.settled id false }
  | notify {s : State H} {c : ℕ} {id : U16} {mask bits : U32} :
      s.calls c = none → id ≠ 0 → eventInfo cfg fuel mem id = some (bits, 4) →
      Step s (.notify c id mask)
        { s with words := Function.update s.words bits (fetchOr (s.words bits) mask).2,
                 calls := Function.update s.calls c (some (.trigger id)),
                 notes := ⟨id, mask, s.log.length⟩ :: s.notes }
  | trigger {s : State H} {c : ℕ} {id : U16} : s.calls c = some (.trigger id) →
      Step s (.trigger c) { s with pending := true, calls := Function.update s.calls c none }
  | isr {s : State H} {words : U32 → U32} {log : List (Delivery H)}
      (choices : U32 → List Bool) : s.pending = true →
      osEnvEventIsr choices s.table s.words s.log = some (words, log) →
      Step s .isr { s with pending := false, words := words, log := log }

end Steps

theorem findEntry_id {m : Memory 32} {id : U16} {fuel : ℕ} {e e' : U32}
    (h : findEntry m id fuel e = some (some e')) : infoIdAt m e' = id := by
  induction fuel generalizing e with
  | zero => cases h
  | succ fuel ih =>
      rw [findEntry] at h
      split_ifs at h with h0 hid
      · cases h
      · cases h
        exact hid
      · exact ih h

/-- Two ids never share their word. -/
theorem eventInfo_injective {cfg : MemConfig} {fuel : ℕ} {mem : Memory 32} {a b : U16}
    {bits : U32} {m n : U16} (ha : eventInfo cfg fuel mem a = some (bits, m))
    (hb : eventInfo cfg fuel mem b = some (bits, n)) : a = b := by
  have key {id k : U16} (h : eventInfo cfg fuel mem id = some (bits, k)) :
      infoIdAt mem (bits - 8#32) = id := by
    rw [eventInfo, Option.join_eq_some_iff, sysInfoGet, MemConfig.pool, Option.map_eq_some_iff] at h
    obtain ⟨o, hfind, ho⟩ := h
    obtain ⟨e, rfl, he⟩ := Option.map_eq_some_iff.mp ho
    have hbits : e + 8#32 = bits := congrArg Prod.fst he
    rw [← hbits, BitVec.add_sub_cancel]
    exact findEntry_id hfind
  rw [← key ha, ← key hb]

section Handler
variable {choices : U32 → List Bool} {words words' : U32 → U32} {log log' : List (Delivery H)}

theorem isrEntry_cases {e : Entry H} (h : isrEntry choices e words log = some (words', log')) :
    (e.eventHandle = none ∧ words' = words ∧ log' = log) ∨
      ∃ g, e.eventHandle = some g ∧ words' = Function.update words e.eventBits 0 ∧
        log' = log ++ [⟨e.sysinfoId, g, words e.eventBits⟩] := by
  rw [isrEntry] at h
  cases hh : e.eventHandle with
  | none =>
      rw [hh] at h
      cases h
      exact Or.inl ⟨rfl, rfl, rfl⟩
  | some g =>
      rw [hh] at h
      obtain ⟨r, hr, heq⟩ := Option.map_eq_some_iff.mp h
      rw [exchangeLoop_eq hr] at heq
      cases heq
      exact Or.inr ⟨g, rfl, rfl, rfl⟩

/-- What a run of the handler over a table does: it delivers to entries of the table only,
it empties the word of every entry with a handle, and a word it changed went whole into a
delivery of its entry. -/
structure Handled (t : Table H) (words words' : U32 → U32) (new : List (Delivery H)) : Prop where
  named : ∀ d ∈ new, ∃ e ∈ t, e.sysinfoId = d.id ∧ e.eventHandle = some d.handle
  cleared : ∀ e ∈ t, e.eventHandle ≠ none → words' e.eventBits = 0
  changed : ∀ a, words' a = words a ∨ words' a = 0 ∧ ∃ e ∈ t, e.eventBits = a ∧
    ∃ g, e.eventHandle = some g ∧ ⟨e.sysinfoId, g, words a⟩ ∈ new

theorem Handled.nil : Handled ([] : Table H) words words [] where
  named := by simp
  cleared := by simp
  changed _ := Or.inl rfl

theorem Handled.skip {t : Table H} {new : List (Delivery H)} {e : Entry H}
    (h : Handled t words words' new) (he : e.eventHandle = none) :
    Handled (e :: t) words words' new where
  named d hd := by
    obtain ⟨e', he', hd'⟩ := h.named d hd
    exact ⟨e', List.mem_cons_of_mem _ he', hd'⟩
  cleared e' he' hh := by
    rcases List.mem_cons.mp he' with rfl | he'
    · exact absurd he hh
    · exact h.cleared e' he' hh
  changed a := by
    refine (h.changed a).imp_right fun hz => ⟨hz.1, ?_⟩
    obtain ⟨-, e', he', hd'⟩ := hz
    exact ⟨e', List.mem_cons_of_mem _ he', hd'⟩

/-- The entry at the head is delivered what its word holds. -/
theorem Handled.visit {t : Table H} {new : List (Delivery H)} {e : Entry H} {g : H}
    (h : Handled t (Function.update words e.eventBits 0) words' new)
    (he : e.eventHandle = some g) :
    Handled (e :: t) words words' (⟨e.sysinfoId, g, words e.eventBits⟩ :: new) := by
  have hhead : words' e.eventBits = 0 := by
    rcases h.changed e.eventBits with hw | hw
    · rw [hw, Function.update_self]
    · exact hw.1
  constructor
  case named =>
    intro d hd
    rcases List.mem_cons.mp hd with rfl | hd
    · exact ⟨e, List.mem_cons_self .., rfl, he⟩
    · obtain ⟨e', he', hd'⟩ := h.named d hd
      exact ⟨e', List.mem_cons_of_mem _ he', hd'⟩
  case cleared =>
    intro e' he' hh
    rcases List.mem_cons.mp he' with rfl | he'
    · exact hhead
    · exact h.cleared e' he' hh
  case changed =>
    intro a
    by_cases ha : a = e.eventBits
    · subst ha
      exact Or.inr ⟨hhead, e, List.mem_cons_self .., rfl, g, he, List.mem_cons_self ..⟩
    · have hw := h.changed a
      rw [Function.update_of_ne ha] at hw
      refine hw.imp_right fun hz => ⟨hz.1, ?_⟩
      obtain ⟨-, e', he', ha', g', hg', hd'⟩ := hz
      exact ⟨e', List.mem_cons_of_mem _ he', ha', g', hg', List.mem_cons_of_mem _ hd'⟩

theorem osEnvEventIsr_spec {t : Table H}
    (h : osEnvEventIsr choices t words log = some (words', log')) :
    ∃ new, log' = log ++ new ∧ Handled t words words' new := by
  induction t generalizing words log with
  | nil =>
      cases h
      exact ⟨[], (List.append_nil _).symm, .nil⟩
  | cons e t ih =>
      rw [osEnvEventIsr] at h
      cases he : isrEntry choices e words log with
      | none => simp [he] at h
      | some r =>
          obtain ⟨w₁, log₁⟩ := r
          replace h : osEnvEventIsr choices t w₁ log₁ = some (words', log') := by
            rw [he] at h
            exact h
          obtain ⟨new, rfl, hnew⟩ := ih h
          rcases isrEntry_cases he with ⟨hg, rfl, rfl⟩ | ⟨g, hg, rfl, rfl⟩
          · exact ⟨new, rfl, hnew.skip hg⟩
          · exact ⟨_, List.append_assoc .., hnew.visit hg⟩

end Handler

/-- An entry of the table holds a handle for the id. -/
def Bound (t : Table H) (id : U16) : Prop := ∃ e ∈ t, e.sysinfoId = id ∧ e.eventHandle ≠ none

/-- A bind leaves its id bound and every bound id bound. -/
theorem insertEntry_bound {t : Table H} {id : U16} {h : H} {bits : U32}
    (hres : bindResult t id = 0) :
    Bound (insertEntry t id h bits) id ∧
      (∀ id', Bound t id' → Bound (insertEntry t id h bits) id') ∧
      ∀ e ∈ insertEntry t id h bits, e = ⟨id, some h, bits⟩ ∨ e ∈ t := by
  rcases insertEntry_cases t id h bits with ⟨-, hneg, -⟩ | ⟨l, x, r, heq, ht, -, -, hx⟩
  · rw [hres] at hneg
    exact absurd hneg (by decide)
  · rw [ht, heq]
    refine ⟨⟨⟨id, some h, bits⟩, by simp, rfl, by simp⟩, ?_, ?_⟩
    · rintro id' ⟨e, he, hid, hh⟩
      rcases List.mem_append.mp he with he | he
      · exact ⟨e, by simp [he], hid, hh⟩
      rcases List.mem_cons.mp he with rfl | he
      · refine ⟨⟨id, some h, bits⟩, by simp, ?_, by simp⟩
        rcases hx with hx | ⟨hx, -⟩
        · exact hx.symm.trans hid
        · exact absurd hx hh
      · exact ⟨e, by simp [he], hid, hh⟩
    · intro e he
      simp only [List.mem_append, List.mem_cons] at he ⊢
      tauto

theorem unbind_bound {t : Table H} {id : U16} :
    (∀ id', id' ≠ id → Bound t id' → Bound (eventUnbindHandle id t) id') ∧
      ∀ e ∈ eventUnbindHandle id t, e = Entry.empty ∨ e ∈ t := by
  rcases unbind_cases t id with ⟨ht, -⟩ | ⟨l, x, r, heq, ht, hx, -⟩
  · rw [ht]
    exact ⟨fun _ _ h => h, fun _ he => Or.inr he⟩
  · rw [ht, heq]
    constructor
    · rintro id' hne ⟨e, he, hid, hh⟩
      refine ⟨e, ?_, hid, hh⟩
      have hex : e ≠ x := by
        rintro rfl
        exact hne (hid.symm.trans hx)
      simp only [List.mem_append, List.mem_cons, hex, false_or] at he ⊢
      exact he.imp_right Or.inr
    · intro e he
      simp only [List.mem_append, List.mem_cons] at he ⊢
      tauto

/-- The id, handle, word and bound flag of a bind in progress. -/
def Local.binding : Local H → Option (U16 × H × U32 × Bool)
  | .trigger _ => none
  | .load id h bits kept => some (id, h, bits, kept)
  | .exchange id h bits kept _ => some (id, h, bits, kept)

theorem unbound_binding {l : Local H} {id id' : U16} {h : H} {bits : U32} {kept : Bool}
    (hl : (l.unbound id').binding = some (id, h, bits, kept)) :
    ∃ k, l.binding = some (id, h, bits, k) ∧ (kept = true → k = true ∧ id ≠ id') := by
  cases l with
  | trigger _ => cases hl
  | load i g b k =>
      cases hl
      exact ⟨k, rfl, by simp⟩
  | exchange i g b k u =>
      cases hl
      exact ⟨k, rfl, by simp⟩

section Invariant
variable {cfg : MemConfig} {fuel : ℕ} {mem : Memory 32} {s t : State H}

/-- What a bind in progress relies on. -/
def Sound (cfg : MemConfig) (fuel : ℕ) (mem : Memory 32) (table : Table H)
    (bound : List (U16 × H)) (l : Local H) : Prop :=
  ∀ id h bits kept, l.binding = some (id, h, bits, kept) →
    eventInfo cfg fuel mem id = some (bits, 4) ∧ (id, h) ∈ bound ∧ (kept = true → Bound table id)

structure Inv (cfg : MemConfig) (fuel : ℕ) (mem : Memory 32) (s : State H) : Prop where
  entries : ∀ e ∈ s.table, ∀ h, e.eventHandle = some h →
    eventInfo cfg fuel mem e.sysinfoId = some (e.eventBits, 4) ∧ (e.sysinfoId, h) ∈ s.bound
  calls : ∀ c l, s.calls c = some l → Sound cfg fuel mem s.table s.bound l
  log : ∀ d ∈ s.log, (d.id, d.handle) ∈ s.bound
  settled : ∀ id, s.settled id = true → Bound s.table id
  signalled : ∀ id bits, s.settled id = true → eventInfo cfg fuel mem id = some (bits, 4) →
    s.words bits ≠ 0 → s.pending = true ∨ ∃ c, s.calls c = some (.trigger id)

theorem start_inv (n : ℕ) (words : U32 → U32) :
    Inv cfg fuel mem (State.start n words : State H) := by
  constructor
  · intro e he h hh
    rw [List.eq_of_mem_replicate he] at hh
    cases hh
  · intro c l hl
    cases hl
  · intro d hd
    cases hd
  · intro id hid
    cases hid
  · intro id bits hid
    cases hid

/-- The calls of the other contexts, and the new one of this context. -/
theorem calls_update {P : Local H → Prop} {calls : ℕ → Option (Local H)} {c : ℕ}
    {o : Option (Local H)} (hold : ∀ d l, calls d = some l → P l) (hnew : ∀ l, o = some l → P l)
    {d : ℕ} {l : Local H} (hl : Function.update calls c o d = some l) : P l := by
  by_cases hd : d = c
  · subst hd
    rw [Function.update_self] at hl
    exact hnew l hl
  · rw [Function.update_of_ne hd] at hl
    exact hold d l hl

/-- A notifier survives a change of another context. -/
theorem trigger_update {calls : ℕ → Option (Local H)} {c : ℕ} {o : Option (Local H)} {id : U16}
    (hc : calls c ≠ some (.trigger id)) (h : ∃ d, calls d = some (.trigger id)) :
    ∃ d, Function.update calls c o d = some (.trigger id) := by
  obtain ⟨d, hd⟩ := h
  refine ⟨d, ?_⟩
  rw [Function.update_of_ne]
  · exact hd
  · rintro rfl
    exact hc hd

theorem Sound.mono {table table' : Table H} {bound bound' : List (U16 × H)} {l : Local H}
    (h : Sound cfg fuel mem table bound l) (ht : ∀ id, Bound table id → Bound table' id)
    (hb : ∀ p ∈ bound, p ∈ bound') : Sound cfg fuel mem table' bound' l := by
  intro id g bits kept hl
  obtain ⟨hinfo, hmem, hk⟩ := h id g bits kept hl
  exact ⟨hinfo, hb _ hmem, fun hkept => ht id (hk hkept)⟩

/-- A bind that succeeds inserts its entry. -/
theorem bind_success {id : U16} {h : H} {bits : U32} {table table' : Table H}
    (hinfo : eventInfo cfg fuel mem id = some (bits, 4))
    (hb : eventBindHandle (eventInfo cfg fuel mem id) id (some h) table = some (0, table')) :
    bindResult table id = 0 ∧ table' = insertEntry table id h bits := by
  rw [hinfo, eventBindHandle, if_pos rfl] at hb
  injection hb with hb
  injection hb with hres ht
  exact ⟨hres, ht.symm⟩

/-- A bind that fails changes nothing. -/
theorem bind_failure {info : Option (U32 × U16)} {id : U16} {handle : Option H}
    {table table' : Table H} (hb : eventBindHandle info id handle table = some (-1, table')) :
    table' = table := by
  cases handle with
  | none =>
      cases hb
      rfl
  | some h =>
      rcases info with _ | ⟨bits, size⟩
      · cases hb
      rw [eventBindHandle] at hb
      split_ifs at hb
      injection hb with hb
      injection hb with hres ht
      rcases insertEntry_cases table id h bits with ⟨hsame, -⟩ | ⟨-, -, -, -, -, hzero, -⟩
      · rw [← ht, hsame]
      · rw [hzero] at hres
        exact absurd hres (by decide)

theorem Inv.bind (hs : Inv cfg fuel mem s) {c : ℕ} {id : U16} {h : H} {bits : U32}
    {table : Table H} (hc : s.calls c = none)
    (hinfo : eventInfo cfg fuel mem id = some (bits, 4))
    (hb : eventBindHandle (eventInfo cfg fuel mem id) id (some h) s.table = some (0, table)) :
    Inv cfg fuel mem { s with
      table := table
      bound := (id, h) :: s.bound
      calls := Function.update s.calls c (some (.load id h bits true)) } := by
  obtain ⟨hres, rfl⟩ := bind_success hinfo hb
  obtain ⟨hnew, hold, hmem⟩ := @insertEntry_bound _ _ _ h bits hres
  constructor
  · intro e he g hg
    rcases hmem e he with rfl | he
    · cases hg
      exact ⟨hinfo, by simp⟩
    · obtain ⟨hi, hb⟩ := hs.entries e he g hg
      exact ⟨hi, List.mem_cons_of_mem _ hb⟩
  · intro d l hl
    refine calls_update ?_ ?_ hl
    · intro d l hl
      exact (hs.calls d l hl).mono hold fun p hp => List.mem_cons_of_mem _ hp
    · rintro l ⟨⟩ id' g bits' kept hk
      cases hk
      exact ⟨hinfo, by simp, fun _ => hnew⟩
  · intro d hd
    exact List.mem_cons_of_mem _ (hs.log d hd)
  · intro id' hid
    exact hold id' (hs.settled id' hid)
  · intro id' bits' hid hinfo' hw
    exact (hs.signalled id' bits' hid hinfo' hw).imp_right (trigger_update (by simp [hc]))

/-- An access of a bind in progress that leaves every word alone. -/
theorem Inv.local (hs : Inv cfg fuel mem s) {c : ℕ} {l l' : Local H} (hc : s.calls c = some l)
    (hl : ∃ b, l.binding = some b) (hb : l'.binding = l.binding) :
    Inv cfg fuel mem { s with calls := Function.update s.calls c (some l') } := by
  constructor
  · exact hs.entries
  · intro d k hk
    refine calls_update hs.calls ?_ hk
    rintro k ⟨⟩ id h bits kept hk
    exact hs.calls c l hc id h bits kept (hb ▸ hk)
  · exact hs.log
  · exact hs.settled
  · intro id bits hid hinfo hw
    refine (hs.signalled id bits hid hinfo hw).imp_right (trigger_update ?_)
    rw [hc]
    rintro ⟨⟩
    obtain ⟨b, hb⟩ := hl
    cases hb

theorem Inv.exchange (hs : Inv cfg fuel mem s) {c : ℕ} {id : U16} {h : H} {bits u : U32}
    {kept : Bool} (hc : s.calls c = some (.exchange id h bits kept u)) (d : U32) :
    Inv cfg fuel mem { s with words := Function.update s.words bits 0,
                              calls := Function.update s.calls c none,
                              settled := Function.update s.settled id (kept || s.settled id),
                              log := s.log ++ [⟨id, h, d⟩] } := by
  obtain ⟨hinfo, hbound, hkept⟩ := hs.calls c _ hc id h bits kept rfl
  constructor
  · exact hs.entries
  · intro d k hk
    refine calls_update hs.calls ?_ hk
    rintro k ⟨⟩
  · intro d hd
    rcases List.mem_append.mp hd with hd | hd
    · exact hs.log d hd
    · rw [List.mem_singleton.mp hd]
      exact hbound
  · intro id' hid
    by_cases hne : id' = id
    · subst hne
      simp only [Function.update_self, Bool.or_eq_true] at hid
      exact hid.elim hkept (hs.settled id')
    · simp only [Function.update_of_ne hne] at hid
      exact hs.settled id' hid
  · intro id' bits' hid hinfo' hw
    have hne : id' ≠ id := by
      rintro rfl
      rw [hinfo] at hinfo'
      cases hinfo'
      simp at hw
    have hbits : bits' ≠ bits := by
      rintro rfl
      exact hne (eventInfo_injective hinfo' hinfo)
    simp only [Function.update_of_ne hne] at hid
    simp only [Function.update_of_ne hbits] at hw
    exact (hs.signalled id' bits' hid hinfo' hw).imp_right (trigger_update (by simp [hc]))

theorem Inv.unbind (hs : Inv cfg fuel mem s) (id : U16) :
    Inv cfg fuel mem { s with table := eventUnbindHandle id s.table,
                              calls := fun c => (s.calls c).map (Local.unbound id),
                              settled := Function.update s.settled id false } := by
  obtain ⟨hold, hmem⟩ := @unbind_bound _ s.table id
  constructor
  · intro e he h hh
    rcases hmem e he with rfl | he
    · cases hh
    · exact hs.entries e he h hh
  · intro c l hl id' h bits kept hk
    obtain ⟨k, hc, rfl⟩ := Option.map_eq_some_iff.mp hl
    obtain ⟨kept', hk', hkept⟩ := unbound_binding hk
    obtain ⟨hinfo, hb, hbound⟩ := hs.calls c k hc id' h bits kept' hk'
    refine ⟨hinfo, hb, fun h1 => ?_⟩
    exact hold id' (hkept h1).2 (hbound (hkept h1).1)
  · exact hs.log
  · intro id' hid
    by_cases hne : id' = id
    · simp [hne] at hid
    · simp only [Function.update_of_ne hne] at hid
      exact hold id' hne (hs.settled id' hid)
  · intro id' bits hid hinfo hw
    by_cases hne : id' = id
    · simp [hne] at hid
    · simp only [Function.update_of_ne hne] at hid
      refine (hs.signalled id' bits hid hinfo hw).imp_right ?_
      rintro ⟨c, hc⟩
      exact ⟨c, by simp [hc, Local.unbound]⟩

theorem Inv.notify (hs : Inv cfg fuel mem s) {c : ℕ} {id : U16} {bits : U32} (w : U32)
    (notes : List Note) (hc : s.calls c = none)
    (hinfo : eventInfo cfg fuel mem id = some (bits, 4)) :
    Inv cfg fuel mem { s with words := Function.update s.words bits w,
                              calls := Function.update s.calls c (some (.trigger id)),
                              notes := notes } := by
  constructor
  · exact hs.entries
  · intro d l hl
    refine calls_update hs.calls ?_ hl
    rintro l ⟨⟩ id' h bits' kept hk
    cases hk
  · exact hs.log
  · exact hs.settled
  · intro id' bits' hid hinfo' hw
    by_cases hbits : bits' = bits
    · subst hbits
      rw [eventInfo_injective hinfo' hinfo]
      exact Or.inr ⟨c, Function.update_self ..⟩
    · simp only [Function.update_of_ne hbits] at hw
      exact (hs.signalled id' bits' hid hinfo' hw).imp_right (trigger_update (by simp [hc]))

theorem Inv.trigger (hs : Inv cfg fuel mem s) (c : ℕ) :
    Inv cfg fuel mem { s with pending := true, calls := Function.update s.calls c none } := by
  constructor
  · exact hs.entries
  · intro d l hl
    refine calls_update hs.calls ?_ hl
    rintro l ⟨⟩
  · exact hs.log
  · exact hs.settled
  · intro _ _ _ _ _
    exact Or.inl rfl

theorem Inv.isr (hs : Inv cfg fuel mem s) {choices : U32 → List Bool} {words : U32 → U32}
    {log : List (Delivery H)}
    (h : osEnvEventIsr choices s.table s.words s.log = some (words, log)) :
    Inv cfg fuel mem { s with pending := false, words := words, log := log } := by
  obtain ⟨new, rfl, hnew, hzero, -⟩ := osEnvEventIsr_spec h
  constructor
  · exact hs.entries
  · exact hs.calls
  · intro d hd
    rcases List.mem_append.mp hd with hd | hd
    · exact hs.log d hd
    · obtain ⟨e, he, hid, hh⟩ := hnew d hd
      exact hid ▸ (hs.entries e he d.handle hh).2
  · exact hs.settled
  · intro id bits hid hinfo hw
    obtain ⟨e, he, heid, hh⟩ := hs.settled id hid
    obtain ⟨g, hg⟩ := Option.ne_none_iff_exists'.mp hh
    have hbits := (hs.entries e he g hg).1
    rw [heid, hinfo] at hbits
    injection hbits with hbits
    injection hbits with hbits
    exact absurd (hbits ▸ hzero e he hh) hw

/-- A failed attempt leaves the word alone. -/
theorem exchange_failed {spurious : Bool} {word u : U32}
    (h : (compareExchangeWeak spurious word u 0).success = false) :
    (compareExchangeWeak spurious word u 0).word = word := by
  rcases compareExchangeWeak_cases spurious word u 0 with ⟨-, hx⟩ | hx
  · rw [hx] at h
    cases h
  · rw [hx]

/-- A successful attempt empties the word and holds what was in it. -/
theorem exchange_succeeded {spurious : Bool} {word u : U32}
    (h : (compareExchangeWeak spurious word u 0).success = true) :
    (compareExchangeWeak spurious word u 0).word = 0 ∧
      (compareExchangeWeak spurious word u 0).expected = word := by
  rcases compareExchangeWeak_cases spurious word u 0 with ⟨he, hx⟩ | hx
  · rw [hx]
    exact ⟨rfl, he.symm⟩
  · rw [hx] at h
    cases h

theorem step_inv {l : Label H} (h : Step cfg fuel mem s l t) (hs : Inv cfg fuel mem s) :
    Inv cfg fuel mem t := by
  cases h with
  | bind hc _ hinfo hb => exact hs.bind hc hinfo hb
  | bindFailed _ hb => exact (bind_failure hb).symm ▸ hs
  | load hc => exact hs.local hc ⟨_, rfl⟩ rfl
  | exchangeFails spurious hc hx =>
      rw [exchange_failed hx, Function.update_eq_self]
      exact hs.local hc ⟨_, rfl⟩ rfl
  | exchange spurious hc hx =>
      rw [(exchange_succeeded hx).1]
      exact hs.exchange hc _
  | unbind _ => exact hs.unbind _
  | notify hc _ hinfo => exact hs.notify _ _ hc hinfo
  | trigger _ => exact hs.trigger _
  | isr choices _ h => exact hs.isr h

/-- A bit that leaves a word in a step leaves it in a delivery of that step. -/
def Moves (cfg : MemConfig) (fuel : ℕ) (mem : Memory 32) (s t : State H) : Prop :=
  ∃ new, t.log = s.log ++ new ∧ ∀ id bits, eventInfo cfg fuel mem id = some (bits, 4) →
    ∀ i, (s.words bits).getLsbD i = true →
      (t.words bits).getLsbD i = true ∨ ∃ d ∈ new, d.id = id ∧ d.bits.getLsbD i = true

theorem Moves.of_words (hlog : t.log = s.log) (hw : t.words = s.words) :
    Moves cfg fuel mem s t :=
  ⟨[], by simp [hlog], fun _ _ _ _ hi => Or.inl (hw ▸ hi)⟩

theorem step_moves {l : Label H} (h : Step cfg fuel mem s l t) (hs : Inv cfg fuel mem s) :
    Moves cfg fuel mem s t := by
  cases h with
  | bind _ _ _ _ => exact .of_words rfl rfl
  | bindFailed _ _ => exact .of_words rfl rfl
  | load _ => exact .of_words rfl rfl
  | unbind _ => exact .of_words rfl rfl
  | trigger _ => exact .of_words rfl rfl
  | exchangeFails spurious hc hx =>
      refine .of_words rfl ?_
      simp only [exchange_failed hx, Function.update_eq_self]
  | @exchange c id h bits u kept spurious hc hx =>
      obtain ⟨hinfo, -⟩ := hs.calls c _ hc id h bits kept rfl
      rw [(exchange_succeeded hx).1, (exchange_succeeded hx).2]
      refine ⟨_, rfl, fun id' bits' hinfo' i hi => ?_⟩
      by_cases hbits : bits' = bits
      · subst hbits
        exact Or.inr ⟨_, List.mem_singleton_self _, eventInfo_injective hinfo hinfo', hi⟩
      · simp only [Function.update_of_ne hbits]
        exact Or.inl hi
  | @notify c id mask bits hc _ hinfo =>
      refine ⟨[], by simp, fun id' bits' hinfo' i hi => Or.inl ?_⟩
      by_cases hbits : bits' = bits
      · subst hbits
        simp [fetchOr, hi]
      · simp only [Function.update_of_ne hbits]
        exact hi
  | isr choices _ h =>
      obtain ⟨new, rfl, -, -, hword⟩ := osEnvEventIsr_spec h
      refine ⟨new, rfl, fun id bits hinfo i hi => ?_⟩
      rcases hword bits with hw | ⟨-, e, he, rfl, g, hg, hd⟩
      · exact Or.inl (by simp only [hw, hi])
      · exact Or.inr ⟨_, hd, eventInfo_injective (hs.entries e he g hg).1 hinfo, hi⟩

/-- A step notes a mask only after putting it into the word. -/
theorem step_notes {l : Label H} (h : Step cfg fuel mem s l t) :
    t.notes = s.notes ∨ ∃ id mask bits, eventInfo cfg fuel mem id = some (bits, 4) ∧
      t.notes = ⟨id, mask, s.log.length⟩ :: s.notes ∧ t.log = s.log ∧
      ∀ i, mask.getLsbD i = true → (t.words bits).getLsbD i = true := by
  cases h with
  | @notify c id mask bits hc _ hinfo =>
      refine Or.inr ⟨id, mask, bits, hinfo, rfl, rfl, fun i hi => ?_⟩
      simp [fetchOr, hi]
  | _ => exact Or.inl rfl

/-- The noted bits are in their words or were delivered later. -/
def Kept (cfg : MemConfig) (fuel : ℕ) (mem : Memory 32) (s : State H) : Prop :=
  ∀ n ∈ s.notes, n.since ≤ s.log.length ∧ ∃ bits, eventInfo cfg fuel mem n.id = some (bits, 4) ∧
    ∀ i, n.mask.getLsbD i = true → (s.words bits).getLsbD i = true ∨
      ∃ d ∈ s.log.drop n.since, d.id = n.id ∧ d.bits.getLsbD i = true

theorem step_kept {l : Label H} (h : Step cfg fuel mem s l t) (hs : Inv cfg fuel mem s)
    (hk : Kept cfg fuel mem s) : Kept cfg fuel mem t := by
  obtain ⟨new, hlog, hmove⟩ := step_moves h hs
  have hold (n : Note) (hn : n ∈ s.notes) : n.since ≤ t.log.length ∧
      ∃ bits, eventInfo cfg fuel mem n.id = some (bits, 4) ∧
        ∀ i, n.mask.getLsbD i = true → (t.words bits).getLsbD i = true ∨
          ∃ d ∈ t.log.drop n.since, d.id = n.id ∧ d.bits.getLsbD i = true := by
    obtain ⟨hle, bits, hinfo, hbits⟩ := hk n hn
    rw [hlog, List.length_append, List.drop_append_of_le_length hle]
    refine ⟨by omega, bits, hinfo, fun i hi => ?_⟩
    rcases hbits i hi with hw | ⟨d, hd, hid⟩
    · rcases hmove n.id bits hinfo i hw with hw | ⟨d, hd, hid⟩
      · exact Or.inl hw
      · exact Or.inr ⟨d, by simp [hd], hid⟩
    · exact Or.inr ⟨d, by simp [hd], hid⟩
  rcases step_notes h with hn | ⟨id, mask, bits, hinfo, hn, hlog', hw⟩
  · intro n hmem
    exact hold n (hn ▸ hmem)
  · intro n hmem
    rw [hn] at hmem
    rcases List.mem_cons.mp hmem with rfl | hmem
    · exact ⟨by simp [hlog'], bits, hinfo, fun i hi => Or.inl (hw i hi)⟩
    · exact hold n hmem

theorem run_kept {n : ℕ} {words : U32 → U32} {ls : List (Label H)}
    (h : Run (Step cfg fuel mem) (State.start n words) ls s) :
    Inv cfg fuel mem s ∧ Kept cfg fuel mem s := by
  have hstart : Inv cfg fuel mem (State.start n words : State H) ∧
      Kept cfg fuel mem (State.start n words : State H) :=
    ⟨start_inv n words, fun n hn => by cases hn⟩
  exact Run.invariant (P := fun s => Inv cfg fuel mem s ∧ Kept cfg fuel mem s)
    (fun s l t hst hs => ⟨step_inv hst hs.1, step_kept hst hs.1 hs.2⟩) h hstart

end Invariant

/-- In every interleaving, each notified bit is still in its event word or was
later set in an event group that had been bound to its id; and while an id stays
bound after a bind of it returned, its word is non-zero only while the interrupt is
pending or a notifier of the id is about to trigger it. -/
theorem events_not_missed_around_binding (cfg : MemConfig) (fuel : ℕ) (mem : Memory 32) (n : ℕ)
    (words : U32 → U32) (ls : List (Label H)) (s : State H)
    (hrun : Run (Step cfg fuel mem) (State.start (n + 1) words) ls s) :
    (∀ note ∈ s.notes, ∃ bits, eventInfo cfg fuel mem note.id = some (bits, 4) ∧
      ∀ i, note.mask.getLsbD i = true → (s.words bits).getLsbD i = true ∨
        ∃ d ∈ s.log.drop note.since, d.id = note.id ∧ d.bits.getLsbD i = true ∧
          (note.id, d.handle) ∈ s.bound) ∧
      ∀ id bits, s.settled id = true → eventInfo cfg fuel mem id = some (bits, 4) →
        s.words bits ≠ 0 → s.pending = true ∨ ∃ c, s.calls c = some (.trigger id) := by
  obtain ⟨hinv, hkept⟩ := run_kept hrun
  refine ⟨fun note hn => ?_, hinv.signalled⟩
  obtain ⟨-, bits, hinfo, hbits⟩ := hkept note hn
  refine ⟨bits, hinfo, fun i hi => (hbits i hi).imp_right ?_⟩
  rintro ⟨d, hd, hid, hdi⟩
  exact ⟨d, hd, hid, hdi, hid ▸ hinv.log d (List.mem_of_mem_drop hd)⟩

/-- SysInfo with the word of one event. -/
def oneEvent : Memory 32 :=
  match sysInfoAlloc c6Defaults 1 (sysInfoInit c6Defaults fun _ => 0) 5 4 .hp with
  | some (_, m) => m
  | none => fun _ => 0

theorem oneEvent_info : eventInfo c6Defaults 2 oneEvent 5 = some (0x4087a590, 4) := rfl

/-- The event comes first, its interrupt finds nobody bound, and the bind that
follows delivers it. -/
theorem early_event_delivered : ∃ s : State ℕ, Run (Step c6Defaults 2 oneEvent)
      (State.start 5 fun _ => 0)
      [.notify 0 5 6, .trigger 0, .isr, .bind 1 5 77, .load 1, .exchange 1] s ∧
    s.settled 5 = true ∧ s.log = [⟨5, 77, 6⟩] ∧
    (∀ note ∈ s.notes, ∃ bits, eventInfo c6Defaults 2 oneEvent note.id = some (bits, 4) ∧
      ∀ i, note.mask.getLsbD i = true → (s.words bits).getLsbD i = true ∨
        ∃ d ∈ s.log.drop note.since, d.id = note.id ∧ d.bits.getLsbD i = true ∧
          (note.id, d.handle) ∈ s.bound) ∧
    ¬ (s.words 0x4087a590 ≠ 0 ∧ s.pending = false) := by
  have hrun : ∃ s : State ℕ, Run (Step c6Defaults 2 oneEvent) (State.start 5 fun _ => 0)
      [.notify 0 5 6, .trigger 0, .isr, .bind 1 5 77, .load 1, .exchange 1] s ∧
      s.settled 5 = true ∧ s.log = [⟨5, 77, 6⟩] ∧ ∀ c, s.calls c ≠ some (.trigger 5) := by
    refine ⟨_, .next (.notify rfl (by decide) oneEvent_info) (.next (.trigger rfl)
      (.next (.isr (fun _ => []) rfl rfl) (.next (.bind rfl (by decide) oneEvent_info rfl)
        (.next (.load rfl) (.single (.exchange false rfl rfl)))))), rfl, rfl, ?_⟩
    intro c
    by_cases h1 : c = 1
    · simp [h1]
    · simp [h1, State.start]
  obtain ⟨s, hrun, hset, hlog, hcalls⟩ := hrun
  obtain ⟨hnotes, hsignal⟩ := events_not_missed_around_binding c6Defaults 2 oneEvent 4 _ _ s hrun
  refine ⟨s, hrun, hset, hlog, hnotes, ?_⟩
  rintro ⟨hw, hp⟩
  rcases hsignal 5 _ hset oneEvent_info hw with h | ⟨c, hc⟩
  · rw [hp] at h
    cases h
  · exact hcalls c hc

end EspAmp.EventBinding
