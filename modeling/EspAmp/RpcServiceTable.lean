import EspAmp.Rpc

/-!
# The service table of the RPC server

A slot is free when its handler is null, and every loop over the table tests the
handler before the command id, so the id left in a freed slot does not matter even
though it is a legal one. An insertion looks at the whole table for its id before it
takes the first free slot, which keeps one slot for each id.
-/
namespace EspAmp.RpcServiceTable
open ByteMemory Rpc

variable {σ : Type}

def errExist : Int := -5
def errNotFound : Int := -6

/-- A slot of zeroes. -/
def emptySlot : Service σ := ⟨0, none⟩

/-- The loop of `esp_amp_rpc_server_add_service`: the first free slot and the last one
that holds the id, `none` being the index `-1`. -/
def addLoop (cmdId : U16) : ℕ → List (Service σ) → Option ℕ → Option ℕ → Option ℕ × Option ℕ
  | _, [], emptyIdx, existIdx => (emptyIdx, existIdx)
  | i, e :: srv, emptyIdx, existIdx =>
      if e.handler.isNone then
        addLoop cmdId (i + 1) srv (if emptyIdx.isNone then some i else emptyIdx) existIdx
      else if e.cmdId = cmdId then addLoop cmdId (i + 1) srv emptyIdx (some i)
      else addLoop cmdId (i + 1) srv emptyIdx existIdx

/-- `esp_amp_rpc_server_add_service` -/
def addService (srv : List (Service σ)) (cmdId : U16) (handler : Option (Handler σ)) :
    Int × List (Service σ) :=
  if handler.isNone then (errInvalidArg, srv)
  else
    match addLoop cmdId 0 srv none none with
    | (_, some _) => (errExist, srv)
    | (some emptyIdx, none) => (rpcOk, srv.set emptyIdx ⟨cmdId, handler⟩)
    | (none, none) => (errNoMem, srv)

/-- The loop of `esp_amp_rpc_server_del_service`. -/
def delLoop (cmdId : U16) : Int → List (Service σ) → Int × List (Service σ)
  | ret, [] => (ret, [])
  | ret, e :: srv =>
      if e.cmdId = cmdId ∧ e.handler.isSome then
        ((delLoop cmdId rpcOk srv).1, emptySlot :: (delLoop cmdId rpcOk srv).2)
      else ((delLoop cmdId ret srv).1, e :: (delLoop cmdId ret srv).2)

/-- `esp_amp_rpc_server_del_service` -/
def delService (srv : List (Service σ)) (cmdId : U16) : Int × List (Service σ) :=
  delLoop cmdId errNotFound srv

inductive Op (σ : Type) where
  | add (cmdId : U16) (handler : Handler σ)
  | del (cmdId : U16)

/-- The table with the handler of the last successful insertion of each id that no
deletion followed. -/
structure State (σ : Type) where
  srv : List (Service σ)
  bound : U16 → Option (Handler σ)

/-- The table as `esp_amp_rpc_server_init` leaves it. -/
def State.start (srvTblLen : ℕ) : State σ := ⟨List.replicate srvTblLen emptySlot, fun _ => none⟩

def exec (srv : List (Service σ)) : Op σ → Int × List (Service σ)
  | .add cmdId handler => addService srv cmdId (some handler)
  | .del cmdId => delService srv cmdId

def record (bound : U16 → Option (Handler σ)) (ret : Int) : Op σ → U16 → Option (Handler σ)
  | .add cmdId handler => if ret = rpcOk then Function.update bound cmdId (some handler) else bound
  | .del cmdId => Function.update bound cmdId none

def next (s : State σ) (op : Op σ) : State σ :=
  ⟨(exec s.srv op).2, record s.bound (exec s.srv op).1 op⟩

def run (s : State σ) (ops : List (Op σ)) : State σ := ops.foldl next s

/-- An occupied slot holds the id. -/
def Holds (srv : List (Service σ)) (cmdId : U16) (handler : Handler σ) : Prop :=
  ∃ e ∈ srv, e.cmdId = cmdId ∧ e.handler = some handler

def Present (srv : List (Service σ)) (cmdId : U16) : Prop :=
  ∃ e ∈ srv, e.cmdId = cmdId ∧ e.handler.isSome

def Full (srv : List (Service σ)) : Prop := ∀ e ∈ srv, e.handler.isSome

/-- One occupied slot for each id. -/
def Distinct (srv : List (Service σ)) : Prop :=
  srv.Pairwise fun a b => a.handler.isSome → b.handler.isSome → a.cmdId ≠ b.cmdId

section Loops
variable {srv : List (Service σ)} {cmdId : U16} {handler : Handler σ}

theorem addLoop_empty (i : ℕ) (emptyIdx existIdx : Option ℕ) :
    (addLoop cmdId i srv emptyIdx existIdx).1 =
      emptyIdx.or ((srv.findIdx? fun e => e.handler.isNone).map (i + ·)) := by
  induction srv generalizing i emptyIdx existIdx with
  | nil => simp [addLoop]
  | cons e srv ih =>
      rw [addLoop, List.findIdx?_cons]
      by_cases hfree : e.handler.isNone = true
      · rw [if_pos hfree, ih]
        cases emptyIdx <;> simp [hfree]
      · rw [if_neg hfree]
        have hshift : ((srv.findIdx? fun e => e.handler.isNone).map (i + 1 + ·)) =
            (((srv.findIdx? fun e => e.handler.isNone).map (· + 1)).map (i + ·)) := by
          rw [Option.map_map]
          exact congrArg (Option.map · _) (funext fun j => by simp only [Function.comp]; omega)
        split_ifs with hid
        · rw [ih, hshift]
        · rw [ih, hshift]

theorem addLoop_exist (i : ℕ) (emptyIdx existIdx : Option ℕ) :
    (addLoop cmdId i srv emptyIdx existIdx).2.isSome = true ↔
      existIdx.isSome = true ∨ Present srv cmdId := by
  induction srv generalizing i emptyIdx existIdx with
  | nil => simp [addLoop, Present]
  | cons e srv ih =>
      have hcons : Present (e :: srv) cmdId ↔
          (e.cmdId = cmdId ∧ e.handler.isSome) ∨ Present srv cmdId := List.exists_mem_cons_iff ..
      rw [addLoop, hcons]
      by_cases hfree : e.handler.isNone = true
      · rw [if_pos hfree, ih]
        simp [Option.isNone_iff_eq_none.mp hfree]
      · have htaken : e.handler.isSome = true := by simpa [Option.isSome_iff_ne_none] using hfree
        rw [if_neg hfree]
        by_cases hid : e.cmdId = cmdId
        · rw [if_pos hid, ih]
          simp [hid, htaken]
        · rw [if_neg hid, ih]
          simp [hid]

theorem addService_of_present (h : Present srv cmdId) :
    addService srv cmdId (some handler) = (errExist, srv) := by
  have hexist := (addLoop_exist 0 none none).mpr (Or.inr h)
  obtain ⟨i, hi⟩ := Option.isSome_iff_exists.mp hexist
  rw [addService, if_neg (by simp)]
  cases hloop : addLoop cmdId 0 srv none none with
  | mk emptyIdx existIdx =>
      rw [hloop] at hi
      cases hi
      rfl

/-- An insertion of a new id depends on the first free slot only. -/
theorem addService_of_absent (h : ¬ Present srv cmdId) :
    addService srv cmdId (some handler) =
      match srv.findIdx? fun e => e.handler.isNone with
      | some emptyIdx => (rpcOk, srv.set emptyIdx ⟨cmdId, some handler⟩)
      | none => (errNoMem, srv) := by
  have hempty : (addLoop cmdId 0 srv none none).1 = _ := addLoop_empty 0 none none
  have hexist : ¬ (addLoop cmdId 0 srv none none).2.isSome = true :=
    mt (addLoop_exist 0 none none).mp (by simpa using h)
  rw [addService, if_neg (by simp)]
  cases hloop : addLoop cmdId 0 srv none none with
  | mk emptyIdx existIdx =>
      rw [hloop] at hempty hexist
      simp only [Option.none_or, Nat.zero_add, Option.map_id'] at hempty
      cases existIdx with
      | some i => exact absurd rfl hexist
      | none =>
          rw [← hempty]
          cases emptyIdx <;> rfl

theorem addService_of_full (h : ¬ Present srv cmdId) (hfull : Full srv) :
    addService srv cmdId (some handler) = (errNoMem, srv) := by
  have hnone : (srv.findIdx? fun e => e.handler.isNone) = none := by
    rw [List.findIdx?_eq_none_iff]
    intro e he
    simpa [Option.isSome_iff_ne_none] using hfull e he
  rw [addService_of_absent h, hnone]

/-- A new id takes the place of one free slot. -/
theorem addService_of_room (handler : Handler σ) (h : ¬ Present srv cmdId) (hfull : ¬ Full srv) :
    ∃ l x r, srv = l ++ x :: r ∧ x.handler = none ∧
      addService srv cmdId (some handler) = (rpcOk, l ++ ⟨cmdId, some handler⟩ :: r) := by
  rw [addService_of_absent h]
  cases hfind : srv.findIdx? fun e => e.handler.isNone with
  | none =>
      refine absurd ?_ hfull
      intro e he
      simpa [Option.isSome_iff_ne_none] using List.findIdx?_eq_none_iff.mp hfind e he
  | some i =>
      obtain ⟨hi, hfree, -⟩ := List.findIdx?_eq_some_iff_getElem.mp hfind
      refine ⟨srv.take i, srv[i], srv.drop (i + 1), ?_, by simpa using hfree, ?_⟩
      · rw [List.getElem_cons_drop, List.take_append_drop]
      · exact congrArg (rpcOk, ·) ((List.set_eq_take_append_cons_drop ..).trans (if_pos hi))

/-- A deletion clears a slot that holds the id. -/
def clearSlot (cmdId : U16) (e : Service σ) : Service σ :=
  if e.cmdId = cmdId ∧ e.handler.isSome then emptySlot else e

theorem delLoop_snd (ret : Int) : (delLoop cmdId ret srv).2 = srv.map (clearSlot cmdId) := by
  induction srv generalizing ret with
  | nil => rfl
  | cons e srv ih =>
      rw [delLoop, List.map_cons, clearSlot]
      split_ifs with hhit
      · rw [ih]
      · rw [ih]

theorem delLoop_of_absent (ret : Int) (h : ¬ Present srv cmdId) :
    delLoop cmdId ret srv = (ret, srv) := by
  induction srv with
  | nil => rfl
  | cons e srv ih =>
      have hmiss : ¬ (e.cmdId = cmdId ∧ e.handler.isSome) :=
        fun hhit => h ⟨e, List.mem_cons_self, hhit⟩
      have hrest : ¬ Present srv cmdId :=
        fun ⟨e', he', hhit⟩ => h ⟨e', List.mem_cons_of_mem _ he', hhit⟩
      rw [delLoop, if_neg hmiss, ih hrest]

theorem delLoop_ok : (delLoop cmdId rpcOk srv).1 = rpcOk := by
  induction srv with
  | nil => rfl
  | cons e srv ih =>
      rw [delLoop]
      split_ifs with hhit
      · exact ih
      · exact ih

theorem delLoop_of_present (ret : Int) (h : Present srv cmdId) :
    (delLoop cmdId ret srv).1 = rpcOk := by
  induction srv with
  | nil => simp [Present] at h
  | cons e srv ih =>
      rw [delLoop]
      split_ifs with hhit
      · exact delLoop_ok
      · obtain ⟨e', he', hhit'⟩ := h
        cases he' with
        | head => exact absurd hhit' hhit
        | tail _ he' => exact ih ⟨e', he', hhit'⟩

end Loops

section Lookup
variable {srv l r : List (Service σ)} {x : Service σ} {cmdId c : U16} {handler h : Handler σ}

theorem Holds.present (hh : Holds srv c h) : Present srv c := by
  obtain ⟨e, he, hid, hhandler⟩ := hh
  exact ⟨e, he, hid, by simp [hhandler]⟩

/-- The search of a request finds the one slot of its id. -/
theorem findHandler_eq_some_iff (hd : Distinct srv) :
    findHandler c srv = some h ↔ Holds srv c h := by
  induction srv with
  | nil => simp [findHandler, Holds]
  | cons e srv ih =>
      obtain ⟨hfirst, hrest⟩ := List.pairwise_cons.mp hd
      have hcons : Holds (e :: srv) c h ↔ (e.cmdId = c ∧ e.handler = some h) ∨ Holds srv c h :=
        List.exists_mem_cons_iff ..
      rw [findHandler, hcons]
      split_ifs with hhit
      · have hrest : ¬ Holds srv c h := by
          rintro ⟨e', he', hid', hh'⟩
          exact hfirst e' he' hhit.1 (by simp [hh']) (hhit.2.trans hid'.symm)
        simp [hhit.2, hrest]
      · rw [ih hrest]
        refine ⟨Or.inr, fun hor => hor.resolve_left ?_⟩
        rintro ⟨hid, hh⟩
        exact hhit ⟨by simp [hh], hid⟩

theorem holds_insert_iff (hx : x.handler = none) :
    Holds (l ++ ⟨cmdId, some handler⟩ :: r) c h ↔
      (cmdId = c ∧ handler = h) ∨ Holds (l ++ x :: r) c h := by
  simp only [Holds, List.mem_append, List.mem_cons, or_and_right, exists_or, exists_eq_left, hx,
    Option.some.injEq, reduceCtorEq, and_false, false_or]
  exact or_left_comm

theorem holds_clear_iff : Holds (srv.map (clearSlot cmdId)) c h ↔ c ≠ cmdId ∧ Holds srv c h := by
  constructor
  · rintro ⟨_, hmem, hid, hh⟩
    obtain ⟨e, he, rfl⟩ := List.mem_map.mp hmem
    rw [clearSlot] at hid hh
    split_ifs at hid hh with hhit
    · cases hh
    · refine ⟨?_, e, he, hid, hh⟩
      rintro rfl
      exact hhit ⟨hid, by simp [hh]⟩
  · rintro ⟨hne, e, he, hid, hh⟩
    refine ⟨e, List.mem_map.mpr ⟨e, he, ?_⟩, hid, hh⟩
    rw [clearSlot, if_neg]
    rintro ⟨hid', -⟩
    exact hne (hid.symm.trans hid')

theorem distinct_insert (hd : Distinct (l ++ x :: r)) (hnew : ¬ Present (l ++ x :: r) cmdId) :
    Distinct (l ++ ⟨cmdId, some handler⟩ :: r) := by
  have hother (e : Service σ) (he : e ∈ l ++ x :: r) (htaken : e.handler.isSome) :
      e.cmdId ≠ cmdId := fun hid => hnew ⟨e, he, hid, htaken⟩
  rw [Distinct, List.pairwise_append, List.pairwise_cons] at hd ⊢
  obtain ⟨hl, ⟨-, hr⟩, hlr⟩ := hd
  refine ⟨hl, ⟨fun b hb _ htaken => (hother b (by simp [hb]) htaken).symm, hr⟩, ?_⟩
  intro a ha b hb
  cases hb with
  | head => exact fun htaken _ => hother a (by simp [ha]) htaken
  | tail _ hb => exact hlr a ha b (List.mem_cons_of_mem _ hb)

theorem distinct_clear (hd : Distinct srv) : Distinct (srv.map (clearSlot cmdId)) := by
  rw [Distinct, List.pairwise_map]
  refine hd.imp ?_
  intro a b hab ha hb
  have hkeep (e : Service σ) (he : (clearSlot cmdId e).handler.isSome) : clearSlot cmdId e = e := by
    rw [clearSlot] at he ⊢
    split_ifs at he ⊢ with hhit
    · cases he
    · rfl
  rw [hkeep a ha, hkeep b hb]
  exact hab (hkeep a ha ▸ ha) (hkeep b hb ▸ hb)

end Lookup

/-- The table has its length, one slot for each id, and holds what `bound` says. -/
structure Represents (srvTblLen : ℕ) (s : State σ) : Prop where
  length : s.srv.length = srvTblLen
  distinct : Distinct s.srv
  holds : ∀ c h, Holds s.srv c h ↔ s.bound c = some h

section Runs
variable {srvTblLen : ℕ} {s : State σ}

theorem Represents.start : Represents srvTblLen (State.start srvTblLen : State σ) := by
  refine ⟨List.length_replicate, ?_, ?_⟩
  · exact List.pairwise_replicate.mpr (Or.inr (by simp [emptySlot]))
  · intro c h
    simp only [State.start, reduceCtorEq, iff_false]
    rintro ⟨e, he, -, hh⟩
    rw [List.eq_of_mem_replicate he] at hh
    cases hh

theorem next_of_add_fail {ret : Int} {cmdId : U16} {handler : Handler σ} (hne : ret ≠ rpcOk)
    (h : addService s.srv cmdId (some handler) = (ret, s.srv)) :
    next s (.add cmdId handler) = s := by
  simp only [next, exec, h, record, if_neg hne]

theorem Represents.add (hs : Represents srvTblLen s) (cmdId : U16) (handler : Handler σ) :
    Represents srvTblLen (next s (.add cmdId handler)) := by
  by_cases hnew : Present s.srv cmdId
  · rwa [next_of_add_fail (by decide) (addService_of_present hnew)]
  · by_cases hfull : Full s.srv
    · rwa [next_of_add_fail (by decide) (addService_of_full hnew hfull)]
    · obtain ⟨l, x, r, heq, hx, hadd⟩ := addService_of_room handler hnew hfull
      simp only [next, exec, hadd, record, if_pos]
      have hlen := hs.length
      have hd := hs.distinct
      refine ⟨by simpa [heq] using hlen, distinct_insert (heq ▸ hd) (heq ▸ hnew), ?_⟩
      intro c h
      rw [holds_insert_iff hx, ← heq]
      by_cases hc : c = cmdId
      · subst hc
        have habsent : ¬ Holds s.srv c h := fun hh => hnew hh.present
        simp [habsent]
      · have hold : Function.update s.bound cmdId (some handler) c = s.bound c :=
          Function.update_of_ne hc ..
        simp only [hold, ← hs.holds, Ne.symm hc, false_and, false_or]

theorem Represents.del (hs : Represents srvTblLen s) (cmdId : U16) :
    Represents srvTblLen (next s (.del cmdId)) := by
  simp only [next, exec, delService, record, delLoop_snd]
  refine ⟨(List.length_map _).trans hs.length, distinct_clear hs.distinct, ?_⟩
  intro c h
  rw [holds_clear_iff, hs.holds]
  by_cases hc : c = cmdId
  · simp [hc]
  · simp [hc]

theorem Represents.run (hs : Represents srvTblLen s) (ops : List (Op σ)) :
    Represents srvTblLen (run s ops) := by
  induction ops generalizing s with
  | nil => exact hs
  | cons op ops ih =>
      cases op with
      | add cmdId handler => exact ih (hs.add cmdId handler)
      | del cmdId => exact ih (hs.del cmdId)

theorem Represents.findHandler_eq (hs : Represents srvTblLen s) (c : U16) :
    findHandler c s.srv = s.bound c := by
  apply Option.ext
  intro h
  rw [findHandler_eq_some_iff hs.distinct, hs.holds]

end Runs

/-- What an insertion answers, and that it changes nothing when it fails. -/
theorem addService_answers (srv : List (Service σ)) (cmdId : U16) (handler : Handler σ) :
    ((addService srv cmdId (some handler)).1 = errExist ↔ Present srv cmdId) ∧
      ((addService srv cmdId (some handler)).1 = errNoMem ↔ ¬ Present srv cmdId ∧ Full srv) ∧
      ((addService srv cmdId (some handler)).1 = rpcOk ↔ ¬ Present srv cmdId ∧ ¬ Full srv) ∧
      ((addService srv cmdId (some handler)).1 ≠ rpcOk →
        (addService srv cmdId (some handler)).2 = srv) := by
  by_cases hnew : Present srv cmdId
  · simp [addService_of_present hnew, hnew, errExist, errNoMem, rpcOk]
  · by_cases hfull : Full srv
    · simp [addService_of_full hnew hfull, hnew, hfull, errExist, errNoMem, rpcOk]
    · obtain ⟨l, x, r, heq, hx, hadd⟩ := addService_of_room handler hnew hfull
      simp [hadd, hnew, hfull, errExist, errNoMem, rpcOk]

/-- What a deletion answers, and that it changes nothing when it fails. -/
theorem delService_answers (srv : List (Service σ)) (cmdId : U16) :
    ((delService srv cmdId).1 = rpcOk ↔ Present srv cmdId) ∧
      ((delService srv cmdId).1 = errNotFound ↔ ¬ Present srv cmdId) ∧
      ((delService srv cmdId).1 ≠ rpcOk → (delService srv cmdId).2 = srv) := by
  by_cases hnew : Present srv cmdId
  · rw [delService, delLoop_of_present errNotFound hnew]
    simp [hnew, errNotFound, rpcOk]
  · rw [delService, delLoop_of_absent errNotFound hnew]
    simp [hnew, errNotFound, rpcOk]

/-- After any insertions and deletions the table is a map from ids to handlers with
room for `srvTblLen` of them. -/
theorem service_table_is_bounded_map (srvTblLen : ℕ) (ops : List (Op σ)) :
    let s := run (State.start srvTblLen) ops
    s.srv.length = srvTblLen ∧ Distinct s.srv ∧
      (∀ cmdId, findHandler cmdId s.srv = s.bound cmdId) ∧
      (∀ cmdId handler,
        ((addService s.srv cmdId (some handler)).1 = errExist ↔ Present s.srv cmdId) ∧
        ((addService s.srv cmdId (some handler)).1 = errNoMem ↔
          ¬ Present s.srv cmdId ∧ Full s.srv) ∧
        ((addService s.srv cmdId (some handler)).1 = rpcOk ↔
          ¬ Present s.srv cmdId ∧ ¬ Full s.srv) ∧
        ((addService s.srv cmdId (some handler)).1 ≠ rpcOk →
          (addService s.srv cmdId (some handler)).2 = s.srv)) ∧
      (∀ cmdId,
        ((delService s.srv cmdId).1 = rpcOk ↔ Present s.srv cmdId) ∧
        ((delService s.srv cmdId).1 = errNotFound ↔ ¬ Present s.srv cmdId) ∧
        ((delService s.srv cmdId).1 ≠ rpcOk → (delService s.srv cmdId).2 = s.srv)) := by
  intro s
  have hs : Represents srvTblLen s := Represents.start.run ops
  exact ⟨hs.length, hs.distinct, hs.findHandler_eq, addService_answers s.srv,
    delService_answers s.srv⟩

end EspAmp.RpcServiceTable
