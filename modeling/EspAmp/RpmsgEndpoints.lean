import EspAmp.LinkedList
import EspAmp.Rpmsg

/-!
# The endpoint list of a device

The endpoints of a device are linked through their own contexts. Here the contexts
are cells of a heap, the list is the pointer to its first one, and the loops follow
pointers with fuel, so that a walk on a cycle would run out of it. A chain from the
first pointer to null represents a list of endpoints; on a represented list the calls
end and do what the list functions of `Rpmsg` do.
-/
namespace EspAmp.RpmsgEndpoints
open ByteMemory LinkedList
open Rpmsg (Ept)

/-- `esp_amp_rpmsg_ept_t`; a null callback is `none`. -/
structure EptCtx where
  rxCb : Option U32
  rxCbData : U32
  nextEpt : U32
  addr : U16
deriving DecidableEq, Repr

/-- The contexts at their addresses, and the `ept_list` of a device. -/
structure Dev where
  ctxs : U32 → EptCtx
  eptList : U32

def Dev.nextEpt (d : Dev) (c : U32) : U32 := (d.ctxs c).nextEpt

def Dev.setCtx (d : Dev) (c : U32) (ctx : EptCtx) : Dev :=
  { d with ctxs := Function.update d.ctxs c ctx }

/-- `__esp_amp_rpmsg_extend_endpoint_list` -/
def extendEndpointList (d : Dev) (newEpt : U32) : Dev :=
  if d.eptList = 0 then
    { d with eptList := newEpt }.setCtx newEpt { d.ctxs newEpt with nextEpt := 0 }
  else
    { d.setCtx newEpt { d.ctxs newEpt with nextEpt := d.eptList } with eptList := newEpt }

/-- `esp_amp_rpmsg_search_endpoint` -/
def searchEndpoint (fuel : ℕ) (d : Dev) (eptAddr : U16) : Option U32 :=
  if d.eptList = 0 then some 0
  else findFrom d.nextEpt 0 (fun p => (d.ctxs p).addr = eptAddr) fuel d.eptList

/-- `esp_amp_rpmsg_create_endpoint` -/
def createEndpoint (fuel : ℕ) (d : Dev) (eptAddr : U16) (rxCb : Option U32)
    (rxCbData eptCtx : U32) : Option (U32 × Dev) :=
  if eptCtx = 0 then some (0, d)
  else
    (searchEndpoint fuel d eptAddr).map fun p =>
      if p ≠ 0 then (0, d)
      else
        let d := d.setCtx eptCtx
          { d.ctxs eptCtx with addr := eptAddr, rxCb := rxCb, rxCbData := rxCbData }
        (eptCtx, extendEndpointList d eptCtx)

/-- The links that a deletion changes. -/
def unlinkEndpoint (d : Dev) (prevEpt curEpt : U32) : Dev :=
  let d :=
    if prevEpt = 0 then { d with eptList := d.nextEpt curEpt }
    else d.setCtx prevEpt { d.ctxs prevEpt with nextEpt := d.nextEpt curEpt }
  d.setCtx curEpt { d.ctxs curEpt with nextEpt := 0 }

/-- `esp_amp_rpmsg_delete_endpoint` -/
def deleteEndpoint (fuel : ℕ) (d : Dev) (eptAddr : U16) : Option (U32 × Dev) :=
  (findWithPrev d.nextEpt 0 (fun p => (d.ctxs p).addr = eptAddr) fuel 0 d.eptList).map
    fun (prevEpt, curEpt) =>
      if curEpt = 0 then (0, d) else (curEpt, unlinkEndpoint d prevEpt curEpt)

/-- `esp_amp_rpmsg_rebind_endpoint` -/
def rebindEndpoint (fuel : ℕ) (d : Dev) (eptAddr : U16) (rxCb : Option U32) (rxCbData : U32) :
    Option (U32 × Dev) :=
  (searchEndpoint fuel d eptAddr).map fun p =>
    if p = 0 then (0, d)
    else (p, d.setCtx p { d.ctxs p with rxCb := rxCb, rxCbData := rxCbData })

inductive Op where
  | create (eptAddr : U16) (rxCb : Option U32) (rxCbData eptCtx : U32)
  | delete (eptAddr : U16)
  | rebind (eptAddr : U16) (rxCb : Option U32) (rxCbData : U32)
  | search (eptAddr : U16)

def exec (fuel : ℕ) (d : Dev) : Op → Option (U32 × Dev)
  | .create eptAddr rxCb rxCbData eptCtx => createEndpoint fuel d eptAddr rxCb rxCbData eptCtx
  | .delete eptAddr => deleteEndpoint fuel d eptAddr
  | .rebind eptAddr rxCb rxCbData => rebindEndpoint fuel d eptAddr rxCb rxCbData
  | .search eptAddr => (searchEndpoint fuel d eptAddr).map fun p => (p, d)

/-- The context is linked in the list. -/
def InList (d : Dev) (c : U32) : Prop := Reaches d.nextEpt 0 d.eptList c

def Present (d : Dev) (eptAddr : U16) : Prop := ∃ c, InList d c ∧ (d.ctxs c).addr = eptAddr

/-- An endpoint is created with a context that is not linked. -/
def Allowed (d : Dev) : Op → Prop
  | .create _ _ _ eptCtx => ¬ InList d eptCtx
  | _ => True

/-- The context of the last creation of each address that no deletion followed. -/
def record (bound : U16 → Option U32) (ret : U32) : Op → U16 → Option U32
  | .create eptAddr _ _ _ =>
      if ret = 0 then bound else Function.update bound eptAddr (some ret)
  | .delete eptAddr => Function.update bound eptAddr none
  | _ => bound

/-- The states after any calls on a list that was empty, with the contexts that were
created. -/
inductive Reached : Dev → (U16 → Option U32) → Prop
  | start (ctxs : U32 → EptCtx) : Reached ⟨ctxs, 0⟩ fun _ => none
  | step {d d' : Dev} {bound : U16 → Option U32} {op : Op} {ret : U32} (fuel : ℕ)
      (hd : Reached d bound) (hop : Allowed d op) (hexec : exec fuel d op = some (ret, d')) :
      Reached d' (record bound ret op)

/-- The endpoint in a context. -/
def Dev.eptAt (d : Dev) (c : U32) : Ept :=
  ⟨c, (d.ctxs c).addr, (d.ctxs c).rxCb, (d.ctxs c).rxCbData⟩

/-- The contexts of the endpoints are linked in their order, and addresses differ. -/
structure Represents (d : Dev) (l : List Ept) : Prop where
  linked : Linked d.nextEpt 0 d.eptList (l.map Ept.ctx)
  fields : ∀ e ∈ l, d.eptAt e.ctx = e
  addrs : (l.map Ept.addr).Nodup

section Cells
variable {d : Dev} {c c' : U32} {ctx : EptCtx}

@[simp]
theorem setCtx_eptList : (d.setCtx c ctx).eptList = d.eptList := rfl

@[simp]
theorem setCtx_self : (d.setCtx c ctx).ctxs c = ctx := Function.update_self ..

theorem setCtx_of_ne (h : c' ≠ c) : (d.setCtx c ctx).ctxs c' = d.ctxs c' :=
  Function.update_of_ne h ..

end Cells

section Walks
variable {d : Dev} {l l₁ l₂ : List Ept} {e : Ept} {a : U16} {c : U32} {fuel : ℕ}

theorem Represents.inList_iff (h : Represents d l) : InList d c ↔ c ∈ l.map Ept.ctx :=
  h.linked.reaches_iff

theorem Represents.addr_eq (h : Represents d l) (he : e ∈ l) : (d.ctxs e.ctx).addr = e.addr :=
  congrArg Ept.addr (h.fields e he)

theorem Represents.present_iff (h : Represents d l) : Present d a ↔ ∃ e ∈ l, e.addr = a := by
  constructor
  · rintro ⟨c, hc, haddr⟩
    obtain ⟨e, he, rfl⟩ := List.mem_map.mp (h.inList_iff.mp hc)
    exact ⟨e, he, (h.addr_eq he).symm.trans haddr⟩
  · rintro ⟨e, he, haddr⟩
    exact ⟨e.ctx, h.inList_iff.mpr (List.mem_map_of_mem he), (h.addr_eq he).trans haddr⟩

theorem Represents.ctx_ne_zero (h : Represents d l) (he : e ∈ l) : e.ctx ≠ 0 :=
  fun h0 => h.linked.nonnull (h0 ▸ List.mem_map_of_mem he)

theorem searchEndpoint_eq_findFrom (hfuel : 0 < fuel) :
    searchEndpoint fuel d a =
      findFrom d.nextEpt 0 (fun p => (d.ctxs p).addr = a) fuel d.eptList := by
  obtain ⟨fuel, rfl⟩ := Nat.exists_eq_add_one_of_ne_zero (Nat.ne_of_gt hfuel)
  rw [searchEndpoint]
  split_ifs with hhead
  · rw [findFrom, if_pos hhead]
  · rfl

theorem mem_of_mem_others {f : Ept} (hf : f ∈ l₁ ++ l₂) : f ∈ l₁ ++ e :: l₂ :=
  (List.Sublist.append_left (List.sublist_cons_self e l₂) l₁).subset hf

/-- The contexts of a list differ. -/
theorem Represents.ctx_notMem (h : Represents d (l₁ ++ e :: l₂)) :
    e.ctx ∉ (l₁ ++ l₂).map Ept.ctx := by
  have hnodup := h.linked.nodup
  rw [List.map_append, List.map_cons, List.nodup_middle, ← List.map_append] at hnodup
  exact (List.nodup_cons.mp hnodup).1

/-- So do their addresses. -/
theorem Represents.addr_notMem (h : Represents d (l₁ ++ e :: l₂)) :
    e.addr ∉ (l₁ ++ l₂).map Ept.addr := by
  have hnodup := h.addrs
  rw [List.map_append, List.map_cons, List.nodup_middle, ← List.map_append] at hnodup
  exact (List.nodup_cons.mp hnodup).1

/-- A search ends and finds what a search in the represented list finds. -/
theorem searchEndpoint_eq (h : Represents d l) (hfuel : l.length < fuel) :
    searchEndpoint fuel d a = some (((Rpmsg.searchEndpoint l a).map Ept.ctx).getD 0) := by
  have hfind : (l.map Ept.ctx).find? (fun p => (d.ctxs p).addr = a) =
      (Rpmsg.searchEndpoint l a).map Ept.ctx := by
    have hfields := h.fields
    clear h hfuel
    induction l with
    | nil => rfl
    | cons e l ih =>
        have haddr : (d.ctxs e.ctx).addr = e.addr :=
          congrArg Ept.addr (hfields e List.mem_cons_self)
        rw [List.map_cons, List.find?_cons, Rpmsg.searchEndpoint, haddr]
        by_cases ha : e.addr = a
        · simp [ha]
        · simp only [ha, decide_false, if_false]
          exact ih fun e' he' => hfields e' (List.mem_cons_of_mem e he')
  rw [searchEndpoint_eq_findFrom (by omega), findFrom_eq h.linked (by simpa using hfuel), hfind]

theorem search_eq_some_iff (hnodup : (l.map Ept.addr).Nodup) :
    Rpmsg.searchEndpoint l a = some e ↔ e ∈ l ∧ e.addr = a := by
  refine ⟨Rpmsg.addr_of_search, ?_⟩
  rintro ⟨he, rfl⟩
  induction l with
  | nil => cases he
  | cons f l ih =>
      obtain ⟨hf, hl⟩ := List.nodup_cons.mp hnodup
      rw [Rpmsg.searchEndpoint]
      cases he with
      | head => exact if_pos rfl
      | tail _ he =>
          have hfe : f.addr ≠ e.addr := fun hfe => hf (hfe ▸ List.mem_map_of_mem he)
          rw [if_neg hfe]
          exact ih hl he

theorem search_eq_none_iff : Rpmsg.searchEndpoint l a = none ↔ ∀ e ∈ l, e.addr ≠ a := by
  induction l with
  | nil => simp [Rpmsg.searchEndpoint]
  | cons f l ih =>
      rw [Rpmsg.searchEndpoint]
      split_ifs with hf
      · simp [hf]
      · simp [ih, hf]

theorem searchEndpoint_of_absent (h : Represents d l) (hfuel : l.length < fuel)
    (ha : ∀ e ∈ l, e.addr ≠ a) : searchEndpoint fuel d a = some 0 := by
  rw [searchEndpoint_eq h hfuel, search_eq_none_iff.mpr ha]
  rfl

theorem searchEndpoint_of_mem (h : Represents d l) (hfuel : l.length < fuel) (he : e ∈ l) :
    searchEndpoint fuel d e.addr = some e.ctx := by
  rw [searchEndpoint_eq h hfuel, (search_eq_some_iff h.addrs).mpr ⟨he, rfl⟩]
  rfl

end Walks

section Insertion
variable {d : Dev} {l : List Ept} {e : Ept} {c : U32} {fuel : ℕ}

/-- Both branches link the new context in front. -/
theorem extendEndpointList_eq :
    extendEndpointList d c =
      { d.setCtx c { d.ctxs c with nextEpt := d.eptList } with eptList := c } := by
  rw [extendEndpointList]
  split_ifs with h
  · rw [h]
    rfl
  · rfl

/-- The state of a creation that succeeds. -/
def insertEndpoint (d : Dev) (e : Ept) : Dev :=
  { d.setCtx e.ctx ⟨e.rxCb, e.rxCbData, d.eptList, e.addr⟩ with eptList := e.ctx }

theorem createEndpoint_of_absent (h : Represents d l) (hfuel : l.length < fuel) (hctx : e.ctx ≠ 0)
    (ha : ∀ f ∈ l, f.addr ≠ e.addr) :
    createEndpoint fuel d e.addr e.rxCb e.rxCbData e.ctx = some (e.ctx, insertEndpoint d e) := by
  rw [createEndpoint, if_neg hctx, searchEndpoint_of_absent h hfuel ha]
  simp only [Option.map_some, ne_eq, not_true_eq_false, if_false, extendEndpointList_eq]
  simp [insertEndpoint, Dev.setCtx]

theorem createEndpoint_of_mem {f : Ept} (h : Represents d l) (hfuel : l.length < fuel)
    (hf : f ∈ l) (hfe : f.addr = e.addr) :
    createEndpoint fuel d e.addr e.rxCb e.rxCbData e.ctx = some (0, d) := by
  rw [createEndpoint]
  split_ifs with hctx
  · rfl
  · rw [← hfe, searchEndpoint_of_mem h hfuel hf, Option.map_some, if_pos (h.ctx_ne_zero hf)]

theorem Represents.insert (h : Represents d l) (hctx : e.ctx ≠ 0) (hnew : ¬ InList d e.ctx)
    (ha : ∀ f ∈ l, f.addr ≠ e.addr) : Represents (insertEndpoint d e) (e :: l) := by
  rw [h.inList_iff] at hnew
  refine ⟨?_, ?_, ?_⟩
  · refine h.linked.cons hctx hnew ?_ ?_
    · simp [Dev.nextEpt, insertEndpoint]
    · intro c hc
      exact congrArg EptCtx.nextEpt (setCtx_of_ne hc)
  · intro f hf
    cases hf with
    | head => simp [Dev.eptAt, insertEndpoint]
    | tail _ hf =>
        have hne : f.ctx ≠ e.ctx := fun hfe => hnew (hfe ▸ List.mem_map_of_mem hf)
        have hfield := h.fields f hf
        simpa only [Dev.eptAt, insertEndpoint, setCtx_of_ne hne] using hfield
  · refine List.nodup_cons.mpr ⟨?_, h.addrs⟩
    intro hmem
    obtain ⟨f, hf, hfe⟩ := List.mem_map.mp hmem
    exact ha f hf hfe

end Insertion

section Deletion
variable {d : Dev} {l l₁ l₂ : List Ept} {e : Ept} {a : U16} {c p cur : U32} {fuel : ℕ}

theorem unlinkEndpoint_ctxs_of_ne (hc : c ≠ cur) (hp : p ≠ 0 → c ≠ p) :
    (unlinkEndpoint d p cur).ctxs c = d.ctxs c := by
  rw [unlinkEndpoint, setCtx_of_ne hc]
  split_ifs with h0
  · rfl
  · exact setCtx_of_ne (hp h0)

/-- A deletion only changes links, of the context and of the one in front of it. -/
theorem unlinkEndpoint_eptAt : (unlinkEndpoint d p cur).eptAt c = d.eptAt c := by
  have hstep (d : Dev) (p n : U32) :
      (d.setCtx p { d.ctxs p with nextEpt := n }).eptAt c = d.eptAt c := by
    by_cases hc : c = p
    · subst hc
      simp [Dev.eptAt]
    · simp only [Dev.eptAt, setCtx_of_ne hc]
  rw [unlinkEndpoint, hstep]
  split_ifs with h0
  · rfl
  · exact hstep d p (d.nextEpt cur)

theorem unlinkEndpoint_nextEpt_prev (h0 : p ≠ 0) (hp : p ≠ cur) :
    (unlinkEndpoint d p cur).nextEpt p = d.nextEpt cur := by
  rw [unlinkEndpoint, if_neg h0, Dev.nextEpt, setCtx_of_ne hp, setCtx_self]

theorem unlinkEndpoint_eptList_of_ne (h0 : p ≠ 0) :
    (unlinkEndpoint d p cur).eptList = d.eptList := by
  rw [unlinkEndpoint, if_neg h0]
  rfl

/-- The first context is taken out of the list. -/
theorem linked_unlink_head {l : List U32} (h : Linked d.nextEpt 0 d.eptList (cur :: l)) :
    Linked (unlinkEndpoint d 0 cur).nextEpt 0 (unlinkEndpoint d 0 cur).eptList l := by
  have hcur : cur ∉ l := (List.nodup_cons.mp h.nodup).1
  refine ⟨?_, h.tail.nonnull⟩
  refine h.tail.seg.congr fun a ha => congrArg EptCtx.nextEpt (unlinkEndpoint_ctxs_of_ne ?_ ?_)
  · exact ne_of_mem_of_not_mem ha hcur
  · exact absurd rfl

/-- A context with another one in front of it is taken out of the list. -/
theorem linked_unlink_inner {l₁ l₂ : List U32}
    (h : Linked d.nextEpt 0 d.eptList (l₁ ++ p :: cur :: l₂)) :
    Linked (unlinkEndpoint d p cur).nextEpt 0 (unlinkEndpoint d p cur).eptList
      (l₁ ++ p :: l₂) := by
  obtain ⟨-, hback, hsep⟩ := List.nodup_append.mp h.nodup
  obtain ⟨hp, hback⟩ := List.nodup_cons.mp hback
  obtain ⟨hcur, -⟩ := List.nodup_cons.mp hback
  have h0 : p ≠ 0 := fun h0 => h.nonnull (by simp [h0])
  refine ⟨?_, ?_⟩
  · rw [unlinkEndpoint_eptList_of_ne h0]
    refine h.seg.bypass ?_ ?_ ?_
    · exact unlinkEndpoint_nextEpt_prev h0 fun hpc => hp (hpc ▸ List.mem_cons_self)
    · intro a ha
      refine congrArg EptCtx.nextEpt (unlinkEndpoint_ctxs_of_ne ?_ ?_)
      · exact hsep a ha cur (by simp)
      · exact fun _ => hsep a ha p (by simp)
    · intro a ha
      refine congrArg EptCtx.nextEpt (unlinkEndpoint_ctxs_of_ne ?_ ?_)
      · exact ne_of_mem_of_not_mem ha hcur
      · exact fun _ => ne_of_mem_of_not_mem (List.mem_cons_of_mem cur ha) hp
  · intro h0
    refine h.nonnull ?_
    rw [List.mem_append, List.mem_cons] at h0 ⊢
    exact h0.imp_right (Or.imp_right (List.mem_cons_of_mem cur))

theorem Represents.unlink (h : Represents d (l₁ ++ e :: l₂)) :
    Represents (unlinkEndpoint d ((l₁.map Ept.ctx).getLastD 0) e.ctx) (l₁ ++ l₂) := by
  refine ⟨?_, ?_, ?_⟩
  · have hlinked := h.linked
    induction l₁ using List.reverseRecOn with
    | nil => exact linked_unlink_head hlinked
    | append_singleton l₀ f _ =>
        have hlast : ((l₀ ++ [f]).map Ept.ctx).getLastD 0 = f.ctx := by simp
        rw [hlast]
        simp only [List.map_append, List.map_cons, List.append_assoc,
          List.cons_append, List.nil_append] at hlinked ⊢
        exact linked_unlink_inner hlinked
  · intro f hf
    rw [unlinkEndpoint_eptAt]
    exact h.fields f (mem_of_mem_others hf)
  · refine h.addrs.sublist (List.Sublist.map _ ?_)
    exact List.Sublist.append_left (List.sublist_cons_self e l₂) l₁

theorem deleteEndpoint_of_absent (h : Represents d l) (hfuel : l.length < fuel)
    (ha : ∀ e ∈ l, e.addr ≠ a) : deleteEndpoint fuel d a = some (0, d) := by
  have hwalk : findWithPrev d.nextEpt 0 (fun p => (d.ctxs p).addr = a) fuel 0 d.eptList = _ :=
    findWithPrev_of_none 0 h.linked (by simpa using hfuel) ?_
  · rw [deleteEndpoint, hwalk]
    rfl
  · intro c hc
    obtain ⟨e, he, rfl⟩ := List.mem_map.mp hc
    exact decide_eq_false ((h.addr_eq he).symm ▸ ha e he)

theorem deleteEndpoint_of_split (h : Represents d (l₁ ++ e :: l₂)) (hfuel : l₁.length < fuel) :
    deleteEndpoint fuel d e.addr =
      some (e.ctx, unlinkEndpoint d ((l₁.map Ept.ctx).getLastD 0) e.ctx) := by
  have he : e ∈ l₁ ++ e :: l₂ := by simp
  have hlinked := h.linked
  rw [List.map_append, List.map_cons] at hlinked
  have hwalk : findWithPrev d.nextEpt 0 (fun p => (d.ctxs p).addr = e.addr) fuel 0 d.eptList = _ :=
    findWithPrev_of_split 0 hlinked (by simpa using hfuel) ?_ (decide_eq_true (h.addr_eq he))
  · rw [deleteEndpoint, hwalk, Option.map_some]
    exact congrArg some (if_neg (h.ctx_ne_zero he))
  · intro c hc
    obtain ⟨f, hf, rfl⟩ := List.mem_map.mp hc
    have hne : f.addr ≠ e.addr := by
      have haddrs := h.addrs
      rw [List.map_append, List.nodup_append] at haddrs
      exact haddrs.2.2 _ (List.mem_map_of_mem hf) _ (by simp)
    exact decide_eq_false ((h.addr_eq (List.mem_append_left _ hf)).symm ▸ hne)

end Deletion

section Rebinding
variable {d : Dev} {l l₁ l₂ : List Ept} {e : Ept} {a : U16} {fuel : ℕ} {rxCb : Option U32}
  {rxCbData : U32}

theorem rebindEndpoint_of_absent (h : Represents d l) (hfuel : l.length < fuel)
    (ha : ∀ e ∈ l, e.addr ≠ a) : rebindEndpoint fuel d a rxCb rxCbData = some (0, d) := by
  rw [rebindEndpoint, searchEndpoint_of_absent h hfuel ha]
  rfl

theorem rebindEndpoint_of_mem (h : Represents d l) (hfuel : l.length < fuel) (he : e ∈ l) :
    rebindEndpoint fuel d e.addr rxCb rxCbData =
      some (e.ctx,
        d.setCtx e.ctx { d.ctxs e.ctx with rxCb := rxCb, rxCbData := rxCbData }) := by
  rw [rebindEndpoint, searchEndpoint_of_mem h hfuel he, Option.map_some]
  exact congrArg some (if_neg (h.ctx_ne_zero he))

theorem Represents.rebind (h : Represents d (l₁ ++ e :: l₂)) :
    Represents (d.setCtx e.ctx { d.ctxs e.ctx with rxCb := rxCb, rxCbData := rxCbData })
      (l₁ ++ { e with rxCb := rxCb, rxCbData := rxCbData } :: l₂) := by
  have hnext : (d.setCtx e.ctx
      { d.ctxs e.ctx with rxCb := rxCb, rxCbData := rxCbData }).nextEpt = d.nextEpt := by
    funext c
    by_cases hc : c = e.ctx
    · subst hc
      simp [Dev.nextEpt]
    · exact congrArg EptCtx.nextEpt (setCtx_of_ne hc)
  refine ⟨?_, ?_, ?_⟩
  · rw [hnext]
    simpa using h.linked
  · intro f hf
    rw [List.mem_append, List.mem_cons, or_left_comm, ← List.mem_append] at hf
    obtain rfl | hf := hf
    · simp only [Dev.eptAt, setCtx_self]
      rw [h.addr_eq (by simp)]
    · have hne : f.ctx ≠ e.ctx := fun hfe => h.ctx_notMem (hfe ▸ List.mem_map_of_mem hf)
      have hfield := h.fields f (mem_of_mem_others hf)
      simpa only [Dev.eptAt, setCtx_of_ne hne] using hfield
  · simpa using h.addrs

end Rebinding

section Refinement
variable {d : Dev} {l l₁ l₂ : List Ept} {e : Ept} {a : U16} {fuel : ℕ}

/-- The calls on a list of endpoints. -/
def listExec (l : List Ept) : Op → U32 × List Ept
  | .create eptAddr rxCb rxCbData eptCtx => Rpmsg.createEndpoint l eptAddr rxCb rxCbData eptCtx
  | .delete eptAddr => Rpmsg.deleteEndpoint l eptAddr
  | .rebind eptAddr rxCb rxCbData => Rpmsg.rebindEndpoint l eptAddr rxCb rxCbData
  | .search eptAddr => (((Rpmsg.searchEndpoint l eptAddr).map Ept.ctx).getD 0, l)

/-- An endpoint is refused for its null context or for its address, or is put in front. -/
theorem list_createEndpoint_cases (l : List Ept) (e : Ept) :
    ((e.ctx = 0 ∨ ∃ f ∈ l, f.addr = e.addr) ∧
        Rpmsg.createEndpoint l e.addr e.rxCb e.rxCbData e.ctx = (0, l)) ∨
      (e.ctx ≠ 0 ∧ (∀ f ∈ l, f.addr ≠ e.addr) ∧
        Rpmsg.createEndpoint l e.addr e.rxCb e.rxCbData e.ctx = (e.ctx, e :: l)) := by
  rw [Rpmsg.createEndpoint]
  by_cases hctx : e.ctx = 0
  · exact Or.inl ⟨Or.inl hctx, if_pos hctx⟩
  · rw [if_neg hctx]
    cases hfind : Rpmsg.searchEndpoint l e.addr with
    | none => exact Or.inr ⟨hctx, search_eq_none_iff.mp hfind, rfl⟩
    | some f => exact Or.inl ⟨Or.inr ⟨f, Rpmsg.addr_of_search hfind⟩, rfl⟩

theorem list_deleteEndpoint_of_absent (ha : ∀ e ∈ l, e.addr ≠ a) :
    Rpmsg.deleteEndpoint l a = (0, l) := by
  induction l with
  | nil => rfl
  | cons f l ih =>
      rw [Rpmsg.deleteEndpoint, if_neg (ha f List.mem_cons_self),
        ih fun e he => ha e (List.mem_cons_of_mem f he)]

theorem list_deleteEndpoint_of_split (ha : ∀ f ∈ l₁, f.addr ≠ e.addr) :
    Rpmsg.deleteEndpoint (l₁ ++ e :: l₂) e.addr = (e.ctx, l₁ ++ l₂) := by
  induction l₁ with
  | nil => exact if_pos rfl
  | cons f l₁ ih =>
      rw [List.cons_append, Rpmsg.deleteEndpoint, if_neg (ha f List.mem_cons_self),
        ih fun e he => ha e (List.mem_cons_of_mem f he)]
      rfl

theorem list_rebindEndpoint_of_absent {rxCb : Option U32} {rxCbData : U32}
    (ha : ∀ e ∈ l, e.addr ≠ a) : Rpmsg.rebindEndpoint l a rxCb rxCbData = (0, l) := by
  induction l with
  | nil => rfl
  | cons f l ih =>
      rw [Rpmsg.rebindEndpoint, if_neg (ha f List.mem_cons_self),
        ih fun e he => ha e (List.mem_cons_of_mem f he)]

theorem list_rebindEndpoint_of_split {rxCb : Option U32} {rxCbData : U32}
    (ha : ∀ f ∈ l₁, f.addr ≠ e.addr) :
    Rpmsg.rebindEndpoint (l₁ ++ e :: l₂) e.addr rxCb rxCbData =
      (e.ctx, l₁ ++ { e with rxCb := rxCb, rxCbData := rxCbData } :: l₂) := by
  induction l₁ with
  | nil => exact if_pos rfl
  | cons f l₁ ih =>
      rw [List.cons_append, Rpmsg.rebindEndpoint, if_neg (ha f List.mem_cons_self),
        ih fun e he => ha e (List.mem_cons_of_mem f he)]
      rfl

/-- Either no endpoint has the address, or the list is cut at the one that has it. -/
theorem Represents.split (h : Represents d l) (a : U16) :
    (∀ e ∈ l, e.addr ≠ a) ∨
      ∃ l₁ e l₂, l = l₁ ++ e :: l₂ ∧ e.addr = a ∧ ∀ f ∈ l₁, f.addr ≠ e.addr := by
  by_cases ha : ∃ e ∈ l, e.addr = a
  · obtain ⟨e, he, haddr⟩ := ha
    obtain ⟨l₁, l₂, rfl⟩ := List.append_of_mem he
    refine Or.inr ⟨l₁, e, l₂, rfl, haddr, ?_⟩
    intro f hf
    have haddrs := h.addrs
    rw [List.map_append, List.nodup_append] at haddrs
    exact haddrs.2.2 _ (List.mem_map_of_mem hf) _ (by simp)
  · exact Or.inl fun e he haddr => ha ⟨e, he, haddr⟩

end Refinement

/-- The contexts that were created are those of the endpoints in the list. -/
def Tracks (bound : U16 → Option U32) (l : List Ept) : Prop :=
  ∀ a c, bound a = some c ↔ ∃ e ∈ l, e.addr = a ∧ e.ctx = c

/-- What a call answers on a list with the contexts `cs`, and what it changes. -/
def Answers (d : Dev) (cs : List U32) (bound : U16 → Option U32) : Op → U32 → Dev → Prop
  | .create eptAddr rxCb rxCbData eptCtx, ret, d' =>
      (ret = 0 ↔ eptCtx = 0 ∨ Present d eptAddr) ∧ (ret = 0 → d' = d) ∧
        (ret ≠ 0 → ret = eptCtx ∧ Linked d'.nextEpt 0 d'.eptList (eptCtx :: cs) ∧
          d'.eptAt eptCtx = ⟨eptCtx, eptAddr, rxCb, rxCbData⟩ ∧
          ∀ c, c ≠ eptCtx → d'.ctxs c = d.ctxs c)
  | .delete eptAddr, ret, d' =>
      (ret = 0 ↔ ¬ Present d eptAddr) ∧ (ret = 0 → d' = d) ∧
        (ret ≠ 0 → bound eptAddr = some ret ∧
          Linked d'.nextEpt 0 d'.eptList (cs.erase ret) ∧ (∀ c, d'.eptAt c = d.eptAt c) ∧
          ∀ c, c ∉ cs → d'.ctxs c = d.ctxs c)
  | .rebind eptAddr rxCb rxCbData, ret, d' =>
      (ret = 0 ↔ ¬ Present d eptAddr) ∧ (ret = 0 → d' = d) ∧
        (ret ≠ 0 → bound eptAddr = some ret ∧
          d' = d.setCtx ret { d.ctxs ret with rxCb := rxCb, rxCbData := rxCbData })
  | .search eptAddr, ret, d' =>
      d' = d ∧ (ret = 0 ↔ ¬ Present d eptAddr) ∧ (ret ≠ 0 → bound eptAddr = some ret)

section Calls
variable {d : Dev} {l : List Ept} {bound : U16 → Option U32} {fuel : ℕ}

theorem Represents.not_present (h : Represents d l) {a : U16} (ha : ∀ e ∈ l, e.addr ≠ a) :
    ¬ Present d a := by
  rw [h.present_iff]
  rintro ⟨e, he, haddr⟩
  exact ha e he haddr

theorem Represents.found_iff (h : Represents d l) {e : Ept} (he : e ∈ l) :
    e.ctx = 0 ↔ ¬ Present d e.addr := by
  have hpresent : Present d e.addr := h.present_iff.mpr ⟨e, he, rfl⟩
  exact iff_of_false (h.ctx_ne_zero he) (not_not_intro hpresent)

/-- One endpoint of a list apart from the others. -/
theorem exists_mem_middle {l₁ l₂ : List Ept} {e : Ept} {P : Ept → Prop} :
    (∃ f ∈ l₁ ++ e :: l₂, P f) ↔ P e ∨ ∃ f ∈ l₁ ++ l₂, P f := by
  simp only [List.perm_middle.mem_iff]
  exact List.exists_mem_cons_iff ..

theorem Tracks.eq_none (hb : Tracks bound l) {a : U16} (ha : ∀ e ∈ l, e.addr ≠ a) :
    bound a = none := by
  rw [Option.eq_none_iff_forall_ne_some]
  intro c hc
  obtain ⟨e, he, haddr, -⟩ := (hb a c).mp hc
  exact ha e he haddr

/-- With fuel for the whole list the call ends, and its answer, the list it leaves and
the contexts that were created agree with the list functions. -/
def Served (fuel : ℕ) (d : Dev) (l : List Ept) (bound : U16 → Option U32) (op : Op)
    (r : U32 × List Ept) : Prop :=
  ∃ d', exec fuel d op = some (r.1, d') ∧ Represents d' r.2 ∧ Tracks (record bound r.1 op) r.2 ∧
    Answers d (l.map Ept.ctx) bound op r.1 d'

theorem create_refused (h : Represents d l) (hb : Tracks bound l) (hfuel : l.length < fuel)
    (e : Ept) (hwhy : e.ctx = 0 ∨ ∃ f ∈ l, f.addr = e.addr) :
    Served fuel d l bound (.create e.addr e.rxCb e.rxCbData e.ctx) (0, l) := by
  refine ⟨d, ?_, h, hb, ?_⟩
  · obtain hctx | ⟨f, hf, hfe⟩ := hwhy
    · exact if_pos hctx
    · exact createEndpoint_of_mem h hfuel hf hfe
  · simpa [Answers, h.present_iff] using hwhy

theorem create_done (h : Represents d l) (hb : Tracks bound l) (hfuel : l.length < fuel)
    (e : Ept) (hctx : e.ctx ≠ 0) (hnew : ¬ InList d e.ctx) (ha : ∀ f ∈ l, f.addr ≠ e.addr) :
    Served fuel d l bound (.create e.addr e.rxCb e.rxCbData e.ctx) (e.ctx, e :: l) := by
  have hrep := h.insert hctx hnew ha
  refine ⟨insertEndpoint d e, createEndpoint_of_absent h hfuel hctx ha, hrep, ?_, ?_⟩
  · intro a c
    simp only [record, if_neg hctx]
    by_cases hae : a = e.addr
    · subst hae
      have hother : ¬ ∃ f ∈ l, f.addr = e.addr ∧ f.ctx = c := fun ⟨f, hf, hfe, _⟩ => ha f hf hfe
      simp [hother]
    · rw [Function.update_of_ne hae, hb a c]
      simp [Ne.symm hae]
  · have habsent := h.not_present ha
    refine ⟨by simp [habsent], fun h0 => absurd h0 hctx, fun _ => ⟨rfl, hrep.linked, ?_, ?_⟩⟩
    · exact hrep.fields e List.mem_cons_self
    · exact fun c hc => setCtx_of_ne hc

theorem delete_refused (h : Represents d l) (hb : Tracks bound l) (hfuel : l.length < fuel)
    {a : U16} (ha : ∀ e ∈ l, e.addr ≠ a) : Served fuel d l bound (.delete a) (0, l) := by
  refine ⟨d, deleteEndpoint_of_absent h hfuel ha, h, ?_, ?_⟩
  · rw [record, ← hb.eq_none ha, Function.update_eq_self]
    exact hb
  · simp [Answers, h.not_present ha]

theorem delete_done {l₁ l₂ : List Ept} {e : Ept} (h : Represents d (l₁ ++ e :: l₂))
    (hb : Tracks bound (l₁ ++ e :: l₂)) (hfuel : (l₁ ++ e :: l₂).length < fuel) :
    Served fuel d (l₁ ++ e :: l₂) bound (.delete e.addr) (e.ctx, l₁ ++ l₂) := by
  have he : e ∈ l₁ ++ e :: l₂ := by simp
  have hne := h.ctx_ne_zero he
  have hrep := h.unlink
  refine ⟨_, deleteEndpoint_of_split h ?_, hrep, ?_, ?_⟩
  · rw [List.length_append] at hfuel
    omega
  · intro a c
    rw [record]
    by_cases hae : a = e.addr
    · subst hae
      have hother : ¬ ∃ f ∈ l₁ ++ l₂, f.addr = e.addr ∧ f.ctx = c :=
        fun ⟨f, hf, hfe, _⟩ => h.addr_notMem (hfe ▸ List.mem_map_of_mem hf)
      simp only [Function.update_self, reduceCtorEq, hother]
    · rw [Function.update_of_ne hae, hb a c, exists_mem_middle]
      simp [Ne.symm hae]
  · have hbound : bound e.addr = some e.ctx := (hb _ _).mpr ⟨e, he, rfl, rfl⟩
    refine ⟨h.found_iff he, fun h0 => absurd h0 hne, fun _ => ⟨hbound, ?_, ?_, ?_⟩⟩
    · have hfront : e.ctx ∉ l₁.map Ept.ctx :=
        fun hmem => h.ctx_notMem (by rw [List.map_append]; exact List.mem_append_left _ hmem)
      rw [List.map_append, List.map_cons, List.erase_append_right _ hfront, List.erase_cons_head,
        ← List.map_append]
      exact hrep.linked
    · exact fun c => unlinkEndpoint_eptAt
    · intro c hc
      refine unlinkEndpoint_ctxs_of_ne ?_ fun hp => ?_
      · exact fun hce => hc (hce ▸ List.mem_map_of_mem he)
      · have hmem : (l₁.map Ept.ctx).getLastD 0 ∈ l₁.map Ept.ctx :=
          (List.mem_cons.mp List.getLastD_mem_cons).resolve_left hp
        intro hcp
        exact hc (by rw [hcp, List.map_append]; exact List.mem_append_left _ hmem)

theorem rebind_refused (h : Represents d l) (hb : Tracks bound l) (hfuel : l.length < fuel)
    {a : U16} (ha : ∀ e ∈ l, e.addr ≠ a) (rxCb : Option U32) (rxCbData : U32) :
    Served fuel d l bound (.rebind a rxCb rxCbData) (0, l) := by
  refine ⟨d, rebindEndpoint_of_absent h hfuel ha, h, hb, ?_⟩
  simp [Answers, h.not_present ha]

theorem rebind_done {l₁ l₂ : List Ept} {e : Ept} (h : Represents d (l₁ ++ e :: l₂))
    (hb : Tracks bound (l₁ ++ e :: l₂)) (hfuel : (l₁ ++ e :: l₂).length < fuel)
    (rxCb : Option U32) (rxCbData : U32) :
    Served fuel d (l₁ ++ e :: l₂) bound (.rebind e.addr rxCb rxCbData)
      (e.ctx, l₁ ++ { e with rxCb := rxCb, rxCbData := rxCbData } :: l₂) := by
  have he : e ∈ l₁ ++ e :: l₂ := by simp
  have hne := h.ctx_ne_zero he
  refine ⟨_, rebindEndpoint_of_mem h hfuel he, h.rebind, ?_, ?_⟩
  · intro a c
    rw [exists_mem_middle]
    exact (hb a c).trans exists_mem_middle
  · exact ⟨h.found_iff he, fun h0 => absurd h0 hne,
      fun _ => ⟨(hb _ _).mpr ⟨e, he, rfl, rfl⟩, rfl⟩⟩

/-- Every allowed call on a represented list ends and refines the list function. -/
theorem exec_served (h : Represents d l) (hb : Tracks bound l) (hfuel : l.length < fuel) {op : Op}
    (hop : Allowed d op) : Served fuel d l bound op (listExec l op) := by
  cases op with
  | create eptAddr rxCb rxCbData eptCtx =>
      have hlist := list_createEndpoint_cases l ⟨eptCtx, eptAddr, rxCb, rxCbData⟩
      obtain ⟨hwhy, hlist⟩ | ⟨hctx, ha, hlist⟩ := hlist
      · rw [listExec, hlist]
        exact create_refused h hb hfuel ⟨eptCtx, eptAddr, rxCb, rxCbData⟩ hwhy
      · rw [listExec, hlist]
        exact create_done h hb hfuel ⟨eptCtx, eptAddr, rxCb, rxCbData⟩ hctx hop ha
  | delete eptAddr =>
      obtain ha | ⟨l₁, e, l₂, rfl, rfl, hfirst⟩ := h.split eptAddr
      · rw [listExec, list_deleteEndpoint_of_absent ha]
        exact delete_refused h hb hfuel ha
      · rw [listExec, list_deleteEndpoint_of_split hfirst]
        exact delete_done h hb hfuel
  | rebind eptAddr rxCb rxCbData =>
      obtain ha | ⟨l₁, e, l₂, rfl, rfl, hfirst⟩ := h.split eptAddr
      · rw [listExec, list_rebindEndpoint_of_absent ha]
        exact rebind_refused h hb hfuel ha rxCb rxCbData
      · rw [listExec, list_rebindEndpoint_of_split hfirst]
        exact rebind_done h hb hfuel rxCb rxCbData
  | search eptAddr =>
      have hret : exec fuel d (.search eptAddr) = some ((listExec l (.search eptAddr)).1, d) := by
        rw [exec, searchEndpoint_eq h hfuel]
        rfl
      refine ⟨d, hret, h, hb, rfl, ?_⟩
      obtain ha | ⟨l₁, e, l₂, rfl, rfl, -⟩ := h.split eptAddr
      · rw [listExec, search_eq_none_iff.mpr ha]
        simp [h.not_present ha]
      · have he : e ∈ l₁ ++ e :: l₂ := by simp
        rw [listExec, (search_eq_some_iff h.addrs).mpr ⟨he, rfl⟩]
        exact ⟨h.found_iff he, fun _ => (hb _ _).mpr ⟨e, he, rfl, rfl⟩⟩

theorem searchEndpoint_mono {fuel' : ℕ} {a : U16} {p : U32} (hfuel : fuel ≤ fuel')
    (h : searchEndpoint fuel d a = some p) : searchEndpoint fuel' d a = some p := by
  rw [searchEndpoint] at h ⊢
  split_ifs at h ⊢ with hhead
  · exact h
  · exact findFrom_mono hfuel h

/-- A call that has ended does the same with more fuel. -/
theorem exec_mono {fuel' : ℕ} {op : Op} {r : U32 × Dev} (hfuel : fuel ≤ fuel')
    (h : exec fuel d op = some r) : exec fuel' d op = some r := by
  cases op with
  | create eptAddr rxCb rxCbData eptCtx =>
      rw [exec, createEndpoint] at h ⊢
      split_ifs at h ⊢ with hctx
      · exact h
      · obtain ⟨p, hp, hr⟩ := Option.map_eq_some_iff.mp h
        rw [searchEndpoint_mono hfuel hp, Option.map_some, hr]
  | delete eptAddr =>
      obtain ⟨p, hp, hr⟩ := Option.map_eq_some_iff.mp h
      rw [exec, deleteEndpoint, findWithPrev_mono hfuel hp, Option.map_some, hr]
  | rebind eptAddr rxCb rxCbData =>
      obtain ⟨p, hp, hr⟩ := Option.map_eq_some_iff.mp h
      rw [exec, rebindEndpoint, searchEndpoint_mono hfuel hp, Option.map_some, hr]
  | search eptAddr =>
      obtain ⟨p, hp, hr⟩ := Option.map_eq_some_iff.mp h
      rw [exec, searchEndpoint_mono hfuel hp, Option.map_some, hr]

theorem Represents.start (ctxs : U32 → EptCtx) : Represents ⟨ctxs, 0⟩ [] := by
  refine ⟨⟨rfl, List.not_mem_nil⟩, ?_, List.nodup_nil⟩
  intro e he
  cases he

/-- Whatever was called, the chain of contexts represents a list. -/
theorem Reached.represents (hd : Reached d bound) : ∃ l, Represents d l ∧ Tracks bound l := by
  induction hd with
  | start ctxs =>
      refine ⟨[], Represents.start ctxs, ?_⟩
      intro a c
      simp
  | @step d d' bound op ret fuel hd hop hexec ih =>
      obtain ⟨l, hl, hb⟩ := ih
      obtain ⟨d₁, hexec₁, hl₁, hb₁, -⟩ :=
        exec_served hl hb (Nat.lt_of_lt_of_le (Nat.lt_succ_self _) (Nat.le_max_right fuel _)) hop
      have hmore := exec_mono (Nat.le_max_left fuel (l.length + 1)) hexec
      rw [hexec₁] at hmore
      cases hmore
      exact ⟨_, hl₁, hb₁⟩

/-- A new endpoint in front of a represented list. -/
theorem Reached.insert (hd : Reached d bound) (h : Represents d l) (hctx : e.ctx ≠ 0)
    (hfree : e.ctx ∉ l.map Ept.ctx) (ha : ∀ f ∈ l, f.addr ≠ e.addr) :
    Reached (insertEndpoint d e)
        (record bound e.ctx (.create e.addr e.rxCb e.rxCbData e.ctx)) ∧
      Represents (insertEndpoint d e) (e :: l) := by
  have hnew : ¬ InList d e.ctx := by rwa [h.inList_iff]
  have hcreate : exec (l.length + 1) d (.create e.addr e.rxCb e.rxCbData e.ctx) =
      some (e.ctx, insertEndpoint d e) :=
    createEndpoint_of_absent h (Nat.lt_succ_self _) hctx ha
  exact ⟨hd.step _ hnew hcreate, h.insert hctx hnew ha⟩

end Calls

/-- After any calls the list is a finite map from addresses to contexts: it has no
cycle and no address twice, and each call ends with the answer and the change of such
a map. -/
theorem endpoint_list_is_finite_map {d : Dev} {bound : U16 → Option U32} (hd : Reached d bound) :
    ∃ cs : List U32, Linked d.nextEpt 0 d.eptList cs ∧ cs.Nodup ∧
      (cs.map fun c => (d.ctxs c).addr).Nodup ∧
      (∀ a, Present d a ↔ (bound a).isSome) ∧
      ∀ fuel, cs.length < fuel → ∀ op, Allowed d op →
        ∃ ret d', exec fuel d op = some (ret, d') ∧ Answers d cs bound op ret d' := by
  obtain ⟨l, hl, hb⟩ := hd.represents
  refine ⟨l.map Ept.ctx, hl.linked, hl.linked.nodup, ?_, ?_, ?_⟩
  · have haddrs : (l.map Ept.ctx).map (fun c => (d.ctxs c).addr) = l.map Ept.addr := by
      rw [List.map_map]
      exact List.map_congr_left fun e he => hl.addr_eq he
    rw [haddrs]
    exact hl.addrs
  · intro a
    rw [hl.present_iff, Option.isSome_iff_exists]
    constructor
    · rintro ⟨e, he, haddr⟩
      exact ⟨e.ctx, (hb a e.ctx).mpr ⟨e, he, haddr, rfl⟩⟩
    · rintro ⟨c, hc⟩
      obtain ⟨e, he, haddr, -⟩ := (hb a c).mp hc
      exact ⟨e, he, haddr⟩
  · intro fuel hfuel op hop
    obtain ⟨d', hexec, -, -, hanswers⟩ := exec_served hl hb (by simpa using hfuel) hop
    exact ⟨_, d', hexec, hanswers⟩

/-- Three endpoints of a device. -/
def heartbeatEpt : Ept := ⟨16, 7, none, 0⟩

def loggerEpt : Ept := ⟨32, 8, none, 0⟩

def controlEpt : Ept := ⟨48, 9, none, 0⟩

def threeEndpoints : Dev :=
  insertEndpoint (insertEndpoint (insertEndpoint ⟨fun _ => ⟨none, 0, 0, 0⟩, 0⟩ heartbeatEpt)
    loggerEpt) controlEpt

/-- The addresses behind the creation of the three, and behind the deletion of the second. -/
def threeBound : U16 → Option U32 :=
  Function.update (Function.update (Function.update (fun _ => none) 7 (some 16)) 8 (some 32)) 9
    (some 48)

def twoBound : U16 → Option U32 := Function.update threeBound 8 none

/-- The endpoint in the middle is deleted: the others are still found, its address is not. -/
theorem endpoints_found_after_deletion :
    let d := unlinkEndpoint threeEndpoints 48 32
    Reached d twoBound ∧ ∃ fuel, exec fuel d (.search 7) = some (16, d) ∧
      exec fuel d (.search 8) = some (0, d) ∧ exec fuel d (.search 9) = some (48, d) := by
  intro d
  have hstart : Represents ⟨fun _ => ⟨none, 0, 0, 0⟩, 0⟩ [] := Represents.start _
  obtain ⟨hd₁, h₁⟩ := (Reached.start _).insert hstart (e := heartbeatEpt) (by decide) (by decide)
    (by decide)
  obtain ⟨hd₂, h₂⟩ := hd₁.insert h₁ (e := loggerEpt) (by decide) (by decide) (by decide)
  obtain ⟨hd₃, h₃⟩ := hd₂.insert h₂ (e := controlEpt) (by decide) (by decide) (by decide)
  have hsplit : Represents threeEndpoints ([controlEpt] ++ loggerEpt :: [heartbeatEpt]) := h₃
  have hdelete : exec 2 threeEndpoints (.delete 8) = some (32, d) :=
    deleteEndpoint_of_split hsplit (by decide)
  have hallowed : Allowed threeEndpoints (.delete 8) := trivial
  have hd : Reached d twoBound := hd₃.step 2 hallowed hdelete
  refine ⟨hd, ?_⟩
  obtain ⟨cs, -, -, -, hpresent, hcalls⟩ := endpoint_list_is_finite_map hd
  have hsearch (a : U16) : exec (cs.length + 1) d (.search a) = some ((twoBound a).getD 0, d) := by
    obtain ⟨ret, d', hexec, hkeep, hnull, hfound⟩ :=
      hcalls (cs.length + 1) (Nat.lt_succ_self _) (.search a) trivial
    rw [hexec, hkeep]
    by_cases hret : ret = 0
    · have habsent := (hpresent a).not.mp (hnull.mp hret)
      rw [Option.not_isSome_iff_eq_none.mp habsent, hret]
      rfl
    · rw [hfound hret]
      rfl
  exact ⟨cs.length + 1, hsearch 7, hsearch 8, hsearch 9⟩

end EspAmp.RpmsgEndpoints
