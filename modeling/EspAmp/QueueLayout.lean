import EspAmp.QueueTable
import EspAmp.SysInfoFrame
import Mathlib.Data.List.Perm.Basic

/-!
# Where a queue lies in its grants

Each initialization lays its regions out one behind the other from the start of a
grant, so the layout is decided by the total length. The grant has that length
modulo `2 ^ 16`: below this bound every region is inside and all are disjoint,
from the bound on the byte at offset `2 ^ 16 - 1` belongs to a region and to no
grant.
-/
namespace EspAmp.QueueMemory
open ByteMemory ReplyMachine SysInfo Virtqueue

/-- Every byte of a region belongs to the requested bytes of a grant. -/
def Inside (r : U32 × ℕ) (g : Grant) : Prop :=
  ∀ x, Within r.1 r.2 x → Within g.buffer g.size.toNat x

/-- All regions lie inside grants of the call, and they are pairwise disjoint. -/
def Contained (res : InitResult) : Prop :=
  (∀ r ∈ regions res.areas, ∃ g ∈ res.grants, Inside r g.2) ∧
    (regions res.areas).Pairwise fun r t => Apart r.1 r.2 t.1 t.2

/-- A call changes no byte outside of its grants and of the headers of the pools. -/
def LeavesAlone (b : Build) (s : State) (res : InitResult) : Prop :=
  ∀ x, ¬ HeaderByte b.mem s.grants x → (∀ k ∈ res.grants, ¬ k.2.Covers x) → res.mem x = s.mem x

section Blocks
variable {g h : Grant} {ns ks : List ℕ}

/-- The first `2 ^ 16` addresses behind one buffer are outside another grant. -/
def Away (g h : Grant) : Prop :=
  ∀ o < 2 ^ 16, ¬ Within h.buffer h.size.toNat (g.buffer + BitVec.ofNat 32 o)

theorem inside_block (hg : g.size.toNat = ns.sum % 2 ^ 16) (hn : ns.sum < 2 ^ 16)
    {r : U32 × ℕ} (hr : r ∈ consecutive g.buffer 0 ns) : Inside r g := by
  intro x hx
  obtain ⟨k, -, hk, heq⟩ := mem_consecutive hr
  rw [heq] at hx
  refine within_of_offset ?_ hx
  rw [hg, Nat.mod_eq_of_lt hn]
  omega

/-- From `2 ^ 16` bytes on, some region leaves its grant. -/
theorem exists_outside_block (hn : 2 ^ 16 ≤ ns.sum) :
    ∃ r ∈ consecutive g.buffer 0 ns, ¬ Inside r g ∧ ∀ k, Away g k → ¬ Inside r k := by
  obtain ⟨r, hr, hx⟩ := consecutive_cover (a := g.buffer) (Nat.zero_le (2 ^ 16 - 1))
    (show 2 ^ 16 - 1 < 0 + ns.sum by omega)
  refine ⟨r, hr, ?_, ?_⟩
  · intro hin
    have hw := hin _ hx
    have hlt := g.size.isLt
    rw [Within, sub_add_ofNat _ (by decide)] at hw
    omega
  · intro k hk hin
    exact hk _ (by decide) (hin _ hx)

theorem contained_block (hg : g.size.toNat = ns.sum % 2 ^ 16) :
    ((∀ r ∈ consecutive g.buffer 0 ns, Inside r g) ∧
      (consecutive g.buffer 0 ns).Pairwise fun r t => Apart r.1 r.2 t.1 t.2) ↔
      ns.sum < 2 ^ 16 := by
  constructor
  · intro hc
    by_contra hn
    obtain ⟨r, hr, hout, -⟩ := exists_outside_block (g := g) (not_lt.mp hn)
    exact hout (hc.1 r hr)
  · intro hn
    exact ⟨fun r hr => inside_block hg hn hr, consecutive_apart (by omega)⟩

/-- Regions in two grants that are far from each other. -/
theorem contained_blocks (hg : g.size.toNat = ns.sum % 2 ^ 16)
    (hh : h.size.toNat = ks.sum % 2 ^ 16) (hgh : Away g h) (hhg : Away h g) :
    ((∀ r ∈ consecutive g.buffer 0 ns ++ consecutive h.buffer 0 ks, Inside r g ∨ Inside r h) ∧
      (consecutive g.buffer 0 ns ++ consecutive h.buffer 0 ks).Pairwise
        fun r t => Apart r.1 r.2 t.1 t.2) ↔ ns.sum < 2 ^ 16 ∧ ks.sum < 2 ^ 16 := by
  constructor
  · rintro ⟨hin, -⟩
    constructor
    · by_contra hn
      obtain ⟨r, hr, hout, haway⟩ := exists_outside_block (g := g) (not_lt.mp hn)
      rcases hin r (List.mem_append_left _ hr) with h' | h'
      · exact hout h'
      · exact haway h hgh h'
    · by_contra hk
      obtain ⟨r, hr, hout, haway⟩ := exists_outside_block (g := h) (not_lt.mp hk)
      rcases hin r (List.mem_append_right _ hr) with h' | h'
      · exact haway g hhg h'
      · exact hout h'
  · rintro ⟨hn, hk⟩
    refine ⟨fun r hr => ?_, List.pairwise_append.mpr ⟨?_, ?_, ?_⟩⟩
    · rcases List.mem_append.mp hr with hr | hr
      · exact Or.inl (inside_block hg hn hr)
      · exact Or.inr (inside_block hh hk hr)
    · exact consecutive_apart (by omega)
    · exact consecutive_apart (by omega)
    · intro r hr t ht x hx hx'
      have hxg := inside_block hg hn hr x hx
      have hxh := inside_block hh hk ht x hx'
      have heq : g.buffer + BitVec.ofNat 32 (x - g.buffer).toNat = x := by
        rw [BitVec.ofNat_toNat, BitVec.setWidth_eq, BitVec.add_comm, BitVec.sub_add_cancel]
      refine hgh (x - g.buffer).toNat (lt_of_lt_of_le hxg (Nat.le_of_lt g.size.isLt)) ?_
      rw [heq]
      exact hxh

end Blocks

section Grants
variable {b : Build} {s : State} {fuel : ℕ}

/-- A successful call passed its allocation. -/
theorem allocOr_eq {id : U16} {size : U32} {cap : Cap} {fail ok : Int}
    {k : U32 → Memory 32 → Option InitResult} {m : Memory 32} {res : InitResult}
    (hfail : fail ≠ ok) (h : allocOr b fuel m id size cap fail k = some res) (hok : res.ret = ok) :
    ∃ buffer m' res', sysInfoAlloc b.mem fuel m id (size.setWidth 16) cap = some (buffer, m') ∧
      buffer ≠ 0 ∧ k buffer m' = some res' ∧ res'.ret = ok ∧
      res = { res' with grants := (cap, ⟨id, size.setWidth 16, buffer⟩) :: res'.grants } := by
  unfold allocOr at h
  split at h
  · cases h
  · rename_i buffer m' ha
    split_ifs at h with hz
    · obtain rfl := Option.some.inj h
      exact absurd hok hfail
    · obtain ⟨res', hk, rfl⟩ := Option.map_eq_some_iff.mp h
      exact ⟨buffer, m', res', ha, hz, hk, hok, rfl⟩

theorem allocOr_ok {id : U16} {size : U32} {cap : Cap} {fail ok : Int}
    {k : U32 → Memory 32 → Option InitResult} {m : Memory 32} {res : InitResult}
    (hfail : fail ≠ ok) (h : allocOr b fuel m id size cap fail k = some res) (hok : res.ret = ok) :
    ∃ buffer m' res', sysInfoAlloc b.mem fuel m id (size.setWidth 16) cap = some (buffer, m') ∧
      buffer ≠ 0 ∧ k buffer m' = some res' ∧ res'.ret = ok ∧ res.areas = res'.areas ∧
      res.grants = (cap, ⟨id, size.setWidth 16, buffer⟩) :: res'.grants := by
  obtain ⟨buffer, m', res', ha, hz, hk, hret, rfl⟩ := allocOr_eq hfail h hok
  exact ⟨buffer, m', res', ha, hz, hk, hret, rfl, rfl⟩

/-- Grants in the two pools are far from each other. -/
theorem grants_away {id size id' size' : U16} {hp rtc : U32} {m m' : Memory 32}
    (hwf : Wf b.mem s) (h₁ : sysInfoAlloc b.mem fuel s.mem id size .hp = some (hp, m))
    (hz₁ : hp ≠ 0) (h₂ : sysInfoAlloc b.mem fuel m id' size' .rtc = some (rtc, m'))
    (hz₂ : rtc ≠ 0) : Away ⟨id, size, hp⟩ ⟨id', size', rtc⟩ ∧
      Away ⟨id', size', rtc⟩ ⟨id, size, hp⟩ := by
  obtain ⟨p, hp', hpl, hpr⟩ := alloc_bounds hwf h₁ hz₁
  obtain ⟨q, hq', hql, hqr⟩ := alloc_bounds (alloc_wf hwf h₁) h₂ hz₂
  obtain rfl := Option.some.inj hp'
  obtain ⟨hlp, rfl⟩ := pool_rtc hq'
  have hgap := pool_gap hlp
  have hstop := b.mem.rtcPool.stop_le
  have hs₁ := size_le_rounded size
  have hs₂ := size_le_rounded size'
  constructor
  · intro o ho hw
    have hto : (hp + BitVec.ofNat 32 o).toNat = hp.toNat + o := by
      rw [BitVec.toNat_add, BitVec.toNat_ofNat, Nat.mod_eq_of_lt (show o < 2 ^ 32 by omega),
        Nat.mod_eq_of_lt (by omega)]
    rw [within_iff (by simp only; omega), hto] at hw
    simp only at hw
    omega
  · intro o ho hw
    have hto : (rtc + BitVec.ofNat 32 o).toNat = rtc.toNat + o := by
      rw [BitVec.toNat_add, BitVec.toNat_ofNat, Nat.mod_eq_of_lt (show o < 2 ^ 32 by omega),
        Nat.mod_eq_of_lt (by omega)]
    rw [within_iff (by simp only; omega), hto] at hw
    simp only at hw
    omega

end Grants

section Layouts
variable (base rtc : U32) (n k : U16)

theorem descBytes_eq : 8#32 * n.setWidth 32 = BitVec.ofNat 32 (8 * n.toNat) := by
  apply BitVec.eq_of_toNat_eq
  simp

theorem itemBytes_eq : k.setWidth 32 * n.setWidth 32 = BitVec.ofNat 32 (k.toNat * n.toNat) := by
  apply BitVec.eq_of_toNat_eq
  have hk := k.isLt
  have hn := n.isLt
  simp only [BitVec.toNat_mul, BitVec.toNat_setWidth, BitVec.toNat_ofNat]
  rw [Nat.mod_eq_of_lt (show k.toNat < 2 ^ 32 by omega),
    Nat.mod_eq_of_lt (show n.toNat < 2 ^ 32 by omega)]

theorem two_mul_ofNat (a : ℕ) : 2#32 * BitVec.ofNat 32 a = BitVec.ofNat 32 (2 * a) :=
  (BitVec.ofNat_mul 2 a).symm

/-- The item buffers of an area, as consecutive regions. -/
theorem items_eq (c d : U32) (off : ℕ) :
    QueueArea.items ⟨c, d, base + BitVec.ofNat 32 off, n, k⟩ =
      consecutive base off (List.replicate n.toNat k.toNat) := by
  rw [QueueArea.items, consecutive_replicate]
  rfl

theorem regions_queue :
    regions [⟨base, base + 12#32, base + BitVec.ofNat 32 (12 + 8 * n.toNat), n, k⟩] =
      consecutive base 0 (12 :: 8 * n.toNat :: List.replicate n.toNat k.toNat) := by
  simp [regions, QueueArea.confRegion, QueueArea.descRegion, items_eq, consecutive]

theorem regions_queue_sleep :
    (regions [⟨base, rtc, base + 12#32, n, k⟩]).Perm
      (consecutive base 0 (12 :: List.replicate n.toNat k.toNat) ++
        consecutive rtc 0 [8 * n.toNat]) := by
  simp only [regions, QueueArea.confRegion, QueueArea.descRegion, items_eq, consecutive,
    List.map_cons, List.map_nil, List.flatMap_cons, List.flatMap_nil, List.append_nil,
    List.cons_append, List.nil_append, BitVec.add_zero]
  exact List.Perm.cons _ (List.perm_append_singleton _ _).symm

theorem regions_rpmsg :
    regions [⟨base, base + BitVec.ofNat 32 (12 + 12),
          base + BitVec.ofNat 32 (12 + 12 + 8 * n.toNat + 8 * n.toNat), n, k⟩,
        ⟨base + 12#32, base + BitVec.ofNat 32 (12 + 12 + 8 * n.toNat),
          base + BitVec.ofNat 32 (12 + 12 + 8 * n.toNat + 8 * n.toNat + k.toNat * n.toNat), n, k⟩] =
      consecutive base 0 ([12, 12, 8 * n.toNat, 8 * n.toNat] ++
        (List.replicate n.toNat k.toNat ++ List.replicate n.toNat k.toNat)) := by
  rw [consecutive_append, consecutive_append]
  simp only [regions, QueueArea.confRegion, QueueArea.descRegion, items_eq, consecutive,
    List.map_cons, List.map_nil, List.flatMap_cons, List.flatMap_nil, List.append_nil,
    List.cons_append, List.nil_append, BitVec.add_zero, List.sum_cons, List.sum_nil,
    List.sum_replicate_nat, Nat.zero_add, Nat.add_zero, Nat.add_assoc, Nat.mul_comm k.toNat]

theorem regions_rpmsg_sleep :
    (regions [⟨base, rtc, base + BitVec.ofNat 32 (12 + 12 + 8 * n.toNat), n, k⟩,
        ⟨base + 12#32, base + BitVec.ofNat 32 (12 + 12),
          base + BitVec.ofNat 32 (12 + 12 + 8 * n.toNat + k.toNat * n.toNat), n, k⟩]).Perm
      (consecutive base 0 ([12, 12, 8 * n.toNat] ++
          (List.replicate n.toNat k.toNat ++ List.replicate n.toNat k.toNat)) ++
        consecutive rtc 0 [8 * n.toNat]) := by
  rw [consecutive_append, consecutive_append]
  simp only [regions, QueueArea.confRegion, QueueArea.descRegion, items_eq, consecutive,
    List.map_cons, List.map_nil, List.flatMap_cons, List.flatMap_nil, List.append_nil,
    List.cons_append, List.nil_append, BitVec.add_zero, List.sum_cons, List.sum_nil,
    List.sum_replicate_nat, Nat.zero_add, Nat.add_zero, Nat.add_assoc, Nat.mul_comm k.toNat]
  refine List.Perm.cons _ (List.Perm.cons _ ?_)
  exact (List.perm_append_singleton _ (_ :: _)).symm

end Layouts

section Results
variable {res : InitResult} {c d : Cap} {g h : Grant}

theorem contained_iff_of_perm {rs : List (U32 × ℕ)} (hp : (regions res.areas).Perm rs) :
    Contained res ↔ (∀ r ∈ rs, ∃ g ∈ res.grants, Inside r g.2) ∧
      rs.Pairwise fun r t => Apart r.1 r.2 t.1 t.2 := by
  have hpair := hp.pairwise_iff (R := fun r t : U32 × ℕ => Apart r.1 r.2 t.1 t.2)
    (fun hrt => Apart.symm hrt)
  rw [Contained, hpair]
  exact and_congr_left fun _ => forall_congr' fun r => by rw [hp.mem_iff]

theorem contained_one (ns : List ℕ) {size : ℕ} (hsize : ns.sum = size)
    (hg : g.size.toNat = size % 2 ^ 16) (hgr : res.grants = [(c, g)])
    (hr : regions res.areas = consecutive g.buffer 0 ns) : Contained res ↔ size < 2 ^ 16 := by
  subst hsize
  rw [← contained_block hg, Contained, hgr, hr]
  simp

theorem contained_two (ns ks : List ℕ) {size size' : ℕ} (hsize : ns.sum = size)
    (hsize' : ks.sum = size') (hg : g.size.toNat = size % 2 ^ 16)
    (hh : h.size.toNat = size' % 2 ^ 16) (hgr : res.grants = [(c, g), (d, h)])
    (haway : Away g h ∧ Away h g)
    (hr : (regions res.areas).Perm (consecutive g.buffer 0 ns ++ consecutive h.buffer 0 ks)) :
    Contained res ↔ size < 2 ^ 16 ∧ size' < 2 ^ 16 := by
  subst hsize hsize'
  rw [← contained_blocks hg hh haway.1 haway.2, contained_iff_of_perm hr, hgr]
  simp

/-- The truncated parameter keeps the byte count modulo `2 ^ 16`. -/
theorem toNat_truncated {x : U32} {size : ℕ} (h : x = BitVec.ofNat 32 size) :
    (x.setWidth 16).toNat = size % 2 ^ 16 := by
  rw [h, BitVec.toNat_setWidth, BitVec.toNat_ofNat, Nat.mod_mod_of_dvd _ (by decide)]

/-- The areas of a call are initialized one after the other. -/
def initAreas (areas : List QueueArea) (m : Memory 32) : Memory 32 :=
  areas.foldl (fun m a => initBuffer a m) m

theorem initAreas_of_outside {areas : List QueueArea} {m : Memory 32} {x : U32}
    (hap : ∀ a ∈ areas, Apart a.conf 12 a.desc (8 * a.len.toNat))
    (hx : ∀ a ∈ areas, ¬ Within a.conf 12 x ∧ ¬ Within a.desc (8 * a.len.toNat) x) :
    initAreas areas m x = m x := by
  induction areas generalizing m with
  | nil => rfl
  | cons a areas ih =>
      rw [List.forall_mem_cons] at hap hx
      have hout := (initBuffer_spec a m hap.1 fun _ => ⟨0, 0, 0⟩).2.2 x hx.1.1 hx.1.2
      exact (ih hap.2 hx.2).trans hout

/-- Inside its grants, the initialization adds nothing to what its allocations change. -/
theorem leavesAlone_of_contained {b : Build} {s : State} {m : Memory 32} (hc : Contained res)
    (hmem : res.mem = initAreas res.areas m)
    (hm : LeavesAlone b s { res with mem := m }) : LeavesAlone b s res := by
  obtain ⟨hin, hap⟩ := hc
  intro x hheader hgrants
  have hout : ∀ r ∈ regions res.areas, ¬ Within r.1 r.2 x := by
    intro r hr hx
    obtain ⟨g, hg, hrg⟩ := hin r hr
    exact hgrants g hg (.inl (hrg x hx))
  have hconf (a : QueueArea) (ha : a ∈ res.areas) : a.confRegion ∈ regions res.areas :=
    List.mem_append_left _ (List.mem_append_left _ (List.mem_map_of_mem ha))
  have hdesc (a : QueueArea) (ha : a ∈ res.areas) : a.descRegion ∈ regions res.areas :=
    List.mem_append_left _ (List.mem_append_right _ (List.mem_map_of_mem ha))
  rw [hmem, initAreas_of_outside ?_ fun a ha => ⟨hout _ (hconf a ha), hout _ (hdesc a ha)⟩]
  · exact hm x hheader hgrants
  · intro a ha
    have hpair := (List.pairwise_append.mp (List.pairwise_append.mp hap).1).2.2
    exact hpair _ (List.mem_map_of_mem ha) _ (List.mem_map_of_mem ha)

theorem leavesAlone_one {b : Build} {s : State} {fuel : ℕ} {m : Memory 32} (hwf : Wf b.mem s)
    (ha : sysInfoAlloc b.mem fuel s.mem g.id g.size c = some (g.buffer, m))
    (hgr : res.grants = [(c, g)]) : LeavesAlone b s { res with mem := m } := by
  intro x hheader hgrants
  exact alloc_frame hwf ha hheader (hgrants (c, g) (by simp [hgr]))

theorem leavesAlone_two {b : Build} {s : State} {fuel : ℕ} {m m' : Memory 32}
    (hwf : Wf b.mem s) (ha : sysInfoAlloc b.mem fuel s.mem g.id g.size c = some (g.buffer, m))
    (ha' : sysInfoAlloc b.mem fuel m h.id h.size d = some (h.buffer, m'))
    (hgr : res.grants = [(c, g), (d, h)]) : LeavesAlone b s { res with mem := m' } := by
  intro x hheader hgrants
  have hg := hgrants (c, g) (by simp [hgr])
  have hheader' : ¬ HeaderByte b.mem (record s.grants c g) x := fun hx =>
    (headerByte_record hx).elim hheader hg
  have hlast := alloc_frame (alloc_wf hwf ha) ha' hheader' (hgrants (d, h) (by simp [hgr]))
  exact hlast.trans (alloc_frame hwf ha hheader hg)

end Results

/-- The byte counts for which `esp_amp_queue_main_init` asks the allocator. -/
def queueBytes (b : Build) (isMaster : Bool) (len item : ℕ) : List ℕ :=
  if b.lightSleep && isMaster then [12 + item * len, 8 * len]
  else [12 + 8 * len + item * len]

/-- The same for `esp_amp_rpmsg_main_init_by_id`. -/
def rpmsgBytes (b : Build) (len item : ℕ) : List ℕ :=
  if b.lightSleep then [2 * (12 + item * len) + 8 * len, 8 * len]
  else [2 * (12 + 8 * len + item * len)]

section Main
variable {b : Build} {s : State} {fuel : ℕ} {queueLen queueItemSize id : U16} {res : InitResult}

theorem queueMainInit_contained (hwf : Wf b.mem s) {cbFunc : Option QueueCb} {privData : U32}
    {isMaster : Bool} (hres : queueMainInit b fuel s.mem queueLen queueItemSize cbFunc privData
      isMaster id = some res) (hok : res.ret = espOk) :
    Contained res ↔ ∀ size ∈ queueBytes b isMaster (getPowerLen b.clzZero queueLen).toNat
      (getAlignedSize queueItemSize).toNat, size < 2 ^ 16 := by
  unfold queueMainInit at hres
  unfold queueBytes
  generalize getPowerLen b.clzZero queueLen = n at *
  generalize getAlignedSize queueItemSize = k at *
  simp only [descBytes_eq, itemBytes_eq, BitVec.add_assoc, ← BitVec.ofNat_add] at hres
  split_ifs at hres with hz hls
  · obtain rfl := Option.some.inj hres
    exact absurd hok (show espErrInvalidArg ≠ espOk by decide)
  · obtain ⟨hp, m₁, r₁, ha₁, hz₁, hk₁, hok₁, hareas₁, hgr₁⟩ := allocOr_ok (by decide) hres hok
    obtain ⟨rtc, m₂, r₂, ha₂, hz₂, hk₂, hok₂, hareas₂, hgr₂⟩ := allocOr_ok (by decide) hk₁ hok₁
    obtain rfl := Option.some.inj hk₂
    have hperm := (List.Perm.of_eq (congrArg regions (hareas₁.trans hareas₂))).trans
      (regions_queue_sleep hp rtc n k)
    rw [if_pos hls, contained_two _ _ (by simp [Nat.mul_comm]) (by simp) (toNat_truncated rfl)
      (toNat_truncated rfl) (hgr₁.trans (congrArg _ hgr₂)) (grants_away hwf ha₁ hz₁ ha₂ hz₂) hperm]
    simp
  · obtain ⟨vq, m₁, r₁, ha₁, hz₁, hk₁, hok₁, hareas₁, hgr₁⟩ := allocOr_ok (by decide) hres hok
    obtain rfl := Option.some.inj hk₁
    have hregions := (congrArg regions hareas₁).trans (regions_queue vq n k)
    rw [if_neg hls, contained_one _ (by simp [Nat.mul_comm, Nat.add_assoc])
      (toNat_truncated rfl) hgr₁ hregions]
    simp

theorem rpmsgMainInitById_contained (hwf : Wf b.mem s) {rpmsgDev : U32} {notify poll : Bool}
    (hres : rpmsgMainInitById b fuel s.mem rpmsgDev queueLen queueItemSize notify poll id =
      some res) (hok : res.ret = 0) :
    Contained res ↔ ∀ size ∈ rpmsgBytes b (getPowerLen b.clzZero queueLen).toNat
      (getAlignedSize queueItemSize).toNat, size < 2 ^ 16 := by
  unfold rpmsgMainInitById at hres
  unfold rpmsgBytes
  generalize getPowerLen b.clzZero queueLen = n at *
  generalize getAlignedSize queueItemSize = k at *
  simp only [descBytes_eq, itemBytes_eq, BitVec.add_assoc, ← BitVec.ofNat_add,
    two_mul_ofNat] at hres
  split_ifs at hres with hz hls
  · obtain rfl := Option.some.inj hres
    exact absurd hok (show (-1 : Int) ≠ 0 by decide)
  · obtain ⟨hp, m₁, r₁, ha₁, hz₁, hk₁, hok₁, hareas₁, hgr₁⟩ := allocOr_ok (by decide) hres hok
    obtain ⟨rtc, m₂, r₂, ha₂, hz₂, hk₂, hok₂, hareas₂, hgr₂⟩ := allocOr_ok (by decide) hk₁ hok₁
    obtain rfl := Option.some.inj hk₂
    have hperm := (List.Perm.of_eq (congrArg regions (hareas₁.trans hareas₂))).trans
      (regions_rpmsg_sleep hp rtc n k)
    rw [if_pos hls, contained_two _ _ _ (by simp) (toNat_truncated rfl)
      (toNat_truncated rfl) (hgr₁.trans (congrArg _ hgr₂)) (grants_away hwf ha₁ hz₁ ha₂ hz₂) hperm]
    · simp
    · simp only [List.sum_append, List.sum_cons, List.sum_nil, List.sum_replicate_nat]
      ring
  · obtain ⟨vq, m₁, r₁, ha₁, hz₁, hk₁, hok₁, hareas₁, hgr₁⟩ := allocOr_ok (by decide) hres hok
    obtain rfl := Option.some.inj hk₁
    have hregions := (congrArg regions hareas₁).trans (regions_rpmsg vq n k)
    rw [if_neg hls, contained_one _ _ (toNat_truncated rfl) hgr₁ hregions]
    · simp
    · simp only [List.sum_append, List.sum_cons, List.sum_nil, List.sum_replicate_nat]
      ring

theorem queueMainInit_leavesAlone (hwf : Wf b.mem s) {cbFunc : Option QueueCb} {privData : U32}
    {isMaster : Bool} (hres : queueMainInit b fuel s.mem queueLen queueItemSize cbFunc privData
      isMaster id = some res) (hok : res.ret = espOk) (hc : Contained res) :
    LeavesAlone b s res := by
  unfold queueMainInit at hres
  simp only at hres
  split_ifs at hres with hz hls
  · obtain rfl := Option.some.inj hres
    exact fun _ _ _ => rfl
  · obtain ⟨hp, m₁, r₁, ha₁, hz₁, hk₁, hok₁, rfl⟩ := allocOr_eq (by decide) hres hok
    obtain ⟨rtc, m₂, r₂, ha₂, hz₂, hk₂, hok₂, rfl⟩ := allocOr_eq (by decide) hk₁ hok₁
    obtain rfl := Option.some.inj hk₂
    exact leavesAlone_of_contained hc rfl (leavesAlone_two hwf ha₁ ha₂ rfl)
  · obtain ⟨vq, m₁, r₁, ha₁, hz₁, hk₁, hok₁, rfl⟩ := allocOr_eq (by decide) hres hok
    obtain rfl := Option.some.inj hk₁
    exact leavesAlone_of_contained hc rfl (leavesAlone_one hwf ha₁ rfl)

theorem rpmsgMainInitById_leavesAlone (hwf : Wf b.mem s) {rpmsgDev : U32} {notify poll : Bool}
    (hres : rpmsgMainInitById b fuel s.mem rpmsgDev queueLen queueItemSize notify poll id =
      some res) (hok : res.ret = 0) (hc : Contained res) : LeavesAlone b s res := by
  unfold rpmsgMainInitById at hres
  simp only at hres
  split_ifs at hres with hz hls
  · obtain rfl := Option.some.inj hres
    exact fun _ _ _ => rfl
  · obtain ⟨hp, m₁, r₁, ha₁, hz₁, hk₁, hok₁, rfl⟩ := allocOr_eq (by decide) hres hok
    obtain ⟨rtc, m₂, r₂, ha₂, hz₂, hk₂, hok₂, rfl⟩ := allocOr_eq (by decide) hk₁ hok₁
    obtain rfl := Option.some.inj hk₂
    exact leavesAlone_of_contained hc rfl (leavesAlone_two hwf ha₁ ha₂ rfl)
  · obtain ⟨vq, m₁, r₁, ha₁, hz₁, hk₁, hok₁, rfl⟩ := allocOr_eq (by decide) hres hok
    obtain rfl := Option.some.inj hk₁
    exact leavesAlone_of_contained hc rfl (leavesAlone_one hwf ha₁ rfl)

end Main

/-- In every state of the pools, a successful initialization keeps its config
structs, descriptor tables and item buffers disjoint and inside its grants exactly
when each byte count it asked for fits the sixteen-bit size parameter. It then changes no
byte outside of its grants and of the headers of the pools. -/
theorem queue_memory_contained_iff (b : Build) (m : Memory 32) (ls : List Label) (s : State)
    (hrun : Run (Step b.mem) (State.start b.mem m) ls s) (fuel : ℕ)
    (queueLen queueItemSize id : U16) (res : InitResult) :
    (∀ cbFunc privData isMaster,
      queueMainInit b fuel s.mem queueLen queueItemSize cbFunc privData isMaster id = some res →
      res.ret = espOk →
      (Contained res ↔ ∀ size ∈ queueBytes b isMaster (getPowerLen b.clzZero queueLen).toNat
        (getAlignedSize queueItemSize).toNat, size < 2 ^ 16) ∧
      (Contained res → LeavesAlone b s res)) ∧
    ∀ rpmsgDev notify poll,
      rpmsgMainInitById b fuel s.mem rpmsgDev queueLen queueItemSize notify poll id = some res →
      res.ret = 0 →
      (Contained res ↔ ∀ size ∈ rpmsgBytes b (getPowerLen b.clzZero queueLen).toNat
        (getAlignedSize queueItemSize).toNat, size < 2 ^ 16) ∧
      (Contained res → LeavesAlone b s res) := by
  have hwf := run_wf hrun
  constructor
  · intro cbFunc privData isMaster hres hok
    exact ⟨queueMainInit_contained hwf hres hok, queueMainInit_leavesAlone hwf hres hok⟩
  · intro rpmsgDev notify poll hres hok
    exact ⟨rpmsgMainInitById_contained hwf hres hok, rpmsgMainInitById_leavesAlone hwf hres hok⟩

/-- ESP32-C6 without light sleep. -/
def c6Build : Build := ⟨c6Defaults, false, 32⟩

/-- A queue of four items of sixteen bytes fits. -/
theorem four_items_contained : ∃ res,
    queueMainInit c6Build 1 (State.start c6Defaults fun _ => 0).mem 4 16 none 0 true 3 =
      some res ∧ res.ret = espOk ∧ Contained res ∧
      LeavesAlone c6Build (State.start c6Defaults fun _ => 0) res := by
  obtain ⟨res, hres, hok⟩ : ∃ res, queueMainInit c6Build 1
      (State.start c6Defaults fun _ => 0).mem 4 16 none 0 true 3 = some res ∧
      res.ret = espOk := ⟨_, rfl, rfl⟩
  obtain ⟨hiff, hleft⟩ := (queue_memory_contained_iff c6Build _ [] _ (.done _) 1 4 16 3 res).1
    none 0 true hres hok
  have hc : Contained res := hiff.mpr (by decide)
  exact ⟨res, hres, hok, hc, hleft hc⟩

/-- A queue of 256 items of 252 bytes needs 66572 bytes and is granted 1036. -/
theorem long_queue_leaves_grant : ∃ res,
    queueMainInit c6Build 1 (State.start c6Defaults fun _ => 0).mem 256 252 none 0 true 3 =
      some res ∧ res.ret = espOk ∧ ¬ Contained res := by
  obtain ⟨res, hres, hok⟩ : ∃ res, queueMainInit c6Build 1
      (State.start c6Defaults fun _ => 0).mem 256 252 none 0 true 3 = some res ∧
      res.ret = espOk := ⟨_, rfl, rfl⟩
  have hiff := queueMainInit_contained (b := c6Build) (start_wf c6Defaults _) hres hok
  exact ⟨res, hres, hok, fun h => absurd (hiff.mp h) (by decide)⟩

end EspAmp.QueueMemory
