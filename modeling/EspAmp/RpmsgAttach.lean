import EspAmp.QueueCalls
import EspAmp.QueueLayout
import Mathlib.Order.Bounds.Basic

/-!
# The subcore attaches to the queues of the main core

`esp_amp_rpmsg_sub_init_by_id` finds the buffer of the main core by its id and reads
the two config structs at its start, with the roles exchanged. The main core may
have used its sending queue in the meantime. Either layout keeps the config structs,
the tables and the data areas apart, so what the subcore reads is what the main core
has written, and each pair of handles is a state of one virtqueue.
-/
namespace EspAmp.RpmsgAttach
open ByteMemory ReplyMachine SysInfo Virtqueue VirtqueueFifo QueueMemory

/-- `esp_amp_rpmsg_sub_init_by_id`: return value and the two handles, sending queue
first. -/
def rpmsgSubInitById (cfg : MemConfig) (fuel : ℕ) (m : Memory 32) (rpmsgDev : U32)
    (notify poll : Bool) (sysinfoId : U16) : Option (Int × List Queue) :=
  (sysInfoGet cfg fuel m sysinfoId .hp).map fun info =>
    match info with
    | none => (-1, [])
    | some (vqBuffer, _) =>
        (0, [queueCreate (confAt m (vqBuffer + 12#32)) (if notify then some rpmsgTxNotify else none)
              rpmsgDev true,
            queueCreate (confAt m vqBuffer) (if poll then none else some rpmsgRxCallback) rpmsgDev
              false])

section Sizes

/-- `get_aligned_size` rounds up to words. -/
theorem getAlignedSize_isLeast {size : U16} (h : getAlignedSize size ≠ 0) :
    IsLeast {n | 4 ∣ n ∧ size.toNat ≤ n} (getAlignedSize size).toNat := by
  have hlt := size.isLt
  have hword : (getSizeWord size).toNat = (size.toNat + 3) / 4 := toNat_getSizeWord size
  have heq : getAlignedSize size = getSizeWord size <<< 2 := rfl
  have htoNat : (getAlignedSize size).toNat = 4 * ((size.toNat + 3) / 4) % 2 ^ 16 := by
    rw [heq, BitVec.toNat_shiftLeft, hword, Nat.shiftLeft_eq, Nat.mul_comm]
  have hne : (getAlignedSize size).toNat ≠ 0 := fun hz => h (BitVec.eq_of_toNat_eq hz)
  have hexact : (getAlignedSize size).toNat = 4 * ((size.toNat + 3) / 4) := by omega
  rw [hexact]
  refine ⟨⟨Nat.dvd_mul_right _ _, by omega⟩, ?_⟩
  rintro n ⟨⟨k, rfl⟩, hle⟩
  omega

/-- The number of significant bits, by `__builtin_clz`. -/
theorem builtinClz_bits (x : U32) : x.toNat < 2 ^ (32 - builtinClz 32 x) ∧
    ∀ j, x.toNat < 2 ^ j → 32 - builtinClz 32 x ≤ j := by
  unfold builtinClz
  by_cases hx : x = 0
  · subst hx
    exact ⟨by decide, fun j _ => Nat.zero_le j⟩
  · rw [if_neg hx]
    have hlow := BitVec.two_pow_sub_clz_le_toNat_of_ne_zero (by decide) hx
    refine ⟨BitVec.toNat_lt_two_pow_sub_clz, fun j hj => ?_⟩
    have hlt : 32 - 1 - x.clz.toNat < j :=
      (Nat.pow_lt_pow_iff_right (show 1 < 2 by decide)).mp (hlow.trans_lt hj)
    omega

/-- `get_power_len` is a power of two. -/
theorem getPowerLen_eq {len : U16} (h : getPowerLen 32 len ≠ 0) :
    ∃ k ≤ 15, (getPowerLen 32 len).toNat = 2 ^ k ∧ len.toNat ≤ 2 ^ k ∧
      ∀ j, len.toNat ≤ 2 ^ j → k ≤ j := by
  unfold getPowerLen at h ⊢
  split_ifs at h ⊢ with hlen
  · exact absurd rfl h
  · obtain ⟨hne, hmax⟩ := not_or.mp hlen
    have hpos : 0 < len.toNat := by bv_omega
    have hle : len.toNat ≤ 2 ^ 15 := by bv_omega
    have hx : ((len - 1).setWidth 32).toNat = len.toNat - 1 := by bv_omega
    obtain ⟨hlt, hleast⟩ := builtinClz_bits ((len - 1).setWidth 32)
    rw [hx] at hlt hleast
    have hk := hleast 15 (by omega)
    refine ⟨_, hk, ?_, by omega, fun j hj => hleast j (by omega)⟩
    have hpow := Nat.pow_le_pow_right (show 0 < 2 by decide) hk
    simp only [BitVec.toNat_setWidth, BitVec.toNat_shiftLeft, Nat.shiftLeft_eq]
    rw [show (1#32).toNat = 1 from rfl, Nat.one_mul, Nat.mod_mod_of_dvd _ (by decide),
      Nat.mod_eq_of_lt (by omega)]

theorem getPowerLen_isLeast {len : U16} (h : getPowerLen 32 len ≠ 0) :
    IsLeast {n | (∃ k, n = 2 ^ k) ∧ len.toNat ≤ n} (getPowerLen 32 len).toNat := by
  obtain ⟨k, -, heq, hle, hleast⟩ := getPowerLen_eq h
  rw [heq]
  refine ⟨⟨⟨k, rfl⟩, hle⟩, ?_⟩
  rintro n ⟨⟨j, rfl⟩, hj⟩
  exact Nat.pow_le_pow_right (by decide) (hleast j hj)

end Sizes

/-- The item buffers of an area as one region. -/
def dataRegion (a : QueueArea) : U32 × ℕ := (a.buffer, a.len.toNat * a.itemSize.toNat)

section Areas
variable {a tx rx : QueueArea} {x : U32}

theorem within_dataRegion (h : Within (dataRegion a).1 (dataRegion a).2 x) :
    ∃ r ∈ a.items, Within r.1 r.2 x := by
  have hitems := items_eq a.buffer a.len a.itemSize a.conf a.desc 0
  have hsum : (List.replicate a.len.toNat a.itemSize.toNat).sum =
      a.len.toNat * a.itemSize.toNat := List.sum_replicate_nat ..
  obtain ⟨r, hr, hw⟩ := consecutive_cover (a := a.buffer) (Nat.zero_le (x - a.buffer).toNat)
    (show _ < 0 + (List.replicate a.len.toNat a.itemSize.toNat).sum by
      rw [hsum, Nat.zero_add]
      exact h)
  have hx : a.buffer + BitVec.ofNat 32 (x - a.buffer).toNat = x := by
    rw [BitVec.ofNat_toNat, BitVec.setWidth_eq, BitVec.add_comm, BitVec.sub_add_cancel]
  rw [hx] at hw
  rw [show a.buffer + BitVec.ofNat 32 0 = a.buffer from BitVec.add_zero _] at hitems
  exact ⟨r, hitems ▸ hr, hw⟩

/-- The six regions of two areas. -/
def areaRegions (tx rx : QueueArea) : List (U32 × ℕ) :=
  [tx.confRegion, rx.confRegion, tx.descRegion, rx.descRegion, dataRegion tx, dataRegion rx]

/-- A byte of one of the six regions belongs to a region of the layout. -/
theorem areaRegions_cover {r : U32 × ℕ} (hr : r ∈ areaRegions tx rx) (h : Within r.1 r.2 x) :
    ∃ t ∈ QueueMemory.regions [tx, rx], Within t.1 t.2 x := by
  have hmem : ∀ t, t ∈ QueueMemory.regions [tx, rx] ↔ t = tx.confRegion ∨ t = rx.confRegion ∨
      t = tx.descRegion ∨ t = rx.descRegion ∨ t ∈ tx.items ∨ t ∈ rx.items := by
    simp [QueueMemory.regions]
  simp only [areaRegions, List.mem_cons, List.not_mem_nil, or_false] at hr
  rcases hr with rfl | rfl | rfl | rfl | rfl | rfl
  · exact ⟨_, (hmem _).mpr (by simp), h⟩
  · exact ⟨_, (hmem _).mpr (by simp), h⟩
  · exact ⟨_, (hmem _).mpr (by simp), h⟩
  · exact ⟨_, (hmem _).mpr (by simp), h⟩
  · obtain ⟨t, ht, hw⟩ := within_dataRegion h
    exact ⟨t, (hmem t).mpr (by simp [ht]), hw⟩
  · obtain ⟨t, ht, hw⟩ := within_dataRegion h
    exact ⟨t, (hmem t).mpr (by simp [ht]), hw⟩

theorem areaRegions_apart
    (h : (QueueMemory.regions [tx, rx]).Pairwise fun r t => Apart r.1 r.2 t.1 t.2) :
    (areaRegions tx rx).Pairwise fun r t => Apart r.1 r.2 t.1 t.2 := by
  simp only [QueueMemory.regions, List.map_cons, List.map_nil, List.flatMap_cons,
    List.flatMap_nil, List.append_nil, List.cons_append, List.nil_append, List.pairwise_cons,
    List.mem_cons, List.mem_append, forall_eq_or_imp, List.pairwise_append] at h
  obtain ⟨⟨h₁₂, h₁₃, h₁₄, h₁⟩, ⟨h₂₃, h₂₄, h₂⟩, ⟨h₃₄, h₃⟩, h₄, -, -, h₅⟩ := h
  have hdata : ∀ {r : U32 × ℕ} {b : QueueArea}, (∀ t ∈ b.items, Apart r.1 r.2 t.1 t.2) →
      Apart r.1 r.2 (dataRegion b).1 (dataRegion b).2 := by
    intro r b hr y hy hyb
    obtain ⟨t, ht, hw⟩ := within_dataRegion hyb
    exact hr t ht y hy hw
  simp only [areaRegions, List.pairwise_cons, List.mem_cons, forall_eq_or_imp,
    List.not_mem_nil, false_imp_iff, implies_true, and_true, List.Pairwise.nil]
  refine ⟨⟨h₁₂, h₁₃, h₁₄, hdata fun t ht => h₁ t (.inl ht), hdata fun t ht => h₁ t (.inr ht)⟩,
    ⟨h₂₃, h₂₄, hdata fun t ht => h₂ t (.inl ht), hdata fun t ht => h₂ t (.inr ht)⟩,
    ⟨h₃₄, hdata fun t ht => h₃ t (.inl ht), hdata fun t ht => h₃ t (.inr ht)⟩,
    ⟨hdata fun t ht => h₄ t (.inl ht), hdata fun t ht => h₄ t (.inr ht)⟩, ?_⟩
  refine (hdata fun t ht => Apart.symm (hdata fun t' ht' => ?_))
  exact (h₅ t' ht' t ht).symm

end Areas

/-- What a successful initialization of the main core leaves behind: two areas in the
layout, on top of a memory in which the grant that starts with their config structs is
the last one of the HP pool. -/
structure Placed (b : Build) (s : State) (id len item : U16) (res : InitResult)
    (tx rx : QueueArea) (g : Grant) (m : Memory 32) : Prop where
  areas : res.areas = [tx, rx]
  mem : res.mem = initBuffer rx (initBuffer tx m)
  lens : tx.len = len ∧ rx.len = len
  itemSizes : tx.itemSize = item ∧ rx.itemSize = item
  confs : tx.conf = g.buffer ∧ rx.conf = g.buffer + 12#32
  id_eq : g.id = id
  pool : PoolInv b.mem.hpPool m (s.grants .hp ++ [g])
  inside : ∀ x : U32, x.toNat < b.mem.hpPool.stop → ∀ r ∈ areaRegions tx rx, Within r.1 r.2 x →
    Within g.buffer g.size.toNat x
  apart : (areaRegions tx rx).Pairwise fun r t => Apart r.1 r.2 t.1 t.2

section Init
variable {b : Build} {s : State} {fuel : ℕ} {m : Memory 32} {id size : U16} {r : U32}

/-- No byte of a grant in the RTC pool lies in the HP pool. -/
theorem alloc_rtc_above (hwf : Wf b.mem s)
    (ha : sysInfoAlloc b.mem fuel s.mem id size .rtc = some (r, m)) (hr : r ≠ 0) {x : U32}
    (hx : Within r size.toNat x) : b.mem.hpPool.stop ≤ x.toNat := by
  obtain ⟨p, hp, hlow, hhigh⟩ := alloc_bounds hwf ha hr
  have hstop := p.stop_le
  have hsize := size_le_rounded size
  rw [within_iff (by omega)] at hx
  obtain ⟨hlp, rfl⟩ := pool_rtc hp
  have hgap := pool_gap hlp
  omega

/-- What lies in the grants and below a bound lies in the only grant below it. -/
theorem within_grant {tx rx : QueueArea} {grants : List (Cap × Grant)} {g : Grant} {stop : ℕ}
    (hin : ∀ t ∈ QueueMemory.regions [tx, rx], ∃ k ∈ grants, Inside t k.2)
    (hg : ∀ k ∈ grants, k.2 = g ∨
      ∀ x : U32, Within k.2.buffer k.2.size.toNat x → stop ≤ x.toNat)
    (x : U32) (hx : x.toNat < stop) (t : U32 × ℕ) (ht : t ∈ areaRegions tx rx)
    (hw : Within t.1 t.2 x) : Within g.buffer g.size.toNat x := by
  obtain ⟨t', ht', hw'⟩ := areaRegions_cover ht hw
  obtain ⟨k, hk, hkt⟩ := hin t' ht'
  rcases hg k hk with rfl | habove
  · exact hkt x hw'
  · have := habove x (hkt x hw')
    omega

/-- In either layout a successful call has placed its two areas. -/
theorem rpmsgMainInitById_placed (hwf : Wf b.mem s) {rpmsgDev : U32} {queueLen queueItemSize : U16}
    {notify poll : Bool} {res : InitResult}
    (hres : rpmsgMainInitById b fuel s.mem rpmsgDev queueLen queueItemSize notify poll id =
      some res) (hok : res.ret = 0)
    (hsize : ∀ size ∈ rpmsgBytes b (getPowerLen b.clzZero queueLen).toNat
      (getAlignedSize queueItemSize).toNat, size < 2 ^ 16) :
    getPowerLen b.clzZero queueLen ≠ 0 ∧ getAlignedSize queueItemSize ≠ 0 ∧
      ∃ tx rx g m, Placed b s id (getPowerLen b.clzZero queueLen) (getAlignedSize queueItemSize)
        res tx rx g m ∧ res.queues = (finishRpmsg tx rx notify poll rpmsgDev m).queues := by
  obtain ⟨hin, hap⟩ := (rpmsgMainInitById_contained hwf hres hok).mpr hsize
  unfold rpmsgMainInitById at hres
  simp only at hres
  split_ifs at hres with hz hls
  · obtain rfl := Option.some.inj hres
    exact absurd hok (show (-1 : Int) ≠ 0 by decide)
  · obtain ⟨hp, m₁, r₁, ha₁, hz₁, hk₁, hok₁, rfl⟩ := allocOr_eq (by decide) hres hok
    obtain ⟨rtc, m₂, r₂, ha₂, hz₂, hk₂, hok₂, rfl⟩ := allocOr_eq (by decide) hk₁ hok₁
    obtain rfl := Option.some.inj hk₂
    obtain ⟨hlen, hitem⟩ := not_or.mp hz
    have hwf₁ := alloc_wf hwf ha₁
    have hpool := alloc_wf hwf₁ ha₂ .hp _ rfl
    dsimp only at hpool
    rw [record_other _ (by decide), record_same hz₁] at hpool
    refine ⟨hlen, hitem, _, _, _, _, ⟨rfl, rfl, ⟨rfl, rfl⟩, ⟨rfl, rfl⟩, ⟨rfl, rfl⟩, rfl, hpool,
      within_grant hin ?_, areaRegions_apart hap⟩, rfl⟩
    intro k hk
    simp only [finishRpmsg, List.mem_cons, List.not_mem_nil, or_false] at hk
    rcases hk with rfl | rfl
    · exact Or.inl rfl
    · exact Or.inr fun x hx => alloc_rtc_above hwf₁ ha₂ hz₂ hx
  · obtain ⟨vq, m₁, r₁, ha₁, hz₁, hk₁, hok₁, rfl⟩ := allocOr_eq (by decide) hres hok
    obtain rfl := Option.some.inj hk₁
    obtain ⟨hlen, hitem⟩ := not_or.mp hz
    have hpool := alloc_wf hwf ha₁ .hp _ rfl
    dsimp only at hpool
    rw [record_same hz₁] at hpool
    refine ⟨hlen, hitem, _, _, _, _, ⟨rfl, rfl, ⟨rfl, rfl⟩, ⟨rfl, rfl⟩, ⟨rfl, rfl⟩, rfl, hpool,
      within_grant hin ?_, areaRegions_apart hap⟩, rfl⟩
    intro k hk
    simp only [finishRpmsg, List.mem_cons, List.not_mem_nil, or_false] at hk
    exact Or.inl (congrArg Prod.snd hk)

end Init

/-- Config struct and table of an area as its initialization leaves them. -/
structure Fresh (a : QueueArea) (m : Memory 32) : Prop where
  conf : ∀ table, confAt m a.conf = (queueInitBuffer a.len a.itemSize a.desc a.buffer table).1
  table : ∀ table, ∀ i < a.len.toNat,
    descAt m a.desc i = (queueInitBuffer a.len a.itemSize a.desc a.buffer table).2 i

section Memories
variable {a tx rx : QueueArea} {m m' : Memory 32}

theorem Fresh.congr (h : Fresh a m) (hconf : ∀ x, Within a.conf 12 x → m' x = m x)
    (hdesc : ∀ x, Within a.desc (8 * a.len.toNat) x → m' x = m x) : Fresh a m' := by
  constructor
  · intro table
    rw [confAt_congr hconf]
    exact h.conf table
  · intro table i hi
    rw [descAt_congr fun x hx => hdesc x (within_table hi hx)]
    exact h.table table i hi

/-- Both areas are fresh after the second initialization, and no byte outside of them
has changed. -/
theorem initBuffers_fresh (hap : (areaRegions tx rx).Pairwise fun r t => Apart r.1 r.2 t.1 t.2)
    (m : Memory 32) : Fresh tx (initBuffer rx (initBuffer tx m)) ∧
      Fresh rx (initBuffer rx (initBuffer tx m)) ∧
      ∀ x, (∀ r ∈ areaRegions tx rx, ¬ Within r.1 r.2 x) →
        initBuffer rx (initBuffer tx m) x = m x := by
  simp only [areaRegions, List.pairwise_cons, List.mem_cons, forall_eq_or_imp] at hap
  obtain ⟨⟨hcc, hct, hcr, -⟩, ⟨hrt, hrr, -⟩, ⟨htr, -⟩, -⟩ := hap
  have htx : Fresh tx (initBuffer tx m) :=
    ⟨fun table => (initBuffer_spec tx m hct table).1,
      fun table => (initBuffer_spec tx m hct table).2.1⟩
  have hrx : Fresh rx (initBuffer rx (initBuffer tx m)) :=
    ⟨fun table => (initBuffer_spec rx _ hrr table).1,
      fun table => (initBuffer_spec rx _ hrr table).2.1⟩
  have hout := (initBuffer_spec tx m hct fun _ => ⟨0, 0, 0⟩).2.2
  have hout' := (initBuffer_spec rx (initBuffer tx m) hrr fun _ => ⟨0, 0, 0⟩).2.2
  refine ⟨htx.congr ?_ ?_, hrx, ?_⟩
  · intro x hx
    exact hout' x (hcc x hx) (hcr x hx)
  · intro x hx
    exact hout' x (hrt.symm x hx) (htr x hx)
  · intro x hx
    simp only [areaRegions, List.mem_cons, forall_eq_or_imp] at hx
    obtain ⟨h₁, h₂, h₃, h₄, -⟩ := hx
    rw [hout' x h₂ h₄]
    exact hout x h₁ h₃

end Memories

/-- The virtqueue of a setup lies in an area. -/
structure Over (u : Setup) (a : QueueArea) : Prop where
  desc : u.descPtr = a.desc
  len : BitVec.ofNat 16 u.n = a.len
  buffer : u.buffer = a.buffer
  item : u.itemSize = a.itemSize

/-- Both handles are over the table of this area. With the descriptors in memory they
are a reachable state of its virtqueue, and exactly these messages can be received. -/
structure Joined (a : QueueArea) (m : Memory 32) (master remote : Queue)
    (msgs : List (U32 × U16)) : Prop where
  roles : master.master = true ∧ remote.master = false
  table : master.desc = a.desc ∧ remote.desc = a.desc
  sizes : master.size = a.len ∧ remote.size = a.len
  itemSizes : master.maxItemSize = a.itemSize ∧ remote.maxItemSize = a.itemSize
  reachable : ∃ (u : Setup) (calls : List Call) (ring : Vring), Over u a ∧
    vring.final u.start calls = ring ∧ ring.master = master ∧ ring.remote = remote ∧
      (∀ i < a.len.toNat, descAt m a.desc i = ring.desc i) ∧ Pending ring msgs

section Handles
variable {u : Setup} {a : QueueArea} {m : Memory 32}

theorem Over.toNat_len (h : Over u a) : a.len.toNat = u.n := by
  rw [← h.len]
  exact u.toNat_n

/-- The virtqueue starts from what the initialization has stored. -/
theorem Fresh.setup (h : Fresh a m) (hu : Over u a) :
    u.conf = confAt m a.conf ∧ ∀ i < u.n, descAt m u.descPtr i = u.start.desc i := by
  simp only [Setup.conf, Setup.start, hu.desc, hu.len, hu.buffer, hu.item]
  refine ⟨(h.conf u.table).symm, fun i hi => h.table u.table i ?_⟩
  rw [hu.toNat_len]
  exact hi

/-- The handle of a run is joined to the fresh handle of the other side. -/
theorem joined_of_follows {data : U32 × ℕ} {m₀ : Memory 32} {s : Sender} {ring : Vring} {t : Fifos}
    (hu : Over u a) (hquiet : u.QuietNotify) (h : Follows u data m₀ s ring t) :
    Joined a s.mem s.queue u.remoteHandle s.sent := by
  obtain ⟨c, hc, -⟩ := h.refines
  obtain ⟨calls, hcalls⟩ := h.reached
  have hpending := refines_pending hquiet h.refines
  have htable := h.table
  rw [h.sent] at hpending
  rw [hu.desc, ← hu.toNat_len] at htable
  have hmaster : s.queue = handleAt u.masterHandle u.n c.allocs c.sends := h.queue.trans hc.master
  refine ⟨?_, ?_, ?_, ?_, u, calls, ring, hu, hcalls, h.queue.symm, h.remote, htable, hpending⟩
  · rw [hmaster]
    exact ⟨rfl, rfl⟩
  · rw [hmaster]
    exact ⟨hu.desc, hu.desc⟩
  · rw [hmaster]
    exact ⟨hu.len, hu.len⟩
  · rw [hmaster]
    exact ⟨hu.item, hu.item⟩

end Handles

/-- The virtqueue of an area of `2 ^ k` items, with the callbacks of its two sides. -/
def areaSetup (a : QueueArea) {k : ℕ} (hk : k ≤ 15) (notifyFc callbackFc : Option QueueCb)
    (masterPriv remotePriv : U32) : Setup where
  k := k
  k_le := hk
  itemSize := a.itemSize
  descPtr := a.desc
  buffer := a.buffer
  table := fun _ => ⟨0, 0, 0⟩
  notifyFc := notifyFc
  callbackFc := callbackFc
  masterPriv := masterPriv
  remotePriv := remotePriv

theorem areaSetup_over {a : QueueArea} {k : ℕ} (hk : k ≤ 15) (notifyFc callbackFc : Option QueueCb)
    (masterPriv remotePriv : U32) (hlen : a.len.toNat = 2 ^ k) :
    Over (areaSetup a hk notifyFc callbackFc masterPriv remotePriv) a := by
  refine ⟨rfl, BitVec.eq_of_toNat_eq ?_, rfl, rfl⟩
  rw [Setup.toNat_n]
  exact hlen.symm

theorem areaSetup_quiet (a : QueueArea) {k : ℕ} (hk : k ≤ 15) (notify : Bool)
    (callbackFc : Option QueueCb) (masterPriv remotePriv : U32) :
    (areaSetup a hk (if notify then some rpmsgTxNotify else none) callbackFc masterPriv
      remotePriv).QuietNotify := by
  intro f hf
  simp only [areaSetup, Option.ite_none_right_eq_some, Option.some.injEq] at hf
  obtain ⟨-, rfl⟩ := hf
  rfl

section Attach
variable {b : Build} {s : State} {id len item : U16} {res : InitResult} {tx rx : QueueArea}
  {g : Grant} {m : Memory 32}

/-- The grant is found as long as memory changes in the areas only. -/
theorem Placed.sysInfoGet_eq (h : Placed b s id len item res tx rx g m) {m' : Memory 32}
    (hm : ∀ x, (∀ r ∈ areaRegions tx rx, ¬ Within r.1 r.2 x) → m' x = m x) {fuel : ℕ}
    (hf : (s.grants .hp).length + 1 < fuel) :
    sysInfoGet b.mem fuel m' id .hp = some (some (g.buffer, g.size)) := by
  have hinv : PoolInv b.mem.hpPool m' (s.grants .hp ++ [g]) := by
    refine h.pool.of_outside fun x _ hx hout => hm x fun r hr hw => ?_
    exact hout g (by simp) (h.inside x hx r hr hw)
  have hfind := find_of_nodup hinv.nodup (g := g) (by simp)
  have hentry := hinv.chain.findEntry_eq hinv.top_lt id (show _ < fuel by simpa using hf)
  rw [h.id_eq] at hfind
  rw [hfind] at hentry
  exact hentry

/-- While the main core uses its sending queue, its areas stay placed: the outgoing
queue follows a run, and the config structs and the other table do not change. -/
theorem Placed.run (h : Placed b s id len item res tx rx g m) {u : Setup} (hu : Over u tx)
    (hquiet : u.QuietNotify) (ops : List SenderOp) {after : Sender}
    (hafter : after = senderRun (dataRegion tx) ⟨u.masterHandle, res.mem, []⟩ ops) :
    (∃ ring t, Follows u (dataRegion tx) res.mem after ring t) ∧
      after.sent = sentMessages tx.itemSize tx.len.toNat 0 ops ∧
      confAt after.mem tx.conf = confAt res.mem tx.conf ∧ Fresh rx after.mem ∧
      ∀ x, (∀ r ∈ areaRegions tx rx, ¬ Within r.1 r.2 x) → after.mem x = m x := by
  obtain ⟨htx, hrx, hout⟩ := initBuffers_fresh h.apart m
  rw [← h.mem] at htx hrx hout
  have hap := h.apart
  simp only [areaRegions, List.pairwise_cons, List.mem_cons, forall_eq_or_imp] at hap
  obtain ⟨⟨-, hct, -, hcd, -⟩, ⟨hrt, -, hrd, -⟩, ⟨htr, htd, -⟩, ⟨hdd, -⟩, -⟩ := hap
  have hap : Apart u.descPtr (8 * u.n) (dataRegion tx).1 (dataRegion tx).2 := by
    rw [hu.desc, ← hu.toNat_len]
    exact htd
  have hstart : Follows u (dataRegion tx) res.mem ⟨u.masterHandle, res.mem, []⟩ u.start u.fifos :=
    Follows.start (htx.setup hu).2
  obtain ⟨ring, t, hfollows⟩ := hstart.run hquiet hap ops
  have hsent := hstart.run_sent hquiet hap ops
  rw [← hafter] at hfollows hsent
  have hframe := hfollows.frame
  rw [hu.desc, ← hu.toNat_len] at hframe
  refine ⟨⟨ring, t, hfollows⟩, ?_, ?_, hrx.congr ?_ ?_, ?_⟩
  · rw [hsent, ← hu.item, hu.toNat_len]
    simp [Setup.fifos, Setup.addrs]
  · exact confAt_congr fun x hx => hframe x (hct x hx) (hcd x hx)
  · intro x hx
    exact hframe x (hrt x hx) (hrd x hx)
  · intro x hx
    exact hframe x (htr.symm x hx) (hdd x hx)
  · intro x hx
    rw [← hout x hx]
    simp only [areaRegions, List.mem_cons, forall_eq_or_imp] at hx
    exact hframe x hx.2.2.1 hx.2.2.2.2.1

end Attach

/-- The subcore attaches to the queues of the main core. In every state of the pools,
in either layout, when the byte counts fit their parameter: after any calls on the
sending queue and writes into its items, the subcore finds the two queues with the
roles exchanged. Each pair of handles is a reachable state of one virtqueue of the
rounded sizes, what the main core has sent is what the subcore can receive, it is decided
by the calls, and the tables and data areas are disjoint. -/
theorem sub_attaches_to_main (b : Build) (hclz : b.clzZero = 32) (m : Memory 32) (ls : List Label)
    (s : State) (hrun : Run (Step b.mem) (State.start b.mem m) ls s) (fuel fuel' : ℕ)
    (queueLen queueItemSize id : U16) (mainDev subDev : U32) (notify poll notify' poll' : Bool)
    (res : InitResult)
    (hres : rpmsgMainInitById b fuel s.mem mainDev queueLen queueItemSize notify poll id = some res)
    (hok : res.ret = 0)
    (hsize : ∀ size ∈ rpmsgBytes b (getPowerLen 32 queueLen).toNat
      (getAlignedSize queueItemSize).toNat, size < 2 ^ 16)
    (hfuel : (granted .hp ls).length + 1 < fuel') (ops : List SenderOp) :
    ∃ tx rx mainTx mainRx subTx subRx, res.areas = [tx, rx] ∧ res.queues = [mainTx, mainRx] ∧
      let after := senderRun (dataRegion tx) ⟨mainTx, res.mem, []⟩ ops
      rpmsgSubInitById b.mem fuel' after.mem subDev notify' poll' id = some (0, [subTx, subRx]) ∧
        Joined tx after.mem after.queue subRx after.sent ∧ Joined rx after.mem subTx mainRx [] ∧
        after.sent = sentMessages tx.itemSize tx.len.toNat 0 ops ∧
        (∀ a ∈ [tx, rx], IsLeast {n | (∃ k, n = 2 ^ k) ∧ queueLen.toNat ≤ n} a.len.toNat ∧
          IsLeast {n | 4 ∣ n ∧ queueItemSize.toNat ≤ n} a.itemSize.toNat) ∧
        [tx.descRegion, rx.descRegion, dataRegion tx, dataRegion rx].Pairwise
          fun r t => Apart r.1 r.2 t.1 t.2 := by
  obtain ⟨hlen, hitem, tx, rx, g, m₁, hplaced, hqueues⟩ :=
    rpmsgMainInitById_placed (run_wf hrun) hres hok (hclz ▸ hsize)
  rw [hclz] at hlen hplaced
  obtain ⟨k, hk, hpow, -⟩ := getPowerLen_eq hlen
  obtain ⟨htx, hrx, -⟩ := initBuffers_fresh hplaced.apart m₁
  rw [← hplaced.mem] at htx hrx
  have hout : Over (areaSetup tx hk (if notify then some rpmsgTxNotify else none)
      (if poll' then none else some rpmsgRxCallback) mainDev subDev) tx :=
    areaSetup_over hk _ _ _ _ (hplaced.lens.1 ▸ hpow)
  have hinc : Over (areaSetup rx hk (if notify' then some rpmsgTxNotify else none)
      (if poll then none else some rpmsgRxCallback) subDev mainDev) rx :=
    areaSetup_over hk _ _ _ _ (hplaced.lens.2 ▸ hpow)
  have hquiet := areaSetup_quiet tx hk notify (if poll' then none else some rpmsgRxCallback)
    mainDev subDev
  have hquiet' := areaSetup_quiet rx hk notify' (if poll then none else some rpmsgRxCallback)
    subDev mainDev
  obtain ⟨⟨ring, t, hfollows⟩, hsent, hconf, hfresh, hframe⟩ := hplaced.run hout hquiet ops rfl
  have hget := hplaced.sysInfoGet_eq hframe (show (s.grants .hp).length + 1 < fuel' by
    rw [run_grants hrun .hp]
    simpa [State.start] using hfuel)
  have hidle : Follows _ (dataRegion rx) _ ⟨_, _, []⟩ _ _ := Follows.start (hfresh.setup hinc).2
  refine ⟨tx, rx, Setup.masterHandle _, Setup.remoteHandle _, Setup.masterHandle _,
    Setup.remoteHandle _, hplaced.areas, ?_, ?_, joined_of_follows hout hquiet hfollows,
    joined_of_follows hinc hquiet' hidle, hsent, ?_, ?_⟩
  · rw [hqueues, finishRpmsg, ← hplaced.mem, ← (htx.setup hout).1, ← (hrx.setup hinc).1]
    rfl
  · rw [rpmsgSubInitById, hget, Option.map_some]
    dsimp only
    rw [← hplaced.confs.2, ← hplaced.confs.1, hconf, ← (htx.setup hout).1,
      ← (hfresh.setup hinc).1]
    rfl
  · intro a ha
    have hsizes : a.len = getPowerLen 32 queueLen ∧ a.itemSize = getAlignedSize queueItemSize := by
      simp only [List.mem_cons, List.not_mem_nil, or_false] at ha
      rcases ha with rfl | rfl
      · exact ⟨hplaced.lens.1, hplaced.itemSizes.1⟩
      · exact ⟨hplaced.lens.2, hplaced.itemSizes.2⟩
    rw [hsizes.1, hsizes.2]
    exact ⟨getPowerLen_isLeast hlen, getAlignedSize_isLeast hitem⟩
  · exact (List.pairwise_cons.mp (List.pairwise_cons.mp hplaced.apart).2).2

/-- Two queues of four items of sixteen bytes; the main core sends one message before
the subcore attaches. -/
theorem sub_attaches_after_one_message : ∃ res tx rx mainTx mainRx subTx subRx,
    rpmsgMainInitById c6Build 1 (State.start c6Defaults fun _ => 0).mem 0x4087b000 4 16 true false
        3 = some res ∧ res.ret = 0 ∧ res.areas = [tx, rx] ∧ res.queues = [mainTx, mainRx] ∧
      let after := senderRun (dataRegion tx) ⟨mainTx, res.mem, []⟩
        [.alloc 16, .store 0x4087a5e8 7, .send 0x4087a5e8 5]
      rpmsgSubInitById c6Defaults 2 after.mem 0x4087c000 false true 3 = some (0, [subTx, subRx]) ∧
        Joined tx after.mem after.queue subRx after.sent ∧ Joined rx after.mem subTx mainRx [] ∧
        after.sent = [(0x4087a5e8, 5)] := by
  obtain ⟨res, hres, hok⟩ : ∃ res, rpmsgMainInitById c6Build 1
      (State.start c6Defaults fun _ => 0).mem 0x4087b000 4 16 true false 3 = some res ∧
      res.ret = 0 := ⟨_, rfl, rfl⟩
  obtain ⟨tx, rx, mainTx, mainRx, subTx, subRx, hareas, hqueues, hsub, hout, hinc, hsent, hsizes,
      -⟩ :=
    sub_attaches_to_main c6Build rfl _ [] _ (.done _) 1 2 4 16 3 0x4087b000 0x4087c000 true false
      false true res hres hok (by decide) (by decide)
      [.alloc 16, .store 0x4087a5e8 7, .send 0x4087a5e8 5]
  obtain ⟨hlen, hitem⟩ := hsizes tx (List.mem_cons_self ..)
  have hlen : tx.len.toNat = 4 := hlen.unique ⟨⟨⟨2, rfl⟩, le_rfl⟩, fun _ hn => hn.2⟩
  have hitem : tx.itemSize = 16 :=
    BitVec.eq_of_toNat_eq (hitem.unique ⟨⟨⟨4, rfl⟩, le_rfl⟩, fun _ hn => hn.2⟩)
  rw [hlen, hitem] at hsent
  exact ⟨res, tx, rx, mainTx, mainRx, subTx, subRx, hres, hok, hareas, hqueues, hsub, hout, hinc,
    hsent.trans (by decide)⟩

end EspAmp.RpmsgAttach
