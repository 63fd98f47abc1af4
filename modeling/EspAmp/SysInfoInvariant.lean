import EspAmp.SysInfo
import Mathlib.Data.List.Nodup

/-!
# The allocator invariant

The grants of a pool, in the order they were made, determine where every header
lies. `Chain` says that the memory holds exactly this list: each header stores
the size of its own grant and the address right behind it, where the next header
carries the next id. The header positions are disjoint from the granted bytes,
so neither an allocation nor a client write can break an earlier link, and the
two pools never meet.
-/
namespace EspAmp.SysInfo
open ByteMemory ReplyMachine

/-- Bytes taken by grants, headers included. -/
def occupied : List Grant → ℕ
  | [] => 0
  | g :: gs => 8 + rounded g.size + occupied gs

/-- The header at `e` stores `sz`, and the headers of `gs` follow it. -/
def Chain (m : Memory 32) : ℕ → U16 → List Grant → Prop
  | e, sz, [] => sizeAt m (addr e) = sz ∧ nextAt m (addr e) = 0
  | e, sz, g :: gs =>
      sizeAt m (addr e) = sz ∧ nextAt m (addr e) = addr (e + 8 + rounded sz) ∧
        infoIdAt m (addr (e + 8 + rounded sz)) = g.id ∧
        g.buffer = addr (e + 8 + rounded sz + 8) ∧
        Chain m (e + 8 + rounded sz) g.size gs

def lastHeader : ℕ → U16 → List Grant → ℕ
  | e, _, [] => e
  | e, sz, g :: gs => lastHeader (e + 8 + rounded sz) g.size gs

/-- First address behind a chain. -/
def top (e : ℕ) (sz : U16) (gs : List Grant) : ℕ := e + 8 + rounded sz + occupied gs

@[simp] theorem top_nil (e : ℕ) (sz : U16) : top e sz [] = e + 8 + rounded sz := rfl

theorem top_cons (e : ℕ) (sz : U16) (g : Grant) (gs : List Grant) :
    top e sz (g :: gs) = top (e + 8 + rounded sz) g.size gs := by
  simp only [top, occupied]
  omega

theorem le_top (e : ℕ) (sz : U16) (gs : List Grant) : e + 8 + rounded sz ≤ top e sz gs :=
  Nat.le_add_right _ _

theorem le_lastHeader (e : ℕ) (sz : U16) (gs : List Grant) : e ≤ lastHeader e sz gs := by
  induction gs generalizing e sz with
  | nil => exact le_rfl
  | cons g gs ih =>
      have h := ih (e + 8 + rounded sz) g.size
      simp only [lastHeader]
      omega

theorem occupied_append (gs hs : List Grant) :
    occupied (gs ++ hs) = occupied gs + occupied hs := by
  induction gs with
  | nil => simp [occupied]
  | cons g gs ih =>
      simp only [List.cons_append, occupied, ih]
      omega

/-- Two memories agree on the eight bytes of a header. -/
def SameHeader (m m' : Memory 32) (e : ℕ) : Prop :=
  ∀ x : U32, e ≤ x.toNat → x.toNat < e + 8 → m' x = m x

section Frame
variable {m m' : Memory 32} {e : ℕ}

theorem SameHeader.words (h : SameHeader m m' e) (hb : e + 8 ≤ 2 ^ 32) :
    infoIdAt m' (addr e) = infoIdAt m (addr e) ∧ sizeAt m' (addr e) = sizeAt m (addr e) ∧
      nextAt m' (addr e) = nextAt m (addr e) := by
  refine ⟨?_, ?_, ?_⟩
  · refine word16_congr fun x hx => ?_
    rw [within_addr (by omega) (by omega)] at hx
    exact h x (by omega) (by omega)
  · refine word16_congr fun x hx => ?_
    rw [addr_add, within_addr (by omega) (by omega)] at hx
    exact h x (by omega) (by omega)
  · refine word32_congr fun x hx => ?_
    rw [addr_add, within_addr (by omega) (by omega)] at hx
    exact h x (by omega) (by omega)

/-- A chain depends on its headers only. -/
theorem Chain.congr {sz : U16} {gs : List Grant} (h : Chain m e sz gs)
    (ht : top e sz gs < 2 ^ 32) (he : SameHeader m m' e)
    (hg : ∀ g ∈ gs, SameHeader m m' (g.buffer.toNat - 8)) : Chain m' e sz gs := by
  induction gs generalizing e sz with
  | nil =>
      have hle := le_top e sz []
      obtain ⟨-, hsz, hnx⟩ := he.words (by omega)
      exact ⟨hsz.trans h.1, hnx.trans h.2⟩
  | cons g gs ih =>
      obtain ⟨hs, hn, hid, hbuf, hc⟩ := h
      rw [top_cons] at ht
      have hle := le_top (e + 8 + rounded sz) g.size gs
      have hnext : SameHeader m m' (e + 8 + rounded sz) := by
        have := hg g (by simp)
        rwa [hbuf, toNat_addr (by omega), Nat.add_sub_cancel] at this
      obtain ⟨-, hsz, hnx⟩ := he.words (by omega)
      obtain ⟨hid', -, -⟩ := hnext.words (by omega)
      exact ⟨hsz.trans hs, hnx.trans hn, hid'.trans hid, hbuf,
        ih hc ht hnext fun g' hg' => hg g' (by simp [hg'])⟩

end Frame

section Placement
variable {m : Memory 32} {e : ℕ} {sz : U16} {gs : List Grant}

/-- Where one grant of a chain lies. -/
theorem Chain.bounds (h : Chain m e sz gs) (ht : top e sz gs < 2 ^ 32) {g : Grant}
    (hg : g ∈ gs) : e + 8 + rounded sz + 8 ≤ g.buffer.toNat ∧
      g.buffer.toNat + rounded g.size ≤ top e sz gs := by
  induction gs generalizing e sz with
  | nil => cases hg
  | cons k gs ih =>
      obtain ⟨-, -, -, hbuf, hc⟩ := h
      rw [top_cons] at ht ⊢
      have hle := le_top (e + 8 + rounded sz) k.size gs
      rcases List.mem_cons.mp hg with rfl | hg
      · rw [hbuf, toNat_addr (by omega)]
        omega
      · have hb := ih hc ht hg
        omega

/-- No header overlaps a granted region. -/
theorem Chain.header_apart (h : Chain m e sz gs) (ht : top e sz gs < 2 ^ 32) {g k : Grant}
    (hg : g ∈ gs) (hk : k ∈ gs) : k.buffer.toNat ≤ g.buffer.toNat ∨
      g.buffer.toNat + rounded g.size ≤ k.buffer.toNat - 8 := by
  induction gs generalizing e sz with
  | nil => cases hg
  | cons l gs ih =>
      have hboundg := h.bounds ht hg
      have hboundk := h.bounds ht hk
      obtain ⟨-, -, -, hbuf, hc⟩ := h
      rw [top_cons] at ht
      have hle := le_top (e + 8 + rounded sz) l.size gs
      have hl : l.buffer.toNat = e + 8 + rounded sz + 8 := by
        rw [hbuf, toNat_addr (by omega)]
      rcases List.mem_cons.mp hg with rfl | hg
      · rcases List.mem_cons.mp hk with rfl | hk
        · exact Or.inl le_rfl
        · have hb := hc.bounds ht hk
          right
          omega
      · rcases List.mem_cons.mp hk with rfl | hk
        · left
          omega
        · exact ih hc ht hg hk

theorem Chain.header (h : Chain m e sz gs) (ht : top e sz gs < 2 ^ 32) {g : Grant}
    (hg : g ∈ gs) : infoIdAt m (g.buffer - 8#32) = g.id ∧ sizeAt m (g.buffer - 8#32) = g.size := by
  induction gs generalizing e sz with
  | nil => cases hg
  | cons k gs ih =>
      obtain ⟨-, -, hid, hbuf, hc⟩ := h
      rw [top_cons] at ht
      rcases List.mem_cons.mp hg with rfl | hg
      · have hhead : g.buffer - 8#32 = addr (e + 8 + rounded sz) := by
          rw [hbuf, ← addr_add, BitVec.add_sub_cancel]
        have hs : sizeAt m (addr (e + 8 + rounded sz)) = g.size := by
          cases gs with
          | nil => exact hc.1
          | cons k gs => exact hc.1
        rw [hhead]
        exact ⟨hid, hs⟩
      · exact ih hc ht hg

end Placement

/-- Sentinel, headers and granted bytes of a pool as address and length. -/
def regions (p : Pool) (gs : List Grant) : List (ℕ × ℕ) :=
  (p.start, 8) :: gs.flatMap fun g => [(g.buffer.toNat - 8, 8), (g.buffer.toNat, rounded g.size)]

theorem Chain.regions_ordered {m : Memory 32} {e : ℕ} {sz : U16} {gs : List Grant}
    (h : Chain m e sz gs) (ht : top e sz gs < 2 ^ 32) :
    (gs.flatMap fun g => [(g.buffer.toNat - 8, 8), (g.buffer.toNat, rounded g.size)]).Pairwise
      fun r t => r.1 + r.2 ≤ t.1 := by
  induction gs generalizing e sz with
  | nil => exact List.Pairwise.nil
  | cons g gs ih =>
      have hg := h.bounds ht (List.mem_cons_self ..)
      obtain ⟨-, -, -, hbuf, hc⟩ := h
      rw [top_cons] at ht
      have hle := le_top (e + 8 + rounded sz) g.size gs
      have hgb : g.buffer.toNat = e + 8 + rounded sz + 8 := by
        rw [hbuf, toNat_addr (by omega)]
      have hlater : ∀ t ∈ gs.flatMap fun g =>
          [(g.buffer.toNat - 8, 8), (g.buffer.toNat, rounded g.size)],
          g.buffer.toNat + rounded g.size ≤ t.1 := by
        intro t hmem
        obtain ⟨k, hk, hmem⟩ := List.mem_flatMap.mp hmem
        have hb := hc.bounds ht hk
        simp only [List.mem_cons, List.not_mem_nil, or_false] at hmem
        rcases hmem with rfl | rfl <;> simp only <;> omega
      simp only [List.flatMap_cons, List.cons_append, List.nil_append, List.pairwise_cons,
        List.mem_cons]
      refine ⟨?_, hlater, ih hc ht⟩
      rintro t (rfl | hmem)
      · simp only
        omega
      · have := hlater t hmem
        omega

section Walks
variable {m : Memory 32} {e : ℕ} {sz : U16} {gs : List Grant}

theorem addr_ne_zero {a : ℕ} (hpos : 0 < a) (h : a < 2 ^ 32) : addr a ≠ 0 := by
  intro hz
  have := congrArg BitVec.toNat hz
  rw [toNat_addr h] at this
  exact hpos.ne' this

/-- The walk of an allocation ends within the length of the list. -/
theorem Chain.lastEntry_eq (h : Chain m e sz gs) (ht : top e sz gs < 2 ^ 32) (id : U16)
    {fuel : ℕ} (hf : gs.length < fuel) : lastEntry m id fuel (addr e) =
      some (if id ∈ gs.map Grant.id then none else some (addr (lastHeader e sz gs))) := by
  induction gs generalizing e sz fuel with
  | nil =>
      obtain ⟨fuel, rfl⟩ := Nat.exists_eq_succ_of_ne_zero (Nat.ne_of_gt hf)
      simp [lastEntry, h.2, lastHeader]
  | cons g gs ih =>
      obtain ⟨fuel, rfl⟩ := Nat.exists_eq_succ_of_ne_zero (Nat.ne_of_gt (Nat.zero_lt_of_lt hf))
      obtain ⟨-, hn, hid, -, hc⟩ := h
      rw [top_cons] at ht
      have hle := le_top (e + 8 + rounded sz) g.size gs
      rw [lastEntry, hn, if_neg (addr_ne_zero (by omega) (by omega)), hid]
      by_cases hg : g.id = id
      · rw [if_pos hg, if_pos (by simp [hg])]
      · rw [if_neg hg, ih hc ht (by simpa using hf)]
        have hiff : id ∈ (g :: gs).map Grant.id ↔ id ∈ gs.map Grant.id := by
          simp [Ne.symm hg]
        simp only [hiff, lastHeader]

/-- The walk of a lookup finds the grant of an id, or the end of the list. -/
theorem Chain.findEntry_eq (h : Chain m e sz gs) (ht : top e sz gs < 2 ^ 32) (id : U16)
    {fuel : ℕ} (hf : gs.length < fuel) :
    (findEntry m id fuel (nextAt m (addr e))).map
        (Option.map fun a => (a + 8#32, sizeAt m a)) =
      some ((gs.find? (·.id = id)).map fun g => (g.buffer, g.size)) := by
  induction gs generalizing e sz fuel with
  | nil =>
      obtain ⟨fuel, rfl⟩ := Nat.exists_eq_succ_of_ne_zero (Nat.ne_of_gt hf)
      simp [findEntry, h.2]
  | cons g gs ih =>
      obtain ⟨fuel, rfl⟩ := Nat.exists_eq_succ_of_ne_zero (Nat.ne_of_gt (Nat.zero_lt_of_lt hf))
      have hsize := (h.header ht (List.mem_cons_self ..)).2
      obtain ⟨-, hn, hid, hbuf, hc⟩ := h
      rw [top_cons] at ht
      have hle := le_top (e + 8 + rounded sz) g.size gs
      rw [findEntry, hn, if_neg (addr_ne_zero (by omega) (by omega)), hid]
      by_cases hg : g.id = id
      · have hhead : g.buffer - 8#32 = addr (e + 8 + rounded sz) := by
          rw [hbuf, ← addr_add, BitVec.add_sub_cancel]
        rw [hhead] at hsize
        simp [hg, hsize, hbuf, addr_add]
      · rw [if_neg hg, ih hc ht (by simpa using hf)]
        simp [hg]

theorem Chain.last (h : Chain m e sz gs) :
    lastHeader e sz gs + 8 + rounded (sizeAt m (addr (lastHeader e sz gs))) = top e sz gs := by
  induction gs generalizing e sz with
  | nil => rw [lastHeader, h.1, top_nil]
  | cons g gs ih =>
      rw [top_cons]
      exact ih h.2.2.2.2

end Walks

section Link
variable {m : Memory 32} {e : ℕ} {sz : U16} {gs : List Grant}

/-- Linking writes the last pointer and the new header. -/
theorem linkEntry_of_outside {l t : ℕ} (hl : l + 8 ≤ t) (ht : t + 8 < 2 ^ 32) (id size : U16)
    {x : U32} (h₁ : x.toNat < l + 4 ∨ l + 8 ≤ x.toNat) (h₂ : x.toNat < t ∨ t + 8 ≤ x.toNat) :
    linkEntry m (addr l) (addr t) id size x = m x := by
  simp only [linkEntry, addr_add]
  rw [write16_of_not_within (not_within_addr (by omega) (by omega)),
    write16_of_not_within (not_within_addr (by omega) (by omega)),
    write32_of_not_within (not_within_addr (by omega) (by omega)),
    write32_of_not_within (not_within_addr (by omega) (by omega))]

theorem linkEntry_header {l t : ℕ} (hl : l + 8 ≤ t) (ht : t + 8 < 2 ^ 32) (id size : U16) :
    nextAt (linkEntry m (addr l) (addr t) id size) (addr l) = addr t ∧
      infoIdAt (linkEntry m (addr l) (addr t) id size) (addr t) = id ∧
      sizeAt (linkEntry m (addr l) (addr t) id size) (addr t) = size ∧
      nextAt (linkEntry m (addr l) (addr t) id size) (addr t) = 0 := by
  simp only [nextAt, infoIdAt, sizeAt, linkEntry, addr_add]
  refine ⟨?_, ?_, ?_, ?_⟩
  · rw [word32_write16_apart (apart_addr (by omega) (by omega) (by omega)),
      word32_write16_apart (apart_addr (by omega) (by omega) (by omega)),
      word32_write32_apart (apart_addr (by omega) (by omega) (by omega)),
      word32_write32 (by decide)]
  · rw [word16_write16_apart (apart_addr (by omega) (by omega) (by omega)),
      word16_write16 (by decide)]
  · rw [word16_write16 (by decide)]
  · rw [word32_write16_apart (apart_addr (by omega) (by omega) (by omega)),
      word32_write16_apart (apart_addr (by omega) (by omega) (by omega)),
      word32_write32 (by decide)]

theorem linkEntry_size {l t : ℕ} (hl : l + 8 ≤ t) (ht : t + 8 < 2 ^ 32) (id size : U16) :
    sizeAt (linkEntry m (addr l) (addr t) id size) (addr l) = sizeAt m (addr l) := by
  refine word16_congr fun x hx => ?_
  rw [addr_add, within_addr (by omega) (by omega)] at hx
  exact linkEntry_of_outside hl ht id size (by omega) (by omega)

/-- Linking a new header behind the last one appends a grant. -/
theorem Chain.link (h : Chain m e sz gs) (id size : U16) (ht : top e sz gs + 8 < 2 ^ 32) :
    Chain (linkEntry m (addr (lastHeader e sz gs)) (addr (top e sz gs)) id size) e sz
      (gs ++ [⟨id, size, addr (top e sz gs + 8)⟩]) := by
  induction gs generalizing e sz with
  | nil =>
      rw [top_nil] at *
      rw [lastHeader]
      obtain ⟨hnext, hid, hsz, hnil⟩ :=
        linkEntry_header (m := m) (l := e) (by omega) ht id size
      exact ⟨(linkEntry_size (by omega) ht id size).trans h.1, hnext, hid, rfl, hsz, hnil⟩
  | cons g gs ih =>
      obtain ⟨hs, hn, hid, hbuf, hc⟩ := h
      rw [top_cons] at *
      have hle := le_top (e + 8 + rounded sz) g.size gs
      have hlast := hc.last
      have hge := le_lastHeader (e + 8 + rounded sz) g.size gs
      have hid' : infoIdAt (linkEntry m (addr (lastHeader (e + 8 + rounded sz) g.size gs))
          (addr (top (e + 8 + rounded sz) g.size gs)) id size) (addr (e + 8 + rounded sz)) =
          g.id := by
        refine (word16_congr fun x hx => ?_).trans hid
        rw [within_addr (by omega) (by omega)] at hx
        exact linkEntry_of_outside (by omega) ht id size (by omega) (by omega)
      have hsame : SameHeader m (linkEntry m (addr (lastHeader (e + 8 + rounded sz) g.size gs))
          (addr (top (e + 8 + rounded sz) g.size gs)) id size) e := by
        intro x hx hx'
        exact linkEntry_of_outside (by omega) ht id size (by omega) (by omega)
      obtain ⟨-, hsz, hnx⟩ := hsame.words (by omega)
      exact ⟨hsz.trans hs, hnx.trans hn, hid', hbuf, ih hc ht⟩

end Link

/-- What a pool keeps between calls. -/
structure PoolInv (p : Pool) (m : Memory 32) (gs : List Grant) : Prop where
  chain : Chain m p.start 0 gs
  fits : top p.start 0 gs ≤ p.stop
  nodup : (gs.map Grant.id).Nodup

/-- The id is taken, or header and rounded size do not fit before the pool end. -/
def Refused (p : Pool) (gs : List Grant) (id size : U16) : Prop :=
  id ∈ gs.map Grant.id ∨ p.stop < p.start + 8 + occupied gs + 8 + rounded size

theorem find_of_nodup {gs : List Grant} {g : Grant} (h : (gs.map Grant.id).Nodup) (hg : g ∈ gs) :
    gs.find? (·.id = g.id) = some g := by
  induction gs with
  | nil => cases hg
  | cons k gs ih =>
      rw [List.map_cons, List.nodup_cons] at h
      rcases List.mem_cons.mp hg with rfl | hg
      · simp
      · have hne : k.id ≠ g.id := fun heq => h.1 (heq ▸ List.mem_map_of_mem hg)
        rw [List.find?_cons_of_neg (by simpa using hne)]
        exact ih h.2 hg

section Pool
variable {p : Pool} {m m' : Memory 32} {gs : List Grant}

theorem PoolInv.top_lt (h : PoolInv p m gs) : top p.start 0 gs < 2 ^ 32 := by
  have h₁ := h.fits
  have h₂ := p.stop_le
  omega

/-- `esp_amp_sys_info_alloc` on a well-formed pool. -/
theorem PoolInv.poolAlloc_eq (h : PoolInv p m gs) (id size : U16) {fuel : ℕ}
    (hf : gs.length < fuel) : (Refused p gs id size → poolAlloc p fuel m id size = some (0, m)) ∧
      (¬ Refused p gs id size → poolAlloc p fuel m id size =
        some (addr (top p.start 0 gs + 8), linkEntry m (addr (lastHeader p.start 0 gs))
          (addr (top p.start 0 gs)) id size)) := by
  have htop := h.top_lt
  have hfit := h.fits
  have hstop := p.stop_le
  have hsize := rounded_lt size
  have hstart : addr (lastHeader p.start 0 gs) + 8#32 +
      sizeBytes (sizeAt m (addr (lastHeader p.start 0 gs))) = addr (top p.start 0 gs) := by
    rw [sizeBytes_eq, addr_add, ← h.chain.last]
    exact addr_add _ _
  have hend : addr (top p.start 0 gs) + 8#32 + sizeBytes size =
      addr (top p.start 0 gs + 8 + rounded size) := by
    rw [sizeBytes_eq, addr_add]
    exact addr_add _ _
  have hlt : addr p.stop < addr (top p.start 0 gs + 8 + rounded size) ↔
      p.stop < top p.start 0 gs + 8 + rounded size := by
    rw [BitVec.lt_def, toNat_addr (by omega), toNat_addr (by omega)]
  have hr : Refused p gs id size ↔ id ∈ gs.map Grant.id ∨
      p.stop < top p.start 0 gs + 8 + rounded size := Iff.rfl
  rw [hr]
  simp only [poolAlloc, h.chain.lastEntry_eq htop id hf]
  by_cases hid : id ∈ gs.map Grant.id
  · simp [hid]
  · simp only [hid, if_false, hstart, hend, hlt, false_or]
    constructor
    · intro hn
      rw [if_pos hn]
    · intro hn
      rw [if_neg hn, addr_add]

/-- An allocation ends, and it fails exactly when it is refused, writing nothing. -/
theorem PoolInv.poolAlloc_total (h : PoolInv p m gs) (id size : U16) {fuel : ℕ}
    (hf : gs.length < fuel) : ∃ r m', poolAlloc p fuel m id size = some (r, m') ∧
      (r = 0 ↔ Refused p gs id size) ∧ (r = 0 → m' = m) := by
  obtain ⟨hno, hyes⟩ := h.poolAlloc_eq id size hf
  by_cases hr : Refused p gs id size
  · exact ⟨0, m, hno hr, ⟨fun _ => hr, fun _ => rfl⟩, fun _ => rfl⟩
  · have hfit := h.fits
    have hstop := p.stop_le
    have hne : addr (top p.start 0 gs + 8) ≠ 0 := addr_ne_zero (by omega) (by omega)
    exact ⟨_, _, hyes hr, ⟨fun hz => absurd hz hne, fun hr' => absurd hr' hr⟩,
      fun hz => absurd hz hne⟩

/-- A granted region or its header. -/
theorem PoolInv.mem_regions (h : PoolInv p m gs) {t : ℕ × ℕ}
    (ht : t ∈ gs.flatMap fun g => [(g.buffer.toNat - 8, 8), (g.buffer.toNat, rounded g.size)]) :
    p.start + 8 ≤ t.1 ∧ t.1 + t.2 ≤ p.stop := by
  have hfit := h.fits
  obtain ⟨g, hg, ht⟩ := List.mem_flatMap.mp ht
  have hb := h.chain.bounds h.top_lt hg
  simp only [List.mem_cons, List.not_mem_nil, or_false] at ht
  rcases ht with rfl | rfl <;> simp only <;> omega

theorem PoolInv.regions_apart (h : PoolInv p m gs) :
    (regions p gs).Pairwise fun r t => r.1 + r.2 ≤ t.1 :=
  List.pairwise_cons.mpr ⟨fun _ ht => (h.mem_regions ht).1, h.chain.regions_ordered h.top_lt⟩

theorem PoolInv.regions_inside (h : PoolInv p m gs) :
    ∀ r ∈ regions p gs, p.start ≤ r.1 ∧ r.1 + r.2 ≤ p.stop := by
  intro r hr
  rcases List.mem_cons.mp hr with rfl | hr
  · exact ⟨le_rfl, p.sentinel⟩
  · obtain ⟨hlow, hhigh⟩ := h.mem_regions hr
    exact ⟨by omega, hhigh⟩

theorem lastEntry_mono {id : U16} {fuel : ℕ} (k : ℕ) {e : U32} {v : Option U32}
    (h : lastEntry m id fuel e = some v) : lastEntry m id (fuel + k) e = some v := by
  induction fuel generalizing e with
  | zero => cases h
  | succ fuel ih =>
      rw [Nat.succ_add]
      simp only [lastEntry] at h ⊢
      split_ifs at h ⊢
      · exact h
      · exact h
      · exact ih h

theorem poolAlloc_mono {id size : U16} {fuel : ℕ} (k : ℕ) {r : U32}
    (h : poolAlloc p fuel m id size = some (r, m')) :
    poolAlloc p (fuel + k) m id size = some (r, m') := by
  unfold poolAlloc at h ⊢
  cases hl : lastEntry m id fuel (addr p.start) with
  | none =>
      rw [hl] at h
      cases h
  | some v =>
      rw [hl] at h
      rw [lastEntry_mono k hl]
      exact h

/-- A refused call writes nothing; a granted one appends to the chain. -/
theorem PoolInv.alloc (h : PoolInv p m gs) {fuel : ℕ} {id size : U16} {r : U32}
    (ha : poolAlloc p fuel m id size = some (r, m')) :
    (r = 0 ∧ m' = m) ∨ (r ≠ 0 ∧ PoolInv p m' (gs ++ [⟨id, size, r⟩]) ∧
      ∀ x : U32, x.toNat < p.start ∨ p.stop ≤ x.toNat → m' x = m x) := by
  obtain ⟨hno, hyes⟩ := h.poolAlloc_eq id size (Nat.lt_add_of_pos_right (Nat.succ_pos fuel))
  replace ha := poolAlloc_mono (gs.length + 1) ha
  rw [show fuel + (gs.length + 1) = gs.length + fuel.succ by omega] at ha
  by_cases hr : Refused p gs id size
  · rw [hno hr] at ha
    obtain ⟨rfl, rfl⟩ := Prod.mk.inj (Option.some.inj ha)
    exact Or.inl ⟨rfl, rfl⟩
  · rw [hyes hr] at ha
    obtain ⟨rfl, rfl⟩ := Prod.mk.inj (Option.some.inj ha)
    obtain ⟨hid, hfit⟩ := not_or.mp hr
    have hstop := p.stop_le
    have hpos := p.start_pos
    have htop : top p.start 0 gs = p.start + 8 + occupied gs := rfl
    have hlast := h.chain.last
    have hge := le_lastHeader p.start 0 gs
    refine Or.inr ⟨addr_ne_zero (by omega) (by omega), ⟨?_, ?_, ?_⟩, ?_⟩
    · exact h.chain.link id size (by omega)
    · have hocc : occupied (gs ++ [⟨id, size, addr (top p.start 0 gs + 8)⟩]) =
          occupied gs + (8 + rounded size) := occupied_append _ _
      have htop' : top p.start 0 (gs ++ [⟨id, size, addr (top p.start 0 gs + 8)⟩]) =
          p.start + 8 + occupied (gs ++ [⟨id, size, addr (top p.start 0 gs + 8)⟩]) := rfl
      omega
    · rw [List.map_append, List.nodup_append]
      refine ⟨h.nodup, List.nodup_singleton _, ?_⟩
      intro a ha b hb heq
      rw [List.map_singleton, List.mem_singleton] at hb
      rw [heq, hb] at ha
      exact hid ha
    · intro x hx
      exact linkEntry_of_outside (by omega) (by omega) id size (by omega) (by omega)

theorem PoolInv.congr (h : PoolInv p m gs)
    (hm : ∀ x : U32, p.start ≤ x.toNat → x.toNat < p.stop → m' x = m x) : PoolInv p m' gs := by
  refine ⟨h.chain.congr h.top_lt ?_ ?_, h.fits, h.nodup⟩
  · intro x hx hx'
    have hs := p.sentinel
    exact hm x hx (by omega)
  · intro g hg x hx hx'
    have hb := h.chain.bounds h.top_lt hg
    have hfit := h.fits
    exact hm x (by omega) (by omega)

/-- The headers lie outside of every grant. -/
theorem PoolInv.of_outside (h : PoolInv p m gs)
    (hm : ∀ x : U32, p.start ≤ x.toNat → x.toNat < p.stop →
      (∀ g ∈ gs, ¬ Within g.buffer g.size.toNat x) → m' x = m x) : PoolInv p m' gs := by
  have htop := h.top_lt
  have hfit := h.fits
  have hnot : ∀ x : U32, (∀ g ∈ gs, x.toNat < g.buffer.toNat ∨
      g.buffer.toNat + rounded g.size ≤ x.toNat) → ∀ g ∈ gs, ¬ Within g.buffer g.size.toNat x := by
    intro x hx g hg hw
    have hb := h.chain.bounds htop hg
    have hsize := size_le_rounded g.size
    rw [within_iff (by omega)] at hw
    have := hx g hg
    omega
  refine ⟨h.chain.congr htop ?_ ?_, hfit, h.nodup⟩
  · intro x hx hx'
    have hs := p.sentinel
    refine hm x hx (by omega) (hnot x fun g hg => ?_)
    have hb := h.chain.bounds htop hg
    omega
  · intro k hk x hx hx'
    have hbk := h.chain.bounds htop hk
    refine hm x (by omega) (by omega) (hnot x fun g hg => ?_)
    have hapart := h.chain.header_apart htop hg hk
    omega

theorem store_of_outside {g : Grant} {off : ℕ} {bs : List U8}
    (hoff : off + bs.length ≤ g.size.toNat) (hb : g.buffer.toNat + rounded g.size < 2 ^ 32)
    {x : U32} (hx : x.toNat < g.buffer.toNat ∨ g.buffer.toNat + rounded g.size ≤ x.toNat) :
    write m (g.buffer + BitVec.ofNat 32 off) bs x = m x := by
  refine write_of_not_within fun hw => ?_
  have hsize := size_le_rounded g.size
  have hin : Within g.buffer (rounded g.size) x := within_of_offset (by omega) hw
  rw [within_iff (by omega)] at hin
  omega

/-- A client write inside a granted buffer touches no header. -/
theorem PoolInv.store (h : PoolInv p m gs) {g : Grant} (hg : g ∈ gs) {off : ℕ} {bs : List U8}
    (hoff : off + bs.length ≤ g.size.toNat) :
    PoolInv p (write m (g.buffer + BitVec.ofNat 32 off) bs) gs := by
  refine h.of_outside fun x _ _ hout => write_of_not_within fun hw => ?_
  exact hout g hg (within_of_offset hoff hw)

theorem initPool_of_outside {x : U32} (hx : x.toNat < p.start ∨ p.stop ≤ x.toNat) :
    initPool p m x = m x := by
  have hs := p.sentinel
  have hstop := p.stop_le
  simp only [initPool, addr_add]
  rw [write32_of_not_within (not_within_addr (by omega) (by omega)),
    write16_of_not_within (not_within_addr (by omega) (by omega)),
    write16_of_not_within (not_within_addr (by omega) (by omega))]

theorem initPool_inv (p : Pool) (m : Memory 32) : PoolInv p (initPool p m) [] := by
  have hs := p.sentinel
  have hstop := p.stop_le
  refine ⟨⟨?_, ?_⟩, hs, List.nodup_nil⟩
  · simp only [sizeAt, initPool, addr_add]
    rw [word16_write32_apart (apart_addr (by omega) (by omega) (by omega)),
      word16_write16 (by decide)]
  · simp only [nextAt, initPool, addr_add]
    rw [word32_write32 (by decide)]

end Pool

/-- Memory with the grants made so far in each pool. -/
structure State where
  mem : Memory 32
  grants : Cap → List Grant

inductive Label where
  | alloc (cap : Cap) (id size : U16) (result : U32)
  | store (cap : Cap) (g : Grant) (off : ℕ) (bs : List U8)

def record (grants : Cap → List Grant) (cap : Cap) (g : Grant) : Cap → List Grant :=
  if g.buffer = 0 then grants else Function.update grants cap (grants cap ++ [g])

theorem record_same {grants : Cap → List Grant} {cap : Cap} {g : Grant} (h : g.buffer ≠ 0) :
    record grants cap g cap = grants cap ++ [g] := by
  rw [record, if_neg h, Function.update_self]

theorem record_other {grants : Cap → List Grant} {c d : Cap} (g : Grant) (h : d ≠ c) :
    record grants c g d = grants d := by
  unfold record
  split_ifs
  · rfl
  · rw [Function.update_of_ne h]

/-- Allocations of any kind, and client writes into the requested bytes of a
granted buffer. -/
inductive Step (cfg : MemConfig) : State → Label → State → Prop
  | alloc {s : State} {fuel : ℕ} {cap : Cap} {id size : U16} {r : U32} {m : Memory 32} :
      sysInfoAlloc cfg fuel s.mem id size cap = some (r, m) →
      Step cfg s (.alloc cap id size r) ⟨m, record s.grants cap ⟨id, size, r⟩⟩
  | store {s : State} {cap : Cap} {g : Grant} {off : ℕ} {bs : List U8} :
      g ∈ s.grants cap → off + bs.length ≤ g.size.toNat →
      Step cfg s (.store cap g off bs)
        ⟨write s.mem (g.buffer + BitVec.ofNat 32 off) bs, s.grants⟩

def State.start (cfg : MemConfig) (m : Memory 32) : State := ⟨sysInfoInit cfg m, fun _ => []⟩

/-- The successful allocations of a run, per pool. -/
def granted (cap : Cap) : List Label → List Grant
  | [] => []
  | .alloc c id size r :: ls =>
      if c = cap ∧ r ≠ 0 then ⟨id, size, r⟩ :: granted cap ls else granted cap ls
  | .store .. :: ls => granted cap ls

section System
variable {cfg : MemConfig} {s t : State}

theorem run_grants {ls : List Label} (h : Run (Step cfg) s ls t) (cap : Cap) :
    t.grants cap = s.grants cap ++ granted cap ls := by
  induction h with
  | done s => simp [granted]
  | next hs _ ih =>
      rw [ih]
      cases hs with
      | @alloc fuel c id size r m ha =>
          simp only [record, granted]
          by_cases hr : r = 0
          · rw [if_pos hr, if_neg (fun h => h.2 hr)]
          · rw [if_neg hr]
            by_cases hc : c = cap
            · subst hc
              rw [if_pos ⟨rfl, hr⟩, Function.update_self, List.append_assoc]
              rfl
            · rw [if_neg (fun h => hc h.1), Function.update_of_ne (Ne.symm hc)]
      | store hg hoff => rfl

theorem pool_rtc {p : Pool} (h : cfg.pool .rtc = some p) :
    cfg.target.lpCore = true ∧ cfg.rtcPool = p := by
  simpa only [MemConfig.pool, Option.ite_none_right_eq_some, Option.some.injEq] using h

/-- The HP pool lies far below the RTC pool. -/
theorem pool_gap (hlp : cfg.target.lpCore = true) :
    cfg.hpPool.stop + 2 ^ 16 ≤ cfg.rtcPool.start := by
  have hsize := cfg.rtc_range.2
  have hend : cfg.target.hpSharedMemEnd ≤ 0x4087e560 := by
    cases ht : cfg.target <;> simp_all [Target.lpCore, Target.hpSharedMemEnd]
  simp only [MemConfig.hpPool, MemConfig.rtcPool, MemConfig.rtcPoolStart,
    MemConfig.rtcPoolSize, alignUp, alignDown]
  omega

theorem pools_apart {c d : Cap} {p q : Pool} (hp : cfg.pool c = some p)
    (hq : cfg.pool d = some q) (hcd : c ≠ d) : p.stop ≤ q.start ∨ q.stop ≤ p.start := by
  cases c <;> cases d <;> simp only [MemConfig.pool, ne_eq, not_true_eq_false,
    Option.some.injEq, Option.ite_none_right_eq_some] at hp hq hcd
  · rw [← hp, ← hq.2]
    exact Or.inl (Nat.le_of_add_right_le (pool_gap hq.1))
  · rw [← hq, ← hp.2]
    exact Or.inr (Nat.le_of_add_right_le (pool_gap hp.1))

/-- Every pool is well formed. -/
def Wf (cfg : MemConfig) (s : State) : Prop :=
  ∀ cap p, cfg.pool cap = some p → PoolInv p s.mem (s.grants cap)

theorem start_wf (cfg : MemConfig) (m : Memory 32) : Wf cfg (State.start cfg m) := by
  intro cap p hp
  cases cap with
  | hp =>
      obtain rfl := Option.some.inj hp
      simp only [State.start, sysInfoInit]
      split_ifs with hlp
      · refine (initPool_inv cfg.hpPool m).congr fun x hx hx' => ?_
        refine initPool_of_outside ?_
        have hrtc : cfg.pool .rtc = some cfg.rtcPool := by
          simp only [MemConfig.pool, hlp, if_true]
        have := pools_apart hp hrtc (by decide)
        have hs := cfg.rtcPool.sentinel
        have hs' := cfg.hpPool.sentinel
        omega
      · exact initPool_inv _ _
  | rtc =>
      obtain ⟨hlp, rfl⟩ := pool_rtc hp
      simp only [State.start, sysInfoInit, hlp, if_true]
      exact initPool_inv _ _

theorem alloc_wf {fuel : ℕ} {cap : Cap} {id size : U16} {r : U32} {m : Memory 32}
    (h : Wf cfg s) (ha : sysInfoAlloc cfg fuel s.mem id size cap = some (r, m)) :
    Wf cfg ⟨m, record s.grants cap ⟨id, size, r⟩⟩ := by
  unfold sysInfoAlloc at ha
  cases hp : cfg.pool cap with
  | none =>
      rw [hp] at ha
      obtain ⟨rfl, rfl⟩ := Prod.mk.inj (Option.some.inj ha)
      exact h
  | some p =>
      rw [hp] at ha
      rcases (h cap p hp).alloc ha with ⟨rfl, rfl⟩ | ⟨hr, hinv, hout⟩
      · exact h
      · intro d q hq
        dsimp only
        by_cases hd : d = cap
        · subst hd
          obtain rfl := Option.some.inj (hp.symm.trans hq)
          rw [record_same hr]
          exact hinv
        · rw [record_other _ hd]
          refine (h d q hq).congr fun x hx hx' => hout x ?_
          have := pools_apart hq hp hd
          omega

/-- A granted buffer lies inside its pool. -/
theorem alloc_bounds {fuel : ℕ} {cap : Cap} {id size : U16} {r : U32} {m : Memory 32}
    (h : Wf cfg s) (ha : sysInfoAlloc cfg fuel s.mem id size cap = some (r, m)) (hr : r ≠ 0) :
    ∃ p, cfg.pool cap = some p ∧ p.start ≤ r.toNat ∧ r.toNat + rounded size ≤ p.stop := by
  cases hp : cfg.pool cap with
  | none =>
      simp only [sysInfoAlloc, hp, Option.some.injEq, Prod.mk.injEq] at ha
      exact absurd ha.1.symm hr
  | some p =>
      have hinv := alloc_wf h ha cap p hp
      dsimp only at hinv
      rw [record_same hr] at hinv
      have hb := hinv.chain.bounds hinv.top_lt
        (List.mem_append_right _ (List.mem_singleton_self _))
      have hfit := hinv.fits
      exact ⟨p, rfl, by simp only at hb; omega, by simp only at hb; omega⟩

theorem store_wf {cap : Cap} {g : Grant} {off : ℕ} {bs : List U8} (h : Wf cfg s)
    (hno : cfg.pool cap = none → s.grants cap = []) (hg : g ∈ s.grants cap)
    (hoff : off + bs.length ≤ g.size.toNat) :
    Wf cfg ⟨write s.mem (g.buffer + BitVec.ofNat 32 off) bs, s.grants⟩ := by
  intro d q hq
  cases hp : cfg.pool cap with
  | none =>
      rw [hno hp] at hg
      cases hg
  | some p =>
      by_cases hd : d = cap
      · subst hd
        exact (h d q hq).store hg hoff
      · have hb := (h cap p hp).chain.bounds (h cap p hp).top_lt hg
        have hfit := (h cap p hp).fits
        have hstop := p.stop_le
        refine (h d q hq).congr fun x hx hx' => store_of_outside hoff (by omega) ?_
        have := pools_apart hq hp hd
        omega

/-- Pools that do not exist grant nothing. -/
theorem step_wf {l : Label} (hs : Step cfg s l t)
    (h : Wf cfg s ∧ ∀ cap, cfg.pool cap = none → s.grants cap = []) :
    Wf cfg t ∧ ∀ cap, cfg.pool cap = none → t.grants cap = [] := by
  cases hs with
  | @alloc fuel c id size r m ha =>
      refine ⟨alloc_wf h.1 ha, fun cap hp => ?_⟩
      simp only [record]
      split_ifs with hr
      · exact h.2 cap hp
      · by_cases hc : cap = c
        · subst hc
          simp only [sysInfoAlloc, hp, Option.some.injEq, Prod.mk.injEq] at ha
          exact absurd ha.1.symm hr
        · rw [Function.update_of_ne hc]
          exact h.2 cap hp
  | store hg hoff => exact ⟨store_wf h.1 (h.2 _) hg hoff, h.2⟩

theorem run_wf {m : Memory 32} {ls : List Label} (h : Run (Step cfg) (State.start cfg m) ls s) :
    Wf cfg s :=
  (h.invariant (fun _ _ _ hs => step_wf hs) ⟨start_wf cfg m, fun _ _ => rfl⟩).1

end System

/-- After `esp_amp_sys_info_init` and any allocations and client writes: (a) the
sentinel, the headers and the granted regions of a pool are disjoint and inside
it, and each header holds its grant; (b) a lookup finds exactly the successful
allocations of the run, with their pointer and size; (c) an allocation fails
exactly when the id is present or there is no room, and then writes nothing.
Every walk ends within the number of grants. -/
theorem sys_info_allocator_invariant (cfg : MemConfig) (m : Memory 32) (ls : List Label)
    (s : State) (hrun : Run (Step cfg) (State.start cfg m) ls s) (cap : Cap) (p : Pool)
    (hp : cfg.pool cap = some p) :
    ((regions p (granted cap ls)).Pairwise (fun r t => r.1 + r.2 ≤ t.1) ∧
      (∀ r ∈ regions p (granted cap ls), p.start ≤ r.1 ∧ r.1 + r.2 ≤ p.stop) ∧
      (∀ g ∈ granted cap ls, infoIdAt s.mem (g.buffer - 8#32) = g.id ∧
        sizeAt s.mem (g.buffer - 8#32) = g.size) ∧
      ∀ d q, cfg.pool d = some q → cap ≠ d → p.stop ≤ q.start ∨ q.stop ≤ p.start) ∧
    (∀ id fuel, (granted cap ls).length < fuel →
      (sysInfoGet cfg fuel s.mem id cap = some none ↔ ∀ g ∈ granted cap ls, g.id ≠ id) ∧
      ∀ g ∈ granted cap ls, g.id = id →
        sysInfoGet cfg fuel s.mem id cap = some (some (g.buffer, g.size))) ∧
    ∀ id size fuel, (granted cap ls).length < fuel →
      ∃ r m', sysInfoAlloc cfg fuel s.mem id size cap = some (r, m') ∧
        (r = 0 ↔ Refused p (granted cap ls) id size) ∧ (r = 0 → m' = s.mem) := by
  have hinv : PoolInv p s.mem (granted cap ls) := by
    have hg := run_grants hrun cap
    rw [State.start, List.nil_append] at hg
    exact hg ▸ run_wf hrun cap p hp
  have htop := hinv.top_lt
  refine ⟨⟨hinv.regions_apart, hinv.regions_inside, fun g hg => hinv.chain.header htop hg,
    fun d q hq hcd => pools_apart hp hq hcd⟩, ?_, ?_⟩
  · intro id fuel hf
    have hget : sysInfoGet cfg fuel s.mem id cap =
        some (((granted cap ls).find? (·.id = id)).map fun g => (g.buffer, g.size)) := by
      rw [sysInfoGet, hp]
      exact hinv.chain.findEntry_eq htop id hf
    constructor
    · rw [hget, Option.some.injEq, Option.map_eq_none_iff, List.find?_eq_none]
      simp
    · intro g hg hid
      have hfind := find_of_nodup hinv.nodup hg
      rw [hid] at hfind
      rw [hget, hfind]
      rfl
  · intro id size fuel hf
    rw [sysInfoAlloc, hp]
    exact hinv.poolAlloc_total id size hf

/-- An ESP32-C6 build with the default pool sizes. -/
def c6Defaults : MemConfig where
  target := .esp32c6
  hpSharedMemSize := 16384
  hp_range := by decide
  rtcSharedMemSize := 256
  rtc_range := by decide
  reserveRtcMem := 0
  ulpCoprocReserveMem := 4096
  rtc_ram := by decide

/-- One allocation of five bytes in each pool, and a client write into the first. -/
def twoPools : List Label :=
  [.alloc .hp 7 5 0x4087a590, .store .hp ⟨7, 5, 0x4087a590⟩ 1 [1, 2, 3, 4],
    .alloc .rtc 7 5 0x50000f10]

theorem twoPools_run : ∃ s, Run (Step c6Defaults)
    (State.start c6Defaults fun _ => 0) twoPools s := by
  obtain ⟨m, hm⟩ : ∃ m, sysInfoAlloc c6Defaults 1 (sysInfoInit c6Defaults fun _ => 0) 7 5 .hp =
      some (0x4087a590, m) := ⟨_, rfl⟩
  have hrtc : ∃ m', sysInfoAlloc c6Defaults 1 (write m 0x4087a591 [1, 2, 3, 4]) 7 5 .rtc =
      some (0x50000f10, m') := by
    obtain rfl := (Prod.mk.inj (Option.some.inj hm)).2
    exact ⟨_, rfl⟩
  obtain ⟨m', hm'⟩ := hrtc
  have hmem : (⟨7, 5, 0x4087a590⟩ : Grant) ∈
      record (fun _ => []) .hp ⟨7, 5, 0x4087a590⟩ .hp := by decide
  exact ⟨_, .next (.alloc hm) (.next (.store hmem (by decide)) (.single (.alloc hm')))⟩

/-- Both grants lie in their pools, and the second one is found again. -/
theorem twoPools_invariant : ∃ s, Run (Step c6Defaults)
      (State.start c6Defaults fun _ => 0) twoPools s ∧
    (∀ r ∈ regions c6Defaults.hpPool [⟨7, 5, 0x4087a590⟩],
      c6Defaults.hpPool.start ≤ r.1 ∧ r.1 + r.2 ≤ c6Defaults.hpPool.stop) ∧
    sysInfoGet c6Defaults 2 s.mem 7 .rtc = some (some (0x50000f10, 5)) := by
  obtain ⟨s, hs⟩ := twoPools_run
  refine ⟨s, hs, ?_, ?_⟩
  · exact (sys_info_allocator_invariant c6Defaults _ twoPools s hs .hp _ rfl).1.2.1
  · exact ((sys_info_allocator_invariant c6Defaults _ twoPools s hs .rtc _ rfl).2.1 7 2
      (by decide)).2 ⟨7, 5, 0x50000f10⟩ (by decide) rfl

end EspAmp.SysInfo
