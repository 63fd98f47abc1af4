import EspAmp.Words
import Mathlib.Data.List.Range

/-!
# Byte memory over a wrapping address space

A memory maps every address of `w` bits to a byte. A region is a base address
and a length; an address lies within it when its wrapped distance from the base
is below the length, so no side condition about wrap-around is ever needed.
Writes replace the bytes of one region, reads list them, and everything outside
the written region is kept. Words are stored little-endian.
-/
namespace EspAmp.ByteMemory

abbrev Memory (w : ℕ) := BitVec w → BitVec 8

section
variable {w : ℕ} {m m' : Memory w} {a b x : BitVec w}

def Within (a : BitVec w) (len : ℕ) (x : BitVec w) : Prop := (x - a).toNat < len

instance (a : BitVec w) (len : ℕ) (x : BitVec w) : Decidable (Within a len x) :=
  inferInstanceAs (Decidable ((x - a).toNat < len))

theorem Within.mono {n k : ℕ} (hnk : n ≤ k) (h : Within a n x) : Within a k x :=
  Nat.lt_of_lt_of_le h hnk

/-- Two regions without a common address. -/
def Apart (a : BitVec w) (n : ℕ) (b : BitVec w) (k : ℕ) : Prop :=
  ∀ x, Within a n x → ¬ Within b k x

theorem Apart.symm {n k : ℕ} (h : Apart a n b k) : Apart b k a n := fun x hb ha => h x ha hb

def write (m : Memory w) (a : BitVec w) (bs : List (BitVec 8)) : Memory w :=
  fun x => bs[(x - a).toNat]?.getD (m x)

def read (m : Memory w) (a : BitVec w) (n : ℕ) : List (BitVec 8) :=
  (List.range n).map fun i => m (a + BitVec.ofNat w i)

@[simp]
theorem length_read {n : ℕ} : (read m a n).length = n := by
  rw [read, List.length_map, List.length_range]

theorem read_succ (a : BitVec w) (n : ℕ) :
    read m a (n + 1) = m a :: read m (a + BitVec.ofNat w 1) n := by
  rw [read, List.range_succ_eq_map, List.map_cons, List.map_map, BitVec.add_zero]
  refine congrArg (m a :: ·) (List.map_congr_left fun i _ => ?_)
  rw [Function.comp_apply, BitVec.add_assoc, ← BitVec.ofNat_add, Nat.succ_eq_one_add]

theorem write_of_not_within {bs : List (BitVec 8)} (h : ¬ Within a bs.length x) :
    write m a bs x = m x := by
  unfold Within at h
  rw [write, List.getElem?_eq_none (by omega), Option.getD_none]

/-- A single byte is stored at its own address only. -/
theorem write_byte_of_ne {v : BitVec 8} (h : x ≠ a) : write m a [v] x = m x := by
  refine write_of_not_within fun hw => h ?_
  have hz : (x - a).toNat = 0 := Nat.lt_one_iff.mp hw
  exact (BitVec.sub_eq_iff_eq_add.mp (BitVec.eq_of_toNat_eq hz)).trans (BitVec.zero_add a)

theorem sub_add_ofNat (a : BitVec w) {i : ℕ} (hi : i < 2 ^ w) :
    (a + BitVec.ofNat w i - a).toNat = i := by
  rw [BitVec.add_comm, BitVec.add_sub_cancel, BitVec.toNat_ofNat, Nat.mod_eq_of_lt hi]

theorem write_add_ofNat (bs : List (BitVec 8)) {i : ℕ} (hw : bs.length ≤ 2 ^ w)
    (hi : i < bs.length) : write m a bs (a + BitVec.ofNat w i) = bs[i] := by
  rw [write, sub_add_ofNat a (by omega), List.getElem?_eq_getElem hi, Option.getD_some]

theorem within_add_ofNat {n i : ℕ} (hi : i < n) : Within a n (a + BitVec.ofNat w i) := by
  rw [Within, BitVec.add_comm, BitVec.add_sub_cancel, BitVec.toNat_ofNat]
  exact (Nat.mod_le _ _).trans_lt hi

/-- Memories that agree on a region read alike there. -/
theorem read_congr {n : ℕ} (h : ∀ x, Within a n x → m x = m' x) :
    read m a n = read m' a n := by
  apply List.map_congr_left
  intro i hi
  rw [List.mem_range] at hi
  exact h _ (within_add_ofNat hi)

/-- Memories that read alike on a region agree there. -/
theorem eq_of_read_eq {n : ℕ} (h : read m a n = read m' a n) (hx : Within a n x) : m x = m' x := by
  have hbyte : a + BitVec.ofNat w (x - a).toNat = x := by
    rw [BitVec.ofNat_toNat, BitVec.setWidth_eq, add_sub_cancel]
  have hi := List.getElem_of_eq h (i := (x - a).toNat) (by rwa [length_read])
  simp only [read, List.getElem_map, List.getElem_range, hbyte] at hi
  exact hi

/-- Bytes written to the front of a region that is read. -/
theorem read_write_append {bs : List (BitVec 8)} {n : ℕ} (hn : bs.length ≤ n) (hw : n ≤ 2 ^ w) :
    read (write m a bs) a n = bs ++ (read m a n).drop bs.length := by
  refine List.ext_getElem ?_ fun i hi hi' => ?_
  · rw [length_read, List.length_append, List.length_drop, length_read]
    omega
  · rw [length_read] at hi
    simp only [read, List.getElem_map, List.getElem_range, write, sub_add_ofNat a (hi.trans_le hw),
      List.getElem_append, List.getElem_drop]
    split_ifs with hfront
    · rw [List.getElem?_eq_getElem hfront, Option.getD_some]
    · rw [List.getElem?_eq_none (Nat.le_of_not_lt hfront), Option.getD_none,
        Nat.add_sub_cancel' (Nat.le_of_not_lt hfront)]

/-- Written bytes are read back. -/
theorem read_write (bs : List (BitVec 8)) (hw : bs.length ≤ 2 ^ w) :
    read (write m a bs) a bs.length = bs := by
  rw [read_write_append le_rfl hw, List.drop_eq_nil_of_le length_read.le, List.append_nil]

theorem take_read (n k : ℕ) : (read m a n).take k = read m a (min k n) := by
  rw [read, read, ← List.map_take, List.take_range]

theorem sub_eq_offset_add (a x : BitVec w) (k : ℕ) :
    x - a = (x - (a + BitVec.ofNat w k)) + BitVec.ofNat w k := by
  rw [sub_add_eq_sub_sub, sub_add_cancel]

/-- Bytes written behind others. -/
theorem write_write_append (bs cs : List (BitVec 8)) (hw : (bs ++ cs).length ≤ 2 ^ w) :
    write (write m a bs) (a + BitVec.ofNat w bs.length) cs = write m a (bs ++ cs) := by
  rw [List.length_append] at hw
  rcases Nat.eq_zero_or_pos cs.length with hcs | hcs
  · rw [List.eq_nil_of_length_eq_zero hcs, List.append_nil]
    rfl
  · funext x
    have hdist := congrArg BitVec.toNat (sub_eq_offset_add a x bs.length)
    have hlt := (x - (a + BitVec.ofNat w bs.length)).isLt
    rw [BitVec.toNat_add, BitVec.toNat_ofNat, Nat.mod_eq_of_lt (show bs.length < 2 ^ w by omega)]
      at hdist
    rw [write, write, write]
    generalize (x - a).toNat = d at hdist ⊢
    generalize (x - (a + BitVec.ofNat w bs.length)).toNat = e at hdist hlt ⊢
    rcases Nat.lt_or_ge (e + bs.length) (2 ^ w) with he | he
    · rw [Nat.mod_eq_of_lt he] at hdist
      rw [List.getElem?_append_right (by omega),
        List.getElem?_eq_none (show bs.length ≤ d by omega), Option.getD_none,
        show d - bs.length = e by omega]
    · rw [Nat.mod_eq_sub_mod he, Nat.mod_eq_of_lt (by omega)] at hdist
      rw [List.getElem?_append_left (by omega),
        List.getElem?_eq_none (show cs.length ≤ e by omega), Option.getD_none]

/-- A region at a fixed offset inside another one. -/
theorem within_of_offset {k n len : ℕ} (hk : k + n ≤ len)
    (h : Within (a + BitVec.ofNat w k) n x) : Within a len x := by
  unfold Within at *
  have hsub := sub_eq_offset_add a x k
  have hmod : k % 2 ^ w ≤ k := Nat.mod_le _ _
  rw [hsub, BitVec.toNat_add, BitVec.toNat_ofNat]
  exact (Nat.mod_le _ _).trans_lt (by omega)

/-- Regions at increasing offsets of one base are apart. -/
theorem apart_of_offsets {i n j k : ℕ} (hij : i + n ≤ j) (hw : j + k ≤ 2 ^ w) :
    Apart (a + BitVec.ofNat w i) n (a + BitVec.ofNat w j) k := by
  intro x hx hy
  unfold Within at *
  have h := congrArg BitVec.toNat
    ((sub_eq_offset_add a x i).symm.trans (sub_eq_offset_add a x j))
  rw [BitVec.toNat_add, BitVec.toNat_add, BitVec.toNat_ofNat, BitVec.toNat_ofNat] at h
  generalize (x - (a + BitVec.ofNat w i)).toNat = p at *
  generalize (x - (a + BitVec.ofNat w j)).toNat = q at *
  rcases Nat.eq_zero_or_pos k with rfl | hk
  · omega
  · rw [Nat.mod_eq_of_lt (show i < 2 ^ w by omega), Nat.mod_eq_of_lt (show j < 2 ^ w by omega),
      Nat.mod_eq_of_lt (show p + i < 2 ^ w by omega),
      Nat.mod_eq_of_lt (show q + j < 2 ^ w by omega)] at h
    omega

/-- Without wrap-around a region is an interval. -/
theorem within_iff {n : ℕ} (h : a.toNat + n ≤ 2 ^ w) :
    Within a n x ↔ a.toNat ≤ x.toNat ∧ x.toNat < a.toNat + n := by
  have ha := a.isLt
  have hx := x.isLt
  unfold Within
  rw [BitVec.toNat_sub]
  rcases Nat.lt_or_ge x.toNat a.toNat with hlt | hge
  · rw [Nat.mod_eq_of_lt (by omega)]
    omega
  · have he : 2 ^ w - a.toNat + x.toNat = x.toNat - a.toNat + 2 ^ w := by omega
    rw [he, Nat.add_mod_right, Nat.mod_eq_of_lt (by omega)]
    omega

end

section Consecutive
variable {w : ℕ} {a : BitVec w}

/-- Regions of the given lengths, placed one behind the other from offset `off`
of a base address. -/
def consecutive (a : BitVec w) : ℕ → List ℕ → List (BitVec w × ℕ)
  | _, [] => []
  | off, n :: ns => (a + BitVec.ofNat w off, n) :: consecutive a (off + n) ns

theorem consecutive_append (off : ℕ) (ns ks : List ℕ) :
    consecutive a off (ns ++ ks) = consecutive a off ns ++ consecutive a (off + ns.sum) ks := by
  induction ns generalizing off with
  | nil => simp [consecutive]
  | cons n ns ih =>
      simp only [List.cons_append, consecutive, ih, List.sum_cons]
      rw [Nat.add_assoc]

theorem consecutive_replicate (off n k : ℕ) : consecutive a off (List.replicate n k) =
    (List.range n).map fun i => (a + BitVec.ofNat w off + BitVec.ofNat w (i * k), k) := by
  induction n generalizing off with
  | zero => rfl
  | succ n ih =>
      rw [List.replicate_succ, consecutive, ih, List.range_succ_eq_map, List.map_cons, List.map_map]
      refine congrArg₂ _ (by simp) (List.map_congr_left fun i _ => ?_)
      simp only [Function.comp_apply, BitVec.add_assoc, ← BitVec.ofNat_add, Nat.succ_mul]
      rw [Nat.add_assoc, Nat.add_comm k]

theorem mem_consecutive {off : ℕ} {ns : List ℕ} {r : BitVec w × ℕ}
    (h : r ∈ consecutive a off ns) :
    ∃ k, off ≤ k ∧ k + r.2 ≤ off + ns.sum ∧ r.1 = a + BitVec.ofNat w k := by
  induction ns generalizing off with
  | nil => cases h
  | cons n ns ih =>
      rw [List.sum_cons]
      rcases List.mem_cons.mp h with rfl | h
      · exact ⟨off, le_rfl, by simp only; omega, rfl⟩
      · obtain ⟨k, h₁, h₂, h₃⟩ := ih h
        exact ⟨k, by omega, by omega, h₃⟩

theorem consecutive_apart {off : ℕ} {ns : List ℕ} (h : off + ns.sum ≤ 2 ^ w) :
    (consecutive a off ns).Pairwise fun r t => Apart r.1 r.2 t.1 t.2 := by
  induction ns generalizing off with
  | nil => exact List.Pairwise.nil
  | cons n ns ih =>
      rw [List.sum_cons] at h
      refine List.pairwise_cons.mpr ⟨?_, ih (by omega)⟩
      intro t ht
      obtain ⟨k, hk, hk', heq⟩ := mem_consecutive ht
      rw [heq]
      exact apart_of_offsets hk (by omega)

/-- Every byte up to the total length belongs to one of the regions. -/
theorem consecutive_cover {off o : ℕ} {ns : List ℕ} (h : off ≤ o) (h' : o < off + ns.sum) :
    ∃ r ∈ consecutive a off ns, Within r.1 r.2 (a + BitVec.ofNat w o) := by
  induction ns generalizing off with
  | nil => simp only [List.sum_nil] at h'; omega
  | cons n ns ih =>
      rw [List.sum_cons] at h'
      by_cases hn : o < off + n
      · refine ⟨_, List.mem_cons_self .., ?_⟩
        have hsplit : a + BitVec.ofNat w o =
            a + BitVec.ofNat w off + BitVec.ofNat w (o - off) := by
          rw [BitVec.add_assoc, ← BitVec.ofNat_add, Nat.add_sub_cancel' h]
        rw [hsplit]
        exact within_add_ofNat (by simp only; omega)
      · obtain ⟨r, hr, hx⟩ := ih (show off + n ≤ o by omega) (by omega)
        exact ⟨r, List.mem_cons_of_mem _ hr, hx⟩

end Consecutive

section Words
variable {w : ℕ} {m m' : Memory w} {a : BitVec w}

def bytes16 (v : BitVec 16) : List (BitVec 8) := [v.extractLsb' 0 8, v.extractLsb' 8 8]

def bytes32 (v : BitVec 32) : List (BitVec 8) :=
  [v.extractLsb' 0 8, v.extractLsb' 8 8, v.extractLsb' 16 8, v.extractLsb' 24 8]

def word16 (m : Memory w) (a : BitVec w) : BitVec 16 :=
  m (a + BitVec.ofNat w 1) ++ m (a + BitVec.ofNat w 0)

def word32 (m : Memory w) (a : BitVec w) : BitVec 32 :=
  m (a + BitVec.ofNat w 3) ++ m (a + BitVec.ofNat w 2) ++ m (a + BitVec.ofNat w 1) ++
    m (a + BitVec.ofNat w 0)

def write16 (m : Memory w) (a : BitVec w) (v : BitVec 16) : Memory w := write m a (bytes16 v)
def write32 (m : Memory w) (a : BitVec w) (v : BitVec 32) : Memory w := write m a (bytes32 v)

theorem write16_of_not_within {v : BitVec 16} {x : BitVec w} (h : ¬ Within a 2 x) :
    write16 m a v x = m x := write_of_not_within h

theorem write32_of_not_within {v : BitVec 32} {x : BitVec w} (h : ¬ Within a 4 x) :
    write32 m a v x = m x := write_of_not_within h

theorem word16_congr (h : ∀ x, Within a 2 x → m x = m' x) :
    word16 m a = word16 m' a := by
  unfold word16
  rw [h _ (within_add_ofNat (by decide)), h _ (within_add_ofNat (by decide))]

theorem word32_congr (h : ∀ x, Within a 4 x → m x = m' x) :
    word32 m a = word32 m' a := by
  unfold word32
  rw [h _ (within_add_ofNat (by decide)), h _ (within_add_ofNat (by decide)),
    h _ (within_add_ofNat (by decide)), h _ (within_add_ofNat (by decide))]

theorem word16_write16_apart {b : BitVec w} {v : BitVec 16}
    (h : Apart b 2 a 2) : word16 (write16 m a v) b = word16 m b :=
  word16_congr fun x hx => write16_of_not_within (h x hx)

theorem word16_write32_apart {b : BitVec w} {v : BitVec 32}
    (h : Apart b 2 a 4) : word16 (write32 m a v) b = word16 m b :=
  word16_congr fun x hx => write32_of_not_within (h x hx)

theorem word32_write16_apart {b : BitVec w} {v : BitVec 16}
    (h : Apart b 4 a 2) : word32 (write16 m a v) b = word32 m b :=
  word32_congr fun x hx => write16_of_not_within (h x hx)

theorem word32_write32_apart {b : BitVec w} {v : BitVec 32}
    (h : Apart b 4 a 4) : word32 (write32 m a v) b = word32 m b :=
  word32_congr fun x hx => write32_of_not_within (h x hx)

/-- A word among written bytes. -/
theorem word16_write (pre post : List (BitVec 8)) (v : BitVec 16)
    (hw : (pre ++ (bytes16 v ++ post)).length ≤ 2 ^ w) :
    word16 (write m a (pre ++ (bytes16 v ++ post))) (a + BitVec.ofNat w pre.length) = v := by
  have hlen : (pre ++ (bytes16 v ++ post)).length = pre.length + (2 + post.length) := by
    simp only [List.length_append]
    rfl
  have h₁ : write m a (pre ++ (bytes16 v ++ post)) (a + BitVec.ofNat w pre.length +
      BitVec.ofNat w 1) = v.extractLsb' 8 8 := by
    rw [BitVec.add_assoc, ← BitVec.ofNat_add, write_add_ofNat _ hw (by omega)]
    simp [bytes16]
  have h₀ : write m a (pre ++ (bytes16 v ++ post)) (a + BitVec.ofNat w pre.length +
      BitVec.ofNat w 0) = v.extractLsb' 0 8 := by
    rw [BitVec.add_assoc, ← BitVec.ofNat_add, write_add_ofNat _ hw (by omega)]
    simp [bytes16]
  rw [word16, h₁, h₀, BitVec.extractLsb'_append_extractLsb'_eq_extractLsb' (by decide)]
  simp

theorem word16_write16 (hw : 2 ≤ 2 ^ w) (v : BitVec 16) : word16 (write16 m a v) a = v := by
  have h := word16_write (m := m) (a := a) [] [] v hw
  simp only [List.nil_append, List.append_nil, List.length_nil, BitVec.add_zero] at h
  exact h

theorem word32_write (pre post : List (BitVec 8)) (v : BitVec 32)
    (hw : (pre ++ (bytes32 v ++ post)).length ≤ 2 ^ w) :
    word32 (write m a (pre ++ (bytes32 v ++ post))) (a + BitVec.ofNat w pre.length) = v := by
  have hlen : (pre ++ (bytes32 v ++ post)).length = pre.length + (4 + post.length) := by
    simp only [List.length_append]
    rfl
  have h₃ : write m a (pre ++ (bytes32 v ++ post)) (a + BitVec.ofNat w pre.length +
      BitVec.ofNat w 3) = v.extractLsb' 24 8 := by
    rw [BitVec.add_assoc, ← BitVec.ofNat_add, write_add_ofNat _ hw (by omega)]
    simp [bytes32]
  have h₂ : write m a (pre ++ (bytes32 v ++ post)) (a + BitVec.ofNat w pre.length +
      BitVec.ofNat w 2) = v.extractLsb' 16 8 := by
    rw [BitVec.add_assoc, ← BitVec.ofNat_add, write_add_ofNat _ hw (by omega)]
    simp [bytes32]
  have h₁ : write m a (pre ++ (bytes32 v ++ post)) (a + BitVec.ofNat w pre.length +
      BitVec.ofNat w 1) = v.extractLsb' 8 8 := by
    rw [BitVec.add_assoc, ← BitVec.ofNat_add, write_add_ofNat _ hw (by omega)]
    simp [bytes32]
  have h₀ : write m a (pre ++ (bytes32 v ++ post)) (a + BitVec.ofNat w pre.length +
      BitVec.ofNat w 0) = v.extractLsb' 0 8 := by
    rw [BitVec.add_assoc, ← BitVec.ofNat_add, write_add_ofNat _ hw (by omega)]
    simp [bytes32]
  rw [word32, h₃, h₂, h₁, h₀, BitVec.extractLsb'_append_extractLsb'_eq_extractLsb' (by decide),
    BitVec.extractLsb'_append_extractLsb'_eq_extractLsb' (by decide),
    BitVec.extractLsb'_append_extractLsb'_eq_extractLsb' (by decide)]
  simp

theorem word32_write32 (hw : 4 ≤ 2 ^ w) (v : BitVec 32) : word32 (write32 m a v) a = v := by
  have h := word32_write (m := m) (a := a) [] [] v hw
  simp only [List.nil_append, List.append_nil, List.length_nil, BitVec.add_zero] at h
  exact h

theorem length_flatMap_bytes32 (ws : List (BitVec 32)) :
    (ws.flatMap bytes32).length = 4 * ws.length := by
  induction ws with
  | nil => rfl
  | cons v ws ih =>
      rw [List.flatMap_cons, List.length_append, ih, List.length_cons, bytes32]
      simp only [List.length_cons, List.length_nil]
      omega

/-- A word of a copied array of words. -/
theorem word32_write_words (ws : List (BitVec 32)) {x : ℕ} (hx : x < ws.length)
    (hw : 4 * ws.length ≤ 2 ^ w) :
    word32 (write m a (ws.flatMap bytes32)) (a + BitVec.ofNat w (4 * x)) = ws[x] := by
  have hsplit : ws.flatMap bytes32 = (ws.take x).flatMap bytes32 ++
      (bytes32 ws[x] ++ (ws.drop (x + 1)).flatMap bytes32) := by
    rw [← List.flatMap_cons, ← List.drop_eq_getElem_cons hx, ← List.flatMap_append,
      List.take_append_drop]
  have hpre : ((ws.take x).flatMap bytes32).length = 4 * x := by
    rw [length_flatMap_bytes32, List.length_take, min_eq_left hx.le]
  have h := word32_write (m := m) (a := a) ((ws.take x).flatMap bytes32)
    ((ws.drop (x + 1)).flatMap bytes32) ws[x] (by rwa [← hsplit, length_flatMap_bytes32])
  rwa [← hsplit, hpre] at h

/-- A word of a copied region. -/
theorem word32_write_read {c : BitVec w} {k n : ℕ} (hk : k + 4 ≤ n) (hw : n ≤ 2 ^ w) :
    word32 (write m a (read m' c n)) (a + BitVec.ofNat w k) =
      word32 m' (c + BitVec.ofNat w k) := by
  have hbyte : ∀ i < 4, write m a (read m' c n) (a + BitVec.ofNat w k + BitVec.ofNat w i) =
      m' (c + BitVec.ofNat w k + BitVec.ofNat w i) := by
    intro i hi
    rw [BitVec.add_assoc, BitVec.add_assoc, ← BitVec.ofNat_add,
      write_add_ofNat _ (by rwa [length_read]) (by rw [length_read]; omega)]
    simp [read]
  rw [word32, word32, hbyte 3 (by decide), hbyte 2 (by decide), hbyte 1 (by decide),
    hbyte 0 (by decide)]

end Words
end EspAmp.ByteMemory
