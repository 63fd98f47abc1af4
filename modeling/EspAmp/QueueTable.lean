import EspAmp.QueueMemory

/-!
# The descriptor table in memory

The byte-level initialization of a queue area writes its config struct and its
descriptor table and nothing else, and what it leaves there decodes to the table
of the word-level model. The loop of the source reads its bound and the table
pointer back from the config struct; this is harmless because struct and table
are apart.
-/
namespace EspAmp.QueueMemory
open ByteMemory SysInfo Virtqueue

section Entry
variable {m : Memory 32} {conf desc : U32} {i : ℕ}

/-- The stores of one entry, once the table pointer is known. -/
def writeDesc (m : Memory 32) (e buffer : U32) (itemSize : U16) : Memory 32 :=
  write16 (write16 (write32 m e buffer) (e + 6#32) 0) (e + 4#32) itemSize

/-- Stores into the fields of an entry stay inside it. -/
theorem writeFields_of_outside {e addr x : U32} {v w : U16} {i j : ℕ} (hi : i + 2 ≤ 8)
    (hj : j + 2 ≤ 8) (h : ¬ Within e 8 x) :
    write16 (write16 (write32 m e addr) (e + BitVec.ofNat 32 i) v) (e + BitVec.ofNat 32 j) w x =
      m x := by
  rw [write16_of_not_within (fun hw => h (within_of_offset hj hw)),
    write16_of_not_within (fun hw => h (within_of_offset hi hw)), write32_of_not_within]
  intro hw
  exact h (lt_of_lt_of_le hw (by decide))

theorem writeDesc_of_outside {e buffer : U32} {itemSize : U16} {x : U32} (h : ¬ Within e 8 x) :
    writeDesc m e buffer itemSize x = m x :=
  writeFields_of_outside (i := 6) (j := 4) (by decide) (by decide) h

/-- The three fields of an entry are apart. -/
theorem entry_apart (e : U32) : Apart e 4 (e + 4#32) 2 ∧ Apart e 4 (e + 6#32) 2 ∧
    Apart (e + 4#32) 2 (e + 6#32) 2 := by
  have h₀ : e = e + BitVec.ofNat 32 0 := by simp
  refine ⟨?_, ?_, apart_of_offsets (by decide) (by decide)⟩
  · have h := apart_of_offsets (a := e) (i := 0) (n := 4) (j := 4) (k := 2) (by decide) (by decide)
    rwa [← h₀] at h
  · have h := apart_of_offsets (a := e) (i := 0) (n := 4) (j := 6) (k := 2) (by decide) (by decide)
    rwa [← h₀] at h

theorem writeDesc_words (e buffer : U32) (itemSize : U16) :
    word32 (writeDesc m e buffer itemSize) e = buffer ∧
      word16 (writeDesc m e buffer itemSize) (e + 4#32) = itemSize ∧
      word16 (writeDesc m e buffer itemSize) (e + 6#32) = 0 := by
  obtain ⟨h₄, h₆, h₄₆⟩ := entry_apart e
  unfold writeDesc
  refine ⟨?_, ?_, ?_⟩
  · rw [word32_write16_apart h₄, word32_write16_apart h₆,
      word32_write32 (by decide)]
  · rw [word16_write16 (by decide)]
  · rw [word16_write16_apart h₄₆.symm, word16_write16 (by decide)]

/-- Memories that agree on an entry decode it alike. -/
theorem descAt_congr {m' : Memory 32} (h : ∀ x, Within (descAddr desc i) 8 x → m' x = m x) :
    descAt m' desc i = descAt m desc i := by
  have h₀ : word32 m' (descAddr desc i) = word32 m (descAddr desc i) :=
    word32_congr fun x hx => h x (lt_of_lt_of_le hx (by decide))
  have h₄ : word16 m' (descAddr desc i + 4#32) = word16 m (descAddr desc i + 4#32) :=
    word16_congr fun x hx => h x (within_of_offset (by decide) hx)
  have h₆ : word16 m' (descAddr desc i + 6#32) = word16 m (descAddr desc i + 6#32) :=
    word16_congr fun x hx => h x (within_of_offset (by decide) hx)
  simp only [descAt, h₀, h₄, h₆]

theorem confAt_congr {m' : Memory 32} (h : ∀ x, Within conf 12 x → m' x = m x) :
    confAt m' conf = confAt m conf := by
  have h₀ : word16 m' conf = word16 m conf :=
    word16_congr fun x hx => h x (lt_of_lt_of_le hx (by decide))
  have h₂ : word16 m' (conf + 2#32) = word16 m (conf + 2#32) :=
    word16_congr fun x hx => h x (within_of_offset (by decide) hx)
  have h₄ : word32 m' (conf + 4#32) = word32 m (conf + 4#32) :=
    word32_congr fun x hx => h x (within_of_offset (by decide) hx)
  have h₈ : word32 m' (conf + 8#32) = word32 m (conf + 8#32) :=
    word32_congr fun x hx => h x (within_of_offset (by decide) hx)
  simp only [confAt, queueSizeAt, maxItemSizeAt, queueBufferAt, queueDescAt, h₀, h₂, h₄, h₈]

end Entry

section Loop
variable {m : Memory 32} {conf desc : U32} {len itemSize : U16}

theorem within_table {i n : ℕ} (hi : i < n) {x : U32} (h : Within (descAddr desc i) 8 x) :
    Within desc (8 * n) x :=
  within_of_offset (by omega) h

theorem entries_apart {i j n : ℕ} (hn : 8 * n ≤ 2 ^ 32) (hi : i < n) (hj : j < n) (hij : i ≠ j) :
    Apart (descAddr desc i) 8 (descAddr desc j) 8 := by
  rcases Nat.lt_or_gt_of_ne hij with h | h
  · exact apart_of_offsets (by omega) (by omega)
  · exact (apart_of_offsets (by omega) (by omega)).symm

/-- Struct and table apart: the pointer is the same before each store. -/
theorem storeDesc_eq {i n : ℕ} (hap : Apart conf 12 desc (8 * n)) (hi : i < n) {buffer : U32}
    (hd : queueDescAt m conf = desc) :
    storeDesc m conf i buffer itemSize = writeDesc m (descAddr desc i) buffer itemSize := by
  have hframe : ∀ m' : Memory 32, (∀ x, ¬ Within (descAddr desc i) 8 x → m' x = m x) →
      queueDescAt m' conf = desc := by
    intro m' hm'
    have hconf := confAt_congr fun x hx => hm' x fun hw => hap x hx (within_table hi hw)
    exact (congrArg QueueConf.queueDesc hconf).trans hd
  have h₁ : queueDescAt (write32 m (descAddr desc i) buffer) conf = desc :=
    hframe _ fun x hx => write32_of_not_within fun hw => hx (lt_of_lt_of_le hw (by decide))
  have h₂ : queueDescAt (write16 (write32 m (descAddr desc i) buffer)
      (descAddr desc i + 6#32) 0) conf = desc := by
    refine hframe _ fun x hx => ?_
    rw [write16_of_not_within (fun hw => hx (within_of_offset (by decide) hw)),
      write32_of_not_within (fun hw => hx (lt_of_lt_of_le hw (by decide)))]
  simp only [storeDesc, writeDesc, hd, h₁, h₂]

/-- The loop fills the rest of the table and keeps everything else. -/
theorem initLoop_spec {fuel i : ℕ} {buffer : U32} (hap : Apart conf 12 desc (8 * len.toNat))
    (hs : queueSizeAt m conf = len) (hd : queueDescAt m conf = desc)
    (hf : len.toNat ≤ fuel + i) :
    (∀ x, ¬ Within desc (8 * len.toNat) x → initLoop conf itemSize fuel i buffer m x = m x) ∧
      (∀ j, i ≤ j → j < len.toNat → descAt (initLoop conf itemSize fuel i buffer m) desc j =
        ⟨itemAddr buffer itemSize (j - i), itemSize, 0⟩) ∧
      ∀ j < i, j < len.toNat → descAt (initLoop conf itemSize fuel i buffer m) desc j =
        descAt m desc j := by
  have hlen := len.isLt
  induction fuel generalizing m i buffer with
  | zero =>
      refine ⟨fun _ _ => rfl, fun j _ _ => ?_, fun _ _ _ => rfl⟩
      omega
  | succ fuel ih =>
      rw [initLoop, hs]
      split_ifs with hi
      · rw [storeDesc_eq hap hi hd]
        have hkeep : confAt (writeDesc m (descAddr desc i) buffer itemSize) conf = confAt m conf :=
          confAt_congr fun x hx => writeDesc_of_outside fun hw => hap x hx (within_table hi hw)
        have hnext := @ih (writeDesc m (descAddr desc i) buffer itemSize) (i + 1)
          (buffer + itemSize.setWidth 32) ((congrArg QueueConf.queueSize hkeep).trans hs)
          ((congrArg QueueConf.queueDesc hkeep).trans hd) (by omega)
        obtain ⟨hout, hnew, hold⟩ := hnext
        refine ⟨fun x hx => ?_, fun j hj hjn => ?_, fun j hj hjn => ?_⟩
        · rw [hout x hx]
          exact writeDesc_of_outside fun hw => hx (within_table hi hw)
        · rcases Nat.eq_or_lt_of_le hj with rfl | hj
          · obtain ⟨h₀, h₄, h₆⟩ := writeDesc_words (m := m) (descAddr desc i) buffer itemSize
            rw [hold i (by omega) hjn, descAt, h₀, h₄, h₆, Nat.sub_self]
            simp [itemAddr]
          · rw [hnew j hj hjn, itemAddr_succ, show j - (i + 1) + 1 = j - i by omega]
        · rw [hold j (by omega) hjn]
          refine descAt_congr fun x hx => writeDesc_of_outside ?_
          exact entries_apart (n := len.toNat) (by omega) hjn hi (by omega) x hx
      · refine ⟨fun _ _ => rfl, fun j hj hjn => ?_, fun _ _ _ => rfl⟩
        omega

end Loop

/-- The four stores into the config struct. -/
def writeConf (a : QueueArea) (m : Memory 32) : Memory 32 :=
  write32 (write32 (write16 (write16 m a.conf a.len) (a.conf + 2#32) a.itemSize)
    (a.conf + 8#32) a.desc) (a.conf + 4#32) a.buffer

theorem confAt_writeConf (a : QueueArea) (m : Memory 32) :
    confAt (writeConf a m) a.conf = ⟨a.len, a.itemSize, a.buffer, a.desc⟩ := by
  have h₀ : a.conf = a.conf + 0#32 := (BitVec.add_zero _).symm
  have h₀₂ : Apart (a.conf + 0#32) 2 (a.conf + 2#32) 2 := apart_of_offsets (by decide) (by decide)
  have h₀₄ : Apart (a.conf + 0#32) 2 (a.conf + 4#32) 4 := apart_of_offsets (by decide) (by decide)
  have h₀₈ : Apart (a.conf + 0#32) 2 (a.conf + 8#32) 4 := apart_of_offsets (by decide) (by decide)
  have h₂₄ : Apart (a.conf + 2#32) 2 (a.conf + 4#32) 4 := apart_of_offsets (by decide) (by decide)
  have h₂₈ : Apart (a.conf + 2#32) 2 (a.conf + 8#32) 4 := apart_of_offsets (by decide) (by decide)
  have h₄₈ : Apart (a.conf + 4#32) 4 (a.conf + 8#32) 4 := apart_of_offsets (by decide) (by decide)
  rw [← h₀] at h₀₂ h₀₄ h₀₈
  have hlen : queueSizeAt (writeConf a m) a.conf = a.len := by
    rw [queueSizeAt, writeConf, word16_write32_apart h₀₄,
      word16_write32_apart h₀₈, word16_write16_apart h₀₂,
      word16_write16 (by decide)]
  have hitem : maxItemSizeAt (writeConf a m) a.conf = a.itemSize := by
    rw [maxItemSizeAt, writeConf, word16_write32_apart h₂₄,
      word16_write32_apart h₂₈, word16_write16 (by decide)]
  have hbuf : queueBufferAt (writeConf a m) a.conf = a.buffer := by
    rw [queueBufferAt, writeConf, word32_write32 (by decide)]
  have hdesc : queueDescAt (writeConf a m) a.conf = a.desc := by
    rw [queueDescAt, writeConf, word32_write32_apart h₄₈.symm,
      word32_write32 (by decide)]
  rw [confAt, hlen, hitem, hbuf, hdesc]

theorem writeConf_of_outside {a : QueueArea} {m : Memory 32} {x : U32} (h : ¬ Within a.conf 12 x) :
    writeConf a m x = m x := by
  rw [writeConf, write32_of_not_within (fun hw => h (within_of_offset (by decide) hw)),
    write32_of_not_within (fun hw => h (within_of_offset (by decide) hw)),
    write16_of_not_within (fun hw => h (within_of_offset (by decide) hw)),
    write16_of_not_within (fun hw => h (lt_of_lt_of_le hw (by decide)))]

/-- `esp_amp_queue_init_buffer` on bytes: the struct and the table decode to the
word-level result, and no other byte changes. -/
theorem initBuffer_spec (a : QueueArea) (m : Memory 32)
    (hap : Apart a.conf 12 a.desc (8 * a.len.toNat)) (table : Table) :
    confAt (initBuffer a m) a.conf =
        (queueInitBuffer a.len a.itemSize a.desc a.buffer table).1 ∧
      (∀ i < a.len.toNat, descAt (initBuffer a m) a.desc i =
        (queueInitBuffer a.len a.itemSize a.desc a.buffer table).2 i) ∧
      ∀ x, ¬ Within a.conf 12 x → ¬ Within a.desc (8 * a.len.toNat) x →
        initBuffer a m x = m x := by
  have hlen := a.len.isLt
  have hconf := confAt_writeConf a m
  obtain ⟨hout, hnew, -⟩ := initLoop_spec (m := writeConf a m) (i := 0) hap
    (congrArg QueueConf.queueSize hconf) (congrArg QueueConf.queueDesc hconf)
    (show a.len.toNat ≤ 2 ^ 16 + 0 by omega)
  refine ⟨?_, fun i hi => ?_, fun x hx hx' => ?_⟩
  · exact (confAt_congr fun x hx => hout x (hap x hx)).trans hconf
  · simp only [queueInitBuffer, initDescs_apply]
    rw [if_pos (by omega)]
    exact hnew i (Nat.zero_le i) hi
  · exact (hout x hx').trans (writeConf_of_outside hx)

/-- The handle made from the struct in memory is the word-level handle. -/
theorem finishQueue_queues (a : QueueArea) (hap : Apart a.conf 12 a.desc (8 * a.len.toNat))
    (cbFunc : Option QueueCb) (privData : U32) (isMaster : Bool) (m : Memory 32) (table : Table) :
    (finishQueue a cbFunc privData isMaster m).queues =
      [queueCreate (queueInitBuffer a.len a.itemSize a.desc a.buffer table).1 cbFunc privData
        isMaster] := by
  simp only [finishQueue, (initBuffer_spec a m hap table).1]

end EspAmp.QueueMemory
