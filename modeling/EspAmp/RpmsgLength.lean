import EspAmp.RpmsgChannel

/-!
# Message lengths on the wire

One direction of a device pair under any lengths: messages are created for any
number of bytes, also for one whose sum with the header size wraps, and a held
buffer is sent with any length. A creation checks its size against the item size,
while a send without copy stores the length it is given and hands over a whole
item. What the receiver finds therefore fits its buffer as long as the lengths
given to that call do. A creation itself is exact unless its sum or the maximum
size wraps.
-/
namespace EspAmp.RpmsgLength
open ByteMemory Virtqueue VirtqueueFifo VirtqueueOwnership Rpmsg RpmsgChannel
open ReplyMachine (Run)

/-- `esp_amp_rpmsg_get_max_size`, of the sending queue. -/
def rpmsgGetMaxSize (txQueue : Queue) : U16 := txQueue.maxItemSize - 8#16

/-- The item buffers in the hands of the sender and of the receiver. -/
structure Tx where
  mem : Memory 32
  ring : Vring
  held : List U32
  received : List U32

inductive Op where
  | createMessage (nbytes : U32) (flags : U16)
  | sendNocopy (ept : Ept) (dst : U16) (data : U32) (len : U16)
  | send (ept : Ept) (dst : U16) (data : U32) (len : U16)
  | store (x : U32) (v : U8)
  | poll (epts : List Ept)
  | destroy (msgData : U32)
deriving DecidableEq, Repr

def exec (s : Tx) : Op → Tx
  | .createMessage nbytes flags =>
      let r := rpmsgCreateMessage ⟨s.ring, s.mem⟩ nbytes flags
      { s with
        mem := r.2.mem
        ring := r.2.ring
        held := if r.1 = 0 then s.held else (r.1 - 8#32) :: s.held }
  | .sendNocopy ept dst data len =>
      let r := rpmsgSendNocopy ⟨s.ring, s.mem⟩ ept dst data len
      { s with
        mem := r.2.mem
        ring := r.2.ring
        held := if r.1 = 0 then s.held.erase (data - 8#32) else s.held }
  | .send ept dst data len =>
      let r := rpmsgSend ⟨s.ring, s.mem⟩ ept dst data len
      { s with mem := r.2.mem, ring := r.2.ring }
  | .store x v => { s with mem := write s.mem x [v] }
  | .poll epts =>
      { s with
        ring := (rpmsgPoll ⟨s.ring, s.mem⟩ epts).2
        received :=
          if (s.ring.reply .recv).ret = 0 then (s.ring.reply .recv).buffer :: s.received
          else s.received }
  | .destroy msgData =>
      { s with
        ring := (rpmsgDestroy s.ring msgData).2
        received :=
          if (rpmsgDestroy s.ring msgData).1 = 0 then s.received.erase (msgData - 8#32)
          else s.received }

/-- Lengths are arbitrary; the buffers are the caller's own. -/
def Legal (u : Setup) (s : Tx) : Op → Prop
  | .sendNocopy _ _ data _ => data - 8#32 ∈ s.held
  | .store x _ => ∀ b ∈ u.addrs, Within b u.itemSize.toNat x → b ∈ s.held ∨ b ∈ s.received
  | .destroy msgData => msgData - 8#32 ∈ s.received
  | .createMessage _ _ | .send _ _ _ _ | .poll _ => True

/-- Every message that the receiver can take fits its buffer. -/
def Fits (u : Setup) (s : Tx) : Prop :=
  ∀ b ∈ receivable u.n s.ring, 8 + (dataLenAt s.mem b).toNat ≤ u.itemSize.toNat

/-- A send of more than the maximum fails and publishes nothing. -/
def Refused (u : Setup) (s : Tx) : Op → Prop
  | .sendNocopy ept dst data len => rpmsgGetMaxSize s.ring.master < len →
      (rpmsgSendNocopy ⟨s.ring, s.mem⟩ ept dst data len).1 ≠ 0 ∧
        receivable u.n (exec s (.sendNocopy ept dst data len)).ring = receivable u.n s.ring
  | .send ept dst data len => rpmsgGetMaxSize s.ring.master < len →
      (rpmsgSend ⟨s.ring, s.mem⟩ ept dst data len).1 ≠ 0 ∧
        receivable u.n (exec s (.send ept dst data len)).ring = receivable u.n s.ring
  | _ => True

def NeverOversized (u : Setup) : Tx → List Op → Prop
  | s, [] => Fits u s
  | s, op :: ops => Fits u s ∧ Refused u s op ∧ NeverOversized u (exec s op) ops

def LegalRun (u : Setup) : Tx → List Op → Prop
  | _, [] => True
  | s, op :: ops => Legal u s op ∧ LegalRun u (exec s op) ops

/-- The length given to a send without copy fits the item size with its header. -/
def Bounded (u : Setup) : Op → Prop
  | .sendNocopy _ _ _ len => 8 + len.toNat ≤ u.itemSize.toNat
  | _ => True

def Tx.start (u : Setup) (mem : Memory 32) : Tx := ⟨mem, u.start, [], []⟩

/-- Every item buffer is in one place, also one whose data pointer is null, and
what is under way fits. -/
structure TxInv (u : Setup) (s : Tx) (t : Fifos) (lost : List U32) : Prop where
  refines : Refines u s.ring t
  allocated : t.allocated = s.held.length + lost.length
  received : t.received = s.received.length
  total : (t.free ++ s.held ++ lost ++ t.sent.map Prod.fst ++ s.received).Perm u.addrs
  fits : ∀ p ∈ t.sent, 8 + (dataLenAt s.mem p.1).toNat ≤ u.itemSize.toNat

theorem start_txInv (u : Setup) (mem : Memory 32) : TxInv u (Tx.start u mem) u.fifos [] := by
  constructor
  · exact refines_start u
  · rfl
  · rfl
  · simp [Setup.fifos, Tx.start]
  · intro p hp
    cases hp

section Invariant
variable {u : Setup} {s : Tx} {t : Fifos} {lost : List U32} {b : U32}

theorem TxInv.fits_receivable (h : TxInv u s t lost) : Fits u s := by
  intro b hb
  rw [receivable_of_refines h.refines] at hb
  obtain ⟨p, hp, rfl⟩ := List.mem_map.mp hb
  exact h.fits p hp

theorem TxInv.mem_addrs (h : TxInv u s t lost)
    (hb : b ∈ t.free ++ s.held ++ lost ++ t.sent.map Prod.fst ++ s.received) : b ∈ u.addrs :=
  h.total.mem_iff.mp hb

/-- A buffer held by either side, or free, is not under way. -/
theorem TxInv.not_sent (hp : Placed u) (h : TxInv u s t lost)
    (hb : b ∈ t.free ∨ b ∈ s.held ∨ b ∈ s.received) : b ∉ t.sent.map Prod.fst := by
  have hnd := h.total.nodup_iff.mpr (addrs_nodup u hp.itemSize_ne)
  simp only [List.nodup_append, List.mem_append] at hnd
  grind

/-- The lengths under way do not depend on any other buffer. -/
theorem TxInv.fits_of_outside (hp : Placed u) (h : TxInv u s t lost) {mem' : Memory 32}
    (hb : b ∈ u.addrs) (hs : b ∉ t.sent.map Prod.fst)
    (hm : ∀ x, ¬ Within b (max 8 u.itemSize.toNat) x → mem' x = s.mem x) :
    ∀ p ∈ t.sent, 8 + (dataLenAt mem' p.1).toNat ≤ u.itemSize.toNat := by
  intro p hpm
  have hfit := h.fits p hpm
  have hmem : p.1 ∈ t.sent.map Prod.fst := List.mem_map_of_mem hpm
  have hpa : p.1 ∈ u.addrs := h.mem_addrs (by simp [List.mem_append, hmem])
  have hne : p.1 ≠ b := fun heq => hs (heq ▸ hmem)
  have hlen : dataLenAt mem' p.1 = dataLenAt s.mem p.1 := by
    refine word16_congr fun x hx => hm x fun hw => ?_
    rw [max_eq_right (by omega)] at hw
    exact hp.apart hpa hb hne x (within_of_offset (show 4 + 2 ≤ _ by omega) hx) hw
  rw [hlen]
  exact hfit

theorem TxInv.createMessage (hp : Placed u) (h : TxInv u s t lost) (nbytes : U32) (flags : U16) :
    ∃ t' lost', TxInv u (exec s (.createMessage nbytes flags)) t' lost' := by
  have hfree : ∀ b ∈ t.free, b ∈ u.addrs := fun b hb => h.mem_addrs (by simp [hb])
  rcases createMessage_takes (l := ⟨s.ring, s.mem⟩) hp h.refines hfree nbytes flags with
    ⟨hz, hmem, hr⟩ | ⟨b, bs, hf, -, -, hb, hmem, hr⟩
  · refine ⟨t, lost, ?_⟩
    simp only [exec, hz, if_true, hmem]
    exact ⟨hr, h.allocated, h.received, h.total, h.fits⟩
  · have hbf : b ∈ t.free := by simp [hf]
    have hfits := h.fits_of_outside hp (hfree b hbf) (h.not_sent hp (Or.inl hbf))
      fun x hx => hmem x (mt (Within.mono (le_max_left _ _)) hx)
    simp only [exec, hb, BitVec.add_sub_cancel]
    by_cases hz : b + 8#32 = 0
    · refine ⟨{ t with free := bs, allocated := t.allocated + 1 }, b :: lost, hr, ?_, h.received,
        ?_, hfits⟩
      · simp only [if_pos hz, h.allocated, List.length_cons]
        omega
      · refine List.Perm.trans ?_ h.total
        rw [List.perm_iff_count]
        intro a
        simp only [if_pos hz, hf, List.count_append, List.count_cons]
        omega
    · refine ⟨{ t with free := bs, allocated := t.allocated + 1 }, lost, hr, ?_, h.received,
        ?_, hfits⟩
      · simp only [if_neg hz, h.allocated, List.length_cons]
        omega
      · refine List.Perm.trans ?_ h.total
        rw [List.perm_iff_count]
        intro a
        simp only [if_neg hz, hf, List.count_append, List.count_cons]
        omega

/-- Sending a held buffer succeeds with any length, and the receiver finds that
length in it. -/
theorem TxInv.sendNocopy_available (hp : Placed u) (h : TxInv u s t lost) (ept : Ept) (dst : U16)
    {data : U32} (hheld : data - 8#32 ∈ s.held) (len : U16) :
    (rpmsgSendNocopy ⟨s.ring, s.mem⟩ ept dst data len).1 = 0 ∧
      (exec s (.sendNocopy ept dst data len)).mem =
        setHeader s.mem (data - 8#32) dst ept.addr len ∧
      dataLenAt (exec s (.sendNocopy ept dst data len)).mem (data - 8#32) = len ∧
      Refines u (exec s (.sendNocopy ept dst data len)).ring
        { t with sent := t.sent ++ [(data - 8#32, u.itemSize)], allocated := t.allocated - 1 } := by
  have hpos : t.allocated ≠ 0 := by
    have := List.length_pos_of_mem hheld
    rw [h.allocated]
    omega
  obtain ⟨hret, hmem, hr⟩ :=
    sendNocopy_spec (l := ⟨s.ring, s.mem⟩) hp h.refines hpos ept dst data len
  have hmsg := congrArg Msg.len
    (msgAt_setHeader (m := s.mem) (b := data - 8#32) dst ept.addr len)
  refine ⟨hret, hmem, ?_, hr⟩
  simp only [exec, hmem]
  exact hmsg

theorem TxInv.sendNocopy (hp : Placed u) (h : TxInv u s t lost) (ept : Ept) (dst : U16)
    {data : U32} (hheld : data - 8#32 ∈ s.held) {len : U16}
    (hlen : 8 + len.toNat ≤ u.itemSize.toNat) :
    ∃ t', TxInv u (exec s (.sendNocopy ept dst data len)) t' lost := by
  obtain ⟨hret, hmem, hfound, hr⟩ := h.sendNocopy_available hp ept dst hheld len
  have hout : ∀ x, ¬ Within (data - 8#32) (max 8 u.itemSize.toNat) x →
      setHeader s.mem (data - 8#32) dst ept.addr len x = s.mem x :=
    fun x hx => setHeader_of_outside (mt (Within.mono (le_max_left _ _)) hx)
  have hfits := h.fits_of_outside hp (h.mem_addrs (by simp [hheld]))
    (h.not_sent hp (Or.inr (Or.inl hheld))) hout
  refine ⟨_, hr, ?_, h.received, ?_, ?_⟩
  · simp only [exec, hret, if_true, h.allocated, List.length_erase_of_mem hheld]
    have := List.length_pos_of_mem hheld
    omega
  · refine List.Perm.trans ?_ h.total
    rw [List.perm_iff_count]
    intro a
    have herase := (List.perm_cons_erase hheld).count_eq a
    simp only [exec, hret, if_true, List.map_append, List.map_cons, List.map_nil,
      List.count_append, List.count_cons, List.count_nil] at herase ⊢
    omega
  · intro p hpm
    rcases List.mem_append.mp hpm with hpm | hpm
    · rw [hmem]
      exact hfits p hpm
    · obtain rfl := List.mem_singleton.mp hpm
      rw [hfound]
      exact hlen

/-- Stores into one buffer of either side. -/
theorem TxInv.store_buffer (hp : Placed u) (h : TxInv u s t lost)
    (hb : b ∈ s.held ∨ b ∈ s.received) {mem' : Memory 32}
    (hm : ∀ x, ¬ Within b u.itemSize.toNat x → mem' x = s.mem x) :
    TxInv u { s with mem := mem' } t lost := by
  have hba : b ∈ u.addrs := by
    rcases hb with hb | hb
    · exact h.mem_addrs (by simp [hb])
    · exact h.mem_addrs (by simp [hb])
  refine ⟨h.refines, h.allocated, h.received, h.total, ?_⟩
  exact h.fits_of_outside hp hba (h.not_sent hp (Or.inr hb))
    fun x hx => hm x (mt (Within.mono (le_max_right _ _)) hx)

/-- A copying send is a creation, a copy into the created buffer and a send of it;
it succeeds only with a length that fits. -/
theorem TxInv.send (hp : Placed u) (h : TxInv u s t lost) (ept : Ept) (dst : U16) (data : U32)
    (len : U16) :
    ((rpmsgSend ⟨s.ring, s.mem⟩ ept dst data len).1 = -1 ∧
        TxInv u (exec s (.send ept dst data len)) t lost) ∨
      (8 + len.toNat ≤ u.itemSize.toNat ∧
        ∃ t' lost', TxInv u (exec s (.send ept dst data len)) t' lost') := by
  have hlt := len.isLt
  have hlen : (len.setWidth 32).toNat = len.toNat := by
    rw [BitVec.toNat_setWidth, Nat.mod_eq_of_lt (by omega)]
  have hfree : ∀ b ∈ t.free, b ∈ u.addrs := fun b hb => h.mem_addrs (by simp [hb])
  by_cases hz : data = 0 ∨ len = 0
  · simp only [exec, rpmsgSend, if_pos hz]
    exact Or.inl ⟨trivial, h.refines, h.allocated, h.received, h.total, h.fits⟩
  have hcases := createMessage_cases (l := ⟨s.ring, s.mem⟩) hp h.refines hfree
    (show (len.setWidth 32).toNat + 8 < 2 ^ 32 by omega) 0
  rcases hcases with ⟨hnull, hmem, hr⟩ | ⟨b, bs, hf, hfit, hb, -, -⟩
  · simp only [exec, rpmsgSend, if_neg hz, hnull, if_true, hmem]
    exact Or.inl ⟨trivial, hr, h.allocated, h.received, h.total, h.fits⟩
  · rw [hlen] at hfit
    have hne := hp.data_ne_zero (hfree b (by simp [hf])) (by omega)
    obtain ⟨t₁, lost₁, h₁⟩ := h.createMessage hp (len.setWidth 32) 0
    have hheld : b ∈ (exec s (.createMessage (len.setWidth 32) 0)).held := by
      simp only [exec, hb, if_neg hne, BitVec.add_sub_cancel, List.mem_cons_self]
    have hcopy : ∀ x, ¬ Within b u.itemSize.toNat x →
        copyBytes data (b + 8#32) len.toNat 0 (exec s (.createMessage (len.setWidth 32) 0)).mem x =
          (exec s (.createMessage (len.setWidth 32) 0)).mem x := by
      intro x hx
      refine copyBytes_of_outside fun hw => hx ?_
      exact within_of_offset (show 8 + len.toNat ≤ _ by omega) (by simpa using hw)
    have h₂ := h₁.store_buffer hp (Or.inl hheld) hcopy
    have hback : b + 8#32 - 8#32 = b := BitVec.add_sub_cancel ..
    have hheld₂ : b + 8#32 - 8#32 ∈ (exec s (.createMessage (len.setWidth 32) 0)).held := by
      rwa [hback]
    obtain ⟨hret, -⟩ := h₂.sendNocopy_available hp ept dst hheld₂ len
    obtain ⟨t₃, h₃⟩ := h₂.sendNocopy hp ept dst hheld₂ (show 8 + len.toNat ≤ _ by omega)
    have heq : exec s (.send ept dst data len) =
        exec { exec s (.createMessage (len.setWidth 32) 0) with
          mem := copyBytes data (b + 8#32) len.toNat 0
            (exec s (.createMessage (len.setWidth 32) 0)).mem }
          (.sendNocopy ept dst (b + 8#32) len) := by
      simp only [exec, hb, hne, if_false, hback] at hret
      simp only [exec, rpmsgSend, if_neg hz, hb, hne, if_false, hret, if_true, hback,
        List.erase_cons_head]
    exact Or.inr ⟨by omega, t₃, lost₁, heq ▸ h₃⟩

theorem TxInv.store (hp : Placed u) (h : TxInv u s t lost) {x : U32} (v : U8)
    (hx : ∀ b ∈ u.addrs, Within b u.itemSize.toNat x → b ∈ s.held ∨ b ∈ s.received) :
    TxInv u (exec s (.store x v)) t lost := by
  refine ⟨h.refines, h.allocated, h.received, h.total, ?_⟩
  intro p hpm
  have hfit := h.fits p hpm
  have hmem : p.1 ∈ t.sent.map Prod.fst := List.mem_map_of_mem hpm
  have hpa : p.1 ∈ u.addrs := h.mem_addrs (by simp [List.mem_append, hmem])
  have hlen : dataLenAt (exec s (.store x v)).mem p.1 = dataLenAt s.mem p.1 := by
    refine word16_congr fun y hy => write_byte_of_ne ?_
    rintro rfl
    have hin := within_of_offset (show 4 + 2 ≤ u.itemSize.toNat by omega) hy
    exact h.not_sent hp (Or.inr (hx _ hpa hin)) hmem
  rw [hlen]
  exact hfit

theorem TxInv.poll (hp : Placed u) (h : TxInv u s t lost) (epts : List Ept) :
    ∃ t', TxInv u (exec s (.poll epts)) t' lost := by
  have hring : (rpmsgPoll ⟨s.ring, s.mem⟩ epts).2 = s.ring.apply .recv := by
    unfold rpmsgPoll
    split_ifs <;> rfl
  rcases recv_cases hp h.refines with ⟨-, hret, hr⟩ | ⟨b, size, rest, hs, hret, hb, hr⟩
  · refine ⟨t, ?_⟩
    simp only [exec, hring, if_neg hret]
    exact ⟨hr, h.allocated, h.received, h.total, h.fits⟩
  · refine ⟨{ t with sent := rest, received := t.received + 1 }, ?_⟩
    simp only [exec, hring, if_pos hret, hb]
    refine ⟨hr, h.allocated, ?_, ?_, fun p hpm => h.fits p (by simp [hs, hpm])⟩
    · simp [h.received]
    · refine List.Perm.trans ?_ h.total
      rw [List.perm_iff_count]
      intro a
      simp only [hs, List.map_cons, List.count_append, List.count_cons]
      omega

theorem TxInv.destroy (hp : Placed u) (h : TxInv u s t lost) {msgData : U32}
    (hheld : msgData - 8#32 ∈ s.received) :
    ∃ t', TxInv u (exec s (.destroy msgData)) t' lost := by
  have hlen := List.length_pos_of_mem hheld
  have hpos : t.received ≠ 0 := by
    rw [h.received]
    omega
  obtain ⟨hreply, hnext⟩ := refines_call hp h.refines (.free (msgData - 8#32))
  simp only [fifoStep, if_neg hpos] at hreply hnext
  have hret : (rpmsgDestroy s.ring msgData).1 = 0 := by
    rw [rpmsgDestroy, hreply]
    rfl
  refine ⟨{ t with free := t.free ++ [msgData - 8#32], received := t.received - 1 }, hnext,
    h.allocated, ?_, ?_, h.fits⟩
  · simp only [exec, hret, if_true, List.length_erase_of_mem hheld, h.received]
  · refine List.Perm.trans ?_ h.total
    rw [List.perm_iff_count]
    intro a
    have herase := (List.perm_cons_erase hheld).count_eq a
    simp only [exec, hret, if_true, List.count_append, List.count_cons, List.count_nil]
      at herase ⊢
    omega

theorem TxInv.exec (hp : Placed u) (h : TxInv u s t lost) {op : Op} (hl : Legal u s op)
    (hb : Bounded u op) : ∃ t' lost', TxInv u (exec s op) t' lost' := by
  cases op with
  | createMessage nbytes flags => exact h.createMessage hp nbytes flags
  | sendNocopy ept dst data len =>
      obtain ⟨t', ht'⟩ := h.sendNocopy hp ept dst hl hb
      exact ⟨t', lost, ht'⟩
  | send ept dst data len =>
      rcases h.send hp ept dst data len with ⟨-, ht'⟩ | ⟨-, ht'⟩
      · exact ⟨t, lost, ht'⟩
      · exact ht'
  | store x v => exact ⟨t, lost, h.store hp v hl⟩
  | poll epts =>
      obtain ⟨t', ht'⟩ := h.poll hp epts
      exact ⟨t', lost, ht'⟩
  | destroy msgData =>
      obtain ⟨t', ht'⟩ := h.destroy hp hl
      exact ⟨t', lost, ht'⟩

theorem TxInv.maxItemSize (h : TxInv u s t lost) : s.ring.master.maxItemSize = u.itemSize := by
  obtain ⟨k, hk, -⟩ := h.refines
  rw [hk.master]
  rfl

/-- A length that fits does not exceed the maximum size. -/
theorem TxInv.le_maxSize (h : TxInv u s t lost) {len : U16}
    (hlen : 8 + len.toNat ≤ u.itemSize.toNat) : ¬ rpmsgGetMaxSize s.ring.master < len := by
  rw [rpmsgGetMaxSize, h.maxItemSize]
  bv_omega

theorem TxInv.refused (hp : Placed u) (h : TxInv u s t lost) {op : Op} (hb : Bounded u op) :
    Refused u s op := by
  cases op with
  | sendNocopy ept dst data len =>
      intro hmax
      exact absurd hmax (h.le_maxSize hb)
  | send ept dst data len =>
      intro hmax
      rcases h.send hp ept dst data len with ⟨hret, ht'⟩ | ⟨hlen, -⟩
      · refine ⟨by rw [hret]; decide, ?_⟩
        rw [receivable_of_refines ht'.refines, receivable_of_refines h.refines]
      · exact absurd hmax (h.le_maxSize hlen)
  | _ => trivial

/-- A longer send without copy leaves an oversized message on the wire. -/
theorem TxInv.not_fits (hp : Placed u) (h : TxInv u s t lost) {op : Op} (hl : Legal u s op)
    (hb : ¬ Bounded u op) : ¬ Fits u (RpmsgLength.exec s op) := by
  cases op with
  | sendNocopy ept dst data len =>
      intro hfits
      obtain ⟨-, -, hfound, hr⟩ := h.sendNocopy_available hp ept dst hl len
      have hmem : data - 8#32 ∈
          receivable u.n (RpmsgLength.exec s (.sendNocopy ept dst data len)).ring := by
        rw [receivable_of_refines hr]
        simp
      have hle := hfits _ hmem
      rw [hfound] at hle
      exact hb hle
  | _ => exact absurd trivial hb

theorem NeverOversized.here {ops : List Op} (h : NeverOversized u s ops) : Fits u s := by
  cases ops with
  | nil => exact h
  | cons op ops => exact h.1

theorem TxInv.neverOversized_iff (hp : Placed u) (h : TxInv u s t lost) {ops : List Op}
    (hl : LegalRun u s ops) : NeverOversized u s ops ↔ ∀ op ∈ ops, Bounded u op := by
  induction ops generalizing s t lost with
  | nil => exact iff_of_true h.fits_receivable (by simp)
  | cons op ops ih =>
      rw [List.forall_mem_cons]
      constructor
      · rintro ⟨-, -, hrest⟩
        have hb : Bounded u op := by
          by_contra hb
          exact h.not_fits hp hl.1 hb hrest.here
        obtain ⟨t', lost', h'⟩ := h.exec hp hl.1 hb
        exact ⟨hb, (ih h' hl.2).mp hrest⟩
      · rintro ⟨hb, hrest⟩
        obtain ⟨t', lost', h'⟩ := h.exec hp hl.1 hb
        exact ⟨h.fits_receivable, h.refused hp hb, (ih h' hl.2).mpr hrest⟩

end Invariant

/-- For every placed queue and every legal run with arbitrary lengths: no oversized
message is ever available and every oversized send is refused, exactly when each
send without copy is given a length that fits the item size with its header. -/
theorem never_oversized_iff_bounded (u : Setup) (hp : Placed u) (mem : Memory 32) (ops : List Op)
    (hl : LegalRun u (Tx.start u mem) ops) :
    NeverOversized u (Tx.start u mem) ops ↔ ∀ op ∈ ops, Bounded u op :=
  (start_txInv u mem).neverOversized_iff hp hl

theorem twoBuffers_placed : Placed twoBuffers :=
  ⟨twoBuffers_quietNotify, by decide, by decide, by decide⟩

/-- A full buffer of eight bytes of data is sent and taken. -/
theorem full_message_fits : NeverOversized twoBuffers (Tx.start twoBuffers fun _ => 0)
    [.createMessage 8 0, .sendNocopy ⟨1, 5, none, 0⟩ 6 0x4087a618 8, .poll []] := by
  have hl : LegalRun twoBuffers (Tx.start twoBuffers fun _ => 0)
      [.createMessage 8 0, .sendNocopy ⟨1, 5, none, 0⟩ 6 0x4087a618 8, .poll []] :=
    ⟨trivial, show _ ∈ _ by decide +kernel, trivial, trivial⟩
  exact (never_oversized_iff_bounded twoBuffers twoBuffers_placed _ _ hl).mpr
    (by simp [Bounded, twoBuffers])

/-- A buffer of sixteen bytes created for one byte is sent with length 100: the call
succeeds. -/
theorem oversized_message_sent : LegalRun twoBuffers (Tx.start twoBuffers fun _ => 0)
      [.createMessage 1 0, .sendNocopy ⟨1, 5, none, 0⟩ 6 0x4087a618 100] ∧
    ¬ NeverOversized twoBuffers (Tx.start twoBuffers fun _ => 0)
      [.createMessage 1 0, .sendNocopy ⟨1, 5, none, 0⟩ 6 0x4087a618 100] := by
  refine ⟨⟨trivial, show _ ∈ _ by decide +kernel, trivial⟩, ?_⟩
  rintro ⟨-, -, -, hrefused, -⟩
  have hmax : rpmsgGetMaxSize (exec (Tx.start twoBuffers fun _ => 0)
      (.createMessage 1 0)).ring.master < 100 := by decide +kernel
  exact (hrefused hmax).1 (by decide +kernel)

/-- A creation accepts what fits an item, which is what the maximum size says; an
accepted one is for all its bytes, and a refused one leaves the queue as it was. -/
structure CreatesExactly (u : Setup) (l : Link) (nbytes : U32) (flags : U16) : Prop where
  fits : (rpmsgCreateMessage l nbytes flags).1 ≠ 0 ↔ nbytes.toNat + 8 ≤ u.itemSize.toNat
  max : nbytes.toNat + 8 ≤ u.itemSize.toNat ↔
    nbytes.toNat ≤ (rpmsgGetMaxSize l.ring.master).toNat
  room : (rpmsgCreateMessage l nbytes flags).1 ≠ 0 →
    (rpmsgCreateMessage l nbytes flags).1 - 8#32 ∈ u.addrs ∧
      8 + nbytes.toNat ≤ u.itemSize.toNat ∧
      (dataLenAt (rpmsgCreateMessage l nbytes flags).2.mem
        ((rpmsgCreateMessage l nbytes flags).1 - 8#32)).toNat = nbytes.toNat
  unchanged : (rpmsgCreateMessage l nbytes flags).1 = 0 →
    (rpmsgCreateMessage l nbytes flags).2.ring = l.ring

section Creation
variable {u : Setup} {l : Link} {t : Fifos} {nbytes : U32} {flags : U16}

/-- A reachable queue has free buffers of its own only. -/
theorem refines_of_run {calls : List Call} {o : Owned} (hrun : Run OwnStep (start u) calls o) :
    ∃ t, Refines u o.ring t ∧ ∀ b ∈ t.free, b ∈ u.addrs := by
  obtain ⟨c, hc⟩ := run_ownInv hrun
  refine ⟨u.view o.ring c, ⟨c, hc.ring, rfl⟩, ?_⟩
  intro b hb
  have hmem : b ∈ (u.addrs : Multiset U32) := by
    rw [← hc.total]
    simp [hb]
  exact Multiset.mem_coe.mp hmem

/-- Any item can be allocated exactly when a buffer is free. -/
theorem alloc_ok_iff {ring : Vring} (hp : Placed u) (hr : Refines u ring t) :
    (ring.reply (.alloc 0)).ret = espOk ↔ t.free ≠ [] := by
  have hreply := (refines_call hp hr (.alloc 0)).1
  have hsize : ¬ u.itemSize < 0 := BitVec.not_lt_zero
  simp only [fifoStep, if_neg hsize] at hreply
  rw [hreply]
  cases t.free with
  | nil => simp [espErrNotFound, espOk]
  | cons b bs => simp

/-- Below the size limit the narrowing to sixteen bits keeps the sum. -/
theorem narrowed_size (hbig : ¬ 1#32 <<< 16 ≤ nbytes + 8#32) :
    ((nbytes + 8#32).setWidth 16).toNat = (nbytes + 8#32).toNat := by
  have hlt : (nbytes + 8#32).toNat < 2 ^ 16 := BitVec.lt_def.mp (BitVec.not_le.mp hbig)
  rw [BitVec.toNat_setWidth, Nat.mod_eq_of_lt hlt]

/-- A wrapped sum above the item size is refused. -/
theorem create_of_large (nbytes : U32) (flags : U16) (hp : Placed u) (hr : Refines u l.ring t)
    (hlarge : u.itemSize.toNat < (nbytes + 8#32).toNat) :
    (rpmsgCreateMessage l nbytes flags).1 = 0 ∧
      (rpmsgCreateMessage l nbytes flags).2.ring = l.ring := by
  by_cases hbig : 1#32 <<< 16 ≤ nbytes + 8#32
  · simp only [rpmsgCreateMessage, if_pos hbig]
    trivial
  · have hsize : u.itemSize < (nbytes + 8#32).setWidth 16 := by
      rw [BitVec.lt_def, narrowed_size hbig]
      exact hlarge
    have hreply := (refines_call hp hr (.alloc ((nbytes + 8#32).setWidth 16))).1
    simp only [fifoStep, if_pos hsize] at hreply
    obtain ⟨c, hc, -⟩ := hr
    have hsame : l.ring.apply (.alloc ((nbytes + 8#32).setWidth 16)) = l.ring :=
      apply_of_rejected hc (if_pos hsize)
    simp only [rpmsgCreateMessage, if_neg hbig, hreply, hsame, true_or, if_true]
    trivial

/-- A wrapped sum up to the item size takes the first free buffer. -/
theorem create_of_small (nbytes : U32) (flags : U16) (hp : Placed u) (hr : Refines u l.ring t)
    {b : U32} {bs : List U32} (hfree : t.free = b :: bs) (hb : b ∈ u.addrs)
    (hsmall : (nbytes + 8#32).toNat ≤ u.itemSize.toNat) :
    (rpmsgCreateMessage l nbytes flags).1 = b + 8#32 ∧
      (rpmsgCreateMessage l nbytes flags).2.ring ≠ l.ring ∧
      dataLenAt (rpmsgCreateMessage l nbytes flags).2.mem b = nbytes.setWidth 16 := by
  have hbig : ¬ 1#32 <<< 16 ≤ nbytes + 8#32 := by
    have hitem := u.itemSize.isLt
    rw [BitVec.le_def]
    exact not_le.mpr (hsmall.trans_lt hitem)
  have hsize : ¬ u.itemSize < (nbytes + 8#32).setWidth 16 := by
    rw [BitVec.lt_def, narrowed_size hbig]
    exact not_lt.mpr hsmall
  have hnull : ¬ (b = 0 ∨ espOk = -1) := not_or.mpr ⟨hp.ne_zero hb, by decide⟩
  obtain ⟨hreply, hnext⟩ := refines_call hp hr (.alloc ((nbytes + 8#32).setWidth 16))
  simp only [fifoStep, if_neg hsize, hfree] at hreply hnext
  simp only [rpmsgCreateMessage, if_neg hbig, hreply, if_neg hnull]
  refine ⟨trivial, ?_, word16_write16 (by decide) _⟩
  intro hsame
  have hbefore : allocable u.n l.ring = b :: bs := (allocable_of_refines hr).trans hfree
  have hafter : allocable u.n (l.ring.apply (.alloc ((nbytes + 8#32).setWidth 16))) = bs :=
    allocable_of_refines hnext
  rw [hsame, hbefore] at hafter
  exact List.cons_ne_self b bs hafter

theorem maxSize_of_refines {ring : Vring} (hr : Refines u ring t) :
    (rpmsgGetMaxSize ring.master).toNat = (u.itemSize.toNat + 2 ^ 16 - 8) % 2 ^ 16 := by
  obtain ⟨c, hc, -⟩ := hr
  have hmaster : ring.master.maxItemSize = u.itemSize := by
    rw [hc.master]
    rfl
  rw [rpmsgGetMaxSize, hmaster, BitVec.toNat_sub, show (8#16).toNat = 8 from rfl]
  omega

/-- Exact creations leave nothing to a wrap: the sum does not wrap unless its wrapped
value is refused, and the maximum size does not unless no number of bytes is below it. -/
theorem bounds_of_createsExactly (hp : Placed u) (hr : Refines u l.ring t) {b : U32}
    {bs : List U32} (hfree : t.free = b :: bs) (hb : b ∈ u.addrs)
    (h : CreatesExactly u l nbytes flags) :
    (8 ≤ u.itemSize.toNat ∧ nbytes.toNat + 8 < 2 ^ 32) ∨
      (u.itemSize.toNat < 8 ∧ u.itemSize.toNat + 2 ^ 16 - 8 < nbytes.toNat ∧
        u.itemSize.toNat < (nbytes + 8#32).toNat) := by
  have hitem := u.itemSize.isLt
  have hn := nbytes.isLt
  have hsum : (nbytes + 8#32).toNat = (nbytes.toNat + 8) % 2 ^ 32 := BitVec.toNat_add ..
  have hmax := h.max
  rw [maxSize_of_refines hr] at hmax
  have hlarge : u.itemSize.toNat < (nbytes + 8#32).toNat ∨ nbytes.toNat + 8 < 2 ^ 32 := by
    by_contra hwrap
    obtain ⟨hsmall, hwrap⟩ := not_or.mp hwrap
    have hcreate := create_of_small nbytes flags hp hr hfree hb (by omega)
    by_cases hnull : (rpmsgCreateMessage l nbytes flags).1 = 0
    · exact hcreate.2.1 (h.unchanged hnull)
    · have hfits := h.fits.mp hnull
      omega
  omega

theorem createsExactly_of_bounds (hp : Placed u) (hr : Refines u l.ring t) {b : U32}
    {bs : List U32} (hfree : t.free = b :: bs) (hb : b ∈ u.addrs)
    (h : (8 ≤ u.itemSize.toNat ∧ nbytes.toNat + 8 < 2 ^ 32) ∨
      (u.itemSize.toNat < 8 ∧ u.itemSize.toNat + 2 ^ 16 - 8 < nbytes.toNat ∧
        u.itemSize.toNat < (nbytes + 8#32).toNat)) :
    CreatesExactly u l nbytes flags := by
  have hitem := u.itemSize.isLt
  have hn := nbytes.isLt
  have hsum : (nbytes + 8#32).toNat = (nbytes.toNat + 8) % 2 ^ 32 := BitVec.toNat_add ..
  have hmax : nbytes.toNat + 8 ≤ u.itemSize.toNat ↔
      nbytes.toNat ≤ (rpmsgGetMaxSize l.ring.master).toNat := by
    rw [maxSize_of_refines hr]
    omega
  by_cases hsmall : (nbytes + 8#32).toNat ≤ u.itemSize.toNat
  · have hfits : nbytes.toNat + 8 ≤ u.itemSize.toNat := by omega
    have hne := hp.data_ne_zero hb (by omega)
    obtain ⟨hret, -, hlen⟩ := create_of_small nbytes flags hp hr hfree hb hsmall
    refine ⟨iff_of_true (hret ▸ hne) hfits, hmax, ?_, fun hnull => absurd (hret ▸ hnull) hne⟩
    intro _
    rw [hret, BitVec.add_sub_cancel, hlen, BitVec.toNat_setWidth, Nat.mod_eq_of_lt (by omega)]
    exact ⟨hb, by omega, rfl⟩
  · obtain ⟨hret, hring⟩ := create_of_large nbytes flags hp hr (Nat.lt_of_not_le hsmall)
    exact ⟨iff_of_false (not_not.mpr hret) (by omega), hmax, fun hne => absurd hret hne,
      fun _ => hring⟩

end Creation

/-- In every reachable state with a free buffer: a creation is exact if and only if items
have room for the header and the sum does not wrap, or items are smaller than the header
and the number of bytes is above what the maximum size wraps to, with a wrapped sum that
the queue refuses. -/
theorem creates_exactly_iff (u : Setup) (hp : Placed u) {calls : List Call} {o : Owned}
    (hrun : Run OwnStep (start u) calls o) (hfree : (o.ring.reply (.alloc 0)).ret = espOk)
    (mem : Memory 32) (nbytes : U32) (flags : U16) :
    CreatesExactly u ⟨o.ring, mem⟩ nbytes flags ↔
      (8 ≤ u.itemSize.toNat ∧ nbytes.toNat + 8 < 2 ^ 32) ∨
        (u.itemSize.toNat < 8 ∧ u.itemSize.toNat + 2 ^ 16 - 8 < nbytes.toNat ∧
          u.itemSize.toNat < (nbytes + 8#32).toNat) := by
  obtain ⟨t, hr, haddr⟩ := refines_of_run hrun
  obtain ⟨b, bs, ht⟩ := List.exists_cons_of_ne_nil ((alloc_ok_iff hp hr).mp hfree)
  have hb : b ∈ u.addrs := haddr b (ht ▸ List.mem_cons_self)
  exact ⟨bounds_of_createsExactly hp hr ht hb, createsExactly_of_bounds hp hr ht hb⟩

/-- The whole room of an item behind its header. -/
theorem eight_bytes_created_exactly :
    CreatesExactly twoBuffers ⟨(start twoBuffers).ring, fun _ => 0⟩ 8 0 :=
  (creates_exactly_iff twoBuffers twoBuffers_placed (.done _) (by decide +kernel) _ 8 0).mpr
    (Or.inl (by decide))

/-- The largest number of bytes gets a buffer of sixteen. -/
theorem wrapped_size_created :
    Run OwnStep (start twoBuffers) [] (start twoBuffers) ∧
      ((start twoBuffers).ring.reply (.alloc 0)).ret = espOk ∧
      ¬ CreatesExactly twoBuffers ⟨(start twoBuffers).ring, fun _ => 0⟩ 0xffffffff 0 := by
  refine ⟨.done _, by decide +kernel, fun h => ?_⟩
  have hfits := h.fits.mp (by decide +kernel)
  exact absurd hfits (by decide)

end EspAmp.RpmsgLength
