import EspAmp.Rpmsg
import EspAmp.VirtqueueOwnership

/-!
# One direction of an RPMsg pair

A channel is a virtqueue from one device to the other together with the
endpoint list of the receiving device. Beside these it records who holds which
item buffer, what was sent, and what every poll did with the message it took:
which endpoint was registered for it and which callbacks were called. The
records are ghosts; the calls themselves never look at them.

Message bytes are read where they lie. The invariant therefore says that the
buffers under way still carry the messages that were sent and not yet polled,
in order, and a step has to show that it leaves them alone. Item buffers do not
overlap, so this is a matter of ownership only.
-/
namespace EspAmp.RpmsgChannel
open ByteMemory Virtqueue VirtqueueFifo VirtqueueOwnership Rpmsg

/-- A buffer passed to a callback and not yet destroyed. -/
structure Held where
  buffer : U32
  msg : Msg
  written : Bool
deriving DecidableEq, Repr

/-- A message taken from the queue, the endpoint registered at its destination
at that moment, and the calls made for it. -/
structure Polled where
  buffer : U32
  msg : Msg
  ept : Option Ept
  calls : List CbCall
deriving DecidableEq, Repr

structure Chan where
  ring : Vring
  epts : List Ept := []
  txHeld : List (U32 × ℕ) := []
  rxHeld : List Held := []
  leaked : List U32 := []
  sent : List Msg := []
  polled : List Polled := []

namespace Chan

/-- A created buffer is held with the size it was created for. -/
def createMessage (c : Chan) (mem : Memory 32) (nbytes : U32) (flags : U16) :
    Chan × Memory 32 :=
  let r := rpmsgCreateMessage ⟨c.ring, mem⟩ nbytes flags
  if r.1 = 0 then ({ c with ring := r.2.ring }, r.2.mem)
  else ({ c with ring := r.2.ring, txHeld := (r.1 - 8#32, nbytes.toNat) :: c.txHeld }, r.2.mem)

/-- The logged payload is what the data pointer shows when the call is made. -/
def sendNocopy (c : Chan) (mem : Memory 32) (ept : Ept) (dst : U16) (data : U32) (len : U16) :
    Chan × Memory 32 :=
  let r := rpmsgSendNocopy ⟨c.ring, mem⟩ ept dst data len
  if r.1 = 0 then
    ({ c with
        ring := r.2.ring
        txHeld := c.txHeld.eraseP fun p => p.1 == data - 8#32
        sent := c.sent ++ [⟨dst, ept.addr, len, read mem data len.toNat⟩] }, r.2.mem)
  else ({ c with ring := r.2.ring }, r.2.mem)

def send (c : Chan) (mem : Memory 32) (ept : Ept) (dst : U16) (data : U32) (len : U16) :
    Chan × Memory 32 :=
  let r := rpmsgSend ⟨c.ring, mem⟩ ept dst data len
  if r.1 = 0 then
    ({ c with
        ring := r.2.ring
        sent := c.sent ++ [⟨dst, ept.addr, len, read mem data len.toNat⟩] }, r.2.mem)
  else ({ c with ring := r.2.ring }, r.2.mem)

/-- The receiver holds what its callbacks were given. A buffer for which no
callback was called is held by nobody. -/
def poll (c : Chan) (mem : Memory 32) : Chan :=
  let r := rpmsgPoll ⟨c.ring, mem⟩ c.epts
  let b := (c.ring.reply .recv).buffer
  if (c.ring.reply .recv).ret ≠ 0 then { c with ring := r.2 }
  else
    { c with
      ring := r.2
      rxHeld := r.1.2.map (fun k => ⟨k.msgData - 8#32, k.msg, false⟩) ++ c.rxHeld
      leaked := if r.1.2 = [] then b :: c.leaked else c.leaked
      polled := c.polled ++
        [⟨b, msgAt mem b, searchEndpoint c.epts (dstAddrAt mem b), r.1.2⟩] }

def destroy (c : Chan) (msgData : U32) : Chan :=
  let r := rpmsgDestroy c.ring msgData
  if r.1 = 0 then
    { c with ring := r.2, rxHeld := c.rxHeld.eraseP fun h => h.buffer == msgData - 8#32 }
  else { c with ring := r.2 }

/-- The receiver stored a byte at `x`. -/
def mark (c : Chan) (itemSize : ℕ) (x : U32) : Chan :=
  { c with rxHeld := c.rxHeld.map fun h =>
      if Within h.buffer itemSize x then { h with written := true } else h }

/-- Only the sender acted: the receiving half is the same, and the messages sent
before are still the first ones. -/
structure SenderOnly (c c' : Chan) : Prop where
  epts : c'.epts = c.epts
  rxHeld : c'.rxHeld = c.rxHeld
  leaked : c'.leaked = c.leaked
  polled : c'.polled = c.polled
  sent : c.sent <+: c'.sent

theorem createMessage_senderOnly (c : Chan) (mem : Memory 32) (nbytes : U32) (flags : U16) :
    SenderOnly c (c.createMessage mem nbytes flags).1 := by
  simp only [createMessage]
  split_ifs <;> exact ⟨rfl, rfl, rfl, rfl, List.prefix_rfl⟩

theorem sendNocopy_senderOnly (c : Chan) (mem : Memory 32) (ept : Ept) (dst : U16) (data : U32)
    (len : U16) : SenderOnly c (c.sendNocopy mem ept dst data len).1 := by
  simp only [sendNocopy]
  split_ifs
  · exact ⟨rfl, rfl, rfl, rfl, List.prefix_append _ _⟩
  · exact ⟨rfl, rfl, rfl, rfl, List.prefix_rfl⟩

theorem send_senderOnly (c : Chan) (mem : Memory 32) (ept : Ept) (dst : U16) (data : U32)
    (len : U16) : SenderOnly c (c.send mem ept dst data len).1 := by
  simp only [send]
  split_ifs
  · exact ⟨rfl, rfl, rfl, rfl, List.prefix_append _ _⟩
  · exact ⟨rfl, rfl, rfl, rfl, List.prefix_rfl⟩

end Chan

/-- A place for the item buffers: inside the address space, without the null
pointer, and with a positive item size. The notify function is quiet. -/
structure Placed (u : Setup) : Prop where
  quiet : u.QuietNotify
  itemSize_ne : u.itemSize ≠ 0
  buffer_pos : 0 < u.buffer.toNat
  area_lt : u.buffer.toNat + u.n * u.itemSize.toNat < 2 ^ 32

section Items
variable {u : Setup} {a b x : U32}

theorem Placed.itemAddr_bounds (hp : Placed u) (ha : a ∈ u.addrs) :
    u.buffer.toNat ≤ a.toNat ∧ a.toNat + u.itemSize.toNat ≤ u.buffer.toNat + u.n * u.itemSize.toNat
      := by
  obtain ⟨i, hi, rfl⟩ := List.mem_map.mp ha
  rw [List.mem_range] at hi
  have harea := hp.area_lt
  have hmul : (i + 1) * u.itemSize.toNat ≤ u.n * u.itemSize.toNat := Nat.mul_le_mul_right _ hi
  rw [Nat.succ_mul] at hmul
  rw [itemAddr, BitVec.toNat_add, BitVec.toNat_ofNat, Nat.mod_eq_of_lt (a := i * _) (by omega),
    Nat.mod_eq_of_lt (by omega)]
  omega

theorem Placed.ne_zero (hp : Placed u) (ha : a ∈ u.addrs) : a ≠ 0 := by
  have h := (hp.itemAddr_bounds ha).1
  have hpos := hp.buffer_pos
  rintro rfl
  simp only [BitVec.ofNat_eq_ofNat, BitVec.toNat_ofNat, Nat.zero_mod] at h
  omega

/-- The data pointer of an item with room for a header is no null pointer. -/
theorem Placed.data_ne_zero (hp : Placed u) (ha : a ∈ u.addrs) (h8 : 8 ≤ u.itemSize.toNat) :
    a + 8#32 ≠ 0 := by
  obtain ⟨hlo, hhi⟩ := hp.itemAddr_bounds ha
  have harea := hp.area_lt
  intro h
  have heq := congrArg BitVec.toNat h
  rw [BitVec.toNat_add, show (8#32).toNat = 8 from rfl, show (0 : U32).toNat = 0 from rfl,
    Nat.mod_eq_of_lt (by omega)] at heq
  omega

theorem Placed.apart (hp : Placed u) (ha : a ∈ u.addrs) (hb : b ∈ u.addrs) (hab : a ≠ b) :
    Apart a u.itemSize.toNat b u.itemSize.toNat := by
  have hlt : ∀ i j, i < j → j < u.n → Apart (itemAddr u.buffer u.itemSize i) u.itemSize.toNat
      (itemAddr u.buffer u.itemSize j) u.itemSize.toNat := by
    intro i j hij hj
    have h₁ : (i + 1) * u.itemSize.toNat ≤ j * u.itemSize.toNat := Nat.mul_le_mul_right _ hij
    have h₂ : (j + 1) * u.itemSize.toNat ≤ u.n * u.itemSize.toNat := Nat.mul_le_mul_right _ hj
    have harea := hp.area_lt
    rw [Nat.succ_mul] at h₁ h₂
    exact apart_of_offsets h₁ (by omega)
  obtain ⟨i, hi, rfl⟩ := List.mem_map.mp ha
  obtain ⟨j, hj, rfl⟩ := List.mem_map.mp hb
  rw [List.mem_range] at hi hj
  rcases Nat.lt_trichotomy i j with h | rfl | h
  · exact hlt i j h hj
  · exact (hab rfl).elim
  · exact (hlt j i h hi).symm

end Items

/-- A buffer carries a message that fits into it. -/
def Carries (u : Setup) (mem : Memory 32) (b : U32) (msg : Msg) : Prop :=
  msgAt mem b = msg ∧ msg.len.toNat + 8 ≤ u.itemSize.toNat

theorem Carries.congr {u : Setup} {mem mem' : Memory 32} {b : U32} {msg : Msg}
    (h : Carries u mem b msg) (hm : ∀ x, Within b u.itemSize.toNat x → mem' x = mem x) :
    Carries u mem' b msg := by
  obtain ⟨rfl, hfit⟩ := h
  exact ⟨msgAt_congr hfit hm, hfit⟩

/-- Only item buffers of one direction are stored to. -/
def Local (u : Setup) (mem mem' : Memory 32) : Prop :=
  ∀ x, mem' x ≠ mem x → ∃ b ∈ u.addrs, Within b u.itemSize.toNat x

namespace Local
variable {u : Setup} {mem mem₁ mem₂ : Memory 32} {b : U32}

theorem refl (u : Setup) (mem : Memory 32) : Local u mem mem := fun _ h => (h rfl).elim

theorem trans (h₁ : Local u mem mem₁) (h₂ : Local u mem₁ mem₂) : Local u mem mem₂ := by
  intro x hx
  by_cases h : mem₂ x = mem₁ x
  · exact h₁ x (h ▸ hx)
  · exact h₂ x h

theorem of_buffer (hb : b ∈ u.addrs)
    (hm : ∀ x, ¬ Within b u.itemSize.toNat x → mem₁ x = mem x) : Local u mem mem₁ := by
  intro x hx
  by_contra h
  exact hx (hm x fun hw => h ⟨b, hb, hw⟩)

end Local

/-- Every item buffer is in one place, and the buffers under way carry exactly
the sent messages that were not polled yet. -/
structure ChanInv (u : Setup) (mem : Memory 32) (c : Chan) (t : Fifos) : Prop where
  refines : Refines u c.ring t
  allocated : t.allocated = c.txHeld.length
  received : t.received = c.rxHeld.length + c.leaked.length
  total : (t.free ++ c.txHeld.map Prod.fst ++ t.sent.map Prod.fst ++ c.rxHeld.map Held.buffer ++
    c.leaked).Perm u.addrs
  created : ∀ p ∈ c.txHeld, p.2 + 8 ≤ u.itemSize.toNat
  pending : ∀ p ∈ t.sent, Carries u mem p.1 (msgAt mem p.1)
  log : c.sent = c.polled.map Polled.msg ++ t.sent.map fun p => msgAt mem p.1
  intact : ∀ h ∈ c.rxHeld, h.written = false → Carries u mem h.buffer h.msg

namespace ChanInv
variable {u : Setup} {mem mem' : Memory 32} {c : Chan} {t : Fifos} {b : U32}

theorem nodup (hp : Placed u) (h : ChanInv u mem c t) :
    (t.free ++ c.txHeld.map Prod.fst ++ t.sent.map Prod.fst ++ c.rxHeld.map Held.buffer ++
      c.leaked).Nodup :=
  h.total.nodup_iff.mpr (addrs_nodup u hp.itemSize_ne)

theorem mem_addrs_of_free (h : ChanInv u mem c t) (hb : b ∈ t.free) : b ∈ u.addrs :=
  h.total.mem_iff.mp (by simp [hb])

theorem mem_addrs_of_txHeld (h : ChanInv u mem c t) (hb : b ∈ c.txHeld.map Prod.fst) :
    b ∈ u.addrs :=
  h.total.mem_iff.mp (List.mem_append_left _ (List.mem_append_left _ (List.mem_append_left _
    (List.mem_append_right _ hb))))

theorem mem_addrs_of_sent (h : ChanInv u mem c t) (hb : b ∈ t.sent.map Prod.fst) :
    b ∈ u.addrs :=
  h.total.mem_iff.mp (List.mem_append_left _ (List.mem_append_left _ (List.mem_append_right _ hb)))

theorem mem_addrs_of_rxHeld (h : ChanInv u mem c t) (hb : b ∈ c.rxHeld.map Held.buffer) :
    b ∈ u.addrs :=
  h.total.mem_iff.mp (List.mem_append_left _ (List.mem_append_right _ hb))

/-- What the sender holds is neither free, nor under way, nor received. -/
theorem txHeld_disjoint (hp : Placed u) (h : ChanInv u mem c t)
    (hb : b ∈ c.txHeld.map Prod.fst) :
    b ∉ t.free ∧ b ∉ t.sent.map Prod.fst ∧ b ∉ c.rxHeld.map Held.buffer := by
  have hnd := h.nodup hp
  simp only [List.nodup_append, List.mem_append] at hnd
  grind

theorem free_disjoint (hp : Placed u) (h : ChanInv u mem c t) (hb : b ∈ t.free) :
    b ∉ c.txHeld.map Prod.fst ∧ b ∉ t.sent.map Prod.fst ∧ b ∉ c.rxHeld.map Held.buffer := by
  have hnd := h.nodup hp
  simp only [List.nodup_append, List.mem_append] at hnd
  grind

theorem rxHeld_disjoint (hp : Placed u) (h : ChanInv u mem c t)
    (hb : b ∈ c.rxHeld.map Held.buffer) :
    b ∉ t.free ∧ b ∉ c.txHeld.map Prod.fst ∧ b ∉ t.sent.map Prod.fst := by
  have hnd := h.nodup hp
  simp only [List.nodup_append, List.mem_append] at hnd
  grind

/-- Memory may change anywhere except in the buffers under way and in the
received buffers that count as unwritten. -/
theorem frame (h : ChanInv u mem c t)
    (hs : ∀ p ∈ t.sent, ∀ x, Within p.1 u.itemSize.toNat x → mem' x = mem x)
    (hr : ∀ k ∈ c.rxHeld, k.written = false →
      ∀ x, Within k.buffer u.itemSize.toNat x → mem' x = mem x) :
    ChanInv u mem' c t := by
  have hmsg : ∀ p ∈ t.sent, msgAt mem' p.1 = msgAt mem p.1 :=
    fun p hp => ((h.pending p hp).congr (hs p hp)).1
  refine ⟨h.refines, h.allocated, h.received, h.total, h.created, ?_, ?_, ?_⟩
  · intro p hp
    rw [hmsg p hp]
    exact (h.pending p hp).congr (hs p hp)
  · rw [h.log, List.map_congr_left hmsg]
  · intro k hk hw
    exact (h.intact k hk hw).congr (hr k hk hw)

/-- The sender, or anybody outside the item buffers, may store. -/
theorem frame_sender (hp : Placed u) (h : ChanInv u mem c t)
    (hm : ∀ x, mem' x ≠ mem x →
      ∀ b ∈ u.addrs, Within b u.itemSize.toNat x → b ∈ c.txHeld.map Prod.fst) :
    ChanInv u mem' c t := by
  refine h.frame ?_ ?_
  · intro p hs x hx
    by_contra hne
    have hb := List.mem_map_of_mem (f := Prod.fst) hs
    exact (h.txHeld_disjoint hp (hm x hne _ (h.mem_addrs_of_sent hb) hx)).2.1 hb
  · intro k hk _ x hx
    by_contra hne
    have hb := List.mem_map_of_mem (f := Held.buffer) hk
    exact (h.txHeld_disjoint hp (hm x hne _ (h.mem_addrs_of_rxHeld hb) hx)).2.2 hb

/-- The receiver may store into what it holds, which then counts as written. -/
theorem frame_receiver (hp : Placed u) (h : ChanInv u mem c t) {x : U32} (v : U8)
    (hm : ∀ b ∈ u.addrs, Within b u.itemSize.toNat x → b ∈ c.rxHeld.map Held.buffer) :
    ChanInv u (write mem x [v]) (c.mark u.itemSize.toNat x) t := by
  have hbuf : (c.mark u.itemSize.toNat x).rxHeld.map Held.buffer = c.rxHeld.map Held.buffer := by
    simp only [Chan.mark, List.map_map]
    apply List.map_congr_left
    intro k _
    simp only [Function.comp_apply]
    split_ifs <;> rfl
  have hmark : ChanInv u mem (c.mark u.itemSize.toNat x) t := by
    refine ⟨h.refines, h.allocated, ?_, ?_, h.created, h.pending, h.log, ?_⟩
    · simpa [Chan.mark] using h.received
    · rw [hbuf]
      exact h.total
    · intro k hk hw
      obtain ⟨k', hk', rfl⟩ := List.mem_map.mp hk
      split_ifs at hw ⊢ with hx
      exact h.intact k' hk' hw
  refine hmark.frame ?_ ?_
  · intro p hs y hy
    refine write_byte_of_ne ?_
    rintro rfl
    have hb := List.mem_map_of_mem (f := Prod.fst) hs
    exact (h.rxHeld_disjoint hp (hm _ (h.mem_addrs_of_sent hb) hy)).2.2 hb
  · intro k hk hw y hy
    refine write_byte_of_ne ?_
    rintro rfl
    obtain ⟨k', hk', rfl⟩ := List.mem_map.mp hk
    split_ifs at hw hy with hx
    exact hx hy

end ChanInv

section Calls
variable {u : Setup} {l : Link} {t : Fifos}

theorem refines_call (hp : Placed u) {ring : Vring} (hr : Refines u ring t) (call : Call) :
    ring.reply call = (fifoStep u.itemSize t call).1 ∧
      Refines u (ring.apply call) (fifoStep u.itemSize t call).2 :=
  refines_step hp.quiet hr call

/-- An allocation that fits takes the first free buffer, if there is one; any
other yields a null pointer. -/
theorem alloc_cases (hp : Placed u) {ring : Vring} (hr : Refines u ring t) (size : U16) :
    ((ring.reply (.alloc size)).buffer = 0 ∧ Refines u (ring.apply (.alloc size)) t) ∨
      ∃ b bs, t.free = b :: bs ∧ size ≤ u.itemSize ∧
        ring.reply (.alloc size) = { ret := espOk, buffer := b } ∧
        Refines u (ring.apply (.alloc size))
          { t with free := bs, allocated := t.allocated + 1 } := by
  obtain ⟨hreply, hnext⟩ := refines_call hp hr (.alloc size)
  simp only [fifoStep] at hreply hnext
  by_cases hmax : u.itemSize < size
  · rw [if_pos hmax] at hreply hnext
    exact .inl ⟨by rw [hreply], hnext⟩
  · rw [if_neg hmax] at hreply hnext
    cases hf : t.free with
    | nil =>
        simp only [hf] at hreply hnext
        exact .inl ⟨by rw [hreply], hnext⟩
    | cons b bs =>
        simp only [hf] at hreply hnext
        exact .inr ⟨b, bs, rfl, BitVec.not_lt.mp hmax, hreply, hnext⟩

/-- A created message takes the first free buffer and stores into its header;
otherwise nothing changes. The size test is made on the 32-bit sum. -/
theorem createMessage_takes (hp : Placed u) (hr : Refines u l.ring t)
    (hfree : ∀ b ∈ t.free, b ∈ u.addrs) (nbytes : U32) (flags : U16) :
    ((rpmsgCreateMessage l nbytes flags).1 = 0 ∧ (rpmsgCreateMessage l nbytes flags).2.mem = l.mem ∧
      Refines u (rpmsgCreateMessage l nbytes flags).2.ring t) ∨
    ∃ b bs, t.free = b :: bs ∧ nbytes + 8#32 < 1#32 <<< 16 ∧
      (nbytes + 8#32).setWidth 16 ≤ u.itemSize ∧
      (rpmsgCreateMessage l nbytes flags).1 = b + 8#32 ∧
      (∀ x, ¬ Within b 8 x → (rpmsgCreateMessage l nbytes flags).2.mem x = l.mem x) ∧
      Refines u (rpmsgCreateMessage l nbytes flags).2.ring
        { t with free := bs, allocated := t.allocated + 1 } := by
  by_cases hbig : 1#32 <<< 16 ≤ nbytes + 8#32
  · left
    simp only [rpmsgCreateMessage, if_pos hbig]
    exact ⟨trivial, trivial, hr⟩
  · rcases alloc_cases hp hr ((nbytes + 8#32).setWidth 16) with
      ⟨hnull, hnext⟩ | ⟨b, bs, hf, hle, hreply, hnext⟩
    · left
      simp only [rpmsgCreateMessage, if_neg hbig, hnull, true_or, if_true]
      exact ⟨trivial, trivial, hnext⟩
    · right
      have hb : ¬ (b = 0 ∨ espOk = -1) := by
        rintro (rfl | h)
        · exact hp.ne_zero (hfree 0 (by simp [hf])) rfl
        · exact absurd h (by decide)
      simp only [rpmsgCreateMessage, if_neg hbig, hreply, if_neg hb]
      refine ⟨b, bs, hf, BitVec.not_le.mp hbig, hle, rfl, ?_, hnext⟩
      intro x hx
      unfold setDataLen setDataFlags
      rw [write16_of_not_within fun h => hx (within_of_offset (by decide) h),
        write16_of_not_within fun h => hx (within_of_offset (by decide) h)]

/-- Without a wrap of the sum, the created message fits the buffer. -/
theorem createMessage_cases (hp : Placed u) (hr : Refines u l.ring t)
    (hfree : ∀ b ∈ t.free, b ∈ u.addrs) {nbytes : U32} (hn : nbytes.toNat + 8 < 2 ^ 32)
    (flags : U16) :
    ((rpmsgCreateMessage l nbytes flags).1 = 0 ∧ (rpmsgCreateMessage l nbytes flags).2.mem = l.mem ∧
      Refines u (rpmsgCreateMessage l nbytes flags).2.ring t) ∨
    ∃ b bs, t.free = b :: bs ∧ nbytes.toNat + 8 ≤ u.itemSize.toNat ∧
      (rpmsgCreateMessage l nbytes flags).1 = b + 8#32 ∧
      (∀ x, ¬ Within b 8 x → (rpmsgCreateMessage l nbytes flags).2.mem x = l.mem x) ∧
      Refines u (rpmsgCreateMessage l nbytes flags).2.ring
        { t with free := bs, allocated := t.allocated + 1 } := by
  have hsize : (nbytes + 8#32).toNat = nbytes.toNat + 8 := by
    rw [BitVec.toNat_add, show (8#32).toNat = 8 from rfl, Nat.mod_eq_of_lt hn]
  refine (createMessage_takes hp hr hfree nbytes flags).imp_right ?_
  rintro ⟨b, bs, hf, hlt, hle, hrest⟩
  refine ⟨b, bs, hf, ?_, hrest⟩
  have hlt' : nbytes.toNat + 8 < 2 ^ 16 := by
    rw [← hsize]
    exact BitVec.lt_def.mp hlt
  have hnarrow : ((nbytes + 8#32).setWidth 16).toNat = nbytes.toNat + 8 := by
    rw [BitVec.toNat_setWidth, hsize, Nat.mod_eq_of_lt hlt']
  rw [← hnarrow]
  exact BitVec.le_def.mp hle

/-- Sending an allocated buffer always succeeds. -/
theorem sendNocopy_spec (hp : Placed u) (hr : Refines u l.ring t) (ha : t.allocated ≠ 0)
    (ept : Ept) (dst : U16) (data : U32) (len : U16) :
    (rpmsgSendNocopy l ept dst data len).1 = 0 ∧
      (rpmsgSendNocopy l ept dst data len).2.mem =
        setHeader l.mem (data - 8#32) dst ept.addr len ∧
      Refines u (rpmsgSendNocopy l ept dst data len).2.ring
        { t with sent := t.sent ++ [(data - 8#32, u.itemSize)], allocated := t.allocated - 1 } := by
  have hmax : l.ring.master.maxItemSize = u.itemSize := by
    obtain ⟨k, hk, -⟩ := hr
    rw [hk.master]
    rfl
  have hle : ¬ u.itemSize < u.itemSize := BitVec.lt_irrefl _
  obtain ⟨hreply, hnext⟩ := refines_call hp hr (.send (data - 8#32) u.itemSize)
  simp only [fifoStep, if_neg ha, if_neg hle] at hreply hnext
  refine ⟨?_, rfl, ?_⟩
  · simp only [rpmsgSendNocopy, hmax, hreply]
    rfl
  · simpa only [rpmsgSendNocopy, hmax] using hnext

/-- A reception takes the first buffer under way, if there is one. -/
theorem recv_cases (hp : Placed u) {ring : Vring} (hr : Refines u ring t) :
    (t.sent = [] ∧ (ring.reply .recv).ret ≠ 0 ∧ Refines u (ring.apply .recv) t) ∨
      ∃ b size rest, t.sent = (b, size) :: rest ∧ (ring.reply .recv).ret = 0 ∧
        (ring.reply .recv).buffer = b ∧
        Refines u (ring.apply .recv) { t with sent := rest, received := t.received + 1 } := by
  obtain ⟨hreply, hnext⟩ := refines_call hp hr .recv
  simp only [fifoStep] at hreply hnext
  cases hs : t.sent with
  | nil =>
      simp only [hs] at hreply hnext
      exact .inl ⟨rfl, by rw [hreply]; decide, hnext⟩
  | cons p rest =>
      simp only [hs] at hreply hnext
      exact .inr ⟨p.1, p.2, rest, rfl, by rw [hreply]; rfl, by rw [hreply], hnext⟩

/-- Every message is dispatched to at most one callback, which is told where it
lies and what it says. -/
theorem rpmsgDispatcher_calls (mem : Memory 32) (epts : List Ept) (b : U32) :
    (rpmsgDispatcher mem epts b).2 = [] ∨
      ∃ k, (rpmsgDispatcher mem epts b).2 = [k] ∧ k.msgData = b + 8#32 ∧ k.msg = msgAt mem b := by
  unfold rpmsgDispatcher
  cases he : searchEndpoint epts (dstAddrAt mem b) with
  | none => exact .inl rfl
  | some ept =>
      cases hc : ept.rxCb with
      | none => exact .inl (by simp only [hc])
      | some cb =>
          refine .inr ⟨_, by simp only [hc]; rfl, rfl, ?_⟩
          simp only [CbCall.msg, msgAt, (addr_of_search he).2]

end Calls

namespace ChanInv
variable {u : Setup} {mem mem' : Memory 32} {c : Chan} {t : Fifos} {b : U32}

theorem of_ring (h : ChanInv u mem c t) {ring : Vring} (hr : Refines u ring t) :
    ChanInv u mem { c with ring := ring } t :=
  ⟨hr, h.allocated, h.received, h.total, h.created, h.pending, h.log, h.intact⟩

/-- Stores that stay within one buffer of the sender. -/
theorem frame_held (hp : Placed u) (h : ChanInv u mem c t) (hb : b ∈ c.txHeld.map Prod.fst)
    (hm : ∀ x, ¬ Within b u.itemSize.toNat x → mem' x = mem x) : ChanInv u mem' c t := by
  refine h.frame_sender hp ?_
  intro x hne a ha hx
  have hbx : Within b u.itemSize.toNat x := by
    by_contra hout
    exact hne (hm x hout)
  by_cases hab : a = b
  · rwa [hab]
  · exact (hp.apart ha (h.mem_addrs_of_txHeld hb) hab x hx hbx).elim

/-- A buffer leaves the free list with its header stored. -/
theorem take_free (hp : Placed u) (h : ChanInv u mem c t) {bs : List U32} (hf : t.free = b :: bs)
    {n : ℕ} (hn : n + 8 ≤ u.itemSize.toNat) {ring : Vring}
    (hr : Refines u ring { t with free := bs, allocated := t.allocated + 1 })
    (hm : ∀ x, ¬ Within b u.itemSize.toNat x → mem' x = mem x) :
    ChanInv u mem' { c with ring := ring, txHeld := (b, n) :: c.txHeld }
      { t with free := bs, allocated := t.allocated + 1 } := by
  have hmoved : ChanInv u mem { c with ring := ring, txHeld := (b, n) :: c.txHeld }
      { t with free := bs, allocated := t.allocated + 1 } := by
    refine ⟨hr, ?_, h.received, ?_, ?_, h.pending, h.log, h.intact⟩
    · simp [h.allocated]
    · refine List.Perm.trans ?_ h.total
      rw [List.perm_iff_count]
      intro a
      simp only [hf, List.map_cons, List.count_append, List.count_cons]
      omega
    · intro p hpm
      rcases List.mem_cons.mp hpm with rfl | hpm
      · exact hn
      · exact h.created p hpm
  exact hmoved.frame_held hp (by simp) hm

theorem createMessage (hp : Placed u) (h : ChanInv u mem c t) {nbytes : U32}
    (hn : nbytes.toNat + 8 < 2 ^ 32) (flags : U16) :
    Local u mem (c.createMessage mem nbytes flags).2 ∧
      ∃ t', ChanInv u (c.createMessage mem nbytes flags).2 (c.createMessage mem nbytes flags).1
        t' := by
  rcases createMessage_cases (l := ⟨c.ring, mem⟩) hp h.refines (fun b hb => h.mem_addrs_of_free hb)
    hn flags with ⟨hz, hmem, hr⟩ | ⟨b, bs, hf, hfit, hb, hmem, hr⟩
  · simp only [Chan.createMessage, if_pos hz, hmem]
    exact ⟨.refl u mem, t, h.of_ring hr⟩
  · have hba : b ∈ u.addrs := h.mem_addrs_of_free (by simp [hf])
    have hne := hp.data_ne_zero hba (by omega)
    have hout : ∀ x, ¬ Within b u.itemSize.toNat x →
        (rpmsgCreateMessage ⟨c.ring, mem⟩ nbytes flags).2.mem x = mem x :=
      fun x hx => hmem x (mt (Within.mono (by omega)) hx)
    simp only [Chan.createMessage, hb, if_neg hne, BitVec.add_sub_cancel]
    exact ⟨.of_buffer hba hout, _, h.take_free hp hf hfit hr hout⟩

/-- A held buffer joins the buffers under way and carries what was in it. -/
theorem sendNocopy (hp : Placed u) (h : ChanInv u mem c t) (ept : Ept) (dst : U16) {data : U32}
    {len : U16} (hheld : ∃ p ∈ c.txHeld, p.1 = data - 8#32 ∧ len.toNat ≤ p.2) :
    Local u mem (c.sendNocopy mem ept dst data len).2 ∧
      ∃ t', ChanInv u (c.sendNocopy mem ept dst data len).2 (c.sendNocopy mem ept dst data len).1
        t' := by
  obtain ⟨p, hpm, hpd, hlen⟩ := hheld
  have hfit := h.created p hpm
  have hb : data - 8#32 ∈ c.txHeld.map Prod.fst := hpd ▸ List.mem_map_of_mem hpm
  have hpos : t.allocated ≠ 0 := by
    rw [h.allocated]
    exact Nat.ne_of_gt (List.length_pos_of_mem hpm)
  obtain ⟨hret, hmem, hr⟩ := sendNocopy_spec (l := ⟨c.ring, mem⟩) hp h.refines hpos ept dst data len
  obtain ⟨q, l₁, l₂, -, hq, hsplit, herase⟩ :=
    List.exists_of_eraseP (p := fun p : U32 × ℕ => p.1 == data - 8#32) hpm (by simp [hpd])
  have hq' : q.1 = data - 8#32 := by simpa using hq
  have hout : ∀ x, ¬ Within (data - 8#32) u.itemSize.toNat x →
      setHeader mem (data - 8#32) dst ept.addr len x = mem x :=
    fun x hx => setHeader_of_outside (mt (Within.mono (by omega)) hx)
  have hkeep : ChanInv u (setHeader mem (data - 8#32) dst ept.addr len) c t :=
    h.frame_held hp hb hout
  have hmsg : msgAt (setHeader mem (data - 8#32) dst ept.addr len) (data - 8#32) =
      ⟨dst, ept.addr, len, read mem data len.toNat⟩ := by
    rw [msgAt_setHeader, BitVec.sub_add_cancel]
  simp only [Chan.sendNocopy, if_pos hret, hmem]
  refine ⟨.of_buffer (h.mem_addrs_of_txHeld hb) hout, { t with
    sent := t.sent ++ [(data - 8#32, u.itemSize)]
    allocated := t.allocated - 1 }, hr, ?_, h.received, ?_, ?_, ?_, ?_, hkeep.intact⟩
  · rw [herase, h.allocated, hsplit]
    simp
  · refine List.Perm.trans ?_ h.total
    rw [List.perm_iff_count]
    intro a
    rw [herase, hsplit]
    simp only [List.map_append, List.map_cons, List.map_nil, List.count_append, List.count_cons,
      List.count_nil, hq']
    omega
  · intro p' hp'
    exact h.created p' (List.mem_of_mem_eraseP hp')
  · intro p' hp'
    rcases List.mem_append.mp hp' with hp' | hp'
    · exact hkeep.pending p' hp'
    · obtain rfl := List.mem_singleton.mp hp'
      refine ⟨rfl, ?_⟩
      rw [hmsg]
      exact Nat.le_trans (Nat.add_le_add_right hlen 8) hfit
  · rw [List.map_append, List.map_singleton, hmsg, ← List.append_assoc, hkeep.log]

/-- Copying into the buffer created last and sending it succeeds, and leaves the
sender with what it held before. -/
theorem copy_and_send (hp : Placed u) {n : ℕ} {len : U16}
    (h : ChanInv u mem { c with txHeld := (b, n) :: c.txHeld } t) (hlen : len.toNat ≤ n) (ept : Ept)
    (dst : U16) {data : U32}
    (hout : ∀ i < len.toNat, ¬ Within b u.itemSize.toNat (data + BitVec.ofNat 32 i)) :
    let r := rpmsgSendNocopy ⟨c.ring, copyBytes data (b + 8#32) len.toNat 0 mem⟩ ept dst (b + 8#32)
      len
    r.1 = 0 ∧ Local u mem r.2.mem ∧ ∃ t', ChanInv u r.2.mem
      { c with
        ring := r.2.ring
        sent := c.sent ++ [⟨dst, ept.addr, len, read mem data len.toNat⟩] } t' := by
  intro r
  have hlt := len.isLt
  have hfit : n + 8 ≤ u.itemSize.toNat := h.created (b, n) (List.mem_cons_self ..)
  have hcopy : ∀ x, ¬ Within b u.itemSize.toNat x →
      copyBytes data (b + 8#32) len.toNat 0 mem x = mem x := by
    intro x hx
    refine copyBytes_of_outside fun hw => hx ?_
    exact within_of_offset (show 8 + len.toNat ≤ _ by omega) (by simpa using hw)
  have hcopied : ChanInv u (copyBytes data (b + 8#32) len.toNat 0 mem)
      { c with txHeld := (b, n) :: c.txHeld } t := h.frame_held (b := b) hp (by simp) hcopy
  have hpos : t.allocated ≠ 0 := by simp [h.allocated]
  obtain ⟨hret, -, -⟩ := sendNocopy_spec
    (l := ⟨c.ring, copyBytes data (b + 8#32) len.toNat 0 mem⟩) hp hcopied.refines hpos ept dst
    (b + 8#32) len
  have hpayload : read (copyBytes data (b + 8#32) len.toNat 0 mem) (b + 8#32) len.toNat =
      read mem data len.toNat :=
    read_copyBytes (by omega) fun i hi hx => hout i hi (within_of_offset (by omega) hx)
  have hheld : ∃ q ∈ (b, n) :: c.txHeld, q.1 = b + 8#32 - 8#32 ∧ len.toNat ≤ q.2 :=
    ⟨(b, n), List.mem_cons_self .., by simp, hlen⟩
  obtain ⟨hlocal, t', ht'⟩ := hcopied.sendNocopy hp ept dst hheld
  simp only [Chan.sendNocopy, hret, if_true, hpayload] at hlocal ht'
  refine ⟨hret, (Local.of_buffer (h.mem_addrs_of_txHeld (by simp)) hcopy).trans hlocal, t', ?_⟩
  simpa using ht'

/-- A copying send is a creation, the copy and a send without copy; the bytes
arrive as the caller's pointer shows them before the call. -/
theorem send (hp : Placed u) (h : ChanInv u mem c t) (ept : Ept) (dst : U16) {data : U32}
    {len : U16} (hdata : ∀ i < len.toNat, ∀ b ∈ u.addrs,
      Within b u.itemSize.toNat (data + BitVec.ofNat 32 i) → b ∈ c.txHeld.map Prod.fst) :
    Local u mem (c.send mem ept dst data len).2 ∧
      ∃ t', ChanInv u (c.send mem ept dst data len).2 (c.send mem ept dst data len).1 t' := by
  have hlt := len.isLt
  have hlen : (len.setWidth 32).toNat = len.toNat := by
    rw [BitVec.toNat_setWidth, Nat.mod_eq_of_lt (by omega)]
  have hn : (len.setWidth 32).toNat + 8 < 2 ^ 32 := by omega
  by_cases hz : data = 0 ∨ len = 0
  · simp only [Chan.send, rpmsgSend, if_pos hz]
    exact ⟨.refl u mem, t, h⟩
  · rcases createMessage_cases (l := ⟨c.ring, mem⟩) hp h.refines
      (fun b hb => h.mem_addrs_of_free hb) hn 0 with
      ⟨hnull, hmem, hr⟩ | ⟨b, bs, hf, hfit, hb, hmem, hr⟩
    · simp only [Chan.send, rpmsgSend, if_neg hz, hnull, if_true, hmem]
      exact ⟨.refl u mem, t, h.of_ring hr⟩
    · rw [hlen] at hfit
      have hbf : b ∈ t.free := by simp [hf]
      have hba := h.mem_addrs_of_free hbf
      have hne := hp.data_ne_zero hba (by omega)
      have hout : ∀ i < len.toNat, ¬ Within b u.itemSize.toNat (data + BitVec.ofNat 32 i) :=
        fun i hi hx => (h.free_disjoint hp hbf).1 (hdata i hi b hba hx)
      have hheader : ∀ x, ¬ Within b u.itemSize.toNat x →
          (rpmsgCreateMessage ⟨c.ring, mem⟩ (len.setWidth 32) 0).2.mem x = mem x :=
        fun x hx => hmem x (mt (Within.mono (by omega)) hx)
      have hcreated := h.take_free hp hf hfit hr hheader
      obtain ⟨hret, hlocal, t', ht'⟩ := copy_and_send
        (c := { c with ring := (rpmsgCreateMessage ⟨c.ring, mem⟩ (len.setWidth 32) 0).2.ring }) hp
        hcreated le_rfl ept dst hout
      have hread : read (rpmsgCreateMessage ⟨c.ring, mem⟩ (len.setWidth 32) 0).2.mem data
          len.toNat = read mem data len.toNat := by
        apply List.map_congr_left
        intro i hi
        rw [List.mem_range] at hi
        exact hheader _ (hout i hi)
      rw [hread] at ht'
      simp only [Chan.send, rpmsgSend, if_neg hz, hb, if_neg hne, hret, if_true]
      exact ⟨(Local.of_buffer hba hheader).trans hlocal, t', ht'⟩

/-- The first buffer under way leaves the queue, into the hands of the receiver or
of nobody. -/
theorem take_sent (h : ChanInv u mem c t) {size : U16} {rest : List (U32 × U16)}
    (hs : t.sent = (b, size) :: rest) {ring : Vring}
    (hr : Refines u ring { t with sent := rest, received := t.received + 1 }) {held : List Held}
    {lost : List U32} (hone : held.map Held.buffer ++ lost = [b])
    (hheld : ∀ k ∈ held, Carries u mem k.buffer k.msg) {e : Polled} (he : e.msg = msgAt mem b) :
    ChanInv u mem
      { c with
        ring := ring
        rxHeld := held ++ c.rxHeld
        leaked := lost ++ c.leaked
        polled := c.polled ++ [e] }
      { t with sent := rest, received := t.received + 1 } := by
  refine ⟨hr, h.allocated, ?_, ?_, h.created, ?_, ?_, ?_⟩
  · have hlen := congrArg List.length hone
    simp only [List.length_append, List.length_map, List.length_singleton] at hlen
    simp only [h.received, List.length_append]
    omega
  · refine List.Perm.trans ?_ h.total
    rw [List.perm_iff_count]
    intro a
    have hcount := congrArg (List.count a) hone
    simp only [List.count_append, List.count_cons, List.count_nil] at hcount
    simp only [hs, List.map_append, List.map_cons, List.count_append, List.count_cons]
    omega
  · intro p hpm
    exact h.pending p (by simp [hs, hpm])
  · rw [h.log, hs, List.map_append, List.map_singleton, he, List.append_assoc]
    rfl
  · intro k hk hw
    rcases List.mem_append.mp hk with hk | hk
    · exact hheld k hk
    · exact h.intact k hk hw

/-- A poll keeps the invariant whether or not a callback is called. -/
theorem poll (hp : Placed u) (h : ChanInv u mem c t) : ∃ t', ChanInv u mem (c.poll mem) t' := by
  rcases recv_cases hp h.refines with ⟨hs, hret, hr⟩ | ⟨b, size, rest, hs, hret, hb, hr⟩
  · refine ⟨t, ?_⟩
    simp only [Chan.poll, rpmsgPoll, if_pos hret]
    exact h.of_ring hr
  · refine ⟨{ t with sent := rest, received := t.received + 1 }, ?_⟩
    simp only [Chan.poll, rpmsgPoll, hret, hb, ne_eq, not_true_eq_false, if_false]
    rcases rpmsgDispatcher_calls mem c.epts b with hk | ⟨k, hk, hdata, hmsg⟩
    · simp only [hk, if_true]
      exact h.take_sent hs hr (show ([] : List Held).map Held.buffer ++ [b] = [b] from rfl)
        (by simp) rfl
    · have hbuf : k.msgData - 8#32 = b := by rw [hdata, BitVec.add_sub_cancel]
      simp only [hk, List.map_cons, List.map_nil, hbuf, hmsg, reduceCtorEq, if_false]
      have hheld : ∀ g ∈ [(⟨b, msgAt mem b, false⟩ : Held)], Carries u mem g.buffer g.msg := by
        intro g hg
        obtain rfl := List.mem_singleton.mp hg
        exact h.pending (b, size) (by simp [hs])
      exact h.take_sent (e := ⟨b, msgAt mem b, searchEndpoint c.epts (dstAddrAt mem b), [k]⟩) hs hr
        (List.append_nil _) hheld rfl

/-- A destroyed buffer returns to the free list. -/
theorem destroy (hp : Placed u) (h : ChanInv u mem c t) {msgData : U32}
    (hheld : msgData - 8#32 ∈ c.rxHeld.map Held.buffer) :
    ∃ t', ChanInv u mem (c.destroy msgData) t' := by
  obtain ⟨g, hg, hgb⟩ := List.mem_map.mp hheld
  have hpos : t.received ≠ 0 := by
    have := List.length_pos_of_mem hg
    rw [h.received]
    omega
  obtain ⟨hreply, hnext⟩ := refines_call hp h.refines (.free (msgData - 8#32))
  simp only [fifoStep, if_neg hpos] at hreply hnext
  have hret : (rpmsgDestroy c.ring msgData).1 = 0 := by
    rw [rpmsgDestroy, hreply]
    rfl
  obtain ⟨q, l₁, l₂, -, hq, hsplit, herase⟩ :=
    List.exists_of_eraseP (p := fun g : Held => g.buffer == msgData - 8#32) hg (by simp [hgb])
  have hq' : q.buffer = msgData - 8#32 := by simpa using hq
  refine ⟨{ t with free := t.free ++ [msgData - 8#32], received := t.received - 1 }, ?_⟩
  simp only [Chan.destroy, if_pos hret]
  refine ⟨hnext, h.allocated, ?_, ?_, h.created, h.pending, h.log, ?_⟩
  · rw [herase, h.received, hsplit]
    simp only [List.length_append, List.length_cons]
    omega
  · refine List.Perm.trans ?_ h.total
    rw [List.perm_iff_count]
    intro a
    rw [herase, hsplit]
    simp only [List.map_append, List.map_cons, List.count_append, List.count_cons,
      List.count_nil, hq']
    omega
  · intro g' hg' hw
    exact h.intact g' (List.mem_of_mem_eraseP hg') hw

end ChanInv
end EspAmp.RpmsgChannel
