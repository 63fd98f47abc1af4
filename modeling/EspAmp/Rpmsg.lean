import EspAmp.VirtqueueFifo

/-!
# RPMsg over a virtqueue

The message, endpoint and receive calls of `esp_amp_rpmsg.c`. An item buffer
starts with a header of four sixteen-bit words, source, destination, length and
flags, followed by the payload; applications only ever see the address behind
the header. A call works on one direction of a device pair: the virtqueue of
that direction, and the memory that holds its item buffers.

Endpoints are linked in front of the list of their device. An endpoint record
carries the address of the struct that the caller provided for it. Callbacks
are known by their addresses; invoking one is the last action of a poll, so a
call of it is reported together with the bytes it finds.
-/
namespace EspAmp.Rpmsg
open ByteMemory Virtqueue VirtqueueFifo

/-- `esp_amp_rpmsg_ept_t` without the link; a null callback is `none`. -/
structure Ept where
  ctx : U32
  addr : U16
  rxCb : Option U32
  rxCbData : U32
deriving DecidableEq, Repr

/-- `__esp_amp_rpmsg_search_endpoint`. -/
def searchEndpoint : List Ept → U16 → Option Ept
  | [], _ => none
  | e :: es, eptAddr => if e.addr = eptAddr then some e else searchEndpoint es eptAddr

/-- `esp_amp_rpmsg_create_endpoint`, returning the struct address or null. -/
def createEndpoint (epts : List Ept) (eptAddr : U16) (rxCb : Option U32) (rxCbData ctx : U32) :
    U32 × List Ept :=
  if ctx = 0 then (0, epts)
  else if (searchEndpoint epts eptAddr).isSome then (0, epts)
  else (ctx, ⟨ctx, eptAddr, rxCb, rxCbData⟩ :: epts)

/-- `esp_amp_rpmsg_delete_endpoint`. -/
def deleteEndpoint : List Ept → U16 → U32 × List Ept
  | [], _ => (0, [])
  | e :: es, eptAddr =>
      if e.addr = eptAddr then (e.ctx, es)
      else ((deleteEndpoint es eptAddr).1, e :: (deleteEndpoint es eptAddr).2)

/-- `esp_amp_rpmsg_rebind_endpoint`. -/
def rebindEndpoint : List Ept → U16 → Option U32 → U32 → U32 × List Ept
  | [], _, _, _ => (0, [])
  | e :: es, eptAddr, rxCb, rxCbData =>
      if e.addr = eptAddr then (e.ctx, { e with rxCb := rxCb, rxCbData := rxCbData } :: es)
      else ((rebindEndpoint es eptAddr rxCb rxCbData).1,
        e :: (rebindEndpoint es eptAddr rxCb rxCbData).2)

/-- One direction: its virtqueue and the memory of its item buffers. -/
structure Link where
  ring : Vring
  mem : Memory 32

section Header
variable (m : Memory 32) (rpmsg : U32)

def srcAddrAt : U16 := word16 m (rpmsg + 0#32)
def dstAddrAt : U16 := word16 m (rpmsg + 2#32)
def dataLenAt : U16 := word16 m (rpmsg + 4#32)
def msgDataAt : List U8 := read m (rpmsg + 8#32) (dataLenAt m rpmsg).toNat

def setSrcAddr (v : U16) : Memory 32 := write16 m (rpmsg + 0#32) v
def setDstAddr (v : U16) : Memory 32 := write16 m (rpmsg + 2#32) v
def setDataLen (v : U16) : Memory 32 := write16 m (rpmsg + 4#32) v
def setDataFlags (v : U16) : Memory 32 := write16 m (rpmsg + 6#32) v

end Header

/-- `esp_amp_rpmsg_create_message`. -/
def rpmsgCreateMessage (l : Link) (nbytes : U32) (flags : U16) : U32 × Link :=
  let rpmsgSize := nbytes + 8#32
  if 1#32 <<< 16 ≤ rpmsgSize then (0, l)
  else
    let r := l.ring.reply (.alloc (rpmsgSize.setWidth 16))
    let ring := l.ring.apply (.alloc (rpmsgSize.setWidth 16))
    if r.buffer = 0 ∨ r.ret = -1 then (0, ⟨ring, l.mem⟩)
    else
      (r.buffer + 8#32,
        ⟨ring, setDataLen (setDataFlags l.mem r.buffer flags) r.buffer (nbytes.setWidth 16)⟩)

/-- `esp_amp_rpmsg_send_nocopy`. -/
def rpmsgSendNocopy (l : Link) (ept : Ept) (dstAddr : U16) (data : U32) (dataLen : U16) :
    Int × Link :=
  let rpmsg := data - 8#32
  let mem := setDataLen l.mem rpmsg dataLen
  let mem := setDstAddr mem rpmsg dstAddr
  let mem := setSrcAddr mem rpmsg ept.addr
  let call := Call.send rpmsg l.ring.master.maxItemSize
  ((l.ring.reply call).ret, ⟨l.ring.apply call, mem⟩)

/-- The copy loop of `esp_amp_rpmsg_send`: `left` bytes remain, the next one is
byte `i`. -/
def copyBytes (data buffer : U32) : ℕ → ℕ → Memory 32 → Memory 32
  | 0, _, m => m
  | left + 1, i, m =>
      copyBytes data buffer left (i + 1)
        (write m (buffer + BitVec.ofNat 32 i) [m (data + BitVec.ofNat 32 i)])

/-- `esp_amp_rpmsg_send`. -/
def rpmsgSend (l : Link) (ept : Ept) (dstAddr : U16) (data : U32) (dataLen : U16) : Int × Link :=
  if data = 0 ∨ dataLen = 0 then (-1, l)
  else
    let (buffer, l) := rpmsgCreateMessage l (dataLen.setWidth 32) 0
    if buffer = 0 then (-1, l)
    else
      rpmsgSendNocopy ⟨l.ring, copyBytes data buffer dataLen.toNat 0 l.mem⟩ ept dstAddr buffer
        dataLen

/-- `esp_amp_rpmsg_destroy`. -/
def rpmsgDestroy (ring : Vring) (msgData : U32) : Int × Vring :=
  ((ring.reply (.free (msgData - 8#32))).ret, ring.apply (.free (msgData - 8#32)))

/-- One call of an endpoint callback: the endpoint's address, the function and
its arguments, and the bytes at the message pointer. -/
structure CbCall where
  eptAddr : U16
  rxCb : U32
  msgData : U32
  dataLen : U16
  srcAddr : U16
  rxCbData : U32
  bytes : List U8
deriving DecidableEq, Repr

/-- `__esp_amp_rpmsg_dispatcher`. -/
def rpmsgDispatcher (mem : Memory 32) (epts : List Ept) (rpmsg : U32) : Int × List CbCall :=
  match searchEndpoint epts (dstAddrAt mem rpmsg) with
  | none => (-1, [])
  | some ept =>
      match ept.rxCb with
      | none => (0, [])
      | some cb =>
          (0, [⟨ept.addr, cb, rpmsg + 8#32, dataLenAt mem rpmsg, srcAddrAt mem rpmsg, ept.rxCbData,
            msgDataAt mem rpmsg⟩])

/-- `esp_amp_rpmsg_poll`. -/
def rpmsgPoll (l : Link) (epts : List Ept) : (Int × List CbCall) × Vring :=
  if (l.ring.reply .recv).ret ≠ 0 then ((-1, []), l.ring.apply .recv)
  else (rpmsgDispatcher l.mem epts (l.ring.reply .recv).buffer, l.ring.apply .recv)

section Endpoints
variable {epts : List Ept} {a : U16} {e : Ept}

theorem addr_of_search (h : searchEndpoint epts a = some e) : e ∈ epts ∧ e.addr = a := by
  induction epts with
  | nil => cases h
  | cons f es ih =>
      rw [searchEndpoint] at h
      split_ifs at h with hf
      · cases h
        exact ⟨List.mem_cons_self .., hf⟩
      · exact ⟨List.mem_cons_of_mem _ (ih h).1, (ih h).2⟩

/-- The dispatcher fails exactly for unknown destinations. -/
theorem rpmsgDispatcher_ret (mem : Memory 32) (rpmsg : U32) :
    (rpmsgDispatcher mem epts rpmsg).1 =
      if (searchEndpoint epts (dstAddrAt mem rpmsg)).isSome then 0 else -1 := by
  unfold rpmsgDispatcher
  cases searchEndpoint epts (dstAddrAt mem rpmsg) with
  | none => rfl
  | some ept =>
      cases h : ept.rxCb with
      | none => simp [h]
      | some cb => simp [h]

end Endpoints

/-- What a message consists of. -/
@[ext] structure Msg where
  dst : U16
  src : U16
  len : U16
  payload : List U8
deriving DecidableEq, Repr

/-- The message in an item buffer. -/
def msgAt (m : Memory 32) (rpmsg : U32) : Msg :=
  ⟨dstAddrAt m rpmsg, srcAddrAt m rpmsg, dataLenAt m rpmsg, msgDataAt m rpmsg⟩

/-- What a callback learns about the message it is called for. -/
def CbCall.msg (c : CbCall) : Msg := ⟨c.eptAddr, c.srcAddr, c.dataLen, c.bytes⟩

section Framing
variable {m m' : Memory 32} {b : U32}

/-- A message is determined by the bytes of its header and payload. -/
theorem msgAt_congr {n : ℕ} (hn : (dataLenAt m b).toNat + 8 ≤ n)
    (h : ∀ x, Within b n x → m' x = m x) : msgAt m' b = msgAt m b := by
  have hword : ∀ k, k + 2 ≤ 8 →
      word16 m' (b + BitVec.ofNat 32 k) = word16 m (b + BitVec.ofNat 32 k) :=
    fun k hk => word16_congr fun x hx => h x (within_of_offset (by omega) hx)
  have hlen : dataLenAt m' b = dataLenAt m b := hword 4 (by decide)
  have hdata : msgDataAt m' b = msgDataAt m b := by
    unfold msgDataAt
    rw [hlen]
    exact read_congr fun x hx => h x (within_of_offset (by omega) hx)
  rw [msgAt, msgAt, hlen, hdata, show dstAddrAt m' b = dstAddrAt m b from hword 2 (by decide),
    show srcAddrAt m' b = srcAddrAt m b from hword 0 (by decide)]

/-- The three header stores of a send. -/
def setHeader (m : Memory 32) (b : U32) (dst src len : U16) : Memory 32 :=
  setSrcAddr (setDstAddr (setDataLen m b len) b dst) b src

theorem setHeader_of_outside {dst src len : U16} {x : U32} (h : ¬ Within b 8 x) :
    setHeader m b dst src len x = m x := by
  have hout : ∀ k, k + 2 ≤ 8 → ¬ Within (b + BitVec.ofNat 32 k) 2 x :=
    fun k hk hx => h (within_of_offset hk hx)
  unfold setHeader setSrcAddr setDstAddr setDataLen
  rw [write16_of_not_within (hout 0 (by decide)), write16_of_not_within (hout 2 (by decide)),
    write16_of_not_within (hout 4 (by decide))]

/-- The receiver reads back the header and the payload already in place. -/
theorem msgAt_setHeader (dst src len : U16) :
    msgAt (setHeader m b dst src len) b = ⟨dst, src, len, read m (b + 8#32) len.toNat⟩ := by
  have hlt := len.isLt
  have hsrc : srcAddrAt (setHeader m b dst src len) b = src := word16_write16 (by decide) src
  have hdst : dstAddrAt (setHeader m b dst src len) b = dst := by
    unfold dstAddrAt setHeader setSrcAddr
    rw [word16_write16_apart (apart_of_offsets (by decide) (by decide)).symm]
    exact word16_write16 (by decide) dst
  have hlen : dataLenAt (setHeader m b dst src len) b = len := by
    unfold dataLenAt setHeader setSrcAddr setDstAddr
    rw [word16_write16_apart (apart_of_offsets (by decide) (by decide)).symm,
      word16_write16_apart (apart_of_offsets (by decide) (by decide)).symm]
    exact word16_write16 (by decide) len
  have hhead : Apart b 8 (b + BitVec.ofNat 32 8) len.toNat := by
    have hzero : b + BitVec.ofNat 32 0 = b := by simp
    rw [← hzero]
    simpa using apart_of_offsets (a := b) (i := 0) (n := 8) (j := 8) (k := len.toNat)
      (by decide) (by omega)
  rw [msgAt, hdst, hsrc, hlen, msgDataAt, hlen]
  exact congrArg _ (read_congr fun x hx => setHeader_of_outside fun hb => hhead x hb hx)

theorem add_ofNat_succ (b : U32) (i : ℕ) :
    b + BitVec.ofNat 32 (i + 1) = b + BitVec.ofNat 32 i + BitVec.ofNat 32 1 := by
  rw [BitVec.ofNat_add, ← BitVec.add_assoc]

theorem copyBytes_of_outside {data buffer : U32} {left i : ℕ} {x : U32}
    (h : ¬ Within (buffer + BitVec.ofNat 32 i) left x) :
    copyBytes data buffer left i m x = m x := by
  induction left generalizing i m with
  | zero => rfl
  | succ left ih =>
      have hrest : ¬ Within (buffer + BitVec.ofNat 32 (i + 1)) left x := by
        rw [add_ofNat_succ]
        exact fun hx => h (within_of_offset (by omega) hx)
      have hbyte : ¬ Within (buffer + BitVec.ofNat 32 i) 1 x := mt (Within.mono (by omega)) h
      rw [copyBytes, ih hrest]
      exact write_of_not_within hbyte

/-- The loop copies the bytes that the data pointer showed at its beginning. -/
theorem copyBytes_apply {data buffer : U32} {left i j : ℕ} (hw : i + left ≤ 2 ^ 32)
    (hap : ∀ k < i + left, ¬ Within buffer (i + left) (data + BitVec.ofNat 32 k))
    (hi : i ≤ j) (hj : j < i + left) :
    copyBytes data buffer left i m (buffer + BitVec.ofNat 32 j) = m (data + BitVec.ofNat 32 j) := by
  induction left generalizing i m with
  | zero => omega
  | succ left ih =>
      have hsum : i + 1 + left = i + (left + 1) := by omega
      rw [copyBytes]
      by_cases hij : j = i
      · subst hij
        have hafter : ¬ Within (buffer + BitVec.ofNat 32 (j + 1)) left
            (buffer + BitVec.ofNat 32 j) := fun hx =>
          apart_of_offsets (a := buffer) (i := j) (n := 1) (Nat.le_refl _) (by omega) _
            (by simp [Within]) hx
        rw [copyBytes_of_outside hafter]
        simp [write]
      · rw [ih (by omega) (by rwa [hsum]) (by omega) (by omega)]
        refine write_of_not_within fun hx => hap j hj (within_of_offset ?_ hx)
        simp only [List.length_singleton]
        omega

/-- The whole loop of a send. -/
theorem read_copyBytes {data buffer : U32} {n : ℕ} (hw : n ≤ 2 ^ 32)
    (hap : ∀ k < n, ¬ Within buffer n (data + BitVec.ofNat 32 k)) :
    read (copyBytes data buffer n 0 m) buffer n = read m data n := by
  apply List.map_congr_left
  intro j hj
  rw [List.mem_range] at hj
  exact copyBytes_apply (by omega) (by simpa using hap) (Nat.zero_le j) (by omega)

end Framing
end EspAmp.Rpmsg
