import EspAmp.RpcWire

/-!
# The data of a call and of its response

A call puts its request bytes into a packet, the server hands a prefix of them to the
handler and puts a prefix of the handler's bytes into the response, and the client copies
a prefix of those. A packet in memory is read as a packet of the list model. Between the
three functions the memory is arbitrary, except that a delivered message is the one that
was sent.
-/
namespace EspAmp.RpcRoundTrip
open ByteMemory Virtqueue VirtqueueFifo VirtqueueOwnership RpcWire
open Rpmsg (Ept Msg msgAt srcAddrAt dstAddrAt dataLenAt msgDataAt setHeader setHeader_of_outside
  msgAt_setHeader)
open RpmsgChannel (Placed createMessage_cases)
open RpmsgLength (rpmsgGetMaxSize create_of_small maxSize_of_refines alloc_ok_iff refines_of_run)
open ReplyMachine (Run)
open Rpc (Client Pkt rpcOk errInvalidState errInvalidSize errNoMem statusPending pktSize)

/-- The packet at a data pointer. -/
def pktAt (m : Memory 32) (pkt : U32) : Pkt where
  msgId := word16 m (pkt + 0#32)
  cmdId := word16 m (pkt + 2#32)
  status := word16 m (pkt + 4#32)
  msgLen := word16 m (pkt + 6#32)
  msgData := read m (pkt + 8#32) (word16 m (pkt + 6#32)).toNat

section Packet
variable {m m' : Memory 32} {a b : U32}

theorem length_msgData (m : Memory 32) (a : U32) :
    (pktAt m a).msgData.length = (pktAt m a).msgLen.toNat := length_read

/-- A packet is determined by its own bytes. -/
theorem pktAt_congr {n : ℕ} (hn : 8 + (pktAt m a).msgLen.toNat ≤ n)
    (h : ∀ x, Within a n x → m' x = m x) : pktAt m' a = pktAt m a := by
  have hword (k : ℕ) (hk : k + 2 ≤ 8) :
      word16 m' (a + BitVec.ofNat 32 k) = word16 m (a + BitVec.ofNat 32 k) :=
    word16_congr fun x hx => h x (within_of_offset (by omega) hx)
  have hlen : word16 m' (a + 6#32) = word16 m (a + 6#32) := hword 6 (by decide)
  have hdata : read m' (a + 8#32) (word16 m (a + 6#32)).toNat =
      read m (a + 8#32) (word16 m (a + 6#32)).toNat :=
    read_congr fun x hx => h x (within_of_offset hn hx)
  rw [pktAt, pktAt, hlen, hdata, hword 0 (by decide), hword 2 (by decide), hword 4 (by decide)]

/-- A delivered message holds the packet that was sent in it. -/
theorem pktAt_of_delivered (hmsg : msgAt m' b = msgAt m b)
    (hlen : 8 + (pktAt m (b + 8#32)).msgLen.toNat ≤ (dataLenAt m b).toNat) :
    pktAt m' (b + 8#32) = pktAt m (b + 8#32) := by
  have hsame : dataLenAt m' b = dataLenAt m b := congrArg Msg.len hmsg
  have hpayload : msgDataAt m' b = msgDataAt m b := congrArg Msg.payload hmsg
  rw [msgDataAt, hsame, msgDataAt] at hpayload
  exact pktAt_congr hlen fun x hx => eq_of_read_eq hpayload hx

/-- The fields of a stored header, in front of any data. -/
theorem pktAt_header (msgId cmdId status msgLen : U16) :
    let m' := write m a (pktHeader msgId cmdId status msgLen)
    pktAt m' a = ⟨msgId, cmdId, status, msgLen, read m' (a + 8#32) msgLen.toNat⟩ := by
  intro m'
  have hsize : 8 ≤ 2 ^ 32 := by decide
  have hid : word16 m' (a + 0#32) = msgId :=
    word16_write [] (bytes16 cmdId ++ (bytes16 status ++ bytes16 msgLen)) msgId hsize
  have hcmd : word16 m' (a + 2#32) = cmdId :=
    word16_write (bytes16 msgId) (bytes16 status ++ bytes16 msgLen) cmdId hsize
  have hstatus : word16 m' (a + 4#32) = status :=
    word16_write (bytes16 msgId ++ bytes16 cmdId) (bytes16 msgLen) status hsize
  have hlen : word16 m' (a + 6#32) = msgLen :=
    word16_write (bytes16 msgId ++ (bytes16 cmdId ++ bytes16 status)) [] msgLen hsize
  rw [pktAt, hid, hcmd, hstatus, hlen]

/-- A stored packet: the header, then the data from another place. -/
theorem pktAt_store {msgId cmdId status msgLen : U16} {msgData : U32}
    (hdata : Apart msgData msgLen.toNat a 8) :
    let m₁ := write m a (pktHeader msgId cmdId status msgLen)
    let m₂ := write m₁ (a + 8#32) (read m₁ msgData msgLen.toNat)
    pktAt m₂ a = ⟨msgId, cmdId, status, msgLen, read m msgData msgLen.toNat⟩ ∧
      ∀ x, ¬ Within a (8 + msgLen.toNat) x → m₂ x = m x := by
  intro m₁ m₂
  have hlt := msgLen.isLt
  have hhead : pktAt m₁ a = _ := pktAt_header msgId cmdId status msgLen
  have hword (k : ℕ) (hk : k + 2 ≤ 8) :
      word16 m₂ (a + BitVec.ofNat 32 k) = word16 m₁ (a + BitVec.ofNat 32 k) := by
    refine word16_congr fun x hx => write_of_not_within fun hx' => ?_
    rw [length_read] at hx'
    exact apart_of_offsets hk (by omega) x hx hx'
  have hid : word16 m₁ (a + 0#32) = msgId := congrArg Pkt.msgId hhead
  have hcmd : word16 m₁ (a + 2#32) = cmdId := congrArg Pkt.cmdId hhead
  have hstatus : word16 m₁ (a + 4#32) = status := congrArg Pkt.status hhead
  have hlen : word16 m₁ (a + 6#32) = msgLen := congrArg Pkt.msgLen hhead
  have hcopy : read m₂ (a + 8#32) msgLen.toNat = read m msgData msgLen.toNat := by
    have hread := read_write (m := m₁) (a := a + 8#32) (read m₁ msgData msgLen.toNat)
      (by rw [length_read]; omega)
    rw [length_read] at hread
    exact hread.trans (read_congr fun x hx => write_of_not_within (hdata x hx))
  constructor
  · rw [pktAt, hword 6 (by decide), hlen, hcopy, hword 0 (by decide), hid, hword 2 (by decide),
      hcmd, hword 4 (by decide), hstatus]
  · intro x hx
    have hbehind : ¬ Within (a + 8#32) (read m₁ msgData msgLen.toNat).length x := by
      rw [length_read]
      exact fun h => hx (within_of_offset le_rfl h)
    exact (write_of_not_within hbehind).trans
      (write_of_not_within (mt (Within.mono (Nat.le_add_right 8 _)) hx))

end Packet

/-- A sent packet is found behind the RPMsg header, which says its way and its length, and
nothing else is stored to. -/
theorem sendPkt_spec (ring : Vring) (m : Machine) (ept : Ept) (dstAddr msgId cmdId status : U16)
    {msgLen : U16} {b msgData : U32} (hlen : 8 + msgLen.toNat < 2 ^ 16)
    (hdata : Apart msgData msgLen.toNat (b + 8#32) 8) :
    let m' := (sendPkt ring m ept dstAddr (b + 8#32) (pktHeader msgId cmdId status msgLen) msgData
      msgLen).2.mem
    pktAt m' (b + 8#32) = ⟨msgId, cmdId, status, msgLen, read m.mem msgData msgLen.toNat⟩ ∧
      srcAddrAt m' b = ept.addr ∧ dstAddrAt m' b = dstAddr ∧
      (dataLenAt m' b).toNat = 8 + msgLen.toNat ∧
      ∀ x, ¬ Within b (16 + msgLen.toNat) x → m' x = m.mem x := by
  intro m'
  obtain ⟨hpkt, hframe⟩ := pktAt_store (m := m.mem) (a := b + 8#32) hdata
  set m₁ := write m.mem (b + 8#32) (pktHeader msgId cmdId status msgLen)
  set m₂ := write m₁ (b + 8#32 + 8#32) (read m₁ msgData msgLen.toNat)
  have hm' : m' = setHeader m₂ b dstAddr ept.addr (pktSize + msgLen) := by
    rw [← BitVec.add_sub_cancel b 8#32]
    rfl
  have hmsg := msgAt_setHeader (m := m₂) (b := b) dstAddr ept.addr (pktSize + msgLen)
  have hsum : (pktSize + msgLen).toNat = 8 + msgLen.toNat := by
    rw [BitVec.toNat_add, show pktSize.toNat = 8 from rfl, Nat.mod_eq_of_lt hlen]
  rw [hm']
  refine ⟨?_, congrArg Msg.src hmsg, congrArg Msg.dst hmsg, ?_, ?_⟩
  · rw [← hpkt]
    refine pktAt_congr (n := 8 + msgLen.toNat) (by rw [hpkt]) fun x hx => ?_
    refine setHeader_of_outside fun hx' => ?_
    have hbase : b + BitVec.ofNat 32 0 = b := BitVec.add_zero b
    exact apart_of_offsets (a := b) (i := 0) (n := 8) (j := 8) le_rfl (by omega) x
      (by rwa [hbase]) hx
  · rw [← hsum]
    exact congrArg (fun msg => msg.len.toNat) hmsg
  · intro x hx
    rw [setHeader_of_outside (mt (Within.mono (by omega)) hx)]
    exact hframe x fun hx' => hx (within_of_offset (by omega) hx')

section Message
variable {u : Setup} {ring : Vring} {t : Fifos} {m : Machine}

/-- A created message lies in an item that has room for it, and only the header of the
item is stored to. -/
theorem createMessage_spec (hp : Placed u) (hr : Refines u ring t)
    (haddr : ∀ b ∈ t.free, b ∈ u.addrs) {nbytes : U32} (hn : nbytes.toNat + 8 < 2 ^ 32)
    (hbuf : (createMessage ring m nbytes).buf ≠ 0) :
    ∃ b ∈ u.addrs, (createMessage ring m nbytes).buf = b + 8#32 ∧
      nbytes.toNat + 8 ≤ u.itemSize.toNat ∧
      ∀ x, ¬ Within b 8 x → (createMessage ring m nbytes).m.mem x = m.mem x := by
  have hr' : Refines u (Rpmsg.Link.mk ring m.mem).ring t := hr
  rcases createMessage_cases hp hr' haddr hn 0 with ⟨hnull, -⟩ | ⟨b, bs, hf, hfit, hret, hmem, -⟩
  · exact absurd hnull hbuf
  · exact ⟨b, haddr b (hf ▸ List.mem_cons_self), hret, hfit, hmem⟩

/-- A packet in a created message. -/
structure Sent (u : Setup) (m m' : Memory 32) (b : U32) (src dst : U16) (pkt : Pkt) : Prop where
  mem_addrs : b ∈ u.addrs
  fits : 16 + pkt.msgLen.toNat ≤ u.itemSize.toNat
  packet : pktAt m' (b + 8#32) = pkt
  source : srcAddrAt m' b = src
  destination : dstAddrAt m' b = dst
  len : (dataLenAt m' b).toNat = 8 + pkt.msgLen.toNat
  frame : ∀ x, ¬ Within b u.itemSize.toNat x → m' x = m x

/-- Creation and sending together, for data that lies outside the items. -/
theorem sent_of_created (hp : Placed u) (hr : Refines u ring t)
    (haddr : ∀ b ∈ t.free, b ∈ u.addrs) (nbytes : U32) (hn : nbytes.toNat + 8 < 2 ^ 32)
    (hbuf : (createMessage ring m nbytes).buf ≠ 0) (ept : Ept)
    (dstAddr msgId cmdId status : U16) {msgLen : U16}
    (hfits : 16 + msgLen.toNat ≤ u.itemSize.toNat) {msgData : U32}
    (hdata : ∀ b ∈ u.addrs, Apart msgData msgLen.toNat b u.itemSize.toNat) :
    let r := createMessage ring m nbytes
    ∃ b, r.buf = b + 8#32 ∧
      Sent u m.mem (sendPkt r.ring r.m ept dstAddr r.buf (pktHeader msgId cmdId status msgLen)
        msgData msgLen).2.mem b ept.addr dstAddr
        ⟨msgId, cmdId, status, msgLen, read m.mem msgData msgLen.toNat⟩ := by
  have hitem := u.itemSize.isLt
  obtain ⟨b, hb, hret, -, hmem⟩ := createMessage_spec hp hr haddr hn hbuf
  have hapart := hdata b hb
  have hhead : Apart msgData msgLen.toNat (b + 8#32) 8 :=
    fun x hx hx' => hapart x hx (within_of_offset (by omega) hx')
  have hread : read (createMessage ring m nbytes).m.mem msgData msgLen.toNat =
      read m.mem msgData msgLen.toNat :=
    read_congr fun x hx => hmem x (mt (Within.mono (by omega)) (hapart x hx))
  obtain ⟨hpkt, hsrc, hdst, hlen, hframe⟩ := sendPkt_spec (createMessage ring m nbytes).ring
    (createMessage ring m nbytes).m ept dstAddr msgId cmdId status (by omega) hhead
  rw [hread] at hpkt
  refine ⟨b, hret, ?_⟩
  rw [hret]
  refine ⟨hb, hfits, hpkt, hsrc, hdst, hlen, fun x hx => ?_⟩
  rw [hframe x (mt (Within.mono hfits) hx), hmem x (mt (Within.mono (by omega)) hx)]

end Message

section Call
variable {κ : Type} [DecidableEq κ] {client : Client κ} {ept : Ept} {serverId : U16}
  {cmds : κ → CmdBlock} {p : κ} {u : Setup} {ring : Vring} {t : Fifos} {m : Machine}

/-- An accepted call: the client runs, the length does not wrap and a message was created. -/
theorem executeCmd_of_ok (hok : (executeCmd client ept serverId cmds (some p) ring m).ret = rpcOk) :
    let c := cmds p
    let r := createMessage ring m ((c.reqLen + pktSize).setWidth 32)
    let s := sendPkt r.ring r.m ept serverId r.buf
      (pktHeader (client.pendingId + 1) c.cmdId statusPending c.reqLen) c.reqData c.reqLen
    client.running = true ∧ ¬ 0xffff - pktSize < c.reqLen ∧ r.buf ≠ 0 ∧
      executeCmd client ept serverId cmds (some p) ring m =
        ⟨rpcOk, client.bump.track p, Function.update cmds p { c with status := statusPending }, s.1,
          s.2, some r.buf⟩ := by
  intro c r s
  simp only [executeCmd] at hok ⊢
  split_ifs at hok ⊢ with hstopped hbig hnull
  · exact absurd hok (show errInvalidState ≠ rpcOk by decide)
  · exact absurd hok (show errInvalidSize ≠ rpcOk by decide)
  · exact absurd hok (show errInvalidSize ≠ rpcOk by decide)
  · exact absurd hok (show errNoMem ≠ rpcOk by decide)
  · exact ⟨Bool.eq_true_of_not_eq_false hstopped, hbig, hnull, rfl⟩

/-- The request of an accepted call. -/
def request (client : Client κ) (c : CmdBlock) (mem : Memory 32) : Pkt where
  msgId := client.pendingId + 1
  cmdId := c.cmdId
  status := statusPending
  msgLen := c.reqLen
  msgData := read mem c.reqData c.reqLen.toNat

theorem executeCmd_spec (hp : Placed u) (hr : Refines u ring t)
    (haddr : ∀ b ∈ t.free, b ∈ u.addrs)
    (hdata : ∀ b ∈ u.addrs, Apart (cmds p).reqData (cmds p).reqLen.toNat b u.itemSize.toNat)
    (hok : (executeCmd client ept serverId cmds (some p) ring m).ret = rpcOk) :
    let r := executeCmd client ept serverId cmds (some p) ring m
    r.client = ⟨true, client.pendingId + 1, some p⟩ ∧
      r.cmds = Function.update cmds p { cmds p with status := statusPending } ∧
      ∃ b, r.sent = some (b + 8#32) ∧
        Sent u m.mem r.m.mem b ept.addr serverId (request client (cmds p) m.mem) := by
  obtain ⟨hrunning, hsmall, hbuf, heq⟩ := executeCmd_of_ok hok
  have hle : (cmds p).reqLen.toNat ≤ 0xffff - 8 := BitVec.not_lt.mp hsmall
  have hsum : (((cmds p).reqLen + pktSize).setWidth 32).toNat = (cmds p).reqLen.toNat + 8 := by
    rw [BitVec.toNat_setWidth, BitVec.toNat_add, show pktSize.toNat = 8 from rfl]
    omega
  obtain ⟨-, -, -, hfits, -⟩ := createMessage_spec hp hr haddr (by omega) hbuf
  rw [hsum] at hfits
  obtain ⟨b, hret, hsent⟩ := sent_of_created hp hr haddr _ (by omega) hbuf ept serverId
    (client.pendingId + 1) (cmds p).cmdId statusPending
    (show 16 + (cmds p).reqLen.toNat ≤ _ by omega) hdata
  rw [heq]
  refine ⟨?_, rfl, b, congrArg some hret, hsent⟩
  rw [← hrunning]
  rfl

end Call

section Answer
variable {σ : Type} {server : Server σ} {app : σ} {handler : Handler σ}
  {f : List U8 → U16 × List U8} {u : Setup} {ring : Vring} {t : Fifos} {mem : Memory 32}
  {data : U32} {srcAddr : U16}

/-- A handler that computes a status and response bytes from the request bytes it is
given, no more of them than the response buffer holds. -/
structure Computes (handler : Handler σ) (respBufLen : U16) (f : List U8 → U16 × List U8) :
    Prop where
  length_le : ∀ req, (f req).2.length ≤ respBufLen.toNat
  returns : ∀ app mem cmd, ∃ app', handler app mem cmd =
    (app', write mem cmd.respData (f (read mem cmd.reqData cmd.reqLen.toNat)).2,
      { cmd with
        status := (f (read mem cmd.reqData cmd.reqLen.toNat)).1
        respLen := BitVec.ofNat 16 (f (read mem cmd.reqData cmd.reqLen.toNat)).2.length })

/-- The response to a request, cut off behind the two headers. -/
def response (itemSize : U16) (req : Pkt) (resp : U16 × List U8) : Pkt where
  msgId := req.msgId
  cmdId := req.cmdId
  status := resp.1
  msgLen := BitVec.ofNat 16 (min (itemSize.toNat - 16) resp.2.length)
  msgData := resp.2.take (itemSize.toNat - 16)

/-- A handler is given the request bytes that fit in the request buffer, and its answer is
in the response buffer. -/
theorem execCmd_spec (app : σ)
    (hfound : findHandler (pktAt mem data).cmdId server.srv = some handler)
    (hf : Computes handler server.respBufLen f) :
    let resp := f ((pktAt mem data).msgData.take server.reqBufLen.toNat)
    let r := execCmd server app (Machine.of mem) data
    r.1.cmd.status = resp.1 ∧ r.1.cmd.respLen = BitVec.ofNat 16 resp.2.length ∧
      r.1.cmd.respData = server.respBuf ∧ r.2 = ((pktAt mem data).msgId, (pktAt mem data).cmdId) ∧
      read r.1.m.mem server.respBuf resp.2.length = resp.2 ∧
      ∀ x, ¬ Within server.reqBuf server.reqBufLen.toNat x →
        ¬ Within server.respBuf server.respBufLen.toNat x → r.1.m.mem x = mem x := by
  intro resp r
  set n := requestLen server (word16 mem (data + 6#32)) with hn
  set copied := write mem server.reqBuf (read mem (data + 8#32) n.toNat) with hcopied
  have hlt := n.isLt
  have hbytes : read mem (data + 8#32) n.toNat =
      (pktAt mem data).msgData.take server.reqBufLen.toNat := by
    rw [pktAt, take_read, ← toNat_cutTo]
    rfl
  have hread : read copied server.reqBuf n.toNat = read mem (data + 8#32) n.toNat := by
    have h := read_write (m := mem) (a := server.reqBuf) (read mem (data + 8#32) n.toNat)
      (by rw [length_read]; omega)
    rwa [length_read] at h
  have hresp : f (read copied server.reqBuf n.toNat) = resp := by
    rw [hread, hbytes]
  set cmd := requestCmd server (word16 mem (data + 2#32)) n
  obtain ⟨app', hret⟩ : ∃ app', handler app copied cmd = (app', write copied server.respBuf resp.2,
      { cmd with status := resp.1, respLen := BitVec.ofNat 16 resp.2.length }) := by
    rw [← hresp]
    exact hf.returns app copied cmd
  obtain ⟨hcmd, hmem⟩ : r.1.cmd = (handler app copied cmd).2.2 ∧
      r.1.m.mem = (handler app copied cmd).2.1 := runHandler_of_found hfound
  rw [hret] at hcmd hmem
  have hle : resp.2.length ≤ server.respBufLen.toNat := hf.length_le _
  have hresplt := server.respBufLen.isLt
  refine ⟨by rw [hcmd], by rw [hcmd], by rw [hcmd]; rfl, rfl, ?_, ?_⟩
  · rw [hmem]
    exact read_write resp.2 (by omega)
  · intro x hreq hresp'
    have hnle : (read mem (data + 8#32) n.toNat).length ≤ server.reqBufLen.toNat := by
      rw [length_read, hn, requestLen, toNat_cutTo]
      exact min_le_left ..
    rw [hmem]
    exact (write_of_not_within (mt (Within.mono hle) hresp')).trans
      (write_of_not_within (mt (Within.mono hnle) hreq))

/-- A response of some bytes is put into an item, cut off behind the two headers. -/
theorem sendResponse_spec (hp : Placed u) (hr : Refines u ring t)
    (haddr : ∀ b ∈ t.free, b ∈ u.addrs) (hfree : t.free ≠ []) (hroom : 16 ≤ u.itemSize.toNat)
    (server : Server σ) (msgId cmdId clientAddr : U16) {ran : Ran σ} {bytes : List U8}
    (hne : bytes ≠ []) (hlt : bytes.length < 2 ^ 16)
    (hlen : ran.cmd.respLen = BitVec.ofNat 16 bytes.length)
    (hread : read ran.m.mem ran.cmd.respData bytes.length = bytes)
    (hbuf : ∀ b ∈ u.addrs, Apart ran.cmd.respData bytes.length b u.itemSize.toNat) :
    let s := sendResponse server ran msgId cmdId ring clientAddr
    ∃ b, s.sent = some (b + 8#32) ∧
      Sent u ran.m.mem s.m.mem b server.rpmsgEpt.addr clientAddr
        ⟨msgId, cmdId, ran.cmd.status, BitVec.ofNat 16 (min (u.itemSize.toNat - 16) bytes.length),
          bytes.take (u.itemSize.toNat - 16)⟩ := by
  intro s
  have hitem := u.itemSize.isLt
  have hpos := List.length_pos_of_ne_nil hne
  have hrespLen : ran.cmd.respLen.toNat = bytes.length := by
    rw [hlen, BitVec.toNat_ofNat, Nat.mod_eq_of_lt hlt]
  have hask : ran.cmd.respLen ≠ 0 := fun h0 => by
    rw [h0] at hrespLen
    exact hpos.ne hrespLen
  have hmax : (rpmsgGetMaxSize ring.master).toNat = u.itemSize.toNat - 8 := by
    rw [maxSize_of_refines hr]
    omega
  have hcreated := (createMessage_max_iff hp hr haddr ran.m).mpr ⟨by omega, hfree⟩
  set msgLen := responseLen (rpmsgGetMaxSize ring.master) ran.cmd.respLen with hmsgLen
  have htoNat : msgLen.toNat = min (u.itemSize.toNat - 16) bytes.length := by
    rw [hmsgLen, responseLen, toNat_cutTo, BitVec.toNat_sub, hmax, hrespLen,
      show pktSize.toNat = 8 from rfl]
    congr 1
    omega
  have hs : s = _ := sendResponse_of_created server msgId cmdId clientAddr rfl hask rfl hcreated
  obtain ⟨b, hret, hsent⟩ := sent_of_created hp hr haddr ((rpmsgGetMaxSize ring.master).setWidth 32)
    (by rw [BitVec.toNat_setWidth, hmax]; omega) hcreated server.rpmsgEpt clientAddr msgId cmdId
    ran.cmd.status (show 16 + msgLen.toNat ≤ _ by omega)
    (fun b hb x hx => hbuf b hb x (hx.mono (by omega)))
  have hcut : read ran.m.mem ran.cmd.respData msgLen.toNat =
      bytes.take (u.itemSize.toNat - 16) := by
    conv_rhs => rw [← hread]
    rw [take_read, htoNat]
  rw [hcut] at hsent
  rw [hs, ← htoNat, BitVec.ofNat_toNat, BitVec.setWidth_eq]
  exact ⟨b, congrArg some hret, hsent⟩

/-- A running server answers a request that its handler wants answered. -/
theorem serve_spec (app : σ) (mem : Memory 32) (data : U32) (srcAddr : U16) (hp : Placed u)
    (hr : Refines u ring t) (haddr : ∀ b ∈ t.free, b ∈ u.addrs) (hfree : t.free ≠ [])
    (hroom : 16 ≤ u.itemSize.toNat) (hrunning : server.running = true) (hdata : data ≠ 0)
    (hfound : findHandler (pktAt mem data).cmdId server.srv = some handler)
    (hf : Computes handler server.respBufLen f)
    (hbuf : ∀ b ∈ u.addrs, Apart server.respBuf server.respBufLen.toNat b u.itemSize.toNat)
    (hask : (f ((pktAt mem data).msgData.take server.reqBufLen.toNat)).2 ≠ []) :
    let resp := f ((pktAt mem data).msgData.take server.reqBufLen.toNat)
    let s := serve server app ring (Machine.of mem) data srcAddr
    ∃ b m, s.sent = some (b + 8#32) ∧
      Sent u m s.m.mem b server.rpmsgEpt.addr srcAddr
        (response u.itemSize (pktAt mem data) resp) ∧
      ∀ x, ¬ Within server.reqBuf server.reqBufLen.toNat x →
        ¬ Within server.respBuf server.respBufLen.toNat x → m x = mem x := by
  intro resp s
  obtain ⟨hstatus, hrespLen, hrespData, hids, hread, hframe⟩ := execCmd_spec app hfound hf
  set ran := execCmd server app (Machine.of mem) data
  have hle : resp.2.length ≤ server.respBufLen.toNat := hf.length_le _
  have hlt := server.respBufLen.isLt
  have hs : s = sendResponse server ran.1 ran.2.1 ran.2.2 ring srcAddr :=
    serve_of_running hrunning hdata
  obtain ⟨b, hsent, hpkt⟩ := sendResponse_spec hp hr haddr hfree hroom server ran.2.1 ran.2.2
    srcAddr hask (hle.trans_lt hlt) hrespLen (by rwa [hrespData])
    (by rw [hrespData]; exact fun b hb x hx => hbuf b hb x (hx.mono hle))
  rw [hids, hstatus] at hpkt
  refine ⟨b, ran.1.m.mem, ?_, ?_, hframe⟩
  · rw [hs]
    exact hsent
  · rw [hs, hids]
    exact hpkt

end Answer

section Completion
variable {κ : Type} [DecidableEq κ] {client : Client κ} {cmds : κ → CmdBlock} {p : κ}
  {mem : Memory 32} {data : U32}

/-- The first bytes of the response data of a command are written, if it has any. -/
def storeResponse (mem : Memory 32) (c : CmdBlock) (bytes : List U8) : Memory 32 :=
  if c.respData = 0 then mem else write mem c.respData bytes

/-- A client copies the prefix of a response that its command has room for. -/
theorem copyResponse_mem (c : CmdBlock) (m : Machine) (data : U32) :
    (copyResponse c m data).mem =
      storeResponse m.mem c ((pktAt m.mem data).msgData.take c.respLen.toNat) := by
  have htake : (pktAt m.mem data).msgData.take c.respLen.toNat =
      read m.mem (data + 8#32) (cpyLen c.respLen (word16 m.mem (data + 6#32))).toNat := by
    rw [pktAt, take_read, cpyLen, toNat_cutTo]
  rw [htake, storeResponse]
  by_cases hnull : c.respData = 0
  · rw [if_pos hnull]
    have hskip : copyResponse c m data = (m.field data 6).2 := if_neg fun h => h.2 hnull
    rw [hskip]
    rfl
  · rw [if_neg hnull]
    by_cases hlen : 0 < word16 m.mem (data + 6#32)
    · have hcopy : copyResponse c m data = (m.field data 6).2.copyMsgData .respData c.respData data
          (cpyLen c.respLen (word16 m.mem (data + 6#32))).toNat := if_pos ⟨hlen, hnull⟩
      rw [hcopy]
      rfl
    · have hskip : copyResponse c m data = (m.field data 6).2 := if_neg fun h => hlen h.1
      have hzero : (cpyLen c.respLen (word16 m.mem (data + 6#32))).toNat = 0 := by
        have hempty : (word16 m.mem (data + 6#32)).toNat = 0 := Nat.eq_zero_of_not_pos hlen
        rw [cpyLen, toNat_cutTo, hempty, Nat.min_zero]
      rw [hskip, hzero]
      rfl

theorem clientCb_spec (cmds : κ → CmdBlock) (hrunning : client.running = true) (hdata : data ≠ 0)
    (hp : client.pendingCmd = some p) (hid : (pktAt mem data).msgId = client.pendingId) :
    let h := clientCb client cmds (Machine.of mem) data
    h.ret = rpcOk ∧
      h.cmds = Function.update cmds p { cmds p with status := (pktAt mem data).status } ∧
      h.m.mem = storeResponse mem (cmds p) ((pktAt mem data).msgData.take (cmds p).respLen.toNat) ∧
      h.called = if (cmds p).cb.isSome then [(p, h.m.mem)] else [] := by
  intro h
  have heq : h = _ := clientCb_of_pending (m := Machine.of mem) hrunning hdata hp hid
  rw [heq]
  exact ⟨rfl, rfl, copyResponse_mem (cmds p) _ data, rfl⟩

/-- How many bytes of a response a client gets. -/
def copiedLen (resp : List U8) (itemSize respLen : U16) : ℕ :=
  min resp.length (min (itemSize.toNat - 16) respLen.toNat)

theorem take_copiedLen (resp : List U8) (itemSize respLen : U16) :
    (resp.take (itemSize.toNat - 16)).take respLen.toNat =
      resp.take (copiedLen resp itemSize respLen) := by
  rw [List.take_take, List.take_eq_take_iff, copiedLen]
  omega

theorem length_take_copiedLen (resp : List U8) (itemSize respLen : U16) :
    (resp.take (copiedLen resp itemSize respLen)).length = copiedLen resp itemSize respLen := by
  rw [List.length_take]
  exact min_eq_left (min_le_left ..)

/-- A completed command: it has the status, the bytes are in its response data, nothing
else has changed, and the callback was called once, after the copy. -/
structure Completed (cmds : κ → CmdBlock) (p : κ) (resp : U16 × List U8) (itemSize : U16)
    (mem : Memory 32) (h : Handled κ) : Prop where
  status : h.cmds = Function.update cmds p { cmds p with status := resp.1 }
  copied : (cmds p).respData ≠ 0 →
    read h.m.mem (cmds p).respData (copiedLen resp.2 itemSize (cmds p).respLen) =
      resp.2.take (copiedLen resp.2 itemSize (cmds p).respLen)
  kept : ∀ x, ((cmds p).respData ≠ 0 →
      ¬ Within (cmds p).respData (copiedLen resp.2 itemSize (cmds p).respLen) x) →
    h.m.mem x = mem x
  called : h.called = if (cmds p).cb.isSome then [(p, h.m.mem)] else []

/-- A response to the pending command completes it. -/
theorem clientCb_completed {itemSize status : U16} {req : Pkt} {resp : U16 × List U8}
    (hpkt : pktAt mem data = response itemSize req resp) (hid : req.msgId = client.pendingId)
    (hrunning : client.running = true) (hdata : data ≠ 0) (hp : client.pendingCmd = some p) :
    Completed cmds p resp itemSize mem
      (clientCb client (Function.update cmds p { cmds p with status := status }) (Machine.of mem)
        data) := by
  obtain ⟨-, hstatus, hmem, hcalled⟩ := clientCb_spec
    (Function.update cmds p { cmds p with status := status }) hrunning hdata hp
    (by rw [hpkt]; exact hid)
  rw [Function.update_self, hpkt, response, take_copiedLen] at hmem
  have hlen := length_take_copiedLen resp.2 itemSize (cmds p).respLen
  have hlt := (cmds p).respLen.isLt
  have hle : copiedLen resp.2 itemSize (cmds p).respLen ≤ (cmds p).respLen.toNat :=
    (min_le_right ..).trans (min_le_right ..)
  refine ⟨?_, ?_, ?_, ?_⟩
  · rw [hstatus, Function.update_idem, Function.update_self, hpkt]
    rfl
  · intro hnull
    have hstore : storeResponse mem { cmds p with status := status } =
        write mem (cmds p).respData := funext fun _ => if_neg hnull
    rw [hmem, hstore]
    have hread := read_write (m := mem) (a := (cmds p).respData)
      (resp.2.take (copiedLen resp.2 itemSize (cmds p).respLen)) (by omega)
    rwa [hlen] at hread
  · intro x hx
    rw [hmem, storeResponse]
    split_ifs with hnull
    · rfl
    · exact write_of_not_within (by rw [hlen]; exact hx hnull)
  · rw [hcalled, Function.update_self]

end Completion

/-- For every accepted call and every handler that wants its answer sent, with a free item
for it: the request is sent to the server and the response to the client, each in an item
of its own queue, and the response completes the command with the status of the handler
and a prefix of its bytes. Nothing is stored outside of the two items, the two buffers of
the server and these bytes of the response data. -/
theorem response_round_trip {σ κ : Type} [DecidableEq κ] {u₁ u₂ : Setup} (hp₁ : Placed u₁)
    (hp₂ : Placed u₂) (hsize : u₁.itemSize = u₂.itemSize) {calls₁ calls₂ : List Call}
    {o₁ o₂ : Owned} (hrun₁ : Run OwnStep (start u₁) calls₁ o₁)
    (hrun₂ : Run OwnStep (start u₂) calls₂ o₂) (client : Client κ) (ept : Ept) (serverId : U16)
    (cmds : κ → CmdBlock) (p : κ) (mem : Memory 32)
    (hreqData : ∀ b ∈ u₁.addrs,
      Apart (cmds p).reqData (cmds p).reqLen.toNat b u₁.itemSize.toNat)
    (hok : (executeCmd client ept serverId cmds (some p) o₁.ring (Machine.of mem)).ret = rpcOk)
    (server : Server σ) (app : σ) (hrunning : server.running = true)
    (hrespBuf : ∀ b ∈ u₂.addrs,
      Apart server.respBuf server.respBufLen.toNat b u₂.itemSize.toNat)
    {handler : Handler σ} {f : List U8 → U16 × List U8}
    (hfound : findHandler (cmds p).cmdId server.srv = some handler)
    (hf : Computes handler server.respBufLen f)
    (hfree : (o₂.ring.reply (.alloc 0)).ret = espOk)
    (hask : (f ((read mem (cmds p).reqData (cmds p).reqLen.toNat).take
      server.reqBufLen.toNat)).2 ≠ []) :
    let r := executeCmd client ept serverId cmds (some p) o₁.ring (Machine.of mem)
    let resp := f ((read mem (cmds p).reqData (cmds p).reqLen.toNat).take server.reqBufLen.toNat)
    ∃ b₁ ∈ u₁.addrs, r.sent = some (b₁ + 8#32) ∧ dstAddrAt r.m.mem b₁ = serverId ∧
      (∀ x, ¬ Within b₁ u₁.itemSize.toNat x → r.m.mem x = mem x) ∧
      ∀ mem₁, msgAt mem₁ b₁ = msgAt r.m.mem b₁ →
        let s := serve server app o₂.ring (Machine.of mem₁) (b₁ + 8#32) (srcAddrAt mem₁ b₁)
        ∃ b₂ ∈ u₂.addrs, s.sent = some (b₂ + 8#32) ∧ dstAddrAt s.m.mem b₂ = ept.addr ∧
          (∀ x, ¬ Within b₂ u₂.itemSize.toNat x →
            ¬ Within server.reqBuf server.reqBufLen.toNat x →
            ¬ Within server.respBuf server.respBufLen.toNat x → s.m.mem x = mem₁ x) ∧
          ∀ mem₂, msgAt mem₂ b₂ = msgAt s.m.mem b₂ →
            Completed cmds p resp u₂.itemSize mem₂
              (clientCb r.client r.cmds (Machine.of mem₂) (b₂ + 8#32)) := by
  intro r resp
  obtain ⟨t₁, hr₁, haddr₁⟩ := refines_of_run hrun₁
  obtain ⟨t₂, hr₂, haddr₂⟩ := refines_of_run hrun₂
  obtain ⟨hclient, hcmds, b₁, hsent₁, hreq⟩ := executeCmd_spec hp₁ hr₁ haddr₁ hreqData hok
  have hroom : 16 ≤ u₂.itemSize.toNat := by
    have hfits := hreq.fits
    rw [hsize] at hfits
    omega
  refine ⟨b₁, hreq.mem_addrs, hsent₁, hreq.destination, hreq.frame, ?_⟩
  intro mem₁ hmsg₁ s
  have hpkt₁ : pktAt mem₁ (b₁ + 8#32) = request client (cmds p) mem :=
    (pktAt_of_delivered hmsg₁ (by rw [hreq.packet, hreq.len])).trans hreq.packet
  have hsrc : srcAddrAt mem₁ b₁ = ept.addr := (congrArg Msg.src hmsg₁).trans hreq.source
  obtain ⟨b₂, m, hsent₂, hresp, hframe⟩ := serve_spec app mem₁ (b₁ + 8#32)
    (srcAddrAt mem₁ b₁) hp₂ hr₂ haddr₂ ((alloc_ok_iff hp₂ hr₂).mp hfree) hroom hrunning
    (hp₁.data_ne_zero hreq.mem_addrs (by rw [hsize]; omega)) (by rw [hpkt₁]; exact hfound) hf
    hrespBuf (by rw [hpkt₁]; exact hask)
  rw [hpkt₁] at hresp
  refine ⟨b₂, hresp.mem_addrs, hsent₂, hresp.destination.trans hsrc, ?_, fun mem₂ hmsg₂ => ?_⟩
  · intro x hitem hreqBuf hrespBuf'
    rw [hresp.frame x hitem, hframe x hreqBuf hrespBuf']
  · have hpkt₂ := (pktAt_of_delivered hmsg₂ (by rw [hresp.packet, hresp.len])).trans hresp.packet
    rw [hclient, hcmds]
    exact clientCb_completed hpkt₂ rfl rfl (hp₂.data_ne_zero hresp.mem_addrs (by omega)) rfl

/-- Two buffers of 24 bytes at an address. -/
def twoItems (buffer : U32) : Setup := { twoBuffers with itemSize := 24, buffer := buffer }

theorem twoItems_placed {buffer : U32} (hpos : 0 < buffer.toNat)
    (hlt : buffer.toNat + 48 < 2 ^ 32) : Placed (twoItems buffer) :=
  ⟨twoBuffers_quietNotify, show (24 : U16) ≠ 0 by decide, hpos, hlt⟩

/-- Bytes in front of the items are apart from them. -/
theorem apart_items {u : Setup} (hp : Placed u) {a : U32} {n : ℕ}
    (h : a.toNat + n ≤ u.buffer.toNat) : ∀ b ∈ u.addrs, Apart a n b u.itemSize.toNat := by
  intro b hb x hx hx'
  obtain ⟨hlo, hhi⟩ := hp.itemAddr_bounds hb
  have harea := hp.area_lt
  rw [within_iff (by omega)] at hx hx'
  omega

/-- The request twice, and a status. -/
def twice (req : List U8) : U16 × List U8 := (7, (req ++ req).take 64)

def twiceHandler : Handler Unit := fun app mem cmd =>
  let resp := twice (read mem cmd.reqData cmd.reqLen.toNat)
  (app, write mem cmd.respData resp.2,
    { cmd with status := resp.1, respLen := BitVec.ofNat 16 resp.2.length })

theorem twiceHandler_computes : Computes twiceHandler 64 twice :=
  ⟨fun _ => List.length_take_le .., fun app _ _ => ⟨app, rfl⟩⟩

theorem twiceServer_respBufLen_ne : (64 : U16) ≠ 0 := by decide

/-- A server that is given four request bytes at most. -/
def twiceServer : Server Unit where
  running := true
  reqBufLen := 4
  reqBufLen_ne := by decide
  respBufLen := 64
  respBufLen_ne := twiceServer_respBufLen_ne
  reqBuf := 0x40860000
  respBuf := 0x40860100
  srv := [⟨3, some twiceHandler⟩]
  rpmsgEpt := ⟨0x40860200, 5, none, 0⟩

/-- Five request bytes, and room for six response bytes. -/
def fiveBytes : CmdBlock := ⟨3, 0, 5, 6, 0x40860300, 0x40860400, some 0x42000000, 0⟩

/-- Four of the five request bytes arrive, and six of the eight response bytes. -/
theorem fiveBytes_round_trip : ∃ mem₂ data,
    Completed (fun _ : Unit => fiveBytes) () (7, [1, 2, 3, 4, 1, 2, 3, 4]) 24 mem₂
      (clientCb ⟨true, 1, some ()⟩ (fun _ => { fiveBytes with status := statusPending })
        (Machine.of mem₂) data) := by
  have hp₁ : Placed (twoItems 0x40870000) := twoItems_placed (by decide) (by decide)
  have hp₂ : Placed (twoItems 0x40880000) := twoItems_placed (by decide) (by decide)
  obtain ⟨b₁, -, -, -, -, h₁⟩ := response_round_trip hp₁ hp₂ rfl (.done _) (.done _)
    (Client.init : Client Unit) ⟨0x40860500, 6, none, 0⟩ 5 (fun _ => fiveBytes) ()
    (fun x => (x - 0x40860300 + 1).setWidth 8) (apart_items hp₁ (by decide)) (by decide +kernel)
    twiceServer () rfl (apart_items hp₂ (by decide)) rfl twiceHandler_computes
    (by decide +kernel) (by decide +kernel)
  obtain ⟨b₂, -, -, -, -, h₂⟩ := h₁ _ rfl
  exact ⟨_, _, h₂ _ rfl⟩

end EspAmp.RpcRoundTrip
