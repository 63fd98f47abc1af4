import EspAmp.RpcRoundTrip

/-!
# Commands in memory and commands as lists

The client on byte memory does on the bytes that its commands point to what the client on
packets does on their lists, as long as the response data of the pending command overlaps
no other data of a command and no data lies in the items of the transmit queue. A response
in memory is the packet that the server makes of its answer.
-/
namespace EspAmp.RpcRefinement
open ByteMemory Virtqueue VirtqueueFifo RpcWire RpcRoundTrip
open Rpmsg (Ept)
open RpmsgChannel (Placed createMessage_cases)
open RpmsgLength (rpmsgGetMaxSize maxSize_of_refines)
open Rpc (Client Cmd Pkt copyOver pktSize)

/-- A command with the bytes that its pointers show. -/
def cmdAt (m : Memory 32) (c : CmdBlock) : Cmd where
  cmdId := c.cmdId
  status := c.status
  reqLen := c.reqLen
  respLen := c.respLen
  reqData := read m c.reqData c.reqLen.toNat
  respData := if c.respData = 0 then none else some (read m c.respData c.respLen.toNat)
  cb := c.cb
  cbArg := c.cbArg

section Commands
variable {κ : Type} {m m' : Memory 32} {c : CmdBlock} {cmds : κ → CmdBlock} {p : κ}

/-- A command is determined by the bytes of its request and response data. -/
theorem cmdAt_congr (hreq : ∀ x, Within c.reqData c.reqLen.toNat x → m' x = m x)
    (hresp : ∀ x, c.respData ≠ 0 → Within c.respData c.respLen.toNat x → m' x = m x) :
    cmdAt m' c = cmdAt m c := by
  have hreqData : read m' c.reqData c.reqLen.toNat = read m c.reqData c.reqLen.toNat :=
    read_congr hreq
  by_cases hnull : c.respData = 0
  · rw [cmdAt, cmdAt, hreqData, if_pos hnull, if_pos hnull]
  · have hrespData : read m' c.respData c.respLen.toNat = read m c.respData c.respLen.toNat :=
      read_congr fun x hx => hresp x hnull hx
    rw [cmdAt, cmdAt, hreqData, hrespData]

/-- The response data of a command overlaps no other data of the commands. -/
structure Separate (cmds : κ → CmdBlock) (p : κ) : Prop where
  req : ∀ q, Apart (cmds p).respData (cmds p).respLen.toNat (cmds q).reqData
    (cmds q).reqLen.toNat
  resp : ∀ q, q ≠ p → Apart (cmds p).respData (cmds p).respLen.toNat (cmds q).respData
    (cmds q).respLen.toNat

theorem storeResponse_of_outside {bytes : List U8} {x : U32}
    (h : ¬ Within c.respData bytes.length x) : storeResponse m c bytes x = m x := by
  rw [storeResponse]
  split_ifs with hnull
  · rfl
  · exact write_of_not_within h

/-- The bytes of a response, stored in front of what the response data showed before. -/
theorem read_storeResponse {bytes : List U8} (hnull : c.respData ≠ 0)
    (hlen : bytes.length ≤ c.respLen.toNat) :
    read (storeResponse m c bytes) c.respData c.respLen.toNat =
      bytes ++ (read m c.respData c.respLen.toNat).drop bytes.length := by
  have hlt := c.respLen.isLt
  rw [storeResponse, if_neg hnull, read_write_append hlen (by omega)]

/-- Storing the response bytes that fit completes the command. -/
theorem cmdAt_complete {pkt : Pkt} (hpkt : pkt.msgData.length = pkt.msgLen.toNat)
    (hreq : Apart c.respData c.respLen.toNat c.reqData c.reqLen.toNat) :
    cmdAt (storeResponse m c (pkt.msgData.take c.respLen.toNat)) { c with status := pkt.status } =
      (cmdAt m c).complete pkt := by
  have hlen : (pkt.msgData.take c.respLen.toNat).length = (cutTo c.respLen pkt.msgLen).toNat := by
    rw [List.length_take, hpkt, toNat_cutTo]
  have htake : pkt.msgData.take c.respLen.toNat =
      pkt.msgData.take (cutTo c.respLen pkt.msgLen).toNat := by
    rw [toNat_cutTo, ← hpkt, ← List.take_eq_take_min]
  have hle : (pkt.msgData.take c.respLen.toNat).length ≤ c.respLen.toNat := List.length_take_le ..
  have hreqData : read (storeResponse m c (pkt.msgData.take c.respLen.toNat)) c.reqData
      c.reqLen.toNat = read m c.reqData c.reqLen.toNat := by
    refine read_congr fun x hx => storeResponse_of_outside fun hx' => ?_
    exact hreq x (hx'.mono hle) hx
  have hrespData : (if c.respData = 0 then none else some (read (storeResponse m c
      (pkt.msgData.take c.respLen.toNat)) c.respData c.respLen.toNat)) =
      ((cmdAt m c).complete pkt).respData := by
    by_cases hnull : c.respData = 0
    · simp [cmdAt, Cmd.complete, hnull]
    · rw [if_neg hnull, read_storeResponse hnull hle, hlen, htake]
      simp only [Cmd.complete, cmdAt, if_neg hnull]
      by_cases hmsg : 0 < pkt.msgLen
      · rw [if_pos hmsg]
        rfl
      · have hzero : (cutTo c.respLen pkt.msgLen).toNat = 0 := by
          have hempty : pkt.msgLen.toNat = 0 := Nat.eq_zero_of_not_pos hmsg
          rw [toNat_cutTo, hempty, Nat.min_zero]
        rw [if_neg hmsg, hzero]
        rfl
  simp only [cmdAt, hreqData]
  rw [hrespData]
  rfl

/-- The other commands do not see the response. -/
theorem cmdAt_other (h : Separate cmds p) {q : κ} (hq : q ≠ p) {bytes : List U8}
    (hlen : bytes.length ≤ (cmds p).respLen.toNat) :
    cmdAt (storeResponse m (cmds p) bytes) (cmds q) = cmdAt m (cmds q) := by
  refine cmdAt_congr (fun x hx => ?_) fun x _ hx => ?_
  · exact storeResponse_of_outside fun hx' => h.req q x (hx'.mono hlen) hx
  · exact storeResponse_of_outside fun hx' => h.resp q hq x (hx'.mono hlen) hx

/-- The data of a command lies outside the items of a queue. -/
def Outside (u : Setup) (c : CmdBlock) : Prop :=
  ∀ b ∈ u.addrs, Apart c.reqData c.reqLen.toNat b u.itemSize.toNat ∧
    Apart c.respData c.respLen.toNat b u.itemSize.toNat

theorem cmdAt_of_outside {u : Setup} {c : CmdBlock} (h : Outside u c) {b : U32} (hb : b ∈ u.addrs)
    {m m' : Memory 32} (hm : ∀ x, ¬ Within b u.itemSize.toNat x → m' x = m x) :
    cmdAt m' c = cmdAt m c :=
  cmdAt_congr (fun x hx => hm x ((h b hb).1 x hx)) fun x _ hx => hm x ((h b hb).2 x hx)

theorem request_eq_requestPkt (client : Client κ) (c : CmdBlock) (mem : Memory 32) :
    request client c mem = Rpc.requestPkt (cmdAt mem c) client.bump.pendingId := by
  simp only [request, Rpc.requestPkt, cmdAt, Client.bump, take_read, min_self]

end Commands

/-- A creation that fails changes neither the memory nor the maximum size. -/
theorem createMessage_of_null {u : Setup} {ring : Vring} {t : Fifos} {m : Machine} (hp : Placed u)
    (hr : Refines u ring t) (haddr : ∀ b ∈ t.free, b ∈ u.addrs) {nbytes : U32}
    (hn : nbytes.toNat + 8 < 2 ^ 32) (hnull : (createMessage ring m nbytes).buf = 0) :
    (createMessage ring m nbytes).m.mem = m.mem ∧
      rpmsgGetMaxSize (createMessage ring m nbytes).ring.master = rpmsgGetMaxSize ring.master := by
  have hr' : Refines u (Rpmsg.Link.mk ring m.mem).ring t := hr
  rcases createMessage_cases hp hr' haddr hn 0 with ⟨-, hmem, hnext⟩ | ⟨b, bs, hf, hfit, hret, -⟩
  · refine ⟨hmem, BitVec.eq_of_toNat_eq ?_⟩
    rw [maxSize_of_refines hr]
    exact maxSize_of_refines hnext
  · have hb : b ∈ u.addrs := haddr b (hf ▸ List.mem_cons_self)
    exact absurd (hret.symm.trans hnull) (hp.data_ne_zero hb (by omega))

section Client
variable {κ : Type} [DecidableEq κ]

/-- `client_cb` on memory does to the commands what it does on packets, and calls the same
callback. -/
theorem clientCb_refines (client : Client κ) (cmds : κ → CmdBlock) (mem : Memory 32) {data : U32}
    (hdata : data ≠ 0) (hsep : ∀ p, client.pendingCmd = some p → Separate cmds p) :
    let h := clientCb client cmds (Machine.of mem) data
    let l := Rpc.clientCb client (fun q => cmdAt mem (cmds q)) (pktAt mem data)
    h.ret = l.ret ∧ (∀ q, cmdAt h.m.mem (h.cmds q) = l.cmds q) ∧
      h.called.map Prod.fst = l.called.toList := by
  intro h l
  cases hrunning : client.running with
  | false =>
      have hh : h = ⟨Rpc.rpcFail, cmds, Machine.of mem, []⟩ := if_pos (Or.inl hrunning)
      have hl : l = ⟨Rpc.rpcFail, fun q => cmdAt mem (cmds q), none, none⟩ := if_pos hrunning
      rw [hh, hl]
      exact ⟨rfl, fun _ => rfl, rfl⟩
  | true =>
      cases hp : client.pendingCmd with
      | none =>
          have hh : h = ⟨Rpc.rpcOk, cmds, Machine.of mem, []⟩ := clientCb_of_idle hrunning hdata hp
          have hl : l = ⟨Rpc.rpcOk, fun q => cmdAt mem (cmds q), none, none⟩ := by
            simp only [l, Rpc.clientCb, hrunning, hp, Bool.true_eq_false, if_false]
          rw [hh, hl]
          exact ⟨rfl, fun _ => rfl, rfl⟩
      | some p =>
          by_cases hid : (pktAt mem data).msgId = client.pendingId
          · obtain ⟨hret, hcmds, hmem, hcalled⟩ := clientCb_spec cmds hrunning hdata hp hid
            have hl : l = ⟨Rpc.rpcOk, Function.update (fun q => cmdAt mem (cmds q)) p
                ((cmdAt mem (cmds p)).complete (pktAt mem data)), some p,
                if (cmds p).cb.isSome then some p else none⟩ := by
              simp only [l, Rpc.clientCb, hrunning, hp, Bool.true_eq_false, if_false, if_pos hid]
              rfl
            have hlcmds : l.cmds = Function.update (fun q => cmdAt mem (cmds q)) p
                ((cmdAt mem (cmds p)).complete (pktAt mem data)) := by rw [hl]
            refine ⟨by rw [hl]; exact hret, fun q => ?_, ?_⟩
            · rw [hcmds, hmem, hlcmds]
              by_cases hq : q = p
              · subst hq
                rw [Function.update_self, Function.update_self]
                exact cmdAt_complete (length_msgData mem data) ((hsep q hp).req q)
              · rw [Function.update_of_ne hq, Function.update_of_ne hq]
                exact cmdAt_other (hsep p hp) hq (List.length_take_le ..)
            · rw [hcalled, hl]
              split_ifs with hcb
              · rfl
              · rfl
          · have hh : h = ⟨Rpc.rpcOk, cmds, ((Machine.of mem).field data 0).2, []⟩ :=
              clientCb_of_other (m := Machine.of mem) hrunning hdata hp hid
            have hl : l = ⟨Rpc.rpcOk, fun q => cmdAt mem (cmds q), none, none⟩ := by
              simp only [l, Rpc.clientCb, hrunning, hp, Bool.true_eq_false, if_false, if_neg hid]
            rw [hh, hl]
            exact ⟨rfl, fun _ => rfl, rfl⟩

/-- A block that is set pending is still the command of the list model. -/
theorem cmdAt_pending (mem : Memory 32) (cmds : κ → CmdBlock) (p q : κ) :
    cmdAt mem (Function.update cmds p { cmds p with status := Rpc.statusPending } q) =
      Function.update (fun q => cmdAt mem (cmds q)) p (cmdAt mem (cmds p)).setPending q := by
  by_cases hq : q = p
  · subst hq
    rw [Function.update_self, Function.update_self]
    rfl
  · rw [Function.update_of_ne hq, Function.update_of_ne hq]

theorem outside_pending {u : Setup} {cmds : κ → CmdBlock} (hout : ∀ q, Outside u (cmds q))
    (p q : κ) :
    Outside u (Function.update cmds p { cmds p with status := Rpc.statusPending } q) := by
  by_cases hq : q = p
  · subst hq
    rw [Function.update_self]
    exact hout q
  · rw [Function.update_of_ne hq]
    exact hout q

/-- `esp_amp_rpc_client_execute_cmd` on memory answers as on packets, and the message it
sends holds the packet. -/
theorem executeCmd_refines {u : Setup} {ring : Vring} {t : Fifos} (hp : Placed u)
    (hr : Refines u ring t) (haddr : ∀ b ∈ t.free, b ∈ u.addrs) (client : Client κ) (ept : Ept)
    (serverId : U16) (cmds : κ → CmdBlock) (p : κ) (mem : Memory 32)
    (hout : ∀ q, Outside u (cmds q)) :
    let created := createMessage ring (Machine.of mem) (((cmds p).reqLen + pktSize).setWidth 32)
    let r := executeCmd client ept serverId cmds (some p) ring (Machine.of mem)
    let l := Rpc.executeCmd client (fun q => cmdAt mem (cmds q)) (some p)
      (rpmsgGetMaxSize ring.master) (created.buf != 0)
    r.ret = l.ret ∧ r.client = l.client ∧ (∀ q, cmdAt r.m.mem (r.cmds q) = l.cmds q) ∧
      r.sent.map (pktAt r.m.mem) = l.sent := by
  intro created r l
  have hpending := cmdAt_pending mem cmds p
  cases hrunning : client.running with
  | false =>
      have hrefused : client.refuses (cmdAt mem (cmds p)) (rpmsgGetMaxSize ring.master)
          (created.buf != 0) = some Rpc.errInvalidState := if_pos hrunning
      have hreturn : r = ⟨Rpc.errInvalidState, client, cmds, ring, Machine.of mem, none⟩ :=
        if_pos hrunning
      simp only [l, Rpc.executeCmd, hrefused, hreturn, hrunning]
      exact ⟨trivial, trivial, fun _ => rfl, rfl⟩
  | true =>
      have hgo : ¬ client.running = false := by simp [hrunning]
      by_cases hbig : 0xffff - pktSize < (cmds p).reqLen
      · have hrefused : client.refuses (cmdAt mem (cmds p)) (rpmsgGetMaxSize ring.master)
            (created.buf != 0) = some Rpc.errInvalidSize :=
          (if_neg hgo).trans (if_pos hbig)
        have hreturn : r = ⟨Rpc.errInvalidSize, client, _, ring, Machine.of mem, none⟩ :=
          (if_neg hgo).trans (if_pos hbig)
        simp only [l, Rpc.executeCmd, hrefused, hreturn, hrunning, if_true]
        exact ⟨trivial, trivial, hpending, rfl⟩
      · have hreqLen : ((cmds p).reqLen + pktSize).toNat < 2 ^ 16 := BitVec.isLt _
        have hn : (((cmds p).reqLen + pktSize).setWidth 32).toNat + 8 < 2 ^ 32 := by
          rw [BitVec.toNat_setWidth]
          omega
        by_cases hnull : created.buf = 0
        · obtain ⟨hmem, hmax⟩ := createMessage_of_null hp hr haddr hn hnull
          have hrefused : client.refuses (cmdAt mem (cmds p)) (rpmsgGetMaxSize ring.master)
              (created.buf != 0) = some (if rpmsgGetMaxSize ring.master < (cmds p).reqLen + pktSize
                then Rpc.errInvalidSize else Rpc.errNoMem) :=
            (if_neg hgo).trans ((if_neg hbig).trans (if_pos (by simp [hnull])))
          have hreturn : r = ⟨if rpmsgGetMaxSize created.ring.master < (cmds p).reqLen + pktSize
              then Rpc.errInvalidSize else Rpc.errNoMem, client, _, created.ring, created.m,
              none⟩ :=
            (if_neg hgo).trans ((if_neg hbig).trans (if_pos hnull))
          have hmem' : created.m.mem = mem := hmem
          simp only [l, Rpc.executeCmd, hrefused, hreturn, hrunning, if_true, hmem']
          exact ⟨by rw [hmax], trivial, hpending, rfl⟩
        · have hrefused : client.refuses (cmdAt mem (cmds p)) (rpmsgGetMaxSize ring.master)
              (created.buf != 0) = none :=
            (if_neg hgo).trans ((if_neg hbig).trans (if_neg (by simpa using hnull)))
          have hok : r.ret = Rpc.rpcOk := by
            have hreturn : r = ⟨Rpc.rpcOk, _, _, _, _, _⟩ :=
              (if_neg hgo).trans ((if_neg hbig).trans (if_neg hnull))
            rw [hreturn]
          obtain ⟨hclient, hcmds, b, hsent, hreq⟩ := executeCmd_spec hp hr haddr
            (fun b hb => (hout p b hb).1) hok
          simp only [l, Rpc.executeCmd, hrefused]
          refine ⟨hok, ?_, fun q => ?_, ?_⟩
          · rw [hclient, ← hrunning]
            rfl
          · rw [hcmds, ← hpending q]
            exact cmdAt_of_outside (outside_pending hout p q) hreq.mem_addrs hreq.frame
          · rw [hsent, ← request_eq_requestPkt]
            exact congrArg some hreq.packet

end Client

/-- The response in memory is the packet of the answer, whose bytes are at the front of the
response buffer. -/
theorem response_eq_responsePkt {itemSize : U16} (hroom : 16 ≤ itemSize.toNat) (req : Pkt)
    {resp : U16 × List U8} (hlt : resp.2.length < 2 ^ 16) {cmd : Cmd}
    (hstatus : cmd.status = resp.1) (hlen : cmd.respLen = BitVec.ofNat 16 resp.2.length)
    {buf : List U8} (hdata : cmd.respData = some buf) (hbuf : buf.take resp.2.length = resp.2) :
    response itemSize req resp = Rpc.responsePkt (itemSize - 8) req cmd := by
  have hitem := itemSize.isLt
  have hmsgLen : (cutTo (itemSize - 8 - pktSize) cmd.respLen).toNat =
      min (itemSize.toNat - 16) resp.2.length := by
    rw [toNat_cutTo, hlen, BitVec.toNat_ofNat, Nat.mod_eq_of_lt hlt, BitVec.toNat_sub,
      BitVec.toNat_sub, show pktSize.toNat = 8 from rfl, show (8 : U16).toNat = 8 from rfl]
    congr 1
    omega
  have htake : resp.2.take (itemSize.toNat - 16) =
      buf.take (cutTo (itemSize - 8 - pktSize) cmd.respLen).toNat := by
    rw [hmsgLen, ← List.take_take, hbuf]
  rw [response, htake, ← hmsgLen, BitVec.ofNat_toNat, BitVec.setWidth_eq, ← hstatus]
  simp only [Rpc.responsePkt, hdata, Option.getD_some]
  rfl

end EspAmp.RpcRefinement
