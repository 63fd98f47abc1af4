import EspAmp.Rpc
import EspAmp.RpmsgLength

/-!
# Packets in memory

The RPC functions on byte memory. A packet lies behind the RPMsg header of an item:
four sixteen-bit fields and its data. Each function keeps a log of what it loads through
the pointer to the message it is given, as offsets from that pointer, and of what it
stores, as offsets in the object that a pointer of the source stands for. A handler of
the application is an arbitrary function on its own state, the memory and the command.
-/
namespace EspAmp.RpcWire
open ByteMemory
open VirtqueueFifo (Vring Setup Fifos Refines)
open RpmsgChannel (Placed)
open Rpmsg (Ept rpmsgCreateMessage rpmsgSendNocopy)
open RpmsgLength (rpmsgGetMaxSize create_of_small create_of_large maxSize_of_refines)
open Rpc (Client rpcOk rpcFail errInvalidArg errInvalidSize errNoMem errInvalidState
  statusInvalidCmd statusPending pktSize)

/-- A length cut off at a limit. -/
def cutTo (limit len : U16) : U16 := if limit < len then limit else len

theorem toNat_cutTo (limit len : U16) : (cutTo limit len).toNat = min limit.toNat len.toNat := by
  rw [cutTo]
  split_ifs with h
  · exact (min_eq_left (BitVec.lt_def.mp h).le).symm
  · exact (min_eq_right (BitVec.not_lt.mp h)).symm

/-- `esp_amp_rpc_cmd_t`; a null pointer is zero and a null callback `none`. -/
structure CmdBlock where
  cmdId : U16
  status : U16
  reqLen : U16
  respLen : U16
  reqData : U32
  respData : U32
  cb : Option U32
  cbArg : U32
deriving DecidableEq, Repr

/-- What the functions store to. -/
inductive Obj where
  | reqBuf | respBuf | respData | txItem
deriving DecidableEq, Repr

/-- Memory with the loads from the message and the stores, as offsets and lengths. -/
structure Machine where
  mem : Memory 32
  loads : List (ℕ × ℕ)
  stores : List (Obj × ℕ × ℕ)

namespace Machine

/-- A machine that has not done anything yet. -/
def of (mem : Memory 32) : Machine := ⟨mem, [], []⟩

/-- A field of the packet. -/
def field (m : Machine) (pkt : U32) (off : ℕ) : U16 × Machine :=
  (word16 m.mem (pkt + BitVec.ofNat 32 off), { m with loads := m.loads ++ [(off, 2)] })

/-- `memcpy` of the data of the packet to the start of an object. -/
def copyMsgData (m : Machine) (obj : Obj) (dst pkt : U32) (n : ℕ) : Machine :=
  { mem := write m.mem dst (read m.mem (pkt + 8#32) n)
    loads := m.loads ++ [(8, n)]
    stores := m.stores ++ [(obj, 0, n)] }

/-- Bytes stored at an address, which is at an offset of an object. -/
def put (m : Machine) (obj : Obj) (off : ℕ) (a : U32) (bytes : List U8) : Machine :=
  { m with mem := write m.mem a bytes, stores := m.stores ++ [(obj, off, bytes.length)] }

end Machine

/-- A message that was created: its data pointer or null, the queue and the machine. -/
structure Created where
  buf : U32
  ring : Vring
  m : Machine

/-- `esp_amp_rpmsg_create_message` with the default flags. -/
def createMessage (ring : Vring) (m : Machine) (nbytes : U32) : Created :=
  let r := rpmsgCreateMessage ⟨ring, m.mem⟩ nbytes 0
  { buf := r.1
    ring := r.2.ring
    m := { m with
      mem := r.2.mem
      stores := m.stores ++ if r.1 = 0 then [] else [(.txItem, 6, 2), (.txItem, 4, 2)] } }

/-- `esp_amp_rpmsg_send_nocopy` -/
def sendNocopy (ring : Vring) (m : Machine) (ept : Ept) (dstAddr : U16) (buf : U32)
    (dataLen : U16) : Vring × Machine :=
  let r := rpmsgSendNocopy ⟨ring, m.mem⟩ ept dstAddr buf dataLen
  (r.2.ring, { m with
    mem := r.2.mem
    stores := m.stores ++ [(.txItem, 4, 2), (.txItem, 2, 2), (.txItem, 0, 2)] })

/-- The fields of `esp_amp_rpc_pkt_t`. -/
def pktHeader (msgId cmdId status msgLen : U16) : List U8 :=
  bytes16 msgId ++ (bytes16 cmdId ++ (bytes16 status ++ bytes16 msgLen))

/-- A packet is stored in a created message and sent. -/
def sendPkt (ring : Vring) (m : Machine) (ept : Ept) (dstAddr : U16) (buf : U32)
    (header : List U8) (msgData : U32) (msgLen : U16) : Vring × Machine :=
  let m := m.put .txItem 8 buf header
  let m := m.put .txItem 16 (buf + 8#32) (read m.mem msgData msgLen.toNat)
  sendNocopy ring m ept dstAddr buf (pktSize + msgLen)

section Log
variable {ring : Vring} {m : Machine}

theorem createMessage_stores (nbytes : U32) :
    (createMessage ring m nbytes).m.stores =
      m.stores ++ if (createMessage ring m nbytes).buf = 0 then []
        else [(.txItem, 6, 2), (.txItem, 4, 2)] := rfl

theorem length_pktHeader (msgId cmdId status msgLen : U16) :
    (pktHeader msgId cmdId status msgLen).length = 8 := rfl

theorem sendPkt_stores (ept : Ept) (dstAddr : U16) (buf : U32) (header : List U8) (msgData : U32)
    (msgLen : U16) :
    (sendPkt ring m ept dstAddr buf header msgData msgLen).2.stores =
      m.stores ++ [(.txItem, 8, header.length), (.txItem, 16, msgLen.toNat), (.txItem, 4, 2),
        (.txItem, 2, 2), (.txItem, 0, 2)] := by
  simp only [sendPkt, sendNocopy, Machine.put, length_read, List.append_assoc, List.cons_append,
    List.nil_append]

/-- The stores of a step from `m₀` to `m` are logged where they happen: a byte keeps its
value outside of them, when each object starts at its base. -/
def Logged (base : Obj → U32) (m₀ m : Machine) : Prop :=
  ∃ new, m.stores = m₀.stores ++ new ∧
    ∀ x, (∀ w ∈ new, ¬ Within (base w.1 + BitVec.ofNat 32 w.2.1) w.2.2 x) → m.mem x = m₀.mem x

section Logged
variable {base : Obj → U32} {m₀ m₁ m₂ : Machine}

theorem Logged.refl (m : Machine) : Logged base m m :=
  ⟨[], (List.append_nil _).symm, fun _ _ => rfl⟩

theorem Logged.trans (h₁ : Logged base m₀ m₁) (h₂ : Logged base m₁ m₂) : Logged base m₀ m₂ := by
  obtain ⟨new₁, hstores₁, hkeep₁⟩ := h₁
  obtain ⟨new₂, hstores₂, hkeep₂⟩ := h₂
  refine ⟨new₁ ++ new₂, by rw [hstores₂, hstores₁, List.append_assoc], fun x hx => ?_⟩
  rw [hkeep₂ x fun w hw => hx w (List.mem_append_right _ hw),
    hkeep₁ x fun w hw => hx w (List.mem_append_left _ hw)]

theorem field_logged (pkt : U32) (off : ℕ) : Logged base m (m.field pkt off).2 :=
  Logged.refl m

/-- The address that is stored to is the base of the object and the offset. -/
theorem put_logged {obj : Obj} {off : ℕ} {a : U32} (ha : a = base obj + BitVec.ofNat 32 off)
    (bytes : List U8) : Logged base m (m.put obj off a bytes) := by
  refine ⟨[(obj, off, bytes.length)], rfl, fun x hx => ?_⟩
  have hout := hx _ List.mem_cons_self
  rw [← ha] at hout
  exact write_of_not_within hout

theorem copyMsgData_logged {obj : Obj} {dst : U32} (hdst : dst = base obj) (pkt : U32) (n : ℕ) :
    Logged base m (m.copyMsgData obj dst pkt n) := by
  refine ⟨[(obj, 0, n)], rfl, fun x hx => write_of_not_within ?_⟩
  have hout := hx _ List.mem_cons_self
  rwa [length_read, hdst, ← BitVec.add_zero (base obj)]

theorem createMessage_logged (nbytes : U32)
    (hbuf : (createMessage ring m nbytes).buf = base .txItem + 8#32)
    (hne : (createMessage ring m nbytes).buf ≠ 0) :
    Logged base m (createMessage ring m nbytes).m := by
  refine ⟨_, by rw [createMessage_stores, if_neg hne], fun x hx => ?_⟩
  have hflags : ¬ Within (base .txItem + 6#32) 2 x := hx (.txItem, 6, 2) (by simp)
  have hlen : ¬ Within (base .txItem + 4#32) 2 x := hx (.txItem, 4, 2) (by simp)
  simp only [createMessage, rpmsgCreateMessage] at hbuf hne ⊢
  split_ifs at hbuf hne ⊢
  · rfl
  · rfl
  · rw [(BitVec.add_left_inj _).mp hbuf]
    exact (write16_of_not_within hlen).trans (write16_of_not_within hflags)

theorem sendNocopy_logged (ept : Ept) (dstAddr dataLen : U16) {buf : U32}
    (hbuf : buf = base .txItem + 8#32) :
    Logged base m (sendNocopy ring m ept dstAddr buf dataLen).2 := by
  refine ⟨_, rfl, fun x hx => ?_⟩
  have hitem : buf - 8#32 = base .txItem := by rw [hbuf, BitVec.add_sub_cancel]
  have hlen : ¬ Within (base .txItem + 4#32) 2 x := hx (.txItem, 4, 2) (by simp)
  have hdst : ¬ Within (base .txItem + 2#32) 2 x := hx (.txItem, 2, 2) (by simp)
  have hsrc : ¬ Within (base .txItem + 0#32) 2 x := hx (.txItem, 0, 2) (by simp)
  simp only [sendNocopy, rpmsgSendNocopy, hitem]
  exact (write16_of_not_within hsrc).trans
    ((write16_of_not_within hdst).trans (write16_of_not_within hlen))

theorem sendPkt_logged (ept : Ept) (dstAddr : U16) {buf : U32} (header : List U8) (msgData : U32)
    (msgLen : U16) (hbuf : buf = base .txItem + 8#32) :
    Logged base m (sendPkt ring m ept dstAddr buf header msgData msgLen).2 := by
  have hdata : buf + 8#32 = base .txItem + BitVec.ofNat 32 16 := by
    rw [hbuf, BitVec.add_assoc]
    rfl
  exact ((put_logged hbuf header).trans (put_logged hdata _)).trans
    (sendNocopy_logged ept dstAddr _ hbuf)

end Logged

/-- A message of the maximum size can be created when a buffer is free and items have
room for the RPMsg header. -/
theorem createMessage_max_iff {u : Setup} {t : Fifos} (hp : Placed u) (hr : Refines u ring t)
    (haddr : ∀ b ∈ t.free, b ∈ u.addrs) (m : Machine) :
    (createMessage ring m ((rpmsgGetMaxSize ring.master).setWidth 32)).buf ≠ 0 ↔
      8 ≤ u.itemSize.toNat ∧ t.free ≠ [] := by
  have hitem := u.itemSize.isLt
  have hr' : Refines u (Rpmsg.Link.mk ring m.mem).ring t := hr
  have hmax := maxSize_of_refines hr
  have hsum : ((rpmsgGetMaxSize ring.master).setWidth 32 + 8#32).toNat =
      (u.itemSize.toNat + 2 ^ 16 - 8) % 2 ^ 16 + 8 := by
    rw [BitVec.toNat_add, BitVec.toNat_setWidth, hmax, show (8#32).toNat = 8 from rfl]
    omega
  by_cases hroom : 8 ≤ u.itemSize.toNat
  · cases ht : t.free with
    | nil =>
        refine iff_of_false (not_not.mpr ?_) (by simp)
        obtain ⟨hnull, -⟩ | ⟨b, bs, hfree, -⟩ := RpmsgChannel.createMessage_takes hp hr' haddr
          ((rpmsgGetMaxSize ring.master).setWidth 32) 0
        · exact hnull
        · rw [ht] at hfree
          cases hfree
    | cons b bs =>
        have hb : b ∈ u.addrs := haddr b (ht ▸ List.mem_cons_self)
        have hbuf := (create_of_small _ 0 hp hr' ht hb (by rw [hsum]; omega)).1
        refine iff_of_true ?_ ⟨hroom, by simp⟩
        rw [createMessage, hbuf]
        exact hp.data_ne_zero hb hroom
  · have hnull := (create_of_large _ 0 hp hr' (by rw [hsum]; omega)).1
    exact iff_of_false (not_not.mpr hnull) fun h => hroom h.1

end Log

section Client
variable {κ : Type} [DecidableEq κ]

/-- The outcome of a call, with the data pointer of the message that was sent. -/
structure Called (κ : Type) where
  ret : Int
  client : Client κ
  cmds : κ → CmdBlock
  ring : Vring
  m : Machine
  sent : Option U32

/-- `esp_amp_rpc_client_execute_cmd` -/
def executeCmd (client : Client κ) (ept : Ept) (serverId : U16) (cmds : κ → CmdBlock)
    (cmd : Option κ) (ring : Vring) (m : Machine) : Called κ :=
  match cmd with
  | none => ⟨errInvalidArg, client, cmds, ring, m, none⟩
  | some p =>
      if client.running = false then ⟨errInvalidState, client, cmds, ring, m, none⟩
      else
        let c := { cmds p with status := statusPending }
        let cmds := Function.update cmds p c
        if 0xffff - pktSize < c.reqLen then ⟨errInvalidSize, client, cmds, ring, m, none⟩
        else
          let reqPktLen := c.reqLen + pktSize
          let r := createMessage ring m (reqPktLen.setWidth 32)
          if r.buf = 0 then
            ⟨if rpmsgGetMaxSize r.ring.master < reqPktLen then errInvalidSize else errNoMem, client,
              cmds, r.ring, r.m, none⟩
          else
            let client := client.bump.track p
            let s := sendPkt r.ring r.m ept serverId r.buf
              (pktHeader client.pendingId c.cmdId statusPending c.reqLen) c.reqData c.reqLen
            ⟨rpcOk, client, cmds, s.1, s.2, some r.buf⟩

/-- The bytes of a response that a client copies. -/
def cpyLen (respLen msgLen : U16) : U16 := cutTo respLen msgLen

/-- The response data is copied as far as the response bytes of the command reach. -/
def copyResponse (c : CmdBlock) (m : Machine) (data : U32) : Machine :=
  let (msgLen, m) := m.field data 6
  if 0 < msgLen ∧ c.respData ≠ 0 then
    m.copyMsgData .respData c.respData data (cpyLen c.respLen msgLen).toNat
  else m

/-- The outcome of `client_cb`; a callback finds the memory as it is at its call. -/
structure Handled (κ : Type) where
  ret : Int
  cmds : κ → CmdBlock
  m : Machine
  called : List (κ × Memory 32)

/-- `client_cb` -/
def clientCb (client : Client κ) (cmds : κ → CmdBlock) (m : Machine) (data : U32) : Handled κ :=
  if client.running = false ∨ data = 0 then ⟨rpcFail, cmds, m, []⟩
  else
    match client.pendingCmd with
    | none => ⟨rpcOk, cmds, m, []⟩
    | some p =>
        let (msgId, m) := m.field data 0
        if msgId ≠ client.pendingId then ⟨rpcOk, cmds, m, []⟩
        else
          let (status, m) := m.field data 4
          let c := { cmds p with status := status }
          let m := copyResponse c m data
          ⟨rpcOk, Function.update cmds p c, m, if c.cb.isSome then [(p, m.mem)] else []⟩

section Cases
variable {client : Client κ} {cmds : κ → CmdBlock} {m : Machine} {data : U32} {p : κ}

theorem clientCb_of_idle (hrunning : client.running = true) (hdata : data ≠ 0)
    (hp : client.pendingCmd = none) : clientCb client cmds m data = ⟨rpcOk, cmds, m, []⟩ := by
  rw [clientCb, if_neg (not_or.mpr ⟨by simp [hrunning], hdata⟩), hp]

theorem clientCb_of_other (hrunning : client.running = true) (hdata : data ≠ 0)
    (hp : client.pendingCmd = some p) (hid : word16 m.mem (data + 0#32) ≠ client.pendingId) :
    clientCb client cmds m data = ⟨rpcOk, cmds, (m.field data 0).2, []⟩ := by
  rw [clientCb, if_neg (not_or.mpr ⟨by simp [hrunning], hdata⟩), hp]
  exact if_pos hid

theorem clientCb_of_pending (hrunning : client.running = true) (hdata : data ≠ 0)
    (hp : client.pendingCmd = some p) (hid : word16 m.mem (data + 0#32) = client.pendingId) :
    clientCb client cmds m data =
      let m' := copyResponse (cmds p) ((m.field data 0).2.field data 4).2 data
      ⟨rpcOk, Function.update cmds p { cmds p with status := word16 m.mem (data + 4#32) }, m',
        if (cmds p).cb.isSome then [(p, m'.mem)] else []⟩ := by
  rw [clientCb, if_neg (not_or.mpr ⟨by simp [hrunning], hdata⟩), hp]
  exact if_neg (not_not.mpr hid)

end Cases

end Client

section Server
variable {σ : Type}

abbrev Handler (σ : Type) := σ → Memory 32 → CmdBlock → σ × Memory 32 × CmdBlock

/-- `esp_amp_rpc_service_t` -/
structure Service (σ : Type) where
  cmdId : U16
  handler : Option (Handler σ)

/-- `esp_amp_rpc_server_inst_t` as `esp_amp_rpc_server_init` leaves it. -/
structure Server (σ : Type) where
  running : Bool
  reqBufLen : U16
  reqBufLen_ne : reqBufLen ≠ 0
  respBufLen : U16
  respBufLen_ne : respBufLen ≠ 0
  reqBuf : U32
  respBuf : U32
  srv : List (Service σ)
  rpmsgEpt : Ept

def findHandler (cmdId : U16) : List (Service σ) → Option (Handler σ)
  | [] => none
  | e :: srv => if e.handler.isSome ∧ e.cmdId = cmdId then e.handler else findHandler cmdId srv

/-- The state of the application, the machine and the command after the handler. -/
structure Ran (σ : Type) where
  app : σ
  m : Machine
  cmd : CmdBlock

def runHandler (srv : List (Service σ)) (app : σ) (m : Machine) (cmd : CmdBlock) : Ran σ :=
  match findHandler cmd.cmdId srv with
  | none =>
      ⟨app, m.put .respBuf 0 cmd.respData [0],
        { cmd with status := statusInvalidCmd, respLen := 1 }⟩
  | some handler =>
      let r := handler app m.mem cmd
      ⟨r.1, { m with mem := r.2.1 }, r.2.2⟩

theorem runHandler_of_found {srv : List (Service σ)} {app : σ} {m : Machine} {cmd : CmdBlock}
    {handler : Handler σ} (hfound : findHandler cmd.cmdId srv = some handler) :
    (runHandler srv app m cmd).cmd = (handler app m.mem cmd).2.2 ∧
      (runHandler srv app m cmd).m.mem = (handler app m.mem cmd).2.1 := by
  rw [runHandler, hfound]
  exact ⟨rfl, rfl⟩

/-- The bytes of a request that a server copies. -/
def requestLen (server : Server σ) (msgLen : U16) : U16 := cutTo server.reqBufLen msgLen

/-- The command that a handler is called with. -/
def requestCmd (server : Server σ) (cmdId reqBufLen : U16) : CmdBlock :=
  { cmdId := cmdId
    status := statusPending
    reqLen := reqBufLen
    respLen := server.respBufLen
    reqData := server.reqBuf
    respData := server.respBuf
    cb := none
    cbArg := 0 }

/-- The part of `exec_cmd_and_send` up to the handler. -/
def execCmd (server : Server σ) (app : σ) (m : Machine) (pkt : U32) : Ran σ × U16 × U16 :=
  let (msgLen, m) := m.field pkt 6
  let reqBufLen := requestLen server msgLen
  let (cmdId, m) := m.field pkt 2
  let (msgId, m) := m.field pkt 0
  let m := m.copyMsgData .reqBuf server.reqBuf pkt reqBufLen.toNat
  (runHandler server.srv app m (requestCmd server cmdId reqBufLen), msgId, cmdId)

/-- The outcome of a request, with the data pointer of the response. -/
structure Served (σ : Type) where
  app : σ
  ring : Vring
  m : Machine
  sent : Option U32

/-- The data of a response, cut off behind both headers. -/
def responseLen (maxSize respLen : U16) : U16 := cutTo (maxSize - pktSize) respLen

/-- The part behind the handler: the response is cut off to fit in a transmit buffer. -/
def sendResponse (server : Server σ) (ran : Ran σ) (msgId cmdId : U16) (ring : Vring)
    (clientAddr : U16) : Served σ :=
  if ran.cmd.respLen = 0 then ⟨ran.app, ring, ran.m, none⟩
  else
    let respPktBufMaxLen := rpmsgGetMaxSize ring.master
    let r := createMessage ring ran.m (respPktBufMaxLen.setWidth 32)
    if r.buf = 0 then ⟨ran.app, r.ring, r.m, none⟩
    else
      let msgLen := responseLen respPktBufMaxLen ran.cmd.respLen
      let s := sendPkt r.ring r.m server.rpmsgEpt clientAddr r.buf
        (pktHeader msgId cmdId ran.cmd.status msgLen) ran.cmd.respData msgLen
      ⟨ran.app, s.1, s.2, some r.buf⟩

section Response
variable {server : Server σ} {ran : Ran σ} {msgId cmdId clientAddr maxSize : U16} {ring : Vring}

theorem sendResponse_of_silent (h : ran.cmd.respLen = 0) :
    sendResponse server ran msgId cmdId ring clientAddr = ⟨ran.app, ring, ran.m, none⟩ := if_pos h

theorem sendResponse_of_null (hmax : rpmsgGetMaxSize ring.master = maxSize)
    (h : ran.cmd.respLen ≠ 0)
    (hnull : (createMessage ring ran.m (maxSize.setWidth 32)).buf = 0) :
    sendResponse server ran msgId cmdId ring clientAddr =
      ⟨ran.app, (createMessage ring ran.m (maxSize.setWidth 32)).ring,
        (createMessage ring ran.m (maxSize.setWidth 32)).m, none⟩ := by
  subst hmax
  exact (if_neg h).trans (if_pos hnull)

theorem sendResponse_of_created (server : Server σ) (msgId cmdId clientAddr : U16)
    (hmax : rpmsgGetMaxSize ring.master = maxSize)
    (h : ran.cmd.respLen ≠ 0) {r : Created}
    (hr : createMessage ring ran.m (maxSize.setWidth 32) = r) (hbuf : r.buf ≠ 0) :
    let s := sendPkt r.ring r.m server.rpmsgEpt clientAddr r.buf
      (pktHeader msgId cmdId ran.cmd.status (responseLen maxSize ran.cmd.respLen))
      ran.cmd.respData (responseLen maxSize ran.cmd.respLen)
    sendResponse server ran msgId cmdId ring clientAddr = ⟨ran.app, s.1, s.2, some r.buf⟩ := by
  subst hmax hr
  exact (if_neg h).trans (if_neg hbuf)

end Response

/-- `exec_cmd_and_send` -/
def execCmdAndSend (server : Server σ) (app : σ) (ring : Vring) (m : Machine) (pkt : U32)
    (clientAddr : U16) : Served σ :=
  let r := execCmd server app m pkt
  sendResponse server r.1 r.2.1 r.2.2 ring clientAddr

/-- A request that is executed while the server runs: by `server_cb` without an operating
system, else by `esp_amp_rpc_server_run` when it is taken out of the queue. -/
def serve (server : Server σ) (app : σ) (ring : Vring) (m : Machine) (data : U32)
    (srcAddr : U16) : Served σ :=
  if server.running = false ∨ data = 0 then ⟨app, ring, m, none⟩
  else execCmdAndSend server app ring m data srcAddr

theorem serve_of_running {server : Server σ} {app : σ} {ring : Vring} {m : Machine} {data : U32}
    {srcAddr : U16} (hrunning : server.running = true) (hdata : data ≠ 0) :
    let r := execCmd server app m data
    serve server app ring m data srcAddr =
      sendResponse server r.1 r.2.1 r.2.2 ring srcAddr :=
  if_neg (not_or.mpr ⟨by simp [hrunning], hdata⟩)

/-- The environment of a server: bare metal, or FreeRTOS with the answer of
`esp_amp_env_queue_send`, which a server without a queue does not call, and whether
`esp_amp_rpc_server_run` receives the request before the server is stopped. -/
inductive ServerEnv where
  | bareMetal
  | freeRtos (queueSend : Option Int) (received : Bool)
deriving DecidableEq, Repr

/-- The request is executed in place, or taken out of the queue by the server task. -/
def ServerEnv.takes : ServerEnv → Bool
  | .bareMetal => true
  | .freeRtos none _ => false
  | .freeRtos (some ret) received => ret == 0 && received

/-- A message delivered to `server_cb`, up to the end of its execution. A request that the
queue does not take, or that is still in it when the server is stopped, is destroyed
unread. -/
def deliver (env : ServerEnv) (server : Server σ) (app : σ) (ring : Vring) (m : Machine)
    (data : U32) (srcAddr : U16) : Served σ :=
  if env.takes then serve server app ring m data srcAddr else ⟨app, ring, m, none⟩

end Server

section Truth
variable {σ κ : Type} [DecidableEq κ] {base : Obj → U32}

theorem copyResponse_logged {c : CmdBlock} {m : Machine} (hbase : c.respData = base .respData)
    (data : U32) : Logged base m (copyResponse c m data) := by
  simp only [copyResponse]
  split_ifs
  · exact (field_logged data 6).trans (copyMsgData_logged hbase data _)
  · exact field_logged data 6

/-- Everything `client_cb` stores is stored at the response bytes of the pending command. -/
theorem clientCb_logged {client : Client κ} {cmds : κ → CmdBlock} {m : Machine} {data : U32}
    (hbase : ∀ p, client.pendingCmd = some p → (cmds p).respData = base .respData) :
    Logged base m (clientCb client cmds m data).m := by
  by_cases hgo : client.running = false ∨ data = 0
  · rw [clientCb, if_pos hgo]
    exact .refl m
  · obtain ⟨hrunning, hdata⟩ := not_or.mp hgo
    rw [Bool.not_eq_false] at hrunning
    cases hp : client.pendingCmd with
    | none =>
        rw [clientCb_of_idle hrunning hdata hp]
        exact .refl m
    | some p =>
        by_cases hid : word16 m.mem (data + 0#32) = client.pendingId
        · rw [clientCb_of_pending hrunning hdata hp hid]
          have hfields : Logged base m ((m.field data 0).2.field data 4).2 :=
            (field_logged data 0).trans (field_logged data 4)
          exact hfields.trans (copyResponse_logged (hbase p hp) data)
        · rw [clientCb_of_other hrunning hdata hp hid]
          exact field_logged data 0

/-- Behind the handler a server stores in one item only, where the log says. -/
theorem sendResponse_logged {u : Setup} {t : Fifos} {ring : Vring} (hp : Placed u)
    (hr : Refines u ring t) (haddr : ∀ b ∈ t.free, b ∈ u.addrs) (server : Server σ) (ran : Ran σ)
    (msgId cmdId clientAddr : U16) :
    ∃ item, ∀ base : Obj → U32, base .txItem = item →
      Logged base ran.m (sendResponse server ran msgId cmdId ring clientAddr).m := by
  have hr' : Refines u (Rpmsg.Link.mk ring ran.m.mem).ring t := hr
  set nbytes := (rpmsgGetMaxSize ring.master).setWidth 32
  refine ⟨(createMessage ring ran.m nbytes).buf - 8#32, fun base hbase => ?_⟩
  have hbuf : (createMessage ring ran.m nbytes).buf = base .txItem + 8#32 := by
    rw [hbase, BitVec.sub_add_cancel]
  by_cases hask : ran.cmd.respLen = 0
  · rw [sendResponse_of_silent hask]
    exact .refl _
  · by_cases hne : (createMessage ring ran.m nbytes).buf = 0
    · rw [sendResponse_of_null rfl hask hne]
      refine ⟨[], by rw [createMessage_stores, if_pos hne], fun x _ => ?_⟩
      rcases RpmsgChannel.createMessage_takes hp hr' haddr nbytes 0 with
        ⟨-, hmem, -⟩ | ⟨b, bs, hfree, hlt, hle, hret, -⟩
      · exact congrFun hmem x
      · have hroom : 8 ≤ u.itemSize.toNat := by
          have hmax := (rpmsgGetMaxSize ring.master).isLt
          have hnat : nbytes.toNat = (rpmsgGetMaxSize ring.master).toNat := by
            rw [BitVec.toNat_setWidth]
            omega
          bv_omega
        have hb := haddr b (hfree ▸ List.mem_cons_self)
        exact absurd (hret.symm.trans hne) (hp.data_ne_zero hb hroom)
    · rw [sendResponse_of_created server msgId cmdId clientAddr rfl hask rfl hne]
      exact (createMessage_logged nbytes hbuf hne).trans
        (sendPkt_logged server.rpmsgEpt clientAddr _ _ _ hbuf)

end Truth

end EspAmp.RpcWire
