import EspAmp.RpcService
import EspAmp.RpmsgPost

/-!
# Clients and a server in shared memory

Any number of clients on one core call a server on the other one. Packets are bytes in the
items of two queues. A call, a poll with its callback, and each of the three parts of the
server's work (to take a request, to execute it, to answer it) is one step, and the steps
of both cores come in any order. The applications write their commands and all memory that
is neither an item nor a buffer of the server at any time.

A handler of the server computes from the state of the application and the request bytes
that it is given. What the application would answer to the requests one after the other
is a machine of its own, which knows no packets, no items and no clients.
-/
namespace EspAmp.RpcSystem
open ByteMemory VirtqueueFifo RpmsgPair RpcWire RpcRoundTrip RpmsgPost
open Rpmsg (Ept Msg CbCall msgAt searchEndpoint)
open RpmsgChannel (Held)
open Rpc (Client Pkt envQueueSend envQueueRecv serverQueueLen rpcOk statusInvalidCmd)
open RpcService (Variant)

/-- What a handler does with a command of the server: it stores in the two buffers of the
server only, and leaves there what the application answers. -/
structure Serves {σ : Type} (server : Server σ) (handler : Handler σ)
    (answer : σ → List U8 → σ × U16 × List U8) : Prop where
  length_le : ∀ app req, (answer app req).2.2.length ≤ server.respBufLen.toNat
  returns : ∀ app mem cmdId n, n ≤ server.reqBufLen →
    let out := answer app (read mem server.reqBuf n.toNat)
    let r := handler app mem (requestCmd server cmdId n)
    r.1 = out.1 ∧
      r.2.2 = { requestCmd server cmdId n with
        status := out.2.1, respLen := BitVec.ofNat 16 out.2.2.length } ∧
      read r.2.1 server.respBuf out.2.2.length = out.2.2 ∧
      ∀ x, ¬ Within server.reqBuf server.reqBufLen.toNat x →
        ¬ Within server.respBuf server.respBufLen.toNat x → r.2.1 x = mem x

/-- The parts of a system, as their initialization leaves them: the clients' endpoints on
one side, the server's on the other one, and buffers of the server outside of the items. The
items of the responses have room for both headers. -/
structure Wiring (σ ι : Type) where
  pair : Pair
  side : Side
  variant : Variant
  server : Server σ
  clientEpt : ι → Ept
  clientAt : U32 → Option ι
  serverEpts : List Ept
  clientEpts : List Ept
  answer : U16 → σ → List U8 → σ × U16 × List U8
  running : server.running = true
  room : 16 ≤ (pair.link side.other).itemSize.toNat
  serverFound : searchEndpoint serverEpts server.rpmsgEpt.addr = some server.rpmsgEpt ∧
    server.rpmsgEpt.rxCb.isSome
  clientFound : ∀ i, searchEndpoint clientEpts (clientEpt i).addr = some (clientEpt i) ∧
    (clientEpt i).rxCb.isSome
  clientAt_data : ∀ i, clientAt (clientEpt i).rxCbData = some i
  reqBuf_apart : ∀ d, ∀ b ∈ (pair.link d).addrs,
    Apart server.reqBuf server.reqBufLen.toNat b (pair.link d).itemSize.toNat
  respBuf_apart : ∀ d, ∀ b ∈ (pair.link d).addrs,
    Apart server.respBuf server.respBufLen.toNat b (pair.link d).itemSize.toNat
  serves : ∀ cmdId handler, findHandler cmdId server.srv = some handler →
    Serves server handler (answer cmdId)

section Model
variable {σ ι κ : Type}

/-- A byte that the applications may store to. -/
def Wiring.Free (w : Wiring σ ι) (x : U32) : Prop :=
  (∀ d, ∀ b ∈ (w.pair.link d).addrs, ¬ Within b (w.pair.link d).itemSize.toNat x) ∧
  ¬ Within w.server.reqBuf w.server.reqBufLen.toNat x ∧
  ¬ Within w.server.respBuf w.server.respBufLen.toNat x

/-- The data of a command is the application's. -/
def Wiring.FreeCmd (w : Wiring σ ι) (c : CmdBlock) : Prop :=
  (∀ x, Within c.reqData c.reqLen.toNat x → w.Free x) ∧
  ∀ x, c.respData ≠ 0 → Within c.respData c.respLen.toNat x → w.Free x

/-- The application behind the server: its answers to one request after the other. -/
def Wiring.application (w : Wiring σ ι) : ReplyMachine.Machine σ Pkt (U16 × List U8) where
  step app req :=
    if (findHandler req.cmdId w.server.srv).isSome then
      let out := w.answer req.cmdId app (req.msgData.take w.server.reqBufLen.toNat)
      (out.2, out.1)
    else ((statusInvalidCmd, [0]), app)

/-- `esp_amp_rpc_pkt_digest_t`; the length is not read. The number of the message in its
queue is not in the program. -/
structure Digest where
  tag : ℕ
  clientAddr : U16
  pkt : U32
deriving DecidableEq

/-- What the server is doing. -/
inductive Task
  | idle
  | taken (r : Digest)
  | executed (tag : ℕ) (clientAddr msgId cmdId : U16) (cmd : CmdBlock)
deriving DecidableEq

/-- A call that has sent its request: its number among the calls of its client, its
command, and the packet that the command stood for. -/
structure Call (ι κ : Type) where
  client : ι
  number : ℕ
  cmd : κ
  req : Pkt

/-- From `count` on the fields are not in the program: the numbers of the calls, the calls
in the order of their requests, and what became of them by their place in that order.
`served` has each request as the server found it. -/
structure State (σ ι κ : Type) where
  sys : Sys
  clients : ι → Client κ
  cmds : κ → CmdBlock
  app : σ
  queue : List Digest
  task : Task
  count : ι → ℕ
  calls : List (Call ι κ)
  served : List (ℕ × Pkt)
  answered : List ℕ
  dropped : List ℕ
  completed : List ℕ

def Wiring.start (w : Wiring σ ι) (mem : Memory 32) (cmds : κ → CmdBlock) (app : σ) :
    State σ ι κ where
  sys :=
    { mem := mem
      chan := fun d =>
        { ring := (w.pair.link d).start
          epts := if d = w.side then w.serverEpts else w.clientEpts } }
  clients := fun _ => Client.init
  cmds := cmds
  app := app
  queue := []
  task := .idle
  count := fun _ => 0
  calls := []
  served := []
  answered := []
  dropped := []
  completed := []

variable [DecidableEq ι] [DecidableEq κ]

/-- `esp_amp_rpc_client_execute_cmd` -/
def State.execute (w : Wiring σ ι) (s : State σ ι κ) (i : ι) (p : κ) : State σ ι κ :=
  let r := executeCmd (s.clients i) (w.clientEpt i) w.server.rpmsgEpt.addr s.cmds (some p)
    (s.sys.chan w.side).ring (Machine.of s.sys.mem)
  let t := { s with
    sys := post s.sys w.side r.ring r.m.mem (r.sent.map fun buf => msgAt r.m.mem (buf - 8#32))
    clients := Function.update s.clients i r.client
    cmds := r.cmds }
  if r.sent.isSome then
    { t with
      count := Function.update s.count i (s.count i + 1)
      calls := s.calls ++ [⟨i, s.count i + 1, p, request (s.clients i) (s.cmds p) s.sys.mem⟩] }
  else t

/-- `server_cb`: without an operating system the request is executed before the callback
returns, else it is queued, or destroyed if the queue is full. -/
def State.serverCb (w : Wiring σ ι) (s : State σ ι κ) (r : Digest) : State σ ι κ :=
  match w.variant with
  | .baremetal => { s with task := .taken r }
  | .freertos os queueLen =>
      let sent := envQueueSend os (serverQueueLen queueLen) s.queue r
      if sent.1 = 0 then { s with queue := sent.2 }
      else
        { s with
          sys := s.sys.exec w.pair w.side.other (.destroy r.pkt)
          dropped := s.dropped ++ [r.tag] }

/-- A poll of the server's core. -/
def State.pollServer (w : Wiring σ ι) (s : State σ ι κ) : State σ ι κ :=
  let t := { s with sys := s.sys.exec w.pair w.side.other .poll }
  match pollCalls s.sys w.side.other with
  | [] => t
  | k :: _ => t.serverCb w ⟨(s.sys.chan w.side).polled.length, k.srcAddr, k.msgData⟩

/-- The first part of `esp_amp_rpc_server_run`, which only the build with a queue has. -/
def State.recv (w : Wiring σ ι) (s : State σ ι κ) : State σ ι κ :=
  match w.variant with
  | .baremetal => s
  | .freertos os _ =>
      match envQueueRecv os s.queue with
      | none => s
      | some (r, queue) => { s with task := .taken r, queue := queue }

/-- `exec_cmd_and_send` up to the handler. -/
def State.exec (w : Wiring σ ι) (s : State σ ι κ) (r : Digest) : State σ ι κ :=
  let ran := execCmd w.server s.app (Machine.of s.sys.mem) r.pkt
  { s with
    sys := { s.sys.exec w.pair w.side.other (.destroy r.pkt) with mem := ran.1.m.mem }
    app := ran.1.app
    task := .executed r.tag r.clientAddr ran.2.1 ran.2.2 ran.1.cmd
    served := s.served ++ [(r.tag, pktAt s.sys.mem r.pkt)] }

/-- `exec_cmd_and_send` behind the handler. -/
def State.respond (w : Wiring σ ι) (s : State σ ι κ) (tag : ℕ) (clientAddr msgId cmdId : U16)
    (cmd : CmdBlock) : State σ ι κ :=
  let r := sendResponse w.server ⟨s.app, Machine.of s.sys.mem, cmd⟩ msgId cmdId
    (s.sys.chan w.side.other).ring clientAddr
  let t := { s with
    sys := post s.sys w.side.other r.ring r.m.mem
      (r.sent.map fun buf => msgAt r.m.mem (buf - 8#32))
    task := .idle }
  if r.sent.isSome then { t with answered := s.answered ++ [tag] }
  else { t with dropped := s.dropped ++ [tag] }

/-- The client waits for this response. -/
def Waits (client : Client κ) (mem : Memory 32) (data : U32) : Prop :=
  client.pendingCmd.isSome ∧ (pktAt mem data).msgId = client.pendingId

instance (client : Client κ) (mem : Memory 32) (data : U32) :
    Decidable (Waits client mem data) := inferInstanceAs (Decidable (_ ∧ _))

/-- `client_cb`, and the end of the message. -/
def State.clientCb (w : Wiring σ ι) (s : State σ ι κ) (n : ℕ) (i : ι) (data : U32) :
    State σ ι κ :=
  let h := RpcWire.clientCb (s.clients i) s.cmds (Machine.of s.sys.mem) data
  { s with
    sys := { s.sys.exec w.pair w.side (.destroy data) with mem := h.m.mem }
    cmds := h.cmds
    completed :=
      if Waits (s.clients i) s.sys.mem data then s.completed ++ s.answered[n]?.toList
      else s.completed }

/-- A poll of the clients' core. -/
def State.pollClient (w : Wiring σ ι) (s : State σ ι κ) : State σ ι κ :=
  let t := { s with sys := s.sys.exec w.pair w.side .poll }
  match pollCalls s.sys w.side with
  | [] => t
  | k :: _ =>
      match w.clientAt k.rxCbData with
      | none => t
      | some i => t.clientCb w (s.sys.chan w.side.other).polled.length i k.msgData

inductive Label (ι κ : Type) where
  | write (p : κ) (c : CmdBlock)
  | store (x : U32) (v : U8)
  | call (i : ι) (p : κ)
  | pollServer
  | recv
  | exec
  | respond
  | pollClient

/-- Without an operating system a poll returns when the request is answered, and the task of
the server does one thing at a time. -/
inductive Step (w : Wiring σ ι) : State σ ι κ → Label ι κ → State σ ι κ → Prop
  | write {s : State σ ι κ} (p : κ) {c : CmdBlock} : w.FreeCmd c →
      Step w s (.write p c) { s with cmds := Function.update s.cmds p c }
  | store {s : State σ ι κ} {x : U32} (v : U8) : w.Free x →
      Step w s (.store x v) { s with sys := { s.sys with mem := write s.sys.mem x [v] } }
  | call {s : State σ ι κ} (i : ι) (p : κ) : Step w s (.call i p) (s.execute w i p)
  | pollServer {s : State σ ι κ} : (w.variant = .baremetal → s.task = .idle) →
      Step w s .pollServer (s.pollServer w)
  | recv {s : State σ ι κ} : s.task = .idle → Step w s .recv (s.recv w)
  | exec {s : State σ ι κ} {r : Digest} : s.task = .taken r → Step w s .exec (s.exec w r)
  | respond {s : State σ ι κ} {tag : ℕ} {clientAddr msgId cmdId : U16} {cmd : CmdBlock} :
      s.task = .executed tag clientAddr msgId cmdId cmd →
      Step w s .respond (s.respond w tag clientAddr msgId cmdId cmd)
  | pollClient {s : State σ ι κ} : Step w s .pollClient (s.pollClient w)

end Model

section Server
variable {σ ι κ : Type} {w : Wiring σ ι}

/-- What the application answers is in the command and in the response buffer. -/
structure Ready (w : Wiring σ ι) (mem : Memory 32) (out : U16 × List U8) (cmd : CmdBlock) :
    Prop where
  status : cmd.status = out.1
  respLen : cmd.respLen = BitVec.ofNat 16 out.2.length
  respData : cmd.respData = w.server.respBuf
  length_le : out.2.length ≤ w.server.respBufLen.toNat
  bytes : read mem w.server.respBuf out.2.length = out.2

theorem Ready.congr {mem mem' : Memory 32} {out : U16 × List U8} {cmd : CmdBlock}
    (h : Ready w mem out cmd)
    (hm : ∀ x, Within w.server.respBuf w.server.respBufLen.toNat x → mem' x = mem x) :
    Ready w mem' out cmd :=
  ⟨h.status, h.respLen, h.respData, h.length_le,
    (read_congr fun x hx => hm x (hx.mono h.length_le)).trans h.bytes⟩

/-- The part up to the handler: the request bytes that the server has room for. -/
theorem read_request (mem : Memory 32) (data : U32) :
    let n := requestLen w.server (word16 mem (data + 6#32))
    let copied := write mem w.server.reqBuf (read mem (data + 8#32) n.toNat)
    n ≤ w.server.reqBufLen ∧
      read copied w.server.reqBuf n.toNat =
        (pktAt mem data).msgData.take w.server.reqBufLen.toNat ∧
      ∀ x, ¬ Within w.server.reqBuf w.server.reqBufLen.toNat x → copied x = mem x := by
  intro n copied
  have hlt := n.isLt
  have hle : n.toNat ≤ w.server.reqBufLen.toNat := by
    simp only [n, requestLen, toNat_cutTo]
    exact min_le_left ..
  have hbytes : read mem (data + 8#32) n.toNat =
      (pktAt mem data).msgData.take w.server.reqBufLen.toNat := by
    rw [pktAt, take_read, ← toNat_cutTo]
    rfl
  have hread := read_write (m := mem) (a := w.server.reqBuf) (read mem (data + 8#32) n.toNat)
    (by rw [length_read]; omega)
  rw [length_read] at hread
  refine ⟨hle, hread.trans hbytes, fun x hx => write_of_not_within ?_⟩
  rw [length_read]
  exact mt (Within.mono hle) hx

theorem runHandler_of_missing {srv : List (Service σ)} {app : σ} {m : Machine} {cmd : CmdBlock}
    (hfound : findHandler cmd.cmdId srv = none) :
    (runHandler srv app m cmd).app = app ∧
      (runHandler srv app m cmd).cmd = { cmd with status := statusInvalidCmd, respLen := 1 } ∧
      (runHandler srv app m cmd).m.mem = write m.mem cmd.respData [0] := by
  rw [runHandler, hfound]
  exact ⟨rfl, rfl, rfl⟩

theorem runHandler_of_handler {srv : List (Service σ)} {app : σ} {m : Machine} {cmd : CmdBlock}
    {handler : Handler σ} (hfound : findHandler cmd.cmdId srv = some handler) :
    (runHandler srv app m cmd).app = (handler app m.mem cmd).1 ∧
      (runHandler srv app m cmd).cmd = (handler app m.mem cmd).2.2 ∧
      (runHandler srv app m cmd).m.mem = (handler app m.mem cmd).2.1 := by
  rw [runHandler, hfound]
  exact ⟨rfl, rfl, rfl⟩

theorem execCmd_answers (w : Wiring σ ι) (app : σ) (mem : Memory 32) (data : U32) :
    let req := pktAt mem data
    let r := execCmd w.server app (Machine.of mem) data
    r.1.app = (w.application.step app req).2 ∧ r.2 = (req.msgId, req.cmdId) ∧
      Ready w r.1.m.mem (w.application.step app req).1 r.1.cmd ∧
      ∀ x, ¬ Within w.server.reqBuf w.server.reqBufLen.toNat x →
        ¬ Within w.server.respBuf w.server.respBufLen.toNat x → r.1.m.mem x = mem x := by
  intro req r
  obtain ⟨hn, hread, hcopied⟩ := read_request (w := w) mem data
  set n := requestLen w.server (word16 mem (data + 6#32))
  set copied := write mem w.server.reqBuf (read mem (data + 8#32) n.toNat)
  cases hfound : findHandler req.cmdId w.server.srv with
  | none =>
      have hstep : w.application.step app req = ((statusInvalidCmd, [0]), app) :=
        if_neg (by simp [hfound])
      obtain ⟨happ, hcmd, hmem⟩ : r.1.app = app ∧
          r.1.cmd = { requestCmd w.server req.cmdId n with
            status := statusInvalidCmd, respLen := 1 } ∧
          r.1.m.mem = write copied w.server.respBuf [0] := runHandler_of_missing hfound
      have hpos : 1 ≤ w.server.respBufLen.toNat :=
        Nat.pos_of_ne_zero fun h => w.server.respBufLen_ne (BitVec.eq_of_toNat_eq h)
      rw [hstep]
      refine ⟨happ, rfl, ⟨by rw [hcmd], by rw [hcmd]; rfl, by rw [hcmd]; rfl, hpos, ?_⟩, ?_⟩
      · rw [hmem]
        exact read_write [0] (by decide)
      · intro x hreq hresp
        rw [hmem]
        exact (write_of_not_within (mt (Within.mono hpos) hresp)).trans (hcopied x hreq)
  | some handler =>
      have hserves := w.serves req.cmdId handler hfound
      have hstep : w.application.step app req =
          ((w.answer req.cmdId app (req.msgData.take w.server.reqBufLen.toNat)).2,
            (w.answer req.cmdId app (req.msgData.take w.server.reqBufLen.toNat)).1) :=
        if_pos (by simp [hfound])
      obtain ⟨happ, hcmd, hbytes, hframe⟩ := hserves.returns app copied req.cmdId n hn
      rw [hread] at happ hcmd hbytes
      obtain ⟨happ', hcmd', hmem'⟩ :
          r.1.app = (handler app copied (requestCmd w.server req.cmdId n)).1 ∧
          r.1.cmd = (handler app copied (requestCmd w.server req.cmdId n)).2.2 ∧
          r.1.m.mem = (handler app copied (requestCmd w.server req.cmdId n)).2.1 :=
        runHandler_of_handler hfound
      rw [hstep]
      refine ⟨happ'.trans happ, rfl, ⟨?_, ?_, ?_, hserves.length_le .., ?_⟩, ?_⟩
      · rw [hcmd', hcmd]
      · rw [hcmd', hcmd]
      · rw [hcmd', hcmd]
        rfl
      · rw [hmem']
        exact hbytes
      · intro x hreq hresp
        rw [hmem']
        exact (hframe x hreq hresp).trans (hcopied x hreq)

end Server

section Places
variable {σ ι κ : Type} {w : Wiring σ ι} {app₀ : σ}

/-- The requests that the server has taken and not executed. -/
def Task.digests : Task → List Digest
  | .taken r => [r]
  | .idle | .executed _ _ _ _ _ => []

/-- The request that is executed and not answered. -/
def Task.tags : Task → List ℕ
  | .executed tag _ _ _ _ => [tag]
  | .idle | .taken _ => []

def State.waiting (s : State σ ι κ) : List Digest := s.task.digests ++ s.queue

/-- The answer that the application gives to a request behind the ones served before it. -/
def Replied (w : Wiring σ ι) (app₀ : σ) (served : List (ℕ × Pkt)) (tag : ℕ)
    (out : U16 × List U8) : Prop :=
  ∃ before pkt after, served = before ++ (tag, pkt) :: after ∧
    out = (w.application.step (w.application.final app₀ (before.map Prod.snd)) pkt).1

theorem Replied.append {served : List (ℕ × Pkt)} {tag : ℕ} {out : U16 × List U8}
    (h : Replied w app₀ served tag out) (more : List (ℕ × Pkt)) :
    Replied w app₀ (served ++ more) tag out := by
  obtain ⟨before, pkt, after, hserved, hout⟩ := h
  refine ⟨before, pkt, after ++ more, ?_, hout⟩
  rw [hserved, List.append_assoc, List.cons_append]

/-- A message from the endpoint of a client to the server that shows the packet of a call. -/
structure IsRequest (w : Wiring σ ι) (msg : Msg) (c : Call ι κ) : Prop where
  dst : msg.dst = w.server.rpmsgEpt.addr
  src : msg.src = (w.clientEpt c.client).addr
  packet : Shows msg c.req

/-- A message to the endpoint of a client that shows the answer to its call. -/
def IsResponse (w : Wiring σ ι) (app₀ : σ) (calls : List (Call ι κ)) (served : List (ℕ × Pkt))
    (msg : Msg) (tag : ℕ) : Prop :=
  ∃ c out, calls[tag]? = some c ∧ Replied w app₀ served tag out ∧
    msg.dst = (w.clientEpt c.client).addr ∧
    Shows msg (response (w.pair.link w.side.other).itemSize c.req out)

theorem IsResponse.mono {calls : List (Call ι κ)} {served : List (ℕ × Pkt)} {msg : Msg} {tag : ℕ}
    (h : IsResponse w app₀ calls served msg tag) (calls' : List (Call ι κ))
    (served' : List (ℕ × Pkt)) :
    IsResponse w app₀ (calls ++ calls') (served ++ served') msg tag := by
  obtain ⟨c, out, hc, hout, hrest⟩ := h
  have hlt := (List.getElem?_eq_some_iff.mp hc).1
  exact ⟨c, out, (List.getElem?_append_left hlt).trans hc, hout.append served', hrest⟩

/-- The item of a request is held, and is as it was sent. -/
def Kept (c : RpmsgChannel.Chan) (r : Digest) : Prop :=
  ∃ msg, c.sent[r.tag]? = some msg ∧ r.clientAddr = msg.src ∧ ⟨r.pkt - 8#32, msg, false⟩ ∈ c.rxHeld

/-- What is known about a request that is executed. -/
def Executed (w : Wiring σ ι) (app₀ : σ) (s : State σ ι κ) (tag : ℕ)
    (clientAddr msgId cmdId : U16) (cmd : CmdBlock) : Prop :=
  ∃ c out, s.calls[tag]? = some c ∧ Replied w app₀ s.served tag out ∧
    clientAddr = (w.clientEpt c.client).addr ∧ msgId = c.req.msgId ∧ cmdId = c.req.cmdId ∧
    Ready w s.sys.mem out cmd

/-- A call is one of the calls of its client up to now, and the last one is pending. -/
structure IsCall (clients : ι → Client κ) (count : ι → ℕ) (c : Call ι κ) : Prop where
  number_le : c.number ≤ count c.client
  last : c.number = count c.client → (clients c.client).pendingCmd = some c.cmd
  msgId : c.req.msgId = BitVec.ofNat 16 c.number

/-- Requests and responses are in their channels in the order of the calls and of the
executions, every request that was polled is in one place, and the application has gone
through the requests served so far. -/
structure Inv (w : Wiring σ ι) (app₀ : σ) (s : State σ ι κ) : Prop where
  sys : SysInv w.pair s.sys
  serverEpts : (s.sys.chan w.side).epts = w.serverEpts
  clientEpts : (s.sys.chan w.side.other).epts = w.clientEpts
  cmds : ∀ p, w.FreeCmd (s.cmds p)
  requests : List.Forall₂ (IsRequest w) (s.sys.chan w.side).sent s.calls
  responses : List.Forall₂ (IsResponse w app₀ s.calls s.served) (s.sys.chan w.side.other).sent
    s.answered
  items : (s.waiting.map fun r => r.pkt - 8#32).Perm ((s.sys.chan w.side).rxHeld.map Held.buffer)
  kept : ∀ r ∈ s.waiting, Kept (s.sys.chan w.side) r
  returned : (s.sys.chan w.side.other).rxHeld = []
  queueless : w.variant = .baremetal → s.queue = []
  places : (s.answered ++ s.dropped ++ s.task.tags ++ s.waiting.map Digest.tag).Perm
    (List.range (s.sys.chan w.side).polled.length)
  order : (s.answered ++ s.task.tags ++ s.waiting.map Digest.tag).Pairwise (· < ·)
  served : ∀ e ∈ s.served, e.1 < (s.sys.chan w.side).polled.length ∧
    ∃ c, s.calls[e.1]? = some c ∧ c.req = e.2
  servedOrder : (s.served.map Prod.fst ++ s.waiting.map Digest.tag).Pairwise (· < ·)
  app : s.app = w.application.final app₀ (s.served.map Prod.snd)
  working : ∀ tag clientAddr msgId cmdId cmd,
    s.task = .executed tag clientAddr msgId cmdId cmd →
    Executed w app₀ s tag clientAddr msgId cmdId cmd
  clients : ∀ i, (s.clients i).running = true ∧
    (s.clients i).pendingId = BitVec.ofNat 16 (s.count i)
  calls : ∀ c ∈ s.calls, IsCall s.clients s.count c
  completed : s.completed.Sublist (s.answered.take (s.sys.chan w.side.other).polled.length)

theorem start_inv (mem : Memory 32) {cmds : κ → CmdBlock} (hcmds : ∀ p, w.FreeCmd (cmds p)) :
    Inv w app₀ (w.start mem cmds app₀) where
  sys d := by
    obtain ⟨t, ht⟩ := start_sysInv w.pair mem d
    exact ⟨t, ht.refines, ht.allocated, ht.received, ht.total, ht.created, ht.pending, ht.log,
      ht.intact⟩
  serverEpts := if_pos rfl
  clientEpts := if_neg (Side.other_ne w.side)
  cmds := hcmds
  requests := .nil
  responses := .nil
  items := .nil
  kept r hr := by cases hr
  returned := rfl
  queueless _ := rfl
  places := .nil
  order := .nil
  served e he := by cases he
  servedOrder := .nil
  app := rfl
  working tag clientAddr msgId cmdId cmd htask := by cases htask
  clients i := ⟨rfl, rfl⟩
  calls c hc := by cases hc
  completed := .slnil

end Places
end EspAmp.RpcSystem
