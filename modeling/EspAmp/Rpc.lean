import EspAmp.ByteMemory
import Mathlib.Data.List.Perm.Basic

/-!
# Remote procedure calls

The client and the server of one service, as functions on packets. The response
buffer, the request buffer and the buffers of a command are lists of bytes, a null
pointer is `none`, and an application handler is an arbitrary function on a command
and on a state of its own. Whether the transport has a free buffer is an argument
of the functions that ask for one.
-/
namespace EspAmp.Rpc
open ByteMemory

def rpcOk : Int := 0
def rpcFail : Int := -1
def errInvalidArg : Int := -2
def errInvalidSize : Int := -3
def errNoMem : Int := -4
def errInvalidState : Int := -8

def statusServerBusy : U16 := 0xffff
def statusInvalidCmd : U16 := 0xfffe
def statusPending : U16 := 0xfffc

/-- `esp_amp_rpc_pkt_t`, with the bytes behind its header. -/
structure Pkt where
  msgId : U16
  cmdId : U16
  status : U16
  msgLen : U16
  msgData : List U8
deriving DecidableEq, Repr

/-- `sizeof(esp_amp_rpc_pkt_t)` -/
def pktSize : U16 := 8

/-- `esp_amp_rpc_cmd_t` -/
structure Cmd where
  cmdId : U16
  status : U16
  reqLen : U16
  respLen : U16
  reqData : List U8
  respData : Option (List U8)
  cb : Option U32
  cbArg : U32
deriving DecidableEq, Repr

/-- `memcpy` of `n` bytes to the start of a buffer. -/
def copyOver (dst src : List U8) (n : ℕ) : List U8 := src.take n ++ dst.drop n

/-- The queues of FreeRTOS, each as the list of its entries, the oldest first. The kernel
is a parameter of the server, and the fields about its calls are what the server relies on:
a call without waiting passes when there is room, or an entry, for it. -/
structure FreeRtos where
  xQueueSend {α : Type} : ℕ → List α → α → Bool × List α
  xQueueReceive {α : Type} : List α → Option (α × List α)
  send_of_room {α : Type} {len : ℕ} {queue : List α} (x : α) (h : queue.length < len) :
    xQueueSend len queue x = (true, queue ++ [x])
  send_of_full {α : Type} {len : ℕ} {queue : List α} (x : α) (h : ¬ queue.length < len) :
    xQueueSend len queue x = (false, queue)
  receive_nil {α : Type} : xQueueReceive ([] : List α) = none
  receive_cons {α : Type} (x : α) (queue : List α) :
    xQueueReceive (x :: queue) = some (x, queue)

/-- A kernel that keeps these promises. -/
def fifoKernel : FreeRtos where
  xQueueSend len queue x :=
    if queue.length < len then (true, queue ++ [x]) else (false, queue)
  xQueueReceive queue := queue.head?.map fun x => (x, queue.tail)
  send_of_room _ h := if_pos h
  send_of_full _ h := if_neg h
  receive_nil := rfl
  receive_cons _ _ := rfl

section Queue
variable {α : Type}

/-- `esp_amp_env_queue_send` without waiting. -/
def envQueueSend (os : FreeRtos) (len : ℕ) (queue : List α) (x : α) : Int × List α :=
  let sent := os.xQueueSend len queue x
  (if sent.1 then 0 else -1, sent.2)

/-- `esp_amp_env_queue_recv`; `none` when nothing came until the timeout. -/
def envQueueRecv (os : FreeRtos) (queue : List α) : Option (α × List α) :=
  os.xQueueReceive queue

/-- The length with which `esp_amp_rpc_server_init` creates the queue. -/
def serverQueueLen (queueLen : U8) : ℕ := if queueLen = 0 then 4 else queueLen.toNat

theorem serverQueueLen_pos (queueLen : U8) : 0 < serverQueueLen queueLen := by
  unfold serverQueueLen
  split_ifs with h
  · decide
  · bv_omega

theorem envQueueSend_of_room (os : FreeRtos) {len : ℕ} {queue : List α} (x : α)
    (h : queue.length < len) : envQueueSend os len queue x = (0, queue ++ [x]) := by
  rw [envQueueSend, os.send_of_room x h]
  rfl

theorem envQueueSend_of_full (os : FreeRtos) {len : ℕ} {queue : List α} (x : α)
    (h : ¬ queue.length < len) : envQueueSend os len queue x = (-1, queue) := by
  rw [envQueueSend, os.send_of_full x h]
  rfl

@[simp] theorem envQueueRecv_nil (os : FreeRtos) :
    envQueueRecv os ([] : List α) = none := os.receive_nil

@[simp] theorem envQueueRecv_cons (os : FreeRtos) (x : α) (queue : List α) :
    envQueueRecv os (x :: queue) = some (x, queue) := os.receive_cons x queue

/-- One entry leaves a list. -/
theorem perm_eraseIdx {l : List α} {k : ℕ} {x : α} (h : l[k]? = some x) :
    l.Perm (x :: l.eraseIdx k) := by
  obtain ⟨hk, rfl⟩ := List.getElem?_eq_some_iff.mp h
  exact (List.getElem_cons_eraseIdx_perm hk).symm

end Queue

section Server
variable {σ : Type}

/-- A command handler, over the state `σ` of the application. -/
abbrev Handler (σ : Type) := σ → Cmd → σ × Cmd

/-- `esp_amp_rpc_service_t` -/
structure Service (σ : Type) where
  cmdId : U16
  handler : Option (Handler σ)

/-- `esp_amp_rpc_server_inst_t`, as far as requests depend on it. -/
structure Server (σ : Type) where
  reqBufLen : U16
  respBufLen : U16
  reqBuf : List U8
  respBuf : List U8
  srv : List (Service σ)

/-- The search of `exec_cmd_and_send` in the service table. -/
def findHandler (cmdId : U16) : List (Service σ) → Option (Handler σ)
  | [] => none
  | e :: srv => if e.handler.isSome ∧ e.cmdId = cmdId then e.handler else findHandler cmdId srv

/-- The request is copied as far as the request buffer reaches. -/
def requestCmd (server : Server σ) (req : Pkt) : Cmd :=
  let reqBufLen := if server.reqBufLen < req.msgLen then server.reqBufLen else req.msgLen
  { cmdId := req.cmdId
    status := statusPending
    reqLen := reqBufLen
    respLen := server.respBufLen
    reqData := copyOver server.reqBuf req.msgData reqBufLen.toNat
    respData := some server.respBuf
    cb := none
    cbArg := 0 }

def execHandler (srv : List (Service σ)) (app : σ) (cmd : Cmd) : σ × Cmd :=
  match findHandler cmd.cmdId srv with
  | none => (app, { cmd with
      status := statusInvalidCmd
      respLen := 1
      respData := cmd.respData.map fun buf => buf.set 0 0 })
  | some handler => handler app cmd

/-- The response is cut off to fit in a transmit buffer. -/
def responsePkt (maxSize : U16) (req : Pkt) (cmd : Cmd) : Pkt :=
  let msgMaxLen := maxSize - pktSize
  let msgLen := if msgMaxLen < cmd.respLen then msgMaxLen else cmd.respLen
  { msgId := req.msgId
    cmdId := req.cmdId
    status := cmd.status
    msgLen := msgLen
    msgData := (cmd.respData.getD []).take msgLen.toNat }

/-- `exec_cmd_and_send`; `created` says whether a transmit buffer was free. -/
def execCmdAndSend (maxSize : U16) (created : Bool) (server : Server σ) (app : σ) (req : Pkt) :
    (Server σ × σ) × Option Pkt :=
  let r := execHandler server.srv app (requestCmd server req)
  (({ server with reqBuf := r.2.reqData, respBuf := r.2.respData.getD server.respBuf }, r.1),
    if 0 < r.2.respLen ∧ created = true then some (responsePkt maxSize req r.2) else none)

/-- A response carries the ids of its request. -/
theorem execCmdAndSend_ids {maxSize : U16} {created : Bool} {server : Server σ} {app : σ}
    {req resp : Pkt} (h : (execCmdAndSend maxSize created server app req).2 = some resp) :
    resp.msgId = req.msgId ∧ resp.cmdId = req.cmdId := by
  simp only [execCmdAndSend] at h
  split_ifs at h with hsend
  cases h
  exact ⟨rfl, rfl⟩

end Server

section Client
variable {κ : Type}

/-- `esp_amp_rpc_client_inst_t`; commands are pointed to by `κ`. -/
structure Client (κ : Type) where
  running : Bool
  pendingId : U16
  pendingCmd : Option κ
deriving DecidableEq, Repr

/-- A client after `esp_amp_rpc_client_init`. -/
def Client.init : Client κ := ⟨true, 0, none⟩

/-- What `client_cb` stores in the pending command. -/
def Cmd.complete (cmd : Cmd) (resp : Pkt) : Cmd :=
  { cmd with
    status := resp.status
    respData :=
      if 0 < resp.msgLen then
        cmd.respData.map fun buf => copyOver buf resp.msgData
          (if cmd.respLen < resp.msgLen then cmd.respLen else resp.msgLen).toNat
      else cmd.respData }

/-- The outcome of `client_cb`: its return value, the commands, the one whose status
and response it has written and the one whose callback it has called. -/
structure Handled (κ : Type) where
  ret : Int
  cmds : κ → Cmd
  written : Option κ
  called : Option κ

/-- `client_cb` -/
def clientCb [DecidableEq κ] (client : Client κ) (cmds : κ → Cmd) (resp : Pkt) : Handled κ :=
  if client.running = false then ⟨rpcFail, cmds, none, none⟩ else
    match client.pendingCmd with
    | none => ⟨rpcOk, cmds, none, none⟩
    | some p =>
        if resp.msgId = client.pendingId then
          ⟨rpcOk, Function.update cmds p ((cmds p).complete resp), some p,
            if (cmds p).cb.isSome then some p else none⟩
        else ⟨rpcOk, cmds, none, none⟩

/-- Either nothing is changed, or the response has the pending id and its command is
the only one that is. -/
theorem clientCb_cases [DecidableEq κ] (client : Client κ) (cmds : κ → Cmd) (resp : Pkt) :
    ((clientCb client cmds resp).cmds = cmds ∧ (clientCb client cmds resp).written = none ∧
        (clientCb client cmds resp).called = none) ∨
      ∃ p, resp.msgId = client.pendingId ∧ client.pendingCmd = some p ∧
        (clientCb client cmds resp).cmds = Function.update cmds p ((cmds p).complete resp) ∧
        (clientCb client cmds resp).written = some p ∧
        ((clientCb client cmds resp).called = none ∨
          (clientCb client cmds resp).called = some p) := by
  by_cases hrun : client.running = false
  · simp only [clientCb, if_pos hrun]
    exact Or.inl ⟨trivial, trivial, trivial⟩
  · cases hp : client.pendingCmd with
    | none =>
        simp only [clientCb, if_neg hrun, hp]
        exact Or.inl ⟨trivial, trivial, trivial⟩
    | some p =>
        by_cases hid : resp.msgId = client.pendingId
        · simp only [clientCb, if_neg hrun, hp, if_pos hid]
          refine Or.inr ⟨p, hid, rfl, rfl, rfl, ?_⟩
          split_ifs with hcb
          · exact Or.inr rfl
          · exact Or.inl rfl
        · simp only [clientCb, if_neg hrun, hp, if_neg hid]
          exact Or.inl ⟨trivial, trivial, trivial⟩

/-- The error that `esp_amp_rpc_client_execute_cmd` returns before it changes the
client, if any. -/
def Client.refuses (client : Client κ) (cmd : Cmd) (maxSize : U16) (created : Bool) : Option Int :=
  if client.running = false then some errInvalidState
  else if 0xffff - pktSize < cmd.reqLen then some errInvalidSize
  else if created = false then
    some (if maxSize < cmd.reqLen + pktSize then errInvalidSize else errNoMem)
  else none

/-- A new id is taken. -/
def Client.bump (client : Client κ) : Client κ :=
  { client with pendingId := client.pendingId + 1 }

/-- The command is kept for its response. -/
def Client.track (client : Client κ) (p : κ) : Client κ := { client with pendingCmd := some p }

/-- The packet of a command, with the id that was taken for it. -/
def requestPkt (cmd : Cmd) (msgId : U16) : Pkt :=
  { msgId := msgId
    cmdId := cmd.cmdId
    status := statusPending
    msgLen := cmd.reqLen
    msgData := cmd.reqData.take cmd.reqLen.toNat }

def Cmd.setPending (cmd : Cmd) : Cmd := { cmd with status := statusPending }

/-- The outcome of a call: its return value, the client, the commands and the packet
that was sent. -/
structure Called (κ : Type) where
  ret : Int
  client : Client κ
  cmds : κ → Cmd
  sent : Option Pkt

/-- `esp_amp_rpc_client_execute_cmd` -/
def executeCmd [DecidableEq κ] (client : Client κ) (cmds : κ → Cmd) (cmd : Option κ)
    (maxSize : U16) (created : Bool) : Called κ :=
  match cmd with
  | none => ⟨errInvalidArg, client, cmds, none⟩
  | some p =>
      match client.refuses (cmds p) maxSize created with
      | some err =>
          ⟨err, client,
            if client.running then Function.update cmds p (cmds p).setPending else cmds, none⟩
      | none =>
          ⟨rpcOk, client.bump.track p, Function.update cmds p (cmds p).setPending,
            some (requestPkt (cmds p) client.bump.pendingId)⟩

/-- A call that returns an error leaves its client as it was. -/
theorem executeCmd_client_of_error [DecidableEq κ] {client : Client κ} {cmds : κ → Cmd}
    {cmd : Option κ} {maxSize : U16} {created : Bool}
    (h : (executeCmd client cmds cmd maxSize created).ret ≠ rpcOk) :
    (executeCmd client cmds cmd maxSize created).client = client := by
  unfold executeCmd at h ⊢
  cases cmd with
  | none => rfl
  | some p =>
      cases hr : client.refuses (cmds p) maxSize created with
      | none =>
          simp only [hr] at h
          exact absurd rfl h
      | some err => simp only [hr]

end Client

end EspAmp.Rpc
