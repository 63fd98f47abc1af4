import EspAmp.Rpc
import EspAmp.RpmsgEndpoints

/-!
# Initialization of RPC clients and servers

Both calls check their configuration and register an endpoint that lies inside the
storage of the instance. The server then creates its request queue, which the
operating system may refuse. The instance is kept apart from its endpoint context,
which is a cell of the device; the addresses of the two receive callbacks are
parameters.
-/
namespace EspAmp.RpcInit
open ByteMemory Rpc RpmsgEndpoints
open Rpmsg (Ept)

/-- `esp_amp_rpc_server_cfg_t`; null pointers are zero. -/
structure ServerCfg where
  serverId : U16
  queueLen : U8
  srvTblLen : U8
  rpmsgDev : U32
  stg : U32
  reqBufLen : U16
  respBufLen : U16
  reqBuf : U32
  respBuf : U32
  srvTblStg : U32
deriving DecidableEq, Repr

/-- `esp_amp_rpc_server_inst_t` without its endpoint. -/
structure ServerInst where
  serverId : U16
  running : Bool
  srvTblLen : U8
  reqBufLen : U16
  respBufLen : U16
  reqBuf : U32
  respBuf : U32
  rpmsgDev : U32
  queue : U32
  srv : U32
deriving DecidableEq, Repr

/-- `esp_amp_rpc_client_cfg_t` -/
structure ClientCfg where
  clientId : U16
  serverId : U16
  rpmsgDev : U32
  stg : U32
  pollCb : U32
  pollArg : U32
deriving DecidableEq, Repr

/-- `esp_amp_rpc_client_inst_t` without its endpoint. -/
structure ClientInst where
  serverId : U16
  clientId : U16
  pendingId : U16
  running : Bool
  rpmsgDev : U32
  pendingCmd : U32
  pollCb : U32
  pollArg : U32
deriving DecidableEq, Repr

/-- The two implementations of `esp_amp_env.h`. -/
inductive Env where
  | freertos
  | baremetal
deriving DecidableEq, Repr

/-- `esp_amp_env_queue_create` with the answer of `xQueueCreate`: the result and the
queue variable. -/
def envQueueCreate (env : Env) (xQueueCreate old : U32) : Int × U32 :=
  match env with
  | .freertos => (if xQueueCreate = 0 then -1 else 0, xQueueCreate)
  | .baremetal => (0, old)

/-- The returned handle, the device, and what else a server initialization writes:
the defaulted length in its configuration, the instance and the service table. -/
structure ServerResult where
  handle : U32
  dev : Dev
  cfg : Option ServerCfg
  inst : ServerInst
  srvTbl : List (U16 × U32)

structure ClientResult where
  handle : U32
  dev : Dev
  inst : ClientInst

/-- `&server_inst->rpmsg_ept` and `&client_inst->rpmsg_ept`. -/
def serverEpt (stg : U32) : U32 := stg + 20#32
def clientEpt (stg : U32) : U32 := stg + 12#32

/-- The configuration passes the checks of `esp_amp_rpc_server_init`. -/
def ServerCfg.valid (cfg : ServerCfg) : Bool :=
  !(cfg.stg = 0 || cfg.rpmsgDev = 0) &&
    !(cfg.reqBufLen = 0 || cfg.respBufLen = 0 || cfg.reqBuf = 0 || cfg.respBuf = 0) &&
    !(cfg.srvTblLen = 0 || cfg.srvTblStg = 0)

/-- The part of `esp_amp_rpc_server_init` behind the registration: the default length,
the cleared table, the queue and the fields of the instance. -/
def startServer (env : Env) (xQueueCreate : U32) (d : Dev) (inst : ServerInst)
    (cfg : ServerCfg) : ServerResult :=
  let cfg := { cfg with queueLen := if cfg.queueLen = 0 then 4 else cfg.queueLen }
  let srvTbl := List.replicate cfg.srvTblLen.toNat (0, 0)
  let (ret, queue) := envQueueCreate env xQueueCreate inst.queue
  if ret ≠ 0 then ⟨0, d, some cfg, { inst with queue := queue }, srvTbl⟩
  else
    ⟨cfg.stg, d, some cfg,
      ⟨cfg.serverId, true, cfg.srvTblLen, cfg.reqBufLen, cfg.respBufLen, cfg.reqBuf,
        cfg.respBuf, cfg.rpmsgDev, queue, cfg.srvTblStg⟩, srvTbl⟩

/-- `esp_amp_rpc_server_init`. -/
def serverInit (fuel : ℕ) (env : Env) (serverCb xQueueCreate : U32) (d : Dev) (inst : ServerInst)
    (srvTbl : List (U16 × U32)) : Option ServerCfg → Option ServerResult
  | none => some ⟨0, d, none, inst, srvTbl⟩
  | some cfg =>
      if !cfg.valid then some ⟨0, d, some cfg, inst, srvTbl⟩
      else
        (createEndpoint fuel d cfg.serverId (some serverCb) cfg.stg (serverEpt cfg.stg)).map
          fun (ept, d) =>
            if ept = 0 then ⟨0, d, some cfg, inst, srvTbl⟩
            else startServer env xQueueCreate d inst cfg

/-- `esp_amp_rpc_client_init`. -/
def clientInit (fuel : ℕ) (clientCb : U32) (d : Dev) (inst : ClientInst) :
    Option ClientCfg → Option ClientResult
  | none => some ⟨0, d, inst⟩
  | some cfg =>
      if cfg.stg = 0 || cfg.rpmsgDev = 0 then some ⟨0, d, inst⟩
      else
        (createEndpoint fuel d cfg.clientId (some clientCb) cfg.stg (clientEpt cfg.stg)).map
          fun (ept, d) =>
            if ept = 0 then ⟨0, d, inst⟩
            else
              ⟨cfg.stg, d,
                ⟨cfg.serverId, cfg.clientId, 0, true, cfg.rpmsgDev, 0, cfg.pollCb, cfg.pollArg⟩⟩

/-- The server registers its endpoint and is then refused its queue. -/
def QueueRefused (env : Env) (xQueueCreate : U32) (l : List Ept) (cfg : Option ServerCfg) : Prop :=
  ∃ c, cfg = some c ∧ c.valid = true ∧ serverEpt c.stg ≠ 0 ∧ (∀ e ∈ l, e.addr ≠ c.serverId) ∧
    env = .freertos ∧ xQueueCreate = 0

section Creation
variable {d : Dev} {l : List Ept} {fuel : ℕ}

/-- A creation on a represented list is refused without a write, or it links the new
context in front. -/
theorem createEndpoint_cases (h : Represents d l) (hfuel : l.length < fuel) (e : Ept) :
    (¬ (e.ctx ≠ 0 ∧ ∀ f ∈ l, f.addr ≠ e.addr) ∧
      createEndpoint fuel d e.addr e.rxCb e.rxCbData e.ctx = some (0, d)) ∨
    ((e.ctx ≠ 0 ∧ ∀ f ∈ l, f.addr ≠ e.addr) ∧
      createEndpoint fuel d e.addr e.rxCb e.rxCbData e.ctx =
        some (e.ctx, insertEndpoint d e)) := by
  by_cases hctx : e.ctx = 0
  · left
    refine ⟨fun hc => hc.1 hctx, ?_⟩
    rw [createEndpoint, if_pos hctx]
  · by_cases ha : ∀ f ∈ l, f.addr ≠ e.addr
    · exact Or.inr ⟨⟨hctx, ha⟩, createEndpoint_of_absent h hfuel hctx ha⟩
    · left
      refine ⟨fun hc => ha hc.2, ?_⟩
      push Not at ha
      obtain ⟨f, hf, hfe⟩ := ha
      exact createEndpoint_of_mem h hfuel hf hfe

/-- After an insertion the list is not the one it was, even when the context had been
linked before. -/
theorem not_represents_insert {e : Ept} (hctx : e.ctx ≠ 0) (ha : ∀ f ∈ l, f.addr ≠ e.addr) :
    ¬ Represents (insertEndpoint d e) l := by
  intro h
  have hin : InList (insertEndpoint d e) e.ctx :=
    ⟨hctx, [], rfl, List.not_mem_nil⟩
  obtain ⟨f, hf, hfe⟩ := List.mem_map.mp (h.inList_iff.mp hin)
  have haddr := h.addr_eq hf
  rw [hfe] at haddr
  refine ha f hf (haddr.symm.trans ?_)
  simp [insertEndpoint]

end Creation

section Calls
variable {d : Dev} {l : List Ept} {fuel : ℕ}

theorem startServer_eq (env : Env) (xQueueCreate : U32) (inst : ServerInst) {cfg : ServerCfg}
    (hstg : cfg.stg ≠ 0) : (startServer env xQueueCreate d inst cfg).dev = d ∧
      ((startServer env xQueueCreate d inst cfg).handle = 0 ↔
        env = .freertos ∧ xQueueCreate = 0) := by
  have hstg' : cfg.stg ≠ 0#32 := hstg
  cases env with
  | baremetal => simp [startServer, envQueueCreate, hstg']
  | freertos =>
      by_cases hx : xQueueCreate = 0#32
      · simp [startServer, envQueueCreate, hx]
      · simp [startServer, envQueueCreate, hx, hstg']

theorem serverInit_iff (h : Represents d l) (hfuel : l.length < fuel) (env : Env)
    (serverCb xQueueCreate : U32) (inst : ServerInst) (srvTbl : List (U16 × U32))
    (cfg : Option ServerCfg) :
    ∃ res, serverInit fuel env serverCb xQueueCreate d inst srvTbl cfg = some res ∧
      ((res.handle = 0 → Represents res.dev l) ↔ ¬ QueueRefused env xQueueCreate l cfg) := by
  cases cfg with
  | none => exact ⟨_, rfl, iff_of_true (fun _ => h) fun ⟨c, hc, _⟩ => by cases hc⟩
  | some cfg =>
      have hrefused : QueueRefused env xQueueCreate l (some cfg) ↔ cfg.valid = true ∧
          (serverEpt cfg.stg ≠ 0 ∧ ∀ e ∈ l, e.addr ≠ cfg.serverId) ∧
            env = .freertos ∧ xQueueCreate = 0 := by
        simp [QueueRefused, and_assoc]
      rw [hrefused, serverInit]
      by_cases hvalid : cfg.valid = true
      · rw [if_neg (by simp [hvalid])]
        rcases createEndpoint_cases h hfuel
          ⟨serverEpt cfg.stg, cfg.serverId, some serverCb, cfg.stg⟩ with ⟨hno, heq⟩ | ⟨hyes, heq⟩
        · simp only at hno heq
          rw [heq]
          exact ⟨_, rfl, iff_of_true (fun _ => h) fun hc => hno hc.2.1⟩
        · simp only at hyes heq
          rw [heq]
          simp only [Option.map_some, if_neg hyes.1]
          have hstg : cfg.stg ≠ 0 := by
            intro hz
            simp [ServerCfg.valid, hz] at hvalid
          have hnot := not_represents_insert (d := d)
            (e := ⟨serverEpt cfg.stg, cfg.serverId, some serverCb, cfg.stg⟩) hyes.1 hyes.2
          obtain ⟨hdev, hhandle⟩ := startServer_eq (d := insertEndpoint d
            ⟨serverEpt cfg.stg, cfg.serverId, some serverCb, cfg.stg⟩) env xQueueCreate inst hstg
          refine ⟨_, rfl, ?_⟩
          rw [hdev, hhandle]
          constructor
          · exact fun hkeep hc => hnot (hkeep hc.2.2)
          · exact fun hc hnull => absurd ⟨hvalid, hyes, hnull⟩ hc
      · rw [if_pos (by simpa using hvalid)]
        exact ⟨_, rfl, iff_of_true (fun _ => h) fun hc => hvalid hc.1⟩

theorem clientInit_unchanged (h : Represents d l) (hfuel : l.length < fuel) (clientCb : U32)
    (inst : ClientInst) (cfg : Option ClientCfg) :
    ∃ res, clientInit fuel clientCb d inst cfg = some res ∧
      (res.handle = 0 → Represents res.dev l) := by
  cases cfg with
  | none => exact ⟨_, rfl, fun _ => h⟩
  | some cfg =>
      rw [clientInit]
      split_ifs with hnull
      · exact ⟨_, rfl, fun _ => h⟩
      · rcases createEndpoint_cases h hfuel
          ⟨clientEpt cfg.stg, cfg.clientId, some clientCb, cfg.stg⟩ with ⟨-, heq⟩ | ⟨hyes, heq⟩
        · simp only at heq
          rw [heq]
          exact ⟨_, rfl, fun _ => h⟩
        · simp only at hyes heq
          rw [heq]
          simp only [Option.map_some, if_neg hyes.1]
          refine ⟨_, rfl, fun hz => ?_⟩
          simp only at hz
          simp [hz] at hnull

end Calls

/-- A failed server initialization leaves the endpoint list as it was exactly when it
is not the one that has registered its endpoint and is then refused a queue. A failed
client initialization always does. -/
theorem failed_rpc_init_registers_nothing_iff {d : Dev} {l : List Ept} (h : Represents d l)
    (fuel : ℕ) (hfuel : l.length < fuel) :
    (∀ env serverCb xQueueCreate inst srvTbl cfg, ∃ res,
      serverInit fuel env serverCb xQueueCreate d inst srvTbl cfg = some res ∧
      ((res.handle = 0 → Represents res.dev l) ↔ ¬ QueueRefused env xQueueCreate l cfg)) ∧
    ∀ clientCb inst cfg, ∃ res, clientInit fuel clientCb d inst cfg = some res ∧
      (res.handle = 0 → Represents res.dev l) :=
  ⟨serverInit_iff h hfuel, clientInit_unchanged h hfuel⟩

def emptyDev : Dev := ⟨fun _ => ⟨none, 0, 0, 0⟩, 0⟩

def plainServer : ServerCfg := ⟨5, 0, 2, 0x3ffb0000, 0x3ffb1000, 64, 64, 0x3ffb2000, 0x3ffb3000,
  0x3ffb4000⟩

def clearedServer : ServerInst := ⟨0, false, 0, 0, 0, 0, 0, 0, 0, 0⟩

/-- A server whose queue is refused stays registered, and its retry is refused
although a queue would be available. -/
theorem refused_server_stays_registered : ∃ res,
    serverInit 2 .freertos 0x42000100 0 emptyDev clearedServer [] (some plainServer) = some res ∧
      res.handle = 0 ∧ ¬ Represents res.dev [] ∧
      searchEndpoint 2 res.dev plainServer.serverId = some (serverEpt plainServer.stg) ∧
      (serverInit 2 .freertos 0x42000100 0x3ffb5000 res.dev clearedServer []
        (some plainServer)).map ServerResult.handle = some 0 := by
  have hrep : Represents emptyDev [] := Represents.start _
  obtain ⟨res, hres, hiff⟩ := serverInit_iff hrep (by decide : 0 < 2) .freertos 0x42000100 0
    clearedServer [] (some plainServer)
  have hchanged : ¬ (res.handle = 0 → Represents res.dev []) := by
    rw [hiff, not_not]
    exact ⟨plainServer, rfl, by decide, by decide, by simp, rfl, rfl⟩
  rw [Classical.not_imp] at hchanged
  refine ⟨res, hres, hchanged.1, hchanged.2, ?_⟩
  obtain rfl := Option.some.inj hres
  exact ⟨by decide, by decide⟩

/-- On a bare-metal subcore the same server is initialized. -/
theorem baremetal_server_registers : ∃ res,
    serverInit 2 .baremetal 0x42000100 0 emptyDev clearedServer [] (some plainServer) = some res ∧
      (res.handle = 0 → Represents res.dev []) ∧ res.handle = 0x3ffb1000 := by
  obtain ⟨res, hres, hiff⟩ := (failed_rpc_init_registers_nothing_iff
    (Represents.start fun _ => ⟨none, 0, 0, 0⟩) 2 (by decide)).1 .baremetal 0x42000100 0
    clearedServer [] (some plainServer)
  have hkeep := hiff.mpr fun ⟨_, _, _, _, _, henv, _⟩ => by cases henv
  obtain ⟨res', hres', hhandle⟩ : ∃ res, serverInit 2 .baremetal 0x42000100 0 emptyDev clearedServer
      [] (some plainServer) = some res ∧ res.handle = 0x3ffb1000 := ⟨_, rfl, rfl⟩
  obtain rfl := Option.some.inj (hres.symm.trans hres')
  exact ⟨res, hres, hkeep, hhandle⟩

end EspAmp.RpcInit
