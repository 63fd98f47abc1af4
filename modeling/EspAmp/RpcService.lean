import EspAmp.Rpc

/-!
# Answering requests

A running server in either variant: requests reach `server_cb` at any time, wait in
the queue of the server or are executed in place, and are answered when their
execution ends. Requests carry a tag that no code reads. A second state keeps, next
to the server, every request that was delivered, every call of a handler and every
response that was sent.
-/
namespace EspAmp.RpcService
open ByteMemory Rpc

/-- The two builds of `server_cb`; one of them runs on FreeRTOS. -/
inductive Variant where
  | baremetal
  | freertos (os : FreeRtos) (queueLen : U8)

structure Request (τ : Type) where
  tag : τ
  clientAddr : U16
  pkt : Pkt
deriving DecidableEq, Repr

structure Response (τ : Type) where
  tag : τ
  dstAddr : U16
  pkt : Pkt
deriving DecidableEq, Repr

/-- A server, the state of its application, the requests in its queue and the
requests that are being executed. -/
structure Serving (σ τ : Type) where
  server : Server σ
  app : σ
  queue : List (Request τ)
  working : List (Request τ)

section Serving
variable {σ τ : Type}

/-- There is room for a request that is delivered now. -/
def Room (v : Variant) (s : Serving σ τ) : Prop :=
  match v with
  | .baremetal => True
  | .freertos _ queueLen => s.queue.length < serverQueueLen queueLen

instance : (v : Variant) → (s : Serving σ τ) → Decidable (Room v s)
  | .baremetal, _ => inferInstanceAs (Decidable True)
  | .freertos _ queueLen, s =>
      inferInstanceAs (Decidable (s.queue.length < serverQueueLen queueLen))

/-- `server_cb` of a running server. A request that the queue does not take is
destroyed. -/
def serverCb (v : Variant) (s : Serving σ τ) (r : Request τ) : Serving σ τ :=
  match v with
  | .baremetal => { s with working := r :: s.working }
  | .freertos os queueLen =>
      { s with queue := (envQueueSend os (serverQueueLen queueLen) s.queue r).2 }

/-- `esp_amp_rpc_server_run` receives a request; the other build has neither the function
nor a queue. -/
def serverRecv (v : Variant) (s : Serving σ τ) : Serving σ τ :=
  match v with
  | .baremetal => s
  | .freertos os _ =>
      match envQueueRecv os s.queue with
      | none => s
      | some (r, queue) => { s with queue := queue, working := r :: s.working }

/-- The execution of a request ends. -/
def serverExec (maxSize : U16) (created : Bool) (s : Serving σ τ) (k : ℕ) (r : Request τ) :
    Serving σ τ × Option (Response τ) :=
  let e := execCmdAndSend maxSize created s.server s.app r.pkt
  ({ s with server := e.1.1, app := e.1.2, working := s.working.eraseIdx k },
    e.2.map fun pkt => ⟨r.tag, r.clientAddr, pkt⟩)

/-- Requests that wait or are being executed. -/
def Serving.waiting (s : Serving σ τ) : List (Request τ) := s.queue ++ s.working

theorem serverCb_of_room {v : Variant} {s : Serving σ τ} (r : Request τ) (h : Room v s) :
    (serverCb v s r).waiting.Perm (r :: s.waiting) := by
  cases v with
  | baremetal => exact List.perm_middle
  | freertos os queueLen =>
      simp only [serverCb, envQueueSend_of_room os r h, Serving.waiting]
      rw [List.append_assoc]
      exact List.perm_middle

theorem serverCb_of_full {v : Variant} {s : Serving σ τ} (r : Request τ) (h : ¬ Room v s) :
    serverCb v s r = s := by
  cases v with
  | baremetal => exact absurd trivial h
  | freertos os queueLen => simp only [serverCb, envQueueSend_of_full os r h]

theorem serverCb_server (v : Variant) (s : Serving σ τ) (r : Request τ) :
    (serverCb v s r).server = s.server := by
  cases v <;> rfl

/-- What `esp_amp_rpc_server_run` receives. -/
theorem serverRecv_cases (v : Variant) (s : Serving σ τ) :
    (serverRecv v s = s ∧ (v = .baremetal ∨ s.queue = [])) ∨
    ∃ r queue, s.queue = r :: queue ∧
      serverRecv v s = { s with queue := queue, working := r :: s.working } := by
  cases v with
  | baremetal => exact Or.inl ⟨rfl, Or.inl rfl⟩
  | freertos os queueLen =>
      cases hq : s.queue with
      | nil => exact Or.inl ⟨by simp [serverRecv, hq], Or.inr rfl⟩
      | cons r queue => exact Or.inr ⟨r, queue, rfl, by simp [serverRecv, hq]⟩

theorem serverRecv_waiting (v : Variant) (s : Serving σ τ) :
    (serverRecv v s).waiting.Perm s.waiting := by
  rcases serverRecv_cases v s with ⟨heq, -⟩ | ⟨r, queue, hq, heq⟩
  · rw [heq]
  · rw [heq, Serving.waiting, Serving.waiting, hq]
    exact List.perm_middle

theorem serverRecv_server (v : Variant) (s : Serving σ τ) : (serverRecv v s).server = s.server := by
  rcases serverRecv_cases v s with ⟨heq, -⟩ | ⟨r, queue, -, heq⟩ <;> rw [heq]

theorem serverExec_waiting (maxSize : U16) (created : Bool) {s : Serving σ τ} {k : ℕ}
    {r : Request τ} (hr : s.working[k]? = some r) :
    s.waiting.Perm (r :: (serverExec maxSize created s k r).1.waiting) :=
  ((perm_eraseIdx hr).append_left s.queue).trans List.perm_middle

end Serving

/-- The server with its history. `calls` lists, for every execution, the request with
the state of the application and the command that its handler was given. `full` lists
the requests that found no room and `starved` the ones for whose response no transmit
buffer was free. -/
structure State (σ : Type) where
  serving : Serving σ ℕ
  delivered : List (Request ℕ)
  full : List ℕ
  calls : List (ℕ × σ × Cmd)
  starved : List ℕ
  sent : List (Response ℕ)

inductive Op where
  | deliver (clientAddr : U16) (pkt : Pkt)
  | recv
  | finish (k : ℕ) (created : Bool)
deriving DecidableEq, Repr

variable {σ : Type}

def State.start (server : Server σ) (app : σ) : State σ :=
  ⟨⟨server, app, [], []⟩, [], [], [], [], []⟩

/-- The request that is delivered next. -/
def State.request (s : State σ) (clientAddr : U16) (pkt : Pkt) : Request ℕ :=
  ⟨s.delivered.length, clientAddr, pkt⟩

/-- What ends with the execution of a request. -/
def finish (maxSize : U16) (created : Bool) (s : State σ) (k : ℕ) (r : Request ℕ) : State σ :=
  let cmd := requestCmd s.serving.server r.pkt
  let e := serverExec maxSize created s.serving k r
  { s with
    serving := e.1
    calls := (r.tag, s.serving.app, cmd) :: s.calls
    starved :=
      if 0 < (execHandler s.serving.server.srv s.serving.app cmd).2.respLen ∧ created = false then
        r.tag :: s.starved
      else s.starved
    sent := e.2.toList ++ s.sent }

def exec (v : Variant) (maxSize : U16) (s : State σ) : Op → State σ
  | .deliver clientAddr pkt =>
      let r := s.request clientAddr pkt
      { s with
        serving := serverCb v s.serving r
        delivered := r :: s.delivered
        full := if Room v s.serving then s.full else r.tag :: s.full }
  | .recv => { s with serving := serverRecv v s.serving }
  | .finish k created =>
      match s.serving.working[k]? with
      | none => s
      | some r => finish maxSize created s k r

def run (v : Variant) (maxSize : U16) : State σ → List Op → State σ
  | s, [] => s
  | s, op :: ops => run v maxSize (exec v maxSize s op) ops

/-- The responses to one request. -/
def State.responses (s : State σ) (tag : ℕ) : List (Response ℕ) :=
  s.sent.filter fun resp => resp.tag = tag

/-- Exactly one response, to the requesting endpoint, with the ids of the request. -/
def Answered (s : State σ) (r : Request ℕ) (status : U16) : Prop :=
  ∃ pkt, s.responses r.tag = [⟨r.tag, r.clientAddr, pkt⟩] ∧ pkt.msgId = r.pkt.msgId ∧
    pkt.cmdId = r.pkt.cmdId ∧ pkt.status = status

/-- What a request is owed once it neither waits nor is being executed. -/
def Settled (s : State σ) (r : Request ℕ) : Prop :=
  if r.tag ∈ s.full then Answered s r statusServerBusy
  else
    match findHandler r.pkt.cmdId s.serving.server.srv with
    | none => if r.tag ∈ s.starved then s.responses r.tag = [] else Answered s r statusInvalidCmd
    | some handler => ∃ app cmd, (r.tag, app, cmd) ∈ s.calls ∧
        if (handler app cmd).2.respLen = 0 ∨ r.tag ∈ s.starved then s.responses r.tag = []
        else Answered s r (handler app cmd).2.status

def AllServed (s : State σ) : Prop := ∀ r ∈ s.delivered, r ∈ s.serving.waiting ∨ Settled s r

/-- A request that is delivered finds room. -/
def FindsRoom (v : Variant) (s : State σ) : Op → Prop
  | .deliver _ _ => Room v s.serving
  | .recv | .finish _ _ => True

def NeverFull (v : Variant) (maxSize : U16) : State σ → List Op → Prop
  | _, [] => True
  | s, op :: ops => FindsRoom v s op ∧ NeverFull v maxSize (exec v maxSize s op) ops

/-- Executions one after the other. -/
def serverRuns (created : ℕ → Bool) : ℕ → List Op
  | 0 => []
  | n + 1 => .recv :: .finish 0 (created n) :: serverRuns created n

/-- Nothing has happened to a request but its delivery. -/
structure Untouched (s : State σ) (tag : ℕ) : Prop where
  full : tag ∉ s.full
  starved : tag ∉ s.starved
  responses : s.responses tag = []

structure Inv (s : State σ) : Prop where
  distinct : (s.delivered.map Request.tag).Nodup
  bounded : ∀ r ∈ s.delivered, r.tag < s.delivered.length
  fresh : ∀ tag, s.delivered.length ≤ tag → Untouched s tag
  once : (s.serving.waiting.map Request.tag).Nodup
  waiting : ∀ r ∈ s.serving.waiting, r ∈ s.delivered ∧ Untouched s r.tag
  full : ∀ tag ∈ s.full, (∃ r ∈ s.delivered, r.tag = tag) ∧ s.responses tag = []
  settled : ∀ r ∈ s.delivered, r.tag ∈ s.full ∨ r ∈ s.serving.waiting ∨ Settled s r

theorem start_inv (server : Server σ) (app : σ) : Inv (State.start server app) := by
  constructor
  · exact List.nodup_nil
  · intro r hr
    cases hr
  · exact fun tag _ => ⟨List.not_mem_nil, List.not_mem_nil, rfl⟩
  · exact List.nodup_nil
  · intro r hr
    cases hr
  · intro tag htag
    cases htag
  · intro r hr
    cases hr

section Steps
variable {v : Variant} {maxSize : U16} {s t : State σ} {r : Request ℕ}

theorem Inv.eq_of_tag (h : Inv s) {r' : Request ℕ} (hr : r ∈ s.delivered) (hr' : r' ∈ s.delivered)
    (htag : r.tag = r'.tag) : r = r' :=
  List.inj_on_of_nodup_map h.distinct hr hr' htag

/-- What a request is owed depends on its own history only. -/
theorem Settled.of_eq (h : Settled s r) (hsrv : t.serving.server.srv = s.serving.server.srv)
    (hfull : r.tag ∈ t.full ↔ r.tag ∈ s.full) (hstarved : r.tag ∈ t.starved ↔ r.tag ∈ s.starved)
    (hcalls : ∀ c ∈ s.calls, c ∈ t.calls) (hresp : t.responses r.tag = s.responses r.tag) :
    Settled t r := by
  simp only [Settled, Answered, hsrv, hfull, hstarved, hresp] at h ⊢
  by_cases hbusy : r.tag ∈ s.full
  · rwa [if_pos hbusy] at h ⊢
  · rw [if_neg hbusy] at h ⊢
    cases hf : findHandler r.pkt.cmdId s.serving.server.srv with
    | none =>
        rw [hf] at h
        exact h
    | some handler =>
        rw [hf] at h
        obtain ⟨app, cmd, hc, hout⟩ := h
        exact ⟨app, cmd, hcalls _ hc, hout⟩

theorem Inv.deliver_settled (h : Inv s) (v : Variant) (maxSize clientAddr : U16) (pkt : Pkt) :
    ∀ r ∈ s.delivered, Settled s r →
      Settled (exec v maxSize s (.deliver clientAddr pkt)) r := by
  intro r hr hset
  refine hset.of_eq ?_ ?_ Iff.rfl (fun c hc => hc) rfl
  · exact congrArg Server.srv (serverCb_server v s.serving _)
  · have hlt := h.bounded r hr
    simp only [exec, State.request]
    split_ifs with hroom
    · rfl
    · simp [hlt.ne]

section Deliver
variable (clientAddr : U16) (pkt : Pkt)

theorem Inv.deliver_distinct (h : Inv s) :
    ((s.request clientAddr pkt :: s.delivered).map Request.tag).Nodup := by
  rw [List.map_cons, List.nodup_cons]
  refine ⟨fun hmem => ?_, h.distinct⟩
  obtain ⟨r, hr, heq⟩ := List.mem_map.mp hmem
  exact absurd heq (h.bounded r hr).ne

theorem Inv.deliver_bounded (h : Inv s) : ∀ r ∈ s.request clientAddr pkt :: s.delivered,
    r.tag < (s.request clientAddr pkt :: s.delivered).length := by
  rw [List.forall_mem_cons, List.length_cons]
  exact ⟨Nat.lt_succ_self _, fun r hr => (h.bounded r hr).trans (Nat.lt_succ_self _)⟩

theorem Inv.deliver_of_room (h : Inv s) (hroom : Room v s.serving) :
    Inv (exec v maxSize s (.deliver clientAddr pkt)) := by
  have hfresh := h.fresh s.delivered.length le_rfl
  have hkeep := h.deliver_settled v maxSize clientAddr pkt
  have hperm := serverCb_of_room (s.request clientAddr pkt) hroom
  simp only [exec, if_pos hroom] at hkeep ⊢
  refine ⟨h.deliver_distinct clientAddr pkt, h.deliver_bounded clientAddr pkt, ?_, ?_, ?_, ?_, ?_⟩
  · intro tag htag
    have htouch := h.fresh tag (Nat.le_of_succ_le htag)
    exact ⟨htouch.full, htouch.starved, htouch.responses⟩
  · refine (hperm.map Request.tag).nodup_iff.mpr ?_
    rw [List.map_cons, List.nodup_cons]
    refine ⟨fun hmem => ?_, h.once⟩
    obtain ⟨r, hr, heq⟩ := List.mem_map.mp hmem
    exact absurd heq (h.bounded r (h.waiting r hr).1).ne
  · intro r hr
    rcases List.mem_cons.mp (hperm.mem_iff.mp hr) with rfl | hr
    · exact ⟨List.mem_cons_self, hfresh.full, hfresh.starved, hfresh.responses⟩
    · obtain ⟨hmem, htouch⟩ := h.waiting r hr
      exact ⟨List.mem_cons_of_mem _ hmem, htouch.full, htouch.starved, htouch.responses⟩
  · intro tag htag
    obtain ⟨⟨r, hr, heq⟩, hresp⟩ := h.full tag htag
    exact ⟨⟨r, List.mem_cons_of_mem _ hr, heq⟩, hresp⟩
  · intro r hr
    rcases List.mem_cons.mp hr with rfl | hr
    · exact Or.inr (Or.inl (hperm.mem_iff.mpr List.mem_cons_self))
    · rcases h.settled r hr with hfull | hwait | hset
      · exact Or.inl hfull
      · exact Or.inr (Or.inl (hperm.mem_iff.mpr (List.mem_cons_of_mem _ hwait)))
      · exact Or.inr (Or.inr (hkeep r hr hset))

theorem Inv.deliver_of_full (h : Inv s) (hroom : ¬ Room v s.serving) :
    Inv (exec v maxSize s (.deliver clientAddr pkt)) := by
  have hfresh := h.fresh s.delivered.length le_rfl
  have hkeep := h.deliver_settled v maxSize clientAddr pkt
  simp only [exec, if_neg hroom, serverCb_of_full _ hroom] at hkeep ⊢
  refine ⟨h.deliver_distinct clientAddr pkt, h.deliver_bounded clientAddr pkt, ?_, h.once, ?_, ?_,
    ?_⟩
  · intro tag htag
    have htouch := h.fresh tag (Nat.le_of_succ_le htag)
    refine ⟨?_, htouch.starved, htouch.responses⟩
    rw [List.mem_cons, not_or]
    exact ⟨(Nat.lt_of_succ_le htag).ne', htouch.full⟩
  · intro r hr
    obtain ⟨hmem, htouch⟩ := h.waiting r hr
    refine ⟨List.mem_cons_of_mem _ hmem, ?_, htouch.starved, htouch.responses⟩
    rw [List.mem_cons, not_or]
    exact ⟨(h.bounded r hmem).ne, htouch.full⟩
  · intro tag htag
    rcases List.mem_cons.mp htag with rfl | htag
    · exact ⟨⟨_, List.mem_cons_self, rfl⟩, hfresh.responses⟩
    · obtain ⟨⟨r, hr, heq⟩, hresp⟩ := h.full tag htag
      exact ⟨⟨r, List.mem_cons_of_mem _ hr, heq⟩, hresp⟩
  · intro r hr
    rcases List.mem_cons.mp hr with rfl | hr
    · exact Or.inl List.mem_cons_self
    · rcases h.settled r hr with hfull | hwait | hset
      · exact Or.inl (List.mem_cons_of_mem _ hfull)
      · exact Or.inr (Or.inl hwait)
      · exact Or.inr (Or.inr (hkeep r hr hset))

theorem Inv.deliver (h : Inv s) : Inv (exec v maxSize s (.deliver clientAddr pkt)) := by
  by_cases hroom : Room v s.serving
  · exact h.deliver_of_room clientAddr pkt hroom
  · exact h.deliver_of_full clientAddr pkt hroom

end Deliver

theorem Inv.recv (h : Inv s) : Inv (exec v maxSize s .recv) := by
  have hperm := serverRecv_waiting v s.serving
  refine ⟨h.distinct, h.bounded, ?_, ?_, ?_, h.full, ?_⟩
  · intro tag htag
    have htouch := h.fresh tag htag
    exact ⟨htouch.full, htouch.starved, htouch.responses⟩
  · exact (hperm.map Request.tag).nodup_iff.mpr h.once
  · intro r hr
    obtain ⟨hmem, htouch⟩ := h.waiting r (hperm.mem_iff.mp hr)
    exact ⟨hmem, htouch.full, htouch.starved, htouch.responses⟩
  · intro r hr
    rcases h.settled r hr with hfull | hwait | hset
    · exact Or.inl hfull
    · exact Or.inr (Or.inl (hperm.mem_iff.mpr hwait))
    · refine Or.inr (Or.inr (hset.of_eq ?_ Iff.rfl Iff.rfl (fun c hc => hc) rfl))
      exact congrArg Server.srv (serverRecv_server v s.serving)

/-- The end of an execution answers its own request only. -/
theorem finish_responses (maxSize : U16) (created : Bool) (s : State σ) (k : ℕ) (r : Request ℕ)
    (tag : ℕ) :
    (finish maxSize created s k r).responses tag =
      (if tag = r.tag then (serverExec maxSize created s.serving k r).2.toList else []) ++
        s.responses tag := by
  simp only [State.responses, finish, List.filter_append]
  congr 1
  split_ifs with htag
  · simp [serverExec, htag]
  · rw [List.filter_eq_nil_iff]
    intro resp hresp
    simp only [serverExec, Option.mem_toList, Option.map_eq_some_iff] at hresp
    obtain ⟨pkt, -, rfl⟩ := hresp
    simpa using Ne.symm htag

theorem finish_starved {created : Bool} {k tag : ℕ} (htag : tag ≠ r.tag) :
    tag ∈ (finish maxSize created s k r).starved ↔ tag ∈ s.starved := by
  simp only [finish]
  split_ifs with hc
  · simp [htag]
  · rfl

theorem Untouched.finish {created : Bool} {k tag : ℕ} (h : Untouched s tag) (htag : tag ≠ r.tag) :
    Untouched (RpcService.finish maxSize created s k r) tag := by
  refine ⟨h.full, fun hm => h.starved ((finish_starved htag).mp hm), ?_⟩
  rw [finish_responses, if_neg htag, h.responses, List.append_nil]

/-- The command as an execution leaves it. -/
def State.outcome (s : State σ) (r : Request ℕ) : Cmd :=
  (execHandler s.serving.server.srv s.serving.app (requestCmd s.serving.server r.pkt)).2

/-- The response of an execution, or why there is none. -/
theorem Untouched.answered (h : Untouched s r.tag) (maxSize : U16) (created : Bool) (k : ℕ) :
    if (s.outcome r).respLen = 0 ∨ r.tag ∈ (RpcService.finish maxSize created s k r).starved then
      (RpcService.finish maxSize created s k r).responses r.tag = []
    else Answered (RpcService.finish maxSize created s k r) r (s.outcome r).status := by
  have hresp := finish_responses maxSize created s k r r.tag
  rw [if_pos rfl, h.responses, List.append_nil] at hresp
  have hexec : (serverExec maxSize created s.serving k r).2 =
      (if 0 < (s.outcome r).respLen ∧ created = true then
        some (responsePkt maxSize r.pkt (s.outcome r))
      else none).map fun pkt => ⟨r.tag, r.clientAddr, pkt⟩ := rfl
  have hstarved : r.tag ∈ (RpcService.finish maxSize created s k r).starved ↔
      0 < (s.outcome r).respLen ∧ created = false := by
    change r.tag ∈ (if 0 < (s.outcome r).respLen ∧ created = false then r.tag :: s.starved
      else s.starved) ↔ _
    split_ifs with hc
    · exact iff_of_true List.mem_cons_self hc
    · exact iff_of_false h.starved hc
  by_cases hlen : 0 < (s.outcome r).respLen
  · cases created with
    | false =>
        rw [if_pos (Or.inr (hstarved.mpr ⟨hlen, rfl⟩)), hresp, hexec, if_neg (by simp)]
        rfl
    | true =>
        have hnot : ¬ ((s.outcome r).respLen = 0 ∨
            r.tag ∈ (RpcService.finish maxSize true s k r).starved) := by
          rw [hstarved]
          rintro (hzero | ⟨-, hfalse⟩)
          · bv_omega
          · cases hfalse
        rw [if_neg hnot]
        refine ⟨responsePkt maxSize r.pkt (s.outcome r), ?_, rfl, rfl, rfl⟩
        rw [hresp, hexec, if_pos ⟨hlen, rfl⟩]
        rfl
  · have hzero : (s.outcome r).respLen = 0 := by bv_omega
    rw [if_pos (Or.inl hzero), hresp, hexec, if_neg fun hc => hlen hc.1]
    rfl

theorem Inv.finish (h : Inv s) {k : ℕ} (created : Bool) (hr : s.serving.working[k]? = some r) :
    Inv (finish maxSize created s k r) := by
  have hperm := serverExec_waiting maxSize created hr
  have hmem : r ∈ s.serving.waiting := hperm.mem_iff.mpr List.mem_cons_self
  obtain ⟨hdel, htouch⟩ := h.waiting r hmem
  have honce := (hperm.map Request.tag).nodup_iff.mp h.once
  rw [List.map_cons, List.nodup_cons] at honce
  have hne : ∀ r' ∈ (serverExec maxSize created s.serving k r).1.waiting, r'.tag ≠ r.tag :=
    fun r' hr' heq => honce.1 (heq ▸ List.mem_map_of_mem hr')
  refine ⟨h.distinct, h.bounded, ?_, honce.2, ?_, ?_, ?_⟩
  · intro tag htag
    have hlt := h.bounded r hdel
    exact (h.fresh tag htag).finish (hlt.trans_le htag).ne'
  · intro r' hr'
    obtain ⟨hdel', htouch'⟩ := h.waiting r' (hperm.mem_iff.mpr (List.mem_cons_of_mem _ hr'))
    exact ⟨hdel', htouch'.finish (hne r' hr')⟩
  · intro tag htag
    have hnt : tag ≠ r.tag := fun heq => htouch.full (heq ▸ htag)
    obtain ⟨hex, hresp⟩ := h.full tag htag
    refine ⟨hex, ?_⟩
    rw [finish_responses, if_neg hnt, hresp, List.append_nil]
  · intro r' hr'
    by_cases htag : r'.tag = r.tag
    · obtain rfl := h.eq_of_tag hr' hdel htag
      refine Or.inr (Or.inr ?_)
      have hans := htouch.answered maxSize created k
      have hfull : r'.tag ∉ (RpcService.finish maxSize created s k r').full := htouch.full
      rw [Settled, if_neg hfull]
      change match findHandler r'.pkt.cmdId s.serving.server.srv with
        | none => _
        | some handler => _
      cases hf : findHandler r'.pkt.cmdId s.serving.server.srv with
      | none =>
          have hout : s.outcome r' = { requestCmd s.serving.server r'.pkt with
              status := statusInvalidCmd, respLen := 1,
              respData := some (s.serving.server.respBuf.set 0 0) } := by
            simp [State.outcome, execHandler, requestCmd, hf]
          rw [hout] at hans
          simpa using hans
      | some handler =>
          have hout : s.outcome r' =
              (handler s.serving.app (requestCmd s.serving.server r'.pkt)).2 := by
            simp only [State.outcome, execHandler]
            rw [show (requestCmd s.serving.server r'.pkt).cmdId = r'.pkt.cmdId from rfl, hf]
          rw [hout] at hans
          exact ⟨_, _, List.mem_cons_self, hans⟩
    · rcases h.settled r' hr' with hfull | hwait | hset
      · exact Or.inl hfull
      · have hw := List.mem_cons.mp (hperm.mem_iff.mp hwait)
        exact Or.inr (Or.inl (hw.resolve_left fun heq => htag (heq ▸ rfl)))
      · refine Or.inr (Or.inr (hset.of_eq rfl Iff.rfl (finish_starved htag) ?_ ?_))
        · exact fun c hc => List.mem_cons_of_mem _ hc
        · rw [finish_responses, if_neg htag, List.nil_append]

theorem Inv.exec (h : Inv s) (op : Op) : Inv (exec v maxSize s op) := by
  cases op with
  | deliver clientAddr pkt => exact h.deliver clientAddr pkt
  | recv => exact h.recv
  | finish k created =>
      simp only [RpcService.exec]
      cases hr : s.serving.working[k]? with
      | none => exact h
      | some r => exact h.finish created hr

theorem run_inv (ops : List Op) (h : Inv s) : Inv (run v maxSize s ops) := by
  induction ops generalizing s with
  | nil => exact h
  | cons op ops ih => exact ih (h.exec op)

/-- A request that found no room stays without a response. -/
theorem Inv.allServed_iff (h : Inv s) : AllServed s ↔ s.full = [] := by
  constructor
  · intro hall
    rw [List.eq_nil_iff_forall_not_mem]
    intro tag htag
    obtain ⟨⟨r, hr, rfl⟩, hresp⟩ := h.full tag htag
    rcases hall r hr with hwait | hset
    · exact (h.waiting r hwait).2.full htag
    · rw [Settled, if_pos htag] at hset
      obtain ⟨pkt, hsent, -⟩ := hset
      rw [hresp] at hsent
      cases hsent
  · intro hnil r hr
    have hset := h.settled r hr
    rw [hnil] at hset
    exact hset.resolve_left List.not_mem_nil

theorem run_full (ops : List Op) :
    (run v maxSize s ops).full = [] ↔ s.full = [] ∧ NeverFull v maxSize s ops := by
  induction ops generalizing s with
  | nil => exact (and_iff_left trivial).symm
  | cons op ops ih =>
      rw [run, ih, NeverFull, ← and_assoc]
      refine and_congr_left fun _ => ?_
      cases op with
      | deliver clientAddr pkt =>
          simp only [exec, FindsRoom]
          by_cases hroom : Room v s.serving
          · simp [hroom]
          · simp [hroom]
      | recv => exact (and_iff_left trivial).symm
      | finish k created =>
          simp only [exec]
          cases hr : s.serving.working[k]? with
          | none => exact (and_iff_left trivial).symm
          | some r => exact (and_iff_left trivial).symm

/-- The server without an operating system has no queue. -/
def Queueless (v : Variant) (s : State σ) : Prop := v = .baremetal → s.serving.queue = []

theorem exec_queueless (maxSize : U16) (op : Op) (h : Queueless v s) :
    Queueless v (exec v maxSize s op) := by
  rintro rfl
  have hq := h rfl
  cases op with
  | deliver clientAddr pkt => exact hq
  | recv => exact hq
  | finish k created =>
      simp only [exec]
      cases hr : s.serving.working[k]? with
      | none => exact hq
      | some r => exact hq

theorem run_queueless (maxSize : U16) (ops : List Op) (h : Queueless v s) :
    Queueless v (run v maxSize s ops) := by
  induction ops generalizing s with
  | nil => exact h
  | cons op ops ih => exact ih (exec_queueless maxSize op h)

/-- One execution leaves one request less. -/
theorem serverRun_waiting (h : Queueless v s) (created : Bool) :
    (exec v maxSize (exec v maxSize s .recv) (.finish 0 created)).serving.waiting.length =
      s.serving.waiting.length - 1 := by
  have hrecv := (serverRecv_waiting v s.serving).length_eq
  simp only [exec]
  cases hr : (serverRecv v s.serving).working[0]? with
  | none =>
      have hnil : (serverRecv v s.serving).waiting = [] := by
        have hw : (serverRecv v s.serving).working = [] := by
          simpa using hr
        rcases serverRecv_cases v s.serving with ⟨heq, hcase⟩ | ⟨r, queue, -, heq⟩
        · rw [heq] at hw ⊢
          rw [Serving.waiting, hw, List.append_nil]
          exact hcase.elim h id
        · rw [heq] at hw
          cases hw
      rw [hnil] at hrecv
      simp [hnil, ← hrecv]
  | some r =>
      have hexec := (serverExec_waiting maxSize created hr).length_eq
      rw [List.length_cons, hrecv] at hexec
      exact (Nat.sub_eq_of_eq_add hexec).symm

theorem serverRuns_waiting (h : Queueless v s) (created : ℕ → Bool) (n : ℕ) :
    (run v maxSize s (serverRuns created n)).serving.waiting.length =
      s.serving.waiting.length - n := by
  induction n generalizing s with
  | zero => rfl
  | succ n ih =>
      have hafter := exec_queueless maxSize (.finish 0 (created n))
        (exec_queueless maxSize .recv h)
      rw [serverRuns, run, run, ih hafter, serverRun_waiting h]
      omega

end Steps

/-- For either variant with any kernel and queue length, every server and every sequence of
requests and executions: every request that is no longer open has been answered as
promised, exactly when every request found room in the queue of the server. As many
executions as there are open requests leave none open. -/
theorem requests_answered_iff_room (v : Variant) (maxSize : U16) (server : Server σ) (app : σ)
    (ops : List Op) :
    (AllServed (run v maxSize (State.start server app) ops) ↔
      NeverFull v maxSize (State.start server app) ops) ∧
    ∀ created, (run v maxSize (run v maxSize (State.start server app) ops) (serverRuns created
      (run v maxSize (State.start server app) ops).serving.waiting.length)).serving.waiting =
        [] := by
  constructor
  · rw [(run_inv ops (start_inv server app)).allServed_iff, run_full]
    exact and_iff_right rfl
  · intro created
    have hstart : Queueless v (State.start server app) := fun _ => rfl
    have hqueueless := run_queueless maxSize ops hstart
    rw [← List.length_eq_zero_iff, serverRuns_waiting hqueueless, Nat.sub_self]

/-- A server without services and with one place in its queue. -/
def emptyServer : Server Unit := ⟨16, 16, List.replicate 16 0, List.replicate 16 0, []⟩

/-- The second of two requests is dropped without a response. -/
theorem second_request_unanswered :
    ¬ AllServed (run (.freertos fifoKernel 1) 120 (State.start emptyServer ())
      [.deliver 5 ⟨1, 9, statusPending, 0, []⟩, .deliver 5 ⟨2, 9, statusPending, 0, []⟩, .recv,
        .finish 0 true]) := by
  rw [(run_inv _ (start_inv emptyServer ())).allServed_iff]
  decide

end EspAmp.RpcService
