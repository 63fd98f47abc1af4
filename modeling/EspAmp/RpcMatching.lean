import EspAmp.ReplyMachine
import EspAmp.RpcService

/-!
# Responses and the commands they complete

Any number of clients with endpoints of their own call one server. A client makes
one call of `esp_amp_rpc_client_execute_cmd` at a time, as its documentation asks;
the call takes an id, keeps its command and sends its packet in separate steps, and
a response may be delivered between any two of them. Messages under way are
delivered in any order. Every packet carries a tag that no code reads: the client
and the number of the call that it belongs to, counted without bound. A response is
delivered while fewer than 2^16 calls of its client have followed its own.
-/
namespace EspAmp.RpcMatching
open ByteMemory ReplyMachine Rpc RpcService

/-- A call that has taken its id and not sent its packet. -/
structure Call (κ : Type) where
  cmd : κ
  pkt : Pkt
  tracked : Bool

/-- A command, with the client and the call that it was given to or the packet that
completed it. -/
structure Entry (ι κ : Type) where
  tag : ι × ℕ
  cmd : κ
deriving DecidableEq, Repr

/-- `issued` lists the calls that took an id, `written` and `called` what `client_cb`
did on behalf of packets. -/
structure State (σ ι κ : Type) where
  clients : ι → Client κ
  cmds : κ → Cmd
  calls : ι → Option (Call κ)
  count : ι → ℕ
  requests : List (Request (ι × ℕ))
  serving : Serving σ (ι × ℕ)
  responses : List (Response (ι × ℕ))
  issued : List (Entry ι κ)
  written : List (Entry ι κ)
  called : List (Entry ι κ)

variable {σ ι κ : Type}

def State.start (server : Server σ) (app : σ) (cmds : κ → Cmd) : State σ ι κ where
  clients := fun _ => Client.init
  cmds := cmds
  calls := fun _ => none
  count := fun _ => 0
  requests := []
  serving := ⟨server, app, [], []⟩
  responses := []
  issued := []
  written := []
  called := []

inductive Label (ι κ : Type) where
  | write (p : κ) (cmd : Cmd)
  | refuse (i : ι) (p : Option κ)
  | takeId (i : ι) (p : κ)
  | track (i : ι)
  | send (i : ι)
  | deliverRequest (k : ℕ)
  | recv
  | finish (k : ℕ) (created : Bool)
  | deliverResponse (i : ι) (k : ℕ)

section Steps
variable [DecidableEq ι] [DecidableEq κ] (v : Variant) (addr : ι → U16) (maxSize : U16)

/-- The application may write its commands at any time. -/
inductive Step : State σ ι κ → Label ι κ → State σ ι κ → Prop
  | write {s : State σ ι κ} (p : κ) (cmd : Cmd) :
      Step s (.write p cmd) { s with cmds := Function.update s.cmds p cmd }
  | refuse {s : State σ ι κ} {i : ι} {p : Option κ} {reqMax : U16} {created : Bool} :
      (executeCmd (s.clients i) s.cmds p reqMax created).ret ≠ rpcOk →
      Step s (.refuse i p)
        { s with
          clients := Function.update s.clients i
            (executeCmd (s.clients i) s.cmds p reqMax created).client
          cmds := (executeCmd (s.clients i) s.cmds p reqMax created).cmds }
  | takeId {s : State σ ι κ} {i : ι} {p : κ} {reqMax : U16} {created : Bool} :
      s.calls i = none → (s.clients i).refuses (s.cmds p) reqMax created = none →
      Step s (.takeId i p)
        { s with
          clients := Function.update s.clients i (s.clients i).bump
          cmds := Function.update s.cmds p (s.cmds p).setPending
          calls := Function.update s.calls i
            (some ⟨p, requestPkt (s.cmds p) (s.clients i).bump.pendingId, false⟩)
          count := Function.update s.count i (s.count i + 1)
          issued := ⟨(i, s.count i + 1), p⟩ :: s.issued }
  | track {s : State σ ι κ} {i : ι} {call : Call κ} : s.calls i = some call →
      call.tracked = false →
      Step s (.track i)
        { s with
          clients := Function.update s.clients i ((s.clients i).track call.cmd)
          calls := Function.update s.calls i (some { call with tracked := true }) }
  | send {s : State σ ι κ} {i : ι} {call : Call κ} : s.calls i = some call →
      call.tracked = true →
      Step s (.send i)
        { s with
          calls := Function.update s.calls i none
          requests := ⟨(i, s.count i), addr i, { call.pkt with
            msgData := (requestPkt (s.cmds call.cmd) call.pkt.msgId).msgData }⟩ :: s.requests }
  | deliverRequest {s : State σ ι κ} {k : ℕ} {r : Request (ι × ℕ)} : s.requests[k]? = some r →
      Step s (.deliverRequest k)
        { s with serving := serverCb v s.serving r, requests := s.requests.eraseIdx k }
  | recv {s : State σ ι κ} : Step s .recv { s with serving := serverRecv v s.serving }
  | finish {s : State σ ι κ} {k : ℕ} {created : Bool} {r : Request (ι × ℕ)} :
      s.serving.working[k]? = some r →
      Step s (.finish k created)
        { s with
          serving := (serverExec maxSize created s.serving k r).1
          responses := (serverExec maxSize created s.serving k r).2.toList ++ s.responses }
  | deliverResponse {s : State σ ι κ} {i : ι} {k : ℕ} {resp : Response (ι × ℕ)} :
      s.responses[k]? = some resp → addr i = resp.dstAddr →
      s.count i < resp.tag.2 + 2 ^ 16 →
      Step s (.deliverResponse i k)
        { s with
          cmds := (clientCb (s.clients i) s.cmds resp.pkt).cmds
          responses := s.responses.eraseIdx k
          written := (clientCb (s.clients i) s.cmds resp.pkt).written.toList.map
            (Entry.mk resp.tag) ++ s.written
          called := (clientCb (s.clients i) s.cmds resp.pkt).called.toList.map
            (Entry.mk resp.tag) ++ s.called }

end Steps

/-- The tags of all packets under way and of all packets that completed a command. -/
def State.tags (s : State σ ι κ) : List (ι × ℕ) :=
  s.requests.map Request.tag ++ s.serving.waiting.map Request.tag ++
    s.responses.map Response.tag ++ s.written.map Entry.tag

/-- The call has sent its packet; if no call has followed it, its command is the
pending one. -/
def Sent (s : State σ ι κ) (tag : ι × ℕ) : Prop :=
  tag.2 ≤ s.count tag.1 ∧ (tag.2 = s.count tag.1 → s.calls tag.1 = none ∧
    ∃ p, (s.clients tag.1).pendingCmd = some p ∧ ⟨tag, p⟩ ∈ s.issued)

/-- A call in progress has the id and the command of the last call. -/
structure CallOk (s : State σ ι κ) (i : ι) (call : Call κ) : Prop where
  msgId : call.pkt.msgId = BitVec.ofNat 16 (s.count i)
  issued : ⟨(i, s.count i), call.cmd⟩ ∈ s.issued
  tracked : call.tracked = true → (s.clients i).pendingCmd = some call.cmd

/-- A request comes from the endpoint of its client and has the id of its call. -/
def RequestOk (addr : ι → U16) (r : Request (ι × ℕ)) : Prop :=
  r.clientAddr = addr r.tag.1 ∧ r.pkt.msgId = BitVec.ofNat 16 r.tag.2

def ResponseOk (addr : ι → U16) (r : Response (ι × ℕ)) : Prop :=
  r.dstAddr = addr r.tag.1 ∧ r.pkt.msgId = BitVec.ofNat 16 r.tag.2

structure Inv [DecidableEq ι] (addr : ι → U16) (s : State σ ι κ) : Prop where
  pendingId : ∀ i, (s.clients i).pendingId = BitVec.ofNat 16 (s.count i)
  calls : ∀ i call, s.calls i = some call → CallOk s i call
  sent : ∀ tag ∈ s.tags, Sent s tag
  once : ∀ tag, s.tags.count tag ≤ 1
  requests : ∀ r ∈ s.requests, RequestOk addr r
  waiting : ∀ r ∈ s.serving.waiting, RequestOk addr r
  responses : ∀ r ∈ s.responses, ResponseOk addr r
  written : ∀ e ∈ s.written, e ∈ s.issued
  called : s.called.Sublist s.written

section Invariant
variable [DecidableEq ι] {v : Variant} {addr : ι → U16} {maxSize : U16}

theorem start_inv (server : Server σ) (app : σ) (cmds : κ → Cmd) :
    Inv addr (State.start server app cmds : State σ ι κ) := by
  refine ⟨fun i => rfl, ?_, ?_, fun tag => Nat.zero_le 1, ?_, ?_, ?_, ?_, .slnil⟩
  · intro i call h
    cases h
  · intro tag h
    cases h
  · intro r h
    cases h
  · intro r h
    cases h
  · intro r h
    cases h
  · intro e h
    cases h

/-- A step of the transport, of the server or of a delivery. -/
structure SameCalls (s t : State σ ι κ) : Prop where
  clients : t.clients = s.clients
  calls : t.calls = s.calls
  count : t.count = s.count
  issued : t.issued = s.issued

/-- Packets that move or disappear keep what is known about the rest. -/
theorem Inv.moved {s t : State σ ι κ} (h : Inv addr s) (hsame : SameCalls s t)
    (hle : ∀ tag, t.tags.count tag ≤ s.tags.count tag)
    (hrequests : ∀ r ∈ t.requests, RequestOk addr r)
    (hwaiting : ∀ r ∈ t.serving.waiting, RequestOk addr r)
    (hresponses : ∀ r ∈ t.responses, ResponseOk addr r)
    (hwritten : ∀ e ∈ t.written, e ∈ s.issued) (hcalled : t.called.Sublist t.written) :
    Inv addr t := by
  refine ⟨?_, ?_, ?_, fun tag => (hle tag).trans (h.once tag), hrequests, hwaiting, hresponses,
    ?_, hcalled⟩
  · rw [hsame.clients, hsame.count]
    exact h.pendingId
  · intro i call hc
    rw [hsame.calls] at hc
    have hok := h.calls i call hc
    constructor
    · rw [hsame.count]
      exact hok.msgId
    · rw [hsame.count, hsame.issued]
      exact hok.issued
    · rw [hsame.clients]
      exact hok.tracked
  · intro tag htag
    have hpos := List.count_pos_iff.mpr htag
    have hsent := h.sent tag (List.count_pos_iff.mp (hpos.trans_le (hle tag)))
    simpa only [Sent, hsame.clients, hsame.calls, hsame.count, hsame.issued] using hsent
  · rwa [hsame.issued]

theorem Inv.of_cmds {s : State σ ι κ} (h : Inv addr s) (cmds : κ → Cmd) :
    Inv addr { s with cmds := cmds } :=
  h.moved ⟨rfl, rfl, rfl, rfl⟩ (fun _ => le_rfl) h.requests h.waiting h.responses h.written
    h.called

/-- A call that has not sent its packet has no packet anywhere. -/
theorem Inv.ne_of_call {s : State σ ι κ} (h : Inv addr s) {i : ι} {call : Call κ}
    (hc : s.calls i = some call) {tag : ι × ℕ} (htag : tag ∈ s.tags) (hi : tag.1 = i) :
    tag.2 ≠ s.count i := by
  subst hi
  intro heq
  have hnone := ((h.sent tag htag).2 heq).1
  rw [hc] at hnone
  cases hnone

theorem Inv.takeId {s : State σ ι κ} (h : Inv addr s) (i : ι) (p : κ) (cmds : κ → Cmd) :
    Inv addr { s with
      clients := Function.update s.clients i (s.clients i).bump
      cmds := cmds
      calls := Function.update s.calls i
        (some ⟨p, requestPkt (s.cmds p) (s.clients i).bump.pendingId, false⟩)
      count := Function.update s.count i (s.count i + 1)
      issued := ⟨(i, s.count i + 1), p⟩ :: s.issued } := by
  have hbump : (s.clients i).bump.pendingId = BitVec.ofNat 16 (s.count i + 1) := by
    rw [BitVec.ofNat_add, ← h.pendingId i]
    rfl
  refine ⟨?_, ?_, ?_, h.once, h.requests, h.waiting, h.responses, ?_, h.called⟩
  · intro j
    by_cases hj : j = i
    · subst hj
      simpa using hbump
    · simpa [hj] using h.pendingId j
  · intro j call hcall
    by_cases hj : j = i
    · subst hj
      simp only [Function.update_self, Option.some.injEq] at hcall
      subst hcall
      exact ⟨by simpa [requestPkt] using hbump, by simp, fun htr => by cases htr⟩
    · simp only [Function.update_of_ne hj] at hcall
      have hok := h.calls j call hcall
      constructor
      · simpa only [Function.update_of_ne hj] using hok.msgId
      · simpa only [Function.update_of_ne hj] using List.mem_cons_of_mem _ hok.issued
      · simpa only [Function.update_of_ne hj] using hok.tracked
  · intro tag htag
    obtain ⟨hle, hlast⟩ := h.sent tag htag
    by_cases hj : tag.1 = i
    · subst hj
      simp only [Sent, Function.update_self]
      exact ⟨by omega, fun heq => by omega⟩
    · simp only [Sent, Function.update_of_ne hj]
      refine ⟨hle, fun heq => ?_⟩
      obtain ⟨hnone, q, hq, hmem⟩ := hlast heq
      exact ⟨hnone, q, hq, List.mem_cons_of_mem _ hmem⟩
  · exact fun e he => List.mem_cons_of_mem _ (h.written e he)

theorem Inv.track {s : State σ ι κ} (h : Inv addr s) {i : ι} {call : Call κ}
    (hc : s.calls i = some call) :
    Inv addr { s with
      clients := Function.update s.clients i ((s.clients i).track call.cmd)
      calls := Function.update s.calls i (some { call with tracked := true }) } := by
  refine ⟨?_, ?_, ?_, h.once, h.requests, h.waiting, h.responses, h.written, h.called⟩
  · intro j
    by_cases hj : j = i
    · subst hj
      simpa [Client.track] using h.pendingId j
    · simpa [hj] using h.pendingId j
  · intro j call' hcall
    by_cases hj : j = i
    · subst hj
      simp only [Function.update_self, Option.some.injEq] at hcall
      subst hcall
      have hok := h.calls j call hc
      exact ⟨hok.msgId, hok.issued, fun _ => by simp [Client.track]⟩
    · simp only [Function.update_of_ne hj] at hcall
      have hok := h.calls j call' hcall
      constructor
      · exact hok.msgId
      · exact hok.issued
      · simpa only [Function.update_of_ne hj] using hok.tracked
  · intro tag htag
    obtain ⟨hle, hlast⟩ := h.sent tag htag
    by_cases hj : tag.1 = i
    · refine ⟨hle, fun heq => ?_⟩
      exact absurd (hj ▸ heq) (h.ne_of_call hc htag hj)
    · simp only [Sent, Function.update_of_ne hj]
      exact ⟨hle, hlast⟩

theorem Inv.send {s : State σ ι κ} (h : Inv addr s) {i : ι} {call : Call κ}
    (hc : s.calls i = some call) (htr : call.tracked = true) (data : List U8) :
    Inv addr { s with
      calls := Function.update s.calls i none
      requests := ⟨(i, s.count i), addr i, { call.pkt with msgData := data }⟩ :: s.requests } := by
  have hok := h.calls i call hc
  have hnew : (i, s.count i) ∉ s.tags := fun hmem => h.ne_of_call hc hmem rfl rfl
  refine ⟨h.pendingId, ?_, ?_, ?_, ?_, h.waiting, h.responses, h.written, h.called⟩
  · intro j call' hcall
    by_cases hj : j = i
    · subst hj
      simp at hcall
    · simp only [Function.update_of_ne hj] at hcall
      have hok' := h.calls j call' hcall
      exact ⟨hok'.msgId, hok'.issued, hok'.tracked⟩
  · intro tag htag
    rcases List.mem_cons.mp htag with rfl | htag
    · exact ⟨le_rfl, fun _ => ⟨by simp, call.cmd, hok.tracked htr, hok.issued⟩⟩
    · obtain ⟨hle, hlast⟩ := h.sent tag htag
      refine ⟨hle, fun heq => ?_⟩
      have hj : tag.1 ≠ i := fun hj => h.ne_of_call hc htag hj (hj ▸ heq)
      simp only [Function.update_of_ne hj]
      exact hlast heq
  · intro tag
    change (((i, s.count i) :: s.tags).count tag) ≤ 1
    rw [List.count_cons]
    split_ifs with heq
    · rw [← beq_iff_eq.mp heq, List.count_eq_zero.mpr hnew]
    · exact h.once tag
  · rw [List.forall_mem_cons]
    exact ⟨⟨rfl, hok.msgId⟩, h.requests⟩

/-- A request that the server takes or drops. -/
theorem Inv.deliverRequest {s : State σ ι κ} (h : Inv addr s) (v : Variant) {k : ℕ}
    {r : Request (ι × ℕ)} (hr : s.requests[k]? = some r) :
    Inv addr { s with
      serving := serverCb v s.serving r, requests := s.requests.eraseIdx k } := by
  have hcount := fun tag => ((perm_eraseIdx hr).map Request.tag).count_eq tag
  simp only [List.map_cons, List.count_cons] at hcount
  have hrest : ∀ r' ∈ s.requests.eraseIdx k, RequestOk addr r' :=
    fun r' hr' => h.requests r' (List.mem_of_mem_eraseIdx hr')
  by_cases hroom : Room v s.serving
  · have hperm := serverCb_of_room r hroom
    refine h.moved ⟨rfl, rfl, rfl, rfl⟩ ?_ hrest ?_ h.responses h.written h.called
    · intro tag
      have hw := (hperm.map Request.tag).count_eq tag
      simp only [List.map_cons, List.count_cons] at hw
      simp only [State.tags, List.count_append, hw, hcount tag]
      omega
    · intro r' hr'
      rcases List.mem_cons.mp (hperm.mem_iff.mp hr') with rfl | hr'
      · exact h.requests r' (List.mem_of_getElem? hr)
      · exact h.waiting r' hr'
  · rw [serverCb_of_full r hroom]
    refine h.moved ⟨rfl, rfl, rfl, rfl⟩ ?_ hrest h.waiting h.responses h.written h.called
    intro tag
    simp only [State.tags, List.count_append, hcount tag]
    omega

theorem Inv.recv {s : State σ ι κ} (h : Inv addr s) (v : Variant) :
    Inv addr { s with serving := serverRecv v s.serving } := by
  have hperm := serverRecv_waiting v s.serving
  refine h.moved ⟨rfl, rfl, rfl, rfl⟩ ?_ h.requests ?_ h.responses h.written h.called
  · intro tag
    simp only [State.tags, List.count_append, (hperm.map Request.tag).count_eq tag]
    exact le_rfl
  · exact fun r hr => h.waiting r (hperm.mem_iff.mp hr)

omit [DecidableEq ι] in
/-- The response of an execution has the ids of its request. -/
theorem serverExec_response {created : Bool} {s : Serving σ (ι × ℕ)} {k : ℕ}
    {r : Request (ι × ℕ)} {resp : Response (ι × ℕ)} (hr : RequestOk addr r)
    (h : (serverExec maxSize created s k r).2 = some resp) :
    ResponseOk addr resp ∧ resp.tag = r.tag := by
  obtain ⟨pkt, hpkt, rfl⟩ := Option.map_eq_some_iff.mp h
  exact ⟨⟨hr.1, (execCmdAndSend_ids hpkt).1.trans hr.2⟩, rfl⟩

theorem Inv.finish {s : State σ ι κ} (h : Inv addr s) (maxSize : U16) (created : Bool) {k : ℕ}
    {r : Request (ι × ℕ)} (hr : s.serving.working[k]? = some r) :
    Inv addr { s with
      serving := (serverExec maxSize created s.serving k r).1
      responses := (serverExec maxSize created s.serving k r).2.toList ++ s.responses } := by
  have hperm := serverExec_waiting maxSize created hr
  have hok := h.waiting r (hperm.mem_iff.mpr List.mem_cons_self)
  refine h.moved ⟨rfl, rfl, rfl, rfl⟩ ?_ h.requests ?_ ?_ h.written h.called
  · intro tag
    have hw := (hperm.map Request.tag).count_eq tag
    simp only [List.map_cons, List.count_cons] at hw
    simp only [State.tags, List.map_append, List.count_append, hw]
    cases hresp : (serverExec maxSize created s.serving k r).2 with
    | none =>
        simp only [Option.toList_none, List.map_nil, List.count_nil]
        omega
    | some resp =>
        rw [← (serverExec_response hok hresp).2]
        simp only [Option.toList_some, List.map_cons, List.map_nil, List.count_cons,
          List.count_nil]
        omega
  · exact fun r' hr' => h.waiting r' (hperm.mem_iff.mpr (List.mem_cons_of_mem _ hr'))
  · intro resp hmem
    rcases List.mem_append.mp hmem with hmem | hmem
    · exact (serverExec_response hok (Option.mem_toList.mp hmem)).1
    · exact h.responses resp hmem

/-- Ids of calls that are close to each other tell them apart. -/
theorem eq_of_ofNat_eq {a b : ℕ} (hle : a ≤ b) (hlt : b < a + 2 ^ 16)
    (h : BitVec.ofNat 16 a = BitVec.ofNat 16 b) : a = b := by
  have hmod := congrArg BitVec.toNat h
  simp only [BitVec.toNat_ofNat] at hmod
  omega

variable [DecidableEq κ]

/-- What a delivery does: nothing to any command, or it completes the pending
command, which was given to the very call that the response belongs to. -/
theorem Inv.deliver_cases {s : State σ ι κ} (h : Inv addr s) (haddr : Function.Injective addr)
    {i : ι} {k : ℕ} {resp : Response (ι × ℕ)} (hr : s.responses[k]? = some resp)
    (hi : addr i = resp.dstAddr) (hnear : s.count i < resp.tag.2 + 2 ^ 16) :
    ((clientCb (s.clients i) s.cmds resp.pkt).cmds = s.cmds ∧
        (clientCb (s.clients i) s.cmds resp.pkt).written = none ∧
        (clientCb (s.clients i) s.cmds resp.pkt).called = none) ∨
      ∃ p, resp.tag = (i, s.count i) ∧ ⟨resp.tag, p⟩ ∈ s.issued ∧
        (clientCb (s.clients i) s.cmds resp.pkt).cmds =
          Function.update s.cmds p ((s.cmds p).complete resp.pkt) ∧
        (clientCb (s.clients i) s.cmds resp.pkt).written = some p ∧
        ((clientCb (s.clients i) s.cmds resp.pkt).called = none ∨
          (clientCb (s.clients i) s.cmds resp.pkt).called = some p) := by
  rcases clientCb_cases (s.clients i) s.cmds resp.pkt with hno | ⟨p, hid, hp, hcmds, hw, hcb⟩
  · exact Or.inl hno
  · obtain ⟨hdst, hmsg⟩ := h.responses resp (List.mem_of_getElem? hr)
    obtain rfl : i = resp.tag.1 := haddr (hi.trans hdst)
    have htags : resp.tag ∈ s.tags := by
      have hmem := List.mem_map_of_mem (f := Response.tag) (List.mem_of_getElem? hr)
      simp [State.tags, hmem]
    obtain ⟨hle, hlast⟩ := h.sent resp.tag htags
    rw [hmsg, h.pendingId] at hid
    have heq := eq_of_ofNat_eq hle hnear hid
    obtain ⟨-, q, hq, hmem⟩ := hlast heq
    rw [hp] at hq
    cases hq
    exact Or.inr ⟨p, Prod.ext rfl heq, hmem, hcmds, hw, hcb⟩

theorem Inv.deliverResponse {s : State σ ι κ} (h : Inv addr s) (haddr : Function.Injective addr)
    {i : ι} {k : ℕ} {resp : Response (ι × ℕ)} (hr : s.responses[k]? = some resp)
    (hi : addr i = resp.dstAddr) (hnear : s.count i < resp.tag.2 + 2 ^ 16) :
    Inv addr { s with
      cmds := (clientCb (s.clients i) s.cmds resp.pkt).cmds
      responses := s.responses.eraseIdx k
      written := (clientCb (s.clients i) s.cmds resp.pkt).written.toList.map
        (Entry.mk resp.tag) ++ s.written
      called := (clientCb (s.clients i) s.cmds resp.pkt).called.toList.map
        (Entry.mk resp.tag) ++ s.called } := by
  have hcount := fun tag => ((perm_eraseIdx hr).map Response.tag).count_eq tag
  simp only [List.map_cons, List.count_cons] at hcount
  have hrest : ∀ r' ∈ s.responses.eraseIdx k, ResponseOk addr r' :=
    fun r' hr' => h.responses r' (List.mem_of_mem_eraseIdx hr')
  rcases h.deliver_cases haddr hr hi hnear with ⟨-, hw, hcb⟩ | ⟨p, -, hmem, -, hw, hcb⟩
  · rw [hw, hcb]
    refine h.moved ⟨rfl, rfl, rfl, rfl⟩ ?_ h.requests h.waiting hrest h.written h.called
    intro tag
    simp only [State.tags, List.count_append, hcount tag, Option.toList_none, List.map_nil,
      List.nil_append]
    omega
  · rw [hw]
    refine h.moved ⟨rfl, rfl, rfl, rfl⟩ ?_ h.requests h.waiting hrest ?_ ?_
    · intro tag
      simp only [State.tags, List.count_append, hcount tag, Option.toList_some, List.map_append,
        List.map_cons, List.map_nil, List.count_cons, List.count_nil]
      omega
    · intro e he
      rcases List.mem_cons.mp he with rfl | he
      · exact hmem
      · exact h.written e he
    · rcases hcb with hcb | hcb
      · rw [hcb]
        exact h.called.cons _
      · rw [hcb]
        exact h.called.cons_cons _

theorem step_inv (haddr : Function.Injective addr) {s t : State σ ι κ} {l : Label ι κ}
    (hst : Step v addr maxSize s l t) (h : Inv addr s) : Inv addr t := by
  cases hst with
  | write p cmd => exact h.of_cmds _
  | refuse herr =>
      rw [executeCmd_client_of_error herr, Function.update_eq_self]
      exact h.of_cmds _
  | takeId _ _ => exact h.takeId _ _ _
  | track hc _ => exact h.track hc
  | send hc htr => exact h.send hc htr _
  | deliverRequest hr => exact h.deliverRequest v hr
  | recv => exact h.recv v
  | finish hr => exact h.finish maxSize _ hr
  | deliverResponse hr hi hnear => exact h.deliverResponse haddr hr hi hnear

/-- No two calls have the same number. -/
def Numbered (s : State σ ι κ) : Prop :=
  (s.issued.map Entry.tag).Nodup ∧ ∀ e ∈ s.issued, e.tag.2 ≤ s.count e.tag.1

theorem step_numbered {s t : State σ ι κ} {l : Label ι κ} (hst : Step v addr maxSize s l t)
    (h : Numbered s) : Numbered t := by
  obtain ⟨hnd, hle⟩ := h
  cases hst with
  | @takeId i p _ _ _ _ =>
      constructor
      · rw [List.map_cons, List.nodup_cons]
        refine ⟨fun hmem => ?_, hnd⟩
        obtain ⟨e, he, heq⟩ := List.mem_map.mp hmem
        have hbound := hle e he
        rw [heq] at hbound
        exact absurd hbound (Nat.not_succ_le_self _)
      · rw [List.forall_mem_cons]
        refine ⟨by simp, fun e he => (hle e he).trans ?_⟩
        by_cases hj : e.tag.1 = i
        · subst hj
          simp
        · simp [hj]
  | _ => exact ⟨hnd, hle⟩

/-- A delivered response changes no command, or it completes the pending command as
the response of the very call that this command was given to. -/
def Matches (s t : State σ ι κ) (i : ι) (resp : Response (ι × ℕ)) : Prop :=
  (t.cmds = s.cmds ∧ t.written = s.written ∧ t.called = s.called) ∨
    ∃ p, resp.tag = (i, s.count i) ∧ ⟨resp.tag, p⟩ ∈ s.issued ∧
      t.cmds = Function.update s.cmds p ((s.cmds p).complete resp.pkt) ∧
      t.written = ⟨resp.tag, p⟩ :: s.written ∧
      (t.called = s.called ∨ t.called = ⟨resp.tag, p⟩ :: s.called)

theorem Inv.matches (haddr : Function.Injective addr) {s t : State σ ι κ} (h : Inv addr s) {i : ι}
    {k : ℕ} {resp : Response (ι × ℕ)} (hr : s.responses[k]? = some resp)
    (hst : Step v addr maxSize s (.deliverResponse i k) t) : Matches s t i resp := by
  cases hst with
  | deliverResponse hr' hi hnear =>
      rw [hr] at hr'
      cases hr'
      rcases h.deliver_cases haddr hr hi hnear with
        ⟨hcmds, hw, hcb⟩ | ⟨p, htag, hmem, hcmds, hw, hcb⟩
      · exact Or.inl ⟨hcmds, by simp [hw], by simp [hcb]⟩
      · refine Or.inr ⟨p, htag, hmem, hcmds, by simp [hw], ?_⟩
        rcases hcb with hcb | hcb
        · exact Or.inl (by simp [hcb])
        · exact Or.inr (by simp [hcb])

/-- The steps of a call that nothing interrupts are the whole function. -/
theorem executeCmd_run {s : State σ ι κ} {i : ι} {p : κ} {reqMax : U16} {created : Bool}
    (hidle : s.calls i = none) (hr : (s.clients i).refuses (s.cmds p) reqMax created = none) :
    ∃ t, Run (Step v addr maxSize) s [.takeId i p, .track i, .send i] t ∧
      (executeCmd (s.clients i) s.cmds (some p) reqMax created).ret = rpcOk ∧
      t.clients i = (executeCmd (s.clients i) s.cmds (some p) reqMax created).client ∧
      t.cmds = (executeCmd (s.clients i) s.cmds (some p) reqMax created).cmds ∧
      (executeCmd (s.clients i) s.cmds (some p) reqMax created).sent.map
        (Request.mk (i, s.count i + 1) (addr i)) = t.requests.head? := by
  refine ⟨_, .next (.takeId hidle hr) (.next (.track (Function.update_self ..) rfl)
    (.next (.send (Function.update_self ..) rfl) (.done _))), ?_, ?_, ?_, ?_⟩
  · simp [executeCmd, hr]
  · simp [executeCmd, hr]
  · simp [executeCmd, hr]
  · simp [executeCmd, hr, requestPkt, Cmd.setPending]

end Invariant

section Result
variable [DecidableEq ι] [DecidableEq κ]

/-- For any clients with distinct endpoints, either server, any services and any
interleaving: a command is written, and its callback called, only on behalf of the
response to the call that it was given to, and at most once for every call; every
other response changes no command, and a call that returns an error leaves the
pending command and id of every client unchanged. -/
theorem responses_reach_their_command (v : Variant) (addr : ι → U16)
    (haddr : Function.Injective addr) (maxSize : U16) (server : Server σ) (app : σ)
    (cmds : κ → Cmd) (ls : List (Label ι κ)) (s : State σ ι κ)
    (h : Run (Step v addr maxSize) (State.start server app cmds) ls s) :
    (∀ e ∈ s.written, e ∈ s.issued) ∧ s.called.Sublist s.written ∧
    (s.issued.map Entry.tag).Nodup ∧ (s.written.map Entry.tag).Nodup ∧
    (∀ i k resp t, s.responses[k]? = some resp →
      Step v addr maxSize s (.deliverResponse i k) t → Matches s t i resp) ∧
    (∀ i k resp t, s.responses[k]? = some resp → resp.tag ≠ (i, s.count i) →
      Step v addr maxSize s (.deliverResponse i k) t →
      t.cmds = s.cmds ∧ t.written = s.written ∧ t.called = s.called) ∧
    (∀ i p t, Step v addr maxSize s (.refuse i p) t → t.clients = s.clients) := by
  have hinv : Inv addr s :=
    h.invariant (fun _ _ _ hst => step_inv haddr hst) (start_inv server app cmds)
  have hnum : Numbered s :=
    h.invariant (fun _ _ _ hst => step_numbered hst) ⟨List.nodup_nil, by simp [State.start]⟩
  refine ⟨hinv.written, hinv.called, hnum.1, ?_, ?_, ?_, ?_⟩
  · have hnd : s.tags.Nodup := List.nodup_iff_count_le_one.mpr hinv.once
    exact (List.nodup_append.mp hnd).2.1
  · exact fun i k resp t hr hst => hinv.matches haddr hr hst
  · intro i k resp t hr hne hst
    rcases hinv.matches haddr hr hst with hsame | ⟨p, htag, -⟩
    · exact hsame
    · exact absurd htag hne
  · intro i p t hst
    cases hst with
    | refuse herr => rw [executeCmd_client_of_error herr, Function.update_eq_self]

end Result

/-- Three commands that the server does not know, each with a callback. -/
def unknownCmds (p : Fin 3) : Cmd := ⟨9, 0, 0, 4, [], none, some 0x42001000, BitVec.ofNat 32 p⟩

/-- Endpoint 5 belongs to one client and endpoint 6 to the other one. -/
def clientAddr (i : Bool) : U16 := if i then 6 else 5

/-- The first client calls a second command before its first one is answered, and the other
client calls in between. -/
def supersededCalls : List (Label Bool (Fin 3)) :=
  [.takeId false 0, .track false, .send false, .takeId true 2, .track true, .send true,
    .deliverRequest 1, .takeId false 1, .deliverRequest 0, .track false, .send false, .recv,
    .finish 0 true, .deliverResponse false 0, .deliverRequest 0, .recv, .recv, .finish 0 true,
    .finish 0 true, .deliverResponse true 0, .deliverResponse false 0]

theorem supersededCalls_run : ∃ s : State Unit Bool (Fin 3),
    Run (Step (.freertos fifoKernel 4) clientAddr 120) (State.start emptyServer () unknownCmds)
      supersededCalls s ∧
    s.written = [⟨(false, 2), 1⟩, ⟨(true, 1), 2⟩] ∧ s.called = s.written ∧
    (s.cmds 0).status = statusPending ∧ (s.cmds 1).status = statusInvalidCmd ∧
    (s.cmds 2).status = statusInvalidCmd := by
  refine ⟨_, .next (.takeId rfl (show Client.refuses _ _ 120 true = none from rfl))
    (.next (.track rfl rfl) (.next (.send rfl rfl)
      (.next (.takeId rfl (show Client.refuses _ _ 120 true = none from rfl))
        (.next (.track rfl rfl) (.next (.send rfl rfl) (.next (.deliverRequest rfl)
          (.next (.takeId rfl (show Client.refuses _ _ 120 true = none from rfl))
            (.next (.deliverRequest rfl) (.next (.track rfl rfl) (.next (.send rfl rfl)
              (.next .recv (.next (.finish rfl) (.next (.deliverResponse rfl rfl (by decide))
                (.next (.deliverRequest rfl) (.next .recv (.next .recv (.next (.finish rfl)
                  (.next (.finish rfl) (.next (.deliverResponse rfl rfl (by decide))
                    (.next (.deliverResponse rfl rfl (by decide))
                      (.done _))))))))))))))))))))), rfl, rfl, rfl, rfl, rfl⟩

/-- The first response is to a call that another one has followed and completes nothing;
each of the other two completes the command of its own call. -/
theorem followed_call_left_pending :
    ∃ s : State Unit Bool (Fin 3),
      s.written = [⟨(false, 2), 1⟩, ⟨(true, 1), 2⟩] ∧ s.called = s.written ∧
      (s.cmds 0).status = statusPending ∧ (s.cmds 1).status = statusInvalidCmd ∧
      (s.cmds 2).status = statusInvalidCmd ∧
      (∀ e ∈ s.written, e ∈ s.issued) ∧ (s.written.map Entry.tag).Nodup := by
  obtain ⟨s, hs, hw, hc, h₀, h₁, h₂⟩ := supersededCalls_run
  have h := responses_reach_their_command (.freertos fifoKernel 4) clientAddr (by decide) 120
    emptyServer () _ _ s hs
  exact ⟨s, hw, hc, h₀, h₁, h₂, h.1, h.2.2.2.1⟩

end EspAmp.RpcMatching
