import EspAmp.RpcWire

/-!
# What the parsing of packets touches

A message has a length of its own, and the packet in it announces another one. The
loads of a server or a client stay in the message, and their stores in the objects they
are meant for, exactly when the announced length does not reach behind the message and a
response is not put into an item that has no room for both headers.
-/
namespace EspAmp.RpcBounds
open ByteMemory Virtqueue VirtqueueFifo VirtqueueOwnership RpcWire
open RpmsgChannel (Placed)
open RpmsgLength (rpmsgGetMaxSize maxSize_of_refines alloc_ok_iff refines_of_run)
open ReplyMachine (Run)
open Rpc (Client)

/-- The bytes of an access lie in an object of the given size. -/
def InBounds (size : ℕ) (r : ℕ × ℕ) : Prop := ∀ i, r.1 ≤ i → i < r.1 + r.2 → i < size

/-- The loads lie in the first bytes of the message, the stores in their objects. -/
structure Bounded (dataLen : ℕ) (size : Obj → ℕ) (m : Machine) : Prop where
  loads : ∀ r ∈ m.loads, InBounds dataLen r
  stores : ∀ w ∈ m.stores, InBounds (size w.1) w.2

theorem bounded_iff {dataLen : ℕ} {size : Obj → ℕ} {m : Machine} : Bounded dataLen size m ↔
    (∀ r ∈ m.loads, InBounds dataLen r) ∧ ∀ w ∈ m.stores, InBounds (size w.1) w.2 :=
  ⟨fun h => ⟨h.loads, h.stores⟩, fun h => ⟨h.1, h.2⟩⟩

/-- A machine that has not done anything stays inside. -/
theorem bounded_of {dataLen : ℕ} {size : Obj → ℕ} (mem : Memory 32) :
    Bounded dataLen size (Machine.of mem) :=
  ⟨fun _ hr => absurd hr List.not_mem_nil, fun _ hw => absurd hw List.not_mem_nil⟩

theorem stopped_or_null {running : Bool} {data : U32} (h : ¬ (running = true ∧ data ≠ 0)) :
    running = false ∨ data = 0 := by
  rwa [not_and_or, Bool.not_eq_true, not_not] at h

/-- A server has its two buffers and an item for the response. -/
def serverSize {σ : Type} (server : Server σ) (itemSize : U16) : Obj → ℕ
  | .reqBuf => server.reqBufLen.toNat
  | .respBuf => server.respBufLen.toNat
  | .respData => 0
  | .txItem => itemSize.toNat

/-- A client has the response bytes of its pending command. -/
def clientSize (respLen : U16) : Obj → ℕ
  | .respData => respLen.toNat
  | .reqBuf | .respBuf | .txItem => 0

theorem inBounds_iff {size off len : ℕ} :
    InBounds size (off, len) ↔ len = 0 ∨ off + len ≤ size := by
  constructor
  · intro h
    by_contra hout
    obtain ⟨hlen, hlong⟩ := not_or.mp hout
    have hlast := h (off + len - 1) (by simp only; omega) (by simp only; omega)
    omega
  · intro h i hi hi'
    simp only at hi hi'
    omega

section Server
variable {σ : Type} {server : Server σ} {app : σ} {mem : Memory 32} {data : U32} {u : Setup}
  {ring : Vring} {t : Fifos}

theorem execCmd_loads :
    (execCmd server app (Machine.of mem) data).1.m.loads =
      [(6, 2), (2, 2), (0, 2), (8, (requestLen server (word16 mem (data + 6#32))).toNat)] := by
  simp only [execCmd, runHandler]
  split <;> rfl

/-- A request is copied into the request buffer, and an unknown command leaves one byte
in the response buffer. -/
theorem execCmd_stores {size : Obj → ℕ} (hreq : size .reqBuf = server.reqBufLen.toNat)
    (hresp : size .respBuf = server.respBufLen.toNat) {w : Obj × ℕ × ℕ}
    (hw : w ∈ (execCmd server app (Machine.of mem) data).1.m.stores) :
    InBounds (size w.1) w.2 := by
  have hcopy : InBounds (size .reqBuf)
      (0, (requestLen server (word16 mem (data + 6#32))).toNat) := by
    rw [inBounds_iff, hreq, Nat.zero_add, requestLen, toNat_cutTo]
    exact Or.inr (min_le_left ..)
  have hbyte : InBounds (size .respBuf) (0, 1) := by
    have hpos : 0 < server.respBufLen.toNat :=
      Nat.pos_of_ne_zero fun h0 => server.respBufLen_ne (BitVec.eq_of_toNat_eq h0)
    rw [inBounds_iff, hresp]
    exact Or.inr hpos
  simp only [execCmd, runHandler] at hw
  split at hw
  · obtain rfl | rfl := List.mem_pair.mp hw
    · exact hcopy
    · exact hbyte
  · obtain rfl := List.mem_singleton.mp hw
    exact hcopy

/-- A response is stored when one is asked for and a message can be created for it. -/
theorem sendResponse_log (ran : Ran σ) (msgId cmdId clientAddr : U16) {maxSize : U16}
    (hmax : rpmsgGetMaxSize ring.master = maxSize) :
    let r := sendResponse server ran msgId cmdId ring clientAddr
    r.m.loads = ran.m.loads ∧
      r.m.stores = ran.m.stores ++
        if ran.cmd.respLen ≠ 0 ∧ (createMessage ring ran.m (maxSize.setWidth 32)).buf ≠ 0 then
          [(.txItem, 6, 2), (.txItem, 4, 2), (.txItem, 8, 8),
            (.txItem, 16, (responseLen maxSize ran.cmd.respLen).toNat),
            (.txItem, 4, 2), (.txItem, 2, 2), (.txItem, 0, 2)]
        else [] := by
  by_cases hask : ran.cmd.respLen = 0
  · rw [sendResponse_of_silent hask, if_neg fun h => h.1 hask]
    exact ⟨rfl, (List.append_nil _).symm⟩
  · by_cases hbuf : (createMessage ring ran.m (maxSize.setWidth 32)).buf = 0
    · rw [sendResponse_of_null hmax hask hbuf, if_neg fun h => h.2 hbuf]
      refine ⟨rfl, ?_⟩
      rw [createMessage_stores, if_pos hbuf]
    · rw [sendResponse_of_created server msgId cmdId clientAddr hmax hask rfl hbuf,
        if_pos ⟨hask, hbuf⟩]
      refine ⟨rfl, ?_⟩
      rw [sendPkt_stores, createMessage_stores, if_neg hbuf, length_pktHeader, List.append_assoc]
      rfl

/-- The stores of a response stay in its item exactly when both headers fit. -/
theorem response_inBounds_iff (hr : Refines u ring t) (hroom : 8 ≤ u.itemSize.toNat)
    {size : Obj → ℕ} (hsize : size .txItem = u.itemSize.toNat) (respLen : U16) :
    (∀ w ∈ ([(.txItem, 6, 2), (.txItem, 4, 2), (.txItem, 8, 8),
        (.txItem, 16, (responseLen (rpmsgGetMaxSize ring.master) respLen).toNat),
        (.txItem, 4, 2), (.txItem, 2, 2), (.txItem, 0, 2)] : List (Obj × ℕ × ℕ)),
      InBounds (size w.1) w.2) ↔ 16 ≤ u.itemSize.toNat := by
  have hitem := u.itemSize.isLt
  have hmax : (rpmsgGetMaxSize ring.master).toNat = u.itemSize.toNat - 8 := by
    rw [maxSize_of_refines hr]
    omega
  have hle : (responseLen (rpmsgGetMaxSize ring.master) respLen).toNat ≤
      (2 ^ 16 - 8 + (u.itemSize.toNat - 8)) % 2 ^ 16 := by
    rw [responseLen, toNat_cutTo, BitVec.toNat_sub, hmax]
    exact min_le_left ..
  simp only [List.forall_mem_cons, List.not_mem_nil, IsEmpty.forall_iff, implies_true, and_true,
    inBounds_iff, hsize]
  omega

/-- A response is asked for: the command is unknown, or its handler sets a length. -/
def WantsResponse (server : Server σ) (app : σ) (mem : Memory 32) (data : U32) : Prop :=
  let cmdId := word16 mem (data + 2#32)
  let reqBufLen := requestLen server (word16 mem (data + 6#32))
  ∀ handler, findHandler cmdId server.srv = some handler →
    (handler app (write mem server.reqBuf (read mem (data + 8#32) reqBufLen.toNat))
      (requestCmd server cmdId reqBufLen)).2.2.respLen ≠ 0

theorem respLen_ne_iff : (execCmd server app (Machine.of mem) data).1.cmd.respLen ≠ 0 ↔
    WantsResponse server app mem data := by
  have hcmd : (execCmd server app (Machine.of mem) data).1 = runHandler server.srv app _
    (requestCmd server (word16 mem (data + 2#32))
      (requestLen server (word16 mem (data + 6#32)))) := rfl
  have hid (n : U16) : (requestCmd server (word16 mem (data + 2#32)) n).cmdId =
    word16 mem (data + 2#32) := rfl
  rw [hcmd, runHandler, hid, WantsResponse]
  cases findHandler (word16 mem (data + 2#32)) server.srv with
  | none => simp
  | some handler =>
      simp only [Option.some.injEq, forall_eq']
      rfl

/-- A request is executed: the server runs, the message is there, and the environment takes
it. -/
def Executes (env : ServerEnv) (server : Server σ) (data : U32) : Prop :=
  server.running = true ∧ data ≠ 0 ∧ env.takes = true

/-- The packet of a request stays in its message, and its response is not put into an
item that has room for the RPMsg header alone. -/
def RequestFits (server : Server σ) (app : σ) (ring : Vring) (itemSize : U16) (mem : Memory 32)
    (data : U32) (dataLen : U16) : Prop :=
  8 + (requestLen server (word16 mem (data + 6#32))).toNat ≤ dataLen.toNat ∧
    (WantsResponse server app mem data →
      (ring.reply (.alloc 0)).ret = espOk → itemSize.toNat < 8 ∨ 16 ≤ itemSize.toNat)

/-- The stores of a request stay inside when those of its response do. -/
theorem stores_inBounds_iff (hp : Placed u) (hr : Refines u ring t)
    (haddr : ∀ b ∈ t.free, b ∈ u.addrs) (msgId cmdId clientAddr : U16) {ran : Ran σ}
    {server : Server σ}
    (hran : ∀ w ∈ ran.m.stores, InBounds (serverSize server u.itemSize w.1) w.2) :
    (∀ w ∈ (sendResponse server ran msgId cmdId ring clientAddr).m.stores,
        InBounds (serverSize server u.itemSize w.1) w.2) ↔
      (ran.cmd.respLen ≠ 0 → (ring.reply (.alloc 0)).ret = espOk →
        u.itemSize.toNat < 8 ∨ 16 ≤ u.itemSize.toNat) := by
  have hcreated := createMessage_max_iff hp hr haddr ran.m
  rw [(sendResponse_log ran msgId cmdId clientAddr rfl).2, List.forall_mem_append,
    and_iff_right hran, alloc_ok_iff hp hr]
  split_ifs with hsent
  · obtain ⟨hroom, hfree⟩ := hcreated.mp hsent.2
    rw [response_inBounds_iff hr hroom rfl]
    exact ⟨fun h _ _ => Or.inr h, fun h => (h hsent.1 hfree).resolve_left (by omega)⟩
  · refine iff_of_true (by simp) fun hask hfree => ?_
    by_contra hsmall
    exact hsent ⟨hask, hcreated.mpr ⟨by omega, hfree⟩⟩

theorem deliver_bounded_iff (env : ServerEnv) (hp : Placed u) (hr : Refines u ring t)
    (haddr : ∀ b ∈ t.free, b ∈ u.addrs) (dataLen srcAddr : U16) :
    Bounded dataLen.toNat (serverSize server u.itemSize)
        (deliver env server app ring (Machine.of mem) data srcAddr).m ↔
      (Executes env server data →
        RequestFits server app ring u.itemSize mem data dataLen) := by
  by_cases hgo : Executes env server data
  · have hinside (w) (hw : w ∈ (execCmd server app (Machine.of mem) data).1.m.stores) :
        InBounds (serverSize server u.itemSize w.1) w.2 := execCmd_stores rfl rfl hw
    rw [deliver, if_pos hgo.2.2, serve_of_running hgo.1 hgo.2.1, bounded_iff,
      (sendResponse_log _ _ _ srcAddr rfl).1, execCmd_loads,
      stores_inBounds_iff hp hr haddr _ _ _ hinside, respLen_ne_iff, forall_prop_of_true hgo,
      RequestFits]
    refine and_congr_left fun _ => ?_
    simp only [List.forall_mem_cons, List.not_mem_nil, IsEmpty.forall_iff, implies_true, and_true,
      inBounds_iff]
    omega
  · have hidle : deliver env server app ring (Machine.of mem) data srcAddr =
        ⟨app, ring, Machine.of mem, none⟩ := by
      rw [deliver]
      split_ifs with htakes
      · exact if_pos (stopped_or_null fun h => hgo ⟨h.1, h.2, htakes⟩)
      · rfl
    rw [hidle]
    exact iff_of_true (bounded_of mem) fun h => absurd h hgo

end Server

section Client
variable {κ : Type} [DecidableEq κ] {client : Client κ} {cmds : κ → CmdBlock} {mem : Memory 32}
  {data : U32}

/-- The response bytes of the pending command, if there is one. -/
def pendingSize (client : Client κ) (cmds : κ → CmdBlock) : Obj → ℕ :=
  clientSize ((client.pendingCmd.map fun p => (cmds p).respLen).getD 0)

/-- What a client looks at stays in the message: the id, behind it the other fields when
the id is the pending one, and the data that it copies. -/
def ResponseFits (client : Client κ) (cmds : κ → CmdBlock) (mem : Memory 32) (data : U32)
    (dataLen : U16) : Prop :=
  ∀ p, client.pendingCmd = some p → 2 ≤ dataLen.toNat ∧
    (word16 mem (data + 0#32) = client.pendingId → 8 ≤ dataLen.toNat ∧
      (0 < word16 mem (data + 6#32) → (cmds p).respData ≠ 0 →
        8 + (cpyLen (cmds p).respLen (word16 mem (data + 6#32))).toNat ≤ dataLen.toNat))

/-- A response to the pending command stays inside exactly when it reaches no further
than the message. -/
theorem copyResponse_bounded_iff (c : CmdBlock) {size : Obj → ℕ}
    (hsize : size .respData = c.respLen.toNat) {dataLen : ℕ} {m : Machine} {data : U32}
    (hm : Bounded dataLen size m ↔ 6 ≤ dataLen) :
    Bounded dataLen size (copyResponse c m data) ↔
      8 ≤ dataLen ∧ (0 < word16 m.mem (data + 6#32) → c.respData ≠ 0 →
        8 + (cpyLen c.respLen (word16 m.mem (data + 6#32))).toNat ≤ dataLen) := by
  have hle : (cpyLen c.respLen (word16 m.mem (data + 6#32))).toNat ≤ c.respLen.toNat := by
    rw [cpyLen, toNat_cutTo]
    exact min_le_left ..
  rw [bounded_iff] at hm
  by_cases hcopy : 0 < word16 m.mem (data + 6#32) ∧ c.respData ≠ 0
  · have hcopied : copyResponse c m data = (m.field data 6).2.copyMsgData .respData c.respData data
        (cpyLen c.respLen (word16 m.mem (data + 6#32))).toNat := if_pos hcopy
    rw [hcopied, bounded_iff, forall_prop_of_true hcopy.1, forall_prop_of_true hcopy.2]
    simp only [Machine.field, Machine.copyMsgData, List.forall_mem_append,
      List.forall_mem_singleton, inBounds_iff, hsize]
    grind
  · have hkept : copyResponse c m data = (m.field data 6).2 := if_neg hcopy
    have hskip : 0 < word16 m.mem (data + 6#32) → c.respData ≠ 0 →
        8 + (cpyLen c.respLen (word16 m.mem (data + 6#32))).toNat ≤ dataLen :=
      fun hlen hdata => absurd ⟨hlen, hdata⟩ hcopy
    rw [hkept, bounded_iff, and_iff_left hskip]
    simp only [Machine.field, List.forall_mem_append, List.forall_mem_singleton, inBounds_iff]
    grind

theorem clientCb_bounded_iff (client : Client κ) (cmds : κ → CmdBlock) (mem : Memory 32)
    (data : U32) (dataLen : U16) :
    Bounded dataLen.toNat (pendingSize client cmds)
        (clientCb client cmds (Machine.of mem) data).m ↔
      (client.running = true ∧ data ≠ 0 → ResponseFits client cmds mem data dataLen) := by
  by_cases hgo : client.running = true ∧ data ≠ 0
  · rw [forall_prop_of_true hgo, ResponseFits]
    cases hp : client.pendingCmd with
    | none =>
        rw [clientCb_of_idle hgo.1 hgo.2 hp]
        exact iff_of_true (bounded_of mem) fun p h => absurd h (by simp)
    | some p =>
        have hsize : pendingSize client cmds .respData = (cmds p).respLen.toNat := by
          rw [pendingSize, hp]
          rfl
        simp only [Option.some.injEq, forall_eq']
        by_cases hid : word16 mem (data + 0#32) = client.pendingId
        · have hfields : Bounded dataLen.toNat (pendingSize client cmds)
              (((Machine.of mem).field data 0).2.field data 4).2 ↔ 6 ≤ dataLen.toNat := by
            rw [bounded_iff]
            simp only [Machine.field, Machine.of, List.nil_append, List.cons_append,
              List.forall_mem_cons, List.not_mem_nil, IsEmpty.forall_iff, implies_true, and_true,
              inBounds_iff]
            omega
          rw [clientCb_of_pending (m := Machine.of mem) hgo.1 hgo.2 hp hid,
            copyResponse_bounded_iff (cmds p) hsize hfields]
          exact ⟨fun h => ⟨le_trans (by decide) h.1, fun _ => h⟩, fun h => h.2 hid⟩
        · rw [clientCb_of_other (m := Machine.of mem) hgo.1 hgo.2 hp hid]
          have hloads : (∀ r ∈ ((Machine.of mem).field data 0).2.loads,
              InBounds dataLen.toNat r) ↔ 2 ≤ dataLen.toNat := by
            simp [Machine.field, Machine.of, inBounds_iff]
          exact ⟨fun h => ⟨hloads.mp h.loads, fun heq => absurd heq hid⟩,
            fun h => ⟨hloads.mpr h.1, by simp [Machine.field, Machine.of]⟩⟩
  · have hidle : clientCb client cmds (Machine.of mem) data =
        ⟨Rpc.rpcFail, cmds, Machine.of mem, []⟩ := if_pos (stopped_or_null hgo)
    rw [hidle]
    exact iff_of_true (bounded_of mem) fun h => absurd h hgo

end Client

/-- For every message to a server or a client: everything stays inside if and only if a
running side is given a packet that reaches no further than its message, and a server does
not have to respond in items that hold the RPMsg header but not both headers. A request
that the server's queue does not take, or that is never taken out of it, stays unread. -/
theorem rpc_accesses_bounded_iff {σ κ : Type} [DecidableEq κ] (u : Setup) (hp : Placed u)
    {calls : List Call} {o : Owned} (hrun : Run OwnStep (start u) calls o) (mem : Memory 32)
    (data : U32) (dataLen srcAddr : U16) (env : ServerEnv) (server : Server σ) (app : σ)
    (client : Client κ) (cmds : κ → CmdBlock) :
    (Bounded dataLen.toNat (serverSize server u.itemSize)
        (deliver env server app o.ring (Machine.of mem) data srcAddr).m ↔
      (Executes env server data →
        RequestFits server app o.ring u.itemSize mem data dataLen)) ∧
    (Bounded dataLen.toNat (pendingSize client cmds)
        (clientCb client cmds (Machine.of mem) data).m ↔
      (client.running = true ∧ data ≠ 0 → ResponseFits client cmds mem data dataLen)) := by
  obtain ⟨t, hr, haddr⟩ := refines_of_run hrun
  exact ⟨deliver_bounded_iff env hp hr haddr dataLen srcAddr,
    clientCb_bounded_iff client cmds mem data dataLen⟩

/-- A server with buffers of 64 bytes and no services. -/
def smallServer : Server Unit where
  running := true
  reqBufLen := 64
  reqBufLen_ne := by decide
  respBufLen := 64
  respBufLen_ne := by decide
  reqBuf := 0x40870000
  respBuf := 0x40870100
  srv := []
  rpmsgEpt := ⟨0x40870200, 5, none, 0⟩

/-- A request without data, eight bytes long, for an unknown command. -/
theorem header_alone_stays_inside :
    Bounded 8 (serverSize smallServer twoBuffers.itemSize)
      (deliver (.freeRtos (some 0) true) smallServer () twoBuffers.start (Machine.of fun _ => 0)
        0x40860008 6).m :=
  (rpc_accesses_bounded_iff twoBuffers RpmsgLength.twoBuffers_placed (.done _) (fun _ => 0)
    0x40860008 8 6 (.freeRtos (some 0) true) smallServer () (Client.init : Client Unit)
    (fun _ => ⟨0, 0, 0, 0, 0, 0, none, 0⟩)).1.mpr
      fun _ => ⟨by decide, fun _ _ => Or.inr (by decide)⟩

/-- A message of eight bytes whose packet announces 100: the server copies 64 bytes from
behind the message. -/
theorem announced_length_read_behind_message :
    ¬ Bounded 8 (serverSize smallServer twoBuffers.itemSize)
      (deliver .bareMetal smallServer () twoBuffers.start
        (Machine.of fun x => if x = 0x4086000e then 100 else 0) 0x40860008 6).m := by
  intro h
  have hload := h.loads (8, 64) (by decide +kernel) 8 (by decide) (by decide)
  exact absurd hload (by decide)

end EspAmp.RpcBounds
