import EspAmp.RpmsgPair

/-!
# Delivery and disposal of RPMsg messages

A poll that takes a message either calls one callback or none. It calls none
when the destination is unknown, and when the endpoint registered there has no
callback; then nobody learns the address of the buffer, and nobody can return
it. As long as every polled message meets an endpoint with a callback, the
callbacks are told exactly the sent messages in order, received bytes stay as
they are until the receiver changes or destroys them, and no buffer is lost.
-/
namespace EspAmp.RpmsgDelivery
open ByteMemory Virtqueue VirtqueueFifo VirtqueueOwnership ReplyMachine Rpmsg RpmsgChannel RpmsgPair

/-- What the callbacks were told, in the order of the calls. -/
def delivered (c : Chan) : List Msg := (c.polled.flatMap Polled.calls).map CbCall.msg

/-- The message was passed once, to the callback of the endpoint registered at
its destination. -/
def Handed (e : Polled) : Prop :=
  ∃ ept cb, e.ept = some ept ∧ ept.addr = e.msg.dst ∧ ept.rxCb = some cb ∧
    e.calls = [⟨ept.addr, cb, e.buffer + 8#32, e.msg.len, e.msg.src, ept.rxCbData, e.msg.payload⟩]

/-- If the next poll takes a message, its destination has an endpoint with a
callback. -/
def Served (c : Chan) (mem : Memory 32) : Prop :=
  (c.ring.reply .recv).ret = 0 →
    ((searchEndpoint c.epts (dstAddrAt mem (c.ring.reply .recv).buffer)).bind Ept.rxCb).isSome

instance (c : Chan) (mem : Memory 32) : Decidable (Served c mem) :=
  inferInstanceAs (Decidable (_ → _))

/-- A step that is no poll of a message without a callback. -/
def ServedLegal (p : Pair) (s : Sys) (l : Side × Op) : Prop :=
  s.Legal p l.1 l.2 ∧ (l.2 = .poll → Served (s.chan l.1.other) s.mem)

instance (p : Pair) (s : Sys) (l : Side × Op) : Decidable (ServedLegal p s l) :=
  inferInstanceAs (Decidable (_ ∧ _))

def ServedStep (p : Pair) (s : Sys) (l : Side × Op) (s' : Sys) : Prop :=
  ServedLegal p s l ∧ s' = s.exec p l.1 l.2

/-- Every polled message was handed over, and the receiver holds nothing else. -/
structure AllHanded (c : Chan) : Prop where
  handed : ∀ e ∈ c.polled, Handed e
  kept : c.leaked = []
  held : ∀ k ∈ c.rxHeld, ∃ e ∈ c.polled, k.buffer = e.buffer ∧ k.msg = e.msg

theorem rpmsgDispatcher_handed {mem : Memory 32} {epts : List Ept} {b : U32}
    (h : ((searchEndpoint epts (dstAddrAt mem b)).bind Ept.rxCb).isSome) :
    Handed ⟨b, msgAt mem b, searchEndpoint epts (dstAddrAt mem b),
      (rpmsgDispatcher mem epts b).2⟩ := by
  cases he : searchEndpoint epts (dstAddrAt mem b) with
  | none => simp [he] at h
  | some ept =>
      cases hc : ept.rxCb with
      | none => simp [he, hc] at h
      | some cb =>
          refine ⟨ept, cb, rfl, (addr_of_search he).2, hc, ?_⟩
          simp only [rpmsgDispatcher, he, hc]
          rfl

section Steps
variable {c c' : Chan} {mem : Memory 32}

/-- Sender calls do not change what the receiver has seen. -/
theorem AllHanded.congr (h : AllHanded c) (hs : c.SenderOnly c') : AllHanded c' := by
  constructor
  · rw [hs.polled]
    exact h.handed
  · rw [hs.leaked]
    exact h.kept
  · rw [hs.rxHeld, hs.polled]
    exact h.held

theorem AllHanded.setEpts (h : AllHanded c) (epts : List Ept) : AllHanded { c with epts := epts } :=
  ⟨h.handed, h.kept, h.held⟩

theorem AllHanded.poll (h : AllHanded c) (hs : Served c mem) : AllHanded (c.poll mem) := by
  by_cases hret : (c.ring.reply .recv).ret = 0
  · obtain ⟨ept, cb, -, haddr, -, hcalls⟩ := rpmsgDispatcher_handed (hs hret)
    simp only [Chan.poll, rpmsgPoll, hret, ne_eq, not_true_eq_false, if_false]
    refine ⟨?_, ?_, ?_⟩
    · intro e he
      rcases List.mem_append.mp he with he | he
      · exact h.handed e he
      · obtain rfl := List.mem_singleton.mp he
        exact rpmsgDispatcher_handed (hs hret)
    · simp only at hcalls
      simp only [hcalls, reduceCtorEq, if_false]
      exact h.kept
    · intro k hk
      rcases List.mem_append.mp hk with hk | hk
      · refine ⟨_, List.mem_append_right _ (List.mem_singleton.mpr rfl), ?_⟩
        simp only at hcalls haddr
        simp only [hcalls, List.map_cons, List.map_nil, List.mem_singleton] at hk
        subst hk
        simp only [BitVec.add_sub_cancel, CbCall.msg, haddr, true_and]
      · obtain ⟨e, he, hke⟩ := h.held k hk
        exact ⟨e, List.mem_append_left _ he, hke⟩
  · simp only [Chan.poll, rpmsgPoll, ne_eq, hret, not_false_eq_true, if_true]
    exact h.congr ⟨rfl, rfl, rfl, rfl, List.prefix_rfl⟩

theorem AllHanded.destroy (h : AllHanded c) (msgData : U32) : AllHanded (c.destroy msgData) := by
  simp only [Chan.destroy]
  split_ifs
  · exact ⟨h.handed, h.kept, fun k hk => h.held k (List.mem_of_mem_eraseP hk)⟩
  · exact h.congr ⟨rfl, rfl, rfl, rfl, List.prefix_rfl⟩

theorem AllHanded.mark (h : AllHanded c) (n : ℕ) (x : U32) : AllHanded (c.mark n x) := by
  refine ⟨h.handed, h.kept, ?_⟩
  intro k hk
  obtain ⟨k', hk', rfl⟩ := List.mem_map.mp hk
  obtain ⟨e, he, hb, hm⟩ := h.held k' hk'
  refine ⟨e, he, ?_⟩
  split_ifs
  · exact ⟨hb, hm⟩
  · exact ⟨hb, hm⟩

/-- The callbacks were told what was polled. -/
theorem AllHanded.delivered_eq (h : AllHanded c) : delivered c = c.polled.map Polled.msg := by
  have hone : ∀ e ∈ c.polled, e.calls.map CbCall.msg = [e.msg] := by
    intro e he
    obtain ⟨ept, cb, -, haddr, -, hcalls⟩ := h.handed e he
    rw [hcalls, List.map_singleton, CbCall.msg, haddr]
  rw [delivered, List.map_flatMap]
  exact (List.flatMap_congr hone).trans (List.flatMap_pure_eq_map Polled.msg c.polled)

end Steps

section Runs
variable {p : Pair} {s : Sys} {d : Side} {mem : Memory 32} {ls : List (Side × Op)}

theorem setChan_handed (h : ∀ e, AllHanded (s.chan e)) {c : Chan} (hc : AllHanded c)
    (m : Memory 32) (e : Side) : AllHanded ({ s.setChan d c with mem := m }.chan e) := by
  by_cases he : e = d
  · subst he
    simpa [Sys.setChan] using hc
  · simpa [Sys.setChan, he] using h e

theorem exec_handed (h : ∀ e, AllHanded (s.chan e)) {l : Side × Op} (hl : ServedLegal p s l)
    (e : Side) : AllHanded ((s.exec p l.1 l.2).chan e) := by
  obtain ⟨d, op⟩ := l
  cases op with
  | createMessage nbytes flags =>
      exact setChan_handed h ((h d).congr (Chan.createMessage_senderOnly ..)) _ e
  | store x v => exact setChan_handed h ((h d.other).mark _ x) _ e
  | sendNocopy ept dst data len =>
      exact setChan_handed h ((h d).congr (Chan.sendNocopy_senderOnly ..)) _ e
  | send ept dst data len =>
      exact setChan_handed h ((h d).congr (Chan.send_senderOnly ..)) _ e
  | poll => exact setChan_handed h ((h d.other).poll (hl.2 rfl)) _ e
  | destroy msgData => exact setChan_handed h ((h d.other).destroy msgData) _ e
  | createEndpoint eptAddr rxCb rxCbData ctx =>
      exact setChan_handed h ((h d.other).setEpts _) s.mem e
  | deleteEndpoint eptAddr =>
      exact setChan_handed h ((h d.other).setEpts _) s.mem e
  | rebindEndpoint eptAddr rxCb rxCbData =>
      exact setChan_handed h ((h d.other).setEpts _) s.mem e

theorem run_handed (h : Run (ServedStep p) (p.start mem) ls s) : ∀ e, AllHanded (s.chan e) := by
  refine h.invariant (P := fun s => ∀ e, AllHanded (s.chan e)) ?_ ?_
  · rintro s l _ ⟨hl, rfl⟩ hs
    exact exec_handed hs hl
  · intro e
    refine ⟨?_, rfl, ?_⟩
    · intro k hk
      cases hk
    · intro k hk
      cases hk

theorem run_sysInv_of_served (h : Run (ServedStep p) (p.start mem) ls s) : SysInv p s := by
  refine h.invariant (P := SysInv p) ?_ (start_sysInv p mem)
  rintro s l _ ⟨hl, rfl⟩ hs
  exact hs.exec hl.1

/-- While every polled message meets a callback, the callbacks of each direction
are told a prefix of what was sent, and a received message that its receiver did
not write to is still there. -/
theorem delivered_prefix_of_sent (p : Pair) (mem : Memory 32) {ls : List (Side × Op)} {s : Sys}
    (h : Run (ServedStep p) (p.start mem) ls s) (d : Side) :
    delivered (s.chan d) <+: (s.chan d).sent ∧
      ∀ k ∈ (s.chan d).rxHeld, k.msg ∈ delivered (s.chan d) ∧
        (k.written = false → msgAt s.mem k.buffer = k.msg) := by
  obtain ⟨t, ht⟩ := run_sysInv_of_served h d
  have hh := run_handed h d
  rw [hh.delivered_eq]
  constructor
  · rw [ht.log]
    exact List.prefix_append _ _
  · intro k hk
    obtain ⟨e, he, -, hmsg⟩ := hh.held k hk
    exact ⟨hmsg ▸ List.mem_map_of_mem he, fun hw => (ht.intact k hk hw).1⟩

/-- The first buffer is created before and sent after a copying send. -/
def mixedOps : List (Side × Op) :=
  [(.sub, .createEndpoint 5 (some 0x42000100) 0 0x3ffb0000), (.main, .createMessage 2 0),
    (.main, .store 0x4087a628 0x61), (.main, .send ⟨0x40880000, 1, none, 0⟩ 5 0x20000001 3),
    (.main, .sendNocopy ⟨0x40880010, 2, none, 0⟩ 5 0x4087a628 1), (.sub, .poll), (.sub, .poll),
    (.sub, .destroy 0x4087a638), (.main, .createMessage 8 0)]

/-- Every byte of the initial memory is the low byte of its address. -/
def countingMemory : Memory 32 := fun x => x.setWidth 8

theorem mixedOps_run : Run (ServedStep smallPair) (smallPair.start countingMemory) mixedOps
    (mixedOps.foldl (fun s l => s.exec smallPair l.1 l.2) (smallPair.start countingMemory)) :=
  Run.of_allowed (by decide +kernel)

theorem mixedOps_delivered :
    let s := mixedOps.foldl (fun s l => s.exec smallPair l.1 l.2) (smallPair.start countingMemory)
    Run (ServedStep smallPair) (smallPair.start countingMemory) mixedOps s ∧
      delivered (s.chan .main) = [⟨5, 1, 3, [1, 2, 3]⟩, ⟨5, 2, 1, [0x61]⟩] ∧
      delivered (s.chan .main) <+: (s.chan .main).sent := by
  refine ⟨mixedOps_run, by decide +kernel, ?_⟩
  exact (delivered_prefix_of_sent smallPair countingMemory mixedOps_run .main).1

/-- While every polled message meets a callback, each one is passed on exactly
once, and when nothing is under way or held, every buffer can be allocated. -/
theorem polled_messages_disposed (p : Pair) (mem : Memory 32) {ls : List (Side × Op)} {s : Sys}
    (h : Run (ServedStep p) (p.start mem) ls s) (d : Side) :
    (∀ e ∈ (s.chan d).polled, Handed e) ∧
      (receivable (p.link d).n (s.chan d).ring = [] → (s.chan d).rxHeld = [] →
        (s.chan d).txHeld = [] →
        (s.chan d).polled.map Polled.msg = (s.chan d).sent ∧
        (allocable (p.link d).n (s.chan d).ring).Perm (p.link d).addrs) := by
  obtain ⟨t, ht⟩ := run_sysInv_of_served h d
  have hh := run_handed h d
  refine ⟨hh.handed, ?_⟩
  intro hq hrx htx
  rw [receivable_of_refines ht.refines, List.map_eq_nil_iff] at hq
  have htotal := ht.total
  simp only [hq, hrx, htx, hh.kept, List.map_nil, List.append_nil] at htotal
  constructor
  · rw [ht.log, hq, List.map_nil, List.append_nil]
  · rw [allocable_of_refines ht.refines]
    exact htotal

/-- A message is sent, polled by its callback and destroyed. -/
def roundTrip : List (Side × Op) :=
  [(.sub, .createEndpoint 5 (some 0x42000100) 0 0x3ffb0000),
    (.main, .send ⟨0x40880000, 1, none, 0⟩ 5 0x20000001 3), (.sub, .poll),
    (.sub, .destroy 0x4087a628)]

theorem roundTrip_run : Run (ServedStep smallPair) (smallPair.start countingMemory) roundTrip
    (roundTrip.foldl (fun s l => s.exec smallPair l.1 l.2) (smallPair.start countingMemory)) :=
  Run.of_allowed (by decide +kernel)

theorem roundTrip_disposed :
    let s := roundTrip.foldl (fun s l => s.exec smallPair l.1 l.2) (smallPair.start countingMemory)
    Run (ServedStep smallPair) (smallPair.start countingMemory) roundTrip s ∧
      (s.chan .main).polled.length = 1 ∧ (∀ e ∈ (s.chan .main).polled, Handed e) ∧
      (allocable 2 (s.chan .main).ring).Perm (smallPair.link .main).addrs := by
  have h := polled_messages_disposed smallPair countingMemory roundTrip_run .main
  refine ⟨roundTrip_run, by decide +kernel, h.1, ?_⟩
  exact (h.2 (by decide +kernel) (by decide +kernel) (by decide +kernel)).2

/-- One message to an unknown destination, and one to an endpoint without a
callback. -/
def unserved : List (Side × Op) :=
  [(.main, .send ⟨0x40880000, 1, none, 0⟩ 5 0x20000001 3), (.sub, .poll),
    (.sub, .createEndpoint 6 none 0 0x3ffb0000),
    (.main, .send ⟨0x40880000, 1, none, 0⟩ 6 0x20000001 3), (.sub, .poll)]

/-- Both messages are gone, nobody holds a buffer, and none can be allocated. -/
theorem unserved_leaks :
    let s := unserved.foldl (fun s l => s.exec smallPair l.1 l.2) (smallPair.start countingMemory)
    Run (Step smallPair) (smallPair.start countingMemory) unserved s ∧
      (s.chan .main).polled.map Polled.msg = [⟨5, 1, 3, [1, 2, 3]⟩, ⟨6, 1, 3, [1, 2, 3]⟩] ∧
      (∀ e ∈ (s.chan .main).polled,
        e.calls = [] ∧ e.buffer ∉ allocable 2 (s.chan .main).ring) ∧
      receivable 2 (s.chan .main).ring = [] ∧ (s.chan .main).rxHeld = [] ∧
      (s.chan .main).txHeld = [] ∧ allocable 2 (s.chan .main).ring = [] := by
  have hlegal : Run.Allowed (fun (s : Sys) l => s.Legal smallPair l.1 l.2)
      (fun s l => s.exec smallPair l.1 l.2) (smallPair.start countingMemory) unserved := by
    decide +kernel
  exact ⟨Run.of_allowed hlegal, by decide +kernel⟩

end Runs
end EspAmp.RpmsgDelivery
