import EspAmp.ServiceQueue
import Mathlib.Data.List.TakeWhile

/-!
# Requests in shared memory

A request is an item of shared memory that passes from the free items to the subcore,
through the queue to the supplicant and back. The invariant places every item once, ties the
bytes of the items under way to the requests that were sent, and the bytes of the item in
hand to the lines into which the stored characters are cut. Every step of either core keeps
it: a store of the subcore meets only the item that it holds, and the supplicant reads the
text of a request that nobody changes meanwhile.
-/
namespace EspAmp.ServiceQueue
open ByteMemory Virtqueue VirtqueueFifo VirtqueueOwnership RpmsgChannel Printf ReplyMachine
open ConsoleLines (Packet Console Cut Tracks cut maxLen)
open InterruptPort (SubcoreType)

section Packets
variable {m m' : Memory 32} {b : U32} {i : U16}

theorem slot_eq_offset (buf : U32) (i : U16) : slot buf i = buf + BitVec.ofNat 32 i.toNat := by
  rw [slot, BitVec.ofNat_toNat]

theorem slot_eq (b : U32) (i : U16) : slot (b + 4#32) i = b + BitVec.ofNat 32 (4 + i.toNat) := by
  rw [slot_eq_offset, BitVec.add_assoc, BitVec.ofNat_add]

/-- The bytes of a parameter lie inside the item. -/
theorem within_slot (hi : i.toNat < maxLen) : Within b 128 (slot (b + 4#32) i) := by
  rw [slot_eq]
  exact within_add_ofNat (by change i.toNat < 124 at hi; omega)

theorem slot_not_within_header (hi : i.toNat < maxLen) : ¬ Within b 4 (slot (b + 4#32) i) := by
  change i.toNat < 124 at hi
  rw [slot_eq, Within, sub_add_ofNat b (by omega)]
  omega

theorem length_param (m : Memory 32) (b : U32) : (packetAt m b).param.length = maxLen :=
  length_read

/-- A packet is a matter of the bytes of its item. -/
theorem packetAt_congr (h : ∀ x, Within b 128 x → m' x = m x) : packetAt m' b = packetAt m b := by
  rw [packetAt, packetAt, word16_congr fun x hx => h x (hx.mono (by decide)),
    word16_congr fun x hx => h x (within_of_offset (k := 2) (by decide) hx),
    read_congr fun x hx => h x (within_of_offset (k := 4) (by decide) hx)]

theorem write_byte_self (m : Memory 32) (a : U32) (c : U8) : write m a [c] a = c := by
  have h := write_add_ofNat (m := m) (a := a) [c] (i := 0) (by simp) (by simp)
  simpa using h

/-- A store into the parameter changes one of its bytes. -/
theorem packetAt_write (hi : i.toNat < maxLen) (c : U8) :
    packetAt (write m (slot (b + 4#32) i) [c]) b =
      { packetAt m b with param := (packetAt m b).param.set i.toNat c } := by
  have hheader : ∀ x, Within b 4 x → write m (slot (b + 4#32) i) [c] x = m x := by
    intro x hx
    refine write_byte_of_ne ?_
    rintro rfl
    exact slot_not_within_header hi hx
  rw [packetAt, packetAt, word16_congr fun x hx => hheader x (hx.mono (by decide)),
    word16_congr fun x hx => hheader x (within_of_offset (k := 2) (by decide) hx), Packet.mk.injEq]
  refine ⟨rfl, rfl, List.ext_getElem (by simp) fun j hj hj' => ?_⟩
  rw [length_read] at hj
  change j < 124 at hj
  change i.toNat < 124 at hi
  rw [List.getElem_set]
  simp only [ByteMemory.read, List.getElem_map, List.getElem_range, slot_eq_offset]
  split_ifs with hij
  · subst hij
    exact write_byte_self _ _ _
  · refine write_byte_of_ne fun heq => hij ?_
    have hnat := congrArg BitVec.toNat (BitVec.add_right_inj _ |>.mp heq)
    rw [BitVec.toNat_ofNat, BitVec.toNat_ofNat, Nat.mod_eq_of_lt (by omega),
      Nat.mod_eq_of_lt (by omega)] at hnat
    exact hnat.symm

theorem param_getElem? (hi : i.toNat < maxLen) :
    (packetAt m b).param[i.toNat]? = some (m (slot (b + 4#32) i)) := by
  have hlen : i.toNat < (packetAt m b).param.length := by rwa [length_param]
  rw [List.getElem?_eq_getElem hlen, slot_eq_offset]
  simp [packetAt, ByteMemory.read]

/-- The header words are stored in front of the parameter. -/
theorem packetAt_header (id len : U16) :
    packetAt (write16 (write16 m b id) (b + 2#32) len) b =
      ⟨id.toNat, len.toNat, (packetAt m b).param⟩ := by
  have hid : word16 (write16 (write16 m b id) (b + 2#32) len) b = id := by
    have hapart : Apart b 2 (b + 2#32) 2 := by
      have h := apart_of_offsets (a := b) (i := 0) (n := 2) (j := 2) (k := 2) (by decide)
        (by decide)
      simpa using h
    rw [word16_write16_apart hapart, word16_write16 (by decide)]
  rw [packetAt, hid, word16_write16 (by decide)]
  refine congrArg _ (read_congr fun x hx => ?_)
  have hout : ∀ k, k + 2 ≤ 4 → ¬ Within (b + BitVec.ofNat 32 k) 2 x := fun k hk hw =>
    apart_of_offsets (a := b) (i := k) (n := 2) (j := 4) (k := maxLen) hk (by decide) x hw hx
  rw [write16_of_not_within (hout 2 (by decide)),
    write16_of_not_within (by simpa using hout 0 (by decide))]

end Packets

section Simulation
variable {s : State} {b : U32} {c : U8}

/-- The static variables of the subcore with the bytes of its buffer. -/
def State.console (s : State) : Console where
  buf := if s.buf = 0 then none else some (packetAt s.mem (s.buf - 4#32))
  bufLen := s.bufLen.toNat
  pos := s.pos.toNat
  sent := s.sent

theorem console_of_buf (hbuf : s.buf ≠ 0) (hb : s.buf = b + 4#32) :
    s.console = ⟨some (packetAt s.mem b), s.bufLen.toNat, s.pos.toNat, s.sent⟩ := by
  rw [State.console, if_neg hbuf, hb, BitVec.add_sub_cancel]

theorem console_write {m : Memory 32} {i : U16} (hi : i.toNat < maxLen) :
    ConsoleLines.write (packetAt m b).param i.toNat c =
      some (packetAt (write m (slot (b + 4#32) i) [c]) b).param := by
  rw [packetAt_write hi, ConsoleLines.write, if_pos (by rwa [length_param])]

/-- What a step back from `pos` reads and writes. -/
theorem console_back {m : Memory 32} {pos k : U16} (hpos : pos.toNat < maxLen) (hk : k ≤ pos) :
    (packetAt m b).param[pos.toNat - k.toNat]? = some (m (slot (b + 4#32) (pos - k))) ∧
      ConsoleLines.write (packetAt m b).param (pos.toNat - k.toNat) 0 =
        some (packetAt (write m (slot (b + 4#32) (pos - k)) [0]) b).param ∧
      packetAt (write m (slot (b + 4#32) (pos - k)) [0]) b = { packetAt m b with
        param := (packetAt (write m (slot (b + 4#32) (pos - k)) [0]) b).param } := by
  have hback : (pos - k).toNat = pos.toNat - k.toNat := by
    rw [BitVec.le_def] at hk
    rw [BitVec.toNat_sub_of_le hk]
  have hlt : (pos - k).toNat < maxLen := by
    rw [hback]
    omega
  rw [← hback]
  exact ⟨param_getElem? hlt, console_write hlt, by rw [packetAt_write hlt]⟩

/-- The second case of the removal never applies: the first asks for less. -/
theorem stripLine_eq (m : Memory 32) (buf : U32) (pos : U16) :
    stripLine m buf pos = if 1 ≤ pos ∧ m (slot buf (pos - 1)) = chr '\n' then
      write m (slot buf (pos - 1)) [0] else m := by
  have hle : (2 : U16) ≤ pos → (1 : U16) ≤ pos := fun h =>
    BitVec.le_trans (show (1 : U16) ≤ 2 by decide) h
  unfold stripLine
  split_ifs with h₁ h₂
  · rfl
  · exact (h₁ ⟨hle h₂.1, h₂.2.2⟩).elim
  · rfl

theorem console_stripLine_eq (param : List U8) (pos : ℕ) :
    ConsoleLines.stripLine param pos = if 1 ≤ pos ∧ param[pos - 1]? = some (chr '\n') then
      ConsoleLines.write param (pos - 1) 0 else some param := by
  unfold ConsoleLines.stripLine
  split_ifs with h₁ h₂
  · rfl
  · exact (h₁ ⟨by omega, h₂.2.2⟩).elim
  · rfl

theorem console_stripLine {m : Memory 32} {pos : U16} (hpos : pos.toNat < maxLen) :
    ConsoleLines.stripLine (packetAt m b).param pos.toNat =
        some (packetAt (stripLine m (b + 4#32) pos) b).param ∧
      packetAt (stripLine m (b + 4#32) pos) b =
        { packetAt m b with param := (packetAt (stripLine m (b + 4#32) pos) b).param } := by
  have hone : (1 : U16) ≤ pos ↔ 1 ≤ pos.toNat := BitVec.le_def
  rw [stripLine_eq, console_stripLine_eq]
  by_cases hpos₁ : 1 ≤ pos.toNat
  · obtain ⟨hbyte, hwrite, hpacket⟩ := console_back (m := m) (b := b) hpos (hone.mpr hpos₁)
    change _[pos.toNat - 1]? = _ at hbyte
    change ConsoleLines.write _ (pos.toNat - 1) 0 = _ at hwrite
    by_cases hline : m (slot (b + 4#32) (pos - 1)) = chr '\n'
    · rw [if_pos ⟨hpos₁, by rw [hbyte, hline]⟩, if_pos ⟨hone.mpr hpos₁, hline⟩]
      exact ⟨hwrite, hpacket⟩
    · rw [if_neg fun h => hline (Option.some.inj (hbyte.symm.trans h.2)),
        if_neg fun h => hline h.2]
      exact ⟨rfl, rfl⟩
  · rw [if_neg (by tauto), if_neg (by tauto)]
    exact ⟨rfl, rfl⟩

/-- A character that ends no line. -/
def State.extended (s : State) (c : U8) : State :=
  { s with
    mem := write s.mem (slot s.buf s.pos) [c]
    pos := s.pos + 1
    subcore := .idle
    accepted := s.accepted ++ [c] }

/-- The memory behind the last character of a line. -/
def State.lineMem (s : State) (c : U8) : Memory 32 :=
  let mem := write (write s.mem (slot s.buf s.pos) [c]) (slot s.buf (s.pos + 1)) [0]
  let mem := write16 (stripLine mem s.buf (s.pos + 1)) (s.buf - 4#32) 1
  write16 mem (s.buf - 4#32 + 2#32) (s.pos + 1 + 1)

/-- A character that ends a line. -/
def State.completed (s : State) (c : U8) : State :=
  { s with
    mem := s.lineMem c
    ring := s.ring.apply (.send (s.buf - 4#32) itemSize)
    buf := 0
    pos := 0
    subcore := .notifying
    sent := s.sent ++ [packetAt (s.lineMem c) (s.buf - 4#32)]
    accepted := s.accepted ++ [c] }

/-- The character is the last one of its line. -/
def State.Ends (s : State) (c : U8) : Prop :=
  ((s.pos + 1).toNat : ℤ) = s.bufLen.toNat - 1 ∨ c = chr '\n'

theorem store_extended (h : ¬ s.Ends c) : s.store c = s.extended c := if_neg h

theorem store_completed (h : s.Ends c)
    (hsend : (s.ring.reply (.send (s.buf - 4#32) itemSize)).ret = espOk) :
    s.store c = s.completed c := by
  unfold State.Ends at h
  simp only [State.store, if_pos h, State.sendRequest, hsend, ne_eq, not_true_eq_false, if_false]
  rfl

/-- The store of a character is the one that cuts the output into lines. -/
theorem console_store (items : ConsoleLines.Items) (hbuf : s.buf ≠ 0)
    (hpos : s.pos.toNat + 1 < maxLen) (hlen : 0 < s.bufLen.toNat) (hc : c ≠ 0)
    (hsend : (s.ring.reply (.send (s.buf - 4#32) itemSize)).ret = espOk) :
    ConsoleLines.virtqueueSendChar items s.console c = some (s.store c).console := by
  obtain ⟨b, hb⟩ : ∃ b, s.buf = b + 4#32 := ⟨s.buf - 4#32, by simp⟩
  have hmax : maxLen = 124 := rfl
  have hnext : (s.pos + 1).toNat = s.pos.toNat + 1 := by
    rw [BitVec.toNat_add]
    change (s.pos.toNat + 1) % 2 ^ 16 = _
    omega
  have hmod : (s.pos.toNat + 1) % 2 ^ 16 = s.pos.toNat + 1 := by omega
  have hend : s.Ends c ↔ s.pos.toNat + 1 = s.bufLen.toNat - 1 ∨ c = chr '\n' := by
    rw [State.Ends, hnext]
    exact or_congr_left (by omega)
  have hstore := packetAt_write (m := s.mem) (b := b) (i := s.pos) (by omega) c
  have hbyte := console_write (m := s.mem) (b := b) (i := s.pos) (by omega) (c := c)
  have hclose := console_write (m := write s.mem (slot (b + 4#32) s.pos) [c]) (b := b)
    (i := s.pos + 1) (by omega) (c := 0)
  rw [hnext] at hclose
  rw [ConsoleLines.virtqueueSendChar, if_neg hc, console_of_buf hbuf hb]
  simp only [ConsoleLines.request, Option.bind_eq_bind, hbyte, Option.bind_some, hmod]
  by_cases hcond : s.pos.toNat + 1 = s.bufLen.toNat - 1 ∨ c = chr '\n'
  · have hnext_lt : (s.pos + 1).toNat < maxLen := by omega
    obtain ⟨hstrip, -⟩ := console_stripLine (b := b)
      (m := write (write s.mem (slot (b + 4#32) s.pos) [c]) (slot (b + 4#32) (s.pos + 1)) [0])
      hnext_lt
    rw [hnext] at hstrip
    rw [if_pos hcond, hclose, Option.bind_some, hstrip, store_completed (hend.mpr hcond) hsend]
    have hpacket : packetAt (s.lineMem c) b = ⟨1, s.pos.toNat + 2, (packetAt (stripLine
        (write (write s.mem (slot (b + 4#32) s.pos) [c]) (slot (b + 4#32) (s.pos + 1)) [0])
        (b + 4#32) (s.pos + 1)) b).param⟩ := by
      have htwo : (s.pos + 1 + 1).toNat = s.pos.toNat + 2 := by
        rw [BitVec.toNat_add, hnext]
        change (s.pos.toNat + 1 + 1) % 2 ^ 16 = _
        omega
      rw [State.lineMem, hb, BitVec.add_sub_cancel, packetAt_header, htwo]
      rfl
    simp only [Option.bind_some, State.console, State.completed, hb, BitVec.add_sub_cancel, hpacket]
    rfl
  · have hbuf' : (s.extended c).buf ≠ 0 := hbuf
    rw [if_neg hcond, store_extended (mt hend.mp hcond), console_of_buf hbuf' hb]
    simp only [State.extended, hnext, hb, hstore]

end Simulation

section Invariant
variable {v : Service} {s : State} {t : Fifos} {m m' : Memory 32} {b : U32} {c : U8}

/-- The received requests are printed, up to the one that is printed now. -/
def Shown (m : Memory 32) (received : List Packet) (printed : List U8) : Task → Prop
  | .printing param i => ∃ ps p, received = ps ++ [p] ∧ packetAt m (param - 4#32) = p ∧
      i ≤ p.payload.length ∧ printed = ps.flatMap line ++ p.payload.take i
  | _ => printed = received.flatMap line

/-- The supplicant is up or will be: it is notified, an interrupt is under way, or the subcore
is in front of a trigger. -/
def Signalled (s : State) : Prop :=
  s.task ≠ .waiting ∨ s.notified = true ∨ s.svcIntr = true ∨ s.panicIntr = true ∨
    s.subcore = .notifying ∨ s.subcore = .panicking

/-- Every item is in one place, the items under way hold the requests that were sent and
not yet received, and the subcore has cut what it stored into lines. A request under way
is signalled. -/
structure Inv (v : Service) (s : State) (t : Fifos) : Prop where
  refines : Refines v.ring s.ring t
  allocated : t.allocated = s.held.length
  received : t.received = s.task.held.length
  total : (t.free ++ s.held ++ t.sent.map Prod.fst ++ s.task.held).Perm v.ring.addrs
  log : s.sent = s.received ++ t.sent.map fun p => packetAt s.mem p.1
  tracks : Tracks (cut s.accepted) s.console
  storing : ∀ c, s.subcore = .storing c → s.buf ≠ 0 ∧ c ≠ 0
  retrying : ∀ c, s.subcore = .retrying c → s.buf = 0 ∧ c ≠ 0
  shown : Shown s.mem s.received s.printed s.task
  signalled : t.sent ≠ [] → Signalled s

theorem shown_iff {received : List Packet} {printed : List U8} {task : Task}
    (htask : task.held = []) :
    Shown m received printed task ↔ printed = received.flatMap line := by
  cases task with
  | printing param i => exact nomatch htask
  | _ => exact Iff.rfl

theorem Shown.congr {received : List Packet} {printed : List U8} {task : Task}
    (h : Shown m received printed task) (hm : ∀ b ∈ task.held, packetAt m' b = packetAt m b) :
    Shown m' received printed task := by
  cases task with
  | printing param i =>
      obtain ⟨ps, p, hps, hp, hi, hout⟩ := h
      exact ⟨ps, p, hps, (hm _ (List.mem_singleton_self _)).trans hp, hi, hout⟩
  | _ => exact h

/-- A subcore that owes no trigger may move on. -/
theorem Signalled.of_subcore (h : Signalled s) (hnotify : s.subcore ≠ .notifying)
    (hpanic : s.subcore ≠ .panicking) {s' : State} (htask : s'.task = s.task)
    (hnotified : s'.notified = s.notified) (hsvc : s'.svcIntr = s.svcIntr)
    (hintr : s'.panicIntr = s.panicIntr) : Signalled s' := by
  rw [Signalled, htask, hnotified, hsvc, hintr]
  rcases h with h | h | h | h | h | h
  · exact .inl h
  · exact .inr (.inl h)
  · exact .inr (.inr (.inl h))
  · exact .inr (.inr (.inr (.inl h)))
  · exact (hnotify h).elim
  · exact (hpanic h).elim

theorem Service.itemSize_ne (v : Service) : v.ring.itemSize ≠ 0 := v.placed.itemSize_ne

theorem Service.itemSize_eq (v : Service) : v.ring.itemSize.toNat = 128 := by
  rw [v.itemSize]
  rfl

theorem Service.apart (v : Service) {a b : U32} (ha : a ∈ v.ring.addrs) (hb : b ∈ v.ring.addrs)
    (hab : a ≠ b) : Apart a 128 b 128 := by
  have h := v.placed.apart ha hb hab
  rwa [v.itemSize_eq] at h

/-- The parameter of a request is no null pointer. -/
theorem Service.param_ne_zero (v : Service) (hb : b ∈ v.ring.addrs) : b + 4#32 ≠ 0 := by
  obtain ⟨hlo, hhi⟩ := v.placed.itemAddr_bounds hb
  have harea := v.placed.area_lt
  rw [v.itemSize_eq] at hhi harea
  intro h
  have heq := congrArg BitVec.toNat h
  rw [BitVec.toNat_add, show (4#32).toNat = 4 from rfl, show (0 : U32).toNat = 0 from rfl,
    Nat.mod_eq_of_lt (by omega)] at heq
  omega

theorem held_eq_nil (hbuf : s.buf = 0) : s.held = [] := if_pos hbuf

theorem held_eq (hbuf : s.buf ≠ 0) : s.held = [s.buf - 4#32] := if_neg hbuf

/-- The supplicant reads the text of its request up to the NUL behind it. -/
theorem read_payload {p : Packet} (hp : packetAt m b = p) (hlen : p.payload.length < maxLen)
    {i : ℕ} (hi : i ≤ p.payload.length) :
    (m (b + 4#32 + BitVec.ofNat 32 i) = 0 → i = p.payload.length) ∧
      (m (b + 4#32 + BitVec.ofNat 32 i) ≠ 0 →
        p.payload[i]? = some (m (b + 4#32 + BitVec.ofNat 32 i))) := by
  have hbyte : p.param[i]? = some (m (b + 4#32 + BitVec.ofNat 32 i)) := by
    rw [← hp, packetAt, ByteMemory.read, List.getElem?_map, List.getElem?_range (hi.trans_lt hlen)]
    rfl
  have hsplit : p.param = p.payload ++ p.param.dropWhile (· ≠ 0) :=
    List.takeWhile_append_dropWhile.symm
  rw [hsplit] at hbyte
  rcases Nat.lt_or_eq_of_le hi with hlt | rfl
  · rw [List.getElem?_append_left hlt] at hbyte
    refine ⟨fun hz => ?_, fun _ => hbyte⟩
    rw [hz] at hbyte
    have hne := List.mem_takeWhile_imp (List.mem_of_getElem? hbyte)
    exact absurd hne (by simp)
  · rw [List.getElem?_append_right le_rfl, Nat.sub_self, ← List.head?_eq_getElem?] at hbyte
    have hnot := List.head?_dropWhile_not (fun c : U8 => decide (c ≠ 0)) p.param
    rw [hbyte] at hnot
    exact ⟨fun _ => rfl, fun hz => absurd hnot (by simpa using hz)⟩

theorem printed_char (s : State) (c : U8) (task : Task) :
    ({ s with output := s.output ++ [.char c], task := task } : State).printed =
      s.printed ++ [c] := by
  simp [State.printed]

theorem printed_report (s : State) (task : Task) :
    ({ s with output := s.output ++ [.report], task := task } : State).printed = s.printed := by
  simp [State.printed]

namespace Inv

theorem nodup (h : Inv v s t) :
    (t.free ++ s.held ++ t.sent.map Prod.fst ++ s.task.held).Nodup :=
  h.total.nodup_iff.mpr (addrs_nodup v.ring v.itemSize_ne)

theorem mem_addrs (h : Inv v s t)
    (hb : b ∈ t.free ++ s.held ++ t.sent.map Prod.fst ++ s.task.held) : b ∈ v.ring.addrs :=
  h.total.mem_iff.mp hb

/-- Stores into one item leave the requests in the others alone. -/
theorem packets_kept (h : Inv v s t) (hb : b ∈ v.ring.addrs) (hsent : b ∉ t.sent.map Prod.fst)
    (hheld : b ∉ s.task.held) (hm : ∀ x, ¬ Within b 128 x → m x = s.mem x) :
    (∀ p ∈ t.sent, packetAt m p.1 = packetAt s.mem p.1) ∧
      ∀ a ∈ s.task.held, packetAt m a = packetAt s.mem a := by
  have hother : ∀ a ∈ v.ring.addrs, a ≠ b → packetAt m a = packetAt s.mem a := by
    intro a ha hab
    exact packetAt_congr fun x hx => hm x (v.apart ha hb hab x hx)
  constructor
  · intro p hp
    have hmem := List.mem_map_of_mem (f := Prod.fst) hp
    refine hother p.1 (h.mem_addrs (by simp [hmem])) ?_
    rintro rfl
    exact hsent hmem
  · intro a ha
    refine hother a (h.mem_addrs (by simp [ha])) ?_
    rintro rfl
    exact hheld ha

/-- A free item is nowhere else. -/
theorem free_apart (h : Inv v s t) (hb : b ∈ t.free) :
    b ∉ t.sent.map Prod.fst ∧ b ∉ s.task.held := by
  have hnd := h.nodup
  simp only [List.nodup_append, List.mem_append] at hnd
  grind

/-- The item of the subcore is nowhere else. -/
theorem held_apart (h : Inv v s t) (hb : b ∈ s.held) :
    b ∉ t.sent.map Prod.fst ∧ b ∉ s.task.held := by
  have hnd := h.nodup
  simp only [List.nodup_append, List.mem_append] at hnd
  grind

/-- An empty buffer tracks what has been cut so far, whatever its item holds. -/
theorem tracks_empty (h : Inv v s t) (hbuf : s.buf = 0) {s' : State}
    (haccepted : s'.accepted = s.accepted) (hpos : s'.pos = s.pos) (hsent : s'.sent = s.sent)
    (hlen : s'.buf ≠ 0 → s'.bufLen.toNat = maxLen) : Tracks (cut s'.accepted) s'.console := by
  have hnone : s.console.buf = none := if_pos hbuf
  have hrest := h.tracks.closed hnone
  rw [haccepted]
  refine ⟨h.tracks.room, h.tracks.no_nul, ?_, fun _ => hrest, ?_, ?_, ?_⟩
  · rw [← h.tracks.pos, State.console, State.console, hpos]
  · intro pkt hpkt
    by_cases hbuf' : s'.buf = 0
    · rw [State.console, if_pos hbuf'] at hpkt
      exact nomatch hpkt
    · rw [State.console, if_neg hbuf'] at hpkt
      obtain rfl := Option.some.inj hpkt
      rw [hrest]
      exact ⟨hlen hbuf', _, rfl, (Nat.zero_add _).trans (length_param ..)⟩
  · rw [← h.tracks.sent, State.console, State.console, hsent]
  · rw [State.console, hsent]
    exact h.tracks.bounds

theorem createRequest (h : Inv v s t) (hbuf : s.buf = 0) (hc : c ≠ 0)
    (hnotify : s.subcore ≠ .notifying) (hpanic : s.subcore ≠ .panicking) :
    ∃ t', Inv v (s.createRequest c) t' := by
  obtain ⟨hreply, hnext⟩ := refines_call v.placed h.refines (.alloc itemSize)
  have hsize : ¬ v.ring.itemSize < itemSize := by
    rw [v.itemSize]
    decide
  simp only [fifoStep, if_neg hsize] at hreply hnext
  unfold State.createRequest
  cases hfree : t.free with
  | nil =>
      simp only [hfree] at hreply hnext
      simp only [hreply, ne_eq, espErrNotFound_ne_ok, not_false_eq_true, if_true]
      refine ⟨t, hnext, ?_, h.received, ?_, h.log, h.tracks_empty hbuf rfl rfl rfl (by simp),
        (by simp), ?_, h.shown,
        fun hs => (h.signalled hs).of_subcore hnotify hpanic rfl rfl rfl rfl⟩
      · rw [h.allocated, held_eq_nil hbuf, held_eq_nil rfl]
      · rw [held_eq_nil rfl, ← held_eq_nil hbuf]
        exact h.total
      · intro c' hc'
        obtain rfl := Subcore.retrying.inj hc'
        exact ⟨rfl, hc⟩
  | cons b bs =>
      simp only [hfree] at hreply hnext
      simp only [hreply, ne_eq, not_true_eq_false, if_false]
      have hb : b ∈ t.free := by simp [hfree]
      have haddr : b ∈ v.ring.addrs := h.mem_addrs (by simp [hb])
      have hbuf' := v.param_ne_zero haddr
      obtain ⟨hsent, hheld⟩ := h.free_apart hb
      have houtside : ∀ x, ¬ Within b 128 x →
          write16 (write16 s.mem b 0xffff) (b + 2#32) 0 x = s.mem x := by
        intro x hx
        rw [write16_of_not_within fun hw => hx (within_of_offset (k := 2) (by decide) hw),
          write16_of_not_within fun hw => hx (hw.mono (by decide))]
      obtain ⟨hkept, hkept'⟩ := h.packets_kept haddr hsent hheld houtside
      refine ⟨_, hnext, ?_, h.received, ?_, ?_,
        h.tracks_empty hbuf rfl rfl rfl (fun _ => rfl), ?_, (by simp), h.shown.congr hkept',
        fun hs => (h.signalled hs).of_subcore hnotify hpanic rfl rfl rfl rfl⟩
      · rw [h.allocated, held_eq_nil hbuf, held_eq hbuf']
        rfl
      · refine List.Perm.trans ?_ h.total
        rw [held_eq_nil hbuf, held_eq hbuf', BitVec.add_sub_cancel, hfree, List.perm_iff_count]
        intro a
        simp only [List.count_append, List.count_cons, List.count_nil]
        omega
      · rw [h.log, List.map_congr_left hkept]
      · intro c' hc'
        obtain rfl := Subcore.storing.inj hc'
        exact ⟨hbuf', hc⟩

/-- What the subcore holds while it stores a character. -/
theorem filling (h : Inv v s t) (hstore : s.subcore = .storing c) :
    s.bufLen.toNat = maxLen ∧ s.pos.toNat + 1 < maxLen ∧
      (s.ring.reply (.send (s.buf - 4#32) itemSize)).ret = espOk ∧
      Refines v.ring (s.ring.apply (.send (s.buf - 4#32) itemSize))
        { t with sent := t.sent ++ [(s.buf - 4#32, itemSize)], allocated := t.allocated - 1 } := by
  obtain ⟨hbuf, -⟩ := h.storing c hstore
  obtain ⟨hreply, hnext⟩ := refines_call v.placed h.refines (.send (s.buf - 4#32) itemSize)
  have hsize : ¬ v.ring.itemSize < itemSize := by
    rw [v.itemSize]
    decide
  have hpos : t.allocated ≠ 0 := by
    rw [h.allocated, held_eq hbuf]
    exact Nat.one_ne_zero
  simp only [fifoStep, if_neg hpos, if_neg hsize] at hreply hnext
  have hconsole := h.tracks.pos
  have hroom := h.tracks.room
  change s.pos.toNat = _ at hconsole
  refine ⟨(h.tracks.opened _ (if_neg hbuf)).1, ?_, ?_, hnext⟩
  · change s.pos.toNat + 1 < 124
    omega
  · rw [hreply]

theorem lineMem_outside (hbuf : s.buf = b + 4#32) (hpos : s.pos.toNat + 1 < maxLen) (c : U8)
    {x : U32} (hx : ¬ Within b 128 x) : s.lineMem c x = s.mem x := by
  have hmax : maxLen = 124 := rfl
  have hnext : (s.pos + 1).toNat = s.pos.toNat + 1 := by
    rw [BitVec.toNat_add]
    change (s.pos.toNat + 1) % 2 ^ 16 = _
    omega
  have hbyte : ∀ (m : Memory 32) (i : U16) (c : U8), i.toNat < maxLen →
      write m (slot (b + 4#32) i) [c] x = m x := by
    intro m i c hi
    refine write_byte_of_ne ?_
    rintro rfl
    exact hx (within_slot hi)
  have hstrip : ∀ m : Memory 32, stripLine m (b + 4#32) (s.pos + 1) x = m x := by
    intro m
    rw [stripLine_eq]
    split_ifs with hline
    · refine hbyte m _ _ ?_
      rw [BitVec.toNat_sub_of_le hline.1, hnext]
      change s.pos.toNat + 1 - 1 < maxLen
      omega
    · rfl
  rw [State.lineMem, hbuf, BitVec.add_sub_cancel,
    write16_of_not_within fun hw => hx (within_of_offset (k := 2) (by decide) hw),
    write16_of_not_within fun hw => hx (hw.mono (by decide)), hstrip, hbyte _ _ _ (by omega),
    hbyte _ _ _ (by omega)]

/-- A stored character is cut into lines; at the end of a line its item goes under way. -/
theorem store (h : Inv v s t) (hstore : s.subcore = .storing c) :
    ∃ t', Inv v (s.store c) t' := by
  obtain ⟨hbuf, hc⟩ := h.storing c hstore
  obtain ⟨hlen, hpos, hret, hnext⟩ := h.filling hstore
  obtain ⟨b, hb⟩ : ∃ b, s.buf = b + 4#32 := ⟨s.buf - 4#32, by simp⟩
  have hheldb : s.held = [b] := by rw [held_eq hbuf, hb, BitVec.add_sub_cancel]
  have haddr : b ∈ v.ring.addrs := h.mem_addrs (by simp [hheldb])
  obtain ⟨hsent, hheld⟩ := h.held_apart (b := b) (by simp [hheldb])
  have htracks : Tracks (cut (s.accepted ++ [c])) (s.store c).console := by
    obtain ⟨s', hrun, htracks⟩ := ConsoleLines.sendChar_tracks ConsoleLines.zeroItems h.tracks hc
    rw [console_store ConsoleLines.zeroItems hbuf hpos (by rw [hlen]; decide) hc hret] at hrun
    obtain rfl := Option.some.inj hrun
    rw [cut, List.foldl_append]
    exact htracks
  by_cases hends : s.Ends c
  · rw [store_completed hends hret] at htracks ⊢
    obtain ⟨hkept, hkept'⟩ := h.packets_kept haddr hsent hheld
      fun x hx => lineMem_outside hb hpos c hx
    refine ⟨_, hnext, ?_, h.received, ?_, ?_, htracks, (fun c hc => nomatch hc),
      (fun c hc => nomatch hc), h.shown.congr hkept', fun _ => by simp [Signalled, State.completed]⟩
    · rw [h.allocated, hheldb]
      rfl
    · refine List.Perm.trans ?_ h.total
      rw [hheldb, hb, BitVec.add_sub_cancel, held_eq_nil (s := s.completed c) rfl,
        List.perm_iff_count]
      intro a
      simp only [State.completed, List.map_append, List.map_cons, List.map_nil, List.count_append,
        List.count_cons, List.count_nil]
      omega
    · simp only [State.completed, List.map_append, List.map_cons, List.map_nil]
      rw [List.map_congr_left hkept, ← List.append_assoc, ← h.log]
  · rw [store_extended hends] at htracks ⊢
    have houtside : ∀ x, ¬ Within b 128 x → (s.extended c).mem x = s.mem x := by
      intro x hx
      refine write_byte_of_ne ?_
      rintro rfl
      rw [hb] at hx
      exact hx (within_slot (by omega))
    obtain ⟨hkept, hkept'⟩ := h.packets_kept haddr hsent hheld houtside
    refine ⟨t, h.refines, h.allocated, h.received, h.total, ?_, htracks,
      (fun c hc => nomatch hc), (fun c hc => nomatch hc), h.shown.congr hkept',
      fun hs => (h.signalled hs).of_subcore (by simp [hstore]) (by simp [hstore]) rfl rfl rfl rfl⟩
    rw [List.map_congr_left hkept]
    exact h.log

/-- A sent request is for the console, and its text ends before its item does. -/
theorem sent_packet (h : Inv v s t) {p : Packet} (hp : p ∈ s.sent) :
    p.srvId = 1 ∧ p.payload.length < maxLen := by
  refine ⟨(h.tracks.bounds p hp).1, ?_⟩
  have hmem : p.payload ∈ s.console.sent.map Packet.payload := List.mem_map_of_mem hp
  rw [h.tracks.sent] at hmem
  obtain ⟨piece, hpiece, heq⟩ := List.mem_map.mp hmem
  obtain ⟨body, c, rfl, -, hlen, -⟩ := (ConsoleLines.cut_isCut s.accepted).piece piece hpiece
  rw [← heq, ConsoleLines.dropLineFeed_append]
  change _ < 124
  split_ifs
  · omega
  · rw [List.length_append, List.length_singleton]
    omega

theorem receive (h : Inv v s t) (htask : s.task = .receiving) : ∃ t', Inv v s.receive t' := by
  have hshown := h.shown
  have hreceived := h.received
  have htotal := h.total
  rw [htask] at hshown hreceived htotal
  unfold State.receive
  rcases recv_cases v.placed h.refines with ⟨hs, hret, hr⟩ | ⟨b, size, rest, hs, hret, hb, hr⟩
  · have hret' : (s.ring.reply .recv).ret ≠ espOk := hret
    simp only [ne_eq, hret', not_false_eq_true, if_true]
    exact ⟨t, hr, h.allocated, hreceived, htotal, h.log, h.tracks, h.storing, h.retrying, hshown,
      fun hne => (hne hs).elim⟩
  · have hret' : (s.ring.reply .recv).ret = espOk := hret
    have hmem : packetAt s.mem b ∈ s.sent := by
      rw [h.log, hs]
      simp
    have hid : word16 s.mem b = 1 := by
      have hsrv := (h.sent_packet hmem).1
      exact BitVec.eq_of_toNat_eq hsrv
    simp only [hret', hb, hid, ne_eq, not_true_eq_false, if_false, if_true]
    refine ⟨_, hr, h.allocated, ?_, ?_, ?_, h.tracks, h.storing, h.retrying,
      ⟨s.received, packetAt s.mem b, rfl, ?_, Nat.zero_le _, ?_⟩, fun _ => .inl (by simp)⟩
    · rw [hreceived]
      rfl
    · refine List.Perm.trans ?_ htotal
      rw [hs, List.perm_iff_count]
      intro a
      simp only [Task.held, BitVec.add_sub_cancel, List.map_cons, List.count_append,
        List.count_cons, List.count_nil, State.held]
      omega
    · rw [h.log, hs, List.map_cons, List.append_assoc]
      rfl
    · rw [BitVec.add_sub_cancel]
    · rw [List.take_zero, List.append_nil]
      exact hshown

/-- A character of `puts` is the next one of the text, or the line feed behind it. -/
theorem print (h : Inv v s t) {param : U32} {i : ℕ} (htask : s.task = .printing param i) :
    Inv v (s.print param i) t := by
  have hshown := h.shown
  have hreceived := h.received
  have htotal := h.total
  rw [htask] at hshown hreceived htotal
  obtain ⟨ps, p, hps, hp, hi, hout⟩ := hshown
  have hsent : p ∈ s.sent := by
    rw [h.log, hps]
    simp
  obtain ⟨hend, hnext⟩ := read_payload hp (h.sent_packet hsent).2 hi
  rw [BitVec.sub_add_cancel] at hend hnext
  by_cases hz : s.mem (param + BitVec.ofNat 32 i) = 0
  · have hprint : s.print param i =
        { s with output := s.output ++ [.char (chr '\n')], task := .destroying param } := if_pos hz
    rw [hprint]
    refine ⟨h.refines, h.allocated, hreceived, htotal, h.log, h.tracks, h.storing, h.retrying, ?_,
      fun _ => .inl (by simp)⟩
    change State.printed _ = s.received.flatMap line
    rw [printed_char, hout, hend hz, List.take_length, hps, List.flatMap_append]
    simp [line]
  · have hprint : s.print param i =
        { s with
          output := s.output ++ [.char (s.mem (param + BitVec.ofNat 32 i))]
          task := .printing param (i + 1) } := if_neg hz
    rw [hprint]
    refine ⟨h.refines, h.allocated, hreceived, htotal, h.log, h.tracks, h.storing, h.retrying,
      ⟨ps, p, hps, hp, (List.getElem?_eq_some_iff.mp (hnext hz)).1, ?_⟩, fun _ => .inl (by simp)⟩
    rw [printed_char, hout, List.take_add_one, hnext hz, List.append_assoc]
    rfl

theorem destroy (h : Inv v s t) {param : U32} (htask : s.task = .destroying param) :
    ∃ t', Inv v (s.destroy param) t' := by
  have hshown := h.shown
  have hreceived := h.received
  have htotal := h.total
  rw [htask] at hshown hreceived htotal
  have hpos : t.received ≠ 0 := by
    rw [hreceived]
    exact Nat.one_ne_zero
  obtain ⟨-, hnext⟩ := refines_call v.placed h.refines (.free (param - 4#32))
  simp only [fifoStep, if_neg hpos] at hnext
  refine ⟨_, hnext, h.allocated, ?_, ?_, h.log, h.tracks, h.storing, h.retrying, hshown,
    fun _ => .inl (by simp [State.destroy])⟩
  · rw [hreceived]
    rfl
  · refine List.Perm.trans ?_ htotal
    rw [List.perm_iff_count]
    intro a
    rw [show (s.destroy param).held = s.held from rfl]
    simp only [State.destroy, Task.held, List.count_append, List.count_cons, List.count_nil]
    omega

/-- The supplicant moves on without an item. -/
theorem of_task (h : Inv v s t) (hold : s.task.held = []) {notified : Bool} {task : Task}
    {output : List Out} (hnew : task.held = []) (hwait : task ≠ .waiting)
    (hprinted : ({ s with notified := notified, task := task, output := output } : State).printed =
      s.printed) :
    Inv v { s with notified := notified, task := task, output := output } t := by
  have hreceived := h.received
  have htotal := h.total
  rw [hold, ← hnew] at hreceived htotal
  refine ⟨h.refines, h.allocated, hreceived, htotal, h.log, h.tracks, h.storing, h.retrying, ?_,
    fun _ => .inl hwait⟩
  rw [shown_iff hnew, hprinted]
  exact (shown_iff hold).mp h.shown

/-- The subcore leaves the buffer alone from now on. -/
theorem of_subcore (h : Inv v s t) {subcore : Subcore} {svcIntr panicIntr latchDropped : Bool}
    {dropped : List U8} (hstoring : ∀ c, subcore ≠ .storing c)
    (hretrying : ∀ c, subcore ≠ .retrying c)
    (hsignalled : Signalled s → Signalled { s with
      subcore := subcore, svcIntr := svcIntr, panicIntr := panicIntr
      latchDropped := latchDropped, dropped := dropped }) :
    Inv v { s with
      subcore := subcore, svcIntr := svcIntr, panicIntr := panicIntr
      latchDropped := latchDropped, dropped := dropped } t :=
  ⟨h.refines, h.allocated, h.received, h.total, h.log, h.tracks,
    (fun c hc => (hstoring c hc).elim), (fun c hc => (hretrying c hc).elim), h.shown,
    fun hs => hsignalled (h.signalled hs)⟩

theorem of_latch (h : Inv v s t) {latchDropped : Bool} :
    Inv v { s with latchDropped := latchDropped } t :=
  ⟨h.refines, h.allocated, h.received, h.total, h.log, h.tracks, h.storing, h.retrying, h.shown,
    h.signalled⟩

/-- An interrupt handler notifies the supplicant. -/
theorem of_interrupt (h : Inv v s t) {svcIntr panicIntr isSubcorePanic : Bool} :
    Inv v { s with
      svcIntr := svcIntr, panicIntr := panicIntr, isSubcorePanic := isSubcorePanic
      notified := true } t :=
  ⟨h.refines, h.allocated, h.received, h.total, h.log, h.tracks, h.storing, h.retrying, h.shown,
    fun _ => .inr (.inl rfl)⟩

theorem putChar (h : Inv v s t) (hidle : s.subcore = .idle) (c : U8) :
    ∃ t', Inv v (s.putChar c) t' := by
  unfold State.putChar
  split_ifs with hc hbuf hready
  · exact ⟨t, h⟩
  · refine ⟨t, h.refines, h.allocated, h.received, h.total, h.log, h.tracks, ?_, (by simp),
      h.shown, fun hs => (h.signalled hs).of_subcore (by simp [hidle]) (by simp [hidle]) rfl rfl
        rfl rfl⟩
    intro c' hc'
    obtain rfl := Subcore.storing.inj hc'
    exact ⟨hbuf, hc⟩
  · exact ⟨t, h.refines, h.allocated, h.received, h.total, h.log, h.tracks, h.storing, h.retrying,
      h.shown, h.signalled⟩
  · exact h.createRequest (not_not.mp hbuf) hc (by simp [hidle]) (by simp [hidle])

end Inv

theorem start_inv (v : Service) (subcoreType : SubcoreType) (mem : Memory 32) :
    Inv v (start v subcoreType mem) v.ring.fifos where
  refines := refines_start v.ring
  allocated := rfl
  received := rfl
  total := by simp [Setup.fifos, start, State.held, Task.held]
  log := rfl
  tracks := ⟨by simp [cut, start], by simp [cut, start], rfl, fun _ => rfl,
    (fun _ hbuf => nomatch hbuf), rfl, by simp [start, State.console]⟩
  storing := by simp [start]
  retrying := by simp [start]
  shown := rfl
  signalled := fun hs => (hs rfl).elim

/-- Every step of either core keeps the items in their places. -/
theorem step_inv {l : Label} {s' : State} (hs : Step s l s') (h : Inv v s t) :
    ∃ t', Inv v s' t' := by
  obtain ⟨hl, rfl⟩ := hs
  cases l with
  | init => exact ⟨t, h.refines, h.allocated, h.received, h.total, h.log, h.tracks, h.storing,
      h.retrying, h.shown, h.signalled⟩
  | put c => exact h.putChar hl c
  | retry c =>
      obtain ⟨hbuf, hc⟩ := h.retrying c hl
      have hl' : s.subcore = .retrying c := hl
      exact h.createRequest hbuf hc (by simp [hl']) (by simp [hl'])
  | giveUp c =>
      have hl' : s.subcore = .retrying c := hl
      exact ⟨t, h.of_subcore (by simp) (by simp) fun hs =>
        hs.of_subcore (by simp [hl']) (by simp [hl']) rfl rfl rfl rfl⟩
  | store c => exact h.store hl
  | trigger => exact ⟨t, h.of_subcore (by simp) (by simp) fun _ => .inr (.inr (.inl rfl))⟩
  | crash =>
      exact ⟨t, h.of_subcore (by simp) (by simp) fun _ => .inr (.inr (.inr (.inr (.inr rfl))))⟩
  | panic =>
      exact ⟨t, h.of_subcore (by simp) (by simp) fun _ => .inr (.inr (.inr (.inl rfl)))⟩
  | otherTrigger => exact ⟨t, h.of_latch⟩
  | dropLatch => exact ⟨t, h.of_latch⟩
  | interrupt => exact ⟨t, h.of_interrupt⟩
  | panicInterrupt => exact ⟨t, h.of_interrupt⟩
  | wake => exact ⟨t, h.of_task (congrArg Task.held hl.1) rfl (by simp) rfl⟩
  | check =>
      have hl' : s.task = .checking := hl
      refine ⟨t, h.of_task (congrArg Task.held hl') ?_ ?_ rfl⟩
      · split_ifs <;> rfl
      · split_ifs <;> simp
  | receive => exact h.receive hl
  | print param i => exact ⟨t, h.print hl⟩
  | destroy param => exact h.destroy hl
  | report =>
      have hl' : s.task = .reporting := hl
      exact ⟨t, h.of_task (congrArg Task.held hl') rfl (by simp) (printed_report s _)⟩
  | elapse =>
      have hl' : s.task = .asleep := hl
      exact ⟨t, h.of_task (congrArg Task.held hl') rfl (by simp) rfl⟩

theorem run_inv {subcoreType : SubcoreType} {mem : Memory 32} {ls : List Label}
    (hrun : Run Step (start v subcoreType mem) ls s) :
    ∃ t, Inv v s t :=
  hrun.invariant (P := fun s => ∃ t, Inv v s t) (fun _ _ _ hs ⟨_, h⟩ => step_inv hs h)
    ⟨_, start_inv v subcoreType mem⟩

end Invariant
end EspAmp.ServiceQueue
