import EspAmp.Printf

/-!
# Console output routed to the main core

`virtqueue_send_char` of `esp_amp_print.c` with the request calls of
`esp_amp_service.c`. The service is ready and a request buffer is always available; what
an allocated item holds is arbitrary. A write outside the buffer of a request ends the
run. The main core prints a payload up to its first NUL.

The abstract view cuts the input behind every line feed and behind every 123 characters
without one, and removes the line terminator of each piece.
-/
namespace EspAmp.ConsoleLines
open ByteMemory Printf

def serviceQueueItemSize : ℕ := 128
def systemServiceIdPrint : ℕ := 1

/-- `SERVICE_QUEUE_ITEM_SIZE - sizeof(srv_pkt_hdr_t)` -/
def maxLen : ℕ := serviceQueueItemSize - 4

/-- `srv_pkt_hdr_t` with what follows it in the item. -/
structure Packet where
  srvId : ℕ
  paramLen : ℕ
  param : List U8

/-- The bytes behind the header of each item that the queue hands out. -/
structure Items where
  bytes : ℕ → List U8
  size : ∀ n, (bytes n).length = maxLen

/-- The static variables of `virtqueue_send_char` and the packets that were sent. -/
structure Console where
  buf : Option Packet
  bufLen : ℕ
  pos : ℕ
  sent : List Packet

def Console.start : Console := ⟨none, 0, 0, []⟩

/-- `esp_amp_system_service_create_request` -/
def createRequest (items : Items) (s : Console) : Packet × ℕ :=
  (⟨0xffff, 0, items.bytes s.sent.length⟩, maxLen)

/-- `esp_amp_system_service_send_request` -/
def sendRequest (id : ℕ) (pkt : Packet) (paramLen : ℕ) (sent : List Packet) : List Packet :=
  sent ++ [{ pkt with srvId := id, paramLen := paramLen }]

/-- `buf[i] = c` -/
def write (param : List U8) (i : ℕ) (c : U8) : Option (List U8) :=
  if i < param.length then some (param.set i c) else none

/-- The removal of the line terminator in front of `buf[pos]`. -/
def stripLine (param : List U8) (pos : ℕ) : Option (List U8) :=
  if 1 ≤ pos ∧ param[pos - 1]? = some (chr '\n') then write param (pos - 1) 0
  else if 2 ≤ pos ∧ param[pos - 2]? = some (chr '\r') ∧ param[pos - 1]? = some (chr '\n') then
    write param (pos - 2) 0
  else some param

/-- The buffer that is filled and its length. -/
def request (items : Items) (s : Console) : Packet × ℕ :=
  match s.buf with
  | none => createRequest items s
  | some pkt => (pkt, s.bufLen)

/-- `virtqueue_send_char` -/
def virtqueueSendChar (items : Items) (s : Console) (c : U8) : Option Console :=
  if c = 0 then some s
  else do
    let (pkt, bufLen) := request items s
    let param ← write pkt.param s.pos c
    let pos := (s.pos + 1) % 2 ^ 16
    if pos = bufLen - 1 ∨ c = chr '\n' then
      let param ← write param pos 0
      let param ← stripLine param pos
      some
        { buf := none
          bufLen := bufLen
          pos := 0
          sent := sendRequest systemServiceIdPrint { pkt with param := param } (pos + 1) s.sent }
    else some { s with buf := some { pkt with param := param }, bufLen := bufLen, pos := pos }

/-- What `puts` prints of a received packet. -/
def Packet.payload (pkt : Packet) : List U8 := pkt.param.takeWhile (· ≠ 0)

/-- The characters that wait in the buffer. -/
def Console.buffered (s : Console) : List U8 :=
  match s.buf with
  | none => []
  | some pkt => pkt.param.take s.pos

def run (items : Items) (input : List U8) : Option Console :=
  input.foldlM (virtqueueSendChar items) .start

section Lines

/-- Complete pieces and the characters behind them. -/
structure Cut where
  pieces : List (List U8)
  rest : List U8

/-- Cuts behind a line feed and behind 123 characters. -/
def Cut.push (k : Cut) (c : U8) : Cut :=
  if c = chr '\n' ∨ (k.rest ++ [c]).length = 123 then ⟨k.pieces ++ [k.rest ++ [c]], []⟩
  else ⟨k.pieces, k.rest ++ [c]⟩

def cut (input : List U8) : Cut := input.foldl Cut.push ⟨[], []⟩

def crlf : List U8 := ascii "\r\n"

def dropLineFeed (piece : List U8) : List U8 :=
  if piece.getLast? = some (chr '\n') then piece.dropLast else piece

/-- A piece without its line terminator, a line feed alone or behind a carriage return. -/
def dropTerminator (piece : List U8) : List U8 :=
  if crlf <:+ piece then piece.dropLast.dropLast else dropLineFeed piece

/-- The pieces and the rest are the input, a piece ends with its first line feed or its
123rd character, and the rest reaches neither. -/
structure IsCut (input : List U8) (k : Cut) : Prop where
  whole : k.pieces.flatten ++ k.rest = input
  piece : ∀ p ∈ k.pieces, ∃ body c, p = body ++ [c] ∧ chr '\n' ∉ body ∧ body.length < 123 ∧
    (c = chr '\n' ∨ body.length + 1 = 123)
  rest_line : chr '\n' ∉ k.rest
  rest_length : k.rest.length < 123

theorem IsCut.push {input : List U8} {k : Cut} (h : IsCut input k) (c : U8) :
    IsCut (input ++ [c]) (k.push c) := by
  rw [Cut.push, List.length_append, List.length_singleton]
  split_ifs with hend
  · refine ⟨?_, ?_, by simp, by simp⟩
    · rw [← h.whole]
      simp
    · intro p hp
      rcases List.mem_append.mp hp with hp | hp
      · exact h.piece p hp
      · exact ⟨k.rest, c, List.mem_singleton.mp hp, h.rest_line, h.rest_length, hend⟩
  · rw [not_or] at hend
    refine ⟨?_, h.piece, ?_, ?_⟩
    · rw [← h.whole, List.append_assoc]
    · rw [List.mem_append, List.mem_singleton, not_or]
      exact ⟨h.rest_line, Ne.symm hend.1⟩
    · have hlt := h.rest_length
      simp only [List.length_append, List.length_singleton]
      omega

theorem foldl_push_isCut {input : List U8} {k : Cut} (h : IsCut input k) (more : List U8) :
    IsCut (input ++ more) (more.foldl Cut.push k) := by
  induction more generalizing input k with
  | nil => simpa using h
  | cons c more ih => simpa using ih (h.push c)

theorem cut_isCut (input : List U8) : IsCut input (cut input) := by
  have hempty : IsCut [] ⟨[], []⟩ := ⟨rfl, by simp, by simp, by simp⟩
  exact foldl_push_isCut hempty input

end Lines

/-- The sent payloads and the waiting characters are the input cut into lines, and no
position or length exceeds the buffer. -/
def LinesKept (items : Items) (input : List U8) : Prop :=
  IsCut (input.filter (· ≠ 0)) (cut (input.filter (· ≠ 0))) ∧
    ∃ s, run items input = some s ∧
      s.sent.map Packet.payload = (cut (input.filter (· ≠ 0))).pieces.map dropTerminator ∧
      s.buffered = (cut (input.filter (· ≠ 0))).rest ∧
      (s.buf ≠ none → s.pos < s.bufLen) ∧
      ∀ pkt ∈ s.sent, pkt.srvId = systemServiceIdPrint ∧ pkt.paramLen ≤ maxLen

section Steps
variable {items : Items} {k : Cut} {s : Console} {c : U8}

/-- The console holds what the abstract cut holds, with only line feeds removed. -/
structure Tracks (k : Cut) (s : Console) : Prop where
  room : k.rest.length < 123
  no_nul : ∀ c ∈ k.rest, c ≠ 0
  pos : s.pos = k.rest.length
  closed : s.buf = none → k.rest = []
  opened : ∀ pkt, s.buf = some pkt → s.bufLen = maxLen ∧
    ∃ tail, pkt.param = k.rest ++ tail ∧ k.rest.length + tail.length = maxLen
  sent : s.sent.map Packet.payload = k.pieces.map dropLineFeed
  bounds : ∀ pkt ∈ s.sent, pkt.srvId = systemServiceIdPrint ∧ pkt.paramLen ≤ maxLen

theorem request_spec (items : Items) (h : Tracks k s) :
    (request items s).2 = maxLen ∧ ∃ tail, (request items s).1.param = k.rest ++ tail ∧
      k.rest.length + tail.length = maxLen := by
  cases hbuf : s.buf with
  | none =>
      rw [request, hbuf, h.closed hbuf]
      exact ⟨rfl, _, rfl, by simpa using items.size s.sent.length⟩
  | some pkt =>
      rw [request, hbuf]
      exact h.opened pkt hbuf

theorem write_append (front : List U8) (b c : U8) (back : List U8) :
    write (front ++ b :: back) front.length c = some (front ++ c :: back) := by
  simp [write]

/-- The second case of the removal never applies: a line feed is always caught by the first. -/
theorem stripLine_eq (front : List U8) (c : U8) (back : List U8) :
    stripLine (front ++ c :: back) (front.length + 1) =
      some (front ++ (if c = chr '\n' then 0 else c) :: back) := by
  have hlast : (front ++ c :: back)[front.length + 1 - 1]? = some c := by simp
  rw [stripLine, hlast]
  by_cases hc : c = chr '\n'
  · rw [if_pos ⟨by omega, by rw [hc]⟩, if_pos hc, Nat.add_sub_cancel, write_append]
  · have hne : some c ≠ some (chr '\n') := by simpa using hc
    rw [if_neg (by simp [hne]), if_neg (by simp [hne]), if_neg hc]

theorem payload_eq {front : List U8} (hfront : ∀ c ∈ front, c ≠ 0) (pkt : Packet)
    (back : List U8) (hparam : pkt.param = front ++ 0 :: back) : pkt.payload = front := by
  rw [Packet.payload, hparam, List.takeWhile_append_of_pos (by simpa using hfront)]
  simp

theorem dropLineFeed_append (front : List U8) (c : U8) :
    dropLineFeed (front ++ [c]) = if c = chr '\n' then front else front ++ [c] := by
  simp [dropLineFeed]

/-- The console after a complete piece. -/
def flushed (s : Console) (rest : List U8) (c : U8) (back : List U8) : Console where
  buf := none
  bufLen := maxLen
  pos := 0
  sent := s.sent ++ [⟨systemServiceIdPrint, rest.length + 2,
    rest ++ (if c = chr '\n' then 0 else c) :: 0 :: back⟩]

/-- The console with one more character in the buffer. -/
def extended (s : Console) (pkt : Packet) (rest : List U8) (c : U8) (back : List U8) : Console where
  buf := some { pkt with param := rest ++ c :: back }
  bufLen := maxLen
  pos := rest.length + 1
  sent := s.sent

theorem write_zero (rest : List U8) (c b : U8) (back : List U8) :
    write (rest ++ c :: b :: back) (rest.length + 1) 0 = some (rest ++ c :: 0 :: back) := by
  have hwrite := write_append (rest ++ [c]) b 0 back
  simpa using hwrite

theorem sendChar_eq (items : Items) (h : Tracks k s) (hc : c ≠ 0) :
    ∃ pkt b back, k.rest.length + (back.length + 2) = maxLen ∧
      virtqueueSendChar items s c =
        some (if c = chr '\n' ∨ (k.rest ++ [c]).length = 123 then flushed s k.rest c back
          else extended s pkt k.rest c (b :: back)) := by
  obtain ⟨hlen, tail, hparam, htail⟩ := request_spec items h
  have hroom := h.room
  have hmax : maxLen = 124 := rfl
  obtain ⟨b₀, b, back, rfl⟩ : ∃ b₀ b back, tail = b₀ :: b :: back := by
    match tail, htail with
    | [], htail => simp at htail; omega
    | [b], htail => simp at htail; omega
    | b₀ :: b :: back, _ => exact ⟨b₀, b, back, rfl⟩
  refine ⟨(request items s).1, b, back, htail, ?_⟩
  have hwrite : write (request items s).1.param s.pos c = some (k.rest ++ c :: b :: back) := by
    rw [hparam, h.pos, write_append]
  have hpos : (s.pos + 1) % 2 ^ 16 = k.rest.length + 1 := by
    rw [h.pos]
    omega
  have hend : (k.rest.length + 1 = maxLen - 1 ∨ c = chr '\n') ↔
      (c = chr '\n' ∨ (k.rest ++ [c]).length = 123) := by
    rw [List.length_append, List.length_singleton, hmax, or_comm]
  rw [virtqueueSendChar, if_neg hc]
  simp only [hlen, hwrite, hpos, hend, Option.bind_eq_bind, Option.bind_some, write_zero,
    stripLine_eq]
  by_cases hcomplete : c = chr '\n' ∨ (k.rest ++ [c]).length = 123
  · simp only [if_pos hcomplete]
    rfl
  · simp only [if_neg hcomplete]
    rfl

theorem mem_append_ne_zero (h : Tracks k s) (hc : c ≠ 0) : ∀ x ∈ k.rest ++ [c], x ≠ 0 := by
  rw [List.forall_mem_append, List.forall_mem_singleton]
  exact ⟨h.no_nul, hc⟩

theorem flushed_tracks (h : Tracks k s) (hc : c ≠ 0) (back : List U8) :
    Tracks ⟨k.pieces ++ [k.rest ++ [c]], []⟩ (flushed s k.rest c back) := by
  have hpayload : Packet.payload ⟨systemServiceIdPrint, k.rest.length + 2,
      k.rest ++ (if c = chr '\n' then 0 else c) :: 0 :: back⟩ = dropLineFeed (k.rest ++ [c]) := by
    rw [dropLineFeed_append]
    split_ifs
    · exact payload_eq h.no_nul _ (0 :: back) rfl
    · exact payload_eq (mem_append_ne_zero h hc) _ back (by simp)
  have hroom := h.room
  refine ⟨by simp, by simp, rfl, fun _ => rfl, (fun _ hbuf => nomatch hbuf), ?_, ?_⟩
  · rw [flushed, List.map_append, List.map_append, h.sent, List.map_singleton, List.map_singleton,
      hpayload]
  · rw [flushed, List.forall_mem_append, List.forall_mem_singleton]
    refine ⟨h.bounds, rfl, ?_⟩
    change k.rest.length + 2 ≤ 124
    omega

theorem extended_tracks (h : Tracks k s) (hc : c ≠ 0) (pkt : Packet) {back : List U8}
    (hlen : (k.rest ++ [c]).length < 123)
    (hback : k.rest.length + (back.length + 1) = maxLen) :
    Tracks ⟨k.pieces, k.rest ++ [c]⟩ (extended s pkt k.rest c back) := by
  refine ⟨hlen, mem_append_ne_zero h hc, by simp [extended], (fun hbuf => nomatch hbuf), ?_,
    h.sent, h.bounds⟩
  · rintro _ ⟨rfl⟩
    refine ⟨rfl, back, by simp, ?_⟩
    simp only [List.length_append, List.length_singleton]
    omega

theorem sendChar_tracks (items : Items) (h : Tracks k s) (hc : c ≠ 0) :
    ∃ s', virtqueueSendChar items s c = some s' ∧ Tracks (k.push c) s' := by
  obtain ⟨pkt, b, back, hback, hsend⟩ := sendChar_eq items h hc
  have hroom := h.room
  refine ⟨_, hsend, ?_⟩
  rw [Cut.push]
  split_ifs with hend
  · exact flushed_tracks h hc back
  · rw [not_or, List.length_append, List.length_singleton] at hend
    refine extended_tracks h hc pkt ?_ hback
    rw [List.length_append, List.length_singleton]
    omega

theorem foldlM_tracks (items : Items) (input : List U8) (h : Tracks k s) :
    ∃ s', input.foldlM (virtqueueSendChar items) s = some s' ∧
      Tracks ((input.filter (· ≠ 0)).foldl Cut.push k) s' := by
  induction input generalizing k s with
  | nil => exact ⟨s, rfl, h⟩
  | cons c input ih =>
      rw [List.foldlM_cons]
      by_cases hc : c = 0
      · have hskip : virtqueueSendChar items s c = some s := if_pos hc
        rw [hskip, List.filter_cons_of_neg (by simpa using hc)]
        exact ih h
      · obtain ⟨s', hsend, h'⟩ := sendChar_tracks items h hc
        rw [hsend, List.filter_cons_of_pos (by simpa using hc)]
        exact ih h'

theorem run_tracks (items : Items) (input : List U8) :
    ∃ s, run items input = some s ∧ Tracks (cut (input.filter (· ≠ 0))) s := by
  have hstart : Tracks ⟨[], []⟩ Console.start := by
    refine ⟨by simp, by simp, rfl, fun _ => rfl, (fun _ hbuf => nomatch hbuf), rfl, ?_⟩
    simp [Console.start]
  exact foldlM_tracks items input hstart

theorem Tracks.buffered_eq (h : Tracks k s) : s.buffered = k.rest := by
  rw [Console.buffered]
  cases hbuf : s.buf with
  | none => exact (h.closed hbuf).symm
  | some pkt =>
      obtain ⟨-, tail, hparam, -⟩ := h.opened pkt hbuf
      simp only [hparam, h.pos, List.take_left]

theorem Tracks.pos_lt (h : Tracks k s) (hbuf : s.buf ≠ none) : s.pos < s.bufLen := by
  obtain ⟨pkt, hpkt⟩ := Option.ne_none_iff_exists'.mp hbuf
  have hroom := h.room
  rw [(h.opened pkt hpkt).1, h.pos]
  exact lt_trans hroom (by decide)

end Steps

theorem dropLineFeed_eq_iff (piece : List U8) :
    dropLineFeed piece = dropTerminator piece ↔ ¬ crlf <:+ piece := by
  rw [dropTerminator]
  split_ifs with hsuffix
  · have hne : dropLineFeed piece ≠ piece.dropLast.dropLast := by
      obtain ⟨front, rfl⟩ := hsuffix
      have hcrlf : front ++ crlf = (front ++ [chr '\r']) ++ [chr '\n'] := by
        rw [List.append_assoc]
        rfl
      rw [hcrlf, dropLineFeed_append, if_pos rfl, List.dropLast_concat, List.dropLast_concat]
      simp
    exact ⟨fun heq => absurd heq hne, fun hnot => absurd hsuffix hnot⟩
  · exact ⟨fun _ => hsuffix, fun _ => rfl⟩

/-- The lines are kept exactly when none of them ends with a carriage return and a line
feed. -/
theorem console_lines_kept_iff (items : Items) (input : List U8) :
    LinesKept items input ↔
      ∀ piece ∈ (cut (input.filter (· ≠ 0))).pieces, ¬ crlf <:+ piece := by
  obtain ⟨s, hrun, h⟩ := run_tracks items input
  have hlines : s.sent.map Packet.payload =
      (cut (input.filter (· ≠ 0))).pieces.map dropTerminator ↔
        ∀ piece ∈ (cut (input.filter (· ≠ 0))).pieces, ¬ crlf <:+ piece := by
    rw [h.sent, List.map_inj_left]
    exact forall₂_congr fun piece _ => dropLineFeed_eq_iff piece
  rw [← hlines]
  constructor
  · rintro ⟨-, s', hrun', hsent, -⟩
    obtain rfl := Option.some.inj (hrun.symm.trans hrun')
    exact hsent
  · intro hsent
    exact ⟨cut_isCut _, s, hrun, hsent, h.buffered_eq, h.pos_lt, h.bounds⟩

def zeroItems : Items := ⟨fun _ => List.replicate maxLen 0, fun _ => List.length_replicate⟩

/-- The carriage return of `a\r\n` is sent. -/
theorem carriage_return_is_sent :
    (run zeroItems (ascii "a\r\n")).map (fun s => s.sent.map Packet.payload) =
        some [ascii "a\r"] ∧
      ¬ LinesKept zeroItems (ascii "a\r\n") := by
  have hpayload : (run zeroItems (ascii "a\r\n")).map (fun s => s.sent.map Packet.payload) =
      some [ascii "a\r"] := by decide +kernel
  refine ⟨hpayload, ?_⟩
  rintro ⟨-, s, hrun, hsent, -⟩
  rw [hrun, Option.map_some, hsent] at hpayload
  exact absurd hpayload (by decide)

end EspAmp.ConsoleLines
