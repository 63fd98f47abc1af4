import EspAmp.ConsoleLines
import EspAmp.InterruptPort
import EspAmp.RpmsgChannel

/-!
# The service queue from the subcore to the supplicant

`virtqueue_send_char` on the subcore, the requests of `esp_amp_service.c` between the
cores, and `supplicant_task` with the two interrupt handlers that wake it on the main
core. A request is a buffer of the service queue in shared memory; the main core reads its
bytes where they lie, one at a time. A step contains at most one access to the queue, and
the steps of the cores may follow each other in any order. How long the subcore retries is
left open, and so is the point at which it raises an exception. The report is the one of
the default panic handler; its text is not spelled out here.

One context of the subcore prints: `virtqueue_send_char` is not reentrant, so a handler
that prints while the interrupted context does has no place here. Beside an LP subcore the
wrapper of the main core may drop the latch of interrupts it has not seen; they wait until
the subcore triggers again.

The characters stored, dropped and passed to the UART, and the requests sent and received
are recorded next to the state. No step looks at these records.
-/
namespace EspAmp.ServiceQueue
open ByteMemory Virtqueue VirtqueueFifo RpmsgChannel Printf ReplyMachine
open ConsoleLines (Packet Console Cut Tracks cut maxLen)
open InterruptPort (SubcoreType)

/-- `SERVICE_QUEUE_LEN` items of `SERVICE_QUEUE_ITEM_SIZE` bytes. -/
structure Service where
  ring : Setup
  placed : Placed ring
  queueLen : ring.n = 16
  itemSize : ring.itemSize = 128#16

def itemSize : U16 := 128

/-- `srv_pkt_hdr_t` at an address, with the parameter bytes behind it. -/
def packetAt (m : Memory 32) (pkt : U32) : Packet where
  srvId := (word16 m pkt).toNat
  paramLen := (word16 m (pkt + 2#32)).toNat
  param := read m (pkt + 4#32) maxLen

/-- Where the subcore stands: in the retry loop, in front of the store into the buffer, in
the notify function of a send, or in its panic handler before and behind the trigger. -/
inductive Subcore where
  | idle
  | retrying (c : U8)
  | storing (c : U8)
  | notifying
  | panicking
  | stopped
deriving DecidableEq

/-- Where `supplicant_task` stands. -/
inductive Task where
  | waiting
  | checking
  | receiving
  | printing (param : U32) (i : ℕ)
  | destroying (param : U32)
  | reporting
  | asleep
deriving DecidableEq

/-- What the main core prints: a character of a line, or the report of a panic. -/
inductive Out where
  | char (c : U8)
  | report
deriving DecidableEq

structure State where
  ring : Vring
  mem : Memory 32
  ready : Bool := false
  buf : U32 := 0
  bufLen : U16 := 0
  pos : U16 := 0
  subcore : Subcore := .idle
  subcoreType : SubcoreType
  svcIntr : Bool := false
  panicIntr : Bool := false
  latchDropped : Bool := false
  notified : Bool := false
  isSubcorePanic : Bool := false
  task : Task := .waiting
  output : List Out := []
  uart : List U8 := []
  accepted : List U8 := []
  dropped : List U8 := []
  sent : List Packet := []
  received : List Packet := []

/-- The main core has initialized the service, the memory holds anything. -/
def start (v : Service) (subcoreType : SubcoreType) (mem : Memory 32) : State :=
  { ring := v.ring.start, mem := mem, subcoreType := subcoreType }

/-- The address of `buf[i]`. -/
def slot (buf : U32) (i : U16) : U32 := buf + i.setWidth 32

namespace State

/-- `esp_amp_system_service_create_request`, called for the character `c`. -/
def createRequest (s : State) (c : U8) : State :=
  let r := s.ring.reply (.alloc itemSize)
  let ring := s.ring.apply (.alloc itemSize)
  if r.ret ≠ espOk then { s with ring := ring, buf := 0, bufLen := 0, subcore := .retrying c }
  else
    { s with
      ring := ring
      mem := write16 (write16 s.mem r.buffer 0xffff) (r.buffer + 2#32) 0
      buf := r.buffer + 4#32
      bufLen := itemSize - 4
      subcore := .storing c }

/-- `virtqueue_send_char` up to its store into the buffer. -/
def putChar (s : State) (c : U8) : State :=
  if c = 0 then s
  else if s.buf ≠ 0 then { s with subcore := .storing c }
  else if !s.ready then { s with uart := s.uart ++ [c] }
  else s.createRequest c

/-- `esp_amp_system_service_send_request` up to the notify function of the queue. -/
def sendRequest (s : State) (id : U16) (param : U32) (paramLen : U16) : State :=
  let pkt := param - 4#32
  let mem := write16 (write16 s.mem pkt id) (pkt + 2#32) paramLen
  let call := Call.send pkt itemSize
  if (s.ring.reply call).ret ≠ espOk then { s with mem := mem, ring := s.ring.apply call }
  else
    { s with
      mem := mem
      ring := s.ring.apply call
      subcore := .notifying
      sent := s.sent ++ [packetAt mem pkt] }

end State

/-- The removal of the line terminator in front of `buf[pos]`. -/
def stripLine (mem : Memory 32) (buf : U32) (pos : U16) : Memory 32 :=
  if 1 ≤ pos ∧ mem (slot buf (pos - 1)) = chr '\n' then write mem (slot buf (pos - 1)) [0]
  else if 2 ≤ pos ∧ mem (slot buf (pos - 2)) = chr '\r' ∧ mem (slot buf (pos - 1)) = chr '\n' then
    write mem (slot buf (pos - 2)) [0]
  else mem

namespace State

/-- `virtqueue_send_char` from its store into the buffer. -/
def store (s : State) (c : U8) : State :=
  let mem := write s.mem (slot s.buf s.pos) [c]
  let pos := s.pos + 1
  let s := { s with mem := mem, pos := pos, subcore := .idle, accepted := s.accepted ++ [c] }
  if (pos.toNat : ℤ) = s.bufLen.toNat - 1 ∨ c = chr '\n' then
    let mem := stripLine (write mem (slot s.buf pos) [0]) s.buf pos
    { ({ s with mem := mem } : State).sendRequest 1 s.buf (pos + 1) with buf := 0, pos := 0 }
  else s

/-- `esp_amp_system_service_recv_request` and the branch on the service id. -/
def receive (s : State) : State :=
  let r := s.ring.reply .recv
  let ring := s.ring.apply .recv
  if r.ret ≠ espOk then { s with ring := ring, task := .waiting }
  else
    { s with
      ring := ring
      task :=
        if word16 s.mem r.buffer = 1 then .printing (r.buffer + 4#32) 0
        else .destroying (r.buffer + 4#32)
      received := s.received ++ [packetAt s.mem r.buffer] }

/-- One character of `puts`, which ends with a line feed. -/
def print (s : State) (param : U32) (i : ℕ) : State :=
  let c := s.mem (param + BitVec.ofNat 32 i)
  if c = 0 then { s with output := s.output ++ [.char (chr '\n')], task := .destroying param }
  else { s with output := s.output ++ [.char c], task := .printing param (i + 1) }

/-- `esp_amp_system_service_destroy_request` -/
def destroy (s : State) (param : U32) : State :=
  { s with ring := s.ring.apply (.free (param - 4#32)), task := .checking }

end State

/-- The steps of the subcore, of the interrupt handlers and of the supplicant. `dropLatch`
is a clear of the PMU wrapper that wipes interrupts it has not seen, `otherTrigger` a trigger
of the subcore for another handler, and `elapse` the end of the delay behind a report. -/
inductive Label where
  | init | put (c : U8) | retry (c : U8) | giveUp (c : U8) | store (c : U8) | trigger
  | crash | panic | otherTrigger
  | dropLatch
  | interrupt | panicInterrupt
  | wake | check | receive | print (param : U32) (i : ℕ) | destroy (param : U32)
  | report | elapse
deriving DecidableEq

/-- The label is a step of the handlers or of the supplicant. -/
def Label.onMain : Label → Bool
  | .dropLatch | .interrupt | .panicInterrupt | .wake | .check | .receive | .print _ _
  | .destroy _ | .report | .elapse => true
  | _ => false

def State.Enabled (s : State) : Label → Prop
  | .init => s.subcore = .idle ∧ s.ready = false
  | .put _ => s.subcore = .idle
  | .retry c | .giveUp c => s.subcore = .retrying c
  | .store c => s.subcore = .storing c
  | .trigger => s.subcore = .notifying
  | .crash => s.subcore ≠ .panicking ∧ s.subcore ≠ .stopped
  | .panic => s.subcore = .panicking
  | .otherTrigger => s.subcore ≠ .stopped
  | .dropLatch =>
      s.subcoreType = .lpCore ∧ s.latchDropped = false ∧ (s.svcIntr = true ∨ s.panicIntr = true)
  | .interrupt => s.svcIntr = true ∧ s.latchDropped = false
  | .panicInterrupt => s.panicIntr = true ∧ s.latchDropped = false
  | .wake => s.task = .waiting ∧ s.notified = true
  | .check => s.task = .checking
  | .receive => s.task = .receiving
  | .print param i => s.task = .printing param i
  | .destroy param => s.task = .destroying param
  | .report => s.task = .reporting
  | .elapse => s.task = .asleep

instance (s : State) : DecidablePred s.Enabled := by
  intro l
  cases l <;> dsimp only [State.Enabled] <;> infer_instance

def State.next (s : State) : Label → State
  | .init => { s with ready := true }
  | .put c => s.putChar c
  | .retry c => s.createRequest c
  | .giveUp c => { s with subcore := .idle, dropped := s.dropped ++ [c] }
  | .store c => s.store c
  | .trigger => { s with subcore := .idle, svcIntr := true, latchDropped := false }
  | .crash => { s with subcore := .panicking }
  | .panic => { s with subcore := .stopped, panicIntr := true, latchDropped := false }
  | .otherTrigger => { s with latchDropped := false }
  | .dropLatch => { s with latchDropped := true }
  | .interrupt => { s with svcIntr := false, notified := true }
  | .panicInterrupt => { s with panicIntr := false, isSubcorePanic := true, notified := true }
  | .wake => { s with notified := false, task := .checking }
  | .check => { s with task := if s.isSubcorePanic then .reporting else .receiving }
  | .receive => s.receive
  | .print param i => s.print param i
  | .destroy param => s.destroy param
  | .report => { s with output := s.output ++ [.report], task := .asleep }
  | .elapse => { s with task := .receiving }

def Step (s : State) (l : Label) (t : State) : Prop := s.Enabled l ∧ t = s.next l

/-- The item that the subcore fills. -/
def State.held (s : State) : List U32 := if s.buf = 0 then [] else [s.buf - 4#32]

/-- The item that the supplicant reads. -/
def Task.held : Task → List U32
  | .printing param _ | .destroying param => [param - 4#32]
  | _ => []

/-- What `puts` prints of a request. -/
def line (p : Packet) : List U8 := p.payload ++ [chr '\n']

/-- The characters on the console, without those of a report. -/
def State.printed (s : State) : List U8 :=
  s.output.filterMap fun
    | .char c => some c
    | .report => none

/-- The characters that `subcore_putchar` was called with. -/
def written (ls : List Label) : List U8 :=
  ls.filterMap fun
    | .put c => some c
    | _ => none

end EspAmp.ServiceQueue
