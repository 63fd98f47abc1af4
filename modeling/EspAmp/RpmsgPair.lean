import EspAmp.RpmsgChannel

/-!
# Two paired RPMsg devices

Two devices share one memory and two channels, one for each direction. A step
is one call of the interface on one side, or a store of one byte by the
application there. The applications keep the rules of the interface: a side
stores only into item buffers it holds or outside of all of them, sends what it
created, and destroys what its callbacks were given.

A callback is entered by the poll that calls it, and what its body does are
further steps of the same side. A copying send that is interrupted between its
parts is, step by step, a creation, stores and a send without copy, so senders
may interleave on one side as well. The header stores of a call go to a buffer
that nobody else touches; only their queue call has to be atomic.
-/
namespace EspAmp.RpmsgPair
open ByteMemory Virtqueue VirtqueueFifo VirtqueueOwnership ReplyMachine Rpmsg RpmsgChannel

inductive Side where
  | main | sub
deriving DecidableEq, Repr

def Side.other : Side → Side
  | .main => .sub
  | .sub => .main

@[simp] theorem Side.other_ne (d : Side) : d.other ≠ d := by cases d <;> decide
@[simp] theorem Side.other_other (d : Side) : d.other.other = d := by cases d <;> rfl

theorem Side.eq_other_of_ne {d e : Side} (h : e ≠ d) : e = d.other := by
  cases d <;> cases e <;> simp_all [Side.other]

/-- End of the item buffers. -/
def areaEnd (u : Setup) : ℕ := u.buffer.toNat + u.n * u.itemSize.toNat

/-- The two virtqueues of a pair, each named after its sender, with their item
buffers in disjoint places of one memory. -/
structure Pair where
  link : Side → Setup
  placed : ∀ d, Placed (link d)
  disjoint : areaEnd (link .main) ≤ (link .sub).buffer.toNat ∨
    areaEnd (link .sub) ≤ (link .main).buffer.toNat

theorem Pair.apart (p : Pair) (d : Side) {a b : U32} (ha : a ∈ (p.link d).addrs)
    (hb : b ∈ (p.link d.other).addrs) :
    Apart a (p.link d).itemSize.toNat b (p.link d.other).itemSize.toNat := by
  have hend := (p.placed d).area_lt
  have hend' := (p.placed d.other).area_lt
  have ha' := (p.placed d).itemAddr_bounds ha
  have hb' := (p.placed d.other).itemAddr_bounds hb
  have hdis : areaEnd (p.link d) ≤ (p.link d.other).buffer.toNat ∨
      areaEnd (p.link d.other) ≤ (p.link d).buffer.toNat := by
    cases d with
    | main => exact p.disjoint
    | sub => exact p.disjoint.symm
  intro x hxa hxb
  rw [within_iff (by omega)] at hxa hxb
  unfold areaEnd at hdis
  omega

structure Sys where
  mem : Memory 32
  chan : Side → Chan

def Pair.start (p : Pair) (mem : Memory 32) : Sys := ⟨mem, fun d => { ring := (p.link d).start }⟩

inductive Op where
  | createMessage (nbytes : U32) (flags : U16)
  | store (x : U32) (v : U8)
  | sendNocopy (ept : Ept) (dst : U16) (data : U32) (len : U16)
  | send (ept : Ept) (dst : U16) (data : U32) (len : U16)
  | poll
  | destroy (msgData : U32)
  | createEndpoint (eptAddr : U16) (rxCb : Option U32) (rxCbData ctx : U32)
  | deleteEndpoint (eptAddr : U16)
  | rebindEndpoint (eptAddr : U16) (rxCb : Option U32) (rxCbData : U32)
deriving DecidableEq, Repr

namespace Sys

/-- The byte at `x` belongs to no item buffer, or to item buffers of this side. -/
def Owns (p : Pair) (s : Sys) (d : Side) (x : U32) : Prop :=
  (∀ b ∈ (p.link d).addrs, Within b (p.link d).itemSize.toNat x →
    b ∈ (s.chan d).txHeld.map Prod.fst) ∧
  ∀ b ∈ (p.link d.other).addrs, Within b (p.link d.other).itemSize.toNat x →
    b ∈ (s.chan d.other).rxHeld.map Held.buffer

instance (p : Pair) (s : Sys) (d : Side) (x : U32) : Decidable (s.Owns p d x) :=
  @instDecidableAnd _ _ (List.decidableBAll _ _) (List.decidableBAll _ _)

/-- What the interface asks of its callers. -/
def Legal (p : Pair) (s : Sys) (d : Side) : Op → Prop
  | .createMessage nbytes _ => nbytes.toNat + 8 ≤ (p.link d).itemSize.toNat
  | .store x _ => s.Owns p d x
  | .sendNocopy _ _ data len =>
      ∃ q ∈ (s.chan d).txHeld, q.1 = data - 8#32 ∧ len.toNat ≤ q.2
  | .send _ _ data len => ∀ i < len.toNat, s.Owns p d (data + BitVec.ofNat 32 i)
  | .destroy msgData => msgData - 8#32 ∈ (s.chan d.other).rxHeld.map Held.buffer
  | .createEndpoint _ _ _ ctx => ctx ∉ (s.chan d.other).epts.map Ept.ctx
  | .poll | .deleteEndpoint _ | .rebindEndpoint _ _ _ => True

instance (p : Pair) (s : Sys) (d : Side) : DecidablePred (s.Legal p d)
  | .createMessage _ _ => inferInstanceAs (Decidable (_ ≤ _))
  | .store x _ => inferInstanceAs (Decidable (s.Owns p d x))
  | .sendNocopy _ _ data len =>
      inferInstanceAs (Decidable (∃ q ∈ (s.chan d).txHeld, q.1 = data - 8#32 ∧ len.toNat ≤ q.2))
  | .send _ _ data len =>
      inferInstanceAs (Decidable (∀ i < len.toNat, s.Owns p d (data + BitVec.ofNat 32 i)))
  | .destroy msgData =>
      inferInstanceAs (Decidable (msgData - 8#32 ∈ (s.chan d.other).rxHeld.map Held.buffer))
  | .createEndpoint _ _ _ ctx =>
      inferInstanceAs (Decidable (ctx ∉ (s.chan d.other).epts.map Ept.ctx))
  | .poll | .deleteEndpoint _ | .rebindEndpoint _ _ _ => inferInstanceAs (Decidable True)

/-- Replace the channel sent by `d`. -/
def setChan (s : Sys) (d : Side) (c : Chan) : Sys := { s with chan := Function.update s.chan d c }

/-- Replace the endpoint list of the device of `d`, which receives from the
other side. -/
def setEpts (s : Sys) (d : Side) (epts : List Ept) : Sys :=
  s.setChan d.other { s.chan d.other with epts := epts }

def exec (p : Pair) (s : Sys) (d : Side) : Op → Sys
  | .createMessage nbytes flags =>
      let r := (s.chan d).createMessage s.mem nbytes flags
      { s.setChan d r.1 with mem := r.2 }
  | .store x v =>
      { s.setChan d.other ((s.chan d.other).mark (p.link d.other).itemSize.toNat x) with
        mem := write s.mem x [v] }
  | .sendNocopy ept dst data len =>
      let r := (s.chan d).sendNocopy s.mem ept dst data len
      { s.setChan d r.1 with mem := r.2 }
  | .send ept dst data len =>
      let r := (s.chan d).send s.mem ept dst data len
      { s.setChan d r.1 with mem := r.2 }
  | .poll => s.setChan d.other ((s.chan d.other).poll s.mem)
  | .destroy msgData => s.setChan d.other ((s.chan d.other).destroy msgData)
  | .createEndpoint eptAddr rxCb rxCbData ctx =>
      s.setEpts d (Rpmsg.createEndpoint (s.chan d.other).epts eptAddr rxCb rxCbData ctx).2
  | .deleteEndpoint eptAddr => s.setEpts d (Rpmsg.deleteEndpoint (s.chan d.other).epts eptAddr).2
  | .rebindEndpoint eptAddr rxCb rxCbData =>
      s.setEpts d (Rpmsg.rebindEndpoint (s.chan d.other).epts eptAddr rxCb rxCbData).2

end Sys

/-- One step of one side. -/
def Step (p : Pair) (s : Sys) (l : Side × Op) (s' : Sys) : Prop :=
  s.Legal p l.1 l.2 ∧ s' = s.exec p l.1 l.2

/-- Both channels are in order. -/
def SysInv (p : Pair) (s : Sys) : Prop := ∀ d, ∃ t, ChanInv (p.link d) s.mem (s.chan d) t

section Invariant
variable {p : Pair} {s s' : Sys} {d : Side}

theorem SysInv.setChan {mem' : Memory 32} {c : Chan}
    (h : ∃ t, ChanInv (p.link d.other) mem' (s.chan d.other) t)
    (hc : ∃ t, ChanInv (p.link d) mem' c t) : SysInv p { s.setChan d c with mem := mem' } := by
  intro e
  by_cases he : e = d
  · subst he
    simpa [Sys.setChan] using hc
  · obtain rfl := Side.eq_other_of_ne he
    simpa [Sys.setChan] using h

/-- Stores into item buffers of one direction do not reach the other one. -/
theorem SysInv.other_of_local (h : SysInv p s) {mem' : Memory 32}
    (hlocal : Local (p.link d) s.mem mem') :
    ∃ t, ChanInv (p.link d.other) mem' (s.chan d.other) t := by
  obtain ⟨t, ht⟩ := h d.other
  refine ⟨t, ht.frame_sender (p.placed _) ?_⟩
  intro x hne b hb hx
  obtain ⟨a, ha, hxa⟩ := hlocal x hne
  exact (p.apart d ha hb x hxa hx).elim

theorem SysInv.receive (h : SysInv p s) {c : Chan}
    (hc : ∃ t, ChanInv (p.link d.other) s.mem c t) : SysInv p (s.setChan d.other c) := by
  refine SysInv.setChan (s := s) ?_ hc
  rw [Side.other_other]
  exact h d

theorem SysInv.setEpts (h : SysInv p s) (epts : List Ept) : SysInv p (s.setEpts d epts) := by
  obtain ⟨t, ht⟩ := h d.other
  exact h.receive ⟨t, ht.refines, ht.allocated, ht.received, ht.total, ht.created, ht.pending,
    ht.log, ht.intact⟩

theorem SysInv.store (h : SysInv p s) {x : U32} (v : U8) (hx : s.Owns p d x) :
    SysInv p (s.exec p d (.store x v)) := by
  obtain ⟨t, ht⟩ := h d
  obtain ⟨t', ht'⟩ := h d.other
  refine SysInv.setChan (s := s) ?_ ⟨t', ht'.frame_receiver (p.placed _) v hx.2⟩
  rw [Side.other_other]
  refine ⟨t, ht.frame_sender (p.placed d) ?_⟩
  intro y hy b hb hw
  by_cases hyx : y = x
  · subst hyx
    exact hx.1 b hb hw
  · exact (hy (write_byte_of_ne hyx)).elim

/-- Every legal step of either side keeps both channels in order. -/
theorem SysInv.exec (h : SysInv p s) {op : Op} (hl : s.Legal p d op) :
    SysInv p (s.exec p d op) := by
  obtain ⟨t, ht⟩ := h d
  obtain ⟨t', ht'⟩ := h d.other
  have hp := p.placed d
  have hp' := p.placed d.other
  cases op with
  | createMessage nbytes flags =>
      have hlt : nbytes.toNat + 8 < 2 ^ 32 := by
        have := (p.link d).itemSize.isLt
        exact Nat.lt_of_le_of_lt hl (by omega)
      obtain ⟨hlocal, hc⟩ := ht.createMessage hp hlt flags
      exact SysInv.setChan (h.other_of_local hlocal) hc
  | store x v => exact h.store v hl
  | sendNocopy ept dst data len =>
      obtain ⟨hlocal, hc⟩ := ht.sendNocopy hp ept dst hl
      exact SysInv.setChan (h.other_of_local hlocal) hc
  | send ept dst data len =>
      obtain ⟨hlocal, hc⟩ := ht.send hp ept dst fun i hi => (hl i hi).1
      exact SysInv.setChan (h.other_of_local hlocal) hc
  | poll => exact h.receive (ht'.poll hp')
  | destroy msgData => exact h.receive (ht'.destroy hp' hl)
  | createEndpoint eptAddr rxCb rxCbData ctx => exact h.setEpts _
  | deleteEndpoint eptAddr => exact h.setEpts _
  | rebindEndpoint eptAddr rxCb rxCbData => exact h.setEpts _

theorem start_sysInv (p : Pair) (mem : Memory 32) : SysInv p (p.start mem) := by
  intro d
  refine ⟨(p.link d).fifos, refines_start _, rfl, rfl, ?_, ?_, ?_, ?_, ?_⟩
  · simp [Setup.fifos, Pair.start]
  · intro q hq
    cases hq
  · intro q hq
    cases hq
  · rfl
  · intro k hk
    cases hk

/-- Both channels are in order in every reachable state. -/
theorem run_sysInv {mem : Memory 32} {ls : List (Side × Op)}
    (h : Run (Step p) (p.start mem) ls s) : SysInv p s := by
  refine h.invariant (P := SysInv p) ?_ (start_sysInv p mem)
  rintro s l _ ⟨hl, rfl⟩ hs
  exact hs.exec hl

end Invariant

/-- Two buffers of sixteen bytes in each direction. -/
def smallPair : Pair where
  link d := { twoBuffers with
    buffer := match d with
      | .main => 0x4087a620
      | .sub => 0x4087a640 }
  placed d := by
    cases d with
    | main => exact ⟨twoBuffers_quietNotify, by decide, by decide, by decide⟩
    | sub => exact ⟨twoBuffers_quietNotify, by decide, by decide, by decide⟩
  disjoint := by decide

end EspAmp.RpmsgPair
