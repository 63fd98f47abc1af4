import EspAmp.SysInfoInvariant

/-!
# What allocations and stores leave alone

Two different grants share no byte, whether they lie in one pool or in two. So an
allocation keeps the bytes of every grant, and a change of memory inside one grant keeps
the bytes of all others and both lists of headers.
-/
namespace EspAmp.SysInfo
open ByteMemory ReplyMachine

section Pools
variable {p : Pool} {m m' : Memory 32} {gs : List Grant} {g k : Grant} {x : U32}

/-- No grant overlaps the last header. -/
theorem Chain.lastHeader_apart {e : ℕ} {sz : U16} (h : Chain m e sz gs)
    (ht : top e sz gs < 2 ^ 32) (hg : g ∈ gs) :
    g.buffer.toNat + rounded g.size ≤ lastHeader e sz gs ∨
      lastHeader e sz gs + 8 ≤ g.buffer.toNat := by
  induction gs generalizing e sz with
  | nil => cases hg
  | cons k gs ih =>
      obtain ⟨-, -, -, hbuf, hc⟩ := h
      rw [top_cons] at ht
      have hle := le_top (e + 8 + rounded sz) k.size gs
      rcases List.mem_cons.mp hg with rfl | hg
      · rw [hbuf, toNat_addr (by omega)]
        cases gs with
        | nil => exact Or.inr le_rfl
        | cons l gs =>
            have hlast := le_lastHeader (e + 8 + rounded sz + 8 + rounded g.size) l.size gs
            left
            simp only [lastHeader]
            omega
      · exact ih hc ht hg

/-- The last header is the one of the pool or in front of a grant. -/
theorem Chain.lastHeader_eq {e : ℕ} {sz : U16} (h : Chain m e sz gs) :
    lastHeader e sz gs = e ∨ ∃ g ∈ gs, g.buffer - 8#32 = addr (lastHeader e sz gs) := by
  induction gs generalizing e sz with
  | nil => exact .inl rfl
  | cons k gs ih =>
      obtain ⟨-, -, -, hbuf, hc⟩ := h
      right
      rcases ih hc with hlast | ⟨g, hg, hlast⟩
      · refine ⟨k, List.mem_cons_self .., ?_⟩
        rw [lastHeader, hlast, hbuf, ← addr_add, BitVec.add_sub_cancel]
      · exact ⟨g, List.mem_cons_of_mem _ hg, hlast⟩

/-- Different grants of one pool share no byte. -/
theorem PoolInv.grants_apart (h : PoolInv p m gs) (hg : g ∈ gs) (hk : k ∈ gs) (hne : g ≠ k) :
    Apart g.buffer g.size.toNat k.buffer k.size.toNat := by
  have htop := h.top_lt
  have hgk := h.chain.header_apart htop hg hk
  have hkg := h.chain.header_apart htop hk hg
  have hbg := h.chain.bounds htop hg
  have hbk := h.chain.bounds htop hk
  have hbuf : g.buffer.toNat ≠ k.buffer.toNat := by
    intro heq
    have hid := (h.chain.header htop hg).1
    rw [BitVec.eq_of_toNat_eq heq, (h.chain.header htop hk).1] at hid
    exact hne (List.inj_on_of_nodup_map h.nodup hg hk hid.symm)
  have hsg := size_le_rounded g.size
  have hsk := size_le_rounded k.size
  intro x hx hx'
  rw [within_iff (by omega)] at hx hx'
  omega

/-- An allocation changes no granted byte. -/
theorem PoolInv.alloc_keeps (h : PoolInv p m gs) {fuel : ℕ} {id size : U16} {r : U32}
    (ha : poolAlloc p fuel m id size = some (r, m')) (hg : g ∈ gs)
    (hx : Within g.buffer g.size.toNat x) : m' x = m x := by
  obtain ⟨hno, hyes⟩ := h.poolAlloc_eq id size (Nat.lt_add_of_pos_right (Nat.succ_pos fuel))
  replace ha := poolAlloc_mono (gs.length + 1) ha
  rw [show fuel + (gs.length + 1) = gs.length + fuel.succ by omega] at ha
  by_cases hr : Refused p gs id size
  · rw [hno hr] at ha
    rw [(Prod.mk.inj (Option.some.inj ha)).2]
  · rw [hyes hr] at ha
    obtain ⟨-, hfit⟩ := not_or.mp hr
    have htop := h.top_lt
    have hstop := p.stop_le
    have hb := h.chain.bounds htop hg
    have hlast := h.chain.lastHeader_apart htop hg
    have hend := h.chain.last
    have hsize := size_le_rounded g.size
    have heq : top p.start 0 gs = p.start + 8 + occupied gs := rfl
    rw [within_iff (by omega)] at hx
    rw [← (Prod.mk.inj (Option.some.inj ha)).2]
    exact linkEntry_of_outside (by omega) (by omega) id size (by omega) (by omega)

/-- Outside of the headers an allocation changes nothing but the header of its grant. -/
theorem PoolInv.alloc_frame (h : PoolInv p m gs) {fuel : ℕ} {id size : U16} {r : U32}
    (ha : poolAlloc p fuel m id size = some (r, m')) (hfirst : ¬ Within (addr p.start) 8 x)
    (hold : ∀ g ∈ gs, ¬ Within (g.buffer - 8#32) 8 x) (hnew : ¬ Within (r - 8#32) 8 x) :
    m' x = m x := by
  obtain ⟨hno, hyes⟩ := h.poolAlloc_eq id size (Nat.lt_add_of_pos_right (Nat.succ_pos fuel))
  replace ha := poolAlloc_mono (gs.length + 1) ha
  rw [show fuel + (gs.length + 1) = gs.length + fuel.succ by omega] at ha
  by_cases hr : Refused p gs id size
  · rw [hno hr] at ha
    rw [(Prod.mk.inj (Option.some.inj ha)).2]
  · rw [hyes hr] at ha
    obtain ⟨hbuf, hmem⟩ := Prod.mk.inj (Option.some.inj ha)
    obtain ⟨-, hfit⟩ := not_or.mp hr
    have hstop := p.stop_le
    have hend := h.chain.last
    have heq : top p.start 0 gs = p.start + 8 + occupied gs := rfl
    have hlast : ¬ Within (addr (lastHeader p.start 0 gs)) 8 x := by
      rcases h.chain.lastHeader_eq with hlast | ⟨g, hg, hlast⟩
      · rwa [hlast]
      · rw [← hlast]
        exact hold g hg
    rw [← hbuf, ← addr_add, BitVec.add_sub_cancel] at hnew
    rw [within_addr (by omega) (by omega)] at hlast hnew
    rw [← hmem]
    exact linkEntry_of_outside (by omega) (by omega) id size (by omega) (by omega)

end Pools

/-- A byte of the first header of a pool or of the header in front of a grant. -/
def HeaderByte (cfg : MemConfig) (grants : Cap → List Grant) (x : U32) : Prop :=
  ∃ cap p, cfg.pool cap = some p ∧
    (Within (addr p.start) 8 x ∨ ∃ g ∈ grants cap, Within (g.buffer - 8#32) 8 x)

/-- The bytes of a grant and of its header. -/
def Grant.Covers (g : Grant) (x : U32) : Prop :=
  Within g.buffer g.size.toNat x ∨ Within (g.buffer - 8#32) 8 x

/-- Well-formed pools, and no grants where there is no pool. -/
structure Sound (cfg : MemConfig) (s : State) : Prop where
  wf : Wf cfg s
  empty : ∀ cap, cfg.pool cap = none → s.grants cap = []

/-- The grants in `P` stay granted and keep their bytes. -/
def Keeps (P : Cap → Grant → Prop) (s t : State) : Prop :=
  ∀ cap g, g ∈ s.grants cap → P cap g →
    g ∈ t.grants cap ∧ ∀ x, Within g.buffer g.size.toNat x → t.mem x = s.mem x

section System
variable {cfg : MemConfig} {s t v : State} {P Q : Cap → Grant → Prop} {cap d : Cap} {g k : Grant}
  {x : U32}

theorem alloc_frame (h : Wf cfg s) {fuel : ℕ} {id size : U16} {r : U32} {m : Memory 32}
    (ha : sysInfoAlloc cfg fuel s.mem id size cap = some (r, m))
    (hold : ¬ HeaderByte cfg s.grants x) (hnew : ¬ (⟨id, size, r⟩ : Grant).Covers x) :
    m x = s.mem x := by
  cases hp : cfg.pool cap with
  | none =>
      simp only [sysInfoAlloc, hp, Option.some.injEq, Prod.mk.injEq] at ha
      rw [ha.2]
  | some p =>
      simp only [sysInfoAlloc, hp] at ha
      exact (h cap p hp).alloc_frame ha (fun hx => hold ⟨cap, p, hp, .inl hx⟩)
        (fun g hg hx => hold ⟨cap, p, hp, .inr ⟨g, hg, hx⟩⟩) fun hx => hnew (.inr hx)

theorem headerByte_record {grants : Cap → List Grant}
    (h : HeaderByte cfg (record grants cap g) x) : HeaderByte cfg grants x ∨ g.Covers x := by
  obtain ⟨d, p, hp, hfirst | ⟨k, hk, hx⟩⟩ := h
  · exact .inl ⟨d, p, hp, .inl hfirst⟩
  · unfold record at hk
    split_ifs at hk with hz
    · exact .inl ⟨d, p, hp, .inr ⟨k, hk, hx⟩⟩
    · by_cases hd : d = cap
      · subst hd
        rw [Function.update_self, List.mem_append, List.mem_singleton] at hk
        rcases hk with hk | rfl
        · exact .inl ⟨d, p, hp, .inr ⟨k, hk, hx⟩⟩
        · exact .inr (.inr hx)
      · rw [Function.update_of_ne hd] at hk
        exact .inl ⟨d, p, hp, .inr ⟨k, hk, hx⟩⟩

theorem Keeps.trans (h : Keeps P s t) (h' : Keeps P t v) : Keeps P s v := by
  intro cap g hg hP
  obtain ⟨hmem, hbytes⟩ := h cap g hg hP
  obtain ⟨hmem', hbytes'⟩ := h' cap g hmem hP
  exact ⟨hmem', fun x hx => (hbytes' x hx).trans (hbytes x hx)⟩

theorem Keeps.mono (h : Keeps Q s t) (hPQ : ∀ cap g, P cap g → Q cap g) : Keeps P s t :=
  fun cap g hg hP => h cap g hg (hPQ cap g hP)

theorem Sound.pool (h : Sound cfg s) (hg : g ∈ s.grants cap) :
    ∃ p, cfg.pool cap = some p ∧ PoolInv p s.mem (s.grants cap) := by
  cases hp : cfg.pool cap with
  | none =>
      rw [h.empty cap hp] at hg
      cases hg
  | some p => exact ⟨p, rfl, h.wf cap p hp⟩

/-- The bytes of a grant lie in its pool. -/
theorem Sound.inside (h : Sound cfg s) (hg : g ∈ s.grants cap)
    (hx : Within g.buffer g.size.toNat x) :
    ∃ p, cfg.pool cap = some p ∧ p.start ≤ x.toNat ∧ x.toNat < p.stop := by
  obtain ⟨p, hp, hinv⟩ := h.pool hg
  have hb := hinv.chain.bounds hinv.top_lt hg
  have hfit := hinv.fits
  have hstop := p.stop_le
  have hsize := size_le_rounded g.size
  rw [within_iff (by omega)] at hx
  exact ⟨p, hp, by omega, by omega⟩

/-- Different grants share no byte. -/
theorem Sound.grants_apart (h : Sound cfg s) (hg : g ∈ s.grants cap) (hk : k ∈ s.grants d)
    (hne : (cap, g) ≠ (d, k)) : Apart g.buffer g.size.toNat k.buffer k.size.toNat := by
  by_cases hcap : cap = d
  · subst hcap
    obtain ⟨p, hp, hinv⟩ := h.pool hg
    exact hinv.grants_apart hg hk fun heq => hne (heq ▸ rfl)
  · intro x hx hx'
    obtain ⟨p, hp, hlow, hhigh⟩ := h.inside hg hx
    obtain ⟨q, hq, hlow', hhigh'⟩ := h.inside hk hx'
    have := pools_apart hp hq hcap
    omega

theorem start_sound (cfg : MemConfig) (m : Memory 32) : Sound cfg (.start cfg m) :=
  ⟨start_wf cfg m, fun _ _ => rfl⟩

theorem Sound.alloc (h : Sound cfg s) {fuel : ℕ} {id size : U16} {r : U32} {m : Memory 32}
    (ha : sysInfoAlloc cfg fuel s.mem id size cap = some (r, m)) :
    Sound cfg ⟨m, record s.grants cap ⟨id, size, r⟩⟩ ∧
      Keeps (fun _ _ => True) s ⟨m, record s.grants cap ⟨id, size, r⟩⟩ := by
  obtain ⟨hwf, hempty⟩ := step_wf (.alloc ha) ⟨h.wf, h.empty⟩
  refine ⟨⟨hwf, hempty⟩, fun d g hg _ => ⟨?_, fun x hx => ?_⟩⟩
  · dsimp only
    unfold record
    split_ifs
    · exact hg
    · by_cases hd : d = cap
      · subst hd
        rw [Function.update_self]
        exact List.mem_append_left _ hg
      · rwa [Function.update_of_ne hd]
  · obtain ⟨q, hq, hinv⟩ := h.pool hg
    cases hp : cfg.pool cap with
    | none =>
        rw [sysInfoAlloc, hp] at ha
        rw [(Prod.mk.inj (Option.some.inj ha)).2]
    | some p =>
        rw [sysInfoAlloc, hp] at ha
        by_cases hd : d = cap
        · subst hd
          obtain rfl := Option.some.inj (hp.symm.trans hq)
          exact hinv.alloc_keeps ha hg hx
        · obtain ⟨q', hq', hlow, hhigh⟩ := h.inside hg hx
          have hap := pools_apart hq' hp hd
          rcases (h.wf cap p hp).alloc ha with ⟨-, rfl⟩ | ⟨-, -, hout⟩
          · rfl
          · exact hout x (by omega)

/-- Memory changes inside one grant only. -/
theorem Sound.change (h : Sound cfg s) (hk : k ∈ s.grants d) {m : Memory 32}
    (hm : ∀ x, ¬ Within k.buffer k.size.toNat x → m x = s.mem x) :
    Sound cfg ⟨m, s.grants⟩ ∧ Keeps (fun cap g => (cap, g) ≠ (d, k)) s ⟨m, s.grants⟩ := by
  refine ⟨⟨fun cap p hp => ?_, h.empty⟩, fun cap g hg hne => ⟨hg, fun x hx => ?_⟩⟩
  · by_cases hcap : cap = d
    · subst hcap
      exact (h.wf cap p hp).of_outside fun x _ _ hout => hm x (hout k hk)
    · refine (h.wf cap p hp).congr fun x hlow hhigh => hm x fun hx => ?_
      obtain ⟨q, hq, hlow', hhigh'⟩ := h.inside hk hx
      have := pools_apart hp hq hcap
      omega
  · exact hm x (h.grants_apart hg hk hne x hx)

/-- Memory changes outside of the pools only. -/
theorem Sound.elsewhere (h : Sound cfg s) {m : Memory 32}
    (hm : ∀ cap p, cfg.pool cap = some p → ∀ x : U32, p.start ≤ x.toNat → x.toNat < p.stop →
      m x = s.mem x) :
    Sound cfg ⟨m, s.grants⟩ ∧ Keeps (fun _ _ => True) s ⟨m, s.grants⟩ := by
  refine ⟨⟨fun cap p hp => (h.wf cap p hp).congr (hm cap p hp), h.empty⟩,
    fun cap g hg _ => ⟨hg, fun x hx => ?_⟩⟩
  obtain ⟨p, hp, hlow, hhigh⟩ := h.inside hg hx
  exact hm cap p hp x hlow hhigh

/-- A lookup finds a grant. -/
theorem Sound.sysInfoGet_eq (h : Sound cfg s) (hg : g ∈ s.grants cap) {fuel : ℕ}
    (hf : (s.grants cap).length < fuel) :
    sysInfoGet cfg fuel s.mem g.id cap = some (some (g.buffer, g.size)) := by
  obtain ⟨p, hp, hinv⟩ := h.pool hg
  have hentry := hinv.chain.findEntry_eq hinv.top_lt g.id hf
  rw [find_of_nodup hinv.nodup hg] at hentry
  rw [sysInfoGet, hp]
  exact hentry

end System
end EspAmp.SysInfo
