import Accelerator.Thread.SharedMutexRoles

namespace Acc.Thread.SharedMutex

open Function

open DeferredReaders (Slot Role Act Solo Inv units)
open Interleaving (Few Reaches Runs Acts)

def Mode.role : Mode → Role kMaxDeferredReaders
  | .exclusive => .exclusive
  | .upgrade => .upgrade
  | .shared => .reading

lemma role_of_mode {p : Pc} {k : Mode} (h : p.mode = some k) : role p = k.role := by
  induction p with
  | held held => cases held <;> cases h <;> rfl
  | lockFast up | lockCas up => cases up <;> cases h; rfl
  | wait waiter =>
    cases waiter with
    | lock up => cases up <;> cases h; rfl
    | _ => cases h
  | search release | searchCas release | freeSlot release | inline release =>
    cases release <;> cases h; rfl
  | wake _ _ next ih => exact ih h
  | toShared | toUpgrade => cases h; rfl
  | _ => cases h

lemma unit_role (p : Pc) : (role p).unit = if p.sharing then 1 else 0 := by
  induction p with
  | held held => cases held <;> rfl
  | lockFast up | lockCas up => cases up <;> rfl
  | wait waiter =>
    cases waiter with
    | lock up => cases up <;> rfl
    | _ => rfl
  | sharedRecheck _ _ _ gotSlot => cases gotSlot <;> rfl
  | search release _ i | searchCas release _ i => cases release <;> cases i <;> rfl
  | freeSlot release | inline release => cases release <;> rfl
  | wake _ _ next ih => exact ih
  | _ => rfl

lemma Ok.has_priority {prio : Bool} {p : Pc} (h : Ok prio p) (hp : (role p).solo = some .begun) :
    prio = true := by
  have drain : ∀ {state : Word}, DrainOk prio state →
      (if has state kHasE then Solo.exclusive else .begun) = .begun → prio = true := by
    intro state hok hbegun
    cases hr : prio with
    | true => rfl
    | false =>
      rw [hok hr] at hbegun
      cases hbegun
  induction p with
  | held held => cases held <;> cases hp
  | lockFast up | lockCas up => cases up <;> cases hp
  | applySpin | applyYield | applyMove | applyCas | applyAdd | backOut =>
    exact drain h (Option.some.inj hp)
  | lockEnd => exact drain h.1 (Option.some.inj hp)
  | wait waiter =>
    cases waiter with
    | lock up => cases up <;> cases hp
    | drain => exact drain h.1 (Option.some.inj hp)
    | _ => cases hp
  | sharedRecheck _ _ _ gotSlot => cases gotSlot <;> cases hp
  | search release _ i | searchCas release _ i => cases release <;> cases i <;> cases hp
  | freeSlot release | inline release => cases release <;> cases hp
  | wake _ _ next ih => exact ih h.2 hp
  | _ => cases hp

section Invariant

variable {prio : Bool} {ι : Type*}

def abs (s : State ι) : DeferredReaders.State (2 ^ 22) kMaxDeferredReaders ι :=
  ⟨view s.mem, fun c => role (s.pc c)⟩

lemma abs_update [DecidableEq ι] (s : State ι) (c : ι) (m : Mem) (p : Pc) :
    abs ⟨m, update s.pc c p⟩ = (abs s).set c (view m) (role p) := by
  have hrole : (fun b => role (update s.pc c p b))
      = update (fun b => role (s.pc b)) c (role p) := by
    funext b
    exact apply_update (fun _ => role) s.pc c p b
  rw [abs, hrole]
  rfl

variable [Fintype ι]

structure Good (readerPriority : Bool) (s : State ι) : Prop where
  inv : Inv (abs s)
  ok : ∀ c, Ok readerPriority (s.pc c)
  few : units (abs s) < 2 ^ 22

lemma units_lt {s : State ι} (h : Few (fun p => p.sharing = true) (2 ^ 22) s) :
    units (abs s) < 2 ^ 22 := by
  have hcard : {c | (s.pc c).sharing = true}.encard
      = (Finset.univ.filter fun c => (s.pc c).sharing = true).card := by
    rw [← Set.encard_coe_eq_coe_finsetCard]
    simp
  have hunits : units (abs s) = (Finset.univ.filter fun c => (s.pc c).sharing = true).card := by
    rw [units, Finset.natCast_card_filter]
    refine Finset.sum_congr rfl fun c _ => ?_
    exact unit_role (s.pc c)
  rw [Few, hcard] at h
  rw [hunits]
  exact_mod_cast h

variable {s s' : State ι}

lemma Good.begun (h : Good prio s) (hp : prio = false) : has s.mem.state kBegunE = false := by
  by_cases hsolo : ∀ c, ((abs s).role c).solo = none
  · exact congrArg (fun b => b.2.1) (h.inv.nobody hsolo)
  obtain ⟨c, hc⟩ := not_forall.mp hsolo
  obtain ⟨k, hk⟩ := Option.ne_none_iff_exists'.mp hc
  have hbits := congrArg (fun b => b.2.1) (h.inv.bits c k hk)
  cases k with
  | exclusive | upgrade => exact hbits
  | begun =>
    rw [(h.ok c).has_priority hk] at hp
    cases hp

variable [DecidableEq ι]

lemma Good.step (h : Good prio s) (hstep : Interleaving.Step (Moves prio) Outside s s')
    (hfew : Few (fun p => p.sharing = true) (2 ^ 22) s') : Good prio s' := by
  refine ⟨?_, ?_, units_lt hfew⟩
  · cases hstep with
    | @client c m p hmove =>
      obtain ⟨ch, hs⟩ := hmove
      have hsim := step_acts (h.ok c) (h.inv.bits c) h.begun hs
      rw [abs_update]
      exact h.inv.steps (by decide) hsim.1 rfl rfl (by exact_mod_cast h.few)
    | outside hout =>
      cases hout with
      | fill hslot | clear hslot => exact h.inv.other (congrArg Slot.isThis hslot) rfl
  cases hstep with
  | @client c m p hmove =>
    obtain ⟨ch, hs⟩ := hmove
    have hsim := step_acts (h.ok c) (h.inv.bits c) h.begun hs
    exact (forall_update_iff s.pc fun _ => Ok prio).mpr
      ⟨hsim.2, fun b _ => h.ok b⟩
  | outside => exact h.ok

omit [DecidableEq ι] in
lemma Good.start : Good prio (start ι) := by
  have hsolo : (view ⟨0, fun _ => .zero⟩).solo = Solo.bits none :=
    congrArg DeferredReaders.Mem.solo (Reads.zero.view (m := ⟨0, fun _ => .zero⟩))
  refine ⟨Inv.start _ (fun _ => rfl) Reads.zero.1 hsolo fun _ => rfl, fun _ => trivial, ?_⟩
  simp [units, abs, SharedMutex.start, Interleaving.State.all, role, Role.unit]

lemma Reaches.good (h : Reaches (Moves prio) Outside (fun p => p.sharing = true) (2 ^ 22)
    (SharedMutex.start ι) s) : Good prio s := by
  induction h with
  | refl => exact .start
  | tail _ hstep ih => exact ih.step hstep.1 hstep.2

omit [DecidableEq ι] in
lemma Good.pairwise (h : Good prio s) {a b : ι} (hab : a ≠ b) :
    ((s.pc a).mode = some .exclusive → (s.pc b).mode = none) ∧
      ((s.pc a).mode = some .exclusive ∨ (s.pc a).mode = some .upgrade →
        ¬ ((s.pc b).mode = some .exclusive ∨ (s.pc b).mode = some .upgrade)) := by
  have hsolo : ∀ {c}, (s.pc c).mode = some .exclusive ∨ (s.pc c).mode = some .upgrade →
      ((abs s).role c).solo ≠ none := by
    rintro c (hc | hc) hnone
    · have : (Mode.role .exclusive).solo = none := by rw [← role_of_mode hc]; exact hnone
      cases this
    · have : (Mode.role .upgrade).solo = none := by rw [← role_of_mode hc]; exact hnone
      cases this
  have hunique : ((s.pc a).mode = some .exclusive ∨ (s.pc a).mode = some .upgrade →
      ¬ ((s.pc b).mode = some .exclusive ∨ (s.pc b).mode = some .upgrade)) :=
    fun ha hb => hab (h.inv.unique a b (hsolo ha) (hsolo hb))
  refine ⟨fun ha => ?_, hunique⟩
  cases hb : (s.pc b).mode with
  | none => rfl
  | some k =>
    cases k with
    | exclusive => exact absurd (.inl hb) (hunique (.inl ha))
    | upgrade => exact absurd (.inr hb) (hunique (.inl ha))
    | shared => exact absurd (role_of_mode hb) (h.inv.quiet a (role_of_mode ha) b)

end Invariant

theorem exclusion_of_reaches (readerPriority : Bool) {ι : Type*} [DecidableEq ι] {s : State ι}
    (h : Reaches (Moves readerPriority) Outside (fun p => p.sharing = true) (2 ^ 22)
      (start ι) s) : Exclusion s := by
  have hpair := h.pairwise (R := fun _ p p' => (p.mode = some .exclusive → p'.mode = none) ∧
    (p.mode = some .exclusive ∨ p.mode = some .upgrade →
      ¬ (p'.mode = some .exclusive ∨ p'.mode = some .upgrade)))
    fun _ _ hrun _ _ hab => Good.pairwise (Reaches.good hrun) hab
  exact ⟨fun a b hab => (hpair a b hab).1, fun a b hab => (hpair a b hab).2⟩

theorem exclusion_of_upgrade_beside_shared : ∃ s : State (Fin 2),
    Reaches (Moves true) Outside (fun p => p.sharing = true) (2 ^ 22) (start (Fin 2)) s ∧
      (s.pc 0).mode = some .upgrade ∧ (s.pc 1).mode = some .shared ∧ Exclusion s := by
  have hupgrade : Acts (Moves true) ⟨0, fun _ => .zero⟩ (.held .none) ⟨kHasU, fun _ => .zero⟩
      (.held .upgrade) :=
    have hcas : Acts (Moves true) ⟨0, fun _ => .zero⟩ (.upgradeCas .forever 0)
        ⟨kHasU, fun _ => .zero⟩ (.held .upgrade) := .head ⟨{}, rfl⟩ .refl
    .head ⟨{ op := .lockUpgrade .forever }, rfl⟩ (.head ⟨{}, rfl⟩ hcas)
  have hshared : Acts (Moves true) ⟨kHasU, fun _ => .zero⟩ (.held .none)
      ⟨kHasU + kIncrHasS, fun _ => .zero⟩ (.held (.shared none)) :=
    have hfast : Acts (Moves true) ⟨kHasU, fun _ => .zero⟩ (.sharedFast false .forever kHasU)
        ⟨kHasU + kIncrHasS, fun _ => .zero⟩ (.held (.shared none)) := .head ⟨{}, rfl⟩ .refl
    .head ⟨{ op := .lockShared false .forever }, rfl⟩ hfast
  have hruns : Runs (Moves true) Outside (start (Fin 2)) _ :=
    (hupgrade.runs (s := start (Fin 2)) (c := 0) rfl rfl).trans (hshared.runs (c := 1) rfl rfl)
  have hreaches := hruns.reaches (q := fun p => p.sharing = true) (k := 2 ^ 22) (by decide)
  exact ⟨_, hreaches, rfl, rfl, exclusion_of_reaches true hreaches⟩

def crowd (n : Nat) : State Nat :=
  ⟨⟨BitVec.ofNat 32 n * kIncrHasS, fun slot => if slot.val < 2 then .other else .zero⟩,
    fun c => if c < n then .held (.shared none) else .held .none⟩

lemma crowd_reads (n : Nat) : Reads (crowd n).mem.state n false false false false := by
  have hcount : (0 : ZMod (2 ^ 22)) + n = n := zero_add _
  have hword : (0 : Word) + BitVec.ofNat 32 n * kIncrHasS = BitVec.ofNat 32 n * kIncrHasS :=
    BitVec.zero_add _
  have hreads := Reads.zero.add n
  rw [hcount, hword] at hreads
  exact hreads

lemma crowd_idle (n : Nat) : (crowd n).pc n = .held .none := if_neg (lt_irrefl n)

lemma crowd_shared {c n : Nat} (h : c < n) : (crowd n).pc c = .held (.shared none) := if_pos h

lemma crowd_start (prio : Bool) : Runs (Moves prio) Outside (start Nat) (crowd 0) := by
  have h₀ : Interleaving.Step (Moves prio) Outside (start Nat)
      { start Nat with mem := (start Nat).mem.setSlot 0 .other } := .outside (.fill rfl)
  have h₁ : Interleaving.Step (Moves prio) Outside
      { start Nat with mem := (start Nat).mem.setSlot 0 .other }
      { start Nat with mem := ((start Nat).mem.setSlot 0 .other).setSlot 1 .other } :=
    .outside (.fill rfl)
  have hcrowd : crowd 0 =
      { start Nat with mem := ((start Nat).mem.setSlot 0 .other).setSlot 1 .other } := by
    have hslots : (fun slot : Fin kMaxDeferredReaders => if slot.val < 2 then Slot.other else .zero)
        = update (update (fun _ => .zero) 0 .other) 1 .other := by decide
    rw [crowd, hslots]
    rfl
  rw [hcrowd]
  exact (Relation.ReflTransGen.single h₀).tail h₁

lemma enter_inline (prio : Bool) {m : Mem} (he : has m.state kHasE = false)
    (h₀ : m.slots 0 = .other) (h₁ : m.slots 1 = .other) :
    Acts (Moves prio) m (.held .none) { m with state := m.state + kIncrHasS }
      (.held (.shared none)) := by
  have hcas : Acts (Moves prio) m (.sharedCas false .forever m.state)
      { m with state := m.state + kIncrHasS } (.held (.shared none)) :=
    .head ⟨{}, if_pos rfl⟩ .refl
  have hlook : Moves prio m (.sharedLook false .forever m.state) m
      (.sharedSearch false .forever m.state 0 0) := by
    refine ⟨{}, if_neg ?_⟩
    rw [h₀]
    nofun
  have hsearch₀ : Moves prio m (.sharedSearch false .forever m.state 0 0) m
      (.sharedSearch false .forever m.state 0 1) := by
    refine ⟨{}, if_neg ?_⟩
    rw [slotNear_zero, h₀]
    nofun
  have hsearch₁ : Moves prio m (.sharedSearch false .forever m.state 0 1) m
      (.sharedCas false .forever m.state) := by
    refine ⟨{}, if_neg ?_⟩
    rw [show slotNear 0 1 = 1 from rfl, h₁]
    nofun
  have hgo : Acts (Moves prio) m (sharedTop prio false .forever m.state)
      { m with state := m.state + kIncrHasS } (.held (.shared none)) := by
    rw [sharedTop, he, if_neg (by decide)]
    simp only [sharedGo]
    split
    · exact .head hlook (.head hsearch₀ (.head hsearch₁ hcas))
    · exact hcas
  have hcall : Moves prio m (.held .none) m
      (if !has m.state (kHasS ||| kMayDefer ||| kHasE) then .sharedFast false .forever m.state
        else sharedTop prio false .forever m.state) :=
    ⟨{ op := .lockShared false .forever }, rfl⟩
  refine .head hcall ?_
  split
  · exact .head ⟨{}, if_pos rfl⟩ .refl
  · exact hgo

lemma crowd_succ (prio : Bool) (n : Nat) :
    Runs (Moves prio) Outside (crowd n) (crowd (n + 1)) := by
  have henter := enter_inline prio (m := (crowd n).mem) (crowd_reads n).2.2.1 rfl rfl
  have hword : (crowd n).mem.state + kIncrHasS = (crowd (n + 1)).mem.state := by
    show BitVec.ofNat 32 n * kIncrHasS + kIncrHasS = BitVec.ofNat 32 (n + 1) * kIncrHasS
    rw [BitVec.ofNat_add, BitVec.add_mul]
    rfl
  have hpc : update (crowd n).pc n (.held (.shared none)) = (crowd (n + 1)).pc := by
    funext c
    rcases lt_trichotomy c n with hc | rfl | hc
    · rw [update_of_ne hc.ne]
      exact (if_pos hc).trans (if_pos (hc.trans n.lt_succ_self)).symm
    · rw [update_self]
      exact (if_pos c.lt_succ_self).symm
    · rw [update_of_ne hc.ne']
      exact (if_neg hc.not_gt).trans (if_neg (Nat.not_lt.mpr hc)).symm
  have hruns : Runs (Moves prio) Outside (crowd n) _ := henter.runs rfl (crowd_idle n)
  rw [hword, hpc] at hruns
  exact hruns

lemma crowd_reached (prio : Bool) (n : Nat) :
    Runs (Moves prio) Outside (start Nat) (crowd n) := by
  induction n with
  | zero => exact crowd_start prio
  | succ n ih => exact ih.trans (crowd_succ prio n)

lemma crowd_lock (prio : Bool) : Acts (Moves prio) (crowd (2 ^ 22)).mem (.held .none)
      ⟨((crowd (2 ^ 22)).mem.state ||| kHasE) &&& ~~~ kHasU, (crowd (2 ^ 22)).mem.slots⟩
      (.held .exclusive) := by
  have hreads := crowd_reads (2 ^ 22)
  generalize crowd (2 ^ 22) = s at hreads
  obtain ⟨hc, hd, he, hb, hu⟩ := hreads
  have hzero : ((2 ^ 22 : Nat) : ZMod (2 ^ 22)) = 0 := ZMod.natCast_self _
  have hfree : has s.mem.state (lockGoal false ||| kMayDefer ||| kHasS) = false := by
    rw [has_mask_or, has_mask_or, has_hasS, hc, hzero, hd, lockGoal, if_neg (by decide), kHasSolo,
      has_mask_or, has_mask_or, he, hb, hu]
    rfl
  have hcall : Moves prio s.mem (.held .none) s.mem
      (.lockFast false .forever s.mem.state) := by
    refine ⟨{ op := .lock .forever }, ?_⟩
    simp [step, call, hfree]
  exact .head hcall (.head ⟨{}, if_pos rfl⟩ .refl)

lemma crowd_beside_writer (prio : Bool) : ∃ s : State Nat,
    Runs (Moves prio) Outside (start Nat) s ∧
      (s.pc (2 ^ 22)).mode = some .exclusive ∧ (s.pc 0).mode = some .shared ∧ ¬ Exclusion s := by
  have hlock : Runs (Moves prio) Outside (crowd (2 ^ 22)) _ :=
    (crowd_lock prio).runs rfl (crowd_idle (2 ^ 22))
  have hruns := (crowd_reached prio (2 ^ 22)).trans hlock
  have hne : 2 ^ 22 ≠ 0 := by decide
  have hwriter : (update (crowd (2 ^ 22)).pc (2 ^ 22) (.held .exclusive) (2 ^ 22)).mode
      = some .exclusive := by
    rfl
  have hreader : (update (crowd (2 ^ 22)).pc (2 ^ 22) (.held .exclusive) 0).mode
      = some .shared := by
    rfl
  refine ⟨_, hruns, hwriter, hreader, fun h => ?_⟩
  have hnone := h.alone (2 ^ 22) 0 hne hwriter
  exact absurd (hreader.symm.trans hnone) nofun

theorem not_exclusion_of_crowd :
    (∃ s : State Nat, Runs (Moves true) Outside (start Nat) s ∧
      (s.pc (2 ^ 22)).mode = some .exclusive ∧ (s.pc 0).mode = some .shared ∧ ¬ Exclusion s) ∧
    (∃ s : State Nat, Runs (Moves false) Outside (start Nat) s ∧
      (s.pc (2 ^ 22)).mode = some .exclusive ∧ (s.pc 0).mode = some .shared ∧ ¬ Exclusion s) :=
  ⟨crowd_beside_writer true, crowd_beside_writer false⟩

end Acc.Thread.SharedMutex
