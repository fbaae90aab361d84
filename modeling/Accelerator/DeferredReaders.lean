/-
# `Accelerator.DeferredReaders` — a reader-writer lock that need not count its readers
-/
import Mathlib

namespace Acc.DeferredReaders

open Function Finset

inductive Slot
  | zero
  | other
  | this (token : Bool)
  deriving DecidableEq, Repr

def Slot.isThis : Slot → Bool
  | .this _ => true
  | _ => false

structure Mem (N n : Nat) where
  count : ZMod N
  mayDefer : Bool
  hasE : Bool
  begunE : Bool
  hasU : Bool
  slots : Fin n → Slot

inductive Role (n : Nat)
  | out
  | reading
  | claimed (slot : Fin n) (token : Bool)
  | undoing
  | upgrade
  | scanning (e low : Bool) (slot moved : Nat)
  | moving (e low : Bool) (slot : Fin n) (moved : Nat) (token : Bool)
  | draining (e low : Bool)
  | exclusive
  deriving DecidableEq

inductive Solo
  | exclusive
  | begun
  | upgrade
  deriving DecidableEq

def Solo.bits : Option Solo → Bool × Bool × Bool
  | none => (false, false, false)
  | some .exclusive => (true, false, false)
  | some .begun => (false, true, false)
  | some .upgrade => (false, false, true)

def Mem.solo {N n : Nat} (m : Mem N n) : Bool × Bool × Bool := (m.hasE, m.begunE, m.hasU)

namespace Role

variable {n : Nat}

def solo : Role n → Option Solo
  | .upgrade => some .upgrade
  | .scanning e _ _ _ => some (if e then .exclusive else .begun)
  | .moving e _ _ _ _ => some (if e then .exclusive else .begun)
  | .draining e _ => some (if e then .exclusive else .begun)
  | .exclusive => some .exclusive
  | _ => none

def unit : Role n → ℤ
  | .reading => 1
  | .claimed _ _ => 1
  | .undoing => 1
  | _ => 0

def pending : Role n → ℤ
  | .claimed _ _ => 1
  | .undoing => 1
  | _ => 0

def moved : Role n → ℤ
  | .scanning _ _ _ k => k
  | .moving _ _ _ k _ => k
  | _ => 0

def share (r : Role n) : ℤ := r.unit - r.moved

def Ahead (i : Fin n) : Role n → Prop
  | .scanning _ _ j _ => j ≤ i
  | .moving _ _ j _ _ => j ≤ i
  | _ => False

def isLow : Role n → Bool
  | .scanning e low _ _ => e && low
  | .moving e low _ _ _ => e && low
  | .draining e low => e && low
  | _ => false

def Within : Role n → Prop
  | .scanning _ _ j k => k ≤ j ∧ j ≤ n
  | .moving _ _ j k _ => k ≤ j
  | _ => True

end Role

section Acts

variable {N n : Nat}

def MayBegin (m : Mem N n) (r : Role n) : Prop :=
  (r = .out ∧ m.solo = Solo.bits none) ∨ r = .upgrade

inductive Act (m : Mem N n) : Role n → Mem N n → Role n → Prop
  | enter (he : m.hasE = false) : Act m .out { m with count := m.count + 1 } .reading
  | leave : Act m .reading { m with count := m.count - 1 } .out
  | leaveUndone : Act m .undoing { m with count := m.count - 1 } .out
  | allow (he : m.hasE = false) (hb : m.begunE = false) :
      Act m .out { m with mayDefer := true } .out
  | claim {i : Fin n} {token : Bool} (hi : m.slots i = .zero) :
      Act m .out { m with slots := Function.update m.slots i (.this token) } (.claimed i token)
  | confirm {i : Fin n} {token : Bool} (hd : m.mayDefer = true) : Act m (.claimed i token) m .reading
  | free {i : Fin n} {token : Bool} (hi : m.slots i = .this token) :
      Act m .reading { m with slots := Function.update m.slots i .zero } .out
  | undo {i : Fin n} {token : Bool} (hi : m.slots i = .this token) :
      Act m (.claimed i token) { m with slots := Function.update m.slots i .zero } .out
  | miss {i : Fin n} {token : Bool} (hi : m.slots i ≠ .this token) :
      Act m (.claimed i token) m .undoing
  | undoOther {i : Fin n} {token : Bool} (hi : m.slots i = .this token) :
      Act m .undoing { m with slots := Function.update m.slots i .zero } .out
  | takeUpgrade (hs : m.solo = Solo.bits none) : Act m .out { m with hasU := true } .upgrade
  | dropUpgrade : Act m .upgrade { m with hasU := false } .out
  | upgradeToShared :
      Act m .upgrade { m with hasU := false, count := m.count + 1 } .reading
  | lockAtOnce {r : Role n} (hr : MayBegin m r) (hd : m.mayDefer = false) (hc : m.count = 0) :
      Act m r { m with hasE := true, hasU := false } .exclusive
  | begin {r : Role n} (e : Bool) (hr : MayBegin m r) :
      Act m r { m with hasE := e, begunE := !e, hasU := false, mayDefer := false }
        (if m.mayDefer then .scanning e (e && decide (m.count = 0)) 0 0
          else .draining e (e && decide (m.count = 0)))
  | pass {e low : Bool} {i : Fin n} {k : Nat} (hi : (m.slots i).isThis = false) :
      Act m (.scanning e low i k) m (.scanning e low (i + 1) k)
  | aim {e low : Bool} {i : Fin n} {k : Nat} {token : Bool} (hi : m.slots i = .this token) :
      Act m (.scanning e low i k) m (.moving e low i k token)
  | move {e low : Bool} {i : Fin n} {k : Nat} {token : Bool} (hi : m.slots i = .this token) :
      Act m (.moving e low i k token) { m with slots := Function.update m.slots i .zero }
        (.scanning e low (i + 1) (k + 1))
  | slip {e low : Bool} {i : Fin n} {k : Nat} {token : Bool} (hi : m.slots i ≠ .this token) :
      Act m (.moving e low i k token) m (.scanning e low (i + 1) k)
  | scanned {e low : Bool} : Act m (.scanning e low n 0) m (.draining e low)
  | add {e low : Bool} {k : Nat} :
      Act m (.scanning e low n k) { m with count := m.count + k }
        (.draining e (e && decide (m.count + k = 0)))
  | look {e low : Bool} : Act m (.draining e low) m (.draining e (e && decide (m.count = 0)))
  | acquire : Act m (.draining true true) m .exclusive
  | convert {low : Bool} (hc : m.count = 0) :
      Act m (.draining false low) { m with begunE := false, hasE := true } .exclusive
  | backOut {e low : Bool} :
      Act m (.draining e low) { m with hasE := false, begunE := false } .out
  | unlock : Act m .exclusive { m with hasE := false } .out
  | unlockToShared : Act m .exclusive { m with hasE := false, count := m.count + 1 } .reading
  | unlockToUpgrade : Act m .exclusive { m with hasE := false, hasU := true } .upgrade

inductive Acts : Mem N n → Role n → Mem N n → Role n → Prop
  | refl {m : Mem N n} {r : Role n} : Acts m r m r
  | last {m m' : Mem N n} {r r' : Role n} (h : Act m r m' r') : Acts m r m' r'
  | cons {m m₁ m' : Mem N n} {r r₁ r' : Role n} (h : Act m r m₁ r₁) (hu : r₁.unit = r.unit)
      (rest : Acts m₁ r₁ m' r') : Acts m r m' r'

end Acts

section Single

variable {N n : Nat} {m m' : Mem N n} {r r' : Role n}

def marks (m : Mem N n) : ℤ := ∑ i, if (m.slots i).isThis then 1 else 0

lemma sum_update {α M : Type*} [Fintype α] [DecidableEq α] [AddCommGroup M] {β : Type*}
    (g : β → M) (f : α → β) (a : α) (b : β) :
    ∑ x, g (update f a b x) = ∑ x, g (f x) + (g b - g (f a)) := by
  rw [← add_sum_erase _ _ (mem_univ a), update_self,
    ← add_sum_erase (a := a) _ (fun x => g (f x)) (mem_univ a)]
  have hrest : ∑ x ∈ univ.erase a, g (update f a b x)
      = ∑ x ∈ univ.erase a, g (f x) := by
    refine sum_congr rfl fun x hx => ?_
    rw [update_of_ne (ne_of_mem_erase hx)]
  rw [hrest]
  abel

lemma marks_update (m : Mem N n) (i : Fin n) (v : Slot) :
    marks { m with slots := update m.slots i v }
      = marks m + ((if v.isThis then 1 else 0) - if (m.slots i).isThis then 1 else 0) :=
  sum_update (fun v : Slot => if v.isThis then (1 : ℤ) else 0) m.slots i v

variable {i : Fin n} {token : Bool}

lemma marks_put (hi : m.slots i = .zero) :
    marks { m with slots := update m.slots i (.this token) } = marks m + 1 := by
  rw [marks_update, hi]
  rfl

lemma marks_clear (hi : m.slots i = .this token) :
    marks { m with slots := update m.slots i .zero } = marks m - 1 := by
  rw [marks_update, hi]
  rfl

lemma Act.balance (h : Act m r m' r') :
    m'.count - m.count = ((r'.share - r.share - (marks m' - marks m) : ℤ) : ZMod N) := by
  cases h with
  | claim hi => rw [marks_put hi]; simp [Role.share, Role.unit, Role.moved]
  | free hi | undo hi | undoOther hi | move hi =>
    rw [marks_clear hi]; simp [Role.share, Role.unit, Role.moved]
  | begin e hr =>
    rcases hr with ⟨rfl, _⟩ | rfl <;> split <;> simp [Role.share, Role.unit, Role.moved, marks]
  | lockAtOnce hr =>
    rcases hr with ⟨rfl, _⟩ | rfl <;> simp [Role.share, Role.unit, Role.moved, marks]
  | _ => simp [Role.share, Role.unit, Role.moved, marks]

lemma Act.solo (h : Act m r m' r') (hbits : ∀ k, r.solo = some k → m.solo = Solo.bits (some k)) :
    (r'.solo = r.solo ∧ m'.solo = m.solo) ∨
      ((r.solo ≠ none ∨ m.solo = Solo.bits none) ∧ m'.solo = Solo.bits r'.solo) := by
  cases h with
  | takeUpgrade hs =>
    simp only [Mem.solo, Solo.bits, Prod.mk.injEq] at hs ⊢
    simp [Role.solo, hs]
  | dropUpgrade | upgradeToShared =>
    have hs := hbits .upgrade rfl
    simp only [Mem.solo, Solo.bits, Prod.mk.injEq] at hs ⊢
    simp [Role.solo, hs]
  | lockAtOnce hr =>
    have hs : m.begunE = false ∧ (r.solo ≠ none ∨ m.solo = Solo.bits none) := by
      rcases hr with ⟨rfl, hs⟩ | rfl
      · exact ⟨congrArg (fun b => b.2.1) hs, .inr hs⟩
      · exact ⟨congrArg (fun b => b.2.1) (hbits .upgrade rfl), .inl nofun⟩
    refine .inr ⟨hs.2, ?_⟩
    simp [Mem.solo, Solo.bits, Role.solo, hs.1]
  | begin e hr =>
    have hs : r.solo ≠ none ∨ m.solo = Solo.bits none := by
      rcases hr with ⟨rfl, hs⟩ | rfl
      · exact .inr hs
      · exact .inl nofun
    refine .inr ⟨hs, ?_⟩
    cases e <;> split <;> rfl
  | @convert low hc =>
    have hs := hbits .begun rfl
    simp only [Mem.solo, Solo.bits, Prod.mk.injEq] at hs ⊢
    simp [Role.solo, hs]
  | @backOut e low =>
    have hs : m.hasU = false := by
      have := hbits _ rfl
      cases e <;> exact congrArg (fun b => b.2.2) this
    exact .inr ⟨.inl nofun, by simp [Mem.solo, Solo.bits, Role.solo, hs]⟩
  | unlock | unlockToShared | unlockToUpgrade =>
    have hs := hbits .exclusive rfl
    simp only [Mem.solo, Solo.bits, Prod.mk.injEq] at hs ⊢
    simp [Role.solo, hs]
  | _ => exact .inl ⟨rfl, rfl⟩

lemma Act.defer (h : Act m r m' r') (hbits : ∀ k, r.solo = some k → m.solo = Solo.bits (some k))
    (hd : m.mayDefer = true → m.hasE = false ∧ m.begunE = false) :
    m'.mayDefer = true → m'.hasE = false ∧ m'.begunE = false := by
  cases h with
  | allow he hb => exact fun _ => ⟨he, hb⟩
  | lockAtOnce hr hd' => exact fun h => absurd (h.symm.trans hd') (by decide)
  | begin => exact nofun
  | convert =>
    intro hm
    have hb : m.begunE = true := congrArg (fun b => b.2.1) (hbits .begun rfl)
    exact absurd (hb.symm.trans (hd hm).2) (by decide)
  | backOut => exact fun _ => ⟨rfl, rfl⟩
  | unlock | unlockToShared | unlockToUpgrade => exact fun h => ⟨rfl, (hd h).2⟩
  | _ => exact hd

lemma Act.calm (h : Act m r m' r') (hs : r.solo = none) (he : m.hasE = true)
    (hd : m.mayDefer = true → m.hasE = false ∧ m.begunE = false) :
    r'.share - marks m' ≤ r.share - marks m ∧ (r' = .reading → r = .reading) := by
  cases h with
  | enter he' | allow he' => exact absurd (he.symm.trans he') (by decide)
  | confirm hm => exact absurd (he.symm.trans (hd hm).1) (by decide)
  | claim hi => rw [marks_put hi]; simp [Role.share, Role.unit, Role.moved]
  | free hi | undo hi | undoOther hi =>
    rw [marks_clear hi]; simp [Role.share, Role.unit, Role.moved]
  | leave | leaveUndone => simp [Role.share, Role.unit, Role.moved, marks]
  | miss => simp [Role.share, Role.unit, Role.moved]
  | takeUpgrade hn => exact absurd (he.symm.trans (congrArg (fun b => b.1) hn)) (by decide)
  | lockAtOnce hr | begin e hr =>
    rcases hr with ⟨_, hn⟩ | rfl
    · exact absurd (he.symm.trans (congrArg (fun b => b.1) hn)) (by decide)
    · cases hs
  | _ => cases hs

lemma Act.new_mark (h : Act m r m' r')
    (hi : m'.slots i = .this token) : m.slots i = .this token ∨ r' = .claimed i token := by
  have clear : ∀ j, update m.slots j .zero i = .this token → m.slots i = .this token := by
    intro j hj
    by_cases hij : i = j
    · rw [hij, update_self] at hj
      cases hj
    · rwa [update_of_ne hij] at hj
  cases h with
  | @claim j token' hj =>
    by_cases hij : i = j
    · subst hij
      simp only [update_self, Slot.this.injEq] at hi
      rw [hi]
      exact .inr rfl
    · simp only [update_of_ne hij] at hi
      exact .inl hi
  | free | undo | undoOther | move => exact .inl (clear _ hi)
  | _ => exact .inl hi

lemma Act.claimed_kept (h : Act m (.claimed i token) m' r')
    (hi : m'.slots i = .this token) : r' = .claimed i token ∨ m'.mayDefer = true := by
  cases h with
  | confirm hd => exact .inr hd
  | undo => simp only [update_self, reduceCtorEq] at hi
  | miss hne => exact absurd hi hne
  | lockAtOnce hr | begin e hr => rcases hr with ⟨hr, _⟩ | hr <;> cases hr

lemma Act.defer_kept (h : Act m r m' r') (hd : m.mayDefer = true) :
    m'.mayDefer = true ∨ ∀ i, r'.Ahead i := by
  cases h with
  | allow => exact .inl rfl
  | lockAtOnce _ hd' => exact absurd (hd.symm.trans hd') (by decide)
  | begin =>
    rw [if_pos hd]
    exact .inr fun i => Nat.zero_le _
  | _ => exact .inl hd

lemma Act.ahead_kept (h : Act m r m' r') (ha : r.Ahead i) (hi : m'.slots i = .this token) :
    r'.Ahead i ∨ ∃ e low k token', r = .moving e low i k token' ∧ token' ≠ token := by
  cases h with
  | @pass e low j k hj =>
    refine .inl (Nat.lt_of_le_of_ne ha ?_)
    intro hji
    rw [Fin.ext hji, hi] at hj
    cases hj
  | aim => exact .inl ha
  | @move e low j k token' hj =>
    refine .inl (Nat.lt_of_le_of_ne ha ?_)
    intro hji
    simp only [Fin.ext hji, update_self, reduceCtorEq] at hi
  | @slip e low j k token' hj =>
    by_cases hji : j = i
    · subst hji
      refine .inr ⟨e, low, k, token', rfl, ?_⟩
      rintro rfl
      exact hj hi
    · exact .inl (Nat.lt_of_le_of_ne ha fun h => hji (Fin.ext h))
  | scanned | add => exact absurd i.isLt (Nat.not_lt_of_le ha)
  | lockAtOnce hr | begin e hr => rcases hr with ⟨rfl, _⟩ | rfl <;> cases ha
  | _ => cases ha

lemma Act.within (h : Act m r m' r') (hw : r.Within) : r'.Within := by
  cases h with
  | begin => split <;> simp [Role.Within]
  | @pass e low i k => exact ⟨Nat.le_succ_of_le hw.1, i.isLt⟩
  | aim => exact hw.1
  | @move e low i k token => exact ⟨Nat.succ_le_succ hw, i.isLt⟩
  | @slip e low i k token => exact ⟨Nat.le_succ_of_le hw, i.isLt⟩
  | _ => trivial

lemma Act.aimed (h : Act m r m' r') {e low : Bool} {k : Nat}
    (hr : r' = .moving e low i k token) : m'.slots i = .this token := by
  cases h with
  | aim hi =>
    cases hr
    exact hi
  | begin => split at hr <;> cases hr
  | _ => cases hr

lemma Act.isLow (h : Act m r m' r') (hl : r'.isLow = true) :
    (r.isLow = true ∧ r'.share - marks m' = r.share - marks m) ∨
      (m'.count = 0 ∧ r'.moved = 0 ∧ r'.unit = r.unit ∧
        (r.solo ≠ none ∨ m.solo = Solo.bits none)) := by
  cases h with
  | begin e hr =>
    have hcount : m.count = 0 := by
      split at hl <;> simp [Role.isLow] at hl <;> exact hl.2
    refine .inr ⟨hcount, ?_, ?_, ?_⟩
    · split <;> rfl
    · rcases hr with ⟨rfl, _⟩ | rfl <;> split <;> rfl
    · rcases hr with ⟨rfl, hs⟩ | rfl
      · exact .inr hs
      · exact .inl nofun
  | pass | aim | slip | scanned => exact .inl ⟨hl, rfl⟩
  | move hi =>
    refine .inl ⟨hl, ?_⟩
    rw [marks_clear hi]
    simp only [Role.share, Role.unit, Role.moved]
    omega
  | add | look =>
    simp only [Role.isLow, Bool.and_eq_true, decide_eq_true_eq] at hl
    exact .inr ⟨hl.2.2, rfl, rfl, .inl nofun⟩
  | _ => cases hl

lemma Act.exclusive (h : Act m r m' r') (hr : r' = .exclusive) :
    (r.solo ≠ none ∨ m.solo = Solo.bits none) ∧ r.moved = 0 ∧ (∀ i, ¬ r.Ahead i) ∧
      (m.mayDefer = false ∨ ∃ k, r.solo = some k ∧ k ≠ .upgrade) ∧
      (r.isLow = true ∨ m.count = 0) := by
  cases h with
  | lockAtOnce hb hd hc =>
    rcases hb with ⟨rfl, hs⟩ | rfl
    · exact ⟨.inr hs, rfl, fun _ => id, .inl hd, .inr hc⟩
    · exact ⟨.inl nofun, rfl, fun _ => id, .inl hd, .inr hc⟩
  | begin => split at hr <;> cases hr
  | acquire => exact ⟨.inl nofun, rfl, fun _ => id, .inr ⟨_, rfl, nofun⟩, .inl rfl⟩
  | convert hc => exact ⟨.inl nofun, rfl, fun _ => id, .inr ⟨_, rfl, nofun⟩, .inr hc⟩
  | _ => cases hr

end Single

section Invariant

variable {N n : Nat} {ι : Type*}

structure State (N n : Nat) (ι : Type*) where
  mem : Mem N n
  role : ι → Role n

def State.set [DecidableEq ι] (s : State N n ι) (c : ι) (m : Mem N n) (r : Role n) :
    State N n ι := ⟨m, Function.update s.role c r⟩

variable [Fintype ι] (s : State N n ι)

def units : ℤ := ∑ a, (s.role a).unit

def slack : ℤ := ∑ a, (s.role a).share - marks s.mem

structure Inv : Prop where
  unique : ∀ a b, (s.role a).solo ≠ none → (s.role b).solo ≠ none → a = b
  bits : ∀ a k, (s.role a).solo = some k → s.mem.solo = Solo.bits (some k)
  nobody : (∀ a, (s.role a).solo = none) → s.mem.solo = Solo.bits none
  defer : s.mem.mayDefer = true → s.mem.hasE = false ∧ s.mem.begunE = false
  balance : s.mem.count = (slack s : ZMod N)
  cover : ∀ i token, s.mem.slots i = .this token →
    s.mem.mayDefer = true ∨ (∃ a, (s.role a).Ahead i) ∨ ∃ a, s.role a = .claimed i token
  moving : ∀ a e low i k token token', s.role a = .moving e low i k token →
    s.mem.slots i = .this token' → token' = token ∨ ∃ b, s.role b = .claimed i token'
  low : ∀ a, (s.role a).isLow = true → slack s ≤ 0
  quiet : ∀ a, s.role a = .exclusive → ∀ b, s.role b ≠ .reading
  within : ∀ a, (s.role a).Within

end Invariant

section Preservation

variable {N n : Nat} {ι : Type*} [Fintype ι] {s : State N n ι}

lemma Role.solo_of_isLow {r : Role n} (h : r.isLow = true) : r.solo = some .exclusive := by
  cases r with
  | scanning e | moving e | draining e =>
    cases e
    · cases h
    · rfl
  | _ => cases h

variable {a b : ι}

lemma Inv.hasE (h : Inv s) (ha : (s.role a).solo = some .exclusive) :
    s.mem.hasE = true := congrArg (fun b => b.1) (h.bits a _ ha)

lemma Inv.not_defer (h : Inv s) {k : Solo} (ha : (s.role a).solo = some k)
    (hk : k ≠ .upgrade) : s.mem.mayDefer = false := by
  cases hd : s.mem.mayDefer with
  | false => rfl
  | true =>
    obtain ⟨he, hb⟩ := h.defer hd
    have hbits := h.bits a k ha
    cases k with
    | exclusive => exact absurd (he.symm.trans (congrArg (fun b => b.1) hbits)) (by decide)
    | begun => exact absurd (hb.symm.trans (congrArg (fun b => b.2.1) hbits)) (by decide)
    | upgrade => exact absurd rfl hk

lemma Inv.nobody_solo (h : Inv s) (hs : s.mem.solo = Solo.bits none) (a : ι) :
    (s.role a).solo = none := by
  cases ha : (s.role a).solo with
  | none => rfl
  | some k =>
    have := h.bits a k ha
    rw [hs] at this
    cases k <;> cases this

lemma Role.moved_of_solo {r : Role n} (h : r.solo = none) : r.moved = 0 := by
  cases r <;> first | rfl | cases h

lemma Role.unit_nonneg (r : Role n) : 0 ≤ r.unit := by
  cases r <;> simp [Role.unit]

lemma marks_nonneg (m : Mem N n) : 0 ≤ marks m := by
  refine sum_nonneg fun i _ => ?_
  split <;> decide

lemma marks_le (m : Mem N n) : marks m ≤ n := by
  have h := sum_le_card_nsmul univ
    (fun i => if (m.slots i).isThis then (1 : ℤ) else 0) 1 (by
      intro i _
      split <;> decide)
  simpa [marks] using h

lemma slack_eq_zero (hb : s.mem.count = (slack s : ZMod N)) (hn : n < N) (hu : units s < N)
    (hm : ∀ a, (s.role a).moved = 0) (hc : s.mem.count = 0) : slack s = 0 := by
  have hslack : slack s = units s - marks s.mem := by
    rw [slack, units]
    congr 1
    refine sum_congr rfl fun a _ => ?_
    rw [Role.share, hm a, sub_zero]
  have hunits : 0 ≤ units s := by
    exact sum_nonneg fun a _ => (s.role a).unit_nonneg
  have hlow := marks_nonneg s.mem
  have hhigh := marks_le s.mem
  have hdvd : (N : ℤ) ∣ slack s := by
    rw [← ZMod.intCast_zmod_eq_zero_iff_dvd, ← hb, hc]
  exact Int.eq_zero_of_abs_lt_dvd hdvd (by rw [abs_lt]; omega)

lemma marks_le_pending (h : ∀ i token, s.mem.slots i = .this token →
    ∃ a, s.role a = .claimed i token) : marks s.mem ≤ ∑ a, (s.role a).pending := by
  let at_ (a : ι) (i : Fin n) : ℤ := if ∃ token, s.role a = .claimed i token then 1 else 0
  have hnonneg : ∀ a i, 0 ≤ at_ a i := by
    intro a i
    simp only [at_]
    split <;> decide
  calc marks s.mem ≤ ∑ i, ∑ a, at_ a i := by
        refine sum_le_sum fun i _ => ?_
        cases hi : s.mem.slots i with
        | this token =>
          obtain ⟨a, ha⟩ := h i token hi
          have hone : at_ a i = 1 := if_pos ⟨token, ha⟩
          calc (1 : ℤ) = at_ a i := hone.symm
            _ ≤ ∑ a, at_ a i :=
              single_le_sum (fun b _ => hnonneg b i) (mem_univ a)
        | _ => exact sum_nonneg fun a _ => hnonneg a i
    _ = ∑ a, ∑ i, at_ a i := sum_comm
    _ ≤ ∑ a, (s.role a).pending := by
        refine sum_le_sum fun a _ => ?_
        cases ha : s.role a with
        | claimed i token =>
          have : ∀ j, at_ a j = if i = j then 1 else 0 := by
            simp only [at_, ha, Role.claimed.injEq]
            simp
          simp [this, Role.pending]
        | _ => simp [at_, ha, Role.pending]

lemma Inv.no_reader (h : Inv s) (hm : ∀ a, (s.role a).moved = 0)
    (ha : ∀ a i, ¬ (s.role a).Ahead i) (hd : s.mem.mayDefer = false) (hl : slack s ≤ 0) (b : ι) :
    s.role b ≠ .reading := by
  intro hb
  have hmarks : marks s.mem ≤ ∑ a, (s.role a).pending := by
    refine marks_le_pending fun i token hi => ?_
    rcases h.cover i token hi with hd' | ⟨a, hai⟩ | hc
    · exact absurd (hd'.symm.trans hd) (by decide)
    · exact absurd hai (ha a i)
    · exact hc
  have hsum : slack s = ∑ a, ((s.role a).unit - (s.role a).pending)
      + (∑ a, (s.role a).pending - marks s.mem) := by
    rw [slack, sum_sub_distrib]
    have : ∑ a, (s.role a).share = ∑ a, (s.role a).unit :=
      sum_congr rfl fun a _ => by rw [Role.share, hm a, sub_zero]
    rw [this]
    abel
  have hone : (1 : ℤ) ≤ ∑ a, ((s.role a).unit - (s.role a).pending) := by
    have hb1 : (s.role b).unit - (s.role b).pending = 1 := by rw [hb]; rfl
    rw [← hb1]
    refine single_le_sum (f := fun a => (s.role a).unit - (s.role a).pending)
      (fun a _ => ?_) (mem_univ b)
    cases s.role a <;> simp [Role.unit, Role.pending]
  omega

omit [Fintype ι] in
lemma Role.not_ahead {r : Role n} (h : r.solo = none) (i : Fin n) : ¬ r.Ahead i := by
  cases r <;> first | exact id | cases h

lemma Inv.others (h : Inv s) {c : ι} (hc : (s.role c).solo ≠ none ∨ s.mem.solo = Solo.bits none)
    (hb : b ≠ c) : (s.role b).solo = none := by
  rcases hc with hc | hc
  · by_contra hne
    exact hb (h.unique b c hne hc)
  · exact h.nobody_solo hc b

lemma Inv.other (h : Inv s) {i : Fin n} {v : Slot} (hi : (s.mem.slots i).isThis = false)
    (hv : v.isThis = false) :
    Inv { s with mem := { s.mem with slots := update s.mem.slots i v } } := by
  have hslots : ∀ j token, update s.mem.slots i v j = .this token →
      s.mem.slots j = .this token := by
    intro j token hj
    by_cases hji : j = i
    · rw [hji, update_self] at hj
      rw [hj] at hv
      cases hv
    · rwa [update_of_ne hji] at hj
  have hslack : slack { s with mem := { s.mem with slots := update s.mem.slots i v } }
      = slack s := by
    rw [slack, slack, marks_update, hi, hv]
    simp
  refine ⟨h.unique, h.bits, h.nobody, h.defer, ?_, fun j token hj => ?_,
    fun a e low j k token token' ha hj => ?_, fun a ha => ?_, h.quiet, h.within⟩
  · rw [hslack]
    exact h.balance
  · exact h.cover j token (hslots j token hj)
  · exact h.moving a e low j k token token' ha (hslots j token' hj)
  · rw [hslack]
    exact h.low a ha

lemma Inv.start (s : State N n ι) (hrole : ∀ a, s.role a = .out) (hc : s.mem.count = 0)
    (hs : s.mem.solo = Solo.bits none) (hm : ∀ i, s.mem.slots i = .zero) : Inv s := by
  have hslack : slack s = 0 := by simp [slack, marks, hrole, hm, Role.share, Role.unit, Role.moved,
    Slot.isThis]
  refine ⟨fun a b ha => ?_, fun a k ha => ?_, fun _ => hs, fun _ => ?_, ?_, fun i token hi => ?_,
    fun a e low i k token token' ha => ?_, fun a ha => ?_, fun a ha => ?_, fun a => ?_⟩
  · rw [hrole] at ha
    exact absurd rfl ha
  · rw [hrole] at ha
    cases ha
  · exact ⟨congrArg (fun b => b.1) hs, congrArg (fun b => b.2.1) hs⟩
  · rw [hc, hslack, Int.cast_zero]
  · rw [hm] at hi
    cases hi
  · rw [hrole] at ha
    cases ha
  · rw [hrole] at ha
    cases ha
  · rw [hrole] at ha
    cases ha
  · rw [hrole]
    trivial

variable [DecidableEq ι] {c : ι} {m : Mem N n} {r : Role n}

omit [Fintype ι] in
@[simp] lemma State.set_self (s : State N n ι) : (s.set c m r).role c = r :=
  update_self ..

omit [Fintype ι] in
lemma State.set_of_ne (s : State N n ι) (hb : b ≠ c) : (s.set c m r).role b = s.role b :=
  update_of_ne hb ..

lemma slack_set (s : State N n ι) :
    slack (s.set c m r) = slack s + (r.share - (s.role c).share - (marks m - marks s.mem)) := by
  rw [slack, slack]
  have := sum_update Role.share s.role c r
  simp only [State.set] at this ⊢
  rw [this]
  abel

lemma units_set (s : State N n ι) : units (s.set c m r) = units s + (r.unit - (s.role c).unit) :=
  sum_update Role.unit s.role c r

lemma Inv.calm (h : Inv s) (ha : (s.role a).solo = some .exclusive) (hac : a ≠ c)
    (act : Act s.mem (s.role c) m r) :
    slack (s.set c m r) ≤ slack s ∧ (r = .reading → s.role c = .reading) := by
  have hc : (s.role c).solo = none := by
    by_contra hne
    exact hac (h.unique a c (by rw [ha]; exact nofun) hne)
  obtain ⟨hshare, hreading⟩ := act.calm hc (h.hasE ha) h.defer
  refine ⟨?_, hreading⟩
  rw [slack_set]
  omega

omit [Fintype ι] in
lemma Act.claimed_set (act : Act s.mem (s.role c) m r) {i : Fin n} {token : Bool} (hi : m.slots i = .this token)
    (hd : m.mayDefer = false) (hc : ∃ a, s.role a = .claimed i token) :
    ∃ a, (s.set c m r).role a = .claimed i token := by
  obtain ⟨a, ha⟩ := hc
  by_cases hac : a = c
  · subst hac
    rw [ha] at act
    rcases act.claimed_kept hi with hr | hd'
    · exact ⟨a, by rw [State.set_self, hr]⟩
    · exact absurd (hd'.symm.trans hd) (by decide)
  · exact ⟨a, by rw [State.set_of_ne s hac, ha]⟩

section Parts

variable (h : Inv s) (act : Act s.mem (s.role c) m r)

include h act

lemma Inv.act_solo :
    (∀ a b, ((s.set c m r).role a).solo ≠ none → ((s.set c m r).role b).solo ≠ none → a = b) ∧
    (∀ a k, ((s.set c m r).role a).solo = some k → m.solo = Solo.bits (some k)) ∧
    ((∀ a, ((s.set c m r).role a).solo = none) → m.solo = Solo.bits none) := by
  rcases act.solo (h.bits c) with ⟨hr, hm⟩ | ⟨hc, hm⟩
  · have same : ∀ a, ((s.set c m r).role a).solo = (s.role a).solo := by
      intro a
      by_cases ha : a = c
      · rw [ha, State.set_self, hr]
      · rw [State.set_of_ne s ha]
    simp only [same, hm]
    exact ⟨h.unique, h.bits, h.nobody⟩
  have hothers : ∀ a, a ≠ c → ((s.set c m r).role a).solo = none := by
    intro a ha
    rw [State.set_of_ne s ha]
    exact h.others hc ha
  refine ⟨fun a b ha hb => ?_, fun a k ha => ?_, fun hn => ?_⟩
  · have hac : a = c := by_contra fun hne => ha (hothers a hne)
    have hbc : b = c := by_contra fun hne => hb (hothers b hne)
    rw [hac, hbc]
  · by_cases hac : a = c
    · rw [hac, State.set_self] at ha
      rw [hm, ha]
    · rw [hothers a hac] at ha
      cases ha
  · have := hn c
    rw [State.set_self] at this
    rw [hm, this]

lemma Inv.act_balance : m.count = (slack (s.set c m r) : ZMod N) := by
  have hb := act.balance
  rw [h.balance] at hb
  simp [slack_set, ← hb]

lemma Inv.act_cover (i : Fin n) (token : Bool) (hi : m.slots i = .this token) :
    m.mayDefer = true ∨ (∃ a, ((s.set c m r).role a).Ahead i) ∨
      ∃ a, (s.set c m r).role a = .claimed i token := by
  cases hd' : m.mayDefer with
  | true => exact .inl rfl
  | false =>
    refine .inr ?_
    rcases act.new_mark hi with hold | hnew
    · rcases h.cover i token hold with hd | ⟨a, ha⟩ | hc
      · rcases act.defer_kept hd with hd | ha
        · exact absurd (hd.symm.trans hd') (by decide)
        · exact .inl ⟨c, by rw [State.set_self]; exact ha i⟩
      · by_cases hac : a = c
        · subst hac
          rcases act.ahead_kept ha hi with ha | ⟨e, low, k, token', hr, hne⟩
          · exact .inl ⟨a, by rw [State.set_self]; exact ha⟩
          rcases h.moving a e low i k token' token hr hold with heq | hc
          · exact absurd heq.symm hne
          · exact .inr (act.claimed_set hi hd' hc)
        · exact .inl ⟨a, by rw [State.set_of_ne s hac]; exact ha⟩
      · exact .inr (act.claimed_set hi hd' hc)
    · exact .inr ⟨c, by rw [State.set_self, hnew]⟩

lemma Inv.act_moving {a : ι} {e low : Bool} {i : Fin n} {k : Nat} {token token' : Bool}
    (ha : (s.set c m r).role a = .moving e low i k token) (hi : m.slots i = .this token') :
    token' = token ∨ ∃ b, (s.set c m r).role b = .claimed i token' := by
  have hd : m.mayDefer = false := by
    cases hm : m.mayDefer with
    | false => rfl
    | true =>
      obtain ⟨he, hb⟩ := act.defer (h.bits c) h.defer hm
      have hbits := (h.act_solo act).2.1 a _ (by rw [ha, Role.solo])
      cases e
      · exact absurd (hb.symm.trans (congrArg (fun b => b.2.1) hbits)) (by decide)
      · exact absurd (he.symm.trans (congrArg (fun b => b.1) hbits)) (by decide)
  by_cases hac : a = c
  · -- the mark has just been seen
    rw [hac, State.set_self] at ha
    have := act.aimed ha
    rw [hi, Slot.this.injEq] at this
    exact .inl this
  rw [State.set_of_ne s hac] at ha
  rcases act.new_mark hi with hold | hnew
  · rcases h.moving a e low i k token token' ha hold with heq | hc
    · exact .inl heq
    · exact .inr (act.claimed_set hi hd hc)
  · exact .inr ⟨c, by rw [State.set_self, hnew]⟩

lemma Inv.act_low (hn : n < N) (hu : units s < N) {a : ι}
    (ha : ((s.set c m r).role a).isLow = true) : slack (s.set c m r) ≤ 0 := by
  by_cases hac : a = c
  · rw [hac, State.set_self] at ha
    rcases act.isLow ha with ⟨hl, hsame⟩ | ⟨hcount, hmoved, hunit, hc⟩
    · have := h.low c hl
      rw [slack_set]
      omega
    refine le_of_eq (slack_eq_zero (h.act_balance act) hn ?_ (fun b => ?_) hcount)
    · rw [units_set, hunit, sub_self, add_zero]
      exact hu
    by_cases hb : b = c
    · rw [hb, State.set_self, hmoved]
    · rw [State.set_of_ne s hb]
      exact Role.moved_of_solo (h.others hc hb)
  rw [State.set_of_ne s hac] at ha
  have := (h.calm (Role.solo_of_isLow ha) hac act).1
  have := h.low a ha
  omega

lemma Inv.act_quiet (hn : n < N) (hu : units s < N) {a : ι}
    (ha : (s.set c m r).role a = .exclusive) (b : ι) : (s.set c m r).role b ≠ .reading := by
  by_cases hac : a = c
  · rw [hac, State.set_self] at ha
    by_cases hb : b = c
    · rw [hb, State.set_self, ha]
      exact nofun
    obtain ⟨hc, hmoved, hahead, hdefer, hzero⟩ := act.exclusive ha
    have hm : ∀ d, (s.role d).moved = 0 := by
      intro d
      by_cases hd : d = c
      · rw [hd, hmoved]
      · exact Role.moved_of_solo (h.others hc hd)
    rw [State.set_of_ne s hb]
    refine h.no_reader hm (fun d i => ?_) ?_ ?_ b
    · by_cases hd : d = c
      · rw [hd]
        exact hahead i
      · exact Role.not_ahead (h.others hc hd) i
    · rcases hdefer with hd | ⟨k, hk, hne⟩
      · exact hd
      · exact h.not_defer hk hne
    · rcases hzero with hl | hcount
      · exact h.low c hl
      · exact le_of_eq (slack_eq_zero h.balance hn hu hm hcount)
  rw [State.set_of_ne s hac] at ha
  by_cases hb : b = c
  · rw [hb, State.set_self]
    intro hr
    have hc := (h.calm (by rw [ha, Role.solo]) hac act).2 hr
    exact h.quiet a ha c hc
  · rw [State.set_of_ne s hb]
    exact h.quiet a ha b

lemma Inv.step (hn : n < N) (hu : units s < N) : Inv (s.set c m r) where
  unique := (h.act_solo act).1
  bits := (h.act_solo act).2.1
  nobody := (h.act_solo act).2.2
  defer := act.defer (h.bits c) h.defer
  balance := h.act_balance act
  cover := h.act_cover act
  moving := fun _ _ _ _ _ _ _ ha hi => h.act_moving act ha hi
  low := fun _ ha => h.act_low act hn hu ha
  quiet := fun _ ha => h.act_quiet act hn hu ha
  within := by
    intro a
    by_cases hac : a = c
    · rw [hac, State.set_self]
      exact act.within (h.within c)
    · rw [State.set_of_ne s hac]
      exact h.within a

end Parts

lemma Inv.steps (hn : n < N) {m₀ : Mem N n} {r₀ : Role n} (acts : Acts m₀ r₀ m r) :
    ∀ {s : State N n ι}, s.mem = m₀ → s.role c = r₀ → Inv s → units s < N → Inv (s.set c m r) := by
  induction acts with
  | refl =>
    rintro s rfl rfl h _
    have hset : s.set c s.mem (s.role c) = s := by
      rw [State.set, update_eq_self]
    rw [hset]
    exact h
  | last act =>
    rintro s rfl rfl h hu
    exact h.step act hn hu
  | @cons m₀ m₁ m' r₀ r₁ r' act hunit _ ih =>
    rintro s rfl rfl h hu
    have hset : (s.set c m₁ r₁).set c m' r' = s.set c m' r' := by
      simp [State.set]
    rw [← hset]
    refine ih rfl (State.set_self s) (h.step act hn hu) ?_
    rw [units_set, hunit, sub_self, add_zero]
    exact hu

end Preservation

end Acc.DeferredReaders
