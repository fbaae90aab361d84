import Accelerator.Interleaving

namespace Acc.Thread.RWSpinLock

open BitVec Option

open Interleaving (Few Reaches Runs Acts Settled tally plus)

abbrev Bits := BitVec 32

def READER : Bits := 4
def UPGRADED : Bits := 2
def WRITER : Bits := 1

inductive Pc
  | idle
  | lock
  | lockShared
  | lockUpgrade
  | retreat (again : Bool)
  | reader
  | upgrader
  | promote
  | writer
  | toShared
  | toUpgrade
  deriving DecidableEq, Repr

inductive Op
  | lock
  | tryLock
  | unlock
  | lockShared
  | tryLockShared
  | unlockShared
  | unlockAndLockShared
  | lockUpgrade
  | tryLockUpgrade
  | unlockUpgrade
  | unlockUpgradeAndLock
  | tryUnlockUpgradeAndLock
  | unlockUpgradeAndLockShared
  | unlockAndLockUpgrade
  deriving DecidableEq, Repr

section Operations

variable (bits : Bits)

def tryLock (fail : Pc) : Bits × Pc := if bits = 0 then (WRITER, .writer) else (bits, fail)

def unlock : Bits := bits &&& ~~~ (WRITER ||| UPGRADED)

def tryLockShared (again : Bool) : Bits × Pc :=
  (bits + READER, if bits &&& (WRITER ||| UPGRADED) ≠ 0 then .retreat again else .reader)

def tryLockUpgrade (fail : Pc) : Bits × Pc :=
  (bits ||| UPGRADED, if bits &&& (UPGRADED ||| WRITER) = 0 then .upgrader else fail)

def tryUnlockUpgradeAndLock (fail : Pc) : Bits × Pc :=
  if bits = UPGRADED then (WRITER, .writer) else (bits, fail)

def step (op : Op) : Pc → Option (Bits × Pc)
  | .idle =>
    match op with
    | .lock => some (tryLock bits .lock)
    | .tryLock => some (tryLock bits .idle)
    | .lockShared => some (tryLockShared bits true)
    | .tryLockShared => some (tryLockShared bits false)
    | .lockUpgrade => some (tryLockUpgrade bits .lockUpgrade)
    | .tryLockUpgrade => some (tryLockUpgrade bits .idle)
    | _ => none
  | .lock => some (tryLock bits .lock)
  | .lockShared => some (tryLockShared bits true)
  | .lockUpgrade => some (tryLockUpgrade bits .lockUpgrade)
  | .retreat again => some (bits - READER, if again then .lockShared else .idle)
  | .reader =>
    match op with
    | .unlockShared => some (bits - READER, .idle)
    | _ => none
  | .upgrader =>
    match op with
    | .unlockUpgrade => some (bits - UPGRADED, .idle)
    | .unlockUpgradeAndLock => some (tryUnlockUpgradeAndLock bits .promote)
    | .tryUnlockUpgradeAndLock => some (tryUnlockUpgradeAndLock bits .upgrader)
    | .unlockUpgradeAndLockShared => some (bits + (READER - UPGRADED), .reader)
    | _ => none
  | .promote => some (tryUnlockUpgradeAndLock bits .promote)
  | .writer =>
    match op with
    | .unlock => some (unlock bits, .idle)
    | .unlockAndLockShared => some (bits + READER, .toShared)
    | .unlockAndLockUpgrade => some (bits ||| UPGRADED, .toUpgrade)
    | _ => none
  | .toShared => some (unlock bits, .reader)
  | .toUpgrade => some (bits - WRITER, .upgrader)

end Operations

def Moves (bits : Bits) (p : Pc) (bits' : Bits) (p' : Pc) : Prop :=
  ∃ op, step bits op p = some (bits', p')

abbrev State (ι : Type*) := Interleaving.State Bits Pc ι

def start (ι : Type*) : State ι := .all ι 0 .idle

def Outside (_ _ : Bits) : Prop := False

inductive Kind
  | reader
  | upgrader
  | writer
  | counted
  | retreat
  | writing
  | toShared
  | toUpgrade
  deriving DecidableEq

@[simp]
def Pc.is : Kind → Pc → Bool
  | .reader, .reader => true
  | .upgrader, .upgrader => true
  | .upgrader, .promote => true
  | .writer, .writer => true
  | .writer, .toShared => true
  | .writer, .toUpgrade => true
  | .counted, .reader => true
  | .counted, .toShared => true
  | .counted, .retreat _ => true
  | .retreat, .retreat _ => true
  | .writing, .writer => true
  | .toShared, .toShared => true
  | .toUpgrade, .toUpgrade => true
  | _, _ => false

noncomputable def number {ι : Type*} (s : State ι) : Kind → Nat := tally Pc.is s

structure Accounts {ι : Type*} (s : State ι) : Prop where
  writer_alone : ∀ a b, a ≠ b → (s.pc a).is .writer →
    ¬ (s.pc b).is .writer ∧ ¬ (s.pc b).is .upgrader ∧ ¬ (s.pc b).is .reader
  one_upgrader : ∀ a b, a ≠ b → (s.pc a).is .upgrader → ¬ (s.pc b).is .upgrader
  bits : ∃ upgraded writers : Nat,
    s.mem.toInt = 4 * number s .counted + 2 * upgraded + writers ∧
      upgraded ≤ 1 ∧ writers ≤ 1 ∧ (writers = 1 ↔ ∃ c, (s.pc c).is .writer) ∧
      ((∃ c, (s.pc c).is .upgrader) → upgraded = 1) ∧
      (upgraded = 1 → ∃ c, (s.pc c).is .writer ∨ (s.pc c).is .upgrader)

section Word

variable {bits : Bits} {n k : Nat}

def Packs (bits : Bits) (n k : Nat) : Prop := bits.toNat = 4 * n + k ∧ k < 4 ∧ n < 2 ^ 29

lemma Packs.toInt (h : Packs bits n k) : bits.toInt = 4 * n + k := by
  obtain ⟨hbits, hk, hn⟩ := h
  have hlt : 2 * bits.toNat < 2 ^ 32 := by omega
  rw [toInt_eq_toNat_of_lt hlt, hbits]
  rfl

lemma packs_zero : Packs 0 0 0 := ⟨rfl, by decide, by decide⟩

lemma packs_writer : Packs WRITER 0 1 := ⟨rfl, by decide, by decide⟩

lemma Packs.eq_zero (h : Packs bits n k) (hz : bits = 0) : n = 0 ∧ k = 0 := by
  have := h.1
  rw [hz] at this
  change 0 = 4 * n + k at this
  omega

lemma Packs.eq_upgraded (h : Packs bits n k) (hz : bits = UPGRADED) : n = 0 ∧ k = 2 := by
  have hbits := h.1
  rw [hz] at hbits
  change 2 = 4 * n + k at hbits
  omega

lemma Packs.add_reader (h : Packs bits n k) (hn : n + 1 < 2 ^ 29) :
    Packs (bits + READER) (n + 1) k := by
  obtain ⟨hbits, hk, _⟩ := h
  refine ⟨?_, hk, hn⟩
  rw [toNat_add, hbits, show READER.toNat = 4 from rfl]
  omega

lemma Packs.sub {x n' k' : Nat} (hx : x ≤ 4) (h : Packs bits n k)
    (heq : 4 * n + k = 4 * n' + k' + x) (hk' : k' < 4) :
    Packs (bits - BitVec.ofNat 32 x) n' k' := by
  obtain ⟨hbits, hk, hn⟩ := h
  refine ⟨?_, hk', by omega⟩
  rw [toNat_sub, hbits, toNat_ofNat]
  omega

lemma Packs.sub_reader (h : Packs bits (n + 1) k) : Packs (bits - READER) n k :=
  h.sub (x := 4) (by decide) (by omega) h.2.1

lemma Packs.sub_upgraded (h : Packs bits n (k + 2)) : Packs (bits - UPGRADED) n k :=
  h.sub (x := 2) (by decide) (by omega) (by have := h.2.1; omega)

lemma Packs.sub_writer (h : Packs bits n (k + 1)) : Packs (bits - WRITER) n k :=
  h.sub (x := 1) (by decide) (by omega) (by have := h.2.1; omega)

lemma Packs.div_mod (h : Packs bits n k) : bits.toNat / 2 ^ 2 = n ∧ bits.toNat % 2 ^ 2 = k := by
  obtain ⟨hbits, hk, _⟩ := h
  omega

lemma Packs.of_div_mod (hdiv : bits.toNat / 2 ^ 2 = n) (hmod : bits.toNat % 2 ^ 2 = k)
    (hn : n < 2 ^ 29) : Packs bits n k := ⟨by omega, by omega, hn⟩

lemma Packs.or_upgraded (h : Packs bits n k) : Packs (bits ||| UPGRADED) n (k ||| 2) := by
  obtain ⟨hdiv, hmod⟩ := h.div_mod
  have hor : (bits ||| UPGRADED).toNat = bits.toNat ||| 2 := toNat_or ..
  refine .of_div_mod ?_ ?_ h.2.2
  · rw [hor, Nat.or_div_two_pow, hdiv]
    exact Nat.or_zero n
  · rw [hor, Nat.or_mod_two_pow, hmod]

lemma Packs.unlock (h : Packs bits n k) : Packs (unlock bits) n 0 := by
  obtain ⟨hdiv, hmod⟩ := h.div_mod
  have hand : (RWSpinLock.unlock bits).toNat = bits.toNat &&& (2 ^ 32 - 4) := toNat_and ..
  refine .of_div_mod ?_ ?_ h.2.2
  · rw [hand, Nat.and_div_two_pow, hdiv, show (2 ^ 32 - 4) / 2 ^ 2 = 2 ^ 30 - 1 from rfl,
      Nat.and_two_pow_sub_one_eq_mod]
    omega
  · rw [hand, Nat.and_mod_two_pow, show (2 ^ 32 - 4) % 2 ^ 2 = 0 from rfl, Nat.and_zero]

lemma Packs.free (h : Packs bits n k) : bits &&& (WRITER ||| UPGRADED) = 0 ↔ k = 0 := by
  have hand : (bits &&& (WRITER ||| UPGRADED)).toNat = bits.toNat &&& (2 ^ 2 - 1) :=
    toNat_and ..
  rw [Nat.and_two_pow_sub_one_eq_mod, h.div_mod.2] at hand
  rw [← hand, ← toNat_inj]
  rfl

end Word

def Tally (bits : Bits) (r t x y z g : Nat) : Prop :=
  ∃ u, Packs bits (r + t + y) (2 * u + (x + y + z)) ∧ u ≤ 1 ∧ x + y + z + g ≤ 1 ∧ z + g ≤ u ∧
    u ≤ x + y + z + g ∧ (0 < x + y + z → r = 0)

namespace Tally

variable {bits : Bits} {r t x y z g : Nat}

lemma zero : Tally 0 0 0 0 0 0 0 := ⟨0, packs_zero, by decide⟩

lemma lock (h : Tally bits r t x y z g) (hbits : bits = 0) : Tally WRITER r t (x + 1) y z g := by
  obtain ⟨u, hp, hu, hone, hz, hleft, hr⟩ := h
  obtain ⟨hn, hk⟩ := hp.eq_zero hbits
  have : r = 0 ∧ t = 0 ∧ x = 0 ∧ y = 0 ∧ z = 0 ∧ g = 0 := by omega
  obtain ⟨rfl, rfl, rfl, rfl, rfl, rfl⟩ := this
  exact ⟨0, packs_writer, by decide⟩

lemma promote (h : Tally bits r t x y z (g + 1)) (hbits : bits = UPGRADED) :
    Tally WRITER r t (x + 1) y z g := by
  obtain ⟨u, hp, hu, hone, hz, hleft, hr⟩ := h
  obtain ⟨hn, hk⟩ := hp.eq_upgraded hbits
  have : r = 0 ∧ t = 0 ∧ x = 0 ∧ y = 0 ∧ z = 0 ∧ g = 0 := by omega
  obtain ⟨rfl, rfl, rfl, rfl, rfl, rfl⟩ := this
  exact ⟨0, packs_writer, by decide⟩

lemma enter (h : Tally bits r t x y z g) (hn : r + 1 + t + y < 2 ^ 29)
    (hfree : bits &&& (WRITER ||| UPGRADED) = 0) : Tally (bits + READER) (r + 1) t x y z g := by
  obtain ⟨u, hp, hu, hone, hz, hleft, hr⟩ := h
  have hk := hp.free.mp hfree
  have hadd := hp.add_reader (by omega)
  rw [show r + t + y + 1 = r + 1 + t + y by omega] at hadd
  exact ⟨u, hadd, hu, hone, hz, hleft, by omega⟩

lemma intrude (h : Tally bits r t x y z g) (hn : r + (t + 1) + y < 2 ^ 29) :
    Tally (bits + READER) r (t + 1) x y z g := by
  obtain ⟨u, hp, hrest⟩ := h
  have hadd := hp.add_reader (by omega)
  rw [show r + t + y + 1 = r + (t + 1) + y by omega] at hadd
  exact ⟨u, hadd, hrest⟩

lemma retreat (h : Tally bits r (t + 1) x y z g) : Tally (bits - READER) r t x y z g := by
  obtain ⟨u, hp, hrest⟩ := h
  rw [show r + (t + 1) + y = r + t + y + 1 by omega] at hp
  exact ⟨u, hp.sub_reader, hrest⟩

lemma leave (h : Tally bits (r + 1) t x y z g) : Tally (bits - READER) r t x y z g := by
  obtain ⟨u, hp, hu, hone, hz, hleft, hr⟩ := h
  rw [show r + 1 + t + y = r + t + y + 1 by omega] at hp
  exact ⟨u, hp.sub_reader, hu, hone, hz, hleft, by omega⟩

lemma two_or {u w : Nat} (hu : u ≤ 1) (hw : w ≤ 1) : 2 * u + w ||| 2 = 2 * 1 + w := by
  have : (u = 0 ∨ u = 1) ∧ (w = 0 ∨ w = 1) := by omega
  rcases this with ⟨rfl | rfl, rfl | rfl⟩ <;> rfl

lemma takeUpgrade (h : Tally bits r t x y z g) (hfree : bits &&& (WRITER ||| UPGRADED) = 0) :
    Tally (bits ||| UPGRADED) r t x y z (g + 1) := by
  obtain ⟨u, hp, hu, hone, hz, hleft, hr⟩ := h
  have hk := hp.free.mp hfree
  have hor := hp.or_upgraded
  rw [two_or hu (by omega)] at hor
  exact ⟨1, hor, by omega⟩

lemma missUpgrade (h : Tally bits r t x y z g) (hbusy : ¬ bits &&& (WRITER ||| UPGRADED) = 0) :
    Tally (bits ||| UPGRADED) r t x y z g := by
  obtain ⟨u, hp, hu, hone, hz, hleft, hr⟩ := h
  rw [hp.free] at hbusy
  have hor := hp.or_upgraded
  rw [two_or hu (by omega)] at hor
  exact ⟨1, hor, by omega⟩

lemma dropUpgrade (h : Tally bits r t x y z (g + 1)) : Tally (bits - UPGRADED) r t x y z g := by
  obtain ⟨u, hp, hu, hone, hz, hleft, hr⟩ := h
  rw [show 2 * u + (x + y + z) = 2 * 0 + (x + y + z) + 2 by omega] at hp
  exact ⟨0, hp.sub_upgraded, by omega⟩

lemma upgradeToShared (h : Tally bits r t x y z (g + 1)) (hn : r + 1 + t + y < 2 ^ 29) :
    Tally (bits + (READER - UPGRADED)) (r + 1) t x y z g := by
  have hsub : bits + (READER - UPGRADED) = bits - UPGRADED + READER := by
    simp [BitVec.sub_eq_add_neg, BitVec.add_assoc, BitVec.add_comm READER]
  obtain ⟨u, hp, hu, hone, hz, hleft, hr⟩ := h
  rw [show 2 * u + (x + y + z) = 2 * 0 + (x + y + z) + 2 by omega] at hp
  have hadd := hp.sub_upgraded.add_reader (by omega)
  rw [show r + t + y + 1 = r + 1 + t + y by omega] at hadd
  rw [hsub]
  exact ⟨0, hadd, by omega⟩

lemma unlock (h : Tally bits r t (x + 1) y z g) : Tally (RWSpinLock.unlock bits) r t x y z g := by
  obtain ⟨u, hp, hu, hone, hz, hleft, hr⟩ := h
  have hunlock := hp.unlock
  rw [show 0 = 2 * 0 + (x + y + z) by omega] at hunlock
  exact ⟨0, hunlock, by omega⟩

lemma announceShared (h : Tally bits r t (x + 1) y z g) (hn : r + t + (y + 1) < 2 ^ 29) :
    Tally (bits + READER) r t x (y + 1) z g := by
  obtain ⟨u, hp, hu, hone, hz, hleft, hr⟩ := h
  have hadd := hp.add_reader (by omega)
  rw [show x + 1 + y + z = x + (y + 1) + z by omega] at hadd
  exact ⟨u, hadd, by omega⟩

lemma unlockToShared (h : Tally bits r t x (y + 1) z g) :
    Tally (RWSpinLock.unlock bits) (r + 1) t x y z g := by
  obtain ⟨u, hp, hu, hone, hz, hleft, hr⟩ := h
  have hunlock := hp.unlock
  rw [show 0 = 2 * 0 + (x + y + z) by omega, show r + t + (y + 1) = r + 1 + t + y by omega]
    at hunlock
  exact ⟨0, hunlock, by omega⟩

lemma announceUpgrade (h : Tally bits r t (x + 1) y z g) :
    Tally (bits ||| UPGRADED) r t x y (z + 1) g := by
  obtain ⟨u, hp, hu, hone, hz, hleft, hr⟩ := h
  have hor := hp.or_upgraded
  rw [two_or hu (by omega), show x + 1 + y + z = x + y + (z + 1) by omega] at hor
  exact ⟨1, hor, by omega⟩

lemma unlockToUpgrade (h : Tally bits r t x y (z + 1) g) :
    Tally (bits - WRITER) r t x y z (g + 1) := by
  obtain ⟨u, hp, hu, hone, hz, hleft, hr⟩ := h
  rw [show 2 * u + (x + y + (z + 1)) = 2 * 1 + (x + y + z) + 1 by omega] at hp
  exact ⟨1, hp.sub_writer, by omega⟩

end Tally

abbrev more (n : Kind → Nat) (p : Pc) : Kind → Nat := plus Pc.is n p

def Balance (bits : Bits) (n : Kind → Nat) : Prop :=
  Tally bits (n .reader) (n .retreat) (n .writing) (n .toShared) (n .toUpgrade) (n .upgrader)

def Sums (n : Kind → Nat) : Prop :=
  n .counted = n .reader + n .retreat + n .toShared ∧
    n .writer = n .writing + n .toShared + n .toUpgrade

section Operations

variable {n : Kind → Nat} {bits bits' : Bits} {p p' : Pc}

lemma sums_more : Sums (more n p) ↔ Sums n := by
  cases p <;> simp only [Sums, more, plus, Pc.is, Bool.toNat_true, Bool.toNat_false] <;> omega

lemma more_idle : more n .idle = n := by
  funext k
  cases k <;> rfl

lemma more_lock : more n .lock = n := by
  funext k
  cases k <;> rfl

lemma more_lockUpgrade : more n .lockUpgrade = n := by
  funext k
  cases k <;> rfl

lemma more_promote : more n .promote = more n .upgrader := by
  funext k
  cases k <;> rfl

lemma tryLock_balance (h : Balance bits n) {fail : Pc} (hfail : more n fail = n)
    (hs : tryLock bits fail = (bits', p')) : Balance bits' (more n p') := by
  rw [tryLock] at hs
  split at hs
  · rename_i hbits
    cases hs
    exact h.lock hbits
  · cases hs
    rw [hfail]
    exact h

lemma tryLockShared_balance (h : Balance bits n) {again : Bool}
    (hs : tryLockShared bits again = (bits', p')) (hsums : Sums n)
    (hlt : more n p' .counted < 2 ^ 29) : Balance bits' (more n p') := by
  have hcounted : more n p' .counted = n .counted + 1 := by
    rw [tryLockShared] at hs
    split at hs <;> cases hs <;> rfl
  rw [hcounted, hsums.1] at hlt
  rw [tryLockShared] at hs
  split at hs
  · cases hs
    exact h.intrude (by omega)
  · rename_i hfree
    cases hs
    exact h.enter (by omega) (not_not.mp hfree)

lemma tryLockUpgrade_balance (h : Balance bits n) {fail : Pc} (hfail : more n fail = n)
    (hs : tryLockUpgrade bits fail = (bits', p')) : Balance bits' (more n p') := by
  rw [tryLockUpgrade, or_comm UPGRADED WRITER] at hs
  split at hs
  · rename_i hfree
    cases hs
    exact h.takeUpgrade hfree
  rename_i hbusy
  cases hs
  rw [hfail]
  exact h.missUpgrade hbusy

lemma tryUnlockUpgradeAndLock_balance (h : Balance bits (more n .upgrader)) {fail : Pc}
    (hfail : more n fail = more n .upgrader)
    (hs : tryUnlockUpgradeAndLock bits fail = (bits', p')) : Balance bits' (more n p') := by
  rw [tryUnlockUpgradeAndLock] at hs
  split at hs
  · rename_i hbits
    cases hs
    exact h.promote hbits
  · cases hs
    rw [hfail]
    exact h

lemma Moves.balance (hmove : Moves bits p bits' p') (h : Balance bits (more n p))
    (hsums : Sums n) (hlt : more n p' .counted < 2 ^ 29) : Balance bits' (more n p') := by
  obtain ⟨op, hs⟩ := hmove
  cases p with
  | idle =>
    cases op with
    | lock => exact tryLock_balance h more_lock (some.inj hs)
    | tryLock => exact tryLock_balance h more_idle (some.inj hs)
    | lockShared | tryLockShared => exact tryLockShared_balance h (some.inj hs) hsums hlt
    | lockUpgrade => exact tryLockUpgrade_balance h more_lockUpgrade (some.inj hs)
    | tryLockUpgrade => exact tryLockUpgrade_balance h more_idle (some.inj hs)
    | _ => cases hs
  | lock => exact tryLock_balance h more_lock (some.inj hs)
  | lockShared => exact tryLockShared_balance h (some.inj hs) hsums hlt
  | lockUpgrade => exact tryLockUpgrade_balance h more_lockUpgrade (some.inj hs)
  | retreat again =>
    cases again with
    | false | true =>
      cases hs
      exact h.retreat
  | reader =>
    cases op with
    | unlockShared =>
      cases hs
      exact h.leave
    | _ => cases hs
  | upgrader =>
    cases op with
    | unlockUpgrade =>
      cases hs
      exact h.dropUpgrade
    | unlockUpgradeAndLock =>
      exact tryUnlockUpgradeAndLock_balance h more_promote (some.inj hs)
    | tryUnlockUpgradeAndLock => exact tryUnlockUpgradeAndLock_balance h rfl (some.inj hs)
    | unlockUpgradeAndLockShared =>
      cases hs
      have hlt' : n .counted + 1 < 2 ^ 29 := hlt
      have hn : n .reader + 1 + n .retreat + n .toShared < 2 ^ 29 := by
        have := hsums.1
        omega
      exact h.upgradeToShared hn
    | _ => cases hs
  | promote => exact tryUnlockUpgradeAndLock_balance h more_promote (some.inj hs)
  | writer =>
    cases op with
    | unlock =>
      cases hs
      exact h.unlock
    | unlockAndLockShared =>
      cases hs
      have hlt' : n .counted + 1 < 2 ^ 29 := hlt
      have hn : n .reader + n .retreat + (n .toShared + 1) < 2 ^ 29 := by
        have := hsums.1
        omega
      exact h.announceShared hn
    | unlockAndLockUpgrade =>
      cases hs
      exact h.announceUpgrade
    | _ => cases hs
  | toShared =>
    cases hs
    exact h.unlockToShared
  | toUpgrade =>
    cases hs
    exact h.unlockToUpgrade

end Operations

section Runs

variable {ι : Type*} {s s' : State ι}

lemma is_idle (k : Kind) : Pc.is k .idle = false := by
  cases k <;> rfl

structure Inv (s : State ι) : Prop where
  settled : Settled .idle s
  sums : Sums (number s)
  balance : Balance s.mem (number s)

lemma Inv.start : Inv (start ι) := by
  have hzero : number (RWSpinLock.start ι) = fun _ => 0 := Interleaving.tally_all 0 is_idle
  refine ⟨.all 0, ?_, ?_⟩
  · rw [hzero]
    exact ⟨rfl, rfl⟩
  · rw [hzero]
    exact .zero

variable [DecidableEq ι]

lemma Inv.step (h : Inv s) (hstep : Interleaving.Step Moves Outside s s')
    (hfew : Few (fun p => p.is .counted = true) (2 ^ 29) s') : Inv s' := by
  cases hstep with
  | outside hout => cases hout
  | @client c bits p hmove =>
    obtain ⟨n, hbefore, hafter⟩ := h.settled.tally_client is_idle c
    have hsums := h.sums
    have hbalance := h.balance
    have hlt : number _ .counted < 2 ^ 29 := hfew.tally_lt
    rw [number, hbefore] at hsums hbalance
    rw [number, hafter] at hlt
    rw [sums_more] at hsums
    refine ⟨h.settled.client, ?_, ?_⟩
    · rw [number, hafter]
      exact sums_more.mpr hsums
    · rw [number, hafter]
      exact hmove.balance hbalance hsums hlt

lemma inv_of_reaches
    (h : Reaches Moves Outside (fun p => p.is .counted = true) (2 ^ 29) (start ι) s) : Inv s := by
  induction h with
  | refl => exact .start
  | tail _ hstep ih => exact ih.step hstep.1 hstep.2

end Runs

theorem accounts_of_reaches {ι : Type*} [DecidableEq ι] {s : State ι}
    (h : Reaches Moves Outside (fun p => p.is .counted = true) (2 ^ 29) (start ι) s) :
    Accounts s := by
  have hinv := inv_of_reaches h
  obtain ⟨hcounted, hwriter⟩ := hinv.sums
  obtain ⟨u, hp, hu, hone, hup, hleft, hquiet⟩ := hinv.balance
  rw [← hwriter] at hp hone hleft hquiet
  have hpos : ∀ {k c}, (s.pc c).is k = true → 0 < number s k := by
    intro k c hc
    exact hinv.settled.tally_pos (is_idle k) hc
  have hunique : ∀ {k}, number s k ≤ 1 → ∀ {a b}, (s.pc a).is k = true → (s.pc b).is k = true →
      a = b := by
    intro k hk a b ha hb
    exact hinv.settled.eq_of_tally_le_one (is_idle k) hk ha hb
  refine ⟨fun a b hab ha => ⟨fun hb => ?_, fun hb => ?_, fun hb => ?_⟩, fun a b hab ha hb => ?_, ?_⟩
  · exact hab (hunique (by omega) ha hb)
  · have := hpos ha
    have := hpos hb
    omega
  · have hr := hpos hb
    rw [hquiet (hpos ha)] at hr
    exact absurd hr (lt_irrefl 0)
  · exact hab (hunique (by omega) ha hb)
  · refine ⟨u, number s .writer, ?_, hu, by omega, ⟨fun hw => ?_, fun ⟨c, hc⟩ => ?_⟩,
      fun ⟨c, hc⟩ => ?_, fun hup => ?_⟩
    · rw [hp.toInt, hcounted]
      omega
    · have hw' : 0 < number s .writer := by omega
      exact Interleaving.exists_of_tally_pos hw'
    · have := hpos hc
      omega
    · have := hpos hc
      omega
    · rcases Nat.eq_zero_or_pos (number s .writer) with hw | hw
      · have hg : 0 < number s .upgrader := by omega
        obtain ⟨c, hc⟩ := Interleaving.exists_of_tally_pos hg
        exact ⟨c, .inr hc⟩
      · obtain ⟨c, hc⟩ := Interleaving.exists_of_tally_pos hw
        exact ⟨c, .inl hc⟩

theorem accounts_beside_writer : ∃ s : State (Fin 3),
    Reaches Moves Outside (fun p => p.is .counted = true) (2 ^ 29) (start (Fin 3)) s ∧ s.mem = 7 ∧
      s.pc 0 = .writer ∧ s.pc 1 = .retreat false ∧ s.pc 2 = .idle ∧ Accounts s := by
  have hwriter : Acts Moves 0 .idle WRITER .writer := .head ⟨.lock, rfl⟩ .refl
  have hreader : Acts Moves WRITER .idle 5 (.retreat false) := .head ⟨.tryLockShared, rfl⟩ .refl
  have hupgrade : Acts Moves 5 .idle 7 .idle := .head ⟨.tryLockUpgrade, rfl⟩ .refl
  have hruns : Runs Moves Outside (start (Fin 3)) _ :=
    ((hwriter.runs (s := start (Fin 3)) (c := 0) rfl rfl).trans
      (hreader.runs (c := 1) rfl rfl)).trans (hupgrade.runs (c := 2) rfl rfl)
  have hreaches := hruns.reaches (q := fun p => p.is .counted = true) (k := 2 ^ 29) (by decide)
  exact ⟨_, hreaches, rfl, rfl, rfl, rfl, accounts_of_reaches hreaches⟩

end Acc.Thread.RWSpinLock
