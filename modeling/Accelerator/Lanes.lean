/-
# `Accelerator.Lanes` — a word as a row of lanes
-/
import Mathlib

namespace Lanes

open BitVec

variable {v n : Nat}

def pack : (n : Nat) → (Fin n → BitVec v) → BitVec (v * n)
  | 0, _ => 0#0
  | n + 1, f => pack n (fun i => f i.succ) ++ f 0

def lane (x : BitVec (v * n)) (i : Nat) : BitVec v :=
  x.extractLsb' (v * i) v

variable {f g : Fin n → BitVec v}

lemma lane_pack (i : Fin n) : lane (pack n f) i = f i := by
  induction n with
  | zero => exact i.elim0
  | succ n ih =>
    cases i using Fin.cases with
    | zero => exact BitVec.extractLsb'_append_eq_right
    | succ i =>
      have hskip : lane (pack (n + 1) f) (i + 1) = lane (pack n fun j => f j.succ) i := by
        apply eq_of_getLsbD_eq
        intro j hj
        have hbit : ¬ v * (i + 1) + j < v := by
          rw [Nat.mul_succ]
          omega
        have hsub : v * (i + 1) + j - v = v * i + j := by
          rw [Nat.mul_succ]
          omega
        simp only [lane, pack, getLsbD_extractLsb', getLsbD_append, hj, hbit, hsub,
          if_false]
      exact hskip.trans (ih i)

lemma pack_and (f g : Fin n → BitVec v) :
    pack n f &&& pack n g = pack n fun i => f i &&& g i := by
  induction n with
  | zero => exact eq_of_zero_length (Nat.mul_zero v)
  | succ n ih => exact and_append.trans (congrArg (· ++ _) (ih _ _))

lemma pack_not (f : Fin n → BitVec v) : ~~~ pack n f = pack n fun i => ~~~ f i := by
  induction n with
  | zero => exact eq_of_zero_length (Nat.mul_zero v)
  | succ n ih => exact not_append.trans (congrArg (· ++ _) (ih _))

lemma append_add_append {w : Nat} (x₁ x₂ : BitVec w) {y₁ y₂ : BitVec v}
    (h : y₁.toNat + y₂.toNat < 2 ^ v) : (x₁ ++ y₁) + (x₂ ++ y₂) = (x₁ + x₂) ++ (y₁ + y₂) := by
  apply eq_of_toNat_eq
  have hlow : (y₁ + y₂).toNat = y₁.toNat + y₂.toNat := toNat_add_of_lt h
  have hsum : ∀ (x : BitVec w) (y : BitVec v), (x ++ y).toNat = 2 ^ v * x.toNat + y.toNat := by
    intro x y
    rw [toNat_append, ← Nat.shiftLeft_add_eq_or_of_lt y.isLt, Nat.shiftLeft_eq, Nat.mul_comm]
  rw [toNat_add, hsum, hsum, hsum, hlow, toNat_add]
  have hlt : 2 ^ v * ((x₁.toNat + x₂.toNat) % 2 ^ w) + (y₁.toNat + y₂.toNat) < 2 ^ (w + v) := by
    have hx : (x₁.toNat + x₂.toNat) % 2 ^ w + 1 ≤ 2 ^ w := Nat.mod_lt _ (Nat.two_pow_pos w)
    calc 2 ^ v * ((x₁.toNat + x₂.toNat) % 2 ^ w) + (y₁.toNat + y₂.toNat)
        < 2 ^ v * ((x₁.toNat + x₂.toNat) % 2 ^ w) + 2 ^ v := Nat.add_lt_add_left h _
      _ ≤ 2 ^ v * 2 ^ w := Nat.mul_le_mul_left _ hx
      _ = 2 ^ (w + v) := by rw [Nat.pow_add, Nat.mul_comm]
  rw [← Nat.mod_eq_of_lt hlt]
  have hdiv := Nat.div_add_mod (x₁.toNat + x₂.toNat) (2 ^ w)
  have hsplit : 2 ^ v * x₁.toNat + y₁.toNat + (2 ^ v * x₂.toNat + y₂.toNat)
      = 2 ^ v * ((x₁.toNat + x₂.toNat) % 2 ^ w) + (y₁.toNat + y₂.toNat)
        + 2 ^ (w + v) * ((x₁.toNat + x₂.toNat) / 2 ^ w) := by
    calc 2 ^ v * x₁.toNat + y₁.toNat + (2 ^ v * x₂.toNat + y₂.toNat)
        = 2 ^ v * (x₁.toNat + x₂.toNat) + (y₁.toNat + y₂.toNat) := by
          rw [Nat.mul_add]
          omega
      _ = _ := by
          conv_lhs => rw [← hdiv, Nat.mul_add, ← Nat.mul_assoc, ← Nat.pow_add, Nat.add_comm v w]
          omega
  rw [hsplit, Nat.add_mul_mod_self_left]

lemma pack_add (h : ∀ i, (f i).toNat + (g i).toNat < 2 ^ v) :
    pack n f + pack n g = pack n fun i => f i + g i := by
  induction n with
  | zero => exact eq_of_zero_length (Nat.mul_zero v)
  | succ n ih => exact (append_add_append _ _ (h 0)).trans (congrArg (· ++ _) (ih fun i => h i.succ))

lemma append_ushiftRight_and {w k : Nat} (x₁ x₂ : BitVec w) (y₁ : BitVec v) {y₂ : BitVec v}
    (h : ∀ j, v - k ≤ j → y₂.getLsbD j = false) :
    ((x₁ ++ y₁) >>> k) &&& (x₂ ++ y₂) = ((x₁ >>> k) &&& x₂) ++ ((y₁ >>> k) &&& y₂) := by
  apply eq_of_getLsbD_eq
  intro j hj
  simp only [getLsbD_and, getLsbD_ushiftRight, getLsbD_append]
  by_cases hlow : j < v
  · by_cases hcross : k + j < v
    · simp only [hlow, hcross, if_true]
    · simp only [hlow, if_true, h j (by omega), Bool.and_false]
  · have hcross : ¬ k + j < v := by omega
    have hsub : k + j - v = k + (j - v) := by omega
    simp only [hlow, hcross, hsub, if_false]

lemma pack_ushiftRight_and {k : Nat} (h : ∀ i j, v - k ≤ j → (g i).getLsbD j = false) :
    (pack n f >>> k) &&& pack n g = pack n fun i => (f i >>> k) &&& g i := by
  induction n with
  | zero => exact eq_of_zero_length (Nat.mul_zero v)
  | succ n ih =>
    exact (append_ushiftRight_and _ _ _ (h 0)).trans (congrArg (· ++ _) (ih fun i => h i.succ))

def load (n : Nat) (mem : Nat → BitVec v) (a : Nat) : BitVec (v * n) :=
  pack n fun i => mem (a + i)

def store (n : Nat) (mem : Nat → BitVec v) (a : Nat) (x : BitVec (v * n)) : Nat → BitVec v :=
  fun b => if a ≤ b ∧ b < a + n then lane x (b - a) else mem b

lemma store_pack (F : BitVec v → BitVec v) (mem : Nat → BitVec v) (a : Nat) :
    store n mem a (pack n fun i => F (mem (a + i))) =
      fun b => if a ≤ b ∧ b < a + n then F (mem b) else mem b := by
  funext b
  unfold store
  split
  · next hb =>
    have hlane := lane_pack (f := fun i : Fin n => F (mem (a + i))) ⟨b - a, by omega⟩
    rw [hlane]
    simp only [Nat.add_sub_cancel' hb.1]
  · rfl

end Lanes
