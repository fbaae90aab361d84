/-
# `Accelerator.Gf2.Bits` — bit vectors as polynomials over GF(2)
-/
import Mathlib

namespace Gf2

open Polynomial Finset

def FitsIn {w : Nat} (k : Nat) (v : BitVec w) : Prop := ∀ i, k ≤ i → v.getLsbD i = false

variable {w k l s n m : Nat}

lemma fitsIn_width (v : BitVec w) : FitsIn w v := fun i hi =>
  BitVec.getLsbD_of_ge v i hi

lemma fitsIn_zero (w k : Nat) : FitsIn k (0 : BitVec w) := fun i _ => by simp

lemma fitsIn_setWidth (v : BitVec w) (n : Nat) : FitsIn w (v.setWidth n) := by
  intro i hi
  rw [BitVec.getLsbD_setWidth, BitVec.getLsbD_of_ge v i hi, Bool.and_false]

variable {v u : BitVec w}

lemma fitsIn_of_ushiftRight (h : v >>> k = 0) : FitsIn k v := by
  intro i hi
  have hbit := congrArg (fun u => u.getLsbD (i - k)) h
  simp only [BitVec.getLsbD_ushiftRight, show k + (i - k) = i by omega] at hbit
  simpa using hbit

lemma FitsIn.mono (hv : FitsIn k v) (h : k ≤ l) : FitsIn l v :=
  fun i hi => hv i (by omega)

lemma FitsIn.xor (hu : FitsIn k u) (hv : FitsIn k v) : FitsIn k (u ^^^ v) := by
  intro i hi
  rw [BitVec.getLsbD_xor, hu i hi, hv i hi, Bool.xor_self]

lemma FitsIn.shift (hv : FitsIn (k + s) v) : FitsIn k (v >>> s) := by
  intro i hi
  rw [BitVec.getLsbD_ushiftRight]
  exact hv _ (by omega)

noncomputable def polyOf {w : Nat} (v : BitVec w) : (ZMod 2)[X] :=
  ∑ i ∈ range w, if v.getLsbD i then X ^ i else 0

lemma coeff_polyOf (v : BitVec w) (i : Nat) :
    (polyOf v).coeff i = if v.getLsbD i then 1 else 0 := by
  have hterm : ∀ j : Nat, (if v.getLsbD j then (X : (ZMod 2)[X]) ^ j else 0).coeff i =
      if i = j then (if v.getLsbD j then 1 else 0) else 0 := by
    intro j
    by_cases hv : v.getLsbD j <;> simp [hv, coeff_X_pow]
  simp only [polyOf, finsetSum_coeff, hterm, sum_ite_eq, mem_range]
  by_cases hi : i < w
  · simp [hi]
  · simp [hi, BitVec.getLsbD_of_ge v i (by omega)]

lemma degree_polyOf_lt (v : BitVec w) : (polyOf v).degree < w := by
  rw [degree_lt_iff_coeff_zero]
  intro i hi
  rw [coeff_polyOf, BitVec.getLsbD_of_ge v i hi]
  rfl

lemma polyOf_injective (h : polyOf u = polyOf v) : u = v := by
  apply BitVec.eq_of_getLsbD_eq
  intro i _
  have hc := congrArg (fun p => p.coeff i) h
  simp only [coeff_polyOf] at hc
  revert hc
  cases u.getLsbD i <;> cases v.getLsbD i <;> simp

lemma polyOf_zero (w : Nat) : polyOf (0 : BitVec w) = 0 := by
  ext i
  simp [coeff_polyOf]

lemma polyOf_xor (u v : BitVec w) : polyOf (u ^^^ v) = polyOf u + polyOf v := by
  ext i
  simp only [coeff_polyOf, coeff_add, BitVec.getLsbD_xor]
  cases u.getLsbD i <;> cases v.getLsbD i <;> decide

lemma polyOf_setWidth (n : Nat) (v : BitVec w)
    (h : FitsIn n v) : polyOf (v.setWidth n) = polyOf v := by
  ext i
  simp only [coeff_polyOf, BitVec.getLsbD_setWidth]
  by_cases hi : i < n
  · simp [hi]
  · simp [hi, h i (by omega)]

lemma polyOf_zeroExtend (v : BitVec w) (h : w ≤ n) : polyOf (v.setWidth n) = polyOf v :=
  polyOf_setWidth n v fun i hi => BitVec.getLsbD_of_ge v i (by omega)

lemma polyOf_shiftLeft (v : BitVec w) (s : Nat)
    (h : ∀ i, w ≤ i + s → v.getLsbD i = false) : polyOf (v <<< s) = X ^ s * polyOf v := by
  ext i
  rw [coeff_X_pow_mul']
  simp only [coeff_polyOf, BitVec.getLsbD_shiftLeft]
  by_cases hs : s ≤ i
  · by_cases hi : i < w
    · simp [hs, hi, show ¬ i < s by omega]
    · simp [hs, hi, h (i - s) (by omega)]
  · simp [hs, show i < s by omega]

lemma polyOf_append (hi : BitVec m) (lo : BitVec n) :
    polyOf (hi ++ lo) = polyOf lo + X ^ n * polyOf hi := by
  ext i
  rw [coeff_add, coeff_X_pow_mul']
  simp only [coeff_polyOf, BitVec.getLsbD_append]
  by_cases h : i < n
  · simp [h, show ¬ n ≤ i by omega]
  · simp [h, show n ≤ i by omega]

lemma polyOf_split (v : BitVec w) (s : Nat) :
    polyOf v = polyOf (v.setWidth s) + X ^ s * polyOf (v >>> s) := by
  ext i
  rw [coeff_add, coeff_X_pow_mul']
  simp only [coeff_polyOf, BitVec.getLsbD_setWidth, BitVec.getLsbD_ushiftRight]
  by_cases h : i < s
  · simp [h, show ¬ s ≤ i by omega]
  · simp [h, show s ≤ i by omega, show s + (i - s) = i by omega]

lemma polyOf_singleton (v : BitVec 1) : polyOf v = if v.getLsbD 0 then 1 else 0 := by
  simp [polyOf]

def clmul {m n : Nat} (a : BitVec m) (b : BitVec n) : BitVec (m + n) :=
  (List.range n).foldl
    (fun acc i => if b.getLsbD i then acc ^^^ (a.setWidth (m + n) <<< i) else acc) 0

lemma polyOf_clmul (a : BitVec m) (b : BitVec n) : polyOf (clmul a b) = polyOf a * polyOf b := by
  have hloop : ∀ k, k ≤ n → polyOf ((List.range k).foldl
      (fun acc i => if b.getLsbD i then acc ^^^ (a.setWidth (m + n) <<< i) else acc) 0) =
      polyOf a * ∑ i ∈ range k, if b.getLsbD i then X ^ i else 0 := by
    intro k
    induction k with
    | zero =>
      simpa using polyOf_zero (m + n)
    | succ k ih =>
      intro hk
      rw [List.range_succ, List.foldl_append, sum_range_succ, mul_add,
        ← ih (by omega)]
      simp only [List.foldl_cons, List.foldl_nil]
      by_cases hb : b.getLsbD k
      · have hshift : polyOf (a.setWidth (m + n) <<< k) = X ^ k * polyOf a := by
          rw [polyOf_shiftLeft, polyOf_zeroExtend a (by omega)]
          intro i hi
          rw [BitVec.getLsbD_setWidth, BitVec.getLsbD_of_ge a i (by omega), Bool.and_false]
        simp only [hb, if_true, polyOf_xor, hshift]
        rw [mul_comm (polyOf a) (X ^ k)]
      · simp [hb]
  exact hloop n (le_refl n)

lemma FitsIn.clmul {a : BitVec m} {b : BitVec n} {t : Nat}
    (ha : FitsIn s a) (hb : FitsIn t b) (hk : s + t ≤ k + 1) : FitsIn k (Gf2.clmul a b) := by
  intro i hi
  have hcoeff : (polyOf (Gf2.clmul a b)).coeff i = 0 := by
    rw [polyOf_clmul, coeff_mul]
    apply sum_eq_zero
    intro p hp
    have hsum : p.1 + p.2 = i := Finset.HasAntidiagonal.mem_antidiagonal.mp hp
    simp only [coeff_polyOf]
    by_cases hs : s ≤ p.1
    · simp [ha p.1 hs]
    · simp [hb p.2 (by omega)]
  rw [coeff_polyOf] at hcoeff
  by_contra hbit
  simp [hbit] at hcoeff

lemma polyOf_setWidth_modEq (w : Nat) (v : BitVec m) :
    (X : (ZMod 2)[X]) ^ w ∣ polyOf (v.setWidth w) - polyOf v := by
  rw [X_pow_dvd_iff]
  intro d hd
  rw [coeff_sub, coeff_polyOf, coeff_polyOf, BitVec.getLsbD_setWidth]
  simp [hd]

lemma eq_of_polyOf_modEq (h : (X : (ZMod 2)[X]) ^ w ∣ polyOf u - polyOf v) : u = v := by
  apply polyOf_injective
  ext i
  by_cases hi : i < w
  · have hc := X_pow_dvd_iff.mp h i hi
    rw [coeff_sub] at hc
    exact sub_eq_zero.mp hc
  · simp [coeff_polyOf, BitVec.getLsbD_of_ge _ i (Nat.le_of_not_lt hi)]

lemma clmul_truncated_inverse {j : Nat} (hw : w ≤ j) (a : BitVec w) (m : BitVec k)
    (g : BitVec l) (hinv : (clmul m g).setWidth w = (1 : BitVec (w + 1)).setWidth w) :
    (clmul (((clmul (a.setWidth j) m).setWidth w).setWidth j) g).setWidth w = a := by
  have hone : polyOf (1 : BitVec (w + 1)) = 1 := by
    ext i
    rw [coeff_polyOf, coeff_one]
    by_cases hi : i = 0 <;> simp [hi]
  set t := (clmul (a.setWidth j) m).setWidth w with ht
  obtain ⟨c₁, h₁⟩ := polyOf_setWidth_modEq w (clmul m g)
  obtain ⟨c₂, h₂⟩ := polyOf_setWidth_modEq w (1 : BitVec (w + 1))
  obtain ⟨c₃, h₃⟩ := polyOf_setWidth_modEq w (clmul (a.setWidth j) m)
  obtain ⟨c₄, h₄⟩ := polyOf_setWidth_modEq w (clmul (t.setWidth j) g)
  apply eq_of_polyOf_modEq
  rw [hinv, polyOf_clmul] at h₁
  rw [hone] at h₂
  rw [← ht, polyOf_clmul, polyOf_zeroExtend a hw] at h₃
  rw [polyOf_clmul, polyOf_zeroExtend t hw] at h₄
  refine ⟨c₄ + c₃ * polyOf g + polyOf a * (c₂ - c₁), ?_⟩
  linear_combination h₄ + polyOf g * h₃ + polyOf a * (h₂ - h₁)

section Eval

variable {R : Type*} [CommRing R] [Algebra (ZMod 2) R]

noncomputable def bitEval (ξ : R) {w : Nat} (v : BitVec w) : R := aeval ξ (polyOf v)

lemma add_self_eq_zero (a : R) : a + a = 0 := by
  have h2 : (1 + 1 : ZMod 2) = 0 := by decide
  calc a + a = ((1 + 1 : ZMod 2)) • a := by rw [add_smul, one_smul]
    _ = 0 := by rw [h2, zero_smul]

@[simp] lemma bitEval_zero (ξ : R) (w : Nat) : bitEval ξ (0 : BitVec w) = 0 := by
  rw [bitEval, polyOf_zero, map_zero]

variable {w n m : Nat}

@[simp] lemma bitEval_xor (ξ : R) (u v : BitVec w) :
    bitEval ξ (u ^^^ v) = bitEval ξ u + bitEval ξ v := by
  simp [bitEval, polyOf_xor]

lemma bitEval_setWidth (ξ : R) (n : Nat) (v : BitVec w)
    (h : FitsIn n v) : bitEval ξ (v.setWidth n) = bitEval ξ v := by
  rw [bitEval, polyOf_setWidth n v h, bitEval]

lemma bitEval_zeroExtend (ξ : R) (v : BitVec w) (h : w ≤ n) :
    bitEval ξ (v.setWidth n) = bitEval ξ v := by
  rw [bitEval, polyOf_zeroExtend v h, bitEval]

lemma bitEval_append (ξ : R) (hi : BitVec m) (lo : BitVec n) :
    bitEval ξ (hi ++ lo) = bitEval ξ lo + ξ ^ n * bitEval ξ hi := by
  simp [bitEval, polyOf_append]

lemma bitEval_split (ξ : R) (v : BitVec w) (s : Nat) :
    bitEval ξ v = bitEval ξ (v.setWidth s) + ξ ^ s * bitEval ξ (v >>> s) := by
  conv_lhs => rw [bitEval, polyOf_split v s]
  simp [bitEval]

lemma bitEval_shiftLeft (ξ : R) (v : BitVec w) (s : Nat)
    (h : ∀ i, w ≤ i + s → v.getLsbD i = false) : bitEval ξ (v <<< s) = ξ ^ s * bitEval ξ v := by
  simp [bitEval, polyOf_shiftLeft v s h]

@[simp] lemma bitEval_clmul (ξ : R) (a : BitVec m) (b : BitVec n) :
    bitEval ξ (clmul a b) = bitEval ξ a * bitEval ξ b := by
  simp [bitEval, polyOf_clmul]

lemma bitEval_singleton (ξ : R) (v : BitVec 1) : bitEval ξ v = if v.getLsbD 0 then 1 else 0 := by
  rw [bitEval, polyOf_singleton]
  cases v.getLsbD 0 <;> simp

lemma bitEval_eq_sum (ξ : R) (v : BitVec w) :
    bitEval ξ v = ∑ i ∈ range w, if v.getLsbD i then ξ ^ i else 0 := by
  rw [bitEval, polyOf, map_sum]
  apply sum_congr rfl
  intro i _
  cases v.getLsbD i <;> simp

lemma bitEval_reverse {x ξ : R} (hinv : ξ * x = 1) (v : BitVec (w + 1)) :
    bitEval x v.reverse = x ^ w * bitEval ξ v := by
  rw [bitEval_eq_sum, bitEval_eq_sum, mul_sum, ← sum_range_reflect]
  apply sum_congr rfl
  intro i hi
  have hiw : i ≤ w := by have := mem_range.mp hi; omega
  have hbit : v.reverse.getLsbD (w + 1 - 1 - i) = v.getLsbD i := by
    rw [BitVec.getLsbD_reverse, BitVec.getMsbD_eq_getLsbD, decide_eq_true (by omega),
      Bool.true_and, show w + 1 - 1 - (w + 1 - 1 - i) = i by omega]
  rw [hbit]
  by_cases hv : v.getLsbD i
  · have hpow : x ^ w * ξ ^ i = x ^ (w - i) := by
      calc x ^ w * ξ ^ i = x ^ (w - i) * (ξ * x) ^ i := by
            rw [mul_pow, show x ^ w = x ^ (w - i) * x ^ i by rw [← pow_add]; congr 1; omega]
            ring
        _ = x ^ (w - i) := by rw [hinv, one_pow, mul_one]
    simp [hv, hpow]
  · simp [hv]

end Eval

end Gf2
