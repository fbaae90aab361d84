/-
# `Accelerator.Gf2.Register` — shift registers as arithmetic modulo a generator
-/
import Accelerator.Gf2.Bits

namespace Gf2

open Polynomial List

variable {w : Nat}

noncomputable def genPoly (p : BitVec w) : (ZMod 2)[X] := 1 + X * polyOf p

abbrev RegRing (p : BitVec w) : Type := AdjoinRoot (genPoly p)

noncomputable def regRoot (p : BitVec w) : RegRing p := AdjoinRoot.root (genPoly p)

noncomputable def regEval (p : BitVec w) {n : Nat} (v : BitVec n) : RegRing p :=
  bitEval (regRoot p) v

noncomputable def regGen (p : BitVec w) : RegRing p := regEval p p

lemma root_mul_gen (p : BitVec w) : regRoot p * regGen p = 1 := by
  have hzero : (1 : RegRing p) + regRoot p * regGen p = 0 := by
    have h := AdjoinRoot.aeval_eq (f := genPoly p) (genPoly p)
    rw [AdjoinRoot.mk_self, genPoly, map_add, map_mul, map_one, aeval_X] at h
    exact h
  calc regRoot p * regGen p = (1 + 1) + regRoot p * regGen p := by
        rw [add_self_eq_zero (1 : RegRing p), zero_add]
    _ = 1 + (1 + regRoot p * regGen p) := by ring
    _ = 1 := by rw [hzero, add_zero]

lemma gen_pow_cancel (p : BitVec w) (n : Nat) {a b : RegRing p}
    (h : regGen p ^ n * a = regGen p ^ n * b) : a = b := by
  have hunit : regRoot p ^ n * regGen p ^ n = 1 := by
    rw [← mul_pow, root_mul_gen, one_pow]
  calc a = regRoot p ^ n * (regGen p ^ n * a) := by rw [← mul_assoc, hunit, one_mul]
    _ = regRoot p ^ n * (regGen p ^ n * b) := by rw [h]
    _ = b := by rw [← mul_assoc, hunit, one_mul]

lemma gen_pow_mul_root_pow (p : BitVec w) (n : Nat) (a : RegRing p) :
    regGen p ^ n * (regRoot p ^ n * a) = a := by
  rw [← mul_assoc, ← mul_pow, mul_comm (regGen p), root_mul_gen, one_pow, one_mul]

lemma genPoly_monic {p : BitVec (w + 1)} (hp : p.getLsbD w = true) :
    (genPoly p).Monic ∧ (genPoly p).degree = ((w + 1 : Nat) : WithBot Nat) := by
  have hlt : (1 : (ZMod 2)[X]).degree < ((w + 1 : Nat) : WithBot Nat) := by
    rw [degree_one]
    exact_mod_cast Nat.succ_pos w
  have hle : (X * polyOf p).degree ≤ ((w + 1 : Nat) : WithBot Nat) := by
    rw [degree_le_iff_coeff_zero]
    intro i hi
    have hi' : w + 1 < i := by exact_mod_cast hi
    cases i with
    | zero => omega
    | succ i => rw [coeff_X_mul, coeff_polyOf, BitVec.getLsbD_of_ge p i (by omega)]; rfl
  have hcoeff : (genPoly p).coeff (w + 1) = 1 := by
    rw [genPoly, coeff_add, coeff_X_mul, coeff_polyOf, hp, coeff_one]
    simp
  have hdeg : (genPoly p).degree ≤ ((w + 1 : Nat) : WithBot Nat) :=
    (degree_add_le _ _).trans (max_le hlt.le hle)
  have hmonic : (genPoly p).Monic := monic_of_degree_le (w + 1) hdeg hcoeff
  refine ⟨hmonic, le_antisymm hdeg ?_⟩
  exact le_degree_of_ne_zero (by rw [hcoeff]; exact one_ne_zero)

lemma regEval_injective {p : BitVec (w + 1)} (hp : p.getLsbD w = true)
    {u v : BitVec (w + 1)} (h : regEval p u = regEval p v) : u = v := by
  obtain ⟨hmonic, hdeg⟩ := genPoly_monic hp
  have hmk : AdjoinRoot.mk (genPoly p) (polyOf u) = AdjoinRoot.mk (genPoly p) (polyOf v) := by
    rw [← AdjoinRoot.aeval_eq, ← AdjoinRoot.aeval_eq]
    exact h
  have hdvd := AdjoinRoot.mk_eq_mk.mp hmk
  have hsub : polyOf u - polyOf v = 0 := by
    by_contra hne
    refine hmonic.not_dvd_of_degree_lt hne ?_ hdvd
    rw [hdeg]
    exact (degree_sub_le _ _).trans_lt (max_lt (degree_polyOf_lt u) (degree_polyOf_lt v))
  exact polyOf_injective (sub_eq_zero.mp hsub)

def regStep (p : BitVec w) {n : Nat} (c : BitVec n) : BitVec n :=
  if c.getLsbD 0 then (c >>> 1) ^^^ p.setWidth n else c >>> 1

variable {n m k : Nat}

lemma eval_regStep (p : BitVec w) (hn : w ≤ n) (c : BitVec n) :
    regEval p (regStep p c) = regGen p * regEval p c := by
  have hsplit : regEval p c =
      (if c.getLsbD 0 then (1 : RegRing p) else 0) + regRoot p * regEval p (c >>> 1) := by
    rw [regEval, bitEval_split (regRoot p) c 1, bitEval_singleton, pow_one, regEval]
    simp
  have hinv : regGen p * (regRoot p * regEval p (c >>> 1)) = regEval p (c >>> 1) := by
    simpa using gen_pow_mul_root_pow p 1 (regEval p (c >>> 1))
  rw [hsplit, mul_add, hinv, regStep]
  cases c.getLsbD 0
  · simp
  · simp only [if_true, mul_one, regEval, bitEval_xor, bitEval_zeroExtend _ _ hn]
    rw [add_comm]
    rfl

def consume (p : BitVec w) {n : Nat} (c : BitVec w) (v : BitVec n) : BitVec w :=
  (range n).foldl
    (fun c i => regStep p (c ^^^ (BitVec.ofBool (v.getLsbD i)).setWidth w)) c

lemma regEval_ofBool (p : BitVec (w + 1)) (b : Bool) :
    regEval p ((BitVec.ofBool b).setWidth (w + 1)) = if b then 1 else 0 := by
  rw [regEval, bitEval_zeroExtend _ _ (by omega), bitEval_singleton]
  simp

lemma eval_consume (p : BitVec (w + 1)) (c : BitVec (w + 1)) (v : BitVec n) :
    regEval p (consume p c v) = regGen p ^ n * (regEval p c + regEval p v) := by
  have hloop : ∀ k, regEval p ((range k).foldl
      (fun c i => regStep p (c ^^^ (BitVec.ofBool (v.getLsbD i)).setWidth (w + 1))) c) =
      regGen p ^ k * (regEval p c +
        ∑ i ∈ Finset.range k, if v.getLsbD i then regRoot p ^ i else 0) := by
    intro k
    induction k with
    | zero => simp
    | succ k ih =>
      rw [range_succ, foldl_append, foldl_cons, foldl_nil,
        eval_regStep p (le_refl _), regEval, bitEval_xor, ← regEval, ← regEval, ih,
        regEval_ofBool, Finset.sum_range_succ]
      have hbit : (if v.getLsbD k then 1 else 0 : RegRing p) =
          regGen p ^ k * (if v.getLsbD k then regRoot p ^ k else 0) := by
        cases v.getLsbD k
        · simp
        · simpa using (gen_pow_mul_root_pow p k 1).symm
      rw [hbit]
      ring
  have hv : regEval p v = ∑ i ∈ Finset.range n, if v.getLsbD i then regRoot p ^ i else 0 :=
    bitEval_eq_sum (regRoot p) v
  rw [consume, hloop n, hv]

def polyMod (q : BitVec w) {n : Nat} (v : BitVec n) : BitVec w :=
  (range n).foldl
    (fun r i =>
      let r' := (r <<< 1) ||| (BitVec.ofBool (v.getLsbD (n - 1 - i))).setWidth w
      if r.getLsbD (w - 1) then r' ^^^ q else r') 0

section Division

variable {R : Type*} [CommRing R] [Algebra (ZMod 2) R] {x : R} {w : Nat} {q : BitVec (w + 1)}

lemma bitEval_shift_out (r : BitVec (w + 1)) :
    bitEval x (r <<< 1) = x * bitEval x r + if r.getLsbD w then x ^ (w + 1) else 0 := by
  have hr : bitEval x r = (∑ i ∈ Finset.range w, if r.getLsbD i then x ^ i else 0) +
      if r.getLsbD w then x ^ w else 0 := by
    rw [bitEval_eq_sum, Finset.sum_range_succ]
  have hs : bitEval x (r <<< 1) =
      ∑ i ∈ Finset.range w, x * if r.getLsbD i then x ^ i else 0 := by
    rw [bitEval_eq_sum, Finset.sum_range_succ']
    simp only [BitVec.getLsbD_shiftLeft, Nat.lt_one_iff, decide_true, Bool.not_true,
      Bool.and_false, Bool.false_and, Bool.false_eq_true, if_false, add_zero]
    apply Finset.sum_congr rfl
    intro i hi
    have hbit : (decide (i + 1 < w + 1) && !decide (i + 1 = 0) && r.getLsbD (i + 1 - 1)) =
        r.getLsbD i := by
      simp [Finset.mem_range.mp hi]
    rw [hbit, mul_ite, mul_zero, pow_succ, mul_comm x]
  rw [hr, hs, mul_add, Finset.mul_sum, add_assoc]
  cases r.getLsbD w
  · simp
  have hxx : x * x ^ w + x ^ (w + 1) = 0 := by
    rw [pow_succ, mul_comm x]
    exact add_self_eq_zero _
  simp [hxx]

lemma eval_polyMod_round (hq : bitEval x q = x ^ (w + 1)) (r : BitVec (w + 1)) (b : Bool) :
    bitEval x (if r.getLsbD w then ((r <<< 1) ||| (BitVec.ofBool b).setWidth (w + 1)) ^^^ q
        else (r <<< 1) ||| (BitVec.ofBool b).setWidth (w + 1)) =
      x * bitEval x r + if b then 1 else 0 := by
  have hor : (r <<< 1) ||| (BitVec.ofBool b).setWidth (w + 1) =
      (r <<< 1) ^^^ (BitVec.ofBool b).setWidth (w + 1) := by
    apply BitVec.eq_of_getLsbD_eq
    intro i _
    by_cases hi : i = 0 <;>
      simp [BitVec.getLsbD_or, BitVec.getLsbD_xor, BitVec.getLsbD_shiftLeft,
        BitVec.getLsbD_setWidth, hi]
  have hbit : bitEval x ((BitVec.ofBool b).setWidth (w + 1)) = if b then 1 else 0 := by
    rw [bitEval_zeroExtend _ _ (by omega), bitEval_singleton]
    simp
  rw [hor]
  cases hr : r.getLsbD w
  · simp only [Bool.false_eq_true, if_false, bitEval_xor, hbit, bitEval_shift_out, hr, add_zero]
  simp only [if_true, bitEval_xor, hbit, bitEval_shift_out, hr, hq]
  have hcancel := add_self_eq_zero (x ^ (w + 1))
  calc x * bitEval x r + x ^ (w + 1) + (if b then 1 else 0) + x ^ (w + 1)
      = x * bitEval x r + (if b then 1 else 0) + (x ^ (w + 1) + x ^ (w + 1)) := by ring
    _ = _ := by rw [hcancel, add_zero]

lemma eval_polyMod (hq : bitEval x q = x ^ (w + 1)) {n : Nat} (v : BitVec n) :
    bitEval x (polyMod q v) = bitEval x v := by
  have hloop : ∀ k, k ≤ n → bitEval x ((range k).foldl
      (fun r i =>
        let r' := (r <<< 1) ||| (BitVec.ofBool (v.getLsbD (n - 1 - i))).setWidth (w + 1)
        if r.getLsbD (w + 1 - 1) then r' ^^^ q else r') 0) = bitEval x (v >>> (n - k)) := by
    intro k
    induction k with
    | zero =>
      intro _
      have hz : v >>> (n - 0) = 0 := by
        apply BitVec.eq_of_getLsbD_eq
        intro i _
        simp
      rw [hz, bitEval_zero]
      exact bitEval_zero x (w + 1)
    | succ k ih =>
      intro hk
      rw [range_succ, foldl_append, foldl_cons, foldl_nil]
      refine (eval_polyMod_round hq _ _).trans ?_
      rw [ih (by omega), bitEval_split x (v >>> (n - (k + 1))) 1, bitEval_singleton, pow_one]
      have hbit : ((v >>> (n - (k + 1))).setWidth 1).getLsbD 0 = v.getLsbD (n - 1 - k) := by
        simp [show n - (k + 1) = n - 1 - k by omega]
      have htail : v >>> (n - (k + 1)) >>> 1 = v >>> (n - k) := by
        rw [← BitVec.shiftRight_add]
        congr 1
        omega
      rw [hbit, htail, add_comm]
  have h := hloop n (le_refl n)
  rw [Nat.sub_self, BitVec.ushiftRight_zero] at h
  exact h

end Division

lemma eval_reverse_gen (p : BitVec (w + 1)) :
    bitEval (regGen p) p.reverse = regGen p ^ (w + 1) := by
  rw [bitEval_reverse (root_mul_gen p) p, pow_succ]
  rfl

def regSteps (p : BitVec w) {m : Nat} : Nat → BitVec m → BitVec m
  | 0, c => c
  | n + 1, c => regSteps p n (regStep p c)

lemma eval_regSteps (p : BitVec w) (hm : w ≤ m) (n : Nat) (c : BitVec m) :
    regEval p (regSteps p n c) = regGen p ^ n * regEval p c := by
  induction n generalizing c with
  | zero => simp [regSteps]
  | succ n ih => rw [regSteps, ih, eval_regStep p hm, pow_succ, mul_assoc]

variable {p : BitVec w}

lemma regEval_eq_of_regSteps (hm : w ≤ m)
    {u v : BitVec m} (h : regSteps p n u = regSteps p (n + k) v) :
    regEval p u = regGen p ^ k * regEval p v := by
  have he := congrArg (regEval p) h
  rw [eval_regSteps p hm, eval_regSteps p hm, pow_add, mul_assoc] at he
  exact gen_pow_cancel p n he

def regStepsNat (p : Nat) : Nat → Nat → Nat
  | 0, c => c
  | n + 1, c => regStepsNat p n ((c >>> 1) ^^^ (p * (c % 2)))

lemma toNat_regSteps (p : BitVec w) (hm : w ≤ m) (n : Nat) (c : BitVec m) :
    (regSteps p n c).toNat = regStepsNat p.toNat n c.toNat := by
  induction n generalizing c with
  | zero => rfl
  | succ n ih =>
    rw [regSteps, ih, regStepsNat]
    have hp : p.toNat < 2 ^ m :=
      lt_of_lt_of_le p.isLt (Nat.pow_le_pow_right (by omega) hm)
    have hbit : c.getLsbD 0 = decide (c.toNat % 2 = 1) := by
      simp [BitVec.getLsbD, Nat.testBit_zero]
    rcases Nat.mod_two_eq_zero_or_one c.toNat with h | h
    · simp [regStep, hbit, h]
    · simp [regStep, hbit, h, Nat.mod_eq_of_lt hp]

lemma regEval_eq_of_regStepsNat (hm : w ≤ m) {u v : BitVec m}
    (h : regStepsNat p.toNat n u.toNat = regStepsNat p.toNat (n + k) v.toNat) :
    regEval p u = regGen p ^ k * regEval p v := by
  rw [← toNat_regSteps p hm, ← toNat_regSteps p hm] at h
  exact regEval_eq_of_regSteps hm (BitVec.eq_of_toNat_eq h)

lemma regEval_one : regEval p (1#(m + 1)) = 1 := by
  rw [regEval, bitEval_eq_sum, Finset.sum_range_succ']
  simp

end Gf2
