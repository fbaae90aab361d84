import Mathlib

namespace Acc.Hash

open BitVec (twoPow shiftLeft_eq_mul_twoPow ushiftRight_xor_distrib shiftRight_add)

open Function

def twangMix64 (key : BitVec 64) : BitVec 64 :=
  let key := ~~~key + key <<< 21
  let key := key ^^^ key >>> 24
  let key := key + key <<< 3 + key <<< 8
  let key := key ^^^ key >>> 14
  let key := key + key <<< 2 + key <<< 4
  let key := key ^^^ key >>> 28
  key + key <<< 31

def twangUnmix64 (key : BitVec 64) : BitVec 64 :=
  let key := key * 4611686016279904257
  let key := key ^^^ (key >>> 28 ^^^ key >>> 56)
  let key := key * 14933078535860113213
  let key := key ^^^ (key >>> 14 ^^^ key >>> 28 ^^^ key >>> 42 ^^^ key >>> 56)
  let key := key * 15244667743933553977
  let key := key ^^^ (key >>> 24 ^^^ key >>> 48)
  (key + 1) * 9223367638806167551

def jenkinsRevMix32 (key : BitVec 32) : BitVec 32 :=
  let key := key + key <<< 12
  let key := key ^^^ key >>> 22
  let key := key + key <<< 4
  let key := key ^^^ key >>> 9
  let key := key + key <<< 10
  let key := key ^^^ key >>> 2
  let key := key + key <<< 7
  key + key <<< 12

def jenkinsRevUnmix32 (key : BitVec 32) : BitVec 32 :=
  let key := key * 2364026753
  let key := key ^^^ (key >>> 2 ^^^ key >>> 4 ^^^ key >>> 6 ^^^ key >>> 8 ^^^
    key >>> 10 ^^^ key >>> 12 ^^^ key >>> 14 ^^^ key >>> 16 ^^^
    key >>> 18 ^^^ key >>> 20 ^^^ key >>> 22 ^^^ key >>> 24 ^^^
    key >>> 26 ^^^ key >>> 28 ^^^ key >>> 30)
  let key := key * 3222273025
  let key := key ^^^ (key >>> 9 ^^^ key >>> 18 ^^^ key >>> 27)
  let key := key * 4042322161
  let key := key ^^^ key >>> 22
  key * 16773121

variable {w : Nat}

def shifts (n : Nat) : Nat → BitVec w → BitVec w
  | 0, x => x >>> n
  | k + 1, x => shifts n k x ^^^ x >>> (n * (k + 2))

lemma xor_cancel_middle (x y z : BitVec w) : x ^^^ y ^^^ (y ^^^ z) = x ^^^ z := by
  rw [BitVec.xor_assoc, ← BitVec.xor_assoc y, BitVec.xor_self, BitVec.zero_xor]

lemma xor_shifts (n k : Nat) (x : BitVec w) :
    x ^^^ x >>> n ^^^ shifts n k (x ^^^ x >>> n) = x ^^^ x >>> (n * (k + 2)) := by
  induction k with
  | zero =>
    rw [shifts, ushiftRight_xor_distrib, xor_cancel_middle, ← shiftRight_add, zero_add, mul_two]
  | succ k ih =>
    have hshift : n + n * (k + 2) = n * (k + 1 + 2) := by ring
    rw [shifts, ← BitVec.xor_assoc, ih, ushiftRight_xor_distrib, ← shiftRight_add,
      xor_cancel_middle, hshift]

lemma leftInverse_shifts (n k : Nat) (h : w ≤ n * (k + 2)) :
    LeftInverse (fun y => y ^^^ shifts n k y) (fun x : BitVec w => x ^^^ x >>> n) := by
  intro x
  have hx := xor_shifts n k x
  rwa [BitVec.ushiftRight_eq_zero h, BitVec.xor_zero] at hx

lemma leftInverse_mul (n : Nat) {b : BitVec w} (h : (1 + twoPow w n) * b = 1) :
    LeftInverse (fun y => y * b) (fun x => x + x <<< n) := by
  intro x
  change (x + x <<< n) * b = x
  rw [shiftLeft_eq_mul_twoPow]
  linear_combination x * h

lemma leftInverse_mul_two (m n : Nat) {b : BitVec w} (h : (1 + twoPow w m + twoPow w n) * b = 1) :
    LeftInverse (fun y => y * b) (fun x => x + x <<< m + x <<< n) := by
  intro x
  change (x + x <<< m + x <<< n) * b = x
  simp only [shiftLeft_eq_mul_twoPow]
  linear_combination x * h

lemma leftInverse_not (n : Nat) {b : BitVec w} (h : (twoPow w n - 1) * b = 1) :
    LeftInverse (fun y => (y + 1) * b) (fun x => ~~~x + x <<< n) := by
  intro x
  have hnot : ~~~x = -x - 1 := by
    rw [BitVec.neg_eq_not_add]
    exact (add_sub_cancel_right _ _).symm
  change (~~~x + x <<< n + 1) * b = x
  rw [shiftLeft_eq_mul_twoPow, hnot]
  linear_combination x * h

lemma twangUnmix64_twangMix64 : LeftInverse twangUnmix64 twangMix64 :=
  (leftInverse_mul 31 (by decide)).comp (leftInverse_shifts 28 1 (by decide)) |>.comp
    (leftInverse_mul_two 2 4 (by decide)) |>.comp (leftInverse_shifts 14 3 (by decide)) |>.comp
    (leftInverse_mul_two 3 8 (by decide)) |>.comp (leftInverse_shifts 24 1 (by decide)) |>.comp
    (leftInverse_not 21 (by decide))

lemma jenkinsRevUnmix32_jenkinsRevMix32 : LeftInverse jenkinsRevUnmix32 jenkinsRevMix32 := by
  have hlast : LeftInverse (fun y => y * 2364026753#32)
      (fun x => x + x <<< 7 + (x + x <<< 7) <<< 12) := by
    intro x
    have hinv : (1 + twoPow 32 7) * (1 + twoPow 32 12) * 2364026753#32 = 1 := by decide
    change (x + x <<< 7 + (x + x <<< 7) <<< 12) * 2364026753#32 = x
    simp only [shiftLeft_eq_mul_twoPow]
    linear_combination x * hinv
  exact hlast.comp (leftInverse_shifts 2 14 (by decide)) |>.comp
    (leftInverse_mul 10 (by decide)) |>.comp (leftInverse_shifts 9 2 (by decide)) |>.comp
    (leftInverse_mul 4 (by decide)) |>.comp (leftInverse_shifts 22 0 (by decide)) |>.comp
    (leftInverse_mul 12 (by decide))

lemma rightInverse_of_leftInverse {f g : BitVec w → BitVec w} (h : LeftInverse g f) :
    RightInverse g f :=
  h.rightInverse_of_surjective (Finite.surjective_of_injective h.injective)

theorem unmix_mix_inverse :
    (LeftInverse twangUnmix64 twangMix64 ∧ RightInverse twangUnmix64 twangMix64) ∧
      LeftInverse jenkinsRevUnmix32 jenkinsRevMix32 ∧
        RightInverse jenkinsRevUnmix32 jenkinsRevMix32 :=
  ⟨⟨twangUnmix64_twangMix64, rightInverse_of_leftInverse twangUnmix64_twangMix64⟩,
    jenkinsRevUnmix32_jenkinsRevMix32,
    rightInverse_of_leftInverse jenkinsRevUnmix32_jenkinsRevMix32⟩

end Acc.Hash
