/-
# `Accelerator.Decimal` — decimal numerals as byte strings
-/
import Mathlib

namespace Decimal

open List

def isDigit (b : UInt8) : Bool := 48 ≤ b && b ≤ 57

def digit (b : UInt8) : Nat := b.toNat - 48

def value (s : List UInt8) : Nat := s.foldl (fun n b => 10 * n + digit b) 0

lemma isDigit_iff {b : UInt8} : isDigit b = true ↔ 48 ≤ b.toNat ∧ b.toNat ≤ 57 := by
  simp only [isDigit, Bool.and_eq_true, decide_eq_true_eq, UInt8.le_iff_toNat_le]
  rfl

lemma digit_lt {b : UInt8} (h : isDigit b = true) : digit b < 10 := by
  have hb := isDigit_iff.mp h
  rw [digit]
  omega

lemma value_nil : value [] = 0 := rfl

lemma value_append (s t : List UInt8) : value (s ++ t) = value s * 10 ^ t.length + value t := by
  have hfold : ∀ (t : List UInt8) (n : Nat),
      t.foldl (fun n b => 10 * n + digit b) n = n * 10 ^ t.length + value t := by
    intro t
    induction t with
    | nil => intro n; simp [value]
    | cons b t ih =>
      intro n
      have hb : value (b :: t) = digit b * 10 ^ t.length + value t := by
        rw [value, foldl_cons, ih]
        ring
      rw [foldl_cons, ih, hb, length_cons]
      ring
  rw [value, foldl_append, hfold]
  rfl

lemma value_cons (b : UInt8) (s : List UInt8) :
    value (b :: s) = digit b * 10 ^ s.length + value s := by
  have h := value_append [b] s
  rw [singleton_append] at h
  rw [h]
  simp [value]

lemma value_lt {s : List UInt8} (h : ∀ b ∈ s, isDigit b = true) : value s < 10 ^ s.length := by
  induction s with
  | nil => simp [value]
  | cons b s ih =>
    have hb := digit_lt (h b (mem_cons_self ..))
    have hs := ih fun c hc => h c (mem_cons_of_mem _ hc)
    rw [value_cons, length_cons, pow_succ]
    have hmul : digit b * 10 ^ s.length ≤ 9 * 10 ^ s.length := Nat.mul_le_mul_right _ (by omega)
    omega

lemma le_value_cons {b : UInt8} {s : List UInt8} (h : 1 ≤ digit b) :
    10 ^ s.length ≤ value (b :: s) := by
  rw [value_cons]
  have hmul : 1 * 10 ^ s.length ≤ digit b * 10 ^ s.length := Nat.mul_le_mul_right _ h
  omega

lemma value_dropWhile_zero (s : List UInt8) : value (s.dropWhile (· == 48)) = value s := by
  induction s with
  | nil => rfl
  | cons b s ih =>
    by_cases hb : b = 48
    · rw [hb, dropWhile_cons_of_pos (by rfl), ih, value_cons]
      simp [digit]
    · rw [dropWhile_cons_of_neg (by simpa using hb)]

lemma value_lt_of_digit_lt {b c : UInt8} {s t : List UInt8} (hlen : s.length = t.length)
    (hs : ∀ d ∈ s, isDigit d = true) (h : digit b < digit c) : value (b :: s) < value (c :: t) := by
  have hv := value_lt hs
  rw [value_cons, value_cons, ← hlen]
  have hmul : (digit b + 1) * 10 ^ s.length ≤ digit c * 10 ^ s.length :=
    Nat.mul_le_mul_right _ h
  rw [add_mul] at hmul
  omega

def text (n : Nat) : List UInt8 := (Nat.toDigits 10 n).map fun c => c.toNat.toUInt8

variable {d n k : Nat}

lemma toUInt8_digitChar (h : d < 10) : (Nat.digitChar d).toNat.toUInt8 = (48 + d).toUInt8 := by
  interval_cases d <;> rfl

lemma text_eq (n : Nat) :
    text n = (if n < 10 then [] else text (n / 10)) ++ [(48 + n % 10).toUInt8] := by
  rw [text, Nat.toDigits_eq_if (by omega)]
  split
  · rename_i h
    simp [toUInt8_digitChar h, Nat.mod_eq_of_lt h]
  · simp [text, toUInt8_digitChar (Nat.mod_lt n (show 0 < 10 by omega))]

lemma toNat_digitByte (h : d < 10) : ((48 + d).toUInt8).toNat = 48 + d := by
  interval_cases d <;> rfl

lemma text_digits (n : Nat) : ∀ b ∈ text n, isDigit b = true := by
  induction n using Nat.strong_induction_on with
  | _ n ih =>
    intro b hb
    rw [text_eq] at hb
    rcases mem_append.mp hb with hb | hb
    · split at hb
      · exact absurd hb (not_mem_nil)
      · exact ih (n / 10) (by omega) b hb
    · rw [mem_singleton.mp hb, isDigit_iff, toNat_digitByte (Nat.mod_lt n (by omega))]
      omega

lemma value_text (n : Nat) : value (text n) = n := by
  induction n using Nat.strong_induction_on with
  | _ n ih =>
    have hlast : value [(48 + n % 10).toUInt8] = n % 10 := by
      simp only [value, foldl_cons, foldl_nil, digit,
        toNat_digitByte (Nat.mod_lt n (show 0 < 10 by omega))]
      omega
    rw [text_eq, value_append, hlast]
    split
    · rw [value_nil]
      omega
    · rw [ih (n / 10) (by omega)]
      simp only [length_singleton, pow_one]
      omega

lemma text_ne_nil (n : Nat) : text n ≠ [] := by
  rw [text_eq]
  simp

lemma text_length_div (h : 10 ≤ n) : (text n).length = (text (n / 10)).length + 1 := by
  rw [text_eq n, if_neg (by omega), length_append]
  rfl

lemma text_head (n : Nat) (h : (text n).head? = some 48) : text n = [48] := by
  induction n using Nat.strong_induction_on with
  | _ n ih =>
    rw [text_eq] at h ⊢
    by_cases hten : n < 10
    · rw [if_pos hten] at h ⊢
      exact congrArg (· :: []) (Option.some.inj h)
    rw [if_neg hten, head?_append_of_ne_nil _ (text_ne_nil _)] at h
    have hdiv := value_text (n / 10)
    rw [ih (n / 10) (by omega) h] at hdiv
    have hzero : n / 10 = 0 := hdiv.symm
    omega

lemma text_length (hlo : 10 ^ k ≤ n ∨ k = 0) (hhi : n < 10 ^ (k + 1)) :
    (text n).length = k + 1 := by
  induction k generalizing n with
  | zero =>
    rw [text_eq, if_pos (by omega)]
    rfl
  | succ k ih =>
    have hlow : 10 ^ (k + 1) ≤ n := by
      rcases hlo with h | h
      · exact h
      · omega
    have hten : 10 ≤ n := by
      omega
    rw [text_length_div hten, ih]
    · left
      omega
    · rw [pow_succ] at hhi
      omega

lemma text_length_le (hk : 1 ≤ k) (h : n < 10 ^ k) : (text n).length ≤ k := by
  induction k generalizing n with
  | zero => omega
  | succ k ih =>
    rw [text_eq, length_append]
    split
    · simp
    rename_i hten
    have hk' : 1 ≤ k := by
      cases k with
      | zero | succ k => omega
    have := ih hk' (n := n / 10) (by rw [pow_succ] at h; omega)
    simp only [length_singleton]
    omega

end Decimal
