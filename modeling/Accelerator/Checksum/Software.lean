import Accelerator.Gf2.Stream

namespace Acc.Checksum

open BitVec List

open Gf2

structure CrcOptimal (n : Nat) where
  truncPoly : BitVec n
  finalXor : BitVec n
  reflectIn : Bool
  reflectRem : Bool
  rem : BitVec n

namespace CrcOptimal

variable {n : Nat}

def processBit (c : CrcOptimal n) (bit : Bool) : CrcOptimal n :=
  let r := if bit then c.rem ^^^ BitVec.twoPow n (n - 1) else c.rem
  { c with rem := if r.getLsbD (n - 1) then (r <<< 1) ^^^ c.truncPoly else r <<< 1 }

def processByte (c : CrcOptimal n) (b : UInt8) : CrcOptimal n :=
  let v := if c.reflectIn then b.toBitVec.reverse else b.toBitVec
  (range 8).foldl (fun c i => c.processBit (v.getLsbD (7 - i))) c

def processBytes (c : CrcOptimal n) (data : List UInt8) : CrcOptimal n :=
  data.foldl processByte c

def checksum (c : CrcOptimal n) : BitVec n :=
  (if c.reflectRem then c.rem.reverse else c.rem) ^^^ c.finalXor

end CrcOptimal

def reverseBits (s : BitVec 32) : BitVec 32 :=
  let s := ((s >>> 1) &&& 0x55555555#32) ||| ((s &&& 0x55555555#32) <<< 1)
  let s := ((s >>> 2) &&& 0x33333333#32) ||| ((s &&& 0x33333333#32) <<< 2)
  let s := ((s >>> 4) &&& 0x0f0f0f0f#32) ||| ((s &&& 0x0f0f0f0f#32) <<< 4)
  let s := ((s >>> 8) &&& 0x00ff00ff#32) ||| ((s &&& 0x00ff00ff#32) <<< 8)
  (s >>> 16) ||| (s <<< 16)

def crcSw (polynomial : BitVec 32) (data : List UInt8) (startingChecksum : BitVec 32) :
    BitVec 32 :=
  let sum : CrcOptimal 32 :=
    { truncPoly := polynomial, finalXor := 0, reflectIn := true, reflectRem := true,
      rem := reverseBits startingChecksum }
  (sum.processBytes data).checksum

def crc32cPolynomial : BitVec 32 := 0x1EDC6F41#32

def crc32Polynomial : BitVec 32 := 0x04C11DB7#32

def crc32cSw (data : List UInt8) (startingChecksum : BitVec 32) : BitVec 32 :=
  crcSw crc32cPolynomial data startingChecksum

def crc32Sw (data : List UInt8) (startingChecksum : BitVec 32) : BitVec 32 :=
  crcSw crc32Polynomial data startingChecksum

variable {n : Nat}

lemma getLsbD_reverse (v : BitVec n) (i : Nat) (hi : i < n) :
    v.reverse.getLsbD i = v.getLsbD (n - 1 - i) := by
  rw [BitVec.getLsbD_reverse, BitVec.getMsbD_eq_getLsbD, decide_eq_true hi, Bool.true_and]

lemma reverse_reverse (v : BitVec n) : v.reverse.reverse = v := by
  apply eq_of_getLsbD_eq
  intro i hi
  rw [getLsbD_reverse _ i hi, getLsbD_reverse _ _ (by omega)]
  congr 1
  omega

lemma reverse_xor (u v : BitVec n) : (u ^^^ v).reverse = u.reverse ^^^ v.reverse := by
  apply eq_of_getLsbD_eq
  intro i hi
  simp only [getLsbD_xor, getLsbD_reverse _ i hi]

lemma reverse_shiftLeft_one (v : BitVec n) : (v <<< 1).reverse = v.reverse >>> 1 := by
  apply eq_of_getLsbD_eq
  intro i hi
  rw [getLsbD_reverse _ i hi, getLsbD_shiftLeft, getLsbD_ushiftRight]
  by_cases h : 1 + i < n
  · rw [getLsbD_reverse _ _ h]
    simp [show ¬ (n - 1 - i = 0) by omega, show n - 1 - i < n by omega,
      show n - 1 - i - 1 = n - 1 - (1 + i) by omega]
  · simp [getLsbD_of_ge v.reverse (1 + i) (by omega), show n - 1 - i = 0 by omega]

lemma reverse_twoPow_top :
    (BitVec.twoPow (n + 1) n).reverse = (BitVec.ofBool true).setWidth (n + 1) := by
  apply eq_of_getLsbD_eq
  intro i hi
  rw [getLsbD_reverse _ i hi, getLsbD_twoPow, getLsbD_setWidth]
  by_cases h : i = 0
  · simp [h]
  · simp only [getLsbD_ofBool, decide_eq_false h, Bool.false_and, Bool.and_false]
    simp [show ¬ (n = n - i) by omega]

lemma reverse_rem_processBit (c : CrcOptimal (n + 1)) (bit : Bool) :
    (c.processBit bit).rem.reverse =
      regStep c.truncPoly.reverse (c.rem.reverse ^^^ (BitVec.ofBool bit).setWidth (n + 1)) := by
  have hin : (if bit then c.rem ^^^ BitVec.twoPow (n + 1) n else c.rem).reverse =
      c.rem.reverse ^^^ (BitVec.ofBool bit).setWidth (n + 1) := by
    cases bit
    · simp
    · rw [if_pos rfl, reverse_xor, reverse_twoPow_top]
  rw [← hin]
  simp only [CrcOptimal.processBit, Nat.add_sub_cancel]
  generalize (if bit then c.rem ^^^ BitVec.twoPow (n + 1) n else c.rem) = r
  have htop : r.reverse.getLsbD 0 = r.getLsbD n := getLsbD_reverse r 0 (by omega)
  rw [regStep, htop]
  cases r.getLsbD n
  · simp [reverse_shiftLeft_one]
  · simp [reverse_shiftLeft_one, reverse_xor]

lemma reverse_rem_processByte (c : CrcOptimal (n + 1)) (hin : c.reflectIn = true) (b : UInt8) :
    (c.processByte b).rem.reverse = consume c.truncPoly.reverse c.rem.reverse b.toBitVec ∧
      (c.processByte b).truncPoly = c.truncPoly ∧ (c.processByte b).reflectIn = c.reflectIn ∧
      (c.processByte b).reflectRem = c.reflectRem ∧ (c.processByte b).finalXor = c.finalXor := by
  have hloop : ∀ k, k ≤ 8 →
      let c' := (range k).foldl
        (fun c i => c.processBit (b.toBitVec.reverse.getLsbD (7 - i))) c
      c'.rem.reverse = (range k).foldl (fun r i => regStep c.truncPoly.reverse
        (r ^^^ (BitVec.ofBool (b.toBitVec.getLsbD i)).setWidth (n + 1))) c.rem.reverse ∧
      c'.truncPoly = c.truncPoly ∧ c'.reflectIn = c.reflectIn ∧
      c'.reflectRem = c.reflectRem ∧ c'.finalXor = c.finalXor := by
    intro k
    induction k with
    | zero => intro _; exact ⟨rfl, rfl, rfl, rfl, rfl⟩
    | succ k ih =>
      intro hk
      obtain ⟨hrem, hpoly, hri, hrr, hfx⟩ := ih (by omega)
      simp only [range_succ, foldl_append, foldl_cons, foldl_nil]
      refine ⟨?_, hpoly, hri, hrr, hfx⟩
      rw [reverse_rem_processBit, hrem, hpoly, getLsbD_reverse _ _ (by omega)]
      congr 5
      omega
  have h := hloop 8 (le_refl 8)
  rw [CrcOptimal.processByte, hin]
  rw [hin] at h
  exact h

lemma checksum_processBytes (data : List UInt8) (c : CrcOptimal (n + 1))
    (hin : c.reflectIn = true) (hrem : c.reflectRem = true) (hxor : c.finalXor = 0) :
    (c.processBytes data).checksum = consumeBytes c.truncPoly.reverse c.rem.reverse data := by
  induction data generalizing c with
  | nil => simp [CrcOptimal.processBytes, CrcOptimal.checksum, consumeBytes, hrem, hxor]
  | cons b data ih =>
    obtain ⟨h₁, h₂, h₃, h₄, h₅⟩ := reverse_rem_processByte c hin b
    have htail := ih (c.processByte b) (h₃.trans hin) (h₄.trans hrem) (h₅.trans hxor)
    rw [h₁, h₂] at htail
    simp only [CrcOptimal.processBytes, consumeBytes, foldl_cons] at htail ⊢
    exact htail

def SwapMask (k : Nat) (m : BitVec 32) : Prop :=
  ∀ i < 32, if m.getLsbD i
    then i + k < 32 ∧ i ^^^ k = i + k ∧ (i < k ∨ m.getLsbD (i - k) = false)
    else k ≤ i ∧ i ^^^ k = i - k ∧ m.getLsbD (i - k) = true

instance (k : Nat) (m : BitVec 32) : Decidable (SwapMask k m) := by
  unfold SwapMask
  infer_instance

lemma getLsbD_maskedSwap {k : Nat} {m : BitVec 32} (hm : SwapMask k m) (s : BitVec 32)
    (i : Nat) (hi : i < 32) :
    (((s >>> k) &&& m) ||| ((s &&& m) <<< k)).getLsbD i = s.getLsbD (i ^^^ k) := by
  have h := hm i hi
  simp only [getLsbD_or, getLsbD_and, getLsbD_ushiftRight,
    getLsbD_shiftLeft, decide_eq_true hi, Bool.true_and]
  cases hmi : m.getLsbD i
  · rw [hmi, if_neg (by decide)] at h
    obtain ⟨hk, hx, hmk⟩ := h
    simp [hx, hmk, show ¬ i < k by omega]
  rw [hmi, if_pos rfl] at h
  obtain ⟨_, hx, hlo | hmk⟩ := h
  · simp [hx, hlo, add_comm]
  · simp [hx, hmk, add_comm]

lemma reverseBits_eq_reverse (s : BitVec 32) : reverseBits s = s.reverse := by
  have hlast : ∀ s : BitVec 32, (s >>> 16) ||| (s <<< 16) =
      ((s >>> 16) &&& 0x0000ffff#32) ||| ((s &&& 0x0000ffff#32) <<< 16) := by
    intro s
    apply eq_of_getLsbD_eq
    intro i hi
    have hmask : ∀ j < 32, (0x0000ffff#32).getLsbD j = decide (j < 16) := by decide
    simp only [getLsbD_or, getLsbD_and, getLsbD_ushiftRight,
      getLsbD_shiftLeft, hmask i hi, hmask (i - 16) (by omega)]
    by_cases h : i < 16
    · simp [h]
    · simp [h, getLsbD_of_ge s (16 + i) (by omega), show i - 16 < 16 by omega]
  apply eq_of_getLsbD_eq
  intro i hi
  have hindex : ∀ j < 32, j ^^^ 16 < 32 ∧ j ^^^ 8 < 32 ∧ j ^^^ 4 < 32 ∧ j ^^^ 2 < 32 ∧
      j ^^^ 16 ^^^ 8 ^^^ 4 ^^^ 2 ^^^ 1 = 31 - j := by decide
  simp only [reverseBits]
  rw [hlast, getLsbD_maskedSwap (by decide) _ i hi,
    getLsbD_maskedSwap (by decide) _ _ (hindex i hi).1,
    getLsbD_maskedSwap (by decide) _ _ (hindex _ (hindex i hi).1).2.1,
    getLsbD_maskedSwap (by decide) _ _ (hindex _ (hindex _ (hindex i hi).1).2.1).2.2.1,
    getLsbD_maskedSwap (by decide) _ _
      (hindex _ (hindex _ (hindex _ (hindex i hi).1).2.1).2.2.1).2.2.2.1,
    (hindex i hi).2.2.2.2, getLsbD_reverse _ i hi]

lemma crcSw_eq_consumeBytes (polynomial : BitVec 32) (data : List UInt8) (seed : BitVec 32) :
    crcSw polynomial data seed = consumeBytes polynomial.reverse seed data := by
  rw [crcSw, checksum_processBytes data _ rfl rfl rfl, reverseBits_eq_reverse, reverse_reverse]

lemma consumes_crcSw (polynomial : BitVec 32) (data : List UInt8) (seed : BitVec 32) :
    Consumes polynomial.reverse (regEval polynomial.reverse seed) data
      (regEval polynomial.reverse (crcSw polynomial data seed)) := by
  rw [crcSw_eq_consumeBytes]
  exact consumes_consumeBytes polynomial.reverse seed data

end Acc.Checksum
