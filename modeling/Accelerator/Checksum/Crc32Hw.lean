import Accelerator.Checksum.Software

namespace Acc.Checksum

open Gf2

def mmSetEpi32 (e3 e2 e1 e0 : BitVec 32) : BitVec 128 := e3 ++ e2 ++ e1 ++ e0

def half (v : BitVec 128) (high : Bool) : BitVec 64 :=
  if high then (v >>> 64).setWidth 64 else v.setWidth 64

def mmClmulepi64 (a b : BitVec 128) (imm : BitVec 8) : BitVec 128 :=
  clmul (half a (imm.getLsbD 0)) (half b (imm.getLsbD 4))

def mmSrliSi128 (v : BitVec 128) (bytes : Nat) : BitVec 128 := v >>> (8 * bytes)

def multipliers4 : BitVec 128 := mmSetEpi32 0 0x1D9513D7 0 0x8F352D95
def multipliers2 : BitVec 128 := mmSetEpi32 0 0x81256527 0 0xF1DA05AA
def multipliers1 : BitVec 128 := mmSetEpi32 0 0xCCAA009E 0 0xAE689191
def finalMultiplier : BitVec 128 := mmSetEpi32 0 0 0 0xB8BC6765
def mask32 : BitVec 128 := mmSetEpi32 0 0 0 0xFFFFFFFF
def barrettReductionConstants : BitVec 128 := mmSetEpi32 0x1 0xDB710641 0x1 0xF7011641

def foldInto (y x multipliers : BitVec 128) : BitVec 128 :=
  (y ^^^ mmClmulepi64 x multipliers 0x00) ^^^ mmClmulepi64 x multipliers 0x11

structure Quad where
  x0 : BitVec 128
  x1 : BitVec 128
  x2 : BitVec 128
  x3 : BitVec 128

def fold512 (p : Nat → BitVec 128) : Nat → Nat → Quad → Quad
  | 0, _, q => q
  | n + 1, i, q =>
    fold512 p n (i + 4)
      { x0 := foldInto (p i) q.x0 multipliers4
        x1 := foldInto (p (i + 1)) q.x1 multipliers4
        x2 := foldInto (p (i + 2)) q.x2 multipliers4
        x3 := foldInto (p (i + 3)) q.x3 multipliers4 }

def fold512To128 (q : Quad) : BitVec 128 :=
  let x2 := foldInto q.x2 q.x0 multipliers2
  let x3 := foldInto q.x3 q.x1 multipliers2
  foldInto x3 x2 multipliers1

def fold128 (p : Nat → BitVec 128) : Nat → Nat → BitVec 128 → BitVec 128
  | 0, _, x0 => x0
  | n + 1, i, x0 => fold128 p n (i + 1) (foldInto (p i) x0 multipliers1)

def foldTo64 (x0 : BitVec 128) : BitVec 128 :=
  let x0 := mmSrliSi128 x0 8 ^^^ mmClmulepi64 x0 multipliers1 0x10
  mmSrliSi128 x0 4 ^^^ mmClmulepi64 (x0 &&& mask32) finalMultiplier 0x00

def barrett (x0 : BitVec 128) : BitVec 32 :=
  let x1 := x0
  let x0 := mmClmulepi64 (x0 &&& mask32) barrettReductionConstants 0x00
  let x0 := mmClmulepi64 (x0 &&& mask32) barrettReductionConstants 0x10
  (mmSrliSi128 (x0 ^^^ x1) 4).setWidth 32

def crc32HwAligned (remainder : BitVec 32) (p : Nat → BitVec 128) (vecCount : Nat) : BitVec 32 :=
  let end512 := vecCount >>> 2 <<< 2
  let x0 := p 0 ^^^ mmSetEpi32 0 0 0 remainder
  let (x0, i) :=
    if 1 > end512 then (x0, 1)
    else
      let q := fold512 p ((end512 - 4) / 4) 4 ⟨x0, p 1, p 2, p 3⟩
      (fold512To128 q, end512)
  barrett (foldTo64 (fold128 p (vecCount - i) i x0))

def crc32Hw (addr : BitVec 64) (data : List UInt8) (startingChecksum : BitVec 32) : BitVec 32 :=
  let sum := startingChecksum
  let offset := 0
  let nbytes := data.length
  let (sum, offset, nbytes) :=
    if addr &&& 15#64 ≠ 0 then
      let limit := min nbytes ((-addr) &&& 15#64).toNat
      (crc32Sw (slice data 0 limit) sum, offset + limit, nbytes - limit)
    else (sum, offset, nbytes)
  let (sum, offset, nbytes) :=
    if 16 ≤ nbytes then
      (crc32HwAligned sum (fun i => load 128 data (offset + 16 * i) 16) (nbytes / 16),
        offset + nbytes / 16 * 16, nbytes % 16)
    else (sum, offset, nbytes)
  crc32Sw (slice data offset nbytes) sum

def crc32Reflected : BitVec 32 := 0xEDB88320#32

lemma reverse_crc32Polynomial : crc32Polynomial.reverse = crc32Reflected := by
  rw [← reverseBits_eq_reverse]
  decide

lemma crc32Reflected_top : crc32Reflected.getLsbD 31 = true := by decide

noncomputable abbrev val {n : Nat} (v : BitVec n) : RegRing crc32Reflected :=
  regEval crc32Reflected v

noncomputable abbrev xGen : RegRing crc32Reflected := regGen crc32Reflected

variable {n k : Nat}

lemma val_xor (u v : BitVec n) : val (u ^^^ v) = val u + val v := bitEval_xor _ _ _

lemma val_split (v : BitVec n) (s : Nat) :
    xGen ^ s * val v = xGen ^ s * val (v.setWidth s) + val (v >>> s) := by
  have hsplit : val v = val (v.setWidth s) + regRoot crc32Reflected ^ s * val (v >>> s) :=
    bitEval_split _ v s
  rw [hsplit, mul_add, gen_pow_mul_root_pow]

lemma val_half_true (v : BitVec 128) : val (half v true) = val (v >>> 64) := by
  have hhalf : half v true = (v >>> 64).setWidth 64 := rfl
  rw [hhalf]
  refine bitEval_setWidth _ 64 _ fun i hi => ?_
  rw [BitVec.getLsbD_ushiftRight, BitVec.getLsbD_of_ge v _ (by omega)]

lemma val_clmul (a b : BitVec 128) (imm : BitVec 8) : val (mmClmulepi64 a b imm) =
    val (half a (imm.getLsbD 0)) * val (half b (imm.getLsbD 4)) :=
  bitEval_clmul _ _ _

lemma val_eq_pow {u : BitVec 64} (h : regStepsNat crc32Reflected.toNat 0 u.toNat =
      regStepsNat crc32Reflected.toNat (0 + k) (1#64).toNat) : val u = xGen ^ k := by
  have hk := regEval_eq_of_regStepsNat (by omega) h
  rwa [regEval_one, mul_one] at hk

structure Folds (m : BitVec 128) (k : Nat) : Prop where
  lo : val (half m false) = xGen ^ (k + 64)
  hi : val (half m true) = xGen ^ k

set_option maxRecDepth 4000 in
lemma folds_multipliers4 : Folds multipliers4 448 :=
  ⟨val_eq_pow (by decide), val_eq_pow (by decide)⟩

set_option maxRecDepth 4000 in
lemma folds_multipliers2 : Folds multipliers2 192 :=
  ⟨val_eq_pow (by decide), val_eq_pow (by decide)⟩

set_option maxRecDepth 4000 in
lemma folds_multipliers1 : Folds multipliers1 64 :=
  ⟨val_eq_pow (by decide), val_eq_pow (by decide)⟩

lemma val_finalMultiplier : val (half finalMultiplier false) = xGen ^ 32 :=
  val_eq_pow (by decide)

lemma val_foldInto {m : BitVec 128} (hm : Folds m k) (y x : BitVec 128) :
    val (foldInto y x m) = val y + xGen ^ (k + 64) * val x := by
  have hx := val_split x 64
  have hlo : half x false = x.setWidth 64 := rfl
  have h00 : val (mmClmulepi64 x m 0x00) = val (half x false) * val (half m false) :=
    val_clmul x m 0x00
  have h11 : val (mmClmulepi64 x m 0x11) = val (half x true) * val (half m true) :=
    val_clmul x m 0x11
  rw [foldInto, val_xor, val_xor, h00, h11, hm.lo, hm.hi, val_half_true, hlo, pow_add]
  linear_combination -xGen ^ k * hx

section Vectors

variable {data : List UInt8} {off : Nat}

def vec (data : List UInt8) (off i : Nat) : BitVec 128 := load 128 data (off + 16 * i) 16

variable {a b : RegRing crc32Reflected}

lemma consumes_vec {i : Nat} (hi : off + 16 * (i + 1) ≤ data.length)
    (h : Consumes crc32Reflected a (slice data off (16 * i)) b) :
    Consumes crc32Reflected a (slice data off (16 * (i + 1)))
      (xGen ^ 128 * (b + val (vec data off i))) := by
  have hword : Consumes crc32Reflected b (slice data (off + 16 * i) 16)
      (xGen ^ 128 * (b + val (vec data off i))) := by
    refine Consumes.word (eval_load _ (by omega) (le_refl _)) ?_
    rw [length_slice (by omega)]
    rfl
  have hall := h.append hword
  rwa [slice_append] at hall

lemma consumes_fold128 (n i : Nat) (x0 : BitVec 128) (hlen : off + 16 * (i + n) ≤ data.length)
    (h : Consumes crc32Reflected a (slice data off (16 * i)) (xGen ^ 128 * val x0)) :
    Consumes crc32Reflected a (slice data off (16 * (i + n)))
      (xGen ^ 128 * val (fold128 (vec data off) n i x0)) := by
  induction n generalizing i x0 with
  | zero => exact h
  | succ n ih =>
    have hfold : val (foldInto (vec data off i) x0 multipliers1) =
        xGen ^ 128 * val x0 + val (vec data off i) := by
      rw [val_foldInto folds_multipliers1, add_comm]
    have hstep := consumes_vec (by omega) h
    rw [← hfold] at hstep
    rw [show i + (n + 1) = i + 1 + n by omega, fold128]
    exact ih (i + 1) _ (by omega) hstep

noncomputable def Quad.pending (q : Quad) : RegRing crc32Reflected :=
  xGen ^ 512 * val q.x0 + xGen ^ 384 * val q.x1 + xGen ^ 256 * val q.x2 + xGen ^ 128 * val q.x3

lemma consumes_quad {i : Nat} (hi : off + 16 * (i + 4) ≤ data.length)
    (h : Consumes crc32Reflected a (slice data off (16 * i)) b) :
    Consumes crc32Reflected a (slice data off (16 * (i + 4))) (xGen ^ 512 * b + Quad.pending
        ⟨vec data off i, vec data off (i + 1), vec data off (i + 2), vec data off (i + 3)⟩) := by
  have h4 := consumes_vec (by omega) (consumes_vec (by omega) (consumes_vec (by omega)
    (consumes_vec (by omega) h)))
  rw [Quad.pending]
  convert h4 using 1
  ring

lemma consumes_fold512 (n i : Nat) (q : Quad) (hlen : off + 16 * (i + 4 * n) ≤ data.length)
    (h : Consumes crc32Reflected a (slice data off (16 * i)) q.pending) :
    Consumes crc32Reflected a (slice data off (16 * (i + 4 * n)))
      (fold512 (vec data off) n i q).pending := by
  induction n generalizing i q with
  | zero => exact h
  | succ n ih =>
    have hstep := consumes_quad (by omega) h
    rw [show i + 4 * (n + 1) = i + 4 + 4 * n by omega, fold512]
    refine ih (i + 4) _ (by omega) ?_
    convert hstep using 1
    simp only [Quad.pending, val_foldInto folds_multipliers4]
    ring

lemma val_fold512To128 (q : Quad) : xGen ^ 128 * val (fold512To128 q) = q.pending := by
  simp only [fold512To128, Quad.pending, val_foldInto folds_multipliers1,
    val_foldInto folds_multipliers2]
  ring

end Vectors

lemma and_mask32 (v : BitVec 128) : v &&& mask32 = (v.setWidth 32).setWidth 128 := by
  have hmask : mask32 = (BitVec.allOnes 32).setWidth 128 := by decide
  apply BitVec.eq_of_getLsbD_eq
  intro i hi
  rw [hmask, BitVec.getLsbD_and, BitVec.getLsbD_setWidth, BitVec.getLsbD_setWidth,
    BitVec.getLsbD_setWidth, BitVec.getLsbD_allOnes]
  by_cases h : i < 32 <;> simp [h, hi]

lemma half_and_mask32 (v : BitVec 128) :
    half (v &&& mask32) false = (v.setWidth 32).setWidth 64 := by
  rw [and_mask32]
  exact BitVec.setWidth_setWidth_of_le _ (show 64 ≤ 128 by omega)

lemma val_low32 (v : BitVec 32) : val (v.setWidth 64) = val v :=
  bitEval_zeroExtend _ _ (by omega)

lemma val_foldTo64 (x0 : BitVec 128) :
    val (foldTo64 x0) = xGen ^ 96 * val x0 ∧ FitsIn 64 (foldTo64 x0) := by
  set y := mmSrliSi128 x0 8 ^^^ mmClmulepi64 x0 multipliers1 0x10 with hy
  have hclmul : val (mmClmulepi64 x0 multipliers1 0x10) =
      val (half x0 false) * val (half multipliers1 true) := val_clmul x0 multipliers1 0x10
  have hyval : val y = xGen ^ 64 * val x0 := by
    have hshift : mmSrliSi128 x0 8 = x0 >>> 64 := rfl
    have hlow : half x0 false = x0.setWidth 64 := rfl
    rw [hy, val_xor, hclmul, folds_multipliers1.hi, val_split x0 64, hshift, hlow]
    ring
  have hyfits : FitsIn 96 y := by
    have hmul : FitsIn 32 (half multipliers1 true) :=
      fitsIn_of_ushiftRight (by decide)
    have hprod : FitsIn 96 (clmul (half x0 false) (half multipliers1 true)) :=
      FitsIn.clmul (fitsIn_width _) hmul (by omega)
    have hshift : FitsIn 96 (x0 >>> 64) := ((fitsIn_width x0).shift (k := 64)).mono (by omega)
    exact hshift.xor hprod
  have hdef : foldTo64 x0 = y >>> 32 ^^^
      clmul ((y.setWidth 32).setWidth 64) (half finalMultiplier false) := by
    rw [← half_and_mask32]
    rfl
  rw [hdef]
  constructor
  · have hprod : val (clmul ((y.setWidth 32).setWidth 64) (half finalMultiplier false)) =
        val ((y.setWidth 32).setWidth 64) * val (half finalMultiplier false) :=
      bitEval_clmul _ _ _
    rw [val_xor, hprod, val_low32, val_finalMultiplier]
    have hs := val_split y 32
    rw [hyval] at hs
    linear_combination -hs
  · have hmul : FitsIn 32 (half finalMultiplier false) :=
      fitsIn_of_ushiftRight (by decide)
    exact (FitsIn.shift hyfits).xor (FitsIn.clmul (fitsIn_setWidth _ 64) hmul (by omega))

lemma val_generator : val (half barrettReductionConstants true) = 0 := by
  have h : regStepsNat crc32Reflected.toNat 1 (half barrettReductionConstants true).toNat =
      regStepsNat crc32Reflected.toNat (1 + 0) (0#64).toNat := by decide
  have hk := regEval_eq_of_regStepsNat (by omega) h
  rw [pow_zero, one_mul] at hk
  exact hk.trans (bitEval_zero _ _)

lemma barrett_inverse : (clmul (half barrettReductionConstants false)
      (half barrettReductionConstants true)).setWidth 32 = (1 : BitVec 33).setWidth 32 := by
  decide

lemma val_barrett {x0 : BitVec 128} (h : FitsIn 64 x0) : val (barrett x0) = xGen ^ 32 * val x0 := by
  set mu := half barrettReductionConstants false with hmu
  set g := half barrettReductionConstants true with hg
  set t := (clmul ((x0.setWidth 32).setWidth 64) mu).setWidth 32 with ht
  have hdef : barrett x0 = ((clmul (t.setWidth 64) g ^^^ x0) >>> 32).setWidth 32 := by
    rw [ht, ← half_and_mask32, ← half_and_mask32]
    rfl
  have hlow : (clmul (t.setWidth 64) g ^^^ x0).setWidth 32 = 0 := by
    have hinv := clmul_truncated_inverse (show 32 ≤ 64 by omega) (x0.setWidth 32) mu g
      barrett_inverse
    rw [BitVec.setWidth_xor, ht, hinv, BitVec.xor_self]
    rfl
  have hval : val (clmul (t.setWidth 64) g ^^^ x0) = val x0 := by
    have hprod : val (clmul (t.setWidth 64) g) = val (t.setWidth 64) * val g :=
      bitEval_clmul _ _ _
    rw [val_xor, hprod, val_generator, mul_zero, zero_add]
  have hfits : FitsIn 32 ((clmul (t.setWidth 64) g ^^^ x0) >>> 32) := by
    have hg33 : FitsIn 33 g := fitsIn_of_ushiftRight (by decide)
    exact FitsIn.shift ((FitsIn.clmul (fitsIn_setWidth t 64) hg33 (by omega)).xor h)
  have hcut : val (((clmul (t.setWidth 64) g ^^^ x0) >>> 32).setWidth 32) =
      val ((clmul (t.setWidth 64) g ^^^ x0) >>> 32) := bitEval_setWidth _ 32 _ hfits
  have hsplit := val_split (clmul (t.setWidth 64) g ^^^ x0) 32
  have hzero : val (0 : BitVec 32) = 0 := bitEval_zero _ _
  rw [hlow, hval, hzero, mul_zero, zero_add] at hsplit
  rw [hdef, hcut, hsplit]

lemma val_remainder (remainder : BitVec 32) :
    val (mmSetEpi32 0 0 0 remainder) = val remainder := by
  have happ : val (mmSetEpi32 0 0 0 remainder) =
      val remainder + regRoot crc32Reflected ^ 32 * val (0#32 ++ 0#32 ++ 0#32) :=
    bitEval_append _ _ _
  have hzero : val (0#32 ++ 0#32 ++ 0#32) = 0 := by
    exact bitEval_zero _ _
  rw [happ, hzero, mul_zero, add_zero]

lemma consumes_crc32HwAligned {data : List UInt8} {off count : Nat} (hcount : 1 ≤ count)
    (hlen : off + 16 * count ≤ data.length) (remainder : BitVec 32) :
    Consumes crc32Reflected (val remainder) (slice data off (16 * count))
      (val (crc32HwAligned remainder (vec data off) count)) := by
  set x0 := vec data off 0 ^^^ mmSetEpi32 0 0 0 remainder with hx0
  have hval : val x0 = val remainder + val (vec data off 0) := by
    rw [hx0, val_xor, val_remainder, add_comm]
  have hnone : Consumes crc32Reflected (val remainder) (slice data off (16 * 0))
      (val remainder) := by
    exact Consumes.refl _
  suffices hfold : ∀ i x, i ≤ count →
      Consumes crc32Reflected (val remainder) (slice data off (16 * i)) (xGen ^ 128 * val x) →
      Consumes crc32Reflected (val remainder) (slice data off (16 * count))
        (val (barrett (foldTo64 (fold128 (vec data off) (count - i) i x)))) by
    rw [crc32HwAligned]
    simp only [← hx0]
    have hshift : count >>> 2 <<< 2 = count / 4 * 4 := by
      rw [Nat.shiftRight_eq_div_pow, Nat.shiftLeft_eq]
    rw [hshift]
    split
    · refine hfold 1 x0 hcount ?_
      rw [hval]
      exact consumes_vec (by omega) hnone
    have hquad : Consumes crc32Reflected (val remainder) (slice data off (16 * 4))
        (Quad.pending ⟨x0, vec data off 1, vec data off 2, vec data off 3⟩) := by
      convert consumes_quad (by omega) hnone using 1
      simp only [Quad.pending, hval]
      ring
    have h512 := consumes_fold512 ((count / 4 * 4 - 4) / 4) 4 _ (by omega) hquad
    rw [show 4 + 4 * ((count / 4 * 4 - 4) / 4) = count / 4 * 4 by omega] at h512
    refine hfold (count / 4 * 4) _ (by omega) ?_
    rw [val_fold512To128]
    exact h512
  intro i x hi hx
  have hall := consumes_fold128 (count - i) i x (by omega) hx
  obtain ⟨h64, hfits⟩ := val_foldTo64 (fold128 (vec data off) (count - i) i x)
  rw [val_barrett hfits, h64]
  rw [show i + (count - i) = count by omega] at hall
  convert hall using 1
  ring

def Seam (data : List UInt8) (seed : BitVec 32) (s : BitVec 32 × Nat × Nat) : Prop :=
  Consumes crc32Reflected (val seed) (slice data 0 s.2.1) (val s.1) ∧
    s.2.1 + s.2.2 = data.length

lemma consumes_crc32Sw (data : List UInt8) (seed : BitVec 32) :
    Consumes crc32Reflected (val seed) data (val (crc32Sw data seed)) := by
  have h := consumes_crcSw crc32Polynomial data seed
  rw [reverse_crc32Polynomial] at h
  exact h

lemma seam_head (addr : BitVec 64) (data : List UInt8) (seed : BitVec 32) : Seam data seed
      (if addr &&& 15#64 ≠ 0 then
        let limit := min data.length ((-addr) &&& 15#64).toNat
        (crc32Sw (slice data 0 limit) seed, 0 + limit, data.length - limit)
      else (seed, 0, data.length)) := by
  split
  · simp only [Seam, Nat.zero_add]
    exact ⟨consumes_crc32Sw _ _, by omega⟩
  · refine ⟨?_, Nat.zero_add _⟩
    exact Consumes.refl _

lemma seam_middle {data : List UInt8} {seed sum : BitVec 32} {offset nbytes : Nat}
    (h : Seam data seed (sum, offset, nbytes)) : Seam data seed (if 16 ≤ nbytes then
        (crc32HwAligned sum (fun i => load 128 data (offset + 16 * i) 16) (nbytes / 16),
          offset + nbytes / 16 * 16, nbytes % 16)
      else (sum, offset, nbytes)) := by
  obtain ⟨hsum, hlen⟩ := h
  simp only at hsum hlen
  split
  · have hvec := consumes_crc32HwAligned (show 1 ≤ nbytes / 16 by omega)
      (show offset + 16 * (nbytes / 16) ≤ data.length by omega) sum
    have hall := hsum.append hvec
    have hjoin := slice_append data 0 offset (16 * (nbytes / 16))
    rw [Nat.zero_add] at hjoin
    rw [hjoin, mul_comm 16] at hall
    exact ⟨hall, by simp only; omega⟩
  · exact ⟨hsum, hlen⟩

lemma consumes_crc32Hw (addr : BitVec 64) (data : List UInt8) (seed : BitVec 32) :
    Consumes crc32Reflected (val seed) data (val (crc32Hw addr data seed)) := by
  have hhead := seam_head addr data seed
  rw [crc32Hw]
  generalize (if addr &&& 15#64 ≠ 0 then _ else _ : BitVec 32 × Nat × Nat) = s at hhead ⊢
  obtain ⟨sum, offset, nbytes⟩ := s
  have hmid := seam_middle hhead
  simp only
  generalize (if 16 ≤ nbytes then _ else _ : BitVec 32 × Nat × Nat) = s at hmid ⊢
  obtain ⟨sum, offset, nbytes⟩ := s
  obtain ⟨hsum, hlen⟩ := hmid
  have hall := hsum.append (consumes_crc32Sw (slice data offset nbytes) sum)
  have hjoin := slice_append data 0 offset nbytes
  rw [Nat.zero_add] at hjoin
  rwa [hjoin, hlen, slice_all] at hall

theorem crc32Hw_eq_crc32Sw (addr : BitVec 64) (data : List UInt8) (seed : BitVec 32) :
    crc32Hw addr data seed = crc32Sw data seed ∧
      crc32Sw data seed = consumeBytes crc32Polynomial.reverse seed data := by
  refine ⟨?_, crcSw_eq_consumeBytes _ _ _⟩
  exact Consumes.unique crc32Reflected_top (consumes_crc32Hw addr data seed)
    (consumes_crc32Sw data seed)

end Acc.Checksum
