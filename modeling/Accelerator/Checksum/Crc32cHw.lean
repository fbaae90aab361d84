import Accelerator.Checksum.Software

namespace Acc.Checksum

open Gf2 List

def crc32Instr {n : Nat} (dest : BitVec 32) (src : BitVec n) : BitVec 32 :=
  let temp1 := src.reverse
  let temp2 := dest.reverse
  let temp3 := temp1.setWidth (n + 32) <<< 32
  let temp4 := temp2.setWidth (n + 32) <<< n
  (polyMod crc32cPolynomial (temp3 ^^^ temp4)).reverse

def crc32U64 (crc v : BitVec 64) : BitVec 64 :=
  (crc32Instr (crc.setWidth 32) v).setWidth 64

def load64 (data : List UInt8) (off : Nat) : BitVec 64 := load 64 data off 8

def clmulConstants : List (BitVec 64 × BitVec 64) :=
  [(0x14cd00bd6, 0x105ec76f0), (0x0ba4fc28e, 0x14cd00bd6),
  (0x1d82c63da, 0x0f20c0dfe), (0x09e4addf8, 0x0ba4fc28e),
  (0x039d3b296, 0x1384aa63a), (0x102f9b8a2, 0x1d82c63da),
  (0x14237f5e6, 0x01c291d04), (0x00d3b6092, 0x09e4addf8),
  (0x0c96cfdc0, 0x0740eef02), (0x18266e456, 0x039d3b296),
  (0x0daece73e, 0x0083a6eec), (0x0ab7aff2a, 0x102f9b8a2),
  (0x1248ea574, 0x1c1733996), (0x083348832, 0x14237f5e6),
  (0x12c743124, 0x02ad91c30), (0x0b9e02b86, 0x00d3b6092),
  (0x018b33a4e, 0x06992cea2), (0x1b331e26a, 0x0c96cfdc0),
  (0x17d35ba46, 0x07e908048), (0x1bf2e8b8a, 0x18266e456),
  (0x1a3e0968a, 0x11ed1f9d8), (0x0ce7f39f4, 0x0daece73e),
  (0x061d82e56, 0x0f1d0f55e), (0x0d270f1a2, 0x0ab7aff2a),
  (0x1c3f5f66c, 0x0a87ab8a8), (0x12ed0daac, 0x1248ea574),
  (0x065863b64, 0x08462d800), (0x11eef4f8e, 0x083348832),
  (0x1ee54f54c, 0x071d111a8), (0x0b3e32c28, 0x12c743124),
  (0x0064f7f26, 0x0ffd852c6), (0x0dd7e3b0c, 0x0b9e02b86),
  (0x0f285651c, 0x0dcb17aa4), (0x010746f3c, 0x018b33a4e),
  (0x1c24afea4, 0x0f37c5aee), (0x0271d9844, 0x1b331e26a),
  (0x08e766a0c, 0x06051d5a2), (0x093a5f730, 0x17d35ba46),
  (0x06cb08e5c, 0x11d5ca20e), (0x06b749fb2, 0x1bf2e8b8a),
  (0x1167f94f2, 0x021f3d99c), (0x0cec3662e, 0x1a3e0968a),
  (0x19329634a, 0x08f158014), (0x0e6fc4e6a, 0x0ce7f39f4),
  (0x08227bb8a, 0x1a5e82106), (0x0b0cd4768, 0x061d82e56),
  (0x13c2b89c4, 0x188815ab2), (0x0d7a4825c, 0x0d270f1a2),
  (0x10f5ff2ba, 0x105405f3e), (0x00167d312, 0x1c3f5f66c),
  (0x0f6076544, 0x0e9adf796), (0x026f6a60a, 0x12ed0daac),
  (0x1a2adb74e, 0x096638b34), (0x19d34af3a, 0x065863b64),
  (0x049c3cc9c, 0x1e50585a0), (0x068bce87a, 0x11eef4f8e),
  (0x1524fa6c6, 0x19f1c69dc), (0x16cba8aca, 0x1ee54f54c),
  (0x042d98888, 0x12913343e), (0x1329d9f7e, 0x0b3e32c28),
  (0x1b1c69528, 0x088f25a3a), (0x02178513a, 0x0064f7f26),
  (0x0e0ac139e, 0x04e36f0b0), (0x0170076fa, 0x0dd7e3b0c),
  (0x141a1a2e2, 0x0bd6f81f8), (0x16ad828b4, 0x0f285651c),
  (0x041d17b64, 0x19425cbba), (0x1fae1cc66, 0x010746f3c),
  (0x1a75b4b00, 0x18db37e8a), (0x0f872e54c, 0x1c24afea4),
  (0x01e41e9fc, 0x04c144932), (0x086d8e4d2, 0x0271d9844),
  (0x160f7af7a, 0x052148f02), (0x05bb8f1bc, 0x08e766a0c),
  (0x0a90fd27a, 0x0a3c6f37a), (0x0b3af077a, 0x093a5f730),
  (0x04984d782, 0x1d22c238e), (0x0ca6ef3ac, 0x06cb08e5c),
  (0x0234e0b26, 0x063ded06a), (0x1d88abd4a, 0x06b749fb2),
  (0x04597456a, 0x04d56973c), (0x0e9e28eb4, 0x1167f94f2),
  (0x07b3ff57a, 0x19385bf2e), (0x0c9c8b782, 0x0cec3662e),
  (0x13a9cba9e, 0x0e417f38a), (0x093e106a4, 0x19329634a),
  (0x167001a9c, 0x14e727980), (0x1ddffc5d4, 0x0e6fc4e6a),
  (0x00df04680, 0x0d104b8fc), (0x02342001e, 0x08227bb8a),
  (0x00a2a8d7e, 0x05b397730), (0x168763fa6, 0x0b0cd4768),
  (0x1ed5a407a, 0x0e78eb416), (0x0d2c3ed1a, 0x13c2b89c4),
  (0x0995a5724, 0x1641378f0), (0x19b1afbc4, 0x0d7a4825c),
  (0x109ffedc0, 0x08d96551c), (0x0f2271e60, 0x10f5ff2ba),
  (0x00b0bf8ca, 0x00bf80dd2), (0x123888b7a, 0x00167d312),
  (0x1e888f7dc, 0x18dcddd1c), (0x002ee03b2, 0x0f6076544),
  (0x183e8d8fe, 0x06a45d2b2), (0x133d7a042, 0x026f6a60a),
  (0x116b0f50c, 0x1dd3e10e8), (0x05fabe670, 0x1a2adb74e),
  (0x130004488, 0x0de87806c), (0x000bcf5f6, 0x19d34af3a),
  (0x18f0c7078, 0x014338754), (0x017f27698, 0x049c3cc9c),
  (0x058ca5f00, 0x15e3e77ee), (0x1af900c24, 0x068bce87a),
  (0x0b5cfca28, 0x0dd07448e), (0x0ded288f8, 0x1524fa6c6),
  (0x059f229bc, 0x1d8048348), (0x06d390dec, 0x16cba8aca),
  (0x037170390, 0x0a3e3e02c), (0x06353c1cc, 0x042d98888),
  (0x0c4584f5c, 0x0d73c7bea), (0x1f16a3418, 0x1329d9f7e),
  (0x0531377e2, 0x185137662), (0x1d8d9ca7c, 0x1b1c69528),
  (0x0b25b29f2, 0x18a08b5bc), (0x19fb2a8b0, 0x02178513a),
  (0x1a08fe6ac, 0x1da758ae0), (0x045cddf4e, 0x0e0ac139e),
  (0x1a91647f2, 0x169cf9eb0), (0x1a0f717c4, 0x0170076fa)]

def combineCRC (data : List UInt8) (blockSize : Nat) (crc0 crc1 crc2 : BitVec 64)
    (next2 : Nat) : BitVec 64 :=
  let multiplier := clmulConstants.getD (blockSize - 1) (0, 0)
  let res0 := clmul crc0 multiplier.1
  let res1 := clmul crc1 multiplier.2
  let res := res0 ^^^ res1
  let crc0 := res.setWidth 64
  let crc0 := crc0 ^^^ load64 data (next2 - 8)
  crc32U64 crc2 crc0

def alignPart (data : List UInt8) (align bytes : Nat) (s : BitVec 32 × Nat) : BitVec 32 × Nat :=
  if align &&& bytes ≠ 0 then
    (crc32Instr s.1 (load (8 * bytes) data s.2 bytes), s.2 + bytes)
  else s

def alignTo8 (data : List UInt8) (align : Nat) (crc0 : BitVec 64) (next : Nat) :
    BitVec 64 × Nat :=
  let s := alignPart data align 0x04 (crc0.setWidth 32, next)
  let s := alignPart data align 0x02 s
  let s := alignPart data align 0x01 s
  (s.1.setWidth 64, s.2)

structure Streams where
  crc0 : BitVec 64
  crc1 : BitVec 64
  crc2 : BitVec 64

def tripletRun (data : List UInt8) (next0 next1 next2 : Nat) : Nat → Streams → Streams
  | k + 2, s =>
    tripletRun data next0 next1 next2 (k + 1)
      { crc0 := crc32U64 s.crc0 (load64 data (next0 - 8 * (k + 2)))
        crc1 := crc32U64 s.crc1 (load64 data (next1 - 8 * (k + 2)))
        crc2 := crc32U64 s.crc2 (load64 data (next2 - 8 * (k + 2))) }
  | _, s => s

def tripletBlock (data : List UInt8) (blockSize : Nat) (crc0 : BitVec 64)
    (next0 next1 next2 : Nat) : BitVec 64 :=
  let s := tripletRun data next0 next1 next2 blockSize ⟨crc0, 0, 0⟩
  let crc0 := crc32U64 s.crc0 (load64 data (next0 - 8))
  let crc1 := crc32U64 s.crc1 (load64 data (next1 - 8))
  combineCRC data blockSize crc0 crc1 s.crc2 next2

def tripletBlocks (data : List UInt8) : Nat → Nat → BitVec 64 → Nat → Nat → Nat →
    BitVec 64 × Nat
  | 0, blockSize, crc0, next0, next1, next2 =>
    (tripletBlock data blockSize crc0 next0 next1 next2, next2)
  | n + 1, blockSize, crc0, next0, next1, next2 =>
    let crc0 := tripletBlock data blockSize crc0 next0 next1 next2
    let next0' := next2 + 8 * 128
    let next1' := next0' + 8 * 128
    let next2' := next1' + 8 * 128
    tripletBlocks data n 128 crc0 next0' next1' next2'

def tripletLoop (data : List UInt8) (blockSize : Nat) (crc0 : BitVec 64) (next n : Nat) :
    BitVec 64 × Nat :=
  let next0 := next + 8 * blockSize
  let next1 := next0 + 8 * blockSize
  let next2 := next1 + 8 * blockSize
  if 1 ≤ blockSize ∧ blockSize ≤ 128 then
    tripletBlocks data (n - 1) blockSize crc0 next0 next1 next2
  else (crc0, next2)

def singletRun (data : List UInt8) (next : Nat) : Nat → BitVec 64 → BitVec 64
  | 0, crc0 => crc0
  | k + 1, crc0 => singletRun data next k (crc32U64 crc0 (load64 data (next - 8 * (k + 1))))

def crc32cHw (addr : BitVec 64) (data : List UInt8) (crc : BitVec 32) : BitVec 32 :=
  let len := data.length
  let next := 0
  let crc0 : BitVec 64 := crc.setWidth 64
  let (crc0, next, len) :=
    if 8 ≤ len then
      let (crc0, next, len) :=
        if 216 < len then
          let align := ((8#64 - addr) &&& 7#64).toNat
          let (crc0, next) := alignTo8 data align crc0 next
          let len := len - align
          let count := len / 24
          let len := len % 24
          let n := count >>> 7
          let blockSize := count &&& 127
          let (blockSize, n) := if blockSize = 0 then (128, n) else (blockSize, n + 1)
          let (crc0, next) := tripletLoop data blockSize crc0 next n
          (crc0, next, len)
        else (crc0, next, len)
      let count2 := len >>> 3
      let len := len &&& 7
      let next := next + count2 * 8
      let crc0 := if count2 ≤ 27 then singletRun data next count2 crc0 else crc0
      (crc0, next, len)
    else (crc0, next, len)
  (alignTo8 data len crc0 next).1.setWidth 32

def crc32cReflected : BitVec 32 := 0x82F63B78#32

lemma reverse_crc32cPolynomial : crc32cPolynomial.reverse = crc32cReflected := by
  rw [← reverseBits_eq_reverse]
  decide

lemma crc32cReflected_top : crc32cReflected.getLsbD 31 = true := by decide

variable {n off next k : Nat}

lemma eval_crc32Instr (dest : BitVec 32) (src : BitVec (n + 1)) :
    regEval crc32cReflected (crc32Instr dest src) = regGen crc32cReflected ^ (n + 1) *
      (regEval crc32cReflected dest + regEval crc32cReflected src) := by
  set p := crc32cReflected with hp
  have hpoly : crc32cPolynomial = p.reverse := by
    simp [hp, ← reverse_crc32cPolynomial]
  have hinv := root_mul_gen p
  set t3 := src.reverse.setWidth (n + 1 + 32) <<< 32
  set t4 := dest.reverse.setWidth (n + 1 + 32) <<< (n + 1)
  have h3 : bitEval (regGen p) t3 = regGen p ^ 32 * (regGen p ^ n * regEval p src) := by
    rw [bitEval_shiftLeft, bitEval_zeroExtend _ _ (by omega), bitEval_reverse hinv]
    · rfl
    · intro i hi
      rw [BitVec.getLsbD_setWidth, BitVec.getLsbD_of_ge _ i (by omega), Bool.and_false]
  have h4 : bitEval (regGen p) t4 = regGen p ^ (n + 1) * (regGen p ^ 31 * regEval p dest) := by
    rw [bitEval_shiftLeft, bitEval_zeroExtend _ _ (by omega), bitEval_reverse hinv]
    · rfl
    · intro i hi
      rw [BitVec.getLsbD_setWidth, BitVec.getLsbD_of_ge _ i (by omega), Bool.and_false]
  have hmod : bitEval (regGen p) (polyMod p.reverse (t3 ^^^ t4)) =
      bitEval (regGen p) t3 + bitEval (regGen p) t4 := by
    rw [eval_polyMod (eval_reverse_gen p), bitEval_xor]
  have hres : regGen p ^ 31 * regEval p (crc32Instr dest src) =
      bitEval (regGen p) (polyMod p.reverse (t3 ^^^ t4)) := by
    have h := bitEval_reverse hinv (crc32Instr dest src)
    rw [crc32Instr, reverse_reverse, hpoly] at h
    rw [crc32Instr, hpoly]
    exact h.symm
  apply gen_pow_cancel p 31
  rw [hres, hmod, h3, h4]
  ring

variable {c : BitVec 64}

lemma eval_low (hc : FitsIn 32 c) :
    regEval crc32cReflected (c.setWidth 32) = regEval crc32cReflected c :=
  bitEval_setWidth _ _ _ hc

lemma eval_extend (c : BitVec 32) :
    regEval crc32cReflected (c.setWidth 64) = regEval crc32cReflected c :=
  bitEval_zeroExtend _ _ (by omega)

structure Runs (c : BitVec 64) (s : List UInt8) (c' : BitVec 64) : Prop where
  consumes : Consumes crc32cReflected (regEval _ c) s (regEval _ c')
  fits : FitsIn 32 c'

lemma Runs.append {c' c'' : BitVec 64} {s t : List UInt8} (h : Runs c s c')
    (h' : Runs c' t c'') : Runs c (s ++ t) c'' :=
  ⟨h.consumes.append h'.consumes, h'.fits⟩

lemma eval_crc32U64 (hc : FitsIn 32 c) (v : BitVec 64) :
    regEval crc32cReflected (crc32U64 c v) = regGen crc32cReflected ^ 64 *
      (regEval crc32cReflected c + regEval crc32cReflected v) := by
  rw [crc32U64, eval_extend, eval_crc32Instr (n := 63), eval_low hc]

variable {data : List UInt8}

lemma consumes_crc32Instr (h : off + (n + 1) ≤ data.length)
    (c : BitVec 32) : Consumes crc32cReflected (regEval _ c) (slice data off (n + 1))
      (regEval _ (crc32Instr c (load (8 * (n + 1)) data off (n + 1)))) := by
  refine Consumes.word (eval_load _ h (le_refl _)) ?_
  rw [length_slice h]
  exact eval_crc32Instr (n := 8 * n + 7) c _

lemma runs_crc32U64 (h : off + 8 ≤ data.length) (hc : FitsIn 32 c) :
    Runs c (slice data off 8) (crc32U64 c (load64 data off)) := by
  refine ⟨Consumes.word (eval_load _ h (le_refl _)) ?_, fitsIn_setWidth _ _⟩
  rw [length_slice h]
  exact eval_crc32U64 hc _

def RowFits (r : BitVec 64 × BitVec 64) : Prop := r.1 >>> 33 = 0 ∧ r.2 >>> 33 = 0

instance (r : BitVec 64 × BitVec 64) : Decidable (RowFits r) :=
  inferInstanceAs (Decidable (_ ∧ _))

def RowNext (r r' : BitVec 64 × BitVec 64) : Prop :=
  let p := crc32cReflected.toNat
  regStepsNat p 1 r'.1.toNat = regStepsNat p 129 r.1.toNat ∧
    regStepsNat p 1 r'.2.toNat = regStepsNat p 65 r.2.toNat

instance (r r' : BitVec 64 × BitVec 64) : Decidable (RowNext r r') :=
  inferInstanceAs (Decidable (_ ∧ _))

lemma clmulConstants_chain : clmulConstants.IsChain RowNext := by
  decide +kernel

set_option maxRecDepth 4000 in
lemma clmulConstants_length : clmulConstants.length = 128 := rfl

lemma clmulConstants_rowFits : clmulConstants.all (fun r => decide (RowFits r)) = true := by
  decide

lemma clmulConstants_first :
    let p := crc32cReflected.toNat
    let r := clmulConstants.getD 0 (0, 0)
    regStepsNat p 1 r.1.toNat = regStepsNat p 65 (1#64).toNat ∧
      regStepsNat p 1 r.2.toNat = regStepsNat p 1 (1#64).toNat := by
  decide

lemma clmulConstants_power (i : Nat) (hi : i < 128) :
    regEval crc32cReflected (clmulConstants.getD i (0, 0)).1 =
        regGen crc32cReflected ^ (128 * i + 64) ∧
      regEval crc32cReflected (clmulConstants.getD i (0, 0)).2 =
        regGen crc32cReflected ^ (64 * i) := by
  have hlen := clmulConstants_length
  induction i with
  | zero =>
    obtain ⟨h0, h1⟩ := clmulConstants_first
    have e0 := regEval_eq_of_regStepsNat (k := 64) (by omega) h0
    have e1 := regEval_eq_of_regStepsNat (k := 0) (by omega) h1
    rw [regEval_one, mul_one] at e0 e1
    exact ⟨e0, e1⟩
  | succ i ih =>
    obtain ⟨ih0, ih1⟩ := ih (by omega)
    have hnext : RowNext (clmulConstants.getD i (0, 0)) (clmulConstants.getD (i + 1) (0, 0)) := by
      have h := isChain_iff_getElem.mp clmulConstants_chain i (by omega)
      rwa [getD_eq_getElem _ _ (by omega), getD_eq_getElem _ _ (by omega)]
    have e0 := regEval_eq_of_regStepsNat (k := 128) (by omega) hnext.1
    have e1 := regEval_eq_of_regStepsNat (k := 64) (by omega) hnext.2
    rw [ih0, ← pow_add] at e0
    rw [ih1, ← pow_add] at e1
    rw [e0, e1, show 128 + (128 * i + 64) = 128 * (i + 1) + 64 by ring,
      show 64 + 64 * i = 64 * (i + 1) by ring]
    exact ⟨rfl, rfl⟩

lemma clmulConstants_fits (i : Nat) : FitsIn 33 (clmulConstants.getD i (0, 0)).1 ∧
    FitsIn 33 (clmulConstants.getD i (0, 0)).2 := by
  have hfits : RowFits (clmulConstants.getD i (0, 0)) := by
    by_cases hi : i < clmulConstants.length
    · rw [getD_eq_getElem _ _ hi]
      exact of_decide_eq_true (all_eq_true.mp clmulConstants_rowFits _ (getElem_mem hi))
    · rw [getD_eq_default _ _ (by omega)]
      decide
  exact ⟨fitsIn_of_ushiftRight hfits.1, fitsIn_of_ushiftRight hfits.2⟩

def streamRun (data : List UInt8) (next : Nat) : Nat → BitVec 64 → BitVec 64
  | k + 2, c => streamRun data next (k + 1) (crc32U64 c (load64 data (next - 8 * (k + 2))))
  | _, c => c

lemma tripletRun_eq (data : List UInt8) (next0 next1 next2 : Nat) :
    ∀ (k : Nat) (s : Streams), tripletRun data next0 next1 next2 k s =
      ⟨streamRun data next0 k s.crc0, streamRun data next1 k s.crc1, streamRun data next2 k s.crc2⟩
  | 0, _ => rfl
  | 1, _ => rfl
  | k + 2, s => by
    rw [tripletRun, tripletRun_eq data next0 next1 next2 (k + 1)]
    rfl

lemma runs_streamRun (h : next ≤ data.length) :
    ∀ (k : Nat) {c : BitVec 64}, FitsIn 32 c → 8 * (k + 1) ≤ next →
      Runs c (slice data (next - 8 * (k + 1)) (8 * k)) (streamRun data next (k + 1) c)
  | 0, c, hc, _ => by
    rw [Nat.mul_zero, slice_zero]
    exact ⟨Consumes.refl _, hc⟩
  | k + 1, c, hc, hk => by
    have hword := runs_crc32U64 (show next - 8 * (k + 2) + 8 ≤ data.length by omega) hc
    have htail := runs_streamRun h k hword.fits (by omega)
    have hall := hword.append htail
    rw [show next - 8 * (k + 1) = next - 8 * (k + 2) + 8 by omega, slice_append] at hall
    rw [show 8 * (k + 1) = 8 + 8 * k by ring, streamRun]
    exact hall

lemma eval_combineCRC (data : List UInt8) (hk : k < 128) {crc0 crc1 crc2 : BitVec 64}
    (h0 : FitsIn 32 crc0) (h1 : FitsIn 32 crc1) (h2 : FitsIn 32 crc2) (next2 : Nat) :
    let p := crc32cReflected
    regEval p (combineCRC data (k + 1) crc0 crc1 crc2 next2) =
      regGen p ^ (128 * (k + 1)) * regEval p crc0 + regGen p ^ (64 * (k + 1)) * regEval p crc1 +
        regGen p ^ 64 * (regEval p crc2 + regEval p (load64 data (next2 - 8))) := by
  intro p
  obtain ⟨e0, e1⟩ := clmulConstants_power k hk
  have hfits := clmulConstants_fits k
  have hdef : combineCRC data (k + 1) crc0 crc1 crc2 next2 = crc32U64 crc2
      ((clmul crc0 (clmulConstants.getD k (0, 0)).1 ^^^
        clmul crc1 (clmulConstants.getD k (0, 0)).2).setWidth 64 ^^^
          load64 data (next2 - 8)) := by
    simp [combineCRC]
  rw [hdef, eval_crc32U64 h2]
  generalize clmulConstants.getD k (0, 0) = m at e0 e1 hfits
  have hcut : FitsIn 64 (clmul crc0 m.1 ^^^ clmul crc1 m.2) :=
    (h0.clmul hfits.1 (by omega)).xor (h1.clmul hfits.2 (by omega))
  have hlow : regEval p ((clmul crc0 m.1 ^^^ clmul crc1 m.2).setWidth 64) =
      regEval p crc0 * regEval p m.1 + regEval p crc1 * regEval p m.2 := by
    rw [regEval, bitEval_setWidth _ _ _ hcut, bitEval_xor, bitEval_clmul, bitEval_clmul]
    rfl
  have hxor : regEval p ((clmul crc0 m.1 ^^^ clmul crc1 m.2).setWidth 64 ^^^
      load64 data (next2 - 8)) =
      regEval p ((clmul crc0 m.1 ^^^ clmul crc1 m.2).setWidth 64) +
        regEval p (load64 data (next2 - 8)) := bitEval_xor _ _ _
  rw [hxor, hlow, e0, e1]
  ring

lemma fitsIn_combineCRC (data : List UInt8) (k : Nat) (crc0 crc1 crc2 : BitVec 64)
    (next2 : Nat) : FitsIn 32 (combineCRC data k crc0 crc1 crc2 next2) :=
  fitsIn_setWidth _ _

lemma runs_stream {base : Nat} (h : base + 8 * (k + 1) ≤ data.length) (hc : FitsIn 32 c) :
    Runs c (slice data base (8 * (k + 1))) (crc32U64 (streamRun data (base + 8 * (k + 1)) (k + 1) c)
        (load64 data (base + 8 * (k + 1) - 8))) := by
  have hrun := runs_streamRun h k hc (by omega)
  have hlast := runs_crc32U64 (show base + 8 * (k + 1) - 8 + 8 ≤ data.length by omega) hrun.fits
  have hall := hrun.append hlast
  rw [show base + 8 * (k + 1) - 8 * (k + 1) = base by omega,
    show base + 8 * (k + 1) - 8 = base + 8 * k by omega, slice_append] at hall
  rwa [show base + 8 * (k + 1) - 8 = base + 8 * k by omega]

lemma runs_tripletBlock (hk : k < 128) (h : off + 24 * (k + 1) ≤ data.length) (hc : FitsIn 32 c) :
    Runs c (slice data off (24 * (k + 1)))
      (tripletBlock data (k + 1) c (off + 8 * (k + 1)) (off + 8 * (k + 1) + 8 * (k + 1))
        (off + 8 * (k + 1) + 8 * (k + 1) + 8 * (k + 1))) := by
  set n := k + 1
  have hs0 := runs_stream (show off + 8 * (k + 1) ≤ data.length by omega) hc
  have hs1 := runs_stream (show off + 8 * n + 8 * (k + 1) ≤ data.length by omega) (fitsIn_zero _ _)
  have hs2 := runs_streamRun (show off + 8 * n + 8 * n + 8 * n ≤ data.length by omega) k
    (fitsIn_zero _ _) (by omega)
  have hword : Consumes crc32cReflected
      (regEval _ (streamRun data (off + 8 * n + 8 * n + 8 * n) n 0))
      (slice data (off + 8 * n + 8 * n + 8 * n - 8) 8) _ :=
    Consumes.word (eval_load _ (by omega) (le_refl _)) rfl
  have hzero : regEval crc32cReflected (0 : BitVec 64) = 0 := bitEval_zero _ _
  have h2 := hs2.consumes.append hword
  rw [hzero] at h2
  have h1 := hs1.consumes
  rw [hzero] at h1
  have hall := hs0.consumes.join (h1.join h2)
  simp only [length_append] at hall
  rw [length_slice (by omega), length_slice (by omega), length_slice (by omega)] at hall
  have hbytes : slice data off (24 * n) = slice data off (8 * n) ++
      (slice data (off + 8 * n) (8 * n) ++
        (slice data (off + 8 * n + 8 * n + 8 * n - 8 * n) (8 * k) ++
          slice data (off + 8 * n + 8 * n + 8 * n - 8) 8)) := by
    rw [show off + 8 * n + 8 * n + 8 * n - 8 * n = off + 8 * n + 8 * n by omega,
      show off + 8 * n + 8 * n + 8 * n - 8 = off + 8 * n + 8 * n + 8 * k by omega,
      slice_append, slice_append, slice_append]
    congr 1
    omega
  refine ⟨?_, fitsIn_combineCRC _ _ _ _ _ _⟩
  rw [hbytes, tripletBlock, tripletRun_eq]
  rw [eval_combineCRC data hk hs0.fits hs1.fits hs2.fits]
  convert hall using 1
  rw [show 8 * (8 * n + (8 * k + 8)) = 128 * n by omega, show 8 * (8 * k + 8) = 64 * n by omega,
    add_assoc]
  rfl

lemma runs_tripletBlocks : ∀ (n : Nat) {off k : Nat} {c : BitVec 64}, k < 128 → FitsIn 32 c →
      off + 24 * (k + 1) + 3072 * n ≤ data.length →
      let r := tripletBlocks data n (k + 1) c (off + 8 * (k + 1))
        (off + 8 * (k + 1) + 8 * (k + 1)) (off + 8 * (k + 1) + 8 * (k + 1) + 8 * (k + 1))
      Runs c (slice data off (24 * (k + 1) + 3072 * n)) r.1 ∧
        r.2 = off + (24 * (k + 1) + 3072 * n)
  | 0, off, k, c, hk, hc, h => by
    refine ⟨runs_tripletBlock hk (by omega) hc, ?_⟩
    simp only [tripletBlocks]
    omega
  | n + 1, off, k, c, hk, hc, h => by
    have hblock := runs_tripletBlock hk (show off + 24 * (k + 1) ≤ data.length by omega) hc
    obtain ⟨hrest, hnext⟩ := runs_tripletBlocks n (show 127 < 128 by omega) hblock.fits
      (show off + 8 * (k + 1) + 8 * (k + 1) + 8 * (k + 1) + 24 * (127 + 1) + 3072 * n ≤
        data.length by omega)
    refine ⟨?_, ?_⟩
    · have hall := hblock.append hrest
      rw [show off + 8 * (k + 1) + 8 * (k + 1) + 8 * (k + 1) = off + 24 * (k + 1) by omega,
        slice_append, show 24 * (k + 1) + (24 * (127 + 1) + 3072 * n) =
          24 * (k + 1) + 3072 * (n + 1) by ring] at hall
      rw [show off + 8 * (k + 1) + 8 * (k + 1) + 8 * (k + 1) = off + 24 * (k + 1) by omega,
        tripletBlocks]
      exact hall
    · rw [tripletBlocks, hnext]
      omega

lemma runs_tripletLoop {bs : Nat} (hbs : 1 ≤ bs ∧ bs ≤ 128) (hc : FitsIn 32 c) (h : off + (24 * bs + 3072 * (n - 1)) ≤ data.length) :
    Runs c (slice data off (24 * bs + 3072 * (n - 1))) (tripletLoop data bs c off n).1 ∧
      (tripletLoop data bs c off n).2 = off + (24 * bs + 3072 * (n - 1)) := by
  obtain ⟨k, rfl⟩ : ∃ k, bs = k + 1 := ⟨bs - 1, by omega⟩
  rw [tripletLoop, if_pos hbs]
  exact runs_tripletBlocks (n - 1) (by omega) hc (by omega)

lemma runs_singletRun (h : next ≤ data.length) :
    ∀ (k : Nat) {c : BitVec 64}, FitsIn 32 c → 8 * k ≤ next →
      Runs c (slice data (next - 8 * k) (8 * k)) (singletRun data next k c)
  | 0, c, hc, _ => by
    rw [Nat.mul_zero, slice_zero]
    exact ⟨Consumes.refl _, hc⟩
  | k + 1, c, hc, hk => by
    have hword := runs_crc32U64 (show next - 8 * (k + 1) + 8 ≤ data.length by omega) hc
    have hall := hword.append (runs_singletRun h k hword.fits (by omega))
    rw [show next - 8 * k = next - 8 * (k + 1) + 8 by omega, slice_append,
      show 8 + 8 * k = 8 * (k + 1) by ring] at hall
    exact hall

def Advances (data : List UInt8) (s : BitVec 32 × Nat) (n : Nat) (s' : BitVec 32 × Nat) : Prop :=
  Consumes crc32cReflected (regEval _ s.1) (slice data s.2 n) (regEval _ s'.1) ∧ s'.2 = s.2 + n

lemma Advances.trans {s s' s'' : BitVec 32 × Nat} {m : Nat}
    (h : Advances data s m s') (h' : Advances data s' n s'') : Advances data s (m + n) s'' := by
  obtain ⟨hc, hp⟩ := h
  obtain ⟨hc', hp'⟩ := h'
  rw [hp] at hc'
  have hall := hc.append hc'
  rw [slice_append] at hall
  exact ⟨hall, by omega⟩

def partBytes (align bytes : Nat) : Nat := if align &&& bytes ≠ 0 then bytes else 0

lemma advances_alignPart (data : List UInt8) (align bytes : Nat) (s : BitVec 32 × Nat)
    (h : s.2 + partBytes align (bytes + 1) ≤ data.length) :
    Advances data s (partBytes align (bytes + 1)) (alignPart data align (bytes + 1) s) := by
  unfold partBytes at h ⊢
  rw [alignPart]
  by_cases hbit : align &&& (bytes + 1) ≠ 0
  · rw [if_pos hbit] at h
    rw [if_pos hbit, if_pos hbit]
    exact ⟨consumes_crc32Instr h s.1, rfl⟩
  · rw [if_neg hbit, if_neg hbit]
    exact ⟨by rw [slice_zero]; exact Consumes.refl _, rfl⟩

lemma partBytes_sum : ∀ align < 8,
    partBytes align 4 + partBytes align 2 + partBytes align 1 = align := by
  decide

lemma runs_alignTo8 {align : Nat} (ha : align < 8)
    (h : off + align ≤ data.length) (hc : FitsIn 32 c) :
    Runs c (slice data off align) (alignTo8 data align c off).1 ∧
      (alignTo8 data align c off).2 = off + align := by
  have hsum := partBytes_sum align ha
  have h4 := advances_alignPart data align 3 (c.setWidth 32, off) (by simp only [Nat.reduceAdd]; omega)
  have h2 := h4.trans
    (advances_alignPart data align 1 _ (by rw [h4.2]; simp only [Nat.reduceAdd]; omega))
  have h1 := h2.trans
    (advances_alignPart data align 0 _ (by rw [h2.2]; simp only [Nat.reduceAdd]; omega))
  rw [hsum] at h1
  obtain ⟨hcons, hnext⟩ := h1
  simp only [eval_low hc] at hcons
  refine ⟨⟨?_, fitsIn_setWidth _ _⟩, hnext⟩
  rw [alignTo8, eval_extend]
  exact hcons

def finish (data : List UInt8) (off len : Nat) (c : BitVec 64) : BitVec 32 :=
  let count2 := len >>> 3
  let next := off + count2 * 8
  (alignTo8 data (len &&& 7)
    (if count2 ≤ 27 then singletRun data next count2 c else c) next).1.setWidth 32

lemma consumes_finish {len : Nat} (hend : off + len = data.length)
    (hlen : len < 224) (hc : FitsIn 32 c) :
    Consumes crc32cReflected (regEval _ c) (slice data off len)
      (regEval _ (finish data off len c)) := by
  have hdiv : len >>> 3 = len / 8 := Nat.shiftRight_eq_div_pow len 3
  have hmod : len &&& 7 = len % 8 := Nat.and_two_pow_sub_one_eq_mod len 3
  have hwords := runs_singletRun (show off + len / 8 * 8 ≤ data.length by omega) (len / 8) hc
    (by omega)
  obtain ⟨hbytes, _⟩ := runs_alignTo8 (show len % 8 < 8 by omega)
    (show off + len / 8 * 8 + len % 8 ≤ data.length by omega) hwords.fits
  have hall := hwords.append hbytes
  have hsplit : slice data (off + len / 8 * 8 - 8 * (len / 8)) (8 * (len / 8)) ++
      slice data (off + len / 8 * 8) (len % 8) = slice data off len := by
    simp [mul_comm (len / 8) 8, slice_append, show 8 * (len / 8) + len % 8 = len by omega]
  rw [hsplit] at hall
  simp only [finish]
  rw [hdiv, hmod, if_pos (by omega), eval_low hall.fits]
  exact hall.consumes

lemma crc32cHw_short (addr : BitVec 64) (h : data.length < 8) (crc : BitVec 32) :
    crc32cHw addr data crc = (alignTo8 data data.length (crc.setWidth 64) 0).1.setWidth 32 := by
  simp only [crc32cHw, if_neg (show ¬ 8 ≤ data.length by omega)]

lemma crc32cHw_words (addr : BitVec 64) (h : 8 ≤ data.length)
    (h' : data.length ≤ 216) (crc : BitVec 32) :
    crc32cHw addr data crc = finish data 0 data.length (crc.setWidth 64) := by
  simp only [crc32cHw, if_pos h, if_neg (show ¬ 216 < data.length by omega), finish]

def blocks (count : Nat) : Nat × Nat :=
  if count &&& 127 = 0 then (128, count >>> 7) else (count &&& 127, count >>> 7 + 1)

lemma blocks_spec {count : Nat} (h : 0 < count) : 1 ≤ (blocks count).1 ∧ (blocks count).1 ≤ 128 ∧
      24 * (blocks count).1 + 3072 * ((blocks count).2 - 1) = 24 * count := by
  have hdiv : count >>> 7 = count / 128 := Nat.shiftRight_eq_div_pow count 7
  have hmod : count &&& 127 = count % 128 := Nat.and_two_pow_sub_one_eq_mod count 7
  rw [blocks, hdiv, hmod]
  split <;> simp only <;> omega

lemma crc32cHw_long (addr : BitVec 64) (h : 216 < data.length) (crc : BitVec 32) :
    let align := ((8#64 - addr) &&& 7#64).toNat
    let s := alignTo8 data align (crc.setWidth 64) 0
    let b := blocks ((data.length - align) / 24)
    let r := tripletLoop data b.1 s.1 s.2 b.2
    crc32cHw addr data crc = finish data r.2 ((data.length - align) % 24) r.1 := by
  simp only [crc32cHw, if_pos (show 8 ≤ data.length by omega), if_pos h, finish, blocks]

lemma consumes_crc32cHw (addr : BitVec 64) (data : List UInt8) (crc : BitVec 32) :
    Consumes crc32cReflected (regEval _ crc) data (regEval _ (crc32cHw addr data crc)) := by
  have hcrc := fitsIn_setWidth crc 64
  rcases Nat.lt_or_ge data.length 8 with hshort | h8
  · obtain ⟨hbytes, _⟩ := runs_alignTo8 hshort (show 0 + data.length ≤ data.length by omega) hcrc
    rw [crc32cHw_short addr hshort, eval_low hbytes.fits]
    have hc := hbytes.consumes
    rwa [eval_extend, slice_all] at hc
  rcases Nat.lt_or_ge 216 data.length with hlong | hwords
  · rw [crc32cHw_long addr hlong]
    set align := ((8#64 - addr) &&& 7#64).toNat
    have halign : align < 8 := by
      have : align ≤ 7 := by
        exact Nat.and_le_right
      omega
    set rest := data.length - align
    obtain ⟨hhead, hnext⟩ := runs_alignTo8 halign (show 0 + align ≤ data.length by omega) hcrc
    obtain ⟨hlo, hhi, hsum⟩ := blocks_spec (show 0 < rest / 24 by omega)
    set b := blocks (rest / 24)
    set s := alignTo8 data align (crc.setWidth 64) 0
    obtain ⟨hloop, hnext'⟩ := runs_tripletLoop ⟨hlo, hhi⟩ hhead.fits
      (show s.2 + (24 * b.1 + 3072 * (b.2 - 1)) ≤ data.length by omega)
    have htail := consumes_finish
      (show (tripletLoop data b.1 s.1 s.2 b.2).2 + rest % 24 = data.length by omega)
      (by omega) hloop.fits
    have hall := (hhead.append hloop).consumes.append htail
    have hdata : slice data 0 align ++ slice data s.2 (24 * b.1 + 3072 * (b.2 - 1)) ++
        slice data (tripletLoop data b.1 s.1 s.2 b.2).2 (rest % 24) = data := by
      rw [hnext', hsum, hnext, slice_append, Nat.add_assoc 0 align, slice_append,
        show align + 24 * (rest / 24) + rest % 24 = data.length by omega, slice_all]
    rwa [eval_extend, hdata] at hall
  · have hc := consumes_finish (Nat.zero_add data.length) (by omega) hcrc
    rw [crc32cHw_words addr h8 hwords]
    rwa [eval_extend, slice_all] at hc

theorem crc32cHw_eq_crc32cSw (addr : BitVec 64) (data : List UInt8) (seed : BitVec 32) :
    crc32cHw addr data seed = crc32cSw data seed ∧
      crc32cSw data seed = consumeBytes crc32cPolynomial.reverse seed data := by
  refine ⟨?_, crcSw_eq_consumeBytes _ _ _⟩
  have hsw := consumes_crcSw crc32cPolynomial data seed
  rw [reverse_crc32cPolynomial] at hsw
  exact Consumes.unique crc32cReflected_top (consumes_crc32cHw addr data seed) hsw

end Acc.Checksum
