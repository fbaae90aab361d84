import Accelerator.Unicode

namespace Acc.Unicode

open Nat List

set_option maxRecDepth 4000 in
lemma and_80 : ∀ b : UInt8, b &&& 0x80 = 0 ↔ b.toNat < 128 := by decide

set_option maxRecDepth 4000 in
lemma and_C0 : ∀ b : UInt8, b &&& 0xC0 = 0xC0 ↔ 192 ≤ b.toNat := by decide

set_option maxRecDepth 4000 in
lemma shift_two : ∀ b : UInt8, 192 ≤ b.toNat → ((b <<< 1 <<< 1) &&& 0x80 = 0 ↔ b.toNat < 224) := by
  decide

set_option maxRecDepth 4000 in
lemma shift_three : ∀ b : UInt8, 224 ≤ b.toNat →
    ((b <<< 1 <<< 1 <<< 1) &&& 0x80 = 0 ↔ b.toNat < 240) := by decide

set_option maxRecDepth 4000 in
lemma and_tail : ∀ b : UInt8, b &&& 0xC0 = 0x80 ↔ 128 ≤ b.toNat ∧ b.toNat < 192 := by
  decide

lemma and_3F (b : UInt8) : (b &&& 0x3F).toNat = b.toNat % 64 :=
  (UInt8.toNat_and b 0x3F).trans (and_two_pow_sub_one_eq_mod b.toNat 6)

def maskBits : Nat → Nat
  | 0 => 7
  | 1 => 11
  | 2 => 16
  | _ => 21

lemma toNat_bitMask (i : Nat) : (bitMask i).toNat = 2 ^ maskBits i - 1 := by
  match i with
  | 0 => rfl
  | 1 => rfl
  | 2 => rfl
  | _ + 3 => rfl

lemma toNat_collect {d : UInt32} (hd : d.toNat < 2 ^ 26) (tmp : UInt8) :
    ((d <<< 6) ||| (tmp &&& 0x3F).toUInt32).toNat = d.toNat * 64 + tmp.toNat % 64 := by
  have hshift : (d <<< 6).toNat = d.toNat <<< 6 := by
    rw [UInt32.toNat_shiftLeft, show UInt32.toNat 6 % 32 = 6 from rfl, shiftLeft_eq]
    exact mod_eq_of_lt (by omega)
  rw [UInt32.toNat_or, hshift, UInt8.toNat_toUInt32, and_3F,
    ← shiftLeft_add_eq_or_of_lt (mod_lt _ (by decide)), shiftLeft_eq]

lemma toNat_masked (d : UInt32) (i : Nat) :
    (d &&& bitMask i).toNat = d.toNat % 2 ^ maskBits i := by
  simp [toNat_bitMask]

lemma overlong_iff (d : UInt32) (i : Nat) :
    d &&& ~~~ (bitMask i) = 0 ↔ d.toNat < 2 ^ maskBits i := by
  have hbits : ∀ j, (d &&& ~~~ (bitMask i)).toNat.testBit j =
      (d.toNat.testBit j && (decide (j < 32) && !decide (j < maskBits i))) := by
    intro j
    have hmask := testBit_two_pow_sub_one (maskBits i) j
    rw [← toNat_bitMask] at hmask
    rw [UInt32.toNat_and, testBit_and]
    congr 1
    show (~~~ (bitMask i).toBitVec).toNat.testBit j = _
    rw [BitVec.testBit_toNat, BitVec.getLsbD_not, ← BitVec.testBit_toNat]
    congr 1
    exact congrArg _ hmask
  constructor
  · intro hzero
    refine lt_pow_two_of_testBit _ ?_
    intro j hj
    have hj0 := hbits j
    rw [hzero] at hj0
    have hfalse : testBit (UInt32.toNat 0) j = false := zero_testBit j
    by_cases hlt : j < 32
    · have hnot : ¬ j < maskBits i := by omega
      simpa [hlt, hnot] using hj0.symm
    · exact testBit_lt_two_pow (lt_of_lt_of_le d.toNat_lt (Nat.pow_le_pow_right (by decide)
        (by omega)))
  intro hlt
  refine UInt32.toNat_inj.mp (eq_of_testBit_eq ?_)
  intro j
  rw [hbits]
  have hfalse : testBit (UInt32.toNat 0) j = false := zero_testBit j
  by_cases hj : j < maskBits i
  · simp [hj]
  · have hbit : d.toNat.testBit j = false :=
      testBit_lt_two_pow (lt_of_lt_of_le hlt (Nat.pow_le_pow_right (by decide) (by omega)))
    simp [hbit]

def IsTail (b : UInt8) : Prop := 128 ≤ b.toNat ∧ b.toNat < 192

section Sequences

variable (name : String)

variable {i n : Nat} {tmp fst b b₀ b₁ b₂ : UInt8}

lemma decodeLoop_broken (hi : i ≠ 3) (h : ¬ IsTail tmp) (fst : UInt8)
    (d : UInt32) (rest : List UInt8) :
    decodeLoop name i fst d (tmp :: rest) = .error (.continuation name i tmp) := by
  rw [decodeLoop, if_neg hi, if_pos (mt (and_tail tmp).mp h)]

lemma decodeLoop_more (hi : i ≠ 3) (h : IsTail tmp)
    (hfst : fst <<< 1 &&& 0x80 ≠ 0) (d : UInt32) (rest : List UInt8) :
    decodeLoop name i fst d (tmp :: rest) =
      decodeLoop name (i + 1) (fst <<< 1) ((d <<< 6) ||| (tmp &&& 0x3F).toUInt32) rest := by
  rw [decodeLoop, if_neg hi, if_neg (not_not.mpr ((and_tail tmp).mpr h))]
  rw [if_neg hfst]

variable {d : UInt32}

lemma decodeLoop_last (hi : i ≠ 3) (h : IsTail tmp)
    (hfst : fst <<< 1 &&& 0x80 = 0) (hd : d.toNat < 2 ^ 26) (rest : List UInt8) :
    ∃ v : UInt32, v.toNat = (d.toNat * 64 + tmp.toNat % 64) % 2 ^ maskBits i ∧
      decodeLoop name i fst d (tmp :: rest) =
        if v.toNat < 2 ^ maskBits (i - 1) then .error (.value name i v)
        else if i = 2 ∧ ((0xD800 ≤ v.toNat ∧ v.toNat ≤ 0xDFFF) ∨ v.toNat > 0x10FFFF) then
          .error (.value name i v) else .ok (v, i + 1) := by
  refine ⟨((d <<< 6) ||| (tmp &&& 0x3F).toUInt32) &&& bitMask i, ?_, ?_⟩
  · rw [toNat_masked, toNat_collect hd]
  rw [decodeLoop, if_neg hi, if_neg (not_not.mpr ((and_tail tmp).mpr h))]
  rw [if_pos hfst]
  simp only [overlong_iff, UInt32.le_iff_toNat_le, gt_iff_lt, UInt32.lt_iff_toNat_lt]
  rfl

lemma decodeStrict_ascii (h : b.toNat < 128) (rest : List UInt8) :
    decodeStrict name (b :: rest) = .ok (b.toUInt32, 1) := by
  rw [decodeStrict, if_pos ((and_80 b).mpr h)]

lemma decodeStrict_stray (h : IsTail b) (rest : List UInt8) :
    decodeStrict name (b :: rest) = .error (.value name 0 b.toUInt32) := by
  have hnot : ¬ b.toNat < 128 := by have := h.1; omega
  have hlead : ¬ 192 ≤ b.toNat := by have := h.2; omega
  rw [decodeStrict, if_neg (mt (and_80 b).mp hnot), if_pos (mt (and_C0 b).mp hlead)]

lemma decodeStrict_lead (h : 192 ≤ b.toNat) (rest : List UInt8) :
    decodeStrict name (b :: rest) = decodeLoop name 1 (b <<< 1) b.toUInt32 rest := by
  have hnot : ¬ b.toNat < 128 := by omega
  rw [decodeStrict, if_neg (mt (and_80 b).mp hnot), if_neg (not_not.mpr ((and_C0 b).mpr h))]

lemma toNat_lead_lt (b : UInt8) : b.toUInt32.toNat < 2 ^ 26 := by
  have hlt := b.toNat_lt
  rw [UInt8.toNat_toUInt32]
  omega

lemma decodeStrict_two (h₀ : 192 ≤ b₀.toNat) (hlt : b₀.toNat < 224)
    (h₁ : IsTail b₁) (rest : List UInt8) :
    ∃ v : UInt32, v.toNat = (b₀.toNat - 192) * 64 + (b₁.toNat - 128) ∧
      decodeStrict name (b₀ :: b₁ :: rest) =
        if v.toNat < 2 ^ 7 then .error (.value name 1 v) else .ok (v, 2) := by
  obtain ⟨v, hv, hloop⟩ := decodeLoop_last name (show 1 ≠ 3 by decide) h₁
    ((shift_two b₀ h₀).mpr hlt) (toNat_lead_lt b₀) rest
  have hnum : v.toNat = (b₀.toNat - 192) * 64 + (b₁.toNat - 128) := by
    obtain ⟨hlow, hhigh⟩ := h₁
    rw [hv, UInt8.toNat_toUInt32, show 2 ^ maskBits 1 = 2048 from rfl]
    omega
  refine ⟨v, hnum, ?_⟩
  rw [decodeStrict_lead name h₀, hloop]
  rfl

lemma decodeStrict_three (h₀ : 224 ≤ b₀.toNat) (hlt : b₀.toNat < 240)
    (h₁ : IsTail b₁) (h₂ : IsTail b₂) (rest : List UInt8) :
    ∃ v : UInt32, v.toNat = (b₀.toNat - 224) * 4096 + (b₁.toNat - 128) * 64 + (b₂.toNat - 128) ∧
      decodeStrict name (b₀ :: b₁ :: b₂ :: rest) = if v.toNat < 2 ^ 11 then .error (.value name 2 v)
        else if 0xD800 ≤ v.toNat ∧ v.toNat ≤ 0xDFFF then .error (.value name 2 v)
        else .ok (v, 3) := by
  have hlead : 192 ≤ b₀.toNat := by omega
  have hcollect := toNat_collect (toNat_lead_lt b₀) b₁
  rw [UInt8.toNat_toUInt32] at hcollect
  have hsmall : ((b₀.toUInt32 <<< 6) ||| (b₁ &&& 0x3F).toUInt32).toNat < 2 ^ 26 := by
    omega
  obtain ⟨v, hv, hloop⟩ := decodeLoop_last name (show 2 ≠ 3 by decide) h₂
    ((shift_three b₀ h₀).mpr hlt) hsmall rest
  have hnum : v.toNat = (b₀.toNat - 224) * 4096 + (b₁.toNat - 128) * 64 + (b₂.toNat - 128) := by
    obtain ⟨hlow₁, hhigh₁⟩ := h₁
    obtain ⟨hlow₂, hhigh₂⟩ := h₂
    rw [hv, hcollect, show 2 ^ maskBits 2 = 65536 from rfl]
    omega
  refine ⟨v, hnum, ?_⟩
  rw [decodeStrict_lead name hlead, decodeLoop_more name (by decide) h₁
    (mt (shift_two b₀ hlead).mp (by omega)), hloop]
  have hbelow : ¬ v.toNat > 0x10FFFF := by
    obtain ⟨-, hhigh₁⟩ := h₁
    obtain ⟨-, hhigh₂⟩ := h₂
    omega
  simp only [hbelow, or_false, true_and]
  rfl

lemma decodeStrict_four (h : 240 ≤ b.toNat) (rest : List UInt8) :
    ∃ e, decodeStrict name (b :: rest) = .error e := by
  have hlead : 192 ≤ b.toNat := by omega
  rw [decodeStrict_lead name hlead]
  match rest with
  | [] => exact ⟨_, rfl⟩
  | b₁ :: rest =>
    by_cases h₁ : IsTail b₁
    · rw [decodeLoop_more name (by decide) h₁ (mt (shift_two b hlead).mp (by omega))]
      match rest with
      | [] => exact ⟨_, rfl⟩
      | b₂ :: rest =>
        by_cases h₂ : IsTail b₂
        · rw [decodeLoop_more name (by decide) h₂ (mt (shift_three b (by omega)).mp (by omega))]
          match rest with
          | [] => exact ⟨_, rfl⟩
          | _ :: _ => exact ⟨_, rfl⟩
        · exact ⟨_, decodeLoop_broken name (by decide) h₂ _ _ _⟩
    · exact ⟨_, decodeLoop_broken name (by decide) h₁ _ _ _⟩

def Narrow (c : Char) : Prop := c.val.toNat ≤ 0xFFFF

lemma char_valid (c : Char) :
    c.val.toNat < 0xd800 ∨ 0xdfff < c.val.toNat ∧ c.val.toNat < 0x110000 := c.valid

variable {c : Char}

lemma encode_ascii (h : c.val.toNat < 128) :
    String.utf8EncodeChar c = [UInt8.ofNat c.val.toNat] := by
  rw [String.utf8EncodeChar, if_pos (by omega)]

lemma encode_two (hlo : 128 ≤ c.val.toNat) (hhi : c.val.toNat < 2048) :
    ∃ b₀ b₁ : UInt8, String.utf8EncodeChar c = [b₀, b₁] ∧
      b₀.toNat = c.val.toNat / 64 + 192 ∧ b₁.toNat = c.val.toNat % 64 + 128 := by
  refine ⟨_, _, by rw [String.utf8EncodeChar, if_neg (by omega), if_pos (by omega)], ?_, ?_⟩
  · rw [UInt8.toNat_ofNat']
    omega
  · rw [UInt8.toNat_ofNat']
    omega

lemma encode_three (hlo : 2048 ≤ c.val.toNat) (hhi : c.val.toNat < 65536) :
    ∃ b₀ b₁ b₂ : UInt8, String.utf8EncodeChar c = [b₀, b₁, b₂] ∧
      b₀.toNat = c.val.toNat / 4096 + 224 ∧ b₁.toNat = c.val.toNat / 64 % 64 + 128 ∧
        b₂.toNat = c.val.toNat % 64 + 128 := by
  refine ⟨_, _, _,
    by rw [String.utf8EncodeChar, if_neg (by omega), if_neg (by omega), if_pos (by omega)], ?_, ?_,
    ?_⟩
  · rw [UInt8.toNat_ofNat']
    omega
  · rw [UInt8.toNat_ofNat']
    omega
  · rw [UInt8.toNat_ofNat']
    omega

lemma encode_four (h : 65536 ≤ c.val.toNat) :
    ∃ b₀ b₁ b₂ b₃ : UInt8, String.utf8EncodeChar c = [b₀, b₁, b₂, b₃] ∧ 240 ≤ b₀.toNat ∧
      b₀.toNat < 245 := by
  have hvalid := char_valid c
  refine ⟨_, _, _, _,
    by rw [String.utf8EncodeChar, if_neg (by omega), if_neg (by omega), if_neg (by omega)], ?_, ?_⟩
  · rw [UInt8.toNat_ofNat']
    omega
  · rw [UInt8.toNat_ofNat']
    omega

lemma decodeStrict_char (h : Narrow c) (rest : List UInt8) :
    decodeStrict name (String.utf8EncodeChar c ++ rest) =
      .ok (c.val, (String.utf8EncodeChar c).length) := by
  have hvalid := char_valid c
  have hnarrow : c.val.toNat ≤ 65535 := h
  rcases Nat.lt_or_ge c.val.toNat 128 with hone | hone
  · have hbyte : (UInt8.ofNat c.val.toNat).toNat = c.val.toNat := by
      rw [UInt8.toNat_ofNat']
      omega
    rw [encode_ascii hone, singleton_append, decodeStrict_ascii name (by omega)]
    congr 2
    refine UInt32.toNat_inj.mp ?_
    rw [UInt8.toNat_toUInt32, hbyte]
  rcases Nat.lt_or_ge c.val.toNat 2048 with htwo | htwo
  · obtain ⟨b₀, b₁, henc, h₀, h₁⟩ := encode_two hone htwo
    have hlead : 192 ≤ b₀.toNat := by omega
    have hless : b₀.toNat < 224 := by omega
    have htail : IsTail b₁ := ⟨by omega, by omega⟩
    obtain ⟨v, hv, hdec⟩ := decodeStrict_two name hlead hless htail rest
    have hval : v = c.val := UInt32.toNat_inj.mp (by omega)
    rw [henc, cons_append, singleton_append, hdec, if_neg (by omega), hval]
    rfl
  obtain ⟨b₀, b₁, b₂, henc, h₀, h₁, h₂⟩ := encode_three htwo (by omega)
  have hlead : 224 ≤ b₀.toNat := by omega
  have hless : b₀.toNat < 240 := by omega
  have htail₁ : IsTail b₁ := ⟨by omega, by omega⟩
  have htail₂ : IsTail b₂ := ⟨by omega, by omega⟩
  obtain ⟨v, hv, hdec⟩ := decodeStrict_three name hlead hless htail₁ htail₂ rest
  have hval : v = c.val := UInt32.toNat_inj.mp (by omega)
  rw [henc, cons_append, cons_append, singleton_append, hdec,
    if_neg (by omega), if_neg (by omega), hval]
  rfl

lemma decodeStrict_wide (h : ¬ Narrow c) (rest : List UInt8) :
    ∃ e, decodeStrict name (String.utf8EncodeChar c ++ rest) = .error e := by
  have hwide : ¬ c.val.toNat ≤ 65535 := h
  obtain ⟨b₀, b₁, b₂, b₃, henc, hlead, -⟩ := encode_four (c := c) (by omega)
  rw [henc]
  exact decodeStrict_four name hlead _

def ReadsChar (s : List UInt8) (d : UInt32) (n : Nat) : Prop :=
  ∃ c : Char, Narrow c ∧ d = c.val ∧ n = (String.utf8EncodeChar c).length ∧
    ∃ rest, s = String.utf8EncodeChar c ++ rest

lemma exists_char (h : d.toNat < 0xd800 ∨ 0xdfff < d.toNat ∧ d.toNat < 0x110000) :
    ∃ c : Char, d = c.val ∧ c.val.toNat = d.toNat := ⟨⟨d, h⟩, rfl, rfl⟩

lemma readsChar_ascii (h : b.toNat < 128) (rest : List UInt8) :
    ReadsChar (b :: rest) b.toUInt32 1 := by
  have hval : b.toUInt32.toNat = b.toNat := UInt8.toNat_toUInt32 b
  obtain ⟨c, hd, hc⟩ := exists_char (d := b.toUInt32) (by omega)
  have henc : String.utf8EncodeChar c = [b] := by
    rw [encode_ascii (by omega), hc, hval, UInt8.ofNat_toNat]
  refine ⟨c, by rw [Narrow]; omega, hd, ?_⟩
  rw [henc]
  exact ⟨rfl, rest, rfl⟩

lemma readsChar_two (h₀ : 192 ≤ b₀.toNat) (hlt : b₀.toNat < 224)
    (h₁ : IsTail b₁) (hd : d.toNat = (b₀.toNat - 192) * 64 + (b₁.toNat - 128))
    (hmin : 2 ^ 7 ≤ d.toNat) (rest : List UInt8) : ReadsChar (b₀ :: b₁ :: rest) d 2 := by
  obtain ⟨hlow, hhigh⟩ := h₁
  obtain ⟨c, hval, hc⟩ := exists_char (d := d) (by omega)
  obtain ⟨c₀, c₁, henc, hc₀, hc₁⟩ := encode_two (c := c) (by omega) (by omega)
  have heq₀ : c₀ = b₀ := UInt8.toNat_inj.mp (by omega)
  have heq₁ : c₁ = b₁ := UInt8.toNat_inj.mp (by omega)
  rw [heq₀, heq₁] at henc
  refine ⟨c, by rw [Narrow]; omega, hval, ?_⟩
  rw [henc]
  exact ⟨rfl, rest, rfl⟩

lemma readsChar_three (h₀ : 224 ≤ b₀.toNat) (hlt : b₀.toNat < 240)
    (h₁ : IsTail b₁) (h₂ : IsTail b₂)
    (hd : d.toNat = (b₀.toNat - 224) * 4096 + (b₁.toNat - 128) * 64 + (b₂.toNat - 128))
    (hmin : 2 ^ 11 ≤ d.toNat) (hsurrogate : ¬ (0xD800 ≤ d.toNat ∧ d.toNat ≤ 0xDFFF))
    (rest : List UInt8) : ReadsChar (b₀ :: b₁ :: b₂ :: rest) d 3 := by
  obtain ⟨hlow₁, hhigh₁⟩ := h₁
  obtain ⟨hlow₂, hhigh₂⟩ := h₂
  obtain ⟨c, hval, hc⟩ := exists_char (d := d) (by omega)
  obtain ⟨c₀, c₁, c₂, henc, hc₀, hc₁, hc₂⟩ := encode_three (c := c) (by omega) (by omega)
  have heq₀ : c₀ = b₀ := UInt8.toNat_inj.mp (by omega)
  have heq₁ : c₁ = b₁ := UInt8.toNat_inj.mp (by omega)
  have heq₂ : c₂ = b₂ := UInt8.toNat_inj.mp (by omega)
  rw [heq₀, heq₁, heq₂] at henc
  refine ⟨c, by rw [Narrow]; omega, hval, ?_⟩
  rw [henc]
  exact ⟨rfl, rest, rfl⟩

lemma decodeStrict_ok_lead (hlead : 192 ≤ b₀.toNat) (hfour : b₀.toNat < 240)
    {s : List UInt8} (h : decodeStrict name (b₀ :: s) = .ok (d, n)) : ReadsChar (b₀ :: s) d n := by
  match s with
  | [] =>
    rw [decodeStrict_lead name hlead] at h
    cases h
  | b₁ :: s =>
    by_cases h₁ : IsTail b₁
    · rcases Nat.lt_or_ge b₀.toNat 224 with htwo | hthree
      · obtain ⟨v, hv, hdec⟩ := decodeStrict_two name hlead htwo h₁ s
        rw [hdec] at h
        split at h
        · cases h
        · cases h
          exact readsChar_two hlead htwo h₁ hv (by omega) s
      have hmore := decodeLoop_more name (show 1 ≠ 3 by decide) h₁
        (mt (shift_two b₀ hlead).mp (by omega)) b₀.toUInt32 s
      match s with
      | [] =>
        rw [decodeStrict_lead name hlead, hmore] at h
        cases h
      | b₂ :: s =>
        by_cases h₂ : IsTail b₂
        · obtain ⟨v, hv, hdec⟩ := decodeStrict_three name hthree hfour h₁ h₂ s
          rw [hdec] at h
          split at h
          · cases h
          rename_i hmin
          split at h
          · cases h
          · rename_i hsurrogate
            cases h
            exact readsChar_three hthree hfour h₁ h₂ hv (by omega) hsurrogate s
        · rw [decodeStrict_lead name hlead, hmore, decodeLoop_broken name (by decide) h₂] at h
          cases h
    · rw [decodeStrict_lead name hlead, decodeLoop_broken name (by decide) h₁] at h
      cases h

lemma decodeStrict_ok {s : List UInt8}
    (h : decodeStrict name s = .ok (d, n)) : ReadsChar s d n := by
  match s with
  | [] => cases h
  | b :: s =>
    rcases Nat.lt_or_ge b.toNat 128 with hascii | hascii
    · rw [decodeStrict_ascii name hascii] at h
      cases h
      exact readsChar_ascii hascii s
    rcases Nat.lt_or_ge b.toNat 192 with hstray | hlead
    · rw [decodeStrict_stray name ⟨hascii, hstray⟩] at h
      cases h
    rcases Nat.lt_or_ge b.toNat 240 with hfour | hfour
    · exact decodeStrict_ok_lead name hlead hfour h
    · obtain ⟨e, he⟩ := decodeStrict_four name hfour s
      rw [he] at h
      cases h

end Sequences

lemma utf8ToCodePoint_of_ok {s : List UInt8} {d : UInt32} {n : Nat} {skipOnError : Bool}
    (h : decodeStrict "folly::utf8ToCodePoint" s = .ok (d, n)) :
    utf8ToCodePoint s skipOnError = .ok (d, s.drop n) := by
  rw [utf8ToCodePoint, decode, h]

lemma utf8ToCodePoint_of_error {s : List UInt8} {e : DecodeError} {skipOnError : Bool}
    (h : decodeStrict "folly::utf8ToCodePoint" s = .error e) : utf8ToCodePoint s skipOnError =
      if skipOnError then .ok (0xfffd, s.drop 1) else .error e := by
  rw [utf8ToCodePoint, decode, h]

theorem utf8ToCodePoint_encode_iff (c : Char) (rest : List UInt8) (skipOnError : Bool) :
    utf8ToCodePoint (codePointToUtf8 c.val ++ rest) skipOnError = .ok (c.val, rest) ↔
      c.val.toNat ≤ 0xFFFF := by
  rw [codePointToUtf8_char]
  constructor
  · intro h
    by_contra hwide
    obtain ⟨e, he⟩ := decodeStrict_wide "folly::utf8ToCodePoint" (c := c) hwide rest
    rw [utf8ToCodePoint_of_error he] at h
    split at h
    · -- the replacement character is below 2^16
      have hval : c.val = 0xfffd := (congrArg Prod.fst (Except.ok.inj h)).symm
      rw [hval] at hwide
      exact hwide (by decide)
    · cases h
  · intro hnarrow
    have hdec := decodeStrict_char "folly::utf8ToCodePoint" (c := c) hnarrow rest
    rw [utf8ToCodePoint_of_ok hdec, drop_left]

theorem utf8ToCodePoint_refuses_four :
    utf8ToCodePoint (codePointToUtf8 0x1F600) false =
        .error (.maxedOut "folly::utf8ToCodePoint") ∧
      utf8ToCodePoint (codePointToUtf8 0x1F600) true = .ok (0xfffd, [0x9F, 0x98, 0x80]) := by
  decide

theorem utf8ToCodePoint_sound (s : List UInt8) (skipOnError : Bool) (d : UInt32)
    (rest : List UInt8) (h : utf8ToCodePoint s skipOnError = .ok (d, rest))
    (hskip : skipOnError = true → ∃ r, utf8ToCodePoint s false = .ok r) :
    (∃ c : Char, d = c.val) ∧ s = codePointToUtf8 d ++ rest := by
  cases hdec : decodeStrict "folly::utf8ToCodePoint" s with
  | error e =>
    rw [utf8ToCodePoint_of_error hdec] at h
    split at h
    · rename_i hon
      obtain ⟨r, hr⟩ := hskip hon
      rw [utf8ToCodePoint_of_error hdec] at hr
      cases hr
    · cases h
  | ok r =>
    obtain ⟨v, n⟩ := r
    rw [utf8ToCodePoint_of_ok hdec] at h
    cases h
    obtain ⟨c, -, rfl, rfl, tail, rfl⟩ := decodeStrict_ok _ hdec
    refine ⟨⟨c, rfl⟩, ?_⟩
    rw [codePointToUtf8_char, drop_left]

theorem utf8ToCodePoint_sound_euro :
    utf8ToCodePoint [0xE2, 0x82, 0xAC, 0x21] true = .ok (0x20AC, [0x21]) ∧
      [0xE2, 0x82, 0xAC, 0x21] = codePointToUtf8 0x20AC ++ [0x21] := by
  have h : utf8ToCodePoint [0xE2, 0x82, 0xAC, 0x21] true = .ok (0x20AC, [0x21]) := by
    decide
  have hskip : utf8ToCodePoint [0xE2, 0x82, 0xAC, 0x21] false = .ok (0x20AC, [0x21]) := by
    decide
  exact ⟨h, (utf8ToCodePoint_sound _ _ _ _ h fun _ => ⟨_, hskip⟩).2⟩

end Acc.Unicode
