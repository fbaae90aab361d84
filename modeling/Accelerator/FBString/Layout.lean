import Accelerator.FBString.Core

namespace Acc.FBString

open List BitVec

open Counted

lemma getLsbD_byteMask (i : Nat) : (0xFF#64).getLsbD i = decide (i < 8) := by
  rw [getLsbD_ofNat, show (0xFF : Nat) = 2 ^ 8 - 1 from rfl, Nat.testBit_two_pow_sub_one]
  by_cases h : i < 8
  · simp [h, show i < 64 by omega]
  · simp [h]

variable {j off i cap : Nat}

lemma getByte_replaceByte (w : BitVec 64) (b : Byte) {k : Nat} (hj : j < 8) :
    (replaceByte w k b >>> (8 * j)).setWidth 8 = if j = k then b else (w >>> (8 * j)).setWidth 8 := by
  apply eq_of_getLsbD_eq
  intro t ht
  rw [getLsbD_setWidth, getLsbD_ushiftRight, replaceByte, getLsbD_or,
    getLsbD_and, getLsbD_not, getLsbD_shiftLeft, getLsbD_shiftLeft,
    getLsbD_setWidth, getLsbD_byteMask]
  have h64 : 8 * j + t < 64 := by omega
  by_cases hjk : j = k
  · have hge : ¬ 8 * j + t < 8 * k := by omega
    have hsub : 8 * j + t - 8 * k = t := by omega
    have ht64 : t < 64 := by omega
    simp only [if_pos hjk, hsub, ht, h64, hge, ht64, decide_true, decide_false, Bool.not_false,
      Bool.true_and, Bool.not_true, Bool.and_false, Bool.false_or]
  rw [if_neg hjk, getLsbD_setWidth, getLsbD_ushiftRight]
  by_cases hlt : 8 * j + t < 8 * k
  · simp [h64, hlt]
  have hge : ¬ 8 * j + t - 8 * k < 8 := by omega
  have hb : b.getLsbD (8 * j + t - 8 * k) = false := getLsbD_of_ge b _ (by omega)
  simp [h64, hge, hb]

lemma getByte_loadWord (bytes : Nat → Byte) (k : Nat) (hj : j < 8) :
    (loadWord bytes k >>> (8 * j)).setWidth 8 = bytes (8 * k + j) := by
  have hfold : ∀ n ≤ 8, j < n → ((List.range n).foldl
      (fun w i => replaceByte w i (bytes (8 * k + i))) 0 >>> (8 * j)).setWidth 8 = bytes (8 * k + j) := by
    intro n
    induction n with
    | zero => exact fun _ h => absurd h (Nat.not_lt_zero j)
    | succ n ih =>
      intro hn hjn
      rw [range_succ, foldl_append, foldl_cons, foldl_nil,
        getByte_replaceByte _ _ hj]
      by_cases hlast : j = n
      · rw [if_pos hlast, hlast]
      · rw [if_neg hlast, ih (by omega) (by omega)]
  exact hfold 8 (le_refl 8) hj

variable {v l : List Byte}

lemma length_overwrite (h : off + l.length ≤ v.length) :
    (overwrite v off l).length = v.length := by
  simp only [overwrite, length_append, length_take, length_drop]
  omega

lemma getElem?_overwrite (h : off ≤ v.length) (hi : off + l.length ≤ i) :
    (overwrite v off l)[i]? = v[i]? := by
  have hlength : (v.take off ++ l).length = off + l.length := by
    simp [Nat.min_eq_left h]
  rw [overwrite, getElem?_append_right (by rw [hlength]; exact hi), hlength, getElem?_drop,
    Nat.add_sub_cancel' hi]

lemma overwrite_zero : overwrite v 0 l = l ++ v.drop l.length := by
  simp [overwrite]

lemma overwrite_nil (v : List Byte) (off : Nat) : overwrite v off [] = v := by
  simp [overwrite]

namespace Core

lemma byte_setByte (c : Core) (b : Byte) {i j : Nat} (hi : i < 24) (hj : j < 24) :
    (c.setByte i b).byte j = if j = i then b else c.byte j := by
  have hj8 : j % 8 < 8 := Nat.mod_lt _ (by decide)
  have hword : ∀ k, (c.setByte i b).word k = if k = i / 8 ∨ 2 ≤ k ∧ 2 ≤ i / 8 then
      replaceByte (c.word k) (i % 8) b else c.word k := by
    intro k
    obtain hk | hk | hk : i / 8 = 0 ∨ i / 8 = 1 ∨ i / 8 = 2 := by omega
    all_goals
      rw [setByte, hk]
      match k with
      | 0 => simp [word]
      | 1 => simp [word]
      | k + 2 => simp [word]
  rw [byte, hword]
  by_cases hdiv : j / 8 = i / 8
  · rw [if_pos (.inl hdiv), getByte_replaceByte _ _ hj8]
    by_cases hji : j = i
    · rw [if_pos hji, if_pos (by rw [hji])]
    · rw [if_neg hji, if_neg (by omega)]
      rfl
  · rw [if_neg (by omega), if_neg (by omega)]
    rfl

lemma length_chars (c : Core) : c.chars.length = 24 := by
  simp [chars]

lemma getElem?_chars (c : Core) {i : Nat} (hi : i < 24) : c.chars[i]? = some (c.byte i) := by
  simp [chars, getElem?_range hi]

lemma chars_setByte (c : Core) (b : Byte) {i : Nat} (hi : i < 24) :
    (c.setByte i b).chars = c.chars.set i b := by
  refine ext_getElem? fun j => ?_
  by_cases hj : j < 24
  · rw [getElem?_chars _ hj, byte_setByte c b hi hj, getElem?_set, getElem?_chars c hj, length_chars]
    by_cases hij : i = j
    · rw [if_pos hij, if_pos hi, if_pos hij.symm]
    · rw [if_neg hij, if_neg (Ne.symm hij)]
  · rw [getElem?_eq_none (by rw [length_chars]; omega),
      getElem?_eq_none (by rw [length_set, length_chars]; omega)]

lemma chars_write (l : List Byte) (c : Core) (off : Nat) (h : off + l.length ≤ 24) :
    (c.write off l).chars = overwrite c.chars off l := by
  induction l generalizing c off with
  | nil => rw [write, overwrite_nil]
  | cons b l ih =>
    rw [List.length_cons] at h
    have hoff : off < c.chars.length := by rw [length_chars]; omega
    have htake : (c.chars.set off b).take (off + 1) = c.chars.take off ++ [b] := by
      rw [take_add_one, take_set_of_le (le_refl off), getElem?_set_self hoff]
      rfl
    have hdrop : (c.chars.set off b).drop (off + 1 + l.length) = c.chars.drop (off + 1 + l.length) :=
      drop_set_of_lt (by omega)
    rw [write, ih _ _ (by omega), chars_setByte c b (by omega), overwrite, overwrite, htake, hdrop,
      List.length_cons, List.append_assoc, List.append_assoc, List.append_assoc, List.singleton_append,
      List.cons_append, Nat.add_right_comm]
    rfl

end Core

set_option maxRecDepth 8000 in
lemma last_small : ∀ n ≤ maxSmallSize, BitVec.ofNat 8 (maxSmallSize - n) &&& 0xC0 = 0 ∧
    (BitVec.ofNat 64 maxSmallSize - (BitVec.ofNat 8 (maxSmallSize - n)).signExtend 64).toNat = n ∧
    0 ≤ (BitVec.ofNat 64 maxSmallSize - (BitVec.ofNat 8 (maxSmallSize - n)).setWidth 64).toInt ∧
    (BitVec.ofNat 64 maxSmallSize - (BitVec.ofNat 8 (maxSmallSize - n)).setWidth 64).toNat = n := by
  decide

set_option maxRecDepth 8000 in
lemma last_large : ∀ n < 256, BitVec.ofNat 8 n &&& 0xC0 ≠ 0 →
    ¬ 0 ≤ (BitVec.ofNat 64 maxSmallSize - (BitVec.ofNat 8 n).setWidth 64).toInt := by
  decide

lemma getLsbD_ofNat_of_lt (hcap : cap < 2 ^ 62) (hi : 62 ≤ i) :
    (BitVec.ofNat 64 cap).getLsbD i = false := by
  simp [getLsbD_ofNat, Nat.testBit_lt_two_pow (lt_of_lt_of_le hcap (Nat.pow_le_pow_right (by decide) hi))]

lemma getLsbD_value (cat : Category) : ∀ t < 8,
    (cat.value.getLsbD t = true → (0xC0 : Byte).getLsbD t = true) ∧
    ((0xC0 : Byte).getLsbD t = true → 6 ≤ t) := by
  cases cat <;> decide

lemma getLsbD_shifted (b : Byte) (i : Nat) (hi : i < 64) :
    (b.setWidth 64 <<< 56).getLsbD i = (!decide (i < 56) && b.getLsbD (i - 56)) := by
  rw [getLsbD_shiftLeft, getLsbD_setWidth, decide_eq_true hi,
    decide_eq_true (show i - 56 < 64 by omega), Bool.true_and, Bool.true_and]

lemma byte_encode (hcap : cap < 2 ^ 62) {cat : Category} :
    (encode cap cat >>> 56).setWidth 8 &&& 0xC0 = cat.value := by
  apply eq_of_getLsbD_eq
  intro t ht
  obtain ⟨hvalue, hmask⟩ := getLsbD_value cat t ht
  have hge : ¬ 56 + t < 56 := by omega
  rw [getLsbD_and, getLsbD_setWidth, getLsbD_ushiftRight, encode, getLsbD_or,
    getLsbD_shifted _ _ (by omega), decide_eq_true ht, decide_eq_false hge, Nat.add_sub_cancel_left]
  cases hm : (0xC0 : Byte).getLsbD t with
  | true =>
    have hcapbit := getLsbD_ofNat_of_lt hcap (show 62 ≤ 56 + t from by have := hmask hm; omega)
    simp [hcapbit]
  | false =>
    have hv : cat.value.getLsbD t = false :=
      Bool.eq_false_iff.mpr fun hv => by
        rw [hvalue hv] at hm
        cases hm
    rw [hv, Bool.and_false]

lemma toNat_encode_and (hcap : cap < 2 ^ 62) (cat : Category) :
    (encode cap cat &&& ~~~(0xC0#64 <<< 56)).toNat = cap := by
  have hmask64 : 0xC0#64 = (0xC0 : Byte).setWidth 64 := rfl
  have heq : encode cap cat &&& ~~~(0xC0#64 <<< 56) = BitVec.ofNat 64 cap := by
    apply eq_of_getLsbD_eq
    intro i hi
    rw [getLsbD_and, getLsbD_not, encode, getLsbD_or, hmask64,
      getLsbD_shifted _ _ hi, getLsbD_shifted _ _ hi, decide_eq_true hi]
    by_cases h56 : i < 56
    · simp [h56]
    obtain ⟨hvalue, hmask⟩ := getLsbD_value cat (i - 56) (by omega)
    cases hm : (0xC0 : Byte).getLsbD (i - 56) with
    | true =>
      rw [getLsbD_ofNat_of_lt hcap (by have := hmask hm; omega)]
      simp [h56]
    | false =>
      have hv : cat.value.getLsbD (i - 56) = false :=
        Bool.eq_false_iff.mpr fun hv => by
          rw [hvalue hv] at hm
          cases hm
      simp [hv]
  rw [heq, toNat_ofNat, Nat.mod_eq_of_lt]
  exact lt_trans hcap (by decide)

def Text (v l : List Byte) : Prop := ∃ r, v = l ++ 0 :: r

section Text

variable {v l : List Byte} (h : Text v l)
include h

lemma Text.length_lt : l.length < v.length := by
  obtain ⟨r, rfl⟩ := h
  rw [length_append, List.length_cons]
  omega

lemma Text.take_eq : v.take l.length = l := by
  obtain ⟨r, rfl⟩ := h
  exact List.take_left

lemma Text.take_succ_eq : v.take (l.length + 1) = l ++ [0] := by
  obtain ⟨r, rfl⟩ := h
  rw [take_append, take_of_length_le (Nat.le_succ _), Nat.add_sub_cancel_left]
  rfl

lemma Text.take_of_le {n : Nat} (hn : n ≤ l.length) : v.take n = l.take n := by
  obtain ⟨r, rfl⟩ := h
  exact take_append_of_le_length hn

lemma Text.drop_take {i n : Nat} (hn : i + n ≤ l.length) : (v.drop i).take n = (l.drop i).take n := by
  obtain ⟨r, rfl⟩ := h
  rw [List.drop_append_of_le_length (by omega), take_append_of_le_length (by rw [length_drop]; omega)]

lemma Text.take_add {n : Nat} (hn : l.length + n < v.length) :
    ∃ m, m.length = n ∧ v.take (l.length + n) = l ++ m := by
  obtain ⟨r, rfl⟩ := h
  refine ⟨(0 :: r).take n, ?_, take_length_add_append ..⟩
  rw [length_append] at hn
  rw [length_take]
  omega

lemma Text.overwrite_terminator : overwrite v l.length [0] = v := by
  obtain ⟨r, rfl⟩ := h
  rw [FBString.overwrite, List.take_left, List.length_singleton, List.append_assoc,
    List.drop_append, List.drop_of_length_le (Nat.le_succ _), Nat.add_sub_cancel_left]
  rfl

lemma Text.overwrite {off : Nat} {m : List Byte} (hm : off + m.length ≤ l.length) :
    Text (overwrite v off m) (FBString.overwrite l off m) := by
  obtain ⟨r, rfl⟩ := h
  refine ⟨r, ?_⟩
  rw [FBString.overwrite, FBString.overwrite, take_append_of_le_length (by omega),
    List.drop_append_of_le_length hm]
  simp only [List.append_assoc]

lemma Text.copy (w : List Byte) : Text (FBString.overwrite w 0 (v.take (l.length + 1))) l := by
  refine ⟨w.drop (l ++ [0]).length, ?_⟩
  rw [h.take_succ_eq, overwrite_zero]
  simp

end Text

lemma text_terminated (v : List Byte) (n : Nat) : Text (overwrite v n [0]) (v.take n) :=
  ⟨v.drop (n + 1), by rw [overwrite, List.length_singleton, List.append_assoc]; rfl⟩

inductive Form : Core → Hold Addr (List Byte) → List Byte → Prop
  | small {c : Core} {l : List Byte} (hlen : l.length ≤ maxSmallSize)
      (hlast : c.byte maxSmallSize = BitVec.ofNat 8 (maxSmallSize - l.length)) (htext : Text c.chars l) :
      Form c .nothing l
  | medium {p : Addr} {cap : Nat} {v l : List Byte} (hcap : cap < 2 ^ 62) (hlength : v.length = cap + 1)
      (htext : Text v l) : Form ⟨p, BitVec.ofNat 64 l.length, encode cap .isMedium⟩ (.own p v) l
  | large {p : Addr} {cap : Nat} {v l : List Byte} (hcap : cap < 2 ^ 62) (hlength : v.length = cap + 1)
      (htext : Text v l) : Form ⟨p, BitVec.ofNat 64 l.length, encode cap .isLarge⟩ (.share p v) l

namespace Core

variable {c : Core} {n : Nat}

section Small

variable (hn : n ≤ maxSmallSize) (hlast : c.byte maxSmallSize = BitVec.ofNat 8 (maxSmallSize - n))
include hn hlast

lemma category_small : c.category = some .isSmall := by
  rw [category, hlast, (last_small n hn).1]
  rfl

lemma smallSize_eq : c.smallSize = n := by
  rw [smallSize, hlast, (last_small n hn).2.1]

lemma getSize_small : c.getSize = n := by
  simp only [getSize, hlast]
  rw [if_pos (last_small n hn).2.2.1, (last_small n hn).2.2.2]

end Small

section Blocks

variable {p : Addr} {sz : BitVec 64} {cap : Nat} (hcap : cap < 2 ^ 62)
include hcap

lemma category_encode (cat : Category) : (Core.mk p sz (encode cap cat)).category = some cat := by
  have hbyte : (Core.mk p sz (encode cap cat)).byte maxSmallSize &&& 0xC0 = cat.value := byte_encode hcap
  rw [category, hbyte]
  cases cat <;> rfl

lemma mlCapacity_encode (cat : Category) : (Core.mk p sz (encode cap cat)).mlCapacity = cap :=
  toNat_encode_and hcap cat

lemma getSize_encode {cat : Category} (hcat : cat ≠ .isSmall) :
    (Core.mk p sz (encode cap cat)).getSize = sz.toNat := by
  have hbyte : (Core.mk p sz (encode cap cat)).byte maxSmallSize &&& 0xC0 = cat.value := byte_encode hcap
  have hlarge := last_large _ ((Core.mk p sz (encode cap cat)).byte maxSmallSize).isLt
  rw [ofNat_toNat, setWidth_eq, hbyte] at hlarge
  simp only [getSize]
  rw [if_neg (hlarge (by cases cat <;> first | exact absurd rfl hcat | decide))]

end Blocks

end Core

lemma toNat_length (hcap : cap < 2 ^ 62) (hlength : v.length = cap + 1)
    (htext : Text v l) : (BitVec.ofNat 64 l.length).toNat = l.length := by
  have hlt := htext.length_lt
  rw [toNat_ofNat, Nat.mod_eq_of_lt]
  omega

section Form

variable {c : Core} {x : Hold Addr (List Byte)} {l : List Byte} (hform : Form c x l)
include hform

lemma Form.getSize_eq : c.getSize = l.length := by
  cases hform with
  | small hlen hlast htext => exact Core.getSize_small hlen hlast
  | medium hcap hlength htext | large hcap hlength htext =>
    rw [Core.getSize_encode hcap (by decide), toNat_length hcap hlength htext]

lemma Form.destroy_eq (h : Heap) : destroy c h = release h x := by
  cases hform with
  | small hlen hlast htext => rw [destroy, Core.category_small hlen hlast]; rfl
  | medium hcap hlength htext | large hcap hlength htext =>
    rw [destroy, Core.category_encode hcap]; rfl

lemma Form.text {h : Heap} (hbacked : Backed h x) : Text (dataChars c h) l := by
  cases hform with
  | small hlen hlast htext => rwa [dataChars, if_pos (Core.category_small hlen hlast)]
  | @medium p cap v l hcap hlength htext =>
    have hh : h p = some (.owned v) := hbacked
    rw [dataChars, if_neg (by rw [Core.category_encode hcap]; decide), peek, hh]
    exact htext
  | @large p cap v l hcap hlength htext =>
    obtain ⟨n, hh⟩ := hbacked
    rw [dataChars, if_neg (by rw [Core.category_encode hcap]; decide), peek, hh]
    exact htext

lemma Form.content_eq {h : Heap} (hbacked : Backed h x) : content c h = l := by
  rw [content, hform.getSize_eq, (hform.text hbacked).take_eq]

end Form

end Acc.FBString
