import Accelerator.Decimal

namespace Acc.Conv

open List

open Decimal

def digits10 (v : UInt64) : Nat :=
  if v = 0 then 1
  else
    let bits := v.toNat.log2
    let minLength := 1 + (bits * 77) >>> 8
    minLength + (if 10 ^ minLength ≤ v.toNat then 1 else 0)

def digits10Loop (v : UInt64) (result : Nat) : Nat :=
  if v < 10 then result
  else if v < 100 then result + 1
  else if v < 1000 then result + 2
  else if v < 10000 then result + 3
  else digits10Loop (v / 10000) (result + 4)
termination_by v.toNat
decreasing_by
  rename_i h
  have hv : 10000 ≤ v.toNat := UInt64.le_iff_toNat_le.mp (UInt64.not_lt.mp h)
  rw [UInt64.toNat_div]
  exact Nat.div_lt_self (by omega) (by decide)

def fillDigits : Nat → UInt64 → Nat → List UInt8 → List UInt8
  | fuel + 1, v, pos, buffer =>
    if v ≥ 10 then
      let q := v / 10
      let r := v % 10
      fillDigits fuel q (pos - 1) (buffer.set pos (48 + r.toUInt8))
    else buffer.set pos (v.toUInt8 + 48)
  | 0, _, _, buffer => buffer

def uint64ToBufferUnsafe (v : UInt64) (buffer : List UInt8) : Nat × List UInt8 :=
  let result := digits10 v
  let pos := result - 1
  (result, fillDigits 20 v pos buffer)

def toAppendInt64 (value : Int64) (buffer : List UInt8) : List UInt8 :=
  if value < 0 then
    let (n, buffer) := uint64ToBufferUnsafe (0 - value.toUInt64) buffer
    45 :: buffer.take n
  else
    let (n, buffer) := uint64ToBufferUnsafe value.toUInt64 buffer
    buffer.take n

inductive Width
  | w8 | w16 | w32 | w64
  deriving DecidableEq, Repr

namespace Width

def bits : Width → Nat
  | w8 => 8
  | w16 => 16
  | w32 => 32
  | w64 => 64

def digits10 : Width → Nat
  | w8 => 2
  | w16 => 4
  | w32 => 9
  | w64 => 19

def maxString : Width → List UInt8
  | w8 => [50, 53, 53]
  | w16 => [54, 53, 53, 51, 53]
  | w32 => [52, 50, 57, 52, 57, 54, 55, 50, 57, 53]
  | w64 => [49, 56, 52, 52, 54, 55, 52, 52, 48, 55, 51, 55, 48, 57, 53, 53, 49, 54, 49, 53]

end Width

structure IntType where
  width : Width
  signed : Bool
  deriving DecidableEq, Repr

abbrev IntType.bits (t : IntType) : Nat := t.width.bits

def int64 : IntType := ⟨.w64, true⟩

inductive RangeError
  | check (message : String) (src : List UInt8)
  | nonWhitespace (c : UInt8) (src : List UInt8)
  deriving DecidableEq, Repr

def isspace (b : UInt8) : Bool := b == 32 || (9 ≤ b && b ≤ 13)

def strncmp : Nat → List UInt8 → List UInt8 → Ordering
  | n + 1, a :: s, b :: t =>
    if a < b then .lt else if b < a then .gt else if a = 0 then .eq else strncmp n s t
  | _, _, _ => .eq

def oor : Nat := 10000

def shift (power : Nat) (b : UInt8) : Nat := if isDigit b then digit b * power else oor

def digitsLoop (w : Nat) (result : BitVec w) : List UInt8 → BitVec w
  | b0 :: b1 :: b2 :: b3 :: rest =>
    let sum := shift 1000 b0 + shift 100 b1 + shift 10 b2 + shift 1 b3
    digitsLoop w (result * BitVec.ofNat w 10000 + BitVec.ofNat w sum) rest
  | [b0, b1, b2] =>
    let sum := shift 100 b0 + shift 10 b1 + shift 1 b2
    result * BitVec.ofNat w 1000 + BitVec.ofNat w sum
  | [b0, b1] =>
    let sum := shift 10 b0 + shift 1 b1
    result * BitVec.ofNat w 100 + BitVec.ofNat w sum
  | [b0] => result * BitVec.ofNat w 10 + BitVec.ofNat w (shift 1 b0)
  | [] => result

def digitsToChecked (w : Width) (s : List UInt8) : Except RangeError (BitVec w.bits) :=
  if w.digits10 + 1 ≤ s.length ∧
      ¬ (s.length = w.digits10 + 1 ∧ strncmp s.length s w.maxString ≠ .gt) then
    .error (.check "Numeric overflow upon conversion" s)
  else if s.length = 0 then .error (.check "Found no digits to convert in input" s)
  else .ok (digitsLoop w.bits 0 s)

def digitsTo (w : Width) (s : List UInt8) : Except RangeError (BitVec w.bits) :=
  if w.digits10 + 1 ≤ s.length ∧ s.head? = some 48 then
    match s.dropWhile (· == 48) with
    | [] => .ok 0
    | b :: s => digitsToChecked w (b :: s)
  else digitsToChecked w s

def signOf (signed : Bool) (src b : List UInt8) : Except RangeError (Bool × List UInt8) :=
  match signed, b with
  | true, c :: rest =>
    if isDigit c then .ok (false, b)
    else if c = 45 then .ok (true, rest)
    else if c = 43 then .ok (false, rest)
    else .error (.check "Invalid leading character in conversion to integral" src)
  | _, _ => .ok (false, b)

def applySign (signed negative : Bool) {w : Nat} (t : BitVec w) (src : List UInt8) :
    Except RangeError (BitVec w) :=
  if signed then
    if negative then
      if (-t).toInt ≤ 0 then .ok (-t) else .error (.check "Negative overflow" src)
    else
      if 0 ≤ t.toInt then .ok t else .error (.check "Overflow" src)
  else .ok t

def toProgress (t : IntType) (src : List UInt8) :
    Except RangeError (BitVec t.bits × List UInt8) := do
  let b := src.dropWhile isspace
  if b.isEmpty then throw (.check "No digits found in input string" src)
  let (negative, b) ← signOf t.signed src b
  match b with
  | [] => throw (.check "No digits found in input string" src)
  | c :: _ =>
    if ¬ isDigit c then throw (.check "Non-digit character found" src)
    let u ← digitsTo t.width (b.takeWhile isDigit)
    let result ← applySign t.signed negative u src
    pure (result, b.dropWhile isDigit)

def enforceWhitespace : List UInt8 → Except RangeError Unit
  | [] => .ok ()
  | b :: s => if isspace b then enforceWhitespace s else .error (.nonWhitespace b (b :: s))

def toIntegral (t : IntType) (src : List UInt8) : Except RangeError (BitVec t.bits) := do
  let (result, rest) ← toProgress t src
  enforceWhitespace rest
  pure result

lemma minLength_bounds : ∀ b < 64,
    10 ^ ((b * 77) >>> 8) ≤ 2 ^ b ∧ 2 ^ (b + 1) ≤ 10 ^ (1 + (b * 77) >>> 8 + 1) := by
  decide

lemma digits10_eq (v : UInt64) : digits10 v = (text v.toNat).length := by
  rw [digits10]
  split
  · rename_i h
    rw [h]
    rfl
  rename_i hv
  have hne : v.toNat ≠ 0 := fun h => hv (UInt64.toNat_inj.mp h)
  have hbits : v.toNat.log2 < 64 := (Nat.log2_lt hne).mpr v.toNat_lt
  obtain ⟨hlo, hhi⟩ := minLength_bounds _ hbits
  have hv1 := Nat.log2_self_le hne
  have hv2 : v.toNat < 2 ^ (v.toNat.log2 + 1) := Nat.lt_log2_self
  set k := (v.toNat.log2 * 77) >>> 8
  change 1 + k + (if 10 ^ (1 + k) ≤ v.toNat then 1 else 0) = _
  by_cases hge : 10 ^ (1 + k) ≤ v.toNat
  · rw [if_pos hge, text_length (k := 1 + k) (Or.inl hge) (lt_of_lt_of_le hv2 hhi)]
  · rw [add_comm 1 k] at hge ⊢
    rw [if_neg hge, text_length (k := k) (Or.inl (hlo.trans hv1)) (lt_of_not_ge hge)]

lemma digits10Loop_eq (v : UInt64) (result : Nat) :
    digits10Loop v result + 1 = result + (text v.toNat).length := by
  have hge {v c : UInt64} (h : ¬ v < c) : c.toNat ≤ v.toNat :=
    UInt64.le_iff_toNat_le.mp (UInt64.not_lt.mp h)
  fun_induction digits10Loop v result with
  | case1 v result hlt => rw [text_length (k := 0) (Or.inr rfl) (UInt64.lt_iff_toNat_lt.mp hlt)]
  | case2 v result h hlt =>
    rw [text_length (k := 1) (Or.inl (hge h)) (UInt64.lt_iff_toNat_lt.mp hlt)]
  | case3 v result _ h hlt =>
    rw [text_length (k := 2) (Or.inl (hge h)) (UInt64.lt_iff_toNat_lt.mp hlt)]
  | case4 v result _ _ h hlt =>
    rw [text_length (k := 3) (Or.inl (hge h)) (UInt64.lt_iff_toNat_lt.mp hlt)]
  | case5 v result _ _ _ h ih =>
    have hv : 10000 ≤ v.toNat := hge h
    have hdiv : (v / 10000).toNat = v.toNat / 10 / 10 / 10 / 10 := by
      rw [Nat.div_div_eq_div_mul, Nat.div_div_eq_div_mul, Nat.div_div_eq_div_mul]
      rfl
    have h1 : 10 ≤ v.toNat / 10 := by omega
    have h2 : 10 ≤ v.toNat / 10 / 10 := by omega
    have h3 : 10 ≤ v.toNat / 10 / 10 / 10 := by omega
    rw [ih, hdiv, text_length_div (n := v.toNat) (by omega), text_length_div h1, text_length_div h2,
      text_length_div h3]
    ring

variable {buffer s : List UInt8}

lemma drop_set_self {pos : Nat} (h : pos < buffer.length) (b : UInt8) :
    (buffer.set pos b).drop pos = b :: buffer.drop (pos + 1) := by
  rw [set_eq_take_append_cons_drop, if_pos h, drop_left' (length_take_of_le h.le)]

lemma fillDigits_last {v : UInt64} {pos : Nat} (hv : v.toNat < 10)
    (hlen : (text v.toNat).length = pos + 1) (hpos : pos < buffer.length) (fuel : Nat) :
    fillDigits (fuel + 1) v pos buffer = text v.toNat ++ buffer.drop (pos + 1) := by
  have hlt : ¬ v ≥ 10 := fun h => absurd (UInt64.le_iff_toNat_le.mp h) (by simpa using hv)
  have htext := text_eq v.toNat
  rw [if_pos hv, nil_append, Nat.mod_eq_of_lt hv] at htext
  rw [htext, length_singleton] at hlen
  have hzero : pos = 0 := by omega
  have hbyte : v.toUInt8 + 48 = (48 + v.toNat).toUInt8 := by
    simp [add_comm]
  rw [fillDigits, if_neg hlt, htext, hzero, hbyte]
  have h := drop_set_self (hzero ▸ hpos) (48 + v.toNat).toUInt8
  rwa [drop_zero] at h

lemma fillDigits_eq (fuel : Nat) (v : UInt64) (pos : Nat) (buffer : List UInt8)
    (hfuel : v.toNat < 10 ^ (fuel + 1)) (hlen : (text v.toNat).length = pos + 1)
    (hpos : pos < buffer.length) :
    fillDigits (fuel + 1) v pos buffer = text v.toNat ++ buffer.drop (pos + 1) := by
  induction fuel generalizing v pos buffer with
  | zero => exact fillDigits_last (by omega) hlen hpos _
  | succ fuel ih =>
    have hten : v ≥ 10 ↔ 10 ≤ v.toNat := UInt64.le_iff_toNat_le
    have htext := text_eq v.toNat
    by_cases hge : v ≥ 10
    · rw [fillDigits, if_pos hge]
      have h10 := hten.mp hge
      have hq : (v / 10).toNat = v.toNat / 10 := by simp
      have hr : 48 + (v % 10).toUInt8 = (48 + v.toNat % 10).toUInt8 := by
        apply UInt8.toNat_inj.mp
        simp
      rw [if_neg (by omega)] at htext
      rw [htext, length_append, length_singleton] at hlen
      have hne := length_pos_of_ne_nil (text_ne_nil (v.toNat / 10))
      rw [ih (v / 10) (pos - 1) _ (by rw [hq]; rw [pow_succ] at hfuel; omega)
        (by rw [hq]; omega) (by rw [length_set]; omega), hq, htext, hr,
        Nat.sub_add_cancel (by omega), append_assoc, singleton_append,
        drop_set_self hpos]
    · exact fillDigits_last (lt_of_not_ge fun h => hge (hten.mpr h)) hlen hpos _

lemma toNat_lt_pow (v : UInt64) : v.toNat < 10 ^ 20 := lt_trans v.toNat_lt (by norm_num)

lemma uint64ToBufferUnsafe_spec {v : UInt64} (h : digits10 v ≤ buffer.length) :
    uint64ToBufferUnsafe v buffer = (digits10 v, text v.toNat ++ buffer.drop (digits10 v)) := by
  have hlen := digits10_eq v
  have hpos := length_pos_of_ne_nil (text_ne_nil v.toNat)
  rw [uint64ToBufferUnsafe]
  rw [fillDigits_eq 19 v _ buffer (toNat_lt_pow v) (by omega) (by omega),
    Nat.sub_add_cancel (by omega)]

lemma uint64ToBufferUnsafe_eq (v : UInt64) (buffer : List UInt8) (h : buffer.length = 20) :
    (uint64ToBufferUnsafe v buffer).2.take (uint64ToBufferUnsafe v buffer).1 = text v.toNat := by
  have hlen := digits10_eq v
  have hmax : (text v.toNat).length ≤ 20 := text_length_le (by omega) (toNat_lt_pow v)
  rw [uint64ToBufferUnsafe_spec (by omega), hlen]
  exact take_left

lemma toNat_abs (value : Int64) :
    (if value.toInt < 0 then 0 - value.toUInt64 else value.toUInt64).toNat =
      value.toInt.natAbs := by
  have hint : value.toInt = value.toBitVec.toInt := rfl
  have hpos : value.toUInt64.toNat = value.toBitVec.toNat := rfl
  have hneg : (0 - value.toUInt64).toNat = (2 ^ 64 - value.toBitVec.toNat + 0) % 2 ^ 64 := rfl
  rw [hint, BitVec.toInt_eq_toNat_cond]
  by_cases hs : 2 * value.toBitVec.toNat < 2 ^ 64
  · rw [if_pos hs, if_neg (by omega), hpos]
    omega
  · rw [if_neg hs, if_pos (by omega), hneg]
    omega

lemma toAppendInt64_eq (value : Int64) (buffer : List UInt8) (h : buffer.length = 20) :
    toAppendInt64 value buffer =
      if value.toInt < 0 then 45 :: text value.toInt.natAbs else text value.toInt.natAbs := by
  have hneg : value < 0 ↔ value.toInt < 0 := Int64.lt_iff_toInt_lt
  have habs := toNat_abs value
  rw [toAppendInt64]
  by_cases hlt : value.toInt < 0
  · rw [if_pos hlt] at habs
    rw [if_pos (hneg.mpr hlt), if_pos hlt, ← habs, ← uint64ToBufferUnsafe_eq _ buffer h]
  · rw [if_neg hlt] at habs
    rw [if_neg (fun h => hlt (hneg.mp h)), if_neg hlt, ← habs,
      ← uint64ToBufferUnsafe_eq _ buffer h]

lemma shift_eq {b : UInt8} (h : isDigit b = true) (power : Nat) :
    shift power b = digit b * power := by
  rw [shift, if_pos h]

lemma ofNat_value_append (w : Nat) (r : BitVec w) (chunk rest : List UInt8) :
    (r * BitVec.ofNat w (10 ^ chunk.length) + BitVec.ofNat w (value chunk)) *
        BitVec.ofNat w (10 ^ rest.length) + BitVec.ofNat w (value rest) =
      r * BitVec.ofNat w (10 ^ (chunk ++ rest).length) +
        BitVec.ofNat w (value (chunk ++ rest)) := by
  rw [value_append, length_append, pow_add, BitVec.ofNat_add, BitVec.ofNat_mul,
    BitVec.ofNat_mul]
  ring

lemma digitsLoop_eq (w : Nat) (s : List UInt8) (hs : ∀ b ∈ s, isDigit b = true)
    (r : BitVec w) : digitsLoop w r s =
      r * BitVec.ofNat w (10 ^ s.length) + BitVec.ofNat w (value s) := by
  induction r, s using digitsLoop.induct with
  | case1 r b0 b1 b2 b3 rest sum ih =>
    simp only [mem_cons, forall_eq_or_imp] at hs
    obtain ⟨h0, h1, h2, h3, hrest⟩ := hs
    have hsum : sum = value [b0, b1, b2, b3] := by
      simp only [sum, value_cons, value_nil, shift_eq h0, shift_eq h1, shift_eq h2, shift_eq h3,
        length_cons, length_nil]
      omega
    have happ := ofNat_value_append w r [b0, b1, b2, b3] rest
    rw [show 10 ^ [b0, b1, b2, b3].length = 10000 by norm_num] at happ
    rw [digitsLoop, ih hrest, hsum]
    exact happ
  | case2 r b0 b1 b2 =>
    simp only [mem_cons, forall_eq_or_imp] at hs
    obtain ⟨h0, h1, h2, -⟩ := hs
    have hsum : shift 100 b0 + shift 10 b1 + shift 1 b2 = value [b0, b1, b2] := by
      simp only [value_cons, value_nil, shift_eq h0, shift_eq h1, shift_eq h2,
        length_cons, length_nil]
      omega
    rw [digitsLoop, show 10 ^ [b0, b1, b2].length = 1000 by norm_num]
    simp only [hsum]
  | case3 r b0 b1 =>
    simp only [mem_cons, forall_eq_or_imp] at hs
    obtain ⟨h0, h1, -⟩ := hs
    have hsum : shift 10 b0 + shift 1 b1 = value [b0, b1] := by
      simp only [value_cons, value_nil, shift_eq h0, shift_eq h1,
        length_cons, length_nil]
      omega
    rw [digitsLoop, show 10 ^ [b0, b1].length = 100 by norm_num]
    simp only [hsum]
  | case4 r b0 =>
    have hsum : shift 1 b0 = value [b0] := by
      simp only [value_cons, value_nil, shift_eq (hs b0 (mem_singleton_self _)),
        length_nil]
      omega
    rw [digitsLoop, hsum]
    rfl
  | case5 r => simp [digitsLoop, value]

lemma strncmp_digits {t : List UInt8} (hlen : s.length = t.length)
    (hs : ∀ b ∈ s, isDigit b = true) (ht : ∀ b ∈ t, isDigit b = true) :
    strncmp s.length s t ≠ .gt ↔ value s ≤ value t := by
  induction s generalizing t with
  | nil =>
    cases t with
    | nil => simp [strncmp]
    | cons c t => simp at hlen
  | cons b s ih =>
    cases t with
    | nil => simp at hlen
    | cons c t =>
      simp only [mem_cons, forall_eq_or_imp] at hs ht
      have hlen' : s.length = t.length := by simpa using hlen
      have hb := isDigit_iff.mp hs.1
      have hc := isDigit_iff.mp ht.1
      have hdigit : ∀ {x y : UInt8}, 48 ≤ x.toNat → x < y → digit x < digit y := by
        intro x y hx hxy
        rw [UInt8.lt_iff_toNat_lt] at hxy
        simp only [digit]
        omega
      rw [length_cons, strncmp]
      rcases lt_trichotomy b.toNat c.toNat with hlt | heq | hgt
      · have hbc := UInt8.lt_iff_toNat_lt.mpr hlt
        have := value_lt_of_digit_lt hlen' hs.2 (hdigit hb.1 hbc)
        simp [hbc, this.le]
      · have hne : ¬ b = 0 := by
          rintro rfl
          exact absurd hb.1 (by decide)
        have hbc := UInt8.toNat_inj.mp heq
        subst hbc
        have hirr : ¬ b < b := fun h => absurd (UInt8.lt_iff_toNat_lt.mp h) (lt_irrefl _)
        rw [if_neg hirr, if_neg hirr, if_neg hne, ih hlen' hs.2 ht.2, value_cons, value_cons,
          hlen']
        omega
      have hcb := UInt8.lt_iff_toNat_lt.mpr hgt
      have hbc : ¬ b < c := fun h => absurd (UInt8.lt_iff_toNat_lt.mp h) (by omega)
      have := value_lt_of_digit_lt hlen'.symm ht.2 (hdigit hc.1 hcb)
      simp [hcb, hbc, this]

set_option maxRecDepth 8000 in
lemma maxString_spec (w : Width) : w.maxString.length = w.digits10 + 1 ∧
    (∀ b ∈ w.maxString, isDigit b = true) ∧ value w.maxString + 1 = 2 ^ w.bits ∧
      10 ^ w.digits10 ≤ 2 ^ w.bits ∧ 2 ^ w.bits ≤ 10 ^ (w.digits10 + 1) := by
  cases w <;> decide

lemma digitsToChecked_eq (w : Width) (hs : ∀ b ∈ s, isDigit b = true)
    (hne : s ≠ []) (hzero : w.digits10 + 1 < s.length → ∀ b rest, s = b :: rest → b ≠ 48) :
    digitsToChecked w s = if value s < 2 ^ w.bits then .ok (BitVec.ofNat _ (value s))
      else .error (.check "Numeric overflow upon conversion" s) := by
  obtain ⟨hlen, hdigits, hmax, hlo, hhi⟩ := maxString_spec w
  have hok : digitsLoop w.bits 0 s = BitVec.ofNat _ (value s) := by
    rw [digitsLoop_eq w.bits s hs]
    simp
  have hpos := length_pos_of_ne_nil hne
  have hrange : (w.digits10 + 1 ≤ s.length ∧
      ¬ (s.length = w.digits10 + 1 ∧ strncmp s.length s w.maxString ≠ .gt)) ↔
      ¬ value s < 2 ^ w.bits := by
    rcases lt_trichotomy s.length (w.digits10 + 1) with hshort | heq | hlong
    · have hv : value s < 2 ^ w.bits := by
        have hpow : 10 ^ s.length ≤ 10 ^ w.digits10 := Nat.pow_le_pow_right (by omega) (by omega)
        have := value_lt hs
        omega
      omega
    · rw [strncmp_digits (heq.trans hlen.symm) hs hdigits]
      omega
    have hv : 10 ^ (w.digits10 + 1) ≤ value s := by
      obtain ⟨b, rest, rfl⟩ := exists_cons_of_ne_nil hne
      have hb := isDigit_iff.mp (hs b (mem_cons_self ..))
      have hb48 := hzero hlong b rest rfl
      have hd : 1 ≤ digit b := by
        have : b.toNat ≠ 48 := fun h => hb48 (UInt8.toNat_inj.mp h)
        rw [digit]
        omega
      have hpow : 10 ^ (w.digits10 + 1) ≤ 10 ^ rest.length :=
        Nat.pow_le_pow_right (by omega) (by simp only [length_cons] at hlong; omega)
      exact hpow.trans (le_value_cons hd)
    omega
  rw [digitsToChecked, hok]
  by_cases hv : value s < 2 ^ w.bits
  · rw [if_neg (fun h => hrange.mp h hv), if_neg (by omega), if_pos hv]
  · rw [if_pos (hrange.mpr hv), if_neg hv]

lemma digitsTo_eq (w : Width) (hs : ∀ b ∈ s, isDigit b = true) (hne : s ≠ []) :
    ∃ rest, digitsTo w s = if value s < 2 ^ w.bits then .ok (BitVec.ofNat _ (value s))
      else .error (.check "Numeric overflow upon conversion" rest) := by
  have hdrop := value_dropWhile_zero s
  rw [digitsTo]
  split
  · rename_i hcond
    split
    · rename_i hnil
      rw [hnil, value_nil] at hdrop
      refine ⟨s, ?_⟩
      rw [← hdrop, if_pos (by positivity)]
      rfl
    rename_i b rest hcons
    have hmem : ∀ c ∈ b :: rest, isDigit c = true := fun c hc =>
      hs c ((dropWhile_suffix _).subset (hcons ▸ hc))
    have hb : b ≠ 48 := by
      intro hb48
      have hhead := head?_dropWhile_not (· == 48) s
      simp [hcons, hb48] at hhead
    refine ⟨b :: rest, ?_⟩
    rw [digitsToChecked_eq w hmem (cons_ne_nil _ _), ← hcons, hdrop]
    intro _ b' rest' heq
    simp only [List.cons.injEq] at heq
    exact heq.1 ▸ hb
  rename_i hcond
  refine ⟨s, ?_⟩
  rw [digitsToChecked_eq w hs hne]
  rintro hlong b rest rfl rfl
  exact hcond ⟨by omega, rfl⟩

lemma digitsTo_ok (w : Width) (hs : ∀ b ∈ s, isDigit b = true)
    (hne : s ≠ []) (hv : value s < 2 ^ w.bits) : digitsTo w s = .ok (BitVec.ofNat _ (value s)) := by
  obtain ⟨rest, heq⟩ := digitsTo_eq w hs hne
  rw [heq, if_pos hv]

lemma takeWhile_digits {ds rest : List UInt8} (hds : ∀ b ∈ ds, isDigit b = true)
    (hrest : ∀ b ∈ rest.head?, isDigit b = false) :
    (ds ++ rest).takeWhile isDigit = ds ∧ (ds ++ rest).dropWhile isDigit = rest := by
  rw [takeWhile_append_of_pos hds, dropWhile_append_of_pos hds]
  cases rest with
  | nil => simp
  | cons b rest =>
    have hb : ¬ isDigit b = true := by simpa using hrest b rfl
    rw [takeWhile_cons_of_neg hb, dropWhile_cons_of_neg hb, append_nil]
    exact ⟨rfl, rfl⟩

set_option maxRecDepth 8000 in
lemma isspace_of_isDigit {b : UInt8} (h : isDigit b = true) : isspace b = false := by
  revert h b
  decide

end Acc.Conv
