import Mathlib

namespace Acc.Unicode

def codePointToUtf8 (cp : UInt32) : List UInt8 :=
  if cp ≤ 0x7f then [cp.toUInt8]
  else if cp ≤ 0x7FF then
    [((0xC0 : UInt32) ||| (cp >>> 6)).toUInt8, ((0x80 : UInt32) ||| (0x3f &&& cp)).toUInt8]
  else if cp ≤ 0xFFFF then
    [((0xE0 : UInt32) ||| (cp >>> 12)).toUInt8, ((0x80 : UInt32) ||| ((0x3f : UInt32) &&& (cp >>> 6))).toUInt8,
      ((0x80 : UInt32) ||| (0x3f &&& cp)).toUInt8]
  else if cp ≤ 0x10FFFF then
    [((0xF0 : UInt32) ||| (cp >>> 18)).toUInt8, ((0x80 : UInt32) ||| ((0x3f : UInt32) &&& (cp >>> 12))).toUInt8,
      ((0x80 : UInt32) ||| ((0x3f : UInt32) &&& (cp >>> 6))).toUInt8, ((0x80 : UInt32) ||| (0x3f &&& cp)).toUInt8]
  else []

def bitMask : Nat → UInt32
  | 0 => 0x7f
  | 1 => 0x7ff
  | 2 => 0xffff
  | _ => 0x1fffff

inductive DecodeError
  | empty (name : String)
  | value (name : String) (i : Nat) (d : UInt32)
  | continuation (name : String) (i : Nat) (tmp : UInt8)
  | maxedOut (name : String)
  deriving DecidableEq, Repr

def decodeLoop (name : String) (i : Nat) (fst : UInt8) (d : UInt32) :
    List UInt8 → Except DecodeError (UInt32 × Nat)
  | [] => .error (.maxedOut name)
  | tmp :: rest =>
    if i = 3 then .error (.maxedOut name)
    else if tmp &&& 0xC0 ≠ 0x80 then .error (.continuation name i tmp)
    else
      let d := (d <<< 6) ||| (tmp &&& 0x3F).toUInt32
      let fst := fst <<< 1
      if fst &&& 0x80 = 0 then
        let d := d &&& bitMask i
        if d &&& ~~~ (bitMask (i - 1)) = 0 then .error (.value name i d)
        else if i = 2 ∧ ((0xD800 ≤ d ∧ d ≤ 0xDFFF) ∨ d > 0x10FFFF) then
          .error (.value name i d)
        else .ok (d, i + 1)
      else decodeLoop name (i + 1) fst d rest

def decodeStrict (name : String) : List UInt8 → Except DecodeError (UInt32 × Nat)
  | [] => .error (.empty name)
  | fst :: rest =>
    if fst &&& 0x80 = 0 then .ok (fst.toUInt32, 1)
    else if fst &&& 0xC0 ≠ 0xC0 then .error (.value name 0 fst.toUInt32)
    else decodeLoop name 1 (fst <<< 1) fst.toUInt32 rest

def decode (name : String) (s : List UInt8) (skipOnError : Bool) :
    Except DecodeError (UInt32 × List UInt8) :=
  match decodeStrict name s with
  | .ok (d, n) => .ok (d, s.drop n)
  | .error e => if skipOnError then .ok (0xfffd, s.drop 1) else .error e

def utf8ToCodePoint (s : List UInt8) (skipOnError : Bool) :
    Except DecodeError (UInt32 × List UInt8) :=
  decode "folly::utf8ToCodePoint" s skipOnError

lemma or_lead2 : ∀ x < 0x20, 0xC0 ||| x = x % 0x20 + 0xc0 := by decide

lemma or_lead3 : ∀ x < 0x10, 0xE0 ||| x = x % 0x10 + 0xe0 := by decide

lemma or_lead4 : ∀ x < 0x08, 0xF0 ||| x = x % 0x08 + 0xf0 := by decide

lemma or_low6 : ∀ x < 0x40, 0x80 ||| x = x + 0x80 := by decide

lemma and_low6 (n : Nat) : 0x3f &&& n = n % 0x40 := by
  rw [Nat.and_comm]
  exact Nat.and_two_pow_sub_one_eq_mod n 6

lemma continuation_eq (cp : UInt32) :
    ((0x80 : UInt32) ||| (0x3f &&& cp)).toUInt8 = UInt8.ofNat (cp.toNat % 0x40 + 0x80) := by
  have hlt := Nat.mod_lt cp.toNat (show 0 < 0x40 by omega)
  apply UInt8.toNat_inj.mp
  rw [UInt32.toNat_toUInt8, UInt32.toNat_or, UInt32.toNat_and, UInt8.toNat_ofNat']
  rw [show UInt32.toNat 0x80 = 0x80 from rfl, show UInt32.toNat 0x3f = 0x3f from rfl, and_low6,
    or_low6 _ hlt]

lemma lead_eq {cp mark : UInt32} {x m : Nat} (hx : cp.toNat = x)
    (h : mark.toNat ||| x = x % m + mark.toNat) :
    (mark ||| cp).toUInt8 = UInt8.ofNat (x % m + mark.toNat) := by
  apply UInt8.toNat_inj.mp
  rw [UInt32.toNat_toUInt8, UInt32.toNat_or, UInt8.toNat_ofNat', hx, h]

lemma char_le (c : Char) : c.val.toNat ≤ 0x10FFFF := by
  have h : c.val.toNat.isValidChar := c.valid
  rcases h with h | h
  · exact le_trans h.le (by decide)
  · exact Nat.le_of_lt_succ h.2

lemma codePointToUtf8_char (c : Char) : codePointToUtf8 c.val = String.utf8EncodeChar c := by
  have hmax := char_le c
  have h6 : (c.val >>> 6).toNat = c.val.toNat / 64 := by
    rw [UInt32.toNat_shiftRight, Nat.shiftRight_eq_div_pow]
    rfl
  have h12 : (c.val >>> 12).toNat = c.val.toNat / 4096 := by
    rw [UInt32.toNat_shiftRight, Nat.shiftRight_eq_div_pow]
    rfl
  have h18 : (c.val >>> 18).toNat = c.val.toNat / 262144 := by
    rw [UInt32.toNat_shiftRight, Nat.shiftRight_eq_div_pow]
    rfl
  simp only [codePointToUtf8, String.utf8EncodeChar, UInt32.le_iff_toNat_le, continuation_eq, h6,
    h12]
  simp only [UInt32.reduceToNat, if_pos hmax]
  split_ifs with h1 h2 h3
  · rfl
  · rw [lead_eq h6 (or_lead2 _ (by omega))]
    rfl
  · rw [lead_eq h12 (or_lead3 _ (by omega))]
    rfl
  · rw [lead_eq h18 (or_lead4 _ (by omega))]
    rfl

end Acc.Unicode
