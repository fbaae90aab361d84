import Accelerator.Json.Reads

namespace Acc.Json

open List UInt32

open Input Unicode

def ReadsBody (body s : List UInt8) : Prop :=
  ∀ (fuel : Nat) (ret rest : List UInt8) (line level : UInt32), body.length + 1 ≤ fuel →
    ∃ line', parseStringLoop fuel ret ⟨body ++ 34 :: rest, line, level⟩ =
      .ok (ret ++ s, ⟨rest, line', level⟩)

lemma parseStringLoop_quote (fuel : Nat) (ret rest : List UInt8) (line level : UInt32) :
    parseStringLoop (fuel + 1) ret ⟨34 :: rest, line, level⟩ =
      .ok (ret, ⟨rest, line + ofNat 0, level⟩) := by
  simp [parseStringLoop, skipWhile, is_cons]
  rfl

lemma parseStringLoop_backslash (fuel : Nat) (ret rest : List UInt8) (line level : UInt32) :
    parseStringLoop (fuel + 1) ret ⟨92 :: rest, line, level⟩ =
      (parseEscape ⟨rest, line + ofNat 0, level⟩ >>= fun r =>
        parseStringLoop fuel (ret ++ r.1) r.2) := by
  simp [parseStringLoop, skipWhile, is_cons]

lemma skipWhile_cons (p : UInt8 → Bool) {b : UInt8} (hb : p b = true) (rest : List UInt8)
    (line level : UInt32) : skipWhile ⟨b :: rest, line, level⟩ p =
      let r := skipWhile ⟨rest, line + ofNat (if b = 10 then 1 else 0), level⟩ p
      (b :: r.1, r.2) := by
  have hline : ∀ n : Nat, line + ofNat (n + if b = 10 then 1 else 0) =
      line + ofNat (if b = 10 then 1 else 0) + ofNat n := by
    intro n
    rw [ofNat_add, UInt32.add_assoc, UInt32.add_comm (ofNat n)]
  simp only [skipWhile, takeWhile_cons_of_pos hb, length_cons, drop_succ_cons,
    count_cons, beq_iff_eq, hline]

lemma parseStringLoop_plain {b : UInt8} (hq : b ≠ 34) (hs : b ≠ 92) (fuel : Nat)
    (ret rest : List UInt8) (line level : UInt32) :
    parseStringLoop (fuel + 1) ret ⟨b :: rest, line, level⟩ =
      parseStringLoop (fuel + 1) (ret ++ [b])
        ⟨rest, line + ofNat (if b = 10 then 1 else 0), level⟩ := by
  rw [parseStringLoop, parseStringLoop, skipWhile_cons _ (by simp [hq, hs])]
  simp only [append_assoc, singleton_append]

lemma readsBody_nil : ReadsBody [] [] := by
  intro fuel ret rest line level hfuel
  obtain ⟨fuel, rfl⟩ : ∃ n, fuel = n + 1 := ⟨fuel - 1, by omega⟩
  exact ⟨_, by rw [nil_append, parseStringLoop_quote, append_nil]⟩

variable {body s : List UInt8}

lemma readsBody_plain {b : UInt8} (hq : b ≠ 34) (hs : b ≠ 92)
    (h : ReadsBody body s) : ReadsBody (b :: body) (b :: s) := by
  intro fuel ret rest line level hfuel
  rw [length_cons] at hfuel
  obtain ⟨fuel, rfl⟩ : ∃ n, fuel = n + 1 := ⟨fuel - 1, by omega⟩
  obtain ⟨line', hloop⟩ := h (fuel + 1) (ret ++ [b]) rest
    (line + ofNat (if b = 10 then 1 else 0)) level (by omega)
  refine ⟨line', ?_⟩
  rw [cons_append, parseStringLoop_plain hq hs, hloop, append_assoc,
    singleton_append]

def ReadsEscape (esc out : List UInt8) : Prop :=
  ∀ (rest : List UInt8) (line level : UInt32),
    parseEscape ⟨esc ++ rest, line, level⟩ = .ok (out, ⟨rest, line, level⟩)

lemma readsBody_escape {esc out : List UInt8} (hesc : ReadsEscape esc out)
    (h : ReadsBody body s) : ReadsBody (92 :: (esc ++ body)) (out ++ s) := by
  intro fuel ret rest line level hfuel
  rw [length_cons, length_append] at hfuel
  obtain ⟨fuel, rfl⟩ : ∃ n, fuel = n + 1 := ⟨fuel - 1, by omega⟩
  obtain ⟨line', hloop⟩ := h fuel (ret ++ out) rest (line + ofNat 0) level (by omega)
  refine ⟨line', ?_⟩
  rw [cons_append, append_assoc, parseStringLoop_backslash, hesc]
  simp only [bind, Except.bind, hloop, append_assoc]

lemma readsString_of_body (h : ReadsBody body s) : ReadsString (34 :: (body ++ [34])) s := by
  refine ⟨⟨_, rfl⟩, fun rest line level => ?_⟩
  obtain ⟨line', hloop⟩ := h ((34 :: (body ++ 34 :: rest)).length + 1) [] rest line level
    (by simp; omega)
  refine ⟨line', ?_⟩
  rw [cons_append, append_assoc, singleton_append, parseString, next_cons, hloop,
    nil_append]

def shortEscapes : List (UInt8 × UInt8) :=
  [(34, 34), (92, 92), (47, 47), (98, 8), (102, 12), (110, 10), (114, 13), (116, 9)]

lemma parseEscape_short {c b : UInt8} (h : (c, b) ∈ shortEscapes) : ReadsEscape [c] [b] := by
  intro rest line level
  simp only [shortEscapes, mem_cons, Prod.mk.injEq, not_mem_nil, or_false] at h
  rcases h with ⟨rfl, rfl⟩ | ⟨rfl, rfl⟩ | ⟨rfl, rfl⟩ | ⟨rfl, rfl⟩ | ⟨rfl, rfl⟩ | ⟨rfl, rfl⟩ |
    ⟨rfl, rfl⟩ | ⟨rfl, rfl⟩ <;>
  simp [parseEscape, is_cons]

def hexByte (upper : Bool) (n : Nat) : UInt8 :=
  if n < 10 then UInt8.ofNat (48 + n)
  else if upper then UInt8.ofNat (55 + n) else UInt8.ofNat (87 + n)

lemma hexVal_hexByte (upper : Bool) {n : Nat} (hn : n < 16) (rest : List UInt8)
    (line level : UInt32) : hexVal ⟨hexByte upper n :: rest, line, level⟩ = .ok n := by
  interval_cases n <;> cases upper <;> rfl

structure Hex4 where
  digits : Fin 4 → Fin 16
  upper : Fin 4 → Bool

lemma neZero_sixteen : NeZero 16 := ⟨by decide⟩

namespace Hex4

def text (h : Hex4) : List UInt8 :=
  [hexByte (h.upper 0) (h.digits 0), hexByte (h.upper 1) (h.digits 1),
    hexByte (h.upper 2) (h.digits 2), hexByte (h.upper 3) (h.digits 3)]

def val (h : Hex4) : Nat :=
  h.digits 0 * 4096 + h.digits 1 * 256 + h.digits 2 * 16 + h.digits 3

lemma val_lt (h : Hex4) : h.val < 65536 := by
  rw [val]
  omega

end Hex4

lemma readHex_text (h : Hex4) (rest : List UInt8) (line level : UInt32) :
    readHex ⟨h.text ++ rest, line, level⟩ = .ok (h.val, ⟨rest, line, level⟩) := by
  simp only [readHex, Hex4.text, cons_append, nil_append, next_cons, bind, Except.bind,
    hexVal_hexByte _ (Fin.isLt _), length_cons]
  rfl

abbrev IsHighSurrogate (n : Nat) : Prop := 0xd800 ≤ n ∧ n ≤ 0xdbff

abbrev IsLowSurrogate (n : Nat) : Prop := 0xdc00 ≤ n ∧ n ≤ 0xdfff

lemma parseEscape_unicode {h : Hex4} (hhigh : ¬ IsHighSurrogate h.val)
    (hlow : ¬ IsLowSurrogate h.val) :
    ReadsEscape (117 :: h.text) (codePointToUtf8 (ofNat h.val)) := by
  intro rest line level
  have hu : parseEscape ⟨117 :: (h.text ++ rest), line, level⟩ =
      decodeUnicodeEscape ⟨h.text ++ rest, line, level⟩ := by
    simp [parseEscape, is_cons]
  rw [cons_append, hu, decodeUnicodeEscape, readHex_text]
  simp only [bind, Except.bind]
  rw [if_neg hhigh, if_neg hlow]
  rfl

def pairValue (high low : Nat) : Nat := 0x10000 + (high - 0xd800) * 0x400 + (low - 0xdc00)

lemma pairValue_eq {high low : Nat} (hhigh : IsHighSurrogate high) (hlow : IsLowSurrogate low) :
    0x10000 + ((high &&& 0x3ff) <<< 10) + (low &&& 0x3ff) = pairValue high low := by
  have hmask : ∀ n : Nat, n &&& 0x3ff = n % 1024 := by
    intro n
    simpa using Nat.and_two_pow_sub_one_eq_mod n 10
  have hshift : ∀ n : Nat, n <<< 10 = n * 1024 := by
    intro n
    simpa using Nat.shiftLeft_eq n 10
  rw [hmask, hmask, hshift]
  unfold pairValue
  omega

lemma parseEscape_pair {h l : Hex4} (hhigh : IsHighSurrogate h.val)
    (hlow : IsLowSurrogate l.val) : ReadsEscape (117 :: (h.text ++ (92 :: 117 :: l.text)))
      (codePointToUtf8 (ofNat (pairValue h.val l.val))) := by
  intro rest line level
  have hu : parseEscape ⟨117 :: (h.text ++ (92 :: 117 :: (l.text ++ rest))), line, level⟩ =
      decodeUnicodeEscape ⟨h.text ++ (92 :: 117 :: (l.text ++ rest)), line, level⟩ := by
    simp [parseEscape, is_cons]
  rw [cons_append, append_assoc, cons_append, cons_append, hu,
    decodeUnicodeEscape, readHex_text]
  simp only [bind, Except.bind]
  rw [if_pos hhigh]
  simp only [consume, List.isPrefixOf, beq_self_eq_true, Bool.and_self, if_true, length_cons,
    length_nil, drop_succ_cons, drop_zero, readHex_text]
  rw [if_pos hlow, pairValue_eq hhigh hlow]
  rfl

end Acc.Json
