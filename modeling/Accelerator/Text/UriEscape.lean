import Mathlib

namespace Acc.Text

open List

inductive UriEscapeMode
  | ALL
  | QUERY
  | PATH
  deriving DecidableEq, Repr

def UriEscapeMode.minEncode : UriEscapeMode → Nat
  | ALL => 0
  | QUERY => 1
  | PATH => 2

def hexTable : List Nat := [
  16, 16, 16, 16, 16, 16, 16, 16, 16, 16, 16, 16, 16, 16, 16, 16,
  16, 16, 16, 16, 16, 16, 16, 16, 16, 16, 16, 16, 16, 16, 16, 16,
  16, 16, 16, 16, 16, 16, 16, 16, 16, 16, 16, 16, 16, 16, 16, 16,
   0,  1,  2,  3,  4,  5,  6,  7,  8,  9, 16, 16, 16, 16, 16, 16,
  16, 10, 11, 12, 13, 14, 15, 16, 16, 16, 16, 16, 16, 16, 16, 16,
  16, 16, 16, 16, 16, 16, 16, 16, 16, 16, 16, 16, 16, 16, 16, 16,
  16, 10, 11, 12, 13, 14, 15, 16, 16, 16, 16, 16, 16, 16, 16, 16,
  16, 16, 16, 16, 16, 16, 16, 16, 16, 16, 16, 16, 16, 16, 16, 16,
  16, 16, 16, 16, 16, 16, 16, 16, 16, 16, 16, 16, 16, 16, 16, 16,
  16, 16, 16, 16, 16, 16, 16, 16, 16, 16, 16, 16, 16, 16, 16, 16,
  16, 16, 16, 16, 16, 16, 16, 16, 16, 16, 16, 16, 16, 16, 16, 16,
  16, 16, 16, 16, 16, 16, 16, 16, 16, 16, 16, 16, 16, 16, 16, 16,
  16, 16, 16, 16, 16, 16, 16, 16, 16, 16, 16, 16, 16, 16, 16, 16,
  16, 16, 16, 16, 16, 16, 16, 16, 16, 16, 16, 16, 16, 16, 16, 16,
  16, 16, 16, 16, 16, 16, 16, 16, 16, 16, 16, 16, 16, 16, 16, 16,
  16, 16, 16, 16, 16, 16, 16, 16, 16, 16, 16, 16, 16, 16, 16, 16]

def uriEscapeTable : List Nat := [
  4, 4, 4, 4, 4, 4, 4, 4, 4, 4, 4, 4, 4, 4, 4, 4,
  4, 4, 4, 4, 4, 4, 4, 4, 4, 4, 4, 4, 4, 4, 4, 4,
  3, 4, 4, 4, 4, 4, 4, 4, 4, 4, 4, 4, 4, 0, 0, 2,
  0, 0, 0, 0, 0, 0, 0, 0, 0, 0, 4, 4, 4, 4, 4, 4,
  4, 0, 0, 0, 0, 0, 0, 0, 0, 0, 0, 0, 0, 0, 0, 0,
  0, 0, 0, 0, 0, 0, 0, 0, 0, 0, 0, 4, 4, 4, 4, 0,
  4, 0, 0, 0, 0, 0, 0, 0, 0, 0, 0, 0, 0, 0, 0, 0,
  0, 0, 0, 0, 0, 0, 0, 0, 0, 0, 0, 4, 4, 4, 0, 4,
  4, 4, 4, 4, 4, 4, 4, 4, 4, 4, 4, 4, 4, 4, 4, 4,
  4, 4, 4, 4, 4, 4, 4, 4, 4, 4, 4, 4, 4, 4, 4, 4,
  4, 4, 4, 4, 4, 4, 4, 4, 4, 4, 4, 4, 4, 4, 4, 4,
  4, 4, 4, 4, 4, 4, 4, 4, 4, 4, 4, 4, 4, 4, 4, 4,
  4, 4, 4, 4, 4, 4, 4, 4, 4, 4, 4, 4, 4, 4, 4, 4,
  4, 4, 4, 4, 4, 4, 4, 4, 4, 4, 4, 4, 4, 4, 4, 4,
  4, 4, 4, 4, 4, 4, 4, 4, 4, 4, 4, 4, 4, 4, 4, 4,
  4, 4, 4, 4, 4, 4, 4, 4, 4, 4, 4, 4, 4, 4, 4, 4]

def hexValues : List UInt8 :=
  [48, 49, 50, 51, 52, 53, 54, 55, 56, 57, 97, 98, 99, 100, 101, 102]

def hexValue (v : UInt8) : Nat := hexTable.getD v.toNat 16

def discriminator (v : UInt8) : Nat := uriEscapeTable.getD v.toNat 4

def esc (v : UInt8) : List UInt8 :=
  [37, hexValues.getD (v.toNat >>> 4) 0, hexValues.getD (v.toNat &&& 0x0f) 0]

def escapeLoop (mode : UriEscapeMode) (out last : List UInt8) : List UInt8 → List UInt8
  | [] => out ++ last
  | v :: str =>
    if discriminator v ≤ mode.minEncode then escapeLoop mode out (last ++ [v]) str
    else if mode = .QUERY ∧ discriminator v = 3 then escapeLoop mode (out ++ last ++ [43]) [] str
    else escapeLoop mode (out ++ last ++ esc v) [] str

def uriEscape (str : List UInt8) (mode : UriEscapeMode) : List UInt8 := escapeLoop mode [] [] str

def unescapeLoop (mode : UriEscapeMode) (out last : List UInt8) :
    List UInt8 → Except String (List UInt8)
  | [] => .ok (out ++ last)
  | c :: str =>
    if c = 37 then
      match str with
      | c₁ :: c₂ :: rest =>
        let h₁ := hexValue c₁
        let h₂ := hexValue c₂
        if h₁ = 16 ∨ h₂ = 16 then .error "invalid percent encode sequence"
        else unescapeLoop mode (out ++ last ++ [UInt8.ofNat (h₁ <<< 4 ||| h₂)]) [] rest
      | _ => .error "incomplete percent encode sequence"
    else if c = 43 ∧ mode = .QUERY then unescapeLoop mode (out ++ last ++ [32]) [] str
    else unescapeLoop mode out (last ++ [c]) str

def uriUnescape (str : List UInt8) (mode : UriEscapeMode) : Except String (List UInt8) :=
  unescapeLoop mode [] [] str

def escaped (mode : UriEscapeMode) (v : UInt8) : List UInt8 :=
  if discriminator v ≤ mode.minEncode then [v]
  else if mode = .QUERY ∧ discriminator v = 3 then [43]
  else esc v

lemma escapeLoop_eq (mode : UriEscapeMode) (out last str : List UInt8) :
    escapeLoop mode out last str = out ++ last ++ str.flatMap (escaped mode) := by
  induction str generalizing out last with
  | nil => rw [escapeLoop, flatMap_nil, append_nil]
  | cons v str ih =>
    rw [escapeLoop, flatMap_cons, escaped]
    split
    · rw [ih, append_assoc, append_assoc, append_assoc]
    · split <;> rw [ih, append_nil, append_assoc (out ++ last)]

def unescaped (mode : UriEscapeMode) : List UInt8 → Except String (List UInt8)
  | [] => .ok []
  | c :: str =>
    if c = 37 then
      match str with
      | c₁ :: c₂ :: rest =>
        if hexValue c₁ = 16 ∨ hexValue c₂ = 16 then .error "invalid percent encode sequence"
        else (unescaped mode rest).map (UInt8.ofNat (hexValue c₁ <<< 4 ||| hexValue c₂) :: ·)
      | _ => .error "incomplete percent encode sequence"
    else if c = 43 ∧ mode = .QUERY then (unescaped mode str).map (32 :: ·)
    else (unescaped mode str).map (c :: ·)

lemma unescaped_percent (mode : UriEscapeMode) (c₁ c₂ : UInt8) (rest : List UInt8) :
    unescaped mode (37 :: c₁ :: c₂ :: rest) =
      if hexValue c₁ = 16 ∨ hexValue c₂ = 16 then .error "invalid percent encode sequence"
      else (unescaped mode rest).map (UInt8.ofNat (hexValue c₁ <<< 4 ||| hexValue c₂) :: ·) := by
  rw [unescaped, if_pos rfl]

lemma unescaped_of_ne {c : UInt8} (hc : c ≠ 37) (mode : UriEscapeMode) (str : List UInt8) :
    unescaped mode (c :: str) =
      (unescaped mode str).map ((if c = 43 ∧ mode = .QUERY then 32 else c) :: ·) := by
  conv_lhs => unfold unescaped
  rw [if_neg hc]
  split <;> rfl

lemma unescapeLoop_eq (mode : UriEscapeMode) (out last str : List UInt8) :
    unescapeLoop mode out last str = (unescaped mode str).map (out ++ last ++ ·) := by
  have hmap : ∀ (r : Except String (List UInt8)) (l : List UInt8) (c : UInt8),
      r.map (l ++ [c] ++ ·) = (r.map (c :: ·)).map (l ++ ·) := by
    intro r l c
    cases r <;> simp [Except.map]
  fun_induction unescapeLoop mode out last str with
  | case1 out last => rw [unescaped, Except.map, append_nil]
  | case2 out last c₁ c₂ rest h₁ h₂ hnone =>
    rw [unescaped_percent, if_pos hnone, Except.map]
  | case3 out last c₁ c₂ rest h₁ h₂ hsome ih =>
    rw [unescaped_percent, if_neg hsome, ih, append_nil, hmap]
  | case4 out last str hshort =>
    rw [unescaped, if_pos rfl]
    · rfl
    · exact hshort
  | case5 out last c str hc hplus ih =>
    rw [unescaped_of_ne hc, if_pos hplus, ih, append_nil, hmap]
  | case6 out last c str hc hplus ih =>
    rw [unescaped_of_ne hc, if_neg hplus, ih, ← append_assoc, hmap]

def isUnreserved (c : UInt8) : Bool :=
  (65 ≤ c && c ≤ 90) || (97 ≤ c && c ≤ 122) || (48 ≤ c && c ≤ 57) ||
    c == 45 || c == 46 || c == 95 || c == 126

def isHexDigit (c : UInt8) : Bool :=
  (48 ≤ c && c ≤ 57) || (65 ≤ c && c ≤ 70) || (97 ≤ c && c ≤ 102)

lemma forall_byte {P : UInt8 → Prop} (h : ∀ n : Fin 256, P (UInt8.ofNat n)) (c : UInt8) : P c := by
  have hc := h ⟨c.toNat, c.toNat_lt⟩
  rwa [UInt8.ofNat_toNat] at hc

set_option maxRecDepth 4000 in
lemma discriminator_eq : ∀ c, discriminator c =
    if isUnreserved c then 0 else if c = 47 then 2 else if c = 32 then 3 else 4 :=
  forall_byte (by decide)

set_option maxRecDepth 4000 in
lemma hexValue_eq : ∀ c, hexValue c = 16 ↔ isHexDigit c = false := forall_byte (by decide)

set_option maxRecDepth 4000 in
lemma hexValue_esc : ∀ v, ∃ c₁ c₂, esc v = [37, c₁, c₂] ∧ isHexDigit c₁ = true ∧ isHexDigit c₂ = true ∧
    UInt8.ofNat (hexValue c₁ <<< 4 ||| hexValue c₂) = v := by
  have h : ∀ v, isHexDigit (hexValues.getD (v.toNat >>> 4) 0) = true ∧
      isHexDigit (hexValues.getD (v.toNat &&& 0x0f) 0) = true ∧
      UInt8.ofNat (hexValue (hexValues.getD (v.toNat >>> 4) 0) <<< 4 |||
        hexValue (hexValues.getD (v.toNat &&& 0x0f) 0)) = v := forall_byte (by decide)
  exact fun v => ⟨_, _, rfl, h v⟩

lemma unescaped_escaped (mode : UriEscapeMode) (v : UInt8) (str : List UInt8) :
    unescaped mode (escaped mode v ++ str) = (unescaped mode str).map (v :: ·) := by
  have hv := discriminator_eq v
  rw [escaped]
  split
  · rename_i hle
    have h37 : v ≠ 37 := by
      rintro rfl
      cases mode <;> exact absurd hle (by decide)
    have h43 : v ≠ 43 := by
      rintro rfl
      cases mode <;> exact absurd hle (by decide)
    rw [singleton_append, unescaped_of_ne h37, if_neg fun h => h43 h.1]
  split
  · rename_i hquery
    obtain rfl : v = 32 := by
      rw [hv] at hquery
      split_ifs at hquery <;> simp_all
    rw [singleton_append, unescaped_of_ne (by decide), if_pos ⟨rfl, hquery.1⟩]
  obtain ⟨c₁, c₂, hesc, hc₁, hc₂, hvalue⟩ := hexValue_esc v
  have hsome : ¬ (hexValue c₁ = 16 ∨ hexValue c₂ = 16) := by
    rw [hexValue_eq, hexValue_eq, hc₁, hc₂]
    simp
  rw [hesc, cons_append, cons_append, singleton_append, unescaped_percent,
    if_neg hsome, hvalue]

lemma unescaped_flatMap (mode : UriEscapeMode) (str : List UInt8) :
    unescaped mode (str.flatMap (escaped mode)) = .ok str := by
  induction str with
  | nil => rfl
  | cons v str ih => rw [flatMap_cons, unescaped_escaped, ih, Except.map]

inductive EscapedText (mode : UriEscapeMode) : List UInt8 → Prop
  | nil : EscapedText mode []
  | unreserved {c : UInt8} {s : List UInt8} (hc : isUnreserved c = true) (hs : EscapedText mode s) :
      EscapedText mode (c :: s)
  | percent {c₁ c₂ : UInt8} {s : List UInt8} (h₁ : isHexDigit c₁ = true) (h₂ : isHexDigit c₂ = true)
      (hs : EscapedText mode s) : EscapedText mode (37 :: c₁ :: c₂ :: s)
  | plus {s : List UInt8} (hmode : mode = .QUERY) (hs : EscapedText mode s) : EscapedText mode (43 :: s)
  | slash {s : List UInt8} (hmode : mode = .PATH) (hs : EscapedText mode s) : EscapedText mode (47 :: s)

lemma escapedText_escaped {mode : UriEscapeMode} (v : UInt8) {s : List UInt8}
    (hs : EscapedText mode s) : EscapedText mode (escaped mode v ++ s) := by
  have hv := discriminator_eq v
  rw [escaped]
  split
  · rename_i hle
    by_cases hunreserved : isUnreserved v = true
    · exact .unreserved hunreserved hs
    rw [hv, if_neg hunreserved] at hle
    split at hle
    · rename_i hslash
      subst hslash
      refine .slash ?_ hs
      cases mode <;> simp [UriEscapeMode.minEncode] at hle ⊢
    · split at hle <;> cases mode <;> simp [UriEscapeMode.minEncode] at hle
  split
  · rename_i hquery
    exact .plus hquery.1 hs
  · obtain ⟨c₁, c₂, hesc, hc₁, hc₂, -⟩ := hexValue_esc v
    rw [hesc]
    exact .percent hc₁ hc₂ hs

lemma escapedText_flatMap (mode : UriEscapeMode) (str : List UInt8) :
    EscapedText mode (str.flatMap (escaped mode)) := by
  induction str with
  | nil => exact .nil
  | cons v str ih =>
    exact escapedText_escaped v ih

def TwoHexDigits (s : List UInt8) : Prop :=
  ∃ c₁ c₂ rest, s = c₁ :: c₂ :: rest ∧ isHexDigit c₁ = true ∧ isHexDigit c₂ = true

def Malformed (s : List UInt8) : Prop := ∃ before after, s = before ++ 37 :: after ∧ ¬ TwoHexDigits after

lemma malformed_cons {c : UInt8} (hc : c ≠ 37) (s : List UInt8) :
    Malformed (c :: s) ↔ Malformed s := by
  constructor
  · rintro ⟨before, after, heq, hafter⟩
    cases before with
    | nil => exact absurd (List.cons.inj heq).1 hc
    | cons _ before => exact ⟨before, after, (List.cons.inj heq).2, hafter⟩
  · rintro ⟨before, after, rfl, hafter⟩
    exact ⟨c :: before, after, rfl, hafter⟩

lemma malformed_percent {s : List UInt8} :
    Malformed (37 :: s) ↔ ¬ TwoHexDigits s ∨ Malformed s := by
  constructor
  · rintro ⟨before, after, heq, hafter⟩
    cases before with
    | nil => exact .inl ((List.cons.inj heq).2 ▸ hafter)
    | cons _ before => exact .inr ⟨before, after, (List.cons.inj heq).2, hafter⟩
  · rintro (hs | ⟨before, after, rfl, hafter⟩)
    · exact ⟨[], s, rfl, hs⟩
    · exact ⟨37 :: before, after, rfl, hafter⟩

lemma error_map_iff {α β : Type*} (r : Except String α) (f : α → β) :
    (∃ e, r.map f = .error e) ↔ ∃ e, r = .error e := by
  cases r <;> simp [Except.map]

lemma unescaped_error_iff (mode : UriEscapeMode) (str : List UInt8) :
    (∃ e, unescaped mode str = .error e) ↔ Malformed str := by
  fun_induction unescaped mode str with
  | case1 => exact iff_of_false nofun fun ⟨before, after, heq, _⟩ => by simp at heq
  | case2 c₁ c₂ rest hnone =>
    refine iff_of_true ⟨_, rfl⟩ (malformed_percent.mpr (.inl ?_))
    rintro ⟨_, _, _, heq, h₁, h₂⟩
    cases heq
    rw [hexValue_eq, hexValue_eq, h₁, h₂] at hnone
    simp at hnone
  | case3 c₁ c₂ rest hsome ih =>
    rw [hexValue_eq, hexValue_eq, not_or, Bool.not_eq_false, Bool.not_eq_false] at hsome
    have hdigit : ∀ c, isHexDigit c = true → c ≠ 37 := by
      rintro _ hc rfl
      cases hc
    rw [error_map_iff, ih, malformed_percent, malformed_cons (hdigit c₁ hsome.1),
      malformed_cons (hdigit c₂ hsome.2)]
    exact ⟨.inr, fun h => h.resolve_left fun h => h ⟨_, _, _, rfl, hsome⟩⟩
  | case4 str hshort =>
    refine iff_of_true ⟨_, rfl⟩ (malformed_percent.mpr (.inl ?_))
    rintro ⟨c₁, c₂, rest, rfl, -⟩
    exact hshort _ _ _ rfl
  | case5 c str hc hplus ih | case6 c str hc hplus ih => rw [error_map_iff, ih, malformed_cons hc]

lemma uriEscape_eq (str : List UInt8) (mode : UriEscapeMode) :
    uriEscape str mode = str.flatMap (escaped mode) := escapeLoop_eq mode [] [] str

lemma uriUnescape_eq (str : List UInt8) (mode : UriEscapeMode) :
    uriUnescape str mode = unescaped mode str := by
  rw [uriUnescape, unescapeLoop_eq]
  cases unescaped mode str <;> rfl

theorem uriUnescape_uriEscape (mode : UriEscapeMode) (s : List UInt8) :
    uriUnescape (uriEscape s mode) mode = .ok s ∧ EscapedText mode (uriEscape s mode) ∧
    ((∃ e, uriUnescape s mode = .error e) ↔ Malformed s) := by
  refine ⟨?_, ?_, ?_⟩
  · rw [uriEscape_eq, uriUnescape_eq, unescaped_flatMap]
  · rw [uriEscape_eq]
    exact escapedText_flatMap mode s
  · rw [uriUnescape_eq]
    exact unescaped_error_iff mode s

end Acc.Text
