import Mathlib

namespace Acc.Json

open List

inductive CommentState
  | none
  | inString
  | inlineComment
  | lineComment
  deriving DecidableEq, Repr

def strip : CommentState → List UInt8 → Except String (List UInt8)
  | _, [] => .ok []
  | .none, [c] => .ok [c]
  | .none, c :: d :: rest =>
    if c = 47 ∧ d = 42 then strip .inlineComment rest
    else if c = 47 ∧ d = 47 then strip .lineComment rest
    else (strip (if c = 34 then .inString else .none) (d :: rest)).map (c :: ·)
  | .inString, [c] =>
    if c = 92 then .error "Invalid JSONC: string is not terminated" else .ok [c]
  | .inString, c :: d :: rest =>
    if c = 92 then (strip .inString rest).map fun out => c :: d :: out
    else (strip (if c = 34 then .none else .inString) (d :: rest)).map (c :: ·)
  | .inlineComment, [_] => .ok []
  | .inlineComment, c :: d :: rest =>
    if c = 42 ∧ d = 47 then strip .none rest else strip .inlineComment (d :: rest)
  | .lineComment, c :: rest => strip (if c = 10 then .none else .lineComment) rest

def stripComments (jsonC : List UInt8) : Except String (List UInt8) := strip .none jsonC

def Opens (s : List UInt8) : Prop := ∃ rest, s = 47 :: 42 :: rest ∨ s = 47 :: 47 :: rest

variable {c : UInt8}

lemma opens_cons {s : List UInt8} (h : Opens (c :: s)) :
    c = 47 ∧ ∃ rest, s = 42 :: rest ∨ s = 47 :: rest := by
  obtain ⟨rest, h | h⟩ := h
  · exact ⟨(List.cons.inj h).1, rest, .inl (List.cons.inj h).2⟩
  · exact ⟨(List.cons.inj h).1, rest, .inr (List.cons.inj h).2⟩

lemma strip_nil (state : CommentState) : strip state [] = .ok [] := by
  cases state <;> rfl

variable {rest out body : List UInt8}

lemma strip_copy (h : ¬ Opens (c :: rest)) : strip .none (c :: rest) =
      (strip (if c = 34 then .inString else .none) rest).map (c :: ·) := by
  cases rest with
  | nil =>
    rfl
  | cons d after =>
    have hinline : ¬ (c = 47 ∧ d = 42) := by
      rintro ⟨rfl, rfl⟩
      exact h ⟨after, .inl rfl⟩
    have hline : ¬ (c = 47 ∧ d = 47) := by
      rintro ⟨rfl, rfl⟩
      exact h ⟨after, .inr rfl⟩
    rw [strip, if_neg hinline, if_neg hline]

lemma strip_escape (d : UInt8) (rest : List UInt8) :
    strip .inString (92 :: d :: rest) = (strip .inString rest).map fun out => 92 :: d :: out := rfl

lemma strip_inString (h : c ≠ 92) (rest : List UInt8) : strip .inString (c :: rest) =
      (strip (if c = 34 then .none else .inString) rest).map (c :: ·) := by
  cases rest with
  | nil =>
    exact if_neg h
  | cons d after => rw [strip, if_neg h]

lemma strip_skip_inline (h : ¬ ∃ after, c :: rest = 42 :: 47 :: after) :
    strip .inlineComment (c :: rest) = strip .inlineComment rest := by
  cases rest with
  | nil => rfl
  | cons d after =>
    have hclose : ¬ (c = 42 ∧ d = 47) := by
      rintro ⟨rfl, rfl⟩
      exact h ⟨after, rfl⟩
    rw [strip, if_neg hclose]

lemma strip_lineComment (c : UInt8) (rest : List UInt8) :
    strip .lineComment (c :: rest) = strip (if c = 10 then .none else .lineComment) rest := by
  rw [strip]

lemma map_eq_ok {r : Except String (List UInt8)} {f : List UInt8 → List UInt8}
    (h : r.map f = .ok out) : ∃ tail, r = .ok tail ∧ out = f tail := by
  cases r with
  | error e => cases h
  | ok tail =>
    cases h
    exact ⟨tail, rfl, rfl⟩

def CommentState.outside : CommentState → CommentState
  | .inString => .inString
  | _ => .none

lemma outside_ite (p : Prop) [Decidable p] {a b : CommentState} (ha : a.outside = a)
    (hb : b.outside = b) : (if p then a else b).outside = if p then a else b := by
  split
  · exact ha
  · exact hb

lemma not_opens_out (hrest : ¬ Opens (47 :: rest))
    (h : strip .none rest = .ok out) : ¬ Opens (47 :: out) := by
  intro hopens
  obtain ⟨-, tail, hout⟩ := opens_cons hopens
  cases rest with
  | nil =>
    cases h
    rcases hout with hout | hout
    · cases hout
    · cases hout
  | cons d after =>
    have hd : d ≠ 42 ∧ d ≠ 47 := by
      refine ⟨?_, ?_⟩
      · rintro rfl
        exact hrest ⟨after, .inl rfl⟩
      · rintro rfl
        exact hrest ⟨after, .inr rfl⟩
    have hcopy : ¬ Opens (d :: after) := fun hopen => hd.2 (opens_cons hopen).1
    rw [strip_copy hcopy] at h
    obtain ⟨more, -, rfl⟩ := map_eq_ok h
    rcases hout with hout | hout
    · exact hd.1 (List.cons.inj hout).1
    · exact hd.2 (List.cons.inj hout).1

lemma strip_out (n : Nat) : ∀ (state : CommentState) (s out : List UInt8), s.length ≤ n →
    strip state s = .ok out → strip state.outside out = .ok out := by
  induction n with
  | zero =>
    intro state s out hlen h
    obtain rfl : s = [] := eq_nil_of_length_eq_zero (Nat.le_zero.mp hlen)
    cases h
    exact strip_nil _
  | succ n ih =>
    intro state s out hlen h
    match s with
    | [] =>
      cases h
      exact strip_nil _
    | c :: rest =>
      rw [length_cons] at hlen
      cases state with
      | none =>
        by_cases hopen : Opens (c :: rest)
        · obtain ⟨rfl, after, rfl | rfl⟩ := opens_cons hopen
          · exact ih .inlineComment after out (by rw [length_cons] at hlen; omega) h
          · exact ih .lineComment after out (by rw [length_cons] at hlen; omega) h
        rw [strip_copy hopen] at h
        obtain ⟨tail, htail, rfl⟩ := map_eq_ok h
        have hnext := ih _ rest tail (by omega) htail
        have hcopy : ¬ Opens (c :: tail) := by
          intro hopens
          obtain ⟨rfl, -⟩ := opens_cons hopens
          exact not_opens_out hopen htail hopens
        show strip .none (c :: tail) = _
        rw [outside_ite _ rfl rfl] at hnext
        rw [strip_copy hcopy, hnext]
        rfl
      | inString =>
        by_cases hc : c = 92
        · subst hc
          match rest with
          | [] => cases h
          | d :: after =>
            obtain ⟨tail, htail, rfl⟩ := map_eq_ok h
            have hnext := ih .inString after tail (by rw [length_cons] at hlen; omega) htail
            show strip .inString (92 :: d :: tail) = _
            rw [strip_escape, show strip .inString tail = _ from hnext]
            rfl
        rw [strip_inString hc] at h
        obtain ⟨tail, htail, rfl⟩ := map_eq_ok h
        have hnext := ih _ rest tail (by omega) htail
        show strip .inString (c :: tail) = _
        rw [outside_ite _ rfl rfl] at hnext
        rw [strip_inString hc, hnext]
        rfl
      | inlineComment =>
        by_cases hclose : ∃ after, c :: rest = 42 :: 47 :: after
        · obtain ⟨after, heq⟩ := hclose
          cases heq
          exact ih .none after out (by rw [length_cons] at hlen; omega) h
        · rw [strip_skip_inline hclose] at h
          exact ih .inlineComment rest out (by omega) h
      | lineComment =>
        rw [strip_lineComment] at h
        by_cases hbreak : c = 10
        · rw [if_pos hbreak] at h
          exact ih .none rest out (by omega) h
        · rw [if_neg hbreak] at h
          exact ih .lineComment rest out (by omega) h

theorem stripComments_idempotent (jsonC out : List UInt8) (h : stripComments jsonC = .ok out) :
    stripComments out = .ok out :=
  strip_out jsonC.length .none jsonC out (Nat.le_refl _) h

theorem stripComments_idempotent_sample :
    stripComments [49, 47, 42, 120, 42, 47, 47, 32, 50, 47, 47, 121] = .ok [49, 47, 32, 50] ∧
      stripComments [49, 47, 32, 50] = .ok [49, 47, 32, 50] :=
  ⟨rfl, stripComments_idempotent _ _
    (show stripComments [49, 47, 42, 120, 42, 47, 47, 32, 50, 47, 47, 121] = _ from rfl)⟩

inductive StringChar
  | plain (b : UInt8) (notQuote : b ≠ 34) (notBackslash : b ≠ 92)
  | escape (b : UInt8)

def StringChar.text : StringChar → List UInt8
  | .plain b _ _ => [b]
  | .escape b => [92, b]

def bodyText (body : List StringChar) : List UInt8 := body.flatMap StringChar.text

inductive Comment
  | inline (body : List UInt8) (inside : ¬ [42, 47] <:+: body)
  | line (body : List UInt8) (inside : 10 ∉ body)

def Comment.text : Comment → List UInt8
  | .inline body _ => 47 :: 42 :: (body ++ [42, 47])
  | .line body _ => 47 :: 47 :: (body ++ [10])

inductive Commented : List UInt8 → List UInt8 → Prop
  | nil : Commented [] []
  | comment {d t : List UInt8} (c : Comment) (h : Commented d t) : Commented d (c.text ++ t)
  | byte {d t : List UInt8} (b : UInt8) (notSlash : b ≠ 47) (notQuote : b ≠ 34)
      (h : Commented d t) : Commented (b :: d) (b :: t)
  | literal {d t : List UInt8} (body : List StringChar) (h : Commented d t) :
      Commented (34 :: (bodyText body ++ 34 :: d)) (34 :: (bodyText body ++ 34 :: t))
  | unterminated (body : List StringChar) (noSlash : 47 ∉ bodyText body) :
      Commented (34 :: bodyText body) (34 :: bodyText body)

lemma strip_body (body : List StringChar) (t : List UInt8) :
    strip .inString (bodyText body ++ t) = (strip .inString t).map (bodyText body ++ ·) := by
  induction body with
  | nil =>
    show strip .inString t = (strip .inString t).map fun out => out
    cases strip .inString t <;> rfl
  | cons c body ih =>
    cases c with
    | plain b hquote hbackslash =>
      show strip .inString (b :: (bodyText body ++ t)) = _
      rw [strip_inString hbackslash, if_neg hquote, ih]
      cases strip .inString t <;> rfl
    | escape b =>
      show strip .inString (92 :: b :: (bodyText body ++ t)) = _
      rw [strip_escape, ih]
      cases strip .inString t <;> rfl

lemma not_opens_of_ne (h : c ≠ 47) (rest : List UInt8) : ¬ Opens (c :: rest) :=
  fun hopens => h (opens_cons hopens).1

lemma strip_quote (t : List UInt8) : strip .none (34 :: t) = (strip .inString t).map (34 :: ·) :=
  strip_copy (not_opens_of_ne (by decide) t)

lemma strip_literal (body : List StringChar) (t : List UInt8) :
    strip .none (34 :: (bodyText body ++ 34 :: t)) =
      (strip .none t).map fun out => 34 :: (bodyText body ++ 34 :: out) := by
  have hclose : strip .inString (34 :: t) = (strip .none t).map (34 :: ·) :=
    strip_inString (by decide) t
  rw [strip_quote, strip_body, hclose]
  cases strip .none t <;> rfl

lemma strip_inline (h : ¬ [42, 47] <:+: body) (t : List UInt8) :
    strip .inlineComment (body ++ 42 :: 47 :: t) = strip .none t := by
  induction body with
  | nil => rfl
  | cons b body ih =>
    have hrest : ¬ [42, 47] <:+: body := fun hin => h (hin.trans (suffix_cons b body).isInfix)
    have hskip : ¬ ∃ after, b :: (body ++ 42 :: 47 :: t) = 42 :: 47 :: after := by
      rintro ⟨after, heq⟩
      obtain ⟨rfl, htail⟩ := List.cons.inj heq
      match body with
      | [] => exact absurd (List.cons.inj htail).1 (by decide)
      | c :: body =>
        obtain rfl : c = 47 := (List.cons.inj htail).1
        exact h ⟨[], body, rfl⟩
    rw [cons_append, strip_skip_inline hskip]
    exact ih hrest

lemma strip_line (h : 10 ∉ body) (t : List UInt8) :
    strip .lineComment (body ++ 10 :: t) = strip .none t := by
  induction body with
  | nil => simp [strip_lineComment]
  | cons b body ih =>
    obtain ⟨hb, hbody⟩ := not_or.mp (mt mem_cons.mpr h)
    rw [cons_append, strip_lineComment, if_neg (Ne.symm hb)]
    exact ih hbody

lemma strip_comment (c : Comment) (t : List UInt8) : strip .none (c.text ++ t) = strip .none t := by
  cases c with
  | inline body inside =>
    show strip .inlineComment ((body ++ [42, 47]) ++ t) = _
    rw [append_assoc]
    exact strip_inline inside t
  | line body inside =>
    show strip .lineComment ((body ++ [10]) ++ t) = _
    rw [append_assoc]
    exact strip_line inside t

theorem stripComments_commented (d t : List UInt8) (h : Commented d t) : stripComments t = .ok d := by
  rw [stripComments]
  induction h with
  | nil => rfl
  | comment c _ ih => rw [strip_comment, ih]
  | byte b notSlash notQuote _ ih =>
    rw [strip_copy (not_opens_of_ne notSlash _), if_neg notQuote, ih]
    rfl
  | literal body _ ih =>
    rw [strip_literal, ih]
    rfl
  | unterminated body _ =>
    have hbody := strip_body body []
    rw [append_nil, strip_nil] at hbody
    rw [strip_quote, hbody]
    show Except.ok (34 :: (bodyText body ++ [])) = _
    rw [append_nil]

theorem stripComments_commented_sample :
    stripComments [97, 47, 42, 34, 42, 47, 34, 47, 47, 34] = .ok [97, 34, 47, 47, 34] :=
  stripComments_commented _ _ (.byte 97 (by decide) (by decide) (.comment (.inline [34] (by decide))
    (.literal [.plain 47 (by decide) (by decide), .plain 47 (by decide) (by decide)] .nil)))

theorem stripComments_dangling :
    47 ∉ ([34, 92] : List UInt8) ∧
      stripComments [34, 92] = .error "Invalid JSONC: string is not terminated" :=
  ⟨by decide, rfl⟩

end Acc.Json
