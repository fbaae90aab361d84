import Accelerator.Conv.Numeral
import Accelerator.Json.Parser

namespace Acc.Json

open List

open Conv Unicode Decimal

namespace Input

variable {line level : UInt32}

lemma is_cons (line level : UInt32) (b : UInt8) (s : List UInt8) {c : Char}
    (hc : c.toNat < 128) : (⟨b :: s, line, level⟩ : Input).is c = (b.toNat == c.toNat) := by
  have hb := b.toNat_lt
  rw [is, current]
  simp only
  by_cases h : b < 128
  · rw [if_pos h]
    exact Bool.eq_iff_iff.mpr (by simp)
  · have hge : 128 ≤ b.toNat := by
      exact not_lt.mp h
    exact Bool.eq_iff_iff.mpr (by simp only [beq_iff_eq]; omega)

lemma is_nil (c : Char) : (⟨[], line, level⟩ : Input).is c = false := by
  have h : (⟨[], line, level⟩ : Input).is c = ((-1 : Int) == (c.toNat : Int)) := rfl
  rw [h]
  exact beq_eq_false_iff_ne.mpr (by omega)

lemma current_digit (b : UInt8) (s : List UInt8) : (48 ≤ (⟨b :: s, line, level⟩ : Input).current ∧
      (⟨b :: s, line, level⟩ : Input).current ≤ 57) ↔ (48 ≤ b.toNat ∧ b.toNat ≤ 57) := by
  have hb := b.toNat_lt
  rw [current]
  simp only
  by_cases h : b < 128
  · rw [if_pos h]
    omega
  · have hge : 128 ≤ b.toNat := by
      exact not_lt.mp h
    omega

@[simp] lemma next_cons (b : UInt8) (s : List UInt8) :
    (⟨b :: s, line, level⟩ : Input).next = ⟨s, line, level⟩ := rfl

def ltrim (s : List UInt8) : List UInt8 := s.dropWhile isWhitespace

@[simp] lemma skipWhitespace_mk (s : List UInt8) :
    (⟨s, line, level⟩ : Input).skipWhitespace = ⟨ltrim s, line, level⟩ := rfl

def Blank (w : List UInt8) : Prop := ∀ b ∈ w, isWhitespace b = true

lemma ltrim_append {w : List UInt8} (hw : Blank w) (s : List UInt8) : ltrim (w ++ s) = ltrim s :=
  dropWhile_append_of_pos hw

lemma ltrim_cons {b : UInt8} (hb : isWhitespace b = false) (s : List UInt8) :
    ltrim (b :: s) = b :: s :=
  dropWhile_cons_of_neg (by simp [hb])

lemma ltrim_ltrim (s : List UInt8) : ltrim (ltrim s) = ltrim s :=
  dropWhile_idempotent _ _

lemma blank_nil : Blank [] := fun _ h => absurd h not_mem_nil

lemma Blank.append {w w' : List UInt8} (h : Blank w) (h' : Blank w') : Blank (w ++ w') := by
  intro b hb
  rcases mem_append.mp hb with hb | hb
  · exact h b hb
  · exact h' b hb

end Input

open Input

section Reads

variable {F : Type} [Double F]

def parseOpts (limit : UInt32) : SerializationOpts := { recursionLimit := limit }

def Stops (rest : List UInt8) : Prop :=
  ∀ b ∈ rest.head?, isWhitespace b = true ∨ b = 44 ∨ b = 93 ∨ b = 125

def Starts (txt : List UInt8) : Prop :=
  ∃ w b s, Blank w ∧ txt = w ++ b :: s ∧ isWhitespace b = false ∧ b ≠ 93 ∧ b ≠ 125

structure Reads (limit : UInt32) (d : Nat) (txt : List UInt8) (v : Dynamic F) : Prop where
  starts : Starts txt
  parses : ∀ (fuel : Nat) (w rest : List UInt8) (line level : UInt32),
    4 * txt.length ≤ fuel → Blank w → Stops rest → level.toNat + d ≤ limit.toNat + 1 →
    ∃ v' rest' line', parseValue (parseOpts limit) fuel ⟨w ++ (txt ++ rest), line, level⟩ =
        .ok (v', ⟨rest', line', level⟩) ∧ v'.Same v ∧ ltrim rest' = ltrim rest

structure ReadsString (lit s : List UInt8) : Prop where
  quote : ∃ body, lit = 34 :: body
  parses : ∀ (rest : List UInt8) (line level : UInt32),
    ∃ line', parseString ⟨lit ++ rest, line, level⟩ = .ok (s, ⟨rest, line', level⟩)

variable {w rest txt s lit ds u : List UInt8}

lemma stops_append (hw : Blank w) (h : Stops rest) : Stops (w ++ rest) := by
  cases w with
  | nil => exact h
  | cons b w =>
    rintro c hc
    have hbc : b = c := by simpa using hc
    exact Or.inl (hbc ▸ hw b (mem_cons_self ..))

variable {limit level : UInt32} {d d' fuel : Nat} {v : Dynamic F}

lemma Reads.pad (h : Reads limit d txt v) {w' : List UInt8} (hw : Blank w) (hw' : Blank w') :
    Reads limit d (w ++ (txt ++ w')) v := by
  constructor
  · obtain ⟨u, b, s, hu, rfl, hb⟩ := h.starts
    exact ⟨w ++ u, b, s ++ w', hw.append hu, by simp, hb⟩
  intro fuel u rest line level hfuel hu hrest hlevel
  simp only [length_append] at hfuel
  obtain ⟨v', rest', line', hparse, hsame, htrim⟩ :=
    h.parses fuel (u ++ w) (w' ++ rest) line level (by omega) (hu.append hw)
      (stops_append hw' hrest) hlevel
  refine ⟨v', rest', line', ?_, hsame, htrim.trans (ltrim_append hw' rest)⟩
  rw [← hparse]
  simp

lemma Reads.padRight (h : Reads limit d txt v) (hw : Blank w) : Reads limit d (txt ++ w) v :=
  h.pad blank_nil hw

lemma Reads.mono (h : Reads limit d txt v) (hd : d ≤ d') : Reads limit d' txt v :=
  ⟨h.starts, fun fuel w rest line level hfuel hw hrest hlevel =>
    h.parses fuel w rest line level hfuel hw hrest (by omega)⟩

lemma level_ok (hd : 1 ≤ d) (h : level.toNat + d ≤ limit.toNat + 1) : ¬ level > limit := by
  intro hgt
  have := UInt32.lt_iff_toNat_lt.mp hgt
  omega

variable {b c : UInt8}

lemma parseValue_cons (hw : Blank w)
    (hb : isWhitespace b = false) (s : List UInt8) {line : UInt32}
    (hlevel : ¬ level > limit) (fuel : Nat) :
    parseValue (F := F) (parseOpts limit) (fuel + 1) ⟨w ++ b :: s, line, level⟩ = leaveGuard
      (if b.toNat == 91 then parseArray (parseOpts limit) fuel ⟨b :: s, line, level + 1⟩
      else if b.toNat == 123 then parseObject (parseOpts limit) fuel ⟨b :: s, line, level + 1⟩
      else parseScalar (parseOpts limit) ⟨b :: s, line, level + 1⟩) := by
  have hinc : incrementRecursionLevel (parseOpts limit) ⟨w ++ b :: s, line, level⟩ =
      .ok ⟨w ++ b :: s, line, level + 1⟩ := if_neg hlevel
  have h91 := is_cons line (level + 1) b s (show '['.toNat < 128 by decide)
  have h123 := is_cons line (level + 1) b s (show '\x7b'.toNat < 128 by decide)
  rw [parseValue, hinc]
  simp only [skipWhitespace_mk, ltrim_append hw, ltrim_cons hb, h91, h123]
  rfl

lemma parseValue_bracket (hw : Blank w) (s : List UInt8)
    (line : UInt32) (hlevel : ¬ level > limit) (fuel : Nat) :
    parseValue (F := F) (parseOpts limit) (fuel + 1) ⟨w ++ 91 :: s, line, level⟩ =
      leaveGuard (parseArray (parseOpts limit) fuel ⟨91 :: s, line, level + 1⟩) :=
  parseValue_cons hw (by decide) s hlevel fuel

lemma parseValue_brace (hw : Blank w) (s : List UInt8)
    (line : UInt32) (hlevel : ¬ level > limit) (fuel : Nat) :
    parseValue (F := F) (parseOpts limit) (fuel + 1) ⟨w ++ 123 :: s, line, level⟩ =
      leaveGuard (parseObject (parseOpts limit) fuel ⟨123 :: s, line, level + 1⟩) :=
  parseValue_cons hw (by decide) s hlevel fuel

omit [Double F] in
lemma leaveGuard_ok (v : Dynamic F) (s : List UInt8) (line level : UInt32) :
    leaveGuard (.ok (v, ⟨s, line, level + 1⟩)) = .ok (v, ⟨s, line, level⟩) := by
  have hlevel : level + 1 - 1 = level := UInt32.add_sub_cancel level 1
  simp only [leaveGuard, Except.map, decrementRecursionLevel, hlevel]

lemma beq_toNat_false (h : b ≠ c) : (b.toNat == c.toNat) = false := by
  rw [beq_eq_false_iff_ne]
  exact fun heq => h (UInt8.toNat_inj.mp heq)

lemma reads_scalar
    (hb : isWhitespace b = false) (harray : b ≠ 91) (hobject : b ≠ 123) (h93 : b ≠ 93)
    (h125 : b ≠ 125) (h : ∀ (rest : List UInt8) (line level : UInt32), Stops rest →
      ∃ v' rest' line', parseScalar (parseOpts limit) ⟨b :: (s ++ rest), line, level⟩ =
          .ok (v', ⟨rest', line', level⟩) ∧ v'.Same v ∧ ltrim rest' = ltrim rest) :
    Reads limit 1 (b :: s) v := by
  constructor
  · exact ⟨[], b, s, blank_nil, rfl, hb, h93, h125⟩
  intro fuel w rest line level hfuel hw hrest hlevel
  obtain ⟨v', rest', line', hscalar, hsame, htrim⟩ := h rest line (level + 1) hrest
  rw [length_cons] at hfuel
  obtain ⟨fuel, rfl⟩ : ∃ n, fuel = n + 1 := ⟨fuel - 1, by omega⟩
  refine ⟨v', rest', line', ?_, hsame, htrim⟩
  rw [cons_append, parseValue_cons hw hb _ (level_ok (le_refl 1) hlevel)]
  simp only [show (b.toNat == 91) = false from beq_toNat_false harray,
    show (b.toNat == 123) = false from beq_toNat_false hobject, Bool.false_eq_true, if_false]
  rw [hscalar, leaveGuard_ok]

lemma parseScalar_cons (opts : SerializationOpts) (b : UInt8) (s : List UInt8)
    (line level : UInt32) : parseScalar (F := F) opts ⟨b :: s, line, level⟩ =
      if b.toNat == 34 then
        (parseString ⟨b :: s, line, level⟩).map fun (s, inp) => (.string s, inp)
      else if b.toNat == 45 || (48 ≤ b.toNat ∧ b.toNat ≤ 57) then
        parseNumber opts ⟨b :: s, line, level⟩
      else parseKeyword opts ⟨b :: s, line, level⟩ := by
  have h34 := is_cons line level b s (show '"'.toNat < 128 by decide)
  have h45 := is_cons line level b s (show '-'.toNat < 128 by decide)
  rw [parseScalar, h34, h45]
  simp only [current_digit]
  rfl

lemma reads_null (limit : UInt32) : Reads limit 1 [110, 117, 108, 108] (.null : Dynamic F) := by
  refine reads_scalar (by decide) (by decide) (by decide) (by decide) (by decide) ?_
  intro rest line level _
  exact ⟨.null, rest, line, by simp [parseScalar_cons, parseKeyword, consume], .null, rfl⟩

lemma reads_bool (limit : UInt32) (b : Bool) :
    Reads limit 1 (if b then [116, 114, 117, 101] else [102, 97, 108, 115, 101])
      (.bool b : Dynamic F) := by
  cases b with
  | true =>
    refine reads_scalar (by decide) (by decide) (by decide) (by decide) (by decide) ?_
    intro rest line level _
    exact ⟨.bool true, rest, line, by simp [parseScalar_cons, parseKeyword, consume], .bool true, rfl⟩
  | false =>
    refine reads_scalar (by decide) (by decide) (by decide) (by decide) (by decide) ?_
    intro rest line level _
    exact ⟨.bool false, rest, line, by simp [parseScalar_cons, parseKeyword, consume], .bool false, rfl⟩

lemma reads_string (h : ReadsString lit s) : Reads limit 1 lit (.string s : Dynamic F) := by
  obtain ⟨body, rfl⟩ := h.quote
  refine reads_scalar (by decide) (by decide) (by decide) (by decide) (by decide) ?_
  intro rest line level _
  obtain ⟨line', hparse⟩ := h.parses rest line level
  rw [cons_append] at hparse
  refine ⟨.string s, rest, line', ?_, .string s, rfl⟩
  simp [parseScalar_cons, hparse, Except.map]

set_option maxRecDepth 8000 in
lemma stop_byte : ∀ b : UInt8, (isWhitespace b = true ∨ b = 44 ∨ b = 93 ∨ b = 125) →
    isDigit b = false ∧ b.toNat ≠ 46 ∧ b.toNat ≠ 101 ∧ b.toNat ≠ 69 := by
  decide

set_option maxRecDepth 8000 in
lemma digit_byte : ∀ b : UInt8, isDigit b = true → isWhitespace b = false ∧ b ≠ 91 ∧
    b ≠ 123 ∧ b ≠ 93 ∧ b ≠ 125 ∧ b ≠ 45 ∧ b ≠ 73 ∧ b ≠ 34 := by
  decide

def Ends (rest : List UInt8) : Prop :=
  ∀ b ∈ rest.head?, isDigit b = false ∧ b.toNat ≠ 46 ∧ b.toNat ≠ 101 ∧ b.toNat ≠ 69

lemma Stops.ends (h : Stops rest) : Ends rest :=
  fun b hb => stop_byte b (h b hb)

lemma ends_is (h : Ends rest) (line level : UInt32) :
    (⟨rest, line, level⟩ : Input).is '.' = false ∧ (⟨rest, line, level⟩ : Input).is 'e' = false ∧
      (⟨rest, line, level⟩ : Input).is 'E' = false := by
  cases rest with
  | nil => exact ⟨is_nil _, is_nil _, is_nil _⟩
  | cons b rest =>
    obtain ⟨_, h46, h101, h69⟩ := h b rfl
    rw [is_cons line level b rest (by decide), is_cons line level b rest (by decide),
      is_cons line level b rest (by decide)]
    exact ⟨beq_eq_false_iff_ne.mpr h46, beq_eq_false_iff_ne.mpr h101,
      beq_eq_false_iff_ne.mpr h69⟩

lemma skipDigits_eq (hds : ∀ b ∈ ds, isDigit b = true)
    (hrest : Ends rest) (line level : UInt32) : ∃ line',
      skipDigits ⟨ds ++ rest, line, level⟩ = (ds, ⟨rest, line', level⟩) := by
  obtain ⟨htake, _⟩ := takeWhile_digits hds fun b hb => (hrest b hb).1
  rw [skipDigits, skipWhile]
  simp only [htake, drop_left]
  exact ⟨_, rfl⟩

lemma skipMinusAndDigits_eq (negative : Bool)
    (hds : ∀ b ∈ ds, isDigit b = true) (hne : ds ≠ []) (hrest : Ends rest)
    (line level : UInt32) : ∃ line',
      skipMinusAndDigits ⟨(if negative then 45 :: ds else ds) ++ rest, line, level⟩ =
        (if negative then 45 :: ds else ds, ⟨rest, line', level⟩) := by
  obtain ⟨line', hskip⟩ := skipDigits_eq hds hrest line level
  obtain ⟨c, cs, rfl⟩ := exists_cons_of_ne_nil hne
  refine ⟨line', ?_⟩
  cases negative with
  | true =>
    simp only [if_true, cons_append, skipMinusAndDigits, next_cons]
    rw [cons_append] at hskip
    rw [hskip]
  | false =>
    obtain ⟨_, _, _, _, _, hc, _⟩ := digit_byte c (hds c (mem_cons_self ..))
    simp only [Bool.false_eq_true, if_false, skipMinusAndDigits, cons_append]
    split
    · rename_i heq
      exact absurd (List.cons.inj heq).1 hc
    · exact hskip

lemma toIntegral_int64 (negative : Bool) {i : Int64}
    (hds : ∀ b ∈ ds, isDigit b = true) (hne : ds ≠ [])
    (hi : i.toInt = if negative then -(value ds : Int) else value ds) :
    ∃ r, toIntegral int64 (if negative then 45 :: ds else ds) = .ok r ∧ Int64.ofBitVec r = i := by
  have hlo := i.le_toInt
  have hhi := i.toInt_lt
  obtain ⟨r, hr, hint⟩ := toIntegral_signed .w64 negative hds hne (by
    rw [show Width.bits .w64 - 1 = 63 from rfl]
    cases negative <;> simp at hi ⊢ <;> omega)
  exact ⟨r, hr, Int64.toInt_inj.mp (hint.trans hi.symm)⟩

lemma parseNumber_integral {opts : SerializationOpts} (hopts : opts.parseNumbersAsStrings = false)
    (negative : Bool) (hds : ∀ b ∈ ds, isDigit b = true) (hne : ds ≠ [])
    (hrest : Ends rest) (line level : UInt32) : ∃ line', parseNumber (F := F) opts
      ⟨(if negative then 45 :: ds else ds) ++ rest, line, level⟩ =
        (integralValue opts negative (if negative then 45 :: ds else ds)).map fun v =>
          (v, ⟨ltrim rest, line', level⟩) := by
  obtain ⟨line', hskip⟩ := skipMinusAndDigits_eq negative hds hne hrest line level
  obtain ⟨hdot, he, hE⟩ := ends_is hrest line' level
  obtain ⟨c, cs, rfl⟩ := exists_cons_of_ne_nil hne
  obtain ⟨_, _, _, _, _, hminus, hI, _⟩ := digit_byte c (hds c (mem_cons_self ..))
  set lit := if negative then 45 :: c :: cs else c :: cs with hlit
  have hneg : (⟨lit ++ rest, line, level⟩ : Input).is '-' = negative := by
    cases negative with
    | true => exact is_cons line level 45 (c :: cs ++ rest) (by decide)
    | false => exact (is_cons line level c (cs ++ rest) (by decide)).trans (beq_toNat_false hminus)
  have hinf : consume ⟨lit ++ rest, line, level⟩ [45, 73, 110, 102, 105, 110, 105, 116, 121] =
      none := by
    cases negative with
    | true => simp [hlit, consume, Ne.symm hI]
    | false => simp [hlit, consume, Ne.symm hminus]
  have hlen : (negative && decide (lit.length < 2)) = false := by
    cases negative <;> simp [hlit]
  refine ⟨line', ?_⟩
  rw [parseNumber]
  simp only [hneg, hinf, ite_self, hskip, hlen, hdot, he, hE, hopts, Bool.or_self, Bool.not_false,
    Bool.and_self, Bool.false_eq_true, if_false, if_true]
  cases integralValue (F := F) opts negative lit with
  | error e | ok v => rfl

lemma parseNumber_int (limit : UInt32) (negative : Bool) {i : Int64}
    (hds : ∀ b ∈ ds, isDigit b = true) (hne : ds ≠ [])
    (hi : i.toInt = if negative then -(value ds : Int) else value ds) (hrest : Stops rest)
    (line level : UInt32) : ∃ line', parseNumber (F := F) (parseOpts limit)
      ⟨(if negative then 45 :: ds else ds) ++ rest, line, level⟩ =
        .ok (.int64 i, ⟨ltrim rest, line', level⟩) := by
  obtain ⟨r, hr, rfl⟩ := toIntegral_int64 negative hds hne hi
  obtain ⟨line', hparse⟩ := parseNumber_integral (F := F) (show (parseOpts limit).parseNumbersAsStrings
    = false from rfl) negative hds hne hrest.ends line level
  refine ⟨line', hparse.trans ?_⟩
  rw [integralValue, if_pos (by simp [parseOpts]), hr]
  rfl

lemma reads_int (limit : UInt32) (negative : Bool) {i : Int64}
    (hds : ∀ b ∈ ds, isDigit b = true) (hne : ds ≠ [])
    (hi : i.toInt = if negative then -(value ds : Int) else value ds) :
    Reads limit 1 (if negative then 45 :: ds else ds) (.int64 i : Dynamic F) := by
  have hnum := fun rest line level (hrest : Stops rest) =>
    parseNumber_int (F := F) limit negative hds hne hi hrest line level
  obtain ⟨c, cs, rfl⟩ := exists_cons_of_ne_nil hne
  obtain ⟨hspace, h91, h123, h93, h125, h45, _, h34⟩ := digit_byte c (hds c (mem_cons_self ..))
  have hdigit := isDigit_iff.mp (hds c (mem_cons_self ..))
  cases negative with
  | true =>
    refine reads_scalar (by decide) (by decide) (by decide) (by decide) (by decide) ?_
    intro rest line level hrest
    obtain ⟨line', hparse⟩ := hnum rest line level hrest
    refine ⟨_, _, line', ?_, .int64 i, ltrim_ltrim rest⟩
    exact hparse
  | false =>
    refine reads_scalar hspace h91 h123 h93 h125 ?_
    intro rest line level hrest
    obtain ⟨line', hparse⟩ := hnum rest line level hrest
    refine ⟨_, _, line', ?_, .int64 i, ltrim_ltrim rest⟩
    have hq : (c.toNat == 34) = false := beq_toNat_false h34
    simp only [parseScalar_cons, hq, hdigit, and_self, decide_true, Bool.or_true, if_true,
      Bool.false_eq_true, if_false]
    exact hparse

lemma parseValue_ltrim (fuel : Nat) (s : List UInt8) (line : UInt32) (hlevel : ¬ level > limit) :
    parseValue (F := F) (parseOpts limit) fuel ⟨ltrim s, line, level⟩ =
      parseValue (parseOpts limit) fuel ⟨s, line, level⟩ := by
  have hinc : ∀ s, incrementRecursionLevel (parseOpts limit) ⟨s, line, level⟩ =
      .ok ⟨s, line, level + 1⟩ := fun s => if_neg hlevel
  cases fuel with
  | zero => rw [parseValue, parseValue]
  | succ fuel =>
    rw [parseValue, parseValue, hinc, hinc]
    simp only [skipWhitespace_mk, ltrim_ltrim]
    rfl

lemma parseValue_inner
    (h : Reads limit d txt v) (hd : 1 ≤ d) (hfuel : 4 * txt.length ≤ fuel) (hc : c = 44 ∨ c = 93 ∨ c = 125) (rest : List UInt8) (line : UInt32) (hlevel : level.toNat + d ≤ limit.toNat + 1) :
    ∃ v' rest' line', parseValue (parseOpts limit) fuel ⟨ltrim (txt ++ c :: rest), line, level⟩ =
        .ok (v', ⟨rest', line', level⟩) ∧ v'.Same v ∧ ltrim rest' = c :: rest := by
  have hstops : Stops (c :: rest) := by
    intro b hb
    have hcb : c = b := by simpa using hb
    exact Or.inr (hcb ▸ hc)
  have hspace : isWhitespace c = false := by
    rcases hc with rfl | rfl | rfl <;> decide
  obtain ⟨v', rest', line', hparse, hsame, htrim⟩ :=
    h.parses fuel [] (c :: rest) line level hfuel blank_nil hstops hlevel
  rw [parseValue_ltrim fuel _ line (level_ok hd hlevel)]
  exact ⟨v', rest', line', hparse, hsame, htrim.trans (ltrim_cons hspace rest)⟩

def commaTexts (es : List (List UInt8 × Dynamic F)) : List UInt8 :=
  es.flatMap fun x => 44 :: x.1

lemma parseArrayLoop_step (hd : 1 ≤ d) (h : Reads limit d txt v) (hfuel : 4 * txt.length ≤ fuel) (hc : c = 44 ∨ c = 93) (acc : List (Dynamic F)) (rest : List UInt8)
    (line : UInt32) (hlevel : level.toNat + d ≤ limit.toNat + 1) : ∃ v' line', v'.Same v ∧
      parseArrayLoop (parseOpts limit) (fuel + 1) acc ⟨ltrim (txt ++ c :: rest), line, level⟩ =
        if c = 44 then
          parseArrayLoop (parseOpts limit) fuel (acc ++ [v']) ⟨ltrim rest, line', level⟩
        else .ok (acc ++ [v'], ⟨c :: rest, line', level⟩) := by
  obtain ⟨v', rest', line', hparse, hsame, htrim⟩ :=
    parseValue_inner h hd hfuel (hc.imp id Or.inl) rest line hlevel
  have hcomma := is_cons line' level c rest (show ','.toNat < 128 by decide)
  refine ⟨v', line', hsame, ?_⟩
  rw [parseArrayLoop, hparse]
  simp only [parseOpts, Bool.false_and, Bool.false_eq_true, if_false, bind, Except.bind,
    skipWhitespace_mk, htrim, hcomma]
  rcases hc with rfl | rfl
  · rfl
  · rfl

lemma parseArrayLoop_reads (hd : 1 ≤ d)
    (es : List (List UInt8 × Dynamic F)) (e : List UInt8 × Dynamic F) (fuel : Nat)
    (acc : List (Dynamic F)) (hw : Blank w) (rest : List UInt8)
    (line level : UInt32) (he : Reads limit d e.1 e.2) (hes : ∀ x ∈ es, Reads limit d x.1 x.2)
    (hfuel : 4 * (e.1.length + (commaTexts es).length + w.length) + 1 ≤ fuel)
    (hlevel : level.toNat + d ≤ limit.toNat + 1) :
    ∃ vs' line', parseArrayLoop (parseOpts limit) fuel acc
        ⟨ltrim (e.1 ++ (commaTexts es ++ (w ++ 93 :: rest))), line, level⟩ =
          .ok (acc ++ vs', ⟨93 :: rest, line', level⟩) ∧
      List.Forall₂ Dynamic.Same vs' (e.2 :: es.map Prod.snd) := by
  obtain ⟨fuel, rfl⟩ : ∃ n, fuel = n + 1 := ⟨fuel - 1, by omega⟩
  induction es generalizing e fuel acc line with
  | nil =>
    obtain ⟨v', line', hsame, hloop⟩ :=
      parseArrayLoop_step hd (he.padRight hw)
        (show 4 * (e.1 ++ w).length ≤ fuel by rw [length_append]; omega) (Or.inr rfl) acc
        rest line hlevel
    rw [append_assoc] at hloop
    exact ⟨[v'], line', hloop, .cons hsame .nil⟩
  | cons x es ih =>
    have hcons : commaTexts (x :: es) = 44 :: (x.1 ++ commaTexts es) := rfl
    rw [hcons, length_cons, length_append] at hfuel
    obtain ⟨v', line', hsame, hloop⟩ :=
      parseArrayLoop_step hd he (show 4 * e.1.length ≤ fuel by omega) (Or.inl rfl) acc
        (x.1 ++ (commaTexts es ++ (w ++ 93 :: rest))) line hlevel
    obtain ⟨fuel, rfl⟩ : ∃ n, fuel = n + 1 := ⟨fuel - 1, by omega⟩
    obtain ⟨vs', line'', hrest, hsames⟩ := ih x (acc ++ [v']) line'
      (hes x (mem_cons_self ..)) (fun y hy => hes y (mem_cons_of_mem _ hy)) fuel
      (by omega)
    refine ⟨v' :: vs', line'', ?_, .cons hsame hsames⟩
    rw [hcons, cons_append, append_assoc, hloop, if_pos rfl, hrest]
    simp

lemma level_succ (hd : 1 ≤ d)
    (h : level.toNat + (d + 1) ≤ limit.toNat + 1) : (level + 1).toNat + d ≤ limit.toNat + 1 := by
  have hlt := limit.toNat_lt
  have hadd : (level + 1).toNat = level.toNat + 1 := by
    rw [UInt32.toNat_add]
    exact Nat.mod_eq_of_lt (by simp only [UInt32.reduceToNat]; omega)
  omega

lemma Starts.is_false (h : Starts txt) (rest : List UInt8)
    (line level : UInt32) : (⟨ltrim (txt ++ rest), line, level⟩ : Input).is ']' = false ∧
      (⟨ltrim (txt ++ rest), line, level⟩ : Input).is '\x7d' = false := by
  obtain ⟨w, b, s, hw, rfl, hb, h93, h125⟩ := h
  rw [append_assoc, ltrim_append hw, cons_append, ltrim_cons hb,
    is_cons line level b _ (by decide), is_cons line level b _ (by decide)]
  exact ⟨beq_toNat_false h93, beq_toNat_false h125⟩

lemma reads_array (hd : 1 ≤ d) (es : List (List UInt8 × Dynamic F))
    (e : List UInt8 × Dynamic F) (he : Reads limit d e.1 e.2)
    (hes : ∀ x ∈ es, Reads limit d x.1 x.2) (hu : Blank u) :
    Reads limit (d + 1) (91 :: (e.1 ++ (commaTexts es ++ (u ++ [93]))))
      (.array (e.2 :: es.map Prod.snd)) := by
  constructor
  · exact ⟨[], 91, _, blank_nil, rfl, by decide, by decide, by decide⟩
  intro fuel w rest line level hfuel hw hrest hlevel
  simp only [length_cons, length_append, length_nil] at hfuel
  obtain ⟨fuel, rfl⟩ : ∃ n, fuel = n + 2 := ⟨fuel - 2, by omega⟩
  obtain ⟨vs', line', hloop, hsames⟩ :=
    parseArrayLoop_reads hd es e fuel [] hu rest line (level + 1) he hes (by omega)
      (level_succ hd hlevel)
  obtain ⟨hclose, _⟩ := he.starts.is_false (commaTexts es ++ (u ++ 93 :: rest)) line (level + 1)
  have hexpect : expect ⟨93 :: rest, line', level + 1⟩ ']' = .ok ⟨rest, line', level + 1⟩ := by
    rfl
  refine ⟨.array vs', rest, line', ?_, Dynamic.same_array hsames, rfl⟩
  have harray : parseArray (parseOpts limit) (fuel + 1)
      ⟨91 :: (e.1 ++ (commaTexts es ++ (u ++ 93 :: rest))), line, level + 1⟩ =
        .ok (.array vs', ⟨rest, line', level + 1⟩) := by
    rw [parseArray]
    simp only [next_cons, skipWhitespace_mk, hclose, Bool.false_eq_true, if_false, hloop, bind,
      Except.bind, nil_append, hexpect]
    rfl
  simp [parseValue_bracket hw _ _ (level_ok (by omega) hlevel), harray, leaveGuard_ok]

lemma reads_emptyArray (limit : UInt32) (hu : Blank u) :
    Reads limit 1 (91 :: (u ++ [93])) (.array [] : Dynamic F) := by
  constructor
  · exact ⟨[], 91, _, blank_nil, rfl, by decide, by decide, by decide⟩
  intro fuel w rest line level hfuel hw hrest hlevel
  simp only [length_cons] at hfuel
  obtain ⟨fuel, rfl⟩ : ∃ n, fuel = n + 2 := ⟨fuel - 2, by omega⟩
  refine ⟨.array [], rest, line, ?_, Dynamic.same_array .nil, rfl⟩
  have hclose := is_cons line (level + 1) 93 rest (show ']'.toNat < 128 by decide)
  have harray : parseArray (F := F) (parseOpts limit) (fuel + 1)
      ⟨91 :: (u ++ 93 :: rest), line, level + 1⟩ = .ok (.array [], ⟨rest, line, level + 1⟩) := by
    rw [parseArray]
    simp only [next_cons, skipWhitespace_mk, ltrim_append hu,
      ltrim_cons (show isWhitespace 93 = false by decide), hclose]
    rfl
  simp [parseValue_bracket hw _ _ (level_ok (le_refl 1) hlevel), harray, leaveGuard_ok]

structure Member (F : Type) where
  key : List UInt8
  name : List UInt8
  txt : List UInt8
  val : Dynamic F

def Member.text (m : Member F) : List UInt8 := m.key ++ 58 :: m.txt

structure ReadsMember (limit : UInt32) (d : Nat) (m : Member F) : Prop where
  key : ∃ w lit w', Blank w ∧ Blank w' ∧ m.key = w ++ (lit ++ w') ∧ ReadsString lit m.name
  val : Reads limit d m.txt m.val

variable {m : Member F}

lemma ReadsMember.mono (h : ReadsMember limit d m) (hd : d ≤ d') : ReadsMember limit d' m :=
  ⟨h.key, h.val.mono hd⟩

lemma ReadsMember.padRight (h : ReadsMember limit d m) (hw : Blank w) :
    ReadsMember limit d { m with txt := m.txt ++ w } :=
  ⟨h.key, h.val.padRight hw⟩

def commaMembers (ms : List (Member F)) : List UInt8 := ms.flatMap fun m => 44 :: m.text

lemma parseKey_string (opts : SerializationOpts) (hw : Blank w)
    (h : ReadsString lit s) (fuel : Nat) (w' rest : List UInt8) (line level : UInt32) :
    ∃ line', parseKey (F := F) opts (fuel + 1) ⟨ltrim (w ++ (lit ++ w') ++ rest), line, level⟩ =
      .ok (.string s, ⟨w' ++ rest, line', level⟩) := by
  obtain ⟨line', hparse⟩ := h.parses (w' ++ rest) line level
  obtain ⟨body, rfl⟩ := h.quote
  have hquote := is_cons line level 34 (body ++ (w' ++ rest)) (show '"'.toNat < 128 by decide)
  refine ⟨line', ?_⟩
  rw [append_assoc, ltrim_append hw, append_assoc, cons_append,
    ltrim_cons (by decide), parseKey, hquote, if_pos (by decide)]
  rw [cons_append] at hparse
  rw [hparse]
  rfl

lemma parseObjectLoop_step (hd : 1 ≤ d)
    (h : ReadsMember limit d m) (hfuel : 4 * m.text.length ≤ fuel) (hc : c = 44 ∨ c = 125) (acc : List (List UInt8 × Dynamic F)) (rest : List UInt8)
    (line : UInt32) (hlevel : level.toNat + d ≤ limit.toNat + 1) : ∃ v' line', v'.Same m.val ∧
      parseObjectLoop (parseOpts limit) (fuel + 1) (Dynamic.toItems acc)
          ⟨ltrim (m.text ++ c :: rest), line, level⟩ = if c = 44 then
          parseObjectLoop (parseOpts limit) fuel
            (Dynamic.toItems (Dynamic.insertNamed acc m.name v')) ⟨ltrim rest, line', level⟩
        else .ok (Dynamic.toItems (Dynamic.insertNamed acc m.name v'),
          ⟨c :: rest, line', level⟩) := by
  obtain ⟨w, lit, w', hw, hw', hkey, hlit⟩ := h.key
  simp only [Member.text, length_append, length_cons] at hfuel
  obtain ⟨n, rfl⟩ : ∃ n, fuel = n + 1 := ⟨fuel - 1, by omega⟩
  obtain ⟨line₁, hparseKey⟩ := parseKey_string (F := F) (parseOpts limit) hw hlit n w'
    (58 :: (m.txt ++ c :: rest)) line level
  have hexpect : expect ⟨58 :: (m.txt ++ c :: rest), line₁, level⟩ ':' =
      .ok ⟨m.txt ++ c :: rest, line₁, level⟩ := by
    rfl
  obtain ⟨v', rest', line', hparse, hsame, htrim⟩ :=
    parseValue_inner h.val hd (show 4 * m.txt.length ≤ n + 1 by omega)
      (show c = 44 ∨ c = 93 ∨ c = 125 from hc.imp id Or.inr) rest line₁ hlevel
  have hcomma := is_cons line' level c rest (show ','.toNat < 128 by decide)
  have hinsert : insertItem (Dynamic.toItems acc) (.string m.name) v' =
      .ok (Dynamic.toItems (Dynamic.insertNamed acc m.name v')) := by
    rw [insertItem, Dynamic.insert_string]
  refine ⟨v', line', hsame, ?_⟩
  have htext : m.text ++ c :: rest = w ++ (lit ++ w') ++ 58 :: (m.txt ++ c :: rest) := by
    rw [Member.text, hkey]
    simp
  rw [htext, parseObjectLoop]
  simp only [hparseKey, bind, Except.bind, skipWhitespace_mk, ltrim_append hw',
    ltrim_cons (show isWhitespace 58 = false by decide), hexpect, hparse, hinsert, htrim, hcomma]
  rcases hc with rfl | rfl
  · rfl
  · rfl

def SameMembers (vs : List (List UInt8 × Dynamic F)) (ms : List (Member F)) : Prop :=
  List.Forall₂ (fun v m => v.1 = m.name ∧ v.2.Same m.val) vs ms

lemma parseObjectLoop_reads (hd : 1 ≤ d) (ms : List (Member F))
    (m : Member F) (fuel : Nat) (acc : List (List UInt8 × Dynamic F))
    (hw : Blank w) (rest : List UInt8) (line level : UInt32) (hm : ReadsMember limit d m)
    (hms : ∀ x ∈ ms, ReadsMember limit d x)
    (hfuel : 4 * (m.text.length + (commaMembers ms).length + w.length) + 1 ≤ fuel)
    (hlevel : level.toNat + d ≤ limit.toNat + 1) :
    ∃ vs line', parseObjectLoop (parseOpts limit) fuel (Dynamic.toItems acc)
        ⟨ltrim (m.text ++ (commaMembers ms ++ (w ++ 125 :: rest))), line, level⟩ =
          .ok (Dynamic.toItems (Dynamic.insertAll acc vs), ⟨125 :: rest, line', level⟩) ∧
      SameMembers vs (m :: ms) := by
  obtain ⟨fuel, rfl⟩ : ∃ n, fuel = n + 1 := ⟨fuel - 1, by omega⟩
  induction ms generalizing m fuel acc line with
  | nil =>
    have htext : Member.text { m with txt := m.txt ++ w } = m.text ++ w := by
      simp [Member.text]
    obtain ⟨v', line', hsame, hloop⟩ :=
      parseObjectLoop_step hd (hm.padRight hw)
        (show 4 * (Member.text { m with txt := m.txt ++ w }).length ≤ fuel by
          rw [htext, length_append]; omega) (Or.inr rfl) acc rest line hlevel
    rw [htext, append_assoc] at hloop
    exact ⟨[(m.name, v')], line', hloop, .cons ⟨rfl, hsame⟩ .nil⟩
  | cons x ms ih =>
    have hcons : commaMembers (x :: ms) = 44 :: (x.text ++ commaMembers ms) := rfl
    rw [hcons, length_cons, length_append] at hfuel
    obtain ⟨v', line', hsame, hloop⟩ :=
      parseObjectLoop_step hd hm (show 4 * m.text.length ≤ fuel by omega) (Or.inl rfl) acc
        (x.text ++ (commaMembers ms ++ (w ++ 125 :: rest))) line hlevel
    obtain ⟨fuel, rfl⟩ : ∃ n, fuel = n + 1 := ⟨fuel - 1, by omega⟩
    obtain ⟨vs, line'', hrest, hsames⟩ := ih x (Dynamic.insertNamed acc m.name v') line'
      (hms x (mem_cons_self ..)) (fun y hy => hms y (mem_cons_of_mem _ hy)) fuel
      (by omega)
    refine ⟨(m.name, v') :: vs, line'', ?_, .cons ⟨rfl, hsame⟩ hsames⟩
    rw [hcons, cons_append, append_assoc, hloop, if_pos rfl, hrest]
    rfl

structure IsMapOf (xs : List (List UInt8 × Dynamic F)) (ms : List (Member F)) : Prop where
  nodup : (xs.map Prod.fst).Nodup
  mem : ∀ name v, (name, v) ∈ xs ↔
    Dynamic.lastOf (ms.map fun m => (m.name, m.val)) name = some v

variable {vs xs : List (List UInt8 × Dynamic F)}

omit [Double F] in
lemma SameMembers.lastOf {ms : List (Member F)} (h : SameMembers vs ms) (name : List UInt8) :
    (Dynamic.lastOf vs name = none ∧ Dynamic.lastOf (ms.map fun m => (m.name, m.val)) name = none) ∨
      ∃ v' v, Dynamic.lastOf vs name = some v' ∧
        Dynamic.lastOf (ms.map fun m => (m.name, m.val)) name = some v ∧ v'.Same v := by
  induction h with
  | nil => exact Or.inl ⟨rfl, rfl⟩
  | @cons p m vs ms hpm _ ih =>
    obtain ⟨k, x⟩ := p
    obtain ⟨hname, hval⟩ := hpm
    subst hname
    simp only [map_cons, Dynamic.lastOf]
    rcases ih with ⟨h₁, h₂⟩ | ⟨v', v, h₁, h₂, hsame⟩
    · rw [h₁, h₂]
      by_cases hk : m.name = name
      · exact Or.inr ⟨x, m.val, by simp [hk], by simp [hk], hval⟩
      · exact Or.inl ⟨by simp [hk], by simp [hk]⟩
    · rw [h₁, h₂]
      exact Or.inr ⟨v', v, rfl, rfl, hsame⟩

omit [Double F] in
lemma same_insertAll {ms : List (Member F)} (h : SameMembers vs ms) (hmap : IsMapOf xs ms) :
    (Dynamic.object (Dynamic.toItems (Dynamic.insertAll [] vs))).Same
      (.object (Dynamic.toItems xs)) := by
  have hnil : (([] : List (List UInt8 × Dynamic F)).map Prod.fst).Nodup := nodup_nil
  have hmem : ∀ name v', (name, v') ∈ Dynamic.insertAll [] vs ↔
      Dynamic.lastOf vs name = some v' := by
    simp [Dynamic.mem_insertAll]
  refine .object _ _ (Dynamic.nodup_insertAll hnil vs) hmap.nodup ?_ ?_
  · intro k
    simp only [mem_map, Prod.exists, exists_and_right, exists_eq_right, hmem, hmap.mem]
    rcases h.lastOf k with ⟨hnone, hnone'⟩ | ⟨u', u, hu', hu, _⟩
    · rw [hnone, hnone']
    · rw [hu', hu]
      exact ⟨fun _ => ⟨u, rfl⟩, fun _ => ⟨u', rfl⟩⟩
  intro k v' v hv' hv
  rw [hmem] at hv'
  rw [hmap.mem] at hv
  rcases h.lastOf k with ⟨hnone, _⟩ | ⟨u', u, hu', hu, hsame⟩
  · rw [hnone] at hv'
    cases hv'
  rw [hv'] at hu'
  rw [hv] at hu
  cases hu'
  cases hu
  exact hsame

lemma reads_object (hd : 1 ≤ d) (ms : List (Member F))
    (m : Member F) (hm : ReadsMember limit d m) (hms : ∀ x ∈ ms, ReadsMember limit d x) (hmap : IsMapOf xs (m :: ms))
    (hu : Blank u) : Reads limit (d + 1) (123 :: (m.text ++ (commaMembers ms ++ (u ++ [125]))))
      (.object (Dynamic.toItems xs)) := by
  constructor
  · exact ⟨[], 123, _, blank_nil, rfl, by decide, by decide, by decide⟩
  intro fuel w rest line level hfuel hw hrest hlevel
  simp only [length_cons, length_append, length_nil] at hfuel
  obtain ⟨fuel, rfl⟩ : ∃ n, fuel = n + 2 := ⟨fuel - 2, by omega⟩
  obtain ⟨vs, line', hloop, hsame⟩ :=
    parseObjectLoop_reads hd ms m fuel [] hu rest line (level + 1) hm hms (by omega)
      (level_succ hd hlevel)
  have hclose : (⟨ltrim (m.text ++ (commaMembers ms ++ (u ++ 125 :: rest))), line, level + 1⟩ :
      Input).is '\x7d' = false := by
    obtain ⟨w₀, lit, _, hw₀, _, hkey, hlit⟩ := hm.key
    obtain ⟨body, rfl⟩ := hlit.quote
    rw [Member.text, hkey, append_assoc, append_assoc, ltrim_append hw₀,
      append_assoc, cons_append, ltrim_cons (by decide), is_cons _ _ _ _ (by decide)]
    rfl
  have hexpect : expect ⟨125 :: rest, line', level + 1⟩ '\x7d' =
      .ok ⟨rest, line', level + 1⟩ := by
    rfl
  refine ⟨_, rest, line', ?_, same_insertAll hsame hmap, rfl⟩
  have hobject : parseObject (parseOpts limit) (fuel + 1)
      ⟨123 :: (m.text ++ (commaMembers ms ++ (u ++ 125 :: rest))), line, level + 1⟩ =
        .ok (.object (Dynamic.toItems (Dynamic.insertAll [] vs)),
          ⟨rest, line', level + 1⟩) := by
    have hloop' : parseObjectLoop (parseOpts limit) fuel []
      ⟨ltrim (m.text ++ (commaMembers ms ++ (u ++ 125 :: rest))), line, level + 1⟩ = _ := hloop
    rw [parseObject]
    simp only [next_cons, skipWhitespace_mk, hclose, Bool.false_eq_true, if_false, hloop', bind,
      Except.bind, hexpect]
    rfl
  simp [parseValue_brace hw _ _ (level_ok (by omega) hlevel), hobject, leaveGuard_ok]

lemma reads_emptyObject (limit : UInt32) (hu : Blank u) :
    Reads limit 1 (123 :: (u ++ [125])) (.object [] : Dynamic F) := by
  constructor
  · exact ⟨[], 123, _, blank_nil, rfl, by decide, by decide, by decide⟩
  intro fuel w rest line level hfuel hw hrest hlevel
  simp only [length_cons] at hfuel
  obtain ⟨fuel, rfl⟩ : ∃ n, fuel = n + 2 := ⟨fuel - 2, by omega⟩
  refine ⟨.object [], rest, line, ?_, Dynamic.same_emptyObject, rfl⟩
  have hclose := is_cons line (level + 1) 125 rest (show '\x7d'.toNat < 128 by decide)
  have hobject : parseObject (F := F) (parseOpts limit) (fuel + 1)
      ⟨123 :: (u ++ 125 :: rest), line, level + 1⟩ =
        .ok (.object [], ⟨rest, line, level + 1⟩) := by
    rw [parseObject]
    simp only [next_cons, skipWhitespace_mk, ltrim_append hu,
      ltrim_cons (show isWhitespace 125 = false by decide), hclose]
    rfl
  simp [parseValue_brace hw _ _ (level_ok (le_refl 1) hlevel), hobject, leaveGuard_ok]

lemma parseJson_of_reads (h : Reads limit d txt v) (hd : d ≤ limit.toNat + 1) :
    ∃ v', parseJson txt (parseOpts limit) = .ok v' ∧ v'.Same v := by
  obtain ⟨v', rest', line', hparse, hsame, htrim⟩ :=
    h.parses (4 * txt.length + 4) [] [] 0 0 (by omega) blank_nil (fun b hb => by simp at hb)
      (by simpa using hd)
  refine ⟨v', ?_, hsame⟩
  rw [nil_append, append_nil] at hparse
  have hend : ltrim rest' = [] := htrim
  rw [parseJson]
  simp only [hparse, bind, Except.bind, skipWhitespace_mk, hend]
  rfl

end Reads

end Acc.Json
