import Accelerator.Json.Strings

namespace Acc.Json.Grammar

open List Option Acc.Dynamic

open Input Unicode

inductive WsChar
  | space | tab | lineFeed | carriageReturn

def WsChar.byte : WsChar → UInt8
  | space => 0x20
  | tab => 0x09
  | lineFeed => 0x0A
  | carriageReturn => 0x0D

abbrev Ws := List WsChar

def Ws.text (w : Ws) : List UInt8 := w.map WsChar.byte

structure Gap where
  before : Ws := []
  after : Ws := []

def Gap.text (g : Gap) (c : UInt8) : List UInt8 := Ws.text g.before ++ c :: Ws.text g.after

lemma blank_text (w : Ws) : Blank (Ws.text w) := by
  rintro b hb
  obtain ⟨c, _, rfl⟩ := List.mem_map.mp hb
  cases c <;> rfl

inductive Escape
  | quotationMark | reverseSolidus | solidus | backspace | formFeed | lineFeed | carriageReturn | tab

namespace Escape

def letter : Escape → UInt8
  | quotationMark => 0x22
  | reverseSolidus => 0x5C
  | solidus => 0x2F
  | backspace => 0x62
  | formFeed => 0x66
  | lineFeed => 0x6E
  | carriageReturn => 0x72
  | tab => 0x74

def byte : Escape → UInt8
  | quotationMark => 0x22
  | reverseSolidus => 0x5C
  | solidus => 0x2F
  | backspace => 0x08
  | formFeed => 0x0C
  | lineFeed => 0x0A
  | carriageReturn => 0x0D
  | tab => 0x09

end Escape

abbrev Unescaped (c : Char) : Prop := 0x20 ≤ c.toNat ∧ c.toNat ≠ 0x22 ∧ c.toNat ≠ 0x5C

inductive JChar
  | unescaped (c : Char) (h : Unescaped c)
  | escape (e : Escape)
  | unicode (h : Hex4)

def JChar.text : JChar → List UInt8
  | unescaped c _ => String.utf8EncodeChar c
  | escape e => [0x5C, e.letter]
  | unicode h => 0x5C :: 0x75 :: h.text

def stringText (s : List JChar) : List UInt8 := 34 :: (s.flatMap JChar.text ++ [34])

def denoteString : List JChar → Option (List UInt8)
  | [] => some []
  | .unescaped c _ :: s => (denoteString s).map (String.utf8EncodeChar c ++ ·)
  | .escape e :: s => (denoteString s).map (e.byte :: ·)
  | .unicode h :: s =>
    if IsHighSurrogate h.val then
      match s with
      | .unicode l :: s =>
        if IsLowSurrogate l.val then
          (denoteString s).map
            (String.utf8EncodeChar (Char.ofNat (pairValue h.val l.val)) ++ ·)
        else none
      | _ => none
    else if IsLowSurrogate h.val then none
    else (denoteString s).map (String.utf8EncodeChar (Char.ofNat h.val) ++ ·)

def digitsText (ds : List (Fin 10)) : List UInt8 := ds.map fun d : Fin 10 => UInt8.ofNat (48 + d.val)

inductive IntPart
  | zero
  | nonzero (d : Fin 10) (h : d ≠ 0) (ds : List (Fin 10))

def IntPart.text : IntPart → List UInt8
  | zero => digitsText [0]
  | nonzero d _ ds => digitsText (d :: ds)

structure Exponent where
  upper : Bool
  minus : Option Bool
  digit : Fin 10
  digits : List (Fin 10)

def Exponent.text (e : Exponent) : List UInt8 :=
  (if e.upper then 0x45 else 0x65) ::
    ((match e.minus with
      | none => []
      | some true => [0x2D]
      | some false => [0x2B]) ++ digitsText (e.digit :: e.digits))

structure Number where
  minus : Bool
  int : IntPart
  frac : Option (Fin 10 × List (Fin 10)) := none
  exp : Option Exponent := none

namespace Number

def text (n : Number) : List UInt8 :=
  (if n.minus then 45 :: n.int.text else n.int.text) ++
    ((match n.frac with
      | none => []
      | some (d, ds) => 0x2E :: digitsText (d :: ds)) ++
    (match n.exp with
      | none => []
      | some e => e.text))

def intValue (n : Number) : Int :=
  if n.minus then -(Decimal.value n.int.text : Int) else Decimal.value n.int.text

def denote (n : Number) : Option Int64 :=
  if n.frac.isNone && n.exp.isNone && -2 ^ 63 ≤ n.intValue && n.intValue < 2 ^ 63 then
    some (Int64.ofInt n.intValue)
  else none

end Number

mutual

inductive Value
  | null
  | bool (b : Bool)
  | number (n : Number)
  | string (s : List JChar)
  | emptyArray (opening closing : Gap)
  | array (opening : Gap) (v : Value) (rest : Elements) (closing : Gap)
  | emptyObject (opening closing : Gap)
  | object (opening : Gap) (name : List JChar) (colon : Gap) (v : Value) (rest : Members)
      (closing : Gap)

inductive Elements
  | nil
  | cons (comma : Gap) (v : Value) (rest : Elements)

inductive Members
  | nil
  | cons (comma : Gap) (name : List JChar) (colon : Gap) (v : Value) (rest : Members)

end

mutual

def Value.text : Value → List UInt8
  | .null => [0x6E, 0x75, 0x6C, 0x6C]
  | .bool b => if b then [0x74, 0x72, 0x75, 0x65] else [0x66, 0x61, 0x6C, 0x73, 0x65]
  | .number n => n.text
  | .string s => stringText s
  | .emptyArray opening closing => opening.text 0x5B ++ closing.text 0x5D
  | .array opening v rest closing =>
    opening.text 0x5B ++ (v.text ++ (rest.text ++ closing.text 0x5D))
  | .emptyObject opening closing => opening.text 0x7B ++ closing.text 0x7D
  | .object opening name colon v rest closing =>
    opening.text 0x7B ++
      (stringText name ++ (colon.text 0x3A ++ (v.text ++ (rest.text ++ closing.text 0x7D))))

def Elements.text : Elements → List UInt8
  | .nil => []
  | .cons comma v rest => comma.text 0x2C ++ (v.text ++ rest.text)

def Members.text : Members → List UInt8
  | .nil => []
  | .cons comma name colon v rest =>
    comma.text 0x2C ++ (stringText name ++ (colon.text 0x3A ++ (v.text ++ rest.text)))

end

mutual

def Value.depth : Value → Nat
  | .array _ v rest _ => max v.depth rest.depth + 1
  | .object _ _ _ v rest _ => max v.depth rest.depth + 1
  | _ => 1

def Elements.depth : Elements → Nat
  | .nil => 0
  | .cons _ v rest => max v.depth rest.depth

def Members.depth : Members → Nat
  | .nil => 0
  | .cons _ _ _ v rest => max v.depth rest.depth

end

def lastWins {α : Type} : List (List UInt8 × α) → List (List UInt8 × α)
  | [] => []
  | m :: ms => if m.1 ∈ (lastWins ms).map Prod.fst then lastWins ms else m :: lastWins ms

section Denote

variable {F : Type}

mutual

def Value.denote : Value → Option (Dynamic F)
  | .null => some .null
  | .bool b => some (.bool b)
  | .number n => n.denote.map .int64
  | .string s => (denoteString s).map .string
  | .emptyArray _ _ => some (.array [])
  | .array _ v rest _ =>
    match v.denote, rest.denote with
    | some x, some xs => some (.array (x :: xs))
    | _, _ => none
  | .emptyObject _ _ => some (.object [])
  | .object _ name _ v rest _ =>
    match denoteString name, v.denote, rest.denote with
    | some k, some x, some ms => some (.object (toItems (lastWins ((k, x) :: ms))))
    | _, _, _ => none

def Elements.denote : Elements → Option (List (Dynamic F))
  | .nil => some []
  | .cons _ v rest =>
    match v.denote, rest.denote with
    | some x, some xs => some (x :: xs)
    | _, _ => none

def Members.denote : Members → Option (List (List UInt8 × Dynamic F))
  | .nil => some []
  | .cons _ name _ v rest =>
    match denoteString name, v.denote, rest.denote with
    | some k, some x, some ms => some ((k, x) :: ms)
    | _, _, _ => none

end

end Denote

structure Text where
  before : Ws
  value : Value
  after : Ws

def Text.text (t : Text) : List UInt8 :=
  Ws.text t.before ++ (t.value.text ++ Ws.text t.after)

lemma mem_utf8EncodeChar {c : Char} {b : UInt8} (h : b ∈ String.utf8EncodeChar c) :
    b.toNat = c.toNat ∨ 128 ≤ b.toNat := by
  have hbyte : ∀ n : Nat, 128 ≤ n → n < 256 → 128 ≤ (UInt8.ofNat n).toNat := by
    intro n hn hlt
    rw [UInt8.toNat_ofNat', Nat.mod_eq_of_lt hlt]
    exact hn
  rw [String.utf8EncodeChar] at h
  split_ifs at h with h1 h2 h3
  · left
    rw [mem_singleton.mp h, UInt8.toNat_ofNat']
    exact Nat.mod_eq_of_lt (lt_of_le_of_lt h1 (by decide))
  all_goals
    right
    simp only [mem_cons, not_mem_nil, or_false] at h
    rcases h with rfl | h
    · exact hbyte _ (by omega) (by omega)
  · rw [h]
    exact hbyte _ (by omega) (by omega)
  · rcases h with rfl | rfl <;> exact hbyte _ (by omega) (by omega)
  · rcases h with rfl | rfl | rfl <;> exact hbyte _ (by omega) (by omega)

lemma readsBody_append {cs body s : List UInt8} (hcs : ∀ b ∈ cs, b ≠ 34 ∧ b ≠ 92)
    (h : ReadsBody body s) : ReadsBody (cs ++ body) (cs ++ s) := by
  induction cs with
  | nil => exact h
  | cons b cs ih =>
    obtain ⟨⟨hq, hs⟩, hcs⟩ := forall_mem_cons.mp hcs
    exact readsBody_plain hq hs (ih hcs)

lemma Unescaped.plain {c : Char} (h : Unescaped c) :
    ∀ b ∈ String.utf8EncodeChar c, b ≠ 34 ∧ b ≠ 92 := by
  intro b hb
  obtain ⟨_, hq, hs⟩ := h
  rcases mem_utf8EncodeChar hb with heq | hge
  · constructor
    · rintro rfl
      exact hq heq.symm
    · rintro rfl
      exact hs heq.symm
  constructor
  · rintro rfl
    exact absurd hge (by decide)
  · rintro rfl
    exact absurd hge (by decide)

lemma Escape.mem_shortEscapes (e : Escape) : (e.letter, e.byte) ∈ shortEscapes := by
  cases e <;> decide

lemma codePointToUtf8_ofNat {n : Nat} (h : n.isValidChar) :
    codePointToUtf8 (UInt32.ofNat n) = String.utf8EncodeChar (Char.ofNat n) := by
  have hval : (Char.ofNat n).val = UInt32.ofNat n := by
    apply UInt32.toNat_inj.mp
    rw [UInt32.toNat_ofNat_of_lt' (show n < 2 ^ 32 by rcases h with h | h <;> omega)]
    exact (Char.toNat_ofNat n).trans (if_pos h)
  rw [← hval, codePointToUtf8_char]

lemma isValidChar_of_not_surrogate {n : Nat} (hlt : n < 0x10000) (hhigh : ¬ IsHighSurrogate n)
    (hlow : ¬ IsLowSurrogate n) : n.isValidChar := by
  rw [Nat.isValidChar]
  omega

lemma isValidChar_pairValue {h l : Nat} (hhigh : IsHighSurrogate h) (hlow : IsLowSurrogate l) :
    (pairValue h l).isValidChar := by
  unfold Nat.isValidChar pairValue
  omega

lemma readsBody_denote {s : List JChar} {bytes : List UInt8} (h : denoteString s = some bytes) :
    ReadsBody (s.flatMap JChar.text) bytes := by
  induction s using denoteString.induct generalizing bytes with
  | case1 =>
    cases h
    exact readsBody_nil
  | case2 c hc s ih =>
    rw [denoteString] at h
    obtain ⟨out, hout, rfl⟩ := map_eq_some_iff.mp h
    exact readsBody_append hc.plain (ih hout)
  | case3 e s ih =>
    rw [denoteString] at h
    obtain ⟨out, hout, rfl⟩ := map_eq_some_iff.mp h
    exact readsBody_escape (parseEscape_short e.mem_shortEscapes) (ih hout)
  | case4 hi hhigh lo s hlow ih =>
    rw [denoteString, if_pos hhigh] at h
    simp only [if_pos hlow] at h
    obtain ⟨out, hout, rfl⟩ := map_eq_some_iff.mp h
    have hpair := parseEscape_pair hhigh hlow
    rw [codePointToUtf8_ofNat (isValidChar_pairValue hhigh hlow)] at hpair
    simpa [JChar.text] using readsBody_escape hpair (ih hout)
  | case5 hi hhigh lo s hlow =>
    rw [denoteString, if_pos hhigh] at h
    simp only [if_neg hlow] at h
    cases h
  | case6 hi s hhigh hno =>
    rw [denoteString, if_pos hhigh] at h
    · cases h
    · exact hno
  | case7 hi s hhigh hlow =>
    rw [denoteString.eq_def] at h
    simp only [if_neg hhigh, if_pos hlow] at h
    cases h
  | case8 hi s hhigh hlow ih =>
    rw [denoteString.eq_def] at h
    simp only [if_neg hhigh, if_neg hlow] at h
    obtain ⟨out, hout, rfl⟩ := map_eq_some_iff.mp h
    have hone := parseEscape_unicode hhigh hlow
    rw [codePointToUtf8_ofNat (isValidChar_of_not_surrogate hi.val_lt hhigh hlow)] at hone
    exact readsBody_escape hone (ih hout)

lemma readsString_denote {s : List JChar} {bytes : List UInt8}
    (h : denoteString s = some bytes) : ReadsString (stringText s) bytes :=
  readsString_of_body (readsBody_denote h)

lemma isDigit_digitsText (ds : List (Fin 10)) :
    ∀ b ∈ digitsText ds, Decimal.isDigit b = true := by
  have hdigit : ∀ d : Fin 10, Decimal.isDigit (UInt8.ofNat (48 + d.val)) = true := by decide
  intro b hb
  obtain ⟨d, _, rfl⟩ := List.mem_map.mp hb
  exact hdigit d

lemma IntPart.text_eq (i : IntPart) : ∃ d ds, i.text = digitsText (d :: ds) := by
  cases i with
  | zero => exact ⟨0, [], rfl⟩
  | nonzero d _ ds => exact ⟨d, ds, rfl⟩

lemma Number.reads {F : Type} [Double F] (limit : UInt32) {n : Number} {i : Int64}
    (h : n.denote = some i) : Reads limit 1 n.text (.int64 i : Dynamic F) := by
  rw [denote] at h
  split at h
  · rename_i hcond
    cases h
    simp only [Bool.and_eq_true, isNone_iff_eq_none, decide_eq_true_eq] at hcond
    obtain ⟨⟨⟨hfrac, hexp⟩, hlo⟩, hhi⟩ := hcond
    obtain ⟨d, ds, hds⟩ := n.int.text_eq
    have hdigits : ∀ b ∈ n.int.text, Decimal.isDigit b = true := by
      rw [hds]
      exact isDigit_digitsText _
    have hne : n.int.text ≠ [] := by
      rw [hds]
      exact cons_ne_nil _ _
    have hreads := reads_int (F := F) limit n.minus hdigits hne (Int64.toInt_ofInt_of_le hlo hhi)
    rw [text, hfrac, hexp, append_nil, append_nil]
    exact hreads
  · cases h

lemma nodup_lastWins {α : Type} (ms : List (List UInt8 × α)) :
    ((lastWins ms).map Prod.fst).Nodup := by
  induction ms with
  | nil => exact nodup_nil
  | cons m ms ih =>
    rw [lastWins]
    split
    · exact ih
    · rename_i hfresh
      exact nodup_cons.mpr ⟨hfresh, ih⟩

lemma mem_lastWins {α : Type} {ms : List (List UInt8 × α)} {k : List UInt8} {v : α} :
    (k, v) ∈ lastWins ms ↔ lastOf ms k = some v := by
  induction ms generalizing k v with
  | nil => simp [lastWins, lastOf]
  | cons m ms ih =>
    obtain ⟨name, x⟩ := m
    have hnone : lastOf ms name = none ↔ name ∉ (lastWins ms).map Prod.fst := by
      rw [Option.eq_none_iff_forall_ne_some]
      simp only [List.mem_map, Prod.exists, exists_and_right, exists_eq_right, ih, not_exists]
    rw [lastWins, lastOf]
    split
    · rename_i hlater
      rw [ih]
      cases hlast : lastOf ms k with
      | some y => rfl
      | none =>
        have hne : name ≠ k := by
          rintro rfl
          exact hnone.mp hlast hlater
        simp [hne]
    rename_i hfresh
    rw [mem_cons, ih, Prod.mk.injEq]
    by_cases hk : k = name
    · subst hk
      simp [hnone.mpr hfresh, eq_comm]
    · cases hlast : lastOf ms k with
      | some y => simp [hk]
      | none => simp [hk, Ne.symm hk]

lemma Value.depth_pos (v : Value) : 1 ≤ v.depth := by
  cases v <;> simp [Value.depth]

section Reads

variable {F : Type} [Double F]

def memberOf (w : Ws) (name : List JChar) (k : List UInt8) (colon : Gap) (v : Value)
    (w' : List UInt8) (x : Dynamic F) : Member F where
  key := Ws.text w ++ (stringText name ++ Ws.text colon.before)
  name := k
  txt := Ws.text colon.after ++ (v.text ++ w')
  val := x

lemma readsMember_memberOf {limit : UInt32} {d : Nat} (w : Ws) {name : List JChar}
    {k : List UInt8} (hname : denoteString name = some k) (colon : Gap) {v : Value}
    {x : Dynamic F} (hv : Reads limit d v.text x) {w' : List UInt8} (hw' : Blank w') :
    ReadsMember limit d (memberOf w name k colon v w' x) :=
  ⟨⟨_, _, _, blank_text w, blank_text colon.before, rfl, readsString_denote hname⟩,
    hv.pad (blank_text colon.after) hw'⟩

mutual

lemma Value.reads (limit : UInt32) : ∀ (v : Value) (x : Dynamic F), v.denote = some x →
    Reads limit v.depth v.text x
  | .null, x, h => by
    cases h
    exact reads_null limit
  | .bool b, x, h => by
    cases h
    exact reads_bool limit b
  | .number n, x, h => by
    rw [Value.denote] at h
    obtain ⟨i, hi, rfl⟩ := map_eq_some_iff.mp h
    exact Number.reads limit hi
  | .string s, x, h => by
    rw [Value.denote] at h
    obtain ⟨bytes, hbytes, rfl⟩ := map_eq_some_iff.mp h
    exact reads_string (readsString_denote hbytes)
  | .emptyArray opening closing, x, h => by
    cases h
    have hempty := (reads_emptyArray (F := F) limit
      ((blank_text opening.after).append (blank_text closing.before))).pad
        (blank_text opening.before) (blank_text closing.after)
    simpa [Value.text, Gap.text, Value.depth] using hempty
  | .array opening v rest closing, x, h => by
    rw [Value.denote] at h
    split at h
    · rename_i y ys hv hrest
      cases h
      obtain ⟨w, es, hw, htext, rfl, hes⟩ := rest.reads limit ys hrest
      have hy := ((v.reads limit y hv).mono (le_max_left _ rest.depth)).pad
        (blank_text opening.after) hw
      have harray := (reads_array (le_trans v.depth_pos (le_max_left _ rest.depth)) es
        (Ws.text opening.after ++ (v.text ++ w), y) hy
        (fun e he => (hes e he).mono (le_max_right v.depth _)) (blank_text closing.before)).pad
          (blank_text opening.before) (blank_text closing.after)
      simpa [Value.text, Gap.text, Value.depth, htext] using harray
    · cases h
  | .emptyObject opening closing, x, h => by
    cases h
    have hempty := (reads_emptyObject (F := F) limit
      ((blank_text opening.after).append (blank_text closing.before))).pad
        (blank_text opening.before) (blank_text closing.after)
    simpa [Value.text, Gap.text, Value.depth] using hempty
  | .object opening name colon v rest closing, x, h => by
    rw [Value.denote] at h
    split at h
    · rename_i k y ms hname hv hrest
      cases h
      obtain ⟨w, members, hw, htext, hmembers, hread⟩ := rest.reads limit ms hrest
      have hm := readsMember_memberOf opening.after hname colon
        ((v.reads limit y hv).mono (le_max_left _ rest.depth)) hw
      have hmap : IsMapOf (lastWins ((k, y) :: ms))
          (memberOf opening.after name k colon v w y :: members) :=
        ⟨nodup_lastWins _, fun name v => by rw [map_cons, hmembers]; exact mem_lastWins⟩
      have hobject := (reads_object (le_trans v.depth_pos (le_max_left _ rest.depth)) members _
        hm (fun m h => (hread m h).mono (le_max_right v.depth _)) hmap
        (blank_text closing.before)).pad (blank_text opening.before) (blank_text closing.after)
      simpa [Value.text, Gap.text, Value.depth, htext, memberOf, Member.text] using hobject
    · cases h

lemma Elements.reads (limit : UInt32) : ∀ (rest : Elements) (xs : List (Dynamic F)),
    rest.denote = some xs →
    ∃ w es, Blank w ∧ rest.text = w ++ commaTexts es ∧ es.map Prod.snd = xs ∧
      ∀ e ∈ es, Reads limit rest.depth e.1 e.2
  | .nil, xs, h => by
    cases h
    exact ⟨[], [], blank_nil, rfl, rfl, fun _ he => absurd he not_mem_nil⟩
  | .cons comma v rest, xs, h => by
    rw [Elements.denote] at h
    split at h
    · rename_i y ys hv hrest
      cases h
      obtain ⟨w, es, hw, htext, rfl, hes⟩ := rest.reads limit ys hrest
      refine ⟨Ws.text comma.before, (Ws.text comma.after ++ (v.text ++ w), y) :: es,
        blank_text _, ?_, rfl, ?_⟩
      · simp [Elements.text, Gap.text, htext, commaTexts]
      rw [Elements.depth]
      rintro e he
      rcases mem_cons.mp he with rfl | he
      · exact ((v.reads limit y hv).mono (le_max_left _ _)).pad (blank_text comma.after) hw
      · exact (hes e he).mono (le_max_right _ _)
    · cases h

lemma Members.reads (limit : UInt32) :
    ∀ (rest : Members) (xs : List (List UInt8 × Dynamic F)), rest.denote = some xs →
    ∃ w ms, Blank w ∧ rest.text = w ++ commaMembers ms ∧ ms.map (fun m => (m.name, m.val)) = xs ∧
      ∀ m ∈ ms, ReadsMember limit rest.depth m
  | .nil, xs, h => by
    cases h
    exact ⟨[], [], blank_nil, rfl, rfl, fun _ he => absurd he not_mem_nil⟩
  | .cons comma name colon v rest, xs, h => by
    rw [Members.denote] at h
    split at h
    · rename_i k y ms hname hv hrest
      cases h
      obtain ⟨w, members, hw, htext, rfl, hread⟩ := rest.reads limit ms hrest
      refine ⟨Ws.text comma.before, memberOf comma.after name k colon v w y :: members,
        blank_text _, ?_, rfl, ?_⟩
      · simp [Members.text, Gap.text, htext, commaMembers, memberOf, Member.text]
      rw [Members.depth]
      rintro m hm
      rcases mem_cons.mp hm with rfl | hm
      · exact readsMember_memberOf comma.after hname colon
          ((v.reads limit y hv).mono (le_max_left _ _)) hw
      · exact (hread m hm).mono (le_max_right _ _)
    · cases h

end

theorem parseJson_text (limit : UInt32) (t : Text) (v : Dynamic F) (h : t.value.denote = some v)
    (hdepth : t.value.depth ≤ limit.toNat + 1) :
    ∃ v', parseJson t.text (parseOpts limit) = .ok v' ∧ v'.Same v :=
  parseJson_of_reads ((t.value.reads limit v h).pad (blank_text t.before) (blank_text t.after))
    hdepth

end Reads

attribute [local instance] neZero_sixteen

def sampleText : Text where
  before := [.lineFeed]
  value :=
    .object ⟨[], [.space]⟩ [.unescaped 'b' (by decide)] ⟨[.tab], []⟩ (.number ⟨true, .zero, none, none⟩)
      (.cons ⟨[], []⟩ [.unicode ⟨![0, 0, 6, 2], fun _ => true⟩] ⟨[], []⟩
        (.array ⟨[], []⟩ (.string [.unicode ⟨![13, 8, 3, 13], fun _ => false⟩,
          .unicode ⟨![13, 14, 0, 0], fun _ => true⟩]) .nil ⟨[.space], []⟩) .nil) ⟨[], []⟩
  after := []

theorem parseJson_sampleText :
    ∃ v' : Dynamic Unit, parseJson sampleText.text (parseOpts 100) = .ok v' ∧
      v'.Same (.object [(.string [98], .array [.string [0xF0, 0x9F, 0x98, 0x80]])]) :=
  parseJson_text 100 sampleText _ rfl (by decide)

end Acc.Json.Grammar
