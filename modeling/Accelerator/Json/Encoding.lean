import Accelerator.Json.Printer
import Accelerator.Utf8

namespace Acc.Json

open List Nat

open Unicode Input

def utf8 (cs : List Char) : List UInt8 := cs.flatMap String.utf8EncodeChar

def WellFormed (s : List UInt8) : Prop := ∃ cs, s = utf8 cs

lemma wellFormed_nil : WellFormed [] := ⟨[], rfl⟩

variable {s : List UInt8}

lemma WellFormed.cons (h : WellFormed s) (c : Char) :
    WellFormed (String.utf8EncodeChar c ++ s) := by
  obtain ⟨cs, rfl⟩ := h
  exact ⟨c :: cs, rfl⟩

section Decoder

variable {opts : SerializationOpts} {s : List UInt8}

lemma decodeUtf8_of_ok {d : UInt32} {n : Nat} (h : decodeStrict "acc::decodeUtf8" s = .ok (d, n)) :
    decodeUtf8 opts s = .ok (d, s.drop n) := by
  rw [decodeUtf8, decode, h]

lemma decodeUtf8_of_error {e : DecodeError} (h : decodeStrict "acc::decodeUtf8" s = .error e) :
    decodeUtf8 opts s =
      if opts.skipInvalidUtf8 then .ok (0xfffd, s.drop 1) else .error (.decode e) := by
  rw [decodeUtf8, decode, h]
  cases opts.skipInvalidUtf8 with
  | true | false => rfl

lemma decodeUtf8_strict (hskip : opts.skipInvalidUtf8 = false) (s : List UInt8) :
    (∃ c rest, s = String.utf8EncodeChar c ++ rest ∧ decodeUtf8 opts s = .ok (c.val, rest)) ∨
      ∃ e, decodeUtf8 opts s = .error (.decode e) := by
  cases hdec : decodeStrict "acc::decodeUtf8" s with
  | error e =>
    rw [decodeUtf8_of_error hdec, hskip]
    exact .inr ⟨e, rfl⟩
  | ok r =>
    obtain ⟨d, n⟩ := r
    obtain ⟨c, -, rfl, rfl, rest, rfl⟩ := decodeStrict_ok _ hdec
    refine .inl ⟨c, rest, rfl, ?_⟩
    rw [decodeUtf8_of_ok hdec, drop_left]

end Decoder

def Checked (r : Except Error (List UInt8)) (s : List UInt8) : Prop :=
  ((∃ out, r = .ok out) ∧ WellFormed s) ∨ ∃ e, r = .error (.decode e)

variable {r : Except Error (List UInt8)}

lemma Checked.map (h : Checked r s) (f : List UInt8 → List UInt8) : Checked (r.map f) s := by
  rcases h with ⟨⟨out, rfl⟩, hs⟩ | ⟨e, rfl⟩
  · exact .inl ⟨⟨_, rfl⟩, hs⟩
  · exact .inr ⟨e, rfl⟩

lemma Checked.cons (h : Checked r s) (c : Char) : Checked r (String.utf8EncodeChar c ++ s) := by
  rcases h with ⟨hr, hs⟩ | he
  · exact .inl ⟨hr, hs.cons c⟩
  · exact .inr he

lemma encode_length_pos (c : Char) : 0 < (String.utf8EncodeChar c).length := by
  rw [String.length_utf8EncodeChar]
  exact c.utf8Size_pos

lemma checked_validate {opts : SerializationOpts} (hvalidate : opts.validateUtf8 = true)
    (hskip : opts.skipInvalidUtf8 = false) (hencode : opts.encodeNonAscii = false) :
    ∀ (fuel : Nat) (p : List UInt8) (ahead : Nat), p.length < fuel →
      Checked (escapeLoop opts fuel p ahead) (p.drop ahead) := by
  intro fuel
  induction fuel with
  | zero =>
    intro p ahead hfuel
    exact absurd hfuel (Nat.not_lt_zero _)
  | succ fuel ih =>
    intro p ahead hfuel
    cases p with
    | nil =>
      rw [drop_nil]
      exact .inl ⟨⟨[], rfl⟩, wellFormed_nil⟩
    | cons c p =>
      rw [length_cons] at hfuel
      have hpass : ∀ ahead', validate opts (c :: p) ahead = .ok (.inr ahead') →
          Checked (escapeLoop opts (fuel + 1) (c :: p) ahead) (p.drop (ahead' - 1)) := by
        intro ahead' hvalid
        simp only [escapeLoop, hvalid, hencode, Bool.false_and, Bool.false_eq_true, if_false]
        exact (ih p (ahead' - 1) (by omega)).map _
      cases ahead with
      | zero =>
        rw [drop_zero]
        rcases decodeUtf8_strict hskip (c :: p) with ⟨d, rest, hp, hdec⟩ | ⟨e, hdec⟩
        · have hpos := encode_length_pos d
          have hahead : (c :: p).length - rest.length = (String.utf8EncodeChar d).length := by
            rw [hp, length_append]
            omega
          have hvalid : validate opts (c :: p) 0 =
              .ok (.inr (String.utf8EncodeChar d).length) := by
            rw [← hahead, validate]
            simp [hvalidate, hskip, hencode, hdec]
          have hrest : p.drop ((String.utf8EncodeChar d).length - 1) = rest := by
            have hdrop : (c :: p).drop (String.utf8EncodeChar d).length = rest := by
              rw [hp, drop_left]
            rw [← hdrop]
            obtain ⟨n, hn⟩ : ∃ n, (String.utf8EncodeChar d).length = n + 1 :=
              ⟨(String.utf8EncodeChar d).length - 1, by omega⟩
            rw [hn]
            rfl
          have hchecked := hpass _ hvalid
          rw [hrest] at hchecked
          have hwhole := hchecked.cons d
          rw [← hp] at hwhole
          exact hwhole
        have hvalid : validate opts (c :: p) 0 = .error (.decode e) := by
          rw [validate]
          simp [hvalidate, hskip, hencode, hdec]
        refine .inr ⟨e, ?_⟩
        simp only [escapeLoop, hvalid]
      | succ ahead =>
        have hvalid : validate opts (c :: p) (ahead + 1) = .ok (.inr (ahead + 1)) := by
          rw [validate]
          simp
        exact hpass (ahead + 1) hvalid

section Encode

variable {opts : SerializationOpts} (hencode : opts.encodeNonAscii = true)

include hencode

lemma validate_encode (p : List UInt8) (ahead : Nat) : validate opts p ahead = .ok (.inr ahead) := by
  rw [validate]
  simp [hencode]

lemma escapeLoop_ascii {c : UInt8} (hc : c.toNat < 128) (fuel : Nat) (p : List UInt8) :
    escapeLoop opts (fuel + 1) (c :: p) 0 = (escapeLoop opts fuel p 0).map (escapeByte c ++ ·) := by
  have hbit : (c &&& 0x80 != 0) = false := by simpa using (and_80 c).mpr hc
  simp [escapeLoop, validate_encode hencode, hbit]

lemma escapeLoop_ok {c : UInt8} (hc : 128 ≤ c.toNat) (fuel : Nat) {p q : List UInt8} {v : UInt32}
    (hdec : decodeUtf8 opts (c :: p) = .ok (v, q)) : escapeLoop opts (fuel + 1) (c :: p) 0 =
      (escapeLoop opts fuel q 0).map (escapeCodePoint v ++ ·) := by
  have hbit : (c &&& 0x80 != 0) = true := by
    simpa using mt (and_80 c).mp (Nat.not_lt.mpr hc)
  simp only [escapeLoop, validate_encode hencode, hbit, hencode, Bool.and_true, if_true, hdec]

lemma escapeLoop_error {c : UInt8} (hc : 128 ≤ c.toNat) (fuel : Nat) {p : List UInt8} {e : Error}
    (hdec : decodeUtf8 opts (c :: p) = .error e) :
    escapeLoop opts (fuel + 1) (c :: p) 0 = .error e := by
  have hbit : (c &&& 0x80 != 0) = true := by
    simpa using mt (and_80 c).mp (Nat.not_lt.mpr hc)
  simp only [escapeLoop, validate_encode hencode, hbit, hencode, Bool.and_true, if_true, hdec]

omit hencode in
lemma exists_encode_ascii {b : UInt8} (h : b.toNat < 128) :
    ∃ c : Char, Narrow c ∧ String.utf8EncodeChar c = [b] := by
  obtain ⟨c, hnarrow, -, hlen, rest, hb⟩ := readsChar_ascii h []
  refine ⟨c, hnarrow, ?_⟩
  have hrest : rest = [] := by
    have hlength := congrArg List.length hb
    rw [length_append, ← hlen, length_singleton] at hlength
    exact eq_nil_of_length_eq_zero (by omega)
  rw [hb, hrest, append_nil]

lemma checked_encode (hskip : opts.skipInvalidUtf8 = false) :
    ∀ (fuel : Nat) (p : List UInt8), p.length < fuel → Checked (escapeLoop opts fuel p 0) p := by
  intro fuel
  induction fuel with
  | zero =>
    intro p hfuel
    exact absurd hfuel (Nat.not_lt_zero _)
  | succ fuel ih =>
    intro p hfuel
    match p with
    | [] => exact .inl ⟨⟨[], rfl⟩, wellFormed_nil⟩
    | c :: p =>
      rw [length_cons] at hfuel
      rcases Nat.lt_or_ge c.toNat 128 with hc | hc
      · obtain ⟨d, -, hd⟩ := exists_encode_ascii hc
        rw [escapeLoop_ascii hencode hc]
        have hwhole := ((ih p (by omega)).map (escapeByte c ++ ·)).cons d
        rw [hd] at hwhole
        exact hwhole
      rcases decodeUtf8_strict hskip (c :: p) with ⟨d, rest, hp, hdec⟩ | ⟨e, hdec⟩
      · have hpos := encode_length_pos d
        have hlen := congrArg List.length hp
        rw [length_cons, length_append] at hlen
        rw [escapeLoop_ok hencode hc fuel hdec, hp]
        exact ((ih rest (by omega)).map _).cons d
      · exact .inr ⟨e, escapeLoop_error hencode hc fuel hdec⟩

end Encode

theorem escapeString_validates (opts : SerializationOpts) (hvalidate : opts.validateUtf8 = true)
    (hskip : opts.skipInvalidUtf8 = false) (input : List UInt8) (h : ¬ WellFormed input) :
    ∃ e, escapeString input opts = .error (.decode e) := by
  have hchecked : Checked (escapeLoop opts (input.length + 1) input 0) input := by
    cases hencode : opts.encodeNonAscii with
    | true => exact checked_encode hencode hskip _ input (lt_succ_self _)
    | false => exact checked_validate hvalidate hskip hencode _ input 0 (lt_succ_self _)
  rcases hchecked with ⟨-, hwell⟩ | ⟨e, he⟩
  · exact absurd hwell h
  · refine ⟨e, ?_⟩
    rw [escapeString, he]
    rfl

theorem escapeString_validates_overlong :
    ¬ WellFormed [0xC0, 0xAF] ∧
      ∃ e, escapeString [0xC0, 0xAF] { validateUtf8 := true } = .error (.decode e) := by
  have hbad : ¬ WellFormed [0xC0, 0xAF] := by
    rintro ⟨cs, hcs⟩
    match cs with
    | [] => cases hcs
    | c :: cs =>
      have hdec : decodeStrict "acc::decodeUtf8" [0xC0, 0xAF] =
          .error (.value "acc::decodeUtf8" 1 0x2F) := by decide
      by_cases hc : Narrow c
      · have hread := decodeStrict_char "acc::decodeUtf8" hc (utf8 cs)
        rw [show String.utf8EncodeChar c ++ utf8 cs = utf8 (c :: cs) from rfl, ← hcs, hdec] at hread
        cases hread
      · obtain ⟨b₀, b₁, b₂, b₃, henc, -⟩ := encode_four (c := c) (Nat.lt_of_not_le hc)
        have hlen := congrArg List.length hcs
        rw [show utf8 (c :: cs) = String.utf8EncodeChar c ++ utf8 cs from rfl, henc,
          length_append] at hlen
        simp only [length_cons, length_nil] at hlen
        omega
  exact ⟨hbad, escapeString_validates { validateUtf8 := true } rfl rfl _ hbad⟩

attribute [local instance] neZero_sixteen

def codeHex (v : UInt32) : Hex4 where
  digits := ![Fin.ofNat 16 (v.toNat / 4096), Fin.ofNat 16 (v.toNat / 256),
    Fin.ofNat 16 (v.toNat / 16), Fin.ofNat 16 v.toNat]
  upper := fun _ => false

lemma val_codeHex {v : UInt32} (h : v.toNat ≤ 0xFFFF) : (codeHex v).val = v.toNat := by
  show v.toNat / 4096 % 16 * 4096 + v.toNat / 256 % 16 * 256 + v.toNat / 16 % 16 * 16 +
    v.toNat % 16 = v.toNat
  omega

lemma hexDigit_eq {n : Nat} (h : n < 16) : hexDigit n = hexByte false n := by
  interval_cases n <;> rfl

lemma toNat_nibble (v : UInt32) {k : UInt32} (hk : k.toNat < 32) :
    ((v >>> k) &&& 0x0f).toNat = v.toNat / 2 ^ k.toNat % 16 := by
  rw [UInt32.toNat_and, UInt32.toNat_shiftRight, mod_eq_of_lt hk, shiftRight_eq_div_pow]
  exact and_two_pow_sub_one_eq_mod _ 4

lemma escapeCodePoint_eq {v : UInt32} (h : v.toNat ≤ 0xFFFF) :
    escapeCodePoint v = 92 :: 117 :: (codeHex v).text := by
  have h12 : (v >>> 12).toNat = v.toNat / 4096 % 16 := by
    rw [UInt32.toNat_shiftRight, show UInt32.toNat 12 % 32 = 12 from rfl,
      shiftRight_eq_div_pow]
    omega
  have h8 : ((v >>> 8) &&& 0x0f).toNat = v.toNat / 256 % 16 := toNat_nibble v (by decide)
  have h4 : ((v >>> 4) &&& 0x0f).toNat = v.toNat / 16 % 16 := toNat_nibble v (by decide)
  have h0 : (v &&& 0x0f).toNat = v.toNat % 16 := by
    rw [UInt32.toNat_and]
    exact and_two_pow_sub_one_eq_mod _ 4
  rw [escapeCodePoint, h12, h8, h4, h0, hexDigit_eq (mod_lt _ (by decide)),
    hexDigit_eq (mod_lt _ (by decide)), hexDigit_eq (mod_lt _ (by decide)),
    hexDigit_eq (mod_lt _ (by decide))]
  rfl

lemma readsEscape_codePoint {c : Char} (h : Narrow c) :
    ReadsEscape (117 :: (codeHex c.val).text) (String.utf8EncodeChar c) := by
  have hval := val_codeHex h
  have hvalid := char_valid c
  have hread := parseEscape_unicode (h := codeHex c.val) (by rw [hval]; omega) (by rw [hval]; omega)
  rw [hval, UInt32.ofNat_toNat, codePointToUtf8_char] at hread
  exact hread

structure ReadsPiece (piece s : List UInt8) : Prop where
  ascii : ∀ b ∈ piece, b.toNat < 128
  reads : ∀ body rest, ReadsBody body rest → ReadsBody (piece ++ body) (s ++ rest)

lemma readsPiece_nil : ReadsPiece [] [] := ⟨nofun, fun _ _ h => h⟩

lemma ReadsPiece.append {piece piece' s' : List UInt8} (h : ReadsPiece piece s)
    (h' : ReadsPiece piece' s') : ReadsPiece (piece ++ piece') (s ++ s') := by
  refine ⟨?_, ?_⟩
  · intro b hb
    rcases mem_append.mp hb with hb | hb
    · exact h.ascii b hb
    · exact h'.ascii b hb
  · intro body rest hbody
    rw [append_assoc, append_assoc]
    exact h.reads _ _ (h'.reads _ _ hbody)

lemma readsPiece_codePoint {c : Char} (h : Narrow c) :
    ReadsPiece (escapeCodePoint c.val) (String.utf8EncodeChar c) := by
  have hhex : ∀ n : Fin 16, (hexByte false n).toNat < 128 := by decide
  rw [escapeCodePoint_eq h]
  refine ⟨?_, fun body rest hbody => readsBody_escape (readsEscape_codePoint h) hbody⟩
  intro b hb
  simp only [Hex4.text, mem_cons, not_mem_nil, or_false] at hb
  rcases hb with rfl | rfl | rfl | rfl | rfl | rfl
  · decide
  · decide
  · exact hhex _
  · exact hhex _
  · exact hhex _
  · exact hhex _

def replacement : Char := ⟨0xfffd, by decide⟩

lemma narrow_replacement : Narrow replacement := by
  show (0xfffd : UInt32).toNat ≤ 0xFFFF
  decide

lemma escapeByte_ascii : ∀ c : UInt8, c.toNat < 128 → ∀ b ∈ escapeByte c, b.toNat < 128 := by
  decide +kernel

lemma readsPiece_byte {c : UInt8} (hc : c.toNat < 128) : ReadsPiece (escapeByte c) [c] :=
  ⟨escapeByte_ascii c hc, fun _ _ hbody => readsBody_escapeByte c hbody⟩

section Texts

variable {opts : SerializationOpts} (hencode : opts.encodeNonAscii = true)

include hencode

lemma escapeLoop_char {c : Char} (h : Narrow c) (fuel : Nat) (rest : List UInt8) :
    ∃ piece, ReadsPiece piece (String.utf8EncodeChar c) ∧
      escapeLoop opts (fuel + 1) (String.utf8EncodeChar c ++ rest) 0 =
        (escapeLoop opts fuel rest 0).map (piece ++ ·) := by
  have hdec : decodeUtf8 opts (String.utf8EncodeChar c ++ rest) = .ok (c.val, rest) := by
    rw [decodeUtf8_of_ok (decodeStrict_char _ h rest), drop_left]
  obtain ⟨b, bs, henc⟩ := exists_cons_of_length_pos (encode_length_pos c)
  rcases Nat.lt_or_ge c.val.toNat 128 with hone | hone
  · have hb : b.toNat < 128 ∧ bs = [] := by
      rw [encode_ascii hone] at henc
      cases henc
      refine ⟨?_, rfl⟩
      rw [UInt8.toNat_ofNat']
      omega
    rw [henc, hb.2, singleton_append, escapeLoop_ascii hencode hb.1]
    exact ⟨_, readsPiece_byte hb.1, rfl⟩
  have hb : 128 ≤ b.toNat := by
    rcases Nat.lt_or_ge c.val.toNat 2048 with htwo | htwo
    · obtain ⟨b₀, b₁, heq, h₀, -⟩ := encode_two hone htwo
      rw [heq] at henc
      cases henc
      omega
    obtain ⟨b₀, b₁, b₂, heq, h₀, -⟩ := encode_three htwo (lt_succ_of_le h)
    rw [heq] at henc
    cases henc
    omega
  refine ⟨_, readsPiece_codePoint h, ?_⟩
  rw [henc, cons_append] at hdec ⊢
  exact escapeLoop_ok hencode hb fuel hdec

lemma escapeLoop_chars {cs : List Char} (h : ∀ c ∈ cs, Narrow c) (rest : List UInt8) {fuel : Nat}
    (hfuel : (utf8 cs ++ rest).length < fuel) :
    ∃ piece fuel', ReadsPiece piece (utf8 cs) ∧ rest.length < fuel' ∧
      escapeLoop opts fuel (utf8 cs ++ rest) 0 =
        (escapeLoop opts fuel' rest 0).map (piece ++ ·) := by
  induction cs generalizing fuel with
  | nil =>
    refine ⟨[], fuel, readsPiece_nil, hfuel, ?_⟩
    show escapeLoop opts fuel rest 0 = (escapeLoop opts fuel rest 0).map fun out => out
    cases escapeLoop opts fuel rest 0 <;> rfl
  | cons c cs ih =>
    have hutf8 : utf8 (c :: cs) ++ rest = String.utf8EncodeChar c ++ (utf8 cs ++ rest) := by
      rw [← append_assoc]
      rfl
    have hpos := encode_length_pos c
    rw [hutf8, length_append] at hfuel
    obtain ⟨fuel, rfl⟩ : ∃ n, fuel = n + 1 := ⟨fuel - 1, by omega⟩
    obtain ⟨first, hfirst, hloop⟩ :=
      escapeLoop_char hencode (h c mem_cons_self) fuel (utf8 cs ++ rest)
    obtain ⟨piece, fuel', hpiece, hrest, hmore⟩ :=
      ih (fun d hd => h d (mem_cons_of_mem _ hd)) (show _ < fuel by omega)
    refine ⟨first ++ piece, fuel', hfirst.append hpiece, hrest, ?_⟩
    rw [hutf8, hloop, hmore]
    cases escapeLoop opts fuel' rest 0 with
    | error e => rfl
    | ok out => simp [Except.map]

lemma escapeLoop_skip (hskip : opts.skipInvalidUtf8 = true) :
    ∀ (fuel : Nat) (p : List UInt8), p.length < fuel →
      ∃ piece s, ReadsPiece piece s ∧ escapeLoop opts fuel p 0 = .ok piece := by
  intro fuel
  induction fuel with
  | zero =>
    intro p hfuel
    exact absurd hfuel (Nat.not_lt_zero _)
  | succ fuel ih =>
    intro p hfuel
    match p with
    | [] => exact ⟨[], [], readsPiece_nil, rfl⟩
    | b :: p =>
      rw [length_cons] at hfuel
      rcases Nat.lt_or_ge b.toNat 128 with hb | hb
      · obtain ⟨piece, s, hpiece, hloop⟩ := ih p (by omega)
        refine ⟨_, _, (readsPiece_byte hb).append hpiece, ?_⟩
        rw [escapeLoop_ascii hencode hb, hloop]
        rfl
      cases hdec : decodeStrict "acc::decodeUtf8" (b :: p) with
      | ok r =>
        obtain ⟨d, n⟩ := r
        obtain ⟨c, hnarrow, rfl, rfl, rest, hp⟩ := decodeStrict_ok _ hdec
        have hlen := congrArg List.length hp
        have hpos := encode_length_pos c
        rw [length_cons, length_append] at hlen
        obtain ⟨piece, s, hpiece, hloop⟩ := ih rest (by omega)
        refine ⟨_, _, (readsPiece_codePoint hnarrow).append hpiece, ?_⟩
        rw [escapeLoop_ok hencode hb fuel (decodeUtf8_of_ok hdec), hp, drop_left, hloop]
        rfl
      | error e =>
        have hreplace : decodeUtf8 opts (b :: p) = .ok (replacement.val, p) := by
          rw [decodeUtf8_of_error hdec, hskip]
          rfl
        obtain ⟨piece, s, hpiece, hloop⟩ := ih p (by omega)
        refine ⟨_, _, (readsPiece_codePoint narrow_replacement).append hpiece, ?_⟩
        rw [escapeLoop_ok hencode hb fuel hreplace, hloop]
        rfl

end Texts

section Whole

variable {F : Type} [Double F]

lemma parseJson_string {lit s : List UInt8} (h : ReadsString lit s) (opts : SerializationOpts) :
    parseJson (F := F) lit opts = .ok (.string s) := by
  obtain ⟨body, rfl⟩ := h.quote
  obtain ⟨line, hparse⟩ := h.parses [] 0 (0 + 1)
  rw [append_nil] at hparse
  have hinc : incrementRecursionLevel opts ⟨34 :: body, 0, 0⟩ = .ok ⟨34 :: body, 0, 0 + 1⟩ := by
    have hlevel : ¬ (0 : UInt32) > opts.recursionLimit :=
      fun hgt => Nat.not_lt_zero _ (UInt32.lt_iff_toNat_lt.mp hgt)
    rw [incrementRecursionLevel, if_neg hlevel]
  have hvalue : parseValue (F := F) opts (4 * (34 :: body).length + 4) ⟨34 :: body, 0, 0⟩ =
      .ok (.string s, ⟨[], line, 0⟩) := by
    rw [parseValue, hinc]
    show leaveGuard ((parseString ⟨34 :: body, 0, 0 + 1⟩).map fun r => (.string r.1, r.2)) = _
    rw [hparse]
    simp [leaveGuard, Except.map, decrementRecursionLevel]
  rw [parseJson]
  simp only [hvalue, bind, Except.bind]
  rfl

lemma escapeString_of_loop {opts : SerializationOpts} {input piece s : List UInt8}
    (hpiece : ReadsPiece piece s) (hloop : escapeLoop opts (input.length + 1) input 0 = .ok piece) :
    escapeString input opts = .ok (34 :: (piece ++ [34])) ∧
      (∀ b ∈ 34 :: (piece ++ [34]), b.toNat < 128) ∧ ReadsString (34 :: (piece ++ [34])) s := by
  refine ⟨by rw [escapeString, hloop]; rfl, ?_, readsString_of_body ?_⟩
  · intro b hb
    simp only [mem_cons, mem_append, not_mem_nil, or_false] at hb
    rcases hb with rfl | hb | rfl
    · decide
    · exact hpiece.ascii b hb
    · decide
  · have hbody := hpiece.reads [] [] readsBody_nil
    rw [append_nil, append_nil] at hbody
    exact hbody

lemma exists_first_wide {cs : List Char} (h : ¬ ∀ c ∈ cs, Narrow c) :
    ∃ before c after, cs = before ++ c :: after ∧ (∀ d ∈ before, Narrow d) ∧ ¬ Narrow c := by
  induction cs with
  | nil => exact absurd nofun h
  | cons c cs ih =>
    by_cases hc : Narrow c
    · have hrest : ¬ ∀ d ∈ cs, Narrow d := fun hall => h (forall_mem_cons.mpr ⟨hc, hall⟩)
      obtain ⟨before, d, after, rfl, hbefore, hd⟩ := ih hrest
      exact ⟨c :: before, d, after, rfl, forall_mem_cons.mpr ⟨hc, hbefore⟩, hd⟩
    · exact ⟨[], c, cs, rfl, nofun, hc⟩

lemma utf8_append (cs ds : List Char) : utf8 (cs ++ ds) = utf8 cs ++ utf8 ds :=
  flatMap_append

theorem escapeString_encodes_iff (opts : SerializationOpts) (hencode : opts.encodeNonAscii = true)
    (readOpts : SerializationOpts) (cs : List Char) :
    (∃ out, escapeString (utf8 cs) opts = .ok out ∧ (∀ b ∈ out, b.toNat < 128) ∧
        parseJson (F := F) out readOpts = .ok (.string (utf8 cs))) ↔
      ∀ c ∈ cs, c.val.toNat ≤ 0xFFFF := by
  constructor
  · rintro ⟨out, hout, -, hparse⟩
    by_contra hwide
    obtain ⟨before, c, after, rfl, hbefore, hc⟩ := exists_first_wide hwide
    have hutf8 : utf8 (before ++ c :: after) =
        utf8 before ++ (String.utf8EncodeChar c ++ utf8 after) := utf8_append before (c :: after)
    obtain ⟨piece, fuel, hpiece, hfuel, hloop⟩ := escapeLoop_chars hencode hbefore
      (String.utf8EncodeChar c ++ utf8 after) (lt_succ_self _)
    rw [← hutf8] at hloop
    obtain ⟨e, hdec⟩ := decodeStrict_wide "acc::decodeUtf8" hc (utf8 after)
    obtain ⟨b₀, b₁, b₂, b₃, henc, hlow, hhigh⟩ :=
      encode_four (c := c) (Nat.lt_of_not_le hc)
    obtain ⟨fuel, rfl⟩ : ∃ n, fuel = n + 1 := ⟨fuel - 1, by omega⟩
    have hlead : 128 ≤ b₀.toNat := by omega
    rw [henc, cons_append] at hdec hloop hfuel hutf8
    cases hskip : opts.skipInvalidUtf8 with
    | false =>
      have herror : decodeUtf8 opts (b₀ :: ([b₁, b₂, b₃] ++ utf8 after)) = .error (.decode e) := by
        rw [decodeUtf8_of_error hdec, hskip]
        rfl
      rw [escapeString, hloop, escapeLoop_error hencode hlead fuel herror] at hout
      cases hout
    | true =>
      have hreplace : decodeUtf8 opts (b₀ :: ([b₁, b₂, b₃] ++ utf8 after)) =
          .ok (replacement.val, [b₁, b₂, b₃] ++ utf8 after) := by
        rw [decodeUtf8_of_error hdec, hskip]
        rfl
      rw [length_cons] at hfuel
      obtain ⟨more, s, hmore, hrest⟩ :=
        escapeLoop_skip hencode hskip fuel ([b₁, b₂, b₃] ++ utf8 after) (by omega)
      have hall := hpiece.append ((readsPiece_codePoint narrow_replacement).append hmore)
      rw [escapeLoop_ok hencode hlead fuel hreplace, hrest] at hloop
      obtain ⟨heq, -, hread⟩ := escapeString_of_loop hall hloop
      rw [hout] at heq
      cases heq
      rw [parseJson_string hread readOpts, hutf8] at hparse
      have hbytes := Dynamic.string.inj (Except.ok.inj hparse)
      have htail := append_cancel_left hbytes
      have hfirst : (239 : UInt8) = b₀ := (List.cons.inj htail).1
      rw [← hfirst] at hlow
      exact absurd hlow (by decide)
  · intro hnarrow
    obtain ⟨piece, fuel, hpiece, hfuel, hloop⟩ :=
      escapeLoop_chars hencode hnarrow [] (lt_succ_self _)
    obtain ⟨fuel, rfl⟩ : ∃ n, fuel = n + 1 := ⟨fuel - 1, by omega⟩
    have hend : escapeLoop opts ((utf8 cs).length + 1) (utf8 cs) 0 = .ok piece := by
      rw [append_nil] at hloop
      rw [hloop]
      show Except.ok (piece ++ []) = _
      rw [append_nil]
    obtain ⟨heq, hascii, hread⟩ := escapeString_of_loop hpiece hend
    exact ⟨_, heq, hascii, parseJson_string hread readOpts⟩

def sampleChars : List Char := [⟨0x41, by decide⟩, ⟨0xE9, by decide⟩, ⟨0x20AC, by decide⟩]

theorem escapeString_encodes_iff_sample :
    ∃ out, escapeString (utf8 sampleChars) { encodeNonAscii := true } = .ok out ∧
      (∀ b ∈ out, b.toNat < 128) ∧
      parseJson (F := Unit) out {} = .ok (.string (utf8 sampleChars)) := by
  have hnarrow : ∀ c ∈ sampleChars, c.val.toNat ≤ 0xFFFF := by
    intro c hc
    simp only [sampleChars, mem_cons, not_mem_nil, or_false] at hc
    rcases hc with rfl | rfl | rfl
    · exact le_of_ble_eq_true rfl
    · exact le_of_ble_eq_true rfl
    · exact le_of_ble_eq_true rfl
  exact (escapeString_encodes_iff { encodeNonAscii := true } rfl {} sampleChars).mpr hnarrow

theorem escapeString_refuses_four :
    escapeString (utf8 [⟨0x1F600, by decide⟩]) { encodeNonAscii := true } =
      .error (.decode (.maxedOut "acc::decodeUtf8")) := by
  rfl

end Whole

end Acc.Json
