import Accelerator.Conv.Integral

namespace Acc.Conv

open BitVec
open List hiding Vector

open Decimal

def toAppendUInt64 (value : UInt64) (buffer : List UInt8) : List UInt8 :=
  let (n, buffer) := uint64ToBufferUnsafe value buffer
  buffer.take n

def toAppend (t : IntType) (v : BitVec t.bits) (buffer : List UInt8) : List UInt8 :=
  if t.signed then toAppendInt64 (Int64.ofBitVec (v.signExtend 64)) buffer
  else toAppendUInt64 (UInt64.ofBitVec (v.zeroExtend 64)) buffer

namespace IntType

def denote (t : IntType) (v : BitVec t.bits) : Int := if t.signed then v.toInt else v.toNat

def InRange (t : IntType) (n : Int) : Prop :=
  if t.signed then -2 ^ (t.bits - 1) ≤ n ∧ n < 2 ^ (t.bits - 1) else 0 ≤ n ∧ n < 2 ^ t.bits

end IntType

def IsSign (signed : Bool) (sign : List UInt8) : Prop :=
  sign = [] ∨ signed = true ∧ (sign = [43] ∨ sign = [45])

def Denotes (t : IntType) (src : List UInt8) (n : Int) : Prop :=
  ∃ before sign ds after, src = before ++ (sign ++ (ds ++ after)) ∧
    (∀ b ∈ before, isspace b = true) ∧ IsSign t.signed sign ∧
    ds ≠ [] ∧ (∀ b ∈ ds, isDigit b = true) ∧ (∀ b ∈ after, isspace b = true) ∧
    n = if sign = [45] then -(value ds : Int) else value ds

lemma bits_pos (w : Width) : 0 < w.bits := by
  cases w <;> decide

lemma two_pow_bits (w : Width) : 2 ^ w.bits = 2 * 2 ^ (w.bits - 1) := by
  cases w <;> rfl

lemma inRange_denote (t : IntType) (v : BitVec t.bits) : t.InRange (t.denote v) := by
  obtain ⟨w, signed⟩ := t
  cases signed with
  | false =>
    refine ⟨Int.natCast_nonneg _, ?_⟩
    show ((v.toNat : Nat) : Int) < 2 ^ w.bits
    exact_mod_cast v.isLt
  | true => exact ⟨le_toInt v, toInt_lt⟩

lemma denote_injective (t : IntType) {u v : BitVec t.bits} (h : t.denote u = t.denote v) :
    u = v := by
  obtain ⟨w, signed⟩ := t
  cases signed with
  | false => exact eq_of_toNat_eq (Int.ofNat_inj.mp h)
  | true => exact eq_of_toInt_eq h

variable {t : IntType}

lemma exists_denote {n : Int} (h : t.InRange n) : ∃ v, t.denote v = n := by
  refine ⟨BitVec.ofInt t.bits n, ?_⟩
  obtain ⟨w, signed⟩ := t
  cases signed with
  | false =>
    obtain ⟨hlo, hhi⟩ := h
    show ((BitVec.ofInt w.bits n).toNat : Int) = n
    rw [toNat_ofInt, Int.toNat_of_nonneg (Int.emod_nonneg _ (by positivity))]
    exact Int.emod_eq_of_lt hlo (by exact_mod_cast hhi)
  | true =>
    obtain ⟨hlo, hhi⟩ := h
    exact toInt_ofInt_eq_self (bits_pos w) hlo hhi

variable {n : Nat}

lemma toInt_magnitude (w : Width) (hn : n < 2 ^ w.bits) : (BitVec.ofNat w.bits n).toInt =
      if n < 2 ^ (w.bits - 1) then (n : Int) else n - 2 ^ w.bits := by
  rw [toInt_eq_toNat_cond, toNat_ofNat, Nat.mod_eq_of_lt hn, two_pow_bits w]
  by_cases h : n < 2 ^ (w.bits - 1)
  · rw [if_pos h, if_pos (by omega)]
  · rw [if_neg h, if_neg (by omega)]
    push_cast
    rw [← pow_succ', Nat.sub_add_cancel (bits_pos w)]

lemma toInt_neg_magnitude (w : Width) (hn : n < 2 ^ w.bits) : (-BitVec.ofNat w.bits n).toInt =
      if n ≤ 2 ^ (w.bits - 1) then -(n : Int) else 2 ^ w.bits - n := by
  rw [toInt_eq_toNat_cond, toNat_neg, toNat_ofNat, Nat.mod_eq_of_lt hn]
  by_cases hle : n ≤ 2 ^ (w.bits - 1)
  · rw [if_pos hle]
    cases w <;> simp only [Width.bits] at hn hle ⊢ <;> omega
  · rw [if_neg hle]
    cases w <;> simp only [Width.bits] at hn hle ⊢ <;> omega

lemma magnitude_lt {negative : Prop} [Decidable negative] (hsigned : negative → t.signed = true)
    (h : t.InRange (if negative then -(n : Int) else n)) : n < 2 ^ t.bits := by
  have htwo : (2 : Int) ^ t.bits = 2 * 2 ^ (t.bits - 1) := by exact_mod_cast two_pow_bits t.width
  have hlt : (n : Int) < 2 ^ t.bits := by
    unfold IntType.InRange at h
    by_cases hneg : negative
    · rw [if_pos hneg, if_pos (hsigned hneg)] at h
      omega
    · rw [if_neg hneg] at h
      split at h <;> omega
  exact_mod_cast hlt

variable {negative signed : Bool} {src rest : List UInt8} {r : BitVec t.bits}

lemma applySign_eq_ok (hn : n < 2 ^ t.bits) (hsigned : negative = true → t.signed = true) :
    applySign t.signed negative (BitVec.ofNat t.bits n) src = .ok r ↔
      t.denote r = if negative then -(n : Int) else n := by
  obtain ⟨w, signed⟩ := t
  cases signed with
  | false =>
    have hneg : negative = false := by
      cases negative with
      | false => rfl
      | true => exact absurd (hsigned rfl) Bool.false_ne_true
    have hnat : (BitVec.ofNat w.bits n).toNat = n := by
      rw [toNat_ofNat, Nat.mod_eq_of_lt hn]
    subst hneg
    simp only [applySign, IntType.denote, Bool.false_eq_true, if_false, Except.ok.injEq]
    constructor
    · rintro rfl
      rw [hnat]
    · intro h
      exact eq_of_toNat_eq (hnat.trans (Int.ofNat_inj.mp h).symm)
  | true =>
    have hlo : -2 ^ (w.bits - 1) ≤ r.toInt := le_toInt r
    have hhi : r.toInt < 2 ^ (w.bits - 1) := toInt_lt
    have hn' : (n : Int) < 2 ^ w.bits := by exact_mod_cast hn
    cases negative with
    | false =>
      have hint := toInt_magnitude w hn
      simp only [applySign, IntType.denote, Bool.false_eq_true, if_false, if_true]
      by_cases hlt : n < 2 ^ (w.bits - 1)
      · rw [if_pos hlt] at hint
        rw [if_pos (hint ▸ Int.natCast_nonneg n), Except.ok.injEq, ← hint]
        exact ⟨fun h => h ▸ rfl, fun h => eq_of_toInt_eq h.symm⟩
      rw [if_neg hlt] at hint
      have hge : (2 : Int) ^ (w.bits - 1) ≤ n := by exact_mod_cast Nat.not_lt.mp hlt
      have hfail : ¬ 0 ≤ (BitVec.ofNat w.bits n).toInt := by omega
      rw [if_neg hfail]
      exact ⟨nofun, fun h => absurd (h ▸ hhi) (Int.not_lt.mpr hge)⟩
    | true =>
      have hint := toInt_neg_magnitude w hn
      simp only [applySign, IntType.denote, if_true]
      by_cases hle : n ≤ 2 ^ (w.bits - 1)
      · rw [if_pos hle] at hint
        have hcheck : (-BitVec.ofNat w.bits n).toInt ≤ 0 := by omega
        rw [if_pos hcheck, Except.ok.injEq, ← hint]
        exact ⟨fun h => h ▸ rfl, fun h => eq_of_toInt_eq h.symm⟩
      rw [if_neg hle] at hint
      have hgt : (2 : Int) ^ (w.bits - 1) < n := by exact_mod_cast Nat.not_le.mp hle
      have hfail : ¬ (-BitVec.ofNat w.bits n).toInt ≤ 0 := by omega
      rw [if_neg hfail]
      refine ⟨nofun, fun h => ?_⟩
      omega

lemma isSign_of_signOf {b : List UInt8} (h : signOf signed src b = .ok (negative, rest)) :
    ∃ sign, b = sign ++ rest ∧ IsSign signed sign ∧ negative = decide (sign = [45]) := by
  unfold signOf at h
  split at h
  · rename_i c cs
    split at h
    · cases h
      exact ⟨[], rfl, .inl rfl, rfl⟩
    split at h
    · rename_i hc
      cases h
      exact ⟨[45], by rw [hc]; rfl, .inr ⟨rfl, .inr rfl⟩, rfl⟩
    split at h
    · rename_i hc
      cases h
      exact ⟨[43], by rw [hc]; rfl, .inr ⟨rfl, .inl rfl⟩, rfl⟩
    · cases h
  · cases h
    exact ⟨[], rfl, .inl rfl, rfl⟩

lemma signOf_of_isSign {sign : List UInt8} (h : IsSign signed sign)
    {c : UInt8} (hc : isDigit c = true) (src cs : List UInt8) :
    signOf signed src (sign ++ c :: cs) = .ok (decide (sign = [45]), c :: cs) := by
  rcases h with rfl | ⟨rfl, rfl | rfl⟩
  · cases signed with
    | false => rfl
    | true => simp [signOf, hc]
  · rfl
  · rfl

lemma enforceWhitespace_eq_ok {s : List UInt8} :
    enforceWhitespace s = .ok () ↔ ∀ b ∈ s, isspace b = true := by
  induction s with
  | nil => simp [enforceWhitespace]
  | cons b s ih =>
    rw [enforceWhitespace, forall_mem_cons]
    by_cases hb : isspace b = true
    · rw [if_pos hb, ih]
      exact (and_iff_right hb).symm
    · rw [if_neg hb]
      exact ⟨nofun, fun h => absurd h.1 hb⟩

lemma toProgress_cases : toProgress t src = .ok (r, rest) ↔
      ∃ negative b c cs u, src.dropWhile isspace ≠ [] ∧
        signOf t.signed src (src.dropWhile isspace) = .ok (negative, b) ∧ b = c :: cs ∧
        isDigit c = true ∧ digitsTo t.width (b.takeWhile isDigit) = .ok u ∧
        applySign t.signed negative u src = .ok r ∧ b.dropWhile isDigit = rest := by
  constructor
  · intro h
    simp only [toProgress, bind, Except.bind] at h
    by_cases hne : src.dropWhile isspace = []
    · simp [hne] at h
    have hempty : (src.dropWhile isspace).isEmpty = false := by simpa using hne
    rw [hempty] at h
    cases hsign : signOf t.signed src (src.dropWhile isspace) with
    | error e => simp [hsign] at h
    | ok p =>
      obtain ⟨negative, b⟩ := p
      simp only [hsign, Bool.false_eq_true, if_false] at h
      cases b with
      | nil => cases h
      | cons c cs =>
        by_cases hc : isDigit c = true
        · simp only [hc, not_true_eq_false, if_false] at h
          cases hu : digitsTo t.width ((c :: cs).takeWhile isDigit) with
          | error e => simp [hu] at h
          | ok u =>
            simp only [hu] at h
            cases hr : applySign t.signed negative u src with
            | error e => simp [hr] at h
            | ok v =>
              simp only [hr, pure, Except.pure, Except.ok.injEq, Prod.mk.injEq] at h
              obtain ⟨rfl, hrest⟩ := h
              exact ⟨negative, c :: cs, c, cs, u, hne, rfl, rfl, hc, hu, hr, hrest⟩
        · simp [hc] at h
  rintro ⟨negative, b, c, cs, u, hne, hsign, rfl, hc, hu, hr, rfl⟩
  have hempty : (src.dropWhile isspace).isEmpty = false := by simpa using hne
  simp only [toProgress, hempty, hsign, bind, Except.bind, Bool.false_eq_true, if_false, hc,
    not_true_eq_false, hu, hr]
  rfl

lemma toProgress_eq_ok : toProgress t src = .ok (r, rest) ↔
      ∃ before sign ds, src = before ++ (sign ++ (ds ++ rest)) ∧
        (∀ b ∈ before, isspace b = true) ∧ IsSign t.signed sign ∧
        ds ≠ [] ∧ (∀ b ∈ ds, isDigit b = true) ∧ (∀ b ∈ rest.head?, isDigit b = false) ∧
        t.denote r = if sign = [45] then -(value ds : Int) else value ds := by
  rw [toProgress_cases]
  constructor
  · rintro ⟨negative, b, c, cs, u, hne, hsign, rfl, hc, hu, hr, hrest⟩
    obtain ⟨sign, hb, hissign, rfl⟩ := isSign_of_signOf hsign
    have hsplit : (c :: cs).takeWhile isDigit ++ rest = c :: cs := by
      rw [← hrest]
      exact takeWhile_append_dropWhile
    have hds : ∀ d ∈ (c :: cs).takeWhile isDigit, isDigit d = true :=
      fun d hd => mem_takeWhile_imp hd
    have hds0 : (c :: cs).takeWhile isDigit ≠ [] := by
      rw [takeWhile_cons_of_pos hc]
      exact cons_ne_nil _ _
    refine ⟨src.takeWhile isspace, sign, (c :: cs).takeWhile isDigit, ?_,
      fun d hd => mem_takeWhile_imp hd, hissign, hds0, hds, ?_, ?_⟩
    · simp [hsplit, ← hb]
    · intro d hd
      rw [← hrest] at hd
      have hhead := head?_dropWhile_not isDigit (c :: cs)
      rw [hd] at hhead
      simpa using hhead
    obtain ⟨e, hdigits⟩ := digitsTo_eq t.width hds hds0
    rw [hdigits] at hu
    split at hu
    · rename_i hv
      cases hu
      rw [applySign_eq_ok hv (fun h => ?_)] at hr
      · simpa using hr
      · rcases hissign with rfl | ⟨hsigned, -⟩
        · cases h
        · exact hsigned
    · cases hu
  rintro ⟨before, sign, ds, rfl, hbefore, hissign, hds0, hds, hrest, hr⟩
  obtain ⟨c, cs, rfl⟩ := exists_cons_of_ne_nil hds0
  have hc : isDigit c = true := hds c mem_cons_self
  have hdrop : (before ++ (sign ++ (c :: cs ++ rest))).dropWhile isspace =
      sign ++ (c :: cs ++ rest) := by
    rw [dropWhile_append_of_pos hbefore]
    rcases hissign with rfl | ⟨-, rfl | rfl⟩
    · exact dropWhile_cons_of_neg (by simp [isspace_of_isDigit hc])
    · exact dropWhile_cons_of_neg (by decide)
    · exact dropWhile_cons_of_neg (by decide)
  have hsigned : sign = [45] → t.signed = true := by
    rintro rfl
    exact (hissign.resolve_left (cons_ne_nil _ _)).1
  have hv : value (c :: cs) < 2 ^ t.bits := magnitude_lt hsigned (hr ▸ inRange_denote t r)
  obtain ⟨htake, hleft⟩ := takeWhile_digits hds hrest
  refine ⟨decide (sign = [45]), c :: cs ++ rest, c, cs ++ rest,
    BitVec.ofNat t.bits (value (c :: cs)), ?_, ?_, rfl, hc, ?_, ?_, hleft⟩
  · rw [hdrop]
    simp
  · rw [hdrop]
    exact signOf_of_isSign hissign hc _ _
  · rw [htake]
    exact digitsTo_ok t.width hds hds0 hv
  · rw [applySign_eq_ok hv (fun h => hsigned (of_decide_eq_true h))]
    simpa using hr

lemma toIntegral_eq_ok : toIntegral t src = .ok r ↔
      ∃ rest, toProgress t src = .ok (r, rest) ∧ ∀ b ∈ rest, isspace b = true := by
  simp only [toIntegral, bind, Except.bind, ← enforceWhitespace_eq_ok]
  cases hp : toProgress t src with
  | error e => simp
  | ok p =>
    obtain ⟨u, rest⟩ := p
    dsimp only
    cases hw : enforceWhitespace rest with
    | error e =>
      constructor
      · intro h
        cases h
      rintro ⟨_, h, hrest⟩
      cases h
      rw [hw] at hrest
      cases hrest
    | ok _ =>
      constructor
      · intro h
        cases h
        exact ⟨rest, rfl, hw⟩
      · rintro ⟨_, h, -⟩
        cases h
        rfl

lemma toIntegral_iff_denotes (t : IntType) (src : List UInt8) (n : Int) :
    (∃ r, toIntegral t src = .ok r ∧ t.denote r = n) ↔ Denotes t src n ∧ t.InRange n := by
  simp only [toIntegral_eq_ok, toProgress_eq_ok]
  constructor
  · rintro ⟨r, ⟨rest, ⟨before, sign, ds, hsrc, hbefore, hsign, hne, hds, -, hr⟩, hrest⟩, rfl⟩
    exact ⟨⟨before, sign, ds, rest, hsrc, hbefore, hsign, hne, hds, hrest, hr⟩, inRange_denote t r⟩
  rintro ⟨⟨before, sign, ds, after, hsrc, hbefore, hsign, hne, hds, hafter, rfl⟩, hrange⟩
  obtain ⟨r, hr⟩ := exists_denote hrange
  refine ⟨r, ⟨after, ⟨before, sign, ds, hsrc, hbefore, hsign, hne, hds, ?_, hr⟩, hafter⟩, hr⟩
  intro b hb
  cases hdigit : isDigit b with
  | false => rfl
  | true =>
    have hspace := hafter b (mem_of_mem_head? hb)
    rw [isspace_of_isDigit hdigit] at hspace
    cases hspace

lemma toIntegral_signed (w : Width) (negative : Bool) {ds : List UInt8}
    (hds : ∀ b ∈ ds, isDigit b = true) (hne : ds ≠ [])
    (hv : if negative then value ds ≤ 2 ^ (w.bits - 1) else value ds < 2 ^ (w.bits - 1)) :
    ∃ r, toIntegral ⟨w, true⟩ (if negative then 45 :: ds else ds) = .ok r ∧
      r.toInt = if negative then -(value ds : Int) else value ds := by
  have hpos : (0 : Int) < 2 ^ (w.bits - 1) := by positivity
  refine (toIntegral_iff_denotes ⟨w, true⟩ _ _).mpr ?_
  cases negative with
  | false =>
    have hrange : -2 ^ (w.bits - 1) ≤ (value ds : Int) ∧ (value ds : Int) < 2 ^ (w.bits - 1) :=
      ⟨by omega, by exact_mod_cast hv⟩
    exact ⟨⟨[], [], ds, [], (append_nil ds).symm, nofun, .inl rfl, hne, hds, nofun, rfl⟩,
      hrange⟩
  | true =>
    have hle : (value ds : Int) ≤ 2 ^ (w.bits - 1) := by exact_mod_cast hv
    have hrange : -2 ^ (w.bits - 1) ≤ -(value ds : Int) ∧ -(value ds : Int) < 2 ^ (w.bits - 1) :=
      ⟨by omega, by omega⟩
    exact ⟨⟨[], [45], ds, [], by simp, nofun, .inr ⟨rfl, .inr rfl⟩, hne, hds, nofun, rfl⟩, hrange⟩

lemma toAppend_unsigned {w : Width} (v : BitVec w.bits) {buffer : List UInt8}
    (h : buffer.length = 20) : toAppend ⟨w, false⟩ v buffer = text v.toNat := by
  have hle : w.bits ≤ 64 := by cases w <;> decide
  have hnat : (UInt64.ofBitVec (v.zeroExtend 64)).toNat = v.toNat := by
    show (v.zeroExtend 64).toNat = v.toNat
    rw [toNat_setWidth]
    exact Nat.mod_eq_of_lt (lt_of_lt_of_le v.isLt (Nat.pow_le_pow_right (by decide) hle))
  rw [← hnat, ← uint64ToBufferUnsafe_eq _ buffer h]
  rfl

lemma denotes_toAppend (t : IntType) (v : BitVec t.bits) (buffer : List UInt8)
    (h : buffer.length = 20) : Denotes t (toAppend t v buffer) (t.denote v) := by
  obtain ⟨w, signed⟩ := t
  cases signed with
  | false =>
    refine ⟨[], [], text v.toNat, [], ?_, nofun, .inl rfl, text_ne_nil _, text_digits _, nofun, ?_⟩
    · simpa using toAppend_unsigned v h
    · rw [value_text]
      rfl
  | true =>
    have hint : (Int64.ofBitVec (v.signExtend 64)).toInt = v.toInt := by
      have hle : w.bits ≤ 64 := by cases w <;> decide
      exact toInt_signExtend_of_le hle
    have htext : toAppend ⟨w, true⟩ v buffer =
        if v.toInt < 0 then 45 :: text v.toInt.natAbs else text v.toInt.natAbs := by
      rw [← hint, ← toAppendInt64_eq _ buffer h]
      rfl
    have hdenote : (⟨w, true⟩ : IntType).denote v = v.toInt := rfl
    rw [htext, hdenote]
    by_cases hneg : v.toInt < 0
    · rw [if_pos hneg]
      refine ⟨[], [45], text v.toInt.natAbs, [], by simp, nofun, .inr ⟨rfl, .inr rfl⟩,
        text_ne_nil _, text_digits _, nofun, ?_⟩
      rw [if_pos rfl, value_text]
      omega
    rw [if_neg hneg]
    refine ⟨[], [], text v.toInt.natAbs, [], by simp, nofun, .inl rfl, text_ne_nil _,
      text_digits _, nofun, ?_⟩
    rw [if_neg (cons_ne_nil _ _).symm, value_text]
    omega

lemma toIntegral_toAppend (t : IntType) (v : BitVec t.bits) (buffer : Vector UInt8 20) :
    toIntegral t (toAppend t v buffer.toList) = .ok v := by
  have hdenotes := denotes_toAppend t v buffer.toList buffer.length_toList
  obtain ⟨r, hr, heq⟩ := (toIntegral_iff_denotes t _ _).mpr ⟨hdenotes, inRange_denote t v⟩
  rw [hr, denote_injective t heq]

theorem toIntegral_numeral (t : IntType) :
    (∀ src n, (∃ r, toIntegral t src = .ok r ∧ t.denote r = n) ↔ Denotes t src n ∧ t.InRange n) ∧
    ∀ v (buffer : Vector UInt8 20), toIntegral t (toAppend t v buffer.toList) = .ok v :=
  ⟨toIntegral_iff_denotes t, toIntegral_toAppend t⟩

end Acc.Conv
