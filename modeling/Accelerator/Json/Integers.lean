import Accelerator.Json.Reads

namespace Acc.Json

open Conv Decimal Input Acc.Dynamic List

lemma lt_iff_digit_lt {a b : UInt8} (ha : isDigit a = true) (hb : isDigit b = true) :
    a < b ↔ digit a < digit b := by
  rw [isDigit_iff] at ha hb
  rw [UInt8.lt_iff_toNat_lt, digit, digit]
  omega

variable {s t ds : List UInt8}

lemma bytesLt_digits (hlen : s.length = t.length)
    (hs : ∀ b ∈ s, isDigit b = true) (ht : ∀ b ∈ t, isDigit b = true) :
    bytesLt s t = true ↔ value s < value t := by
  induction s generalizing t with
  | nil =>
    obtain rfl : t = [] := eq_nil_of_length_eq_zero hlen.symm
    simp [bytesLt]
  | cons a s ih =>
    cases t with
    | nil => cases hlen
    | cons b t =>
      obtain ⟨ha, hs⟩ := forall_mem_cons.mp hs
      obtain ⟨hb, htail⟩ := forall_mem_cons.mp ht
      replace hlen : s.length = t.length := Nat.succ.inj hlen
      have hlt := lt_iff_digit_lt ha hb
      have hgt := lt_iff_digit_lt hb ha
      rcases Nat.lt_trichotomy a.toNat b.toNat with hab | hab | hab
      · have hab : a < b := UInt8.lt_iff_toNat_lt.mpr hab
        have hvalue := value_lt_of_digit_lt hlen hs (hlt.mp hab)
        simp [bytesLt, hab, hvalue]
      · obtain rfl : a = b := UInt8.toNat_inj.mp hab
        rw [value_cons, value_cons, hlen, Nat.add_lt_add_iff_left, ← ih hlen hs htail]
        simp [bytesLt]
      have hvalue := value_lt_of_digit_lt hlen.symm htail (hgt.mp (UInt8.lt_iff_toNat_lt.mpr hab))
      have hnot : ¬ a < b := by
        rw [UInt8.lt_iff_toNat_lt]
        omega
      have hne : a ≠ b := by
        rintro rfl
        exact Nat.lt_irrefl _ hab
      simp only [bytesLt, hnot, decide_false, beq_eq_false_iff_ne.mpr hne,
        Bool.false_and, Bool.or_false, Bool.false_eq_true, false_iff]
      omega

lemma pieceLe_digits (hlen : s.length = t.length)
    (hs : ∀ b ∈ s, isDigit b = true) (ht : ∀ b ∈ t, isDigit b = true) :
    pieceLe s t = true ↔ value s ≤ value t := by
  rw [pieceLe, Bool.not_eq_true', Bool.eq_false_iff, ne_eq, bytesLt_digits hlen.symm ht hs]
  omega

lemma pieceLe_minus (s t : List UInt8) : pieceLe (45 :: s) (45 :: t) = pieceLe s t := by
  simp [pieceLe, bytesLt]

def literal (negative : Bool) (ds : List UInt8) : List UInt8 := if negative then 45 :: ds else ds

def literalValue (negative : Bool) (ds : List UInt8) : Int :=
  if negative then -(value ds : Int) else value ds

def FitsInt64 (n : Int) : Prop := -2 ^ 63 ≤ n ∧ n < 2 ^ 63

def takesInt (negative : Bool) (integral : List UInt8) : Bool :=
  integral.length < maxInt.length ||
    (!negative && integral.length == maxInt.length && pieceLe integral maxInt) ||
    (negative && integral.length == minInt.length && pieceLe integral minInt)

def LeftOut (negative : Bool) (ds : List UInt8) : Prop :=
  (negative = true ∧ ds.length = 18) ∨ 19 < ds.length

set_option maxRecDepth 8000 in
lemma takesInt_nonneg (hds : ∀ b ∈ ds, isDigit b = true) :
    takesInt false ds = true ↔ value ds < 2 ^ 63 ∧ ds.length ≤ 19 := by
  have hmax : value maxInt = 2 ^ 63 - 1 := by decide
  have hlength : maxInt.length = 19 := rfl
  have hdigits : ∀ b ∈ maxInt, isDigit b = true := by decide
  have hvalue := value_lt hds
  simp only [takesInt, hlength, Bool.not_false, Bool.true_and, Bool.false_and, Bool.or_false,
    Bool.or_eq_true, decide_eq_true_eq, Bool.and_eq_true, beq_iff_eq]
  rcases Nat.lt_trichotomy ds.length 19 with hlt | heq | hgt
  · have hsmall : 10 ^ ds.length ≤ 10 ^ 18 := Nat.pow_le_pow_right (by decide) (by omega)
    have hbelow : value ds < 2 ^ 63 := by
      omega
    omega
  · rw [pieceLe_digits (heq.trans hlength.symm) hds hdigits, hmax]
    omega
  have hne : ds.length ≠ 19 := by omega
  have hnot : ¬ ds.length < 19 := by omega
  have hnle : ¬ ds.length ≤ 19 := by omega
  simp [hne, hnot, hnle]

set_option maxRecDepth 8000 in
lemma takesInt_neg (hds : ∀ b ∈ ds, isDigit b = true) : takesInt true (45 :: ds) = true ↔
      value ds ≤ 2 ^ 63 ∧ ds.length ≠ 18 ∧ ds.length ≤ 19 := by
  obtain ⟨ms, hms⟩ : ∃ ms, minInt = 45 :: ms := ⟨_, rfl⟩
  have hmslen : ms.length = 19 := by
    have hlen := congrArg length hms
    exact (Nat.succ.inj hlen).symm
  have hmin : value ms = 2 ^ 63 := by
    cases hms
    decide
  have hdigits : ∀ b ∈ ms, isDigit b = true := by
    cases hms
    decide
  have hlength : maxInt.length = 19 := rfl
  have hvalue := value_lt hds
  rw [takesInt, hms, pieceLe_minus]
  simp only [hlength, length_cons, hmslen, Bool.not_true, Bool.false_and, Bool.or_false,
    Bool.true_and, Bool.or_eq_true, decide_eq_true_eq, Bool.and_eq_true, beq_iff_eq]
  rcases Nat.lt_trichotomy ds.length 19 with hlt | heq | hgt
  · have hsmall : 10 ^ ds.length ≤ 10 ^ 18 := Nat.pow_le_pow_right (by decide) (by omega)
    have hbelow : value ds ≤ 2 ^ 63 := by
      omega
    have hne : ¬ ds.length + 1 = 19 + 1 := by omega
    omega
  · rw [pieceLe_digits (heq.trans hmslen.symm) hds hdigits, hmin]
    omega
  · have hne : ¬ ds.length + 1 = 19 + 1 := by omega
    omega

lemma takesInt_iff (negative : Bool) (hds : ∀ b ∈ ds, isDigit b = true) :
    takesInt negative (literal negative ds) = true ↔
      FitsInt64 (literalValue negative ds) ∧ ¬ LeftOut negative ds := by
  cases negative with
  | true =>
    show takesInt true (45 :: ds) = true ↔
      (-2 ^ 63 ≤ -(value ds : Int) ∧ -(value ds : Int) < 2 ^ 63) ∧ _
    rw [takesInt_neg hds, LeftOut]
    simp only [true_and]
    omega
  | false =>
    show takesInt false ds = true ↔ (-2 ^ 63 ≤ (value ds : Int) ∧ (value ds : Int) < 2 ^ 63) ∧ _
    rw [takesInt_nonneg hds, LeftOut]
    simp only [Bool.false_eq_true, false_and, false_or]
    omega

section Literals

variable {F : Type} [Double F]

def Faithful (negative : Bool) (ds : List UInt8) (r : Except Error (Dynamic F × Input)) : Prop :=
  (FitsInt64 (literalValue negative ds) →
      ∃ i inp, r = .ok (.int64 i, inp) ∧ i.toInt = literalValue negative ds) ∧
    (¬ FitsInt64 (literalValue negative ds) →
      ∃ inp, r = (liftRange (Double.fromText (literal negative ds))).map fun v => (.double v, inp))

lemma integralValue_int {opts : SerializationOpts} {negative : Bool} {ds : List UInt8}
    (hds : ∀ b ∈ ds, isDigit b = true) (hne : ds ≠ [])
    (hfits : FitsInt64 (literalValue negative ds))
    (htakes : takesInt negative (literal negative ds) = true) :
    integralValue (F := F) opts negative (literal negative ds) =
      .ok (.int64 (Int64.ofInt (literalValue negative ds))) := by
  have hint : (Int64.ofInt (literalValue negative ds)).toInt = literalValue negative ds :=
    Int64.toInt_ofInt_of_le hfits.1 hfits.2
  obtain ⟨r, hr, hval⟩ := toIntegral_int64 negative hds hne hint
  have hcond : (!opts.doubleFallback || takesInt negative (literal negative ds)) = true := by
    rw [htakes, Bool.or_true]
  rw [takesInt, ← Bool.or_assoc, ← Bool.or_assoc] at hcond
  rw [integralValue, if_pos hcond, show toIntegral int64 (literal negative ds) = .ok r from hr, ← hval]
  rfl

lemma integralValue_double {opts : SerializationOpts} (hfallback : opts.doubleFallback = true)
    {negative : Bool} {ds : List UInt8} (htakes : ¬ takesInt negative (literal negative ds) = true) :
    integralValue (F := F) opts negative (literal negative ds) =
      (liftRange (Double.fromText (literal negative ds))).map .double := by
  have hcond : ¬ (!opts.doubleFallback || takesInt negative (literal negative ds)) = true := by
    rw [hfallback]
    exact htakes
  rw [takesInt, ← Bool.or_assoc, ← Bool.or_assoc] at hcond
  rw [integralValue, if_neg hcond]
  cases liftRange (Double.fromText (F := F) (literal negative ds)) with
  | error e | ok v => rfl

theorem parseNumber_fallback_iff (opts : SerializationOpts) (hfallback : opts.doubleFallback = true)
    (hnumbers : opts.parseNumbersAsStrings = false) (negative : Bool) (ds : List UInt8)
    (hds : ∀ b ∈ ds, isDigit b = true) (hne : ds ≠ []) (rest : List UInt8) (hrest : Ends rest)
    (line level : UInt32) :
    Faithful (F := F) negative ds (parseNumber opts ⟨literal negative ds ++ rest, line, level⟩) ↔
      (FitsInt64 (literalValue negative ds) → ¬ LeftOut negative ds) := by
  obtain ⟨line', hparse⟩ :=
    parseNumber_integral (F := F) hnumbers negative hds hne hrest line level
  rw [show parseNumber opts ⟨literal negative ds ++ rest, line, level⟩ = _ from hparse]
  have htest := takesInt_iff negative hds
  by_cases hfits : FitsInt64 (literalValue negative ds)
  · by_cases hout : LeftOut negative ds
    · -- it fits, and is read as a double
      have htakes : ¬ takesInt negative (literal negative ds) = true := fun h => (htest.mp h).2 hout
      refine ⟨?_, fun h => absurd hout (h hfits)⟩
      intro hfaithful
      obtain ⟨i, inp, hr, -⟩ := hfaithful.1 hfits
      rw [show integralValue (F := F) opts negative (if negative then 45 :: ds else ds) = _ from
        integralValue_double hfallback htakes] at hr
      cases hdouble : liftRange (Double.fromText (F := F) (literal negative ds)) with
      | error e | ok v =>
        rw [hdouble] at hr
        cases hr
    · refine ⟨fun _ _ => hout, fun _ => ⟨fun _ => ?_, fun hnot => absurd hfits hnot⟩⟩
      rw [show integralValue (F := F) opts negative (if negative then 45 :: ds else ds) = _ from
        integralValue_int hds hne hfits (htest.mpr ⟨hfits, hout⟩)]
      exact ⟨_, _, rfl, Int64.toInt_ofInt_of_le hfits.1 hfits.2⟩
  · refine ⟨fun _ h => absurd h hfits, fun _ => ⟨fun h => absurd h hfits, fun _ => ?_⟩⟩
    have htakes : ¬ takesInt negative (literal negative ds) = true := fun h => hfits (htest.mp h).1
    rw [show integralValue (F := F) opts negative (if negative then 45 :: ds else ds) = _ from
      integralValue_double hfallback htakes]
    refine ⟨⟨ltrim rest, line', level⟩, ?_⟩
    cases liftRange (Double.fromText (F := F) (literal negative ds)) with
    | error e | ok v => rfl

end Literals

theorem parseNumber_fallback_iff_seventeen :
    Faithful (F := Unit) true (replicate 17 49) (parseNumber { doubleFallback := true }
      ⟨literal true (replicate 17 49) ++ [], 0, 0⟩) := by
  have hdigits : ∀ b ∈ replicate 17 (49 : UInt8), isDigit b = true := by
    intro b hb
    rw [eq_of_mem_replicate hb]
    rfl
  refine (parseNumber_fallback_iff { doubleFallback := true } rfl rfl true _ hdigits (by simp) []
    nofun 0 0).mpr ?_
  rintro - (⟨-, hlen⟩ | hlen)
  · rw [length_replicate] at hlen
    omega
  · rw [length_replicate] at hlen
    omega

set_option maxRecDepth 8000 in
theorem parseNumber_eighteen :
    FitsInt64 (literalValue true (replicate 18 49)) ∧
      parseNumber { doubleFallback := true } ⟨literal true (replicate 18 49), 0, 0⟩ =
        .ok (double (), ⟨[], 0, 0⟩) := by
  refine ⟨?_, rfl⟩
  rw [FitsInt64, show literalValue true (replicate 18 49) = -111111111111111111 by
    decide]
  omega

end Acc.Json
