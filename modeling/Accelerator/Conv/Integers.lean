import Accelerator.Conv.Numeral

namespace Acc.Conv

open Decimal (text)

namespace IntType

def min (t : IntType) : Int := if t.signed then -2 ^ (t.bits - 1) else 0

def max (t : IntType) : Int := if t.signed then 2 ^ (t.bits - 1) - 1 else 2 ^ t.bits - 1

def wrap (t : IntType) (n : Int) : Int := t.denote (BitVec.ofInt t.bits n)

def promote (t : IntType) : IntType := if t.bits < 32 then ⟨.w32, true⟩ else t

def common (a b : IntType) : IntType :=
  let a := a.promote
  let b := b.promote
  if a.bits < b.bits then b
  else if b.bits < a.bits then a
  else if a.signed then b else a

end IntType

def lessThan (a b : IntType) (x y : Int) : Bool := (a.common b).wrap x < (a.common b).wrap y

def lessEq (a b : IntType) (x y : Int) : Bool := (a.common b).wrap x ≤ (a.common b).wrap y

def integerText (n : Int) : List UInt8 := if n < 0 then 45 :: text n.natAbs else text n.natAbs

def toInteger (src tgt : IntType) (value : BitVec src.bits) : Except RangeError (BitVec tgt.bits) :=
  let v := src.denote value
  if lessThan tgt src tgt.max src.max ∧ ¬ lessEq src tgt v tgt.max then
    .error (.check "Overflow" (integerText v))
  else if src.signed ∧ (!tgt.signed ∨ src.bits > tgt.bits) ∧ ¬ lessEq tgt src tgt.min v then
    .error (.check "Negative overflow" (integerText v))
  else .ok (BitVec.ofInt tgt.bits v)

namespace IntType

lemma inRange_iff (t : IntType) (n : Int) : t.InRange n ↔ t.min ≤ n ∧ n ≤ t.max := by
  obtain ⟨w, signed⟩ := t
  cases signed with
  | true =>
    show _ ∧ n < _ ↔ _ ∧ n ≤ 2 ^ (w.bits - 1) - 1
    rw [Int.le_sub_one_iff]
    rfl
  | false =>
    show _ ∧ n < _ ↔ _ ∧ n ≤ 2 ^ w.bits - 1
    rw [Int.le_sub_one_iff]
    rfl

lemma wrap_eq {t : IntType} {n : Int} (h : t.InRange n) : t.wrap n = n := by
  obtain ⟨v, rfl⟩ := exists_denote h
  have hword : BitVec.ofInt t.bits (t.denote v) = v := by
    rw [denote]
    split
    · exact BitVec.ofInt_toInt
    · rw [BitVec.ofInt_natCast, BitVec.ofNat_toNat, BitVec.setWidth_eq]
  rw [wrap, hword]

lemma common_comm (a b : IntType) : a.common b = b.common a := by
  obtain ⟨wa, sa⟩ := a
  obtain ⟨wb, sb⟩ := b
  cases wa <;> cases sa <;> cases wb <;> cases sb <;> rfl

lemma max_le_common (a b : IntType) : a.max ≤ (a.common b).max := by
  obtain ⟨wa, sa⟩ := a
  obtain ⟨wb, sb⟩ := b
  cases wa <;> cases sa <;> cases wb <;> cases sb <;> decide

lemma common_min_le {a b : IntType} (h : (a.common b).signed = true) : (a.common b).min ≤ a.min := by
  revert h
  obtain ⟨wa, sa⟩ := a
  obtain ⟨wb, sb⟩ := b
  cases wa <;> cases sa <;> cases wb <;> cases sb <;> decide

lemma min_nonpos (t : IntType) : t.min ≤ 0 := by
  obtain ⟨w, signed⟩ := t
  cases w <;> cases signed <;> decide

lemma max_nonneg (t : IntType) : 0 ≤ t.max := by
  obtain ⟨w, signed⟩ := t
  cases w <;> cases signed <;> decide

lemma min_unsigned {t : IntType} (h : t.signed = false) : t.min = 0 := by
  rw [min, h]
  rfl

lemma common_holds (a b : IntType) {n : Int} (h : a.InRange n)
    (hsign : (a.common b).signed = true ∨ 0 ≤ n) : (a.common b).InRange n := by
  rw [inRange_iff] at h ⊢
  refine ⟨?_, le_trans h.2 (max_le_common a b)⟩
  rcases hsign with hsigned | hn
  · exact le_trans (common_min_le hsigned) h.1
  · exact le_trans (min_nonpos _) hn

lemma inRange_max (t : IntType) : t.InRange t.max :=
  (inRange_iff t _).mpr ⟨le_trans (min_nonpos t) (max_nonneg t), le_refl _⟩

lemma inRange_min (t : IntType) : t.InRange t.min :=
  (inRange_iff t _).mpr ⟨le_refl _, le_trans (min_nonpos t) (max_nonneg t)⟩

end IntType

open IntType

variable {a b src tgt : IntType}

lemma lessEq_iff {x y : Int} (hx : (a.common b).InRange x)
    (hy : (a.common b).InRange y) : lessEq a b x y = true ↔ x ≤ y := by
  rw [lessEq, wrap_eq hx, wrap_eq hy, decide_eq_true_eq]

lemma lessThan_iff {x y : Int} (hx : (a.common b).InRange x)
    (hy : (a.common b).InRange y) : lessThan a b x y = true ↔ x < y := by
  rw [lessThan, wrap_eq hx, wrap_eq hy, decide_eq_true_eq]

lemma lessThan_max (tgt src : IntType) :
    lessThan tgt src tgt.max src.max = true ↔ tgt.max < src.max := by
  refine lessThan_iff (common_holds tgt src (inRange_max tgt) (.inr (max_nonneg tgt))) ?_
  rw [common_comm]
  exact common_holds src tgt (inRange_max src) (.inr (max_nonneg src))

def Unchecked (src tgt : IntType) : Prop :=
  src.signed = true ∧ tgt.signed = false ∧ 32 ≤ tgt.bits ∧ src.bits ≤ tgt.bits

lemma common_unsigned_iff (h : src.signed = true) :
    (tgt.common src).signed = false ↔ Unchecked src tgt := by
  obtain ⟨ws, ss⟩ := src
  obtain ⟨wt, st⟩ := tgt
  cases h
  rw [Unchecked]
  cases ws <;> cases wt <;> cases st <;> decide

lemma Unchecked.max_le (h : Unchecked src tgt) : src.max ≤ tgt.max := by
  obtain ⟨ws, ss⟩ := src
  obtain ⟨wt, st⟩ := tgt
  obtain ⟨rfl, rfl, -, hbits⟩ := h
  revert hbits
  cases ws <;> cases wt <;> decide

lemma checks_min (h : src.min < tgt.min) :
    src.signed = true ∧ ((!tgt.signed) = true ∨ src.bits > tgt.bits) := by
  revert h
  obtain ⟨ws, ss⟩ := src
  obtain ⟨wt, st⟩ := tgt
  cases ws <;> cases ss <;> cases wt <;> cases st <;> decide

def Converts (src tgt : IntType) (value : BitVec src.bits) : Prop :=
  ((∃ r, toInteger src tgt value = .ok r) ↔ tgt.InRange (src.denote value)) ∧
    ∀ r, toInteger src tgt value = .ok r → tgt.denote r = src.denote value

lemma converts_of_common {value : BitVec src.bits}
    (hsign : (tgt.common src).signed = true ∨ 0 ≤ src.denote value) : Converts src tgt value := by
  have hsrc := (inRange_iff src _).mp (inRange_denote src value)
  have hvalue : (tgt.common src).InRange (src.denote value) := by
    rw [common_comm] at hsign ⊢
    exact common_holds src tgt (inRange_denote src value) hsign
  have hmax : lessEq src tgt (src.denote value) tgt.max = true ↔ src.denote value ≤ tgt.max := by
    refine lessEq_iff ?_ ?_
    · rw [common_comm]
      exact hvalue
    · rw [common_comm]
      exact common_holds tgt src (inRange_max tgt) (.inr (max_nonneg tgt))
  have hmin : src.signed = true →
      (lessEq tgt src tgt.min (src.denote value) = true ↔ tgt.min ≤ src.denote value) := by
    intro hsigned
    refine lessEq_iff (common_holds tgt src (inRange_min tgt) ?_) hvalue
    by_cases hcommon : (tgt.common src).signed = true
    · exact .inl hcommon
    · have hunchecked := (common_unsigned_iff hsigned).mp (Bool.not_eq_true _ ▸ hcommon)
      exact .inr (le_of_eq (min_unsigned hunchecked.2.1).symm)
  by_cases hin : tgt.InRange (src.denote value)
  · obtain ⟨hlo, hhi⟩ := (inRange_iff tgt _).mp hin
    have hok : toInteger src tgt value = .ok (BitVec.ofInt tgt.bits (src.denote value)) := by
      rw [toInteger]
      rw [if_neg (fun h => h.2 (hmax.mpr hhi)), if_neg (fun h => h.2.2 ((hmin h.1).mpr hlo))]
    refine ⟨⟨fun _ => hin, fun _ => ⟨_, hok⟩⟩, ?_⟩
    intro r hr
    rw [hok] at hr
    cases hr
    exact wrap_eq hin
  have herror : ∃ e, toInteger src tgt value = .error e := by
    rw [toInteger]
    by_cases hhi : src.denote value ≤ tgt.max
    · have hlo : ¬ tgt.min ≤ src.denote value := fun hlo => hin ((inRange_iff tgt _).mpr ⟨hlo, hhi⟩)
      obtain ⟨hsigned, hcheck⟩ := checks_min (lt_of_le_of_lt hsrc.1 (lt_of_not_ge hlo))
      rw [if_neg (fun h => h.2 (hmax.mpr hhi)),
        if_pos ⟨hsigned, hcheck, fun h => hlo ((hmin hsigned).mp h)⟩]
      exact ⟨_, rfl⟩
    · have hless : tgt.max < src.max := lt_of_lt_of_le (lt_of_not_ge hhi) hsrc.2
      rw [if_pos ⟨(lessThan_max tgt src).mpr hless, fun h => hhi (hmax.mp h)⟩]
      exact ⟨_, rfl⟩
  obtain ⟨e, he⟩ := herror
  refine ⟨⟨?_, fun h => absurd h hin⟩, ?_⟩
  · rintro ⟨r, hr⟩
    rw [he] at hr
    cases hr
  · intro r hr
    rw [he] at hr
    cases hr

lemma toInteger_unchecked (h : Unchecked src tgt) (value : BitVec src.bits) :
    toInteger src tgt value = .ok (BitVec.ofInt tgt.bits (src.denote value)) := by
  have hsigned := (common_unsigned_iff h.1).mpr h
  have hmax : ¬ lessThan tgt src tgt.max src.max = true := by
    rw [lessThan_max]
    exact not_lt_of_ge h.max_le
  have hzero : (tgt.common src).InRange tgt.min :=
    common_holds tgt src (inRange_min tgt) (.inr (le_of_eq (min_unsigned h.2.1).symm))
  have hwrap : 0 ≤ (tgt.common src).wrap (src.denote value) := by
    have hrange := inRange_denote (tgt.common src)
      (BitVec.ofInt (tgt.common src).bits (src.denote value))
    rw [inRange_iff, min_unsigned hsigned] at hrange
    exact hrange.1
  have hmin : lessEq tgt src tgt.min (src.denote value) = true := by
    rw [lessEq, wrap_eq hzero, min_unsigned h.2.1, decide_eq_true_eq]
    exact hwrap
  rw [toInteger]
  rw [if_neg (fun hc => hmax hc.1), if_neg (fun hc => hc.2.2 hmin)]

theorem toInteger_iff (src tgt : IntType) (value : BitVec src.bits) :
    Converts src tgt value ↔ ¬ (Unchecked src tgt ∧ src.denote value < 0) := by
  constructor
  · rintro hconverts ⟨hunchecked, hneg⟩
    have hin := hconverts.1.mp ⟨_, toInteger_unchecked hunchecked value⟩
    rw [inRange_iff, min_unsigned hunchecked.2.1] at hin
    exact absurd hin.1 (not_le_of_gt hneg)
  · intro hnot
    refine converts_of_common ?_
    by_cases hneg : src.denote value < 0
    · refine .inl ?_
      have hsigned : src.signed = true := by
        by_contra hunsigned
        have hrange := (inRange_iff src _).mp (inRange_denote src value)
        rw [min_unsigned (Bool.not_eq_true _ ▸ hunsigned)] at hrange
        exact absurd hrange.1 (not_le_of_gt hneg)
      by_contra hcommon
      exact hnot ⟨(common_unsigned_iff hsigned).mp (Bool.not_eq_true _ ▸ hcommon), hneg⟩
    · exact .inr (le_of_not_gt hneg)

theorem toInteger_minus_one :
    (⟨.w32, true⟩ : IntType).denote (-1) = -1 ∧
      toInteger ⟨.w32, true⟩ ⟨.w32, false⟩ (-1) = .ok 0xFFFFFFFF ∧
      ¬ (⟨.w32, false⟩ : IntType).InRange (-1) := by
  refine ⟨by decide, ?_, ?_⟩
  · exact toInteger_unchecked ⟨rfl, rfl, by decide, by decide⟩ (-1)
  · rintro ⟨hlo, -⟩
    omega

end Acc.Conv
