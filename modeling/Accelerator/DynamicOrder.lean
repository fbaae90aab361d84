import Accelerator.Dynamic

namespace Acc.Dynamic

variable {F : Type} [Double F]

class Exact (F : Type) [Double F] [LinearOrder F] : Prop where
  eq_iff : ∀ a b : F, Double.eq a b = true ↔ a = b
  lt_iff : ∀ a b : F, Double.lt a b = true ↔ a < b
  ofInt_inj : Function.Injective (Double.ofInt : Int64 → F)

mutual

def plain : Dynamic F → Bool
  | array xs => plainList xs
  | object _ => false
  | _ => true

def plainList : List (Dynamic F) → Bool
  | [] => true
  | x :: xs => plain x && plainList xs

end

mutual

def converted : Dynamic F → Dynamic F
  | int64 i => double (Double.ofInt i)
  | array xs => array (convertedList xs)
  | v => v

def convertedList : List (Dynamic F) → List (Dynamic F)
  | [] => []
  | x :: xs => converted x :: convertedList xs

end

def Decides (o : Ordering) (r r' : Except TypeError Bool) (same : Prop) : Prop :=
  r = .ok (o == .lt) ∧ r' = .ok (o == .gt) ∧ (o = .eq ↔ same)

lemma decides_leaf {r r' : Bool} {same : Prop} (hasymm : r = true → r' = false)
    (heq : (r = false ∧ r' = false) ↔ same) : ∃ o, Decides o (.ok r) (.ok r') same := by
  cases r with
  | true => exact ⟨.lt, rfl, by rw [hasymm rfl]; rfl, by simp [← heq]⟩
  | false =>
    cases r' with
    | true => exact ⟨.gt, rfl, rfl, by simp [← heq]⟩
    | false => exact ⟨.eq, rfl, rfl, by simp [← heq]⟩

lemma decides_order {α : Type} [LinearOrder α] {x y : α} {r r' : Bool} {same : Prop}
    (hr : r = true ↔ x < y) (hr' : r' = true ↔ y < x) (hsame : x = y ↔ same) :
    ∃ o, Decides o (.ok r) (.ok r') same := by
  apply decides_leaf
  · intro h
    rw [← Bool.not_eq_true, hr', not_lt]
    exact (hr.mp h).le
  · rw [← hsame, ← Bool.not_eq_true, ← Bool.not_eq_true, hr, hr', not_lt, not_lt, and_comm]
    exact le_antisymm_iff.symm

lemma bytesLt_asymm {s t : List UInt8} (h : bytesLt s t = true) : bytesLt t s = false := by
  induction s generalizing t with
  | nil =>
    cases t with
    | nil => cases h
    | cons b t => rfl
  | cons a s ih =>
    cases t with
    | nil => cases h
    | cons b t =>
      simp only [bytesLt, Bool.or_eq_true, decide_eq_true_eq, Bool.and_eq_true, beq_iff_eq] at h
      rcases h with h | ⟨rfl, h⟩
      · simp [bytesLt, UInt8.le_of_lt h, (UInt8.ne_of_lt h).symm]
      · simp [bytesLt, ih h]

lemma lt_of_type_ne {a b : Dynamic F} (ha : plain a = true) (hb : plain b = true)
    (h : a.type ≠ b.type) : lt a b = .ok (decide (a.type.ctorIdx < b.type.ctorIdx)) := by
  cases a <;> cases b <;> simp_all [lt, type, plain]

lemma ltList_cons {x y : Dynamic F} {r r' : Bool} (h : lt x y = .ok r) (h' : lt y x = .ok r')
    (xs ys : List (Dynamic F)) : ltList (x :: xs) (y :: ys) =
      if r then .ok true else if r' then .ok false else ltList xs ys := by
  rw [ltList, h, h']
  cases r <;> cases r' <;> rfl

lemma decides_list {xs : List (Dynamic F)} (ih : ∀ x ∈ xs, ∀ y, plain x = true → plain y = true →
      ∃ o, Decides o (lt x y) (lt y x) (x = y)) (ys : List (Dynamic F))
    (hx : plainList xs = true) (hy : plainList ys = true) :
    ∃ o, Decides o (ltList xs ys) (ltList ys xs) (xs = ys) := by
  induction xs generalizing ys with
  | nil =>
    cases ys with
    | nil => exact ⟨.eq, by simp [Decides, ltList]⟩
    | cons y ys => exact ⟨.lt, by simp [Decides, ltList]⟩
  | cons x xs ihx =>
    cases ys with
    | nil => exact ⟨.gt, by simp [Decides, ltList]⟩
    | cons y ys =>
      rw [plainList, Bool.and_eq_true] at hx hy
      obtain ⟨o, hr, hr', heq⟩ := ih x List.mem_cons_self y hx.1 hy.1
      rw [ltList_cons hr hr', ltList_cons hr' hr, List.cons.injEq, ← heq]
      cases o with
      | lt => exact ⟨.lt, by simp [Decides]⟩
      | gt => exact ⟨.gt, by simp [Decides]⟩
      | eq =>
        obtain ⟨o, hrest⟩ := ihx (fun z hz => ih z (List.mem_cons_of_mem _ hz)) ys hx.2 hy.2
        exact ⟨o, by simpa [Decides] using hrest⟩

lemma ctorIdx_inj {t t' : DynamicType} : t.ctorIdx = t'.ctorIdx ↔ t = t' := by
  cases t <;> cases t' <;> decide

lemma beqList_iff {xs : List (Dynamic F)} (ih : ∀ x ∈ xs, ∀ y, plain x = true →
      (beq x y = true ↔ converted x = converted y)) (ys : List (Dynamic F))
    (hx : plainList xs = true) :
    beqList xs ys = true ↔ convertedList xs = convertedList ys := by
  induction xs generalizing ys with
  | nil => cases ys <;> simp [beqList, convertedList]
  | cons x xs ihx =>
    cases ys with
    | nil => simp [beqList, convertedList]
    | cons y ys =>
      rw [plainList, Bool.and_eq_true] at hx
      rw [beqList, convertedList, convertedList, Bool.and_eq_true, List.cons.injEq,
        ih x List.mem_cons_self y hx.1, ihx (fun z hz => ih z (List.mem_cons_of_mem _ hz)) ys hx.2]

variable [LinearOrder F] [Exact F]

lemma decides_lt (a b : Dynamic F) (ha : plain a = true) (hb : plain b = true) :
    ∃ o, Decides o (lt a b) (lt b a) (a = b) := by
  induction hd : depth a using Nat.strong_induction_on generalizing a b with
  | _ n ih =>
    by_cases htype : a.type = b.type
    · cases a with
      | null =>
        cases b with
        | null => exact ⟨.eq, by simp [Decides, lt]⟩
        | _ => cases htype
      | bool a =>
        cases b with
        | bool b =>
          rw [lt, lt]
          exact decides_order (x := a) (y := b) (by simp [Bool.lt_iff])
            (by simp [Bool.lt_iff, and_comm]) (by simp)
        | _ => cases htype
      | int64 a =>
        cases b with
        | int64 b =>
          rw [lt, lt]
          exact decides_order (x := a.toInt) (y := b.toInt) (by simp [Int64.lt_iff_toInt_lt])
            (by simp [Int64.lt_iff_toInt_lt]) (by simp [Int64.toInt_inj])
        | _ => cases htype
      | double a =>
        cases b with
        | double b =>
          rw [lt, lt]
          exact decides_order (Exact.lt_iff a b) (Exact.lt_iff b a) (by simp)
        | _ => cases htype
      | string a =>
        cases b with
        | string b =>
          rw [lt, lt]
          refine decides_leaf bytesLt_asymm ⟨fun h => congrArg string (eq_of_not_bytesLt h.1 h.2), ?_⟩
          rintro ⟨⟩
          have hself : bytesLt a a = false := by
            cases hlt : bytesLt a a with
            | false => rfl
            | true => exact hlt.symm.trans (bytesLt_asymm hlt)
          exact ⟨hself, hself⟩
        | _ => cases htype
      | array xs =>
        cases b with
        | array ys =>
          rw [lt, lt, array.injEq]
          refine decides_list ?_ ys ha hb
          intro x hx y hpx hpy
          have hlt : depth x < n := by
            have := depth_le_depthList hx
            rw [← hd, depth]
            omega
          exact ih (depth x) hlt x y hpx hpy rfl
        | _ => cases htype
      | object items => cases ha
    · rw [lt_of_type_ne ha hb htype, lt_of_type_ne hb ha (Ne.symm htype)]
      refine decides_order decide_eq_true_iff decide_eq_true_iff ?_
      rw [ctorIdx_inj]
      exact ⟨fun h => absurd h htype, congrArg type⟩

lemma beq_iff (a b : Dynamic F) (ha : plain a = true) :
    beq a b = true ↔ converted a = converted b := by
  induction hd : depth a using Nat.strong_induction_on generalizing a b with
  | _ n ih =>
    have hnum := Exact.eq_iff (F := F)
    have hint (i j : Int64) : (Double.ofInt i : F) = Double.ofInt j ↔ i = j :=
      Exact.ofInt_inj.eq_iff
    cases a with
    | object items => cases ha
    | array xs =>
      cases b with
      | array ys =>
        rw [beq, converted, converted, array.injEq]
        refine beqList_iff ?_ ys ha
        intro x hx y hpx
        have hlt : depth x < n := by
          have := depth_le_depthList hx
          rw [← hd, depth]
          omega
        exact ih (depth x) hlt x y hpx rfl
      | _ => simp [beq, converted]
    | int64 i => cases b <;> simp [beq, converted, hnum, hint]
    | double d => cases b <;> simp [beq, converted, hnum, eq_comm]
    | _ => cases b <;> simp [beq, converted]

def ExactlyOne (a b : Dynamic F) : Prop :=
  (lt a b = .ok true ∧ beq a b = false ∧ lt b a = .ok false) ∨
    (lt a b = .ok false ∧ beq a b = true ∧ lt b a = .ok false) ∨
      (lt a b = .ok false ∧ beq a b = false ∧ lt b a = .ok true)

instance exactInt : Double Int where
  fromText _ := .ok 0
  toText _ _ _ := []
  infinity := 0
  negInfinity := 0
  quietNaN := 0
  isNaN _ := false
  isInf _ := false
  eq a b := a == b
  lt a b := a < b
  hash _ := 0
  ofInt := Int64.toInt
  checked i := .ok i

instance exactInt_exact : Exact Int where
  eq_iff := by simp [Double.eq]
  lt_iff := by simp [Double.lt]
  ofInt_inj _ _ := Int64.toInt_inj.mp

end Acc.Dynamic
