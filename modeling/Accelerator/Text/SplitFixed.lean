import Accelerator.Range.Find
import Accelerator.Text.Split

namespace Acc.Text

open List

open Delimited

def Delim.find : Delim → List UInt8 → Option Nat
  | char c, input => Range.memchr input c
  | piece d, input => Range.qfind (· == ·) input d

def splitFixed (exact : Bool) (delimiter : Delim) :
    List UInt8 → List UInt8 → List (List UInt8) → Bool × List (List UInt8)
  | input, out, [] =>
    if exact && (delimiter.find input).isSome then (false, [out]) else (true, [input])
  | input, outHead, out :: outTail =>
    match delimiter.find input with
    | none => (false, outHead :: out :: outTail)
    | some cut =>
      let head := input.take cut
      let tail := input.drop (cut + delimiter.size)
      match splitFixed exact delimiter tail out outTail with
      | (true, outs) => (true, head :: outs)
      | (false, outs) => (false, outHead :: outs)

lemma find_eq_cut (delim : Delim) (input : List UInt8) :
    delim.find input = (cut delim.bytes input).map fun p => p.1.length := by
  cases delim with
  | char c => exact Range.memchr_eq_cut input c
  | piece d => exact Range.qfind_eq_cut input d

section

variable {delim : Delim} {input head tail : List UInt8} (exact : Bool) (out : List UInt8)
  (outs : List (List UInt8))

lemma splitFixed_none (h : cut delim.bytes input = none) (o : List UInt8) :
    splitFixed exact delim input o (out :: outs) = (false, o :: out :: outs) := by
  rw [splitFixed, find_eq_cut, h]
  rfl

lemma splitFixed_cut (h : cut delim.bytes input = some (head, tail)) (o : List UInt8) :
    splitFixed exact delim input o (out :: outs) =
      match splitFixed exact delim tail out outs with
      | (true, outs) => (true, head :: outs)
      | (false, outs) => (false, o :: outs) := by
  have hinput := eq_of_cut h
  have hhead : input.take head.length = head := by
    rw [hinput, append_assoc, take_left]
  have htail : input.drop (head.length + delim.size) = tail := by
    rw [hinput, Delim.size, ← length_append, drop_left]
  rw [splitFixed, find_eq_cut, h]
  simp only [Option.map_some, hhead, htail]

end

variable {delim : Delim}

lemma splitFixed_exact (hne : delim.bytes ≠ []) (input out : List UInt8)
    (outs : List (List UInt8)) : splitFixed true delim input out outs =
      if (tokens delim.bytes input).length = outs.length + 1
      then (true, tokens delim.bytes input) else (false, out :: outs) := by
  induction outs generalizing input out with
  | nil =>
    rw [splitFixed, find_eq_cut]
    cases h : cut delim.bytes input with
    | none => simp [tokens_of_none h]
    | some p =>
      have htail := length_pos_of_ne_nil (tokens_ne_nil delim.bytes p.2)
      simp [tokens_of_some hne h, Nat.ne_of_gt htail]
  | cons o os ih =>
    cases h : cut delim.bytes input with
    | none => simp [splitFixed_none true o os h, tokens_of_none h]
    | some p =>
      rw [splitFixed_cut true o os h, ih, tokens_of_some hne h, length_cons, length_cons]
      by_cases hlen : (tokens delim.bytes p.2).length = os.length + 1
      · simp [hlen]
      · simp [hlen]

lemma splitFixed_rest (hne : delim.bytes ≠ []) (input out : List UInt8)
    (outs : List (List UInt8)) : splitFixed false delim input out outs =
      if outs.length + 1 ≤ (tokens delim.bytes input).length
      then (true, (tokens delim.bytes input).take outs.length ++
        [delim.bytes.intercalate ((tokens delim.bytes input).drop outs.length)])
      else (false, out :: outs) := by
  induction outs generalizing input out with
  | nil =>
    have hsome : 0 + 1 ≤ (tokens delim.bytes input).length :=
      length_pos_of_ne_nil (tokens_ne_nil delim.bytes input)
    rw [length_nil, if_pos hsome, take_zero, drop_zero, intercalate_tokens]
    rfl
  | cons o os ih =>
    cases h : cut delim.bytes input with
    | none => simp [splitFixed_none false o os h, tokens_of_none h]
    | some p =>
      rw [splitFixed_cut false o os h, ih, tokens_of_some hne h, length_cons, length_cons]
      by_cases hlen : os.length + 1 ≤ (tokens delim.bytes p.2).length
      · simp [hlen]
      · simp [hlen]

lemma splitFixed_exact_empty (hd : delim.bytes = []) (input out : List UInt8)
    (outs : List (List UInt8)) : splitFixed true delim input out outs = (false, out :: outs) := by
  have hcut : cut delim.bytes input = some ([], input) := by
    rw [hd, cut_of_starts nil_prefix]
    rfl
  induction outs generalizing out with
  | nil =>
    rw [splitFixed, find_eq_cut, hcut]
    rfl
  | cons o os ih => rw [splitFixed_cut true o os hcut, ih]

lemma splitFixed_rest_empty (hd : delim.bytes = []) (input out : List UInt8)
    (outs : List (List UInt8)) : splitFixed false delim input out outs =
      (true, List.replicate outs.length [] ++ [input]) := by
  have hcut : cut delim.bytes input = some ([], input) := by
    rw [hd, cut_of_starts nil_prefix]
    rfl
  induction outs generalizing out with
  | nil => rfl
  | cons o os ih =>
    rw [splitFixed_cut false o os hcut, ih]
    rfl

structure Agrees (exact : Bool) (delim : Delim) (input out : List UInt8)
    (outs : List (List UInt8)) : Prop where
  returns : (splitFixed exact delim input out outs).1 = true ↔
    if exact then (internalSplit delim input false).length = outs.length + 1
    else outs.length + 1 ≤ (internalSplit delim input false).length
  stores : (splitFixed exact delim input out outs).1 = true →
    if exact then (splitFixed exact delim input out outs).2 = internalSplit delim input false
    else ∃ rest,
      (splitFixed exact delim input out outs).2 =
        (internalSplit delim input false).take outs.length ++ [rest] ∧
      input = ((internalSplit delim input false).take outs.length).flatMap (· ++ delim.bytes) ++ rest
  unchanged : (splitFixed exact delim input out outs).1 = false →
    (splitFixed exact delim input out outs).2 = out :: outs

lemma internalSplit_all (delim : Delim) (input : List UInt8) :
    internalSplit delim input false = tokens delim.bytes input :=
  internalSplit_eq delim input false

lemma agrees_of_delim (hne : delim.bytes ≠ []) (exact : Bool)
    (input out : List UInt8) (outs : List (List UInt8)) : Agrees exact delim input out outs := by
  cases exact with
  | true =>
    have heq := splitFixed_exact hne input out outs
    rw [← internalSplit_all] at heq
    constructor
    · rw [heq, if_pos rfl]
      split <;> simp [*]
    · rw [heq, if_pos rfl]
      split <;> simp
    · rw [heq]
      split <;> simp
  | false =>
    have heq := splitFixed_rest hne input out outs
    rw [← internalSplit_all] at heq
    constructor
    · rw [heq, if_neg Bool.false_ne_true]
      split <;> simp [*]
    · rw [heq, if_neg Bool.false_ne_true]
      split
      · next hlen =>
        intro _
        refine ⟨_, rfl, ?_⟩
        rw [← intercalate_take_drop delim.bytes hlen, internalSplit_all, intercalate_tokens]
      · intro h
        cases h
    · rw [heq]
      split <;> simp

theorem splitFixed_agrees_iff (exact : Bool) (delim : Delim) (input out : List UInt8)
    (outs : List (List UInt8)) :
    Agrees exact delim input out outs ↔ (delim.size = 0 → (exact = true ↔ outs ≠ [])) := by
  by_cases hne : delim.bytes = []
  · have hone : internalSplit delim input false = [input] := by
      rw [internalSplit_all, hne, tokens_nil]
    have hsize : delim.size = 0 := congrArg List.length hne
    cases exact with
    | true =>
      have heq := splitFixed_exact_empty hne input out outs
      constructor
      · intro h _
        refine iff_of_true rfl ?_
        rintro rfl
        have htrue := h.returns.mpr (congrArg List.length hone)
        rw [heq] at htrue
        cases htrue
      · intro h
        have hmore : 0 < outs.length := length_pos_of_ne_nil ((h hsize).mp rfl)
        constructor
        · rw [heq, if_pos rfl, hone, length_singleton]
          exact iff_of_false Bool.false_ne_true (by omega)
        · rw [heq]
          intro htrue
          cases htrue
        · rw [heq]
          intro _
          rfl
    | false =>
      have heq := splitFixed_rest_empty hne input out outs
      constructor
      · intro h _
        refine iff_of_false Bool.false_ne_true ?_
        intro hmore
        have hlen := h.returns.mp (by rw [heq])
        rw [if_neg Bool.false_ne_true, hone, length_singleton] at hlen
        have hpos := length_pos_of_ne_nil hmore
        omega
      · intro h
        obtain rfl : outs = [] := by
          by_contra hmore
          exact absurd ((h hsize).mpr hmore) Bool.false_ne_true
        constructor
        · rw [heq, if_neg Bool.false_ne_true, hone]
          exact iff_of_true rfl (Nat.le_refl 1)
        · rw [heq, if_neg Bool.false_ne_true]
          intro _
          exact ⟨input, rfl, rfl⟩
        · rw [heq]
          intro hfalse
          cases hfalse
  · have hsize : delim.size ≠ 0 := fun h => hne (eq_nil_of_length_eq_zero h)
    exact iff_of_true (agrees_of_delim hne exact input out outs) fun h => absurd h hsize

theorem splitFixed_empty_delimiter :
    ¬ Agrees true (.piece []) [97] [] [] := by
  intro h
  have hone : (internalSplit (.piece []) [97] false).length = 1 := by decide
  have hfalse : (splitFixed true (.piece []) [97] [] []).1 = false := by decide
  rw [h.returns.mpr hone] at hfalse
  cases hfalse

end Acc.Text
