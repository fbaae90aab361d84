/-
# `Accelerator.Delimited` — a list cut at the occurrences of another
-/
import Mathlib

namespace Delimited

open List

variable {α : Type*} [DecidableEq α] {d s head tail : List α}

def cut (d : List α) : List α → Option (List α × List α)
  | [] => if d = [] then some ([], []) else none
  | a :: s =>
    if d <+: a :: s then some ([], (a :: s).drop d.length)
    else (cut d s).map fun p => (a :: p.1, p.2)

lemma cut_of_starts (h : d <+: s) : cut d s = some ([], s.drop d.length) := by
  cases s with
  | nil => rw [cut, if_pos (prefix_nil.mp h), drop_nil]
  | cons a s => rw [cut, if_pos h]

lemma cut_cons {a : α} (h : ¬ d <+: a :: s) :
    cut d (a :: s) = (cut d s).map fun p => (a :: p.1, p.2) := by
  rw [cut, if_neg h]

lemma cut_eq_none : cut d s = none ↔ ¬ d <:+: s := by
  induction s with
  | nil =>
    rw [cut, infix_nil]
    split <;> simp [*]
  | cons a s ih =>
    rw [infix_cons_iff]
    by_cases h : d <+: a :: s
    · simp [cut_of_starts h, h]
    · rw [cut_cons h, Option.map_eq_none_iff, ih]
      simp [h]

lemma cut_of_length_lt (h : s.length < d.length) : cut d s = none := by
  rw [cut_eq_none]
  intro hd
  exact absurd hd.length_le (Nat.not_le.mpr h)

lemma eq_of_cut (h : cut d s = some (head, tail)) : s = head ++ d ++ tail := by
  induction s generalizing head with
  | nil =>
    rw [cut] at h
    split at h
    · next hd =>
      cases h
      rw [hd]
      rfl
    · cases h
  | cons a s ih =>
    by_cases hd : d <+: a :: s
    · rw [cut_of_starts hd] at h
      cases h
      rw [nil_append, prefix_iff_eq_append.mp hd]
    rw [cut_cons hd, Option.map_eq_some_iff] at h
    obtain ⟨p, hp, hpair⟩ := h
    cases hpair
    rw [ih hp]
    rfl

lemma not_prefix_of_cut (h : cut d s = some (head, tail)) {k : Nat} (hk : k < head.length) :
    ¬ d <+: s.drop k := by
  induction s generalizing head k with
  | nil =>
    rw [cut] at h
    split at h
    · cases h
      cases hk
    · cases h
  | cons a s ih =>
    by_cases hd : d <+: a :: s
    · rw [cut_of_starts hd] at h
      cases h
      cases hk
    rw [cut_cons hd, Option.map_eq_some_iff] at h
    obtain ⟨p, hp, hpair⟩ := h
    cases hpair
    cases k with
    | zero => exact hd
    | succ k => exact ih hp (Nat.lt_of_succ_lt_succ hk)

lemma not_infix_of_cut (hne : d ≠ []) (h : cut d s = some (head, tail)) : ¬ d <:+: head := by
  rintro ⟨pre, post, hhead⟩
  have hpos := length_pos_of_ne_nil hne
  have hk : pre.length < head.length := by
    rw [← hhead, length_append, length_append]
    omega
  apply not_prefix_of_cut h hk
  rw [eq_of_cut h, ← hhead]
  simp [append_assoc]

lemma length_tail_lt (hne : d ≠ []) (h : cut d s = some (head, tail)) :
    tail.length < s.length := by
  have hpos := length_pos_of_ne_nil hne
  rw [eq_of_cut h, length_append, length_append]
  omega

def tokens (d s : List α) : List (List α) :=
  if _ : d = [] then [s]
  else
    match _ : cut d s with
    | none => [s]
    | some (head, tail) => head :: tokens d tail
termination_by s.length
decreasing_by exact length_tail_lt ‹_› ‹_›

@[simp] lemma tokens_nil : tokens [] s = [s] := by
  rw [tokens, dif_pos rfl]

lemma tokens_of_none (h : cut d s = none) : tokens d s = [s] := by
  rw [tokens]
  split
  · rfl
  · split
    · rfl
    · next hcut => rw [h] at hcut; cases hcut

lemma tokens_of_some (hne : d ≠ []) (h : cut d s = some (head, tail)) :
    tokens d s = head :: tokens d tail := by
  rw [tokens, dif_neg hne]
  split
  · next hcut => rw [h] at hcut; cases hcut
  next hcut =>
  rw [h] at hcut
  cases hcut
  rfl

lemma tokens_ne_nil (d s : List α) : tokens d s ≠ [] := by
  rw [tokens]
  split
  · exact cons_ne_nil _ _
  · split <;> exact cons_ne_nil _ _

lemma tokens_induction {motive : List α → Prop} (hne : d ≠ [])
    (last : ∀ s, cut d s = none → motive s)
    (next : ∀ s head tail, cut d s = some (head, tail) → motive tail → motive s) (s : List α) :
    motive s := by
  induction hn : s.length using Nat.strong_induction_on generalizing s with
  | _ n ih =>
    cases h : cut d s with
    | none => exact last s h
    | some p => exact next s p.1 p.2 h (ih _ (hn ▸ length_tail_lt hne h) p.2 rfl)

lemma intercalate_tokens (d s : List α) : d.intercalate (tokens d s) = s := by
  by_cases hne : d = []
  · rw [hne, tokens_nil, intercalate_singleton]
  induction s using tokens_induction hne with
  | last s h => rw [tokens_of_none h, intercalate_singleton]
  | next s head tail h ih =>
    obtain ⟨t, ts, hts⟩ := exists_cons_of_ne_nil (tokens_ne_nil d tail)
    rw [hts] at ih
    rw [tokens_of_some hne h, hts, intercalate_cons_cons, ih, eq_of_cut h]

omit [DecidableEq α] in
lemma intercalate_take_drop (d : List α) {ts : List (List α)} {n : Nat} (hn : n < ts.length) :
    d.intercalate ts = (ts.take n).flatMap (· ++ d) ++ d.intercalate (ts.drop n) := by
  induction ts generalizing n with
  | nil => cases hn
  | cons t ts ih =>
    cases n with
    | zero => rfl
    | succ n =>
      replace hn := Nat.lt_of_succ_lt_succ hn
      obtain ⟨u, us, rfl⟩ : ∃ u us, ts = u :: us :=
        exists_cons_of_length_pos (Nat.lt_of_le_of_lt (Nat.zero_le n) hn)
      rw [intercalate_cons_cons, ih hn]
      simp [append_assoc]

lemma not_infix_of_mem_tokens (hne : d ≠ []) {t : List α} (ht : t ∈ tokens d s) : ¬ d <:+: t := by
  induction s using tokens_induction hne with
  | last s h =>
    rw [tokens_of_none h, mem_singleton] at ht
    rw [ht]
    exact cut_eq_none.mp h
  | next s head tail h ih =>
    rw [tokens_of_some hne h, mem_cons] at ht
    rcases ht with rfl | ht
    · exact not_infix_of_cut hne h
    · exact ih ht

lemma tokens_singleton (c : α) (s : List α) : tokens [c] s = s.splitOn c := by
  have hne : [c] ≠ [] := cons_ne_nil _ _
  induction s using tokens_induction hne with
  | last s h =>
    have hc : c ∉ s := by
      rw [cut_eq_none, singleton_infix_iff] at h
      exact h
    rw [tokens_of_none h, splitOn_eq_singleton hc]
  | next s head tail h ih =>
    have hc : c ∉ head := by
      have hin := not_infix_of_cut hne h
      rw [singleton_infix_iff] at hin
      exact hin
    have hs : s = head ++ c :: tail := by
      rw [eq_of_cut h, append_assoc]
      rfl
    rw [tokens_of_some hne h, ih, hs, splitOn_append_cons_self_of_not_mem hc]

end Delimited
