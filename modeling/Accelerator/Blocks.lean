/-
# `Accelerator.Blocks` — lists cut into blocks and into lines
-/
import Mathlib

namespace Blocks

open List

variable {α : Type*}

def blocks (n : Nat) (l : List α) : List (List α) :=
  if l = [] then []
  else if n = 0 then [l]
  else l.take n :: blocks n (l.drop n)
termination_by l.length
decreasing_by
  rename_i h hn
  have := List.length_pos_iff.mpr h
  rw [List.length_drop]
  omega

section Blocks

variable {n : Nat} {l : List α}

@[simp] lemma blocks_nil : blocks n ([] : List α) = [] := by
  rw [blocks, if_pos rfl]

lemma blocks_zero (h : l ≠ []) : blocks 0 l = [l] := by
  rw [blocks, if_neg h, if_pos rfl]

lemma blocks_of_length_le (h : l ≠ []) (hl : l.length ≤ n) : blocks n l = [l] := by
  by_cases hn : n = 0
  · rw [hn, blocks_zero h]
  · rw [blocks, if_neg h, if_neg hn, take_of_length_le hl, drop_of_length_le hl, blocks_nil]

lemma blocks_of_lt (hn : 0 < n) (hl : n ≤ l.length) :
    blocks n l = l.take n :: blocks n (l.drop n) := by
  have h : l ≠ [] := length_pos_iff.mp (hn.trans_le hl)
  rw [blocks, if_neg h, if_neg hn.ne']

end Blocks

section Cut

variable [DecidableEq α]

def splitLines (d : α) : List α → List (List α) × List α
  | [] => ([], [])
  | c :: w =>
    if c = d then ([c] :: (splitLines d w).1, (splitLines d w).2)
    else
      match splitLines d w with
      | ([], rest) => ([], c :: rest)
      | (line :: lines, rest) => ((c :: line) :: lines, rest)

def cut (d : α) (n : Nat) : List α → List α → List (List α) × List α
  | b, [] => ([], b)
  | b, c :: w =>
    if c = d ∨ b.length + 1 = n then ((b ++ [c]) :: (cut d n [] w).1, (cut d n [] w).2)
    else cut d n (b ++ [c]) w

variable {d : α} {n : Nat}

lemma cut_append (b w v : List α) : cut d n b (w ++ v)
    = ((cut d n b w).1 ++ (cut d n (cut d n b w).2 v).1, (cut d n (cut d n b w).2 v).2) := by
  induction w generalizing b with
  | nil => rfl
  | cons c w ih =>
    rw [cons_append, cut, cut]
    split
    · rw [ih]
      rfl
    · exact ih _

variable {b w : List α}

lemma length_cut (w : List α) (hb : n = 0 ∨ b.length < n) :
    n = 0 ∨ (cut d n b w).2.length < n := by
  induction w generalizing b with
  | nil => exact hb
  | cons c w ih =>
    rw [cut]
    split
    · exact ih (by rw [length_nil]; omega)
    · rename_i h
      exact ih (by rw [length_append, length_singleton]; omega)

lemma cut_of_notMem (hd : d ∉ w) (hn : n = 0 ∨ b.length + w.length < n) :
    cut d n b w = ([], b ++ w) := by
  induction w generalizing b with
  | nil => rw [cut, append_nil]
  | cons c w ih =>
    rw [mem_cons, not_or] at hd
    rw [length_cons] at hn
    rw [cut, if_neg, ih hd.2 (by rw [length_append, length_singleton]; omega),
      append_assoc, singleton_append]
    rintro (h | h)
    · exact hd.1 h.symm
    · omega

lemma cut_of_full (hd : d ∉ w) (hw : w ≠ []) (hn : b.length + w.length = n) :
    cut d n b w = ([b ++ w], []) := by
  obtain ⟨w, c, rfl⟩ := (eq_nil_or_concat w).resolve_left hw
  rw [concat_eq_append] at *
  rw [length_append, length_singleton] at hn
  have hw : d ∉ w := fun h => hd (mem_append_left _ h)
  rw [cut_append, cut_of_notMem hw (.inr (by omega)), cut, if_pos, cut, append_assoc]
  · rfl
  · rw [length_append]
    omega

lemma cut_of_end (hd : d ∉ w) (hn : n = 0 ∨ b.length + w.length < n) :
    cut d n b (w ++ [d]) = ([b ++ (w ++ [d])], []) := by
  rw [cut_append, cut_of_notMem hd hn, cut, if_pos (.inl rfl), cut, append_assoc]
  rfl

lemma cut_fill (hd : d ∉ w.take (n - b.length)) (hb : b.length < n)
    (hfull : n ≤ b.length + w.length) : cut d n b w
      = ((b ++ w.take (n - b.length)) :: (cut d n [] (w.drop (n - b.length))).1,
        (cut d n [] (w.drop (n - b.length))).2) := by
  have hlength : (w.take (n - b.length)).length = n - b.length := length_take_of_le (by omega)
  have hfirst : cut d n b (w.take (n - b.length)) = ([b ++ w.take (n - b.length)], []) := by
    refine cut_of_full hd ?_ (by omega)
    rw [← length_pos_iff]
    omega
  conv_lhs => rw [← take_append_drop (n - b.length) w]
  rw [cut_append, hfirst]
  rfl

lemma cut_block (hd : d ∉ w.take n) (hpos : 0 < n) (hle : n ≤ w.length) :
    cut d n [] w = (w.take n :: (cut d n [] (w.drop n)).1, (cut d n [] (w.drop n)).2) :=
  cut_fill hd hpos (by rwa [length_nil, Nat.zero_add])

lemma cut_line (hd : d ∉ w) : cut d n [] (w ++ [d]) = (blocks n (w ++ [d]), []) := by
  induction hk : w.length using Nat.strong_induction_on generalizing w with
  | _ k ih =>
    by_cases hn : n = 0 ∨ w.length < n
    · rw [cut_of_end hd (by simpa using hn), nil_append]
      rcases hn with rfl | hn
      · rw [blocks_zero (by simp)]
      · rw [blocks_of_length_le (by simp) (by rw [length_append, length_singleton]; exact hn)]
    rw [not_or, Nat.not_lt] at hn
    have hpos := Nat.pos_of_ne_zero hn.1
    have htake : (w ++ [d]).take n = w.take n := take_append_of_le_length hn.2
    have hdrop : (w ++ [d]).drop n = w.drop n ++ [d] := drop_append_of_le_length hn.2
    have hle : n ≤ (w ++ [d]).length := by
      rw [length_append]
      omega
    have hrest := ih (w.drop n).length (by rw [length_drop]; omega)
      (fun h => hd (mem_of_mem_drop h)) rfl
    rw [cut_block (htake ▸ fun h => hd (mem_of_mem_take h)) hpos hle, blocks_of_lt hpos hle,
      htake, hdrop, hrest]

lemma cut_begun (hd : d ∉ w) (hb : n = 0 ∨ b.length < n) {k : Nat}
    (hk : k = if n ≠ 0 then min (n - b.length) (w ++ [d]).length else (w ++ [d]).length) :
    cut d n b (w ++ [d]) = ((b ++ (w ++ [d]).take k) :: blocks n ((w ++ [d]).drop k), []) := by
  have hlength : (w ++ [d]).length = w.length + 1 := by simp
  by_cases hn : n = 0 ∨ b.length + w.length < n
  · have hall : k = (w ++ [d]).length := by
      rw [hk, hlength]
      split <;> omega
    rw [cut_of_end hd hn, hall, take_length, drop_length, blocks_nil]
  rw [not_or, Nat.not_lt] at hn
  have hfill : k = n - b.length := by
    rw [hk, if_pos hn.1]
    omega
  have hle : n - b.length ≤ w.length := by omega
  have htake : (w ++ [d]).take (n - b.length) = w.take (n - b.length) :=
    take_append_of_le_length hle
  have hdrop : (w ++ [d]).drop (n - b.length) = w.drop (n - b.length) ++ [d] :=
    drop_append_of_le_length hle
  rw [hfill, cut_fill (htake ▸ fun h => hd (mem_of_mem_take h)) (by omega) (by omega), hdrop,
    cut_line fun h => hd (mem_of_mem_drop h)]

lemma splitLines_of_notMem (hd : d ∉ w) : splitLines d w = ([], w) := by
  induction w with
  | nil => rfl
  | cons c w ih =>
    rw [mem_cons, not_or] at hd
    rw [splitLines, if_neg (Ne.symm hd.1), ih hd.2]

lemma splitLines_append (hd : d ∉ w) (v : List α) :
    splitLines d (w ++ d :: v) = ((w ++ [d]) :: (splitLines d v).1, (splitLines d v).2) := by
  induction w with
  | nil => rw [nil_append, splitLines, if_pos rfl, nil_append]
  | cons c w ih =>
    rw [mem_cons, not_or] at hd
    rw [cons_append, splitLines, if_neg (Ne.symm hd.1), ih hd.2]
    rfl

lemma cut_rest (hd : d ∉ w) : cut d n [] w
    = (blocks n (w.take (w.length / n * n)), w.drop (w.length / n * n)) := by
  induction hk : w.length using Nat.strong_induction_on generalizing w with
  | _ k ih =>
    by_cases hn : n = 0 ∨ w.length < n
    · have hzero : w.length / n = 0 := by
        rcases hn with rfl | hn
        · exact Nat.div_zero _
        · exact Nat.div_eq_of_lt hn
      rw [cut_of_notMem hd (by simpa using hn), ← hk, hzero, Nat.zero_mul, take_zero, blocks_nil,
        drop_zero, nil_append]
    rw [not_or, Nat.not_lt] at hn
    have hpos := Nat.pos_of_ne_zero hn.1
    have hrest := ih (w.drop n).length (by rw [length_drop]; omega)
      (fun h => hd (mem_of_mem_drop h)) rfl
    have hdiv : w.length / n * n = n + (w.drop n).length / n * n := by
      have hsub : (w.length - n) / n + 1 = w.length / n := by
        rw [← Nat.add_div_right _ hpos, Nat.sub_add_cancel hn.2]
      rw [length_drop, ← hsub, Nat.add_mul, Nat.one_mul, Nat.add_comm]
    generalize (w.drop n).length / n * n = m at hrest hdiv
    have hle : n ≤ (w.take (n + m)).length := by
      rw [length_take]
      omega
    rw [← hk, hdiv, blocks_of_lt hpos hle, take_take, Nat.min_eq_left (Nat.le_add_right n m),
      drop_take, Nat.add_sub_cancel_left, ← drop_drop,
      cut_block (fun h => hd (mem_of_mem_take h)) hpos hn.2, hrest]

lemma cut_lines (w : List α) : cut d n [] w =
    ((splitLines d w).1.flatMap (blocks n) ++ (cut d n [] (splitLines d w).2).1,
      (cut d n [] (splitLines d w).2).2) := by
  induction hk : w.length using Nat.strong_induction_on generalizing w with
  | _ k ih =>
    by_cases hd : d ∈ w
    · obtain ⟨a, v, rfl, ha⟩ := eq_append_cons_of_mem hd
      have hv := ih v.length (by rw [← hk, length_append, length_cons]; omega) v rfl
      have hsplit : a ++ d :: v = (a ++ [d]) ++ v := by rw [append_assoc, singleton_append]
      rw [splitLines_append ha, hsplit, cut_append, cut_line ha, flatMap_cons, append_assoc]
      rw [hv]
    · rw [splitLines_of_notMem hd]
      rfl

lemma notMem_splitLines (w : List α) : d ∉ (splitLines d w).2 := by
  induction w with
  | nil => exact not_mem_nil
  | cons c w ih =>
    rw [splitLines]
    split
    · exact ih
    rename_i hc
    split
    · rename_i heq
      rw [heq] at ih
      rw [mem_cons, not_or]
      exact ⟨Ne.symm hc, ih⟩
    · rename_i heq
      rwa [heq] at ih

end Cut

end Blocks
