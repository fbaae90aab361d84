/-
# `Accelerator.Chain` — lists that are linked through memory
-/
import Mathlib

namespace Acc

open List

variable {α : Type*}

inductive Chain (next : α → α) (nil : α) : α → List α → Prop
  | nil : Chain next nil nil []
  | cons {a : α} {l : List α} (ha : a ≠ nil) (rest : Chain next nil (next a) l) :
      Chain next nil a (a :: l)

namespace Chain

variable {next next' : α → α} {nil a b : α} {l l' : List α}

lemma unique (h : Chain next nil a l) (h' : Chain next nil a l') : l = l' := by
  induction h generalizing l' with
  | nil =>
    cases h' with
    | nil => rfl
    | cons ha _ => exact absurd rfl ha
  | cons ha _ ih =>
    cases h' with
    | nil => exact absurd rfl ha
    | cons _ rest' => rw [ih rest']

lemma ne_nil (h : Chain next nil a l) : ∀ b ∈ l, b ≠ nil := by
  induction h with
  | nil => exact nofun
  | cons ha _ ih =>
    intro b hb
    rcases mem_cons.mp hb with rfl | hb
    · exact ha
    · exact ih b hb

lemma congr (h : Chain next nil a l) (same : ∀ b ∈ l, next' b = next b) :
    Chain next' nil a l := by
  induction h with
  | nil => exact .nil
  | @cons a l ha _ ih =>
    refine .cons ha ?_
    rw [same a mem_cons_self]
    exact ih fun b hb => same b (mem_cons_of_mem a hb)

lemma suffix (h : Chain next nil a l) (hb : b ∈ l) : ∃ l', Chain next nil b l' ∧ l' <:+ l := by
  induction h with
  | nil => cases hb
  | @cons a l ha rest ih =>
    rcases mem_cons.mp hb with rfl | hb
    · exact ⟨_, .cons ha rest, suffix_refl _⟩
    · obtain ⟨l', hl', hs⟩ := ih hb
      exact ⟨l', hl', hs.trans (suffix_cons a l)⟩

lemma nodup (h : Chain next nil a l) : l.Nodup := by
  induction h with
  | nil => exact nodup_nil
  | @cons a l ha rest ih =>
    refine nodup_cons.mpr ⟨fun hmem => ?_, ih⟩
    obtain ⟨l', hl', hs⟩ := rest.suffix hmem
    have hlen := hs.length_le
    rw [hl'.unique (.cons ha rest)] at hlen
    exact absurd hlen (by simp)

lemma eq_headD (h : Chain next nil a l) : a = l.headD nil := by
  cases h with
  | nil | cons _ _ => rfl

lemma after (h : Chain next nil a (l ++ b :: l')) : Chain next nil (next b) l' := by
  induction l generalizing a with
  | nil =>
    cases h with
    | cons _ rest => exact rest
  | cons c l ih =>
    cases h with
    | cons _ rest => exact ih rest

lemma replace {l'' : List α} (h : Chain next nil a (l ++ b :: l'))
    (same : ∀ c ∈ l, next' c = next c) (rest : Chain next' nil (next' b) l'') :
    Chain next' nil a (l ++ b :: l'') := by
  induction l generalizing a with
  | nil =>
    cases h with
    | cons ha _ => exact .cons ha rest
  | cons c l ih =>
    cases h with
    | cons ha rest' =>
      refine .cons ha ?_
      rw [same c mem_cons_self]
      exact ih rest' fun d hd => same d (mem_cons_of_mem c hd)

lemma after_mem {m d : List α} (h : Chain next nil a (a :: (m ++ d))) (hb : b ∈ a :: m) :
    ∃ c, Chain next nil (next b) (c ++ d) ∧ c <:+ m ∧ c.getLastD b = m.getLastD a := by
  rcases mem_cons.mp hb with rfl | hb
  · exact ⟨m, after (l := []) h, suffix_rfl, rfl⟩
  obtain ⟨l, c, rfl⟩ := append_of_mem hb
  refine ⟨c, ?_, ⟨l ++ [b], by simp⟩, ?_⟩
  · rw [append_assoc, cons_append, ← cons_append] at h
    exact h.after
  · simp [getLastD_eq_getLast?, getLast?_cons]

lemma cons_append_eq (a : α) (m d : List α) :
    a :: (m ++ d) = (a :: m).dropLast ++ m.getLastD a :: d := calc
  a :: (m ++ d) = ((a :: m).dropLast ++ [(a :: m).getLast (cons_ne_nil a m)]) ++ d := by
    rw [dropLast_append_getLast, cons_append]
  _ = (a :: m).dropLast ++ m.getLastD a :: d := by
    rw [getLast_eq_getLastD, append_assoc, singleton_append]

lemma after_last {m d : List α} (h : Chain next nil a (a :: (m ++ d))) :
    Chain next nil (next (m.getLastD a)) d := by
  rw [cons_append_eq] at h
  exact h.after

lemma replace_last {m d d' : List α} (h : Chain next nil a (a :: (m ++ d)))
    (same : ∀ c ∈ a :: m, c ≠ m.getLastD a → next' c = next c)
    (rest : Chain next' nil (next' (m.getLastD a)) d') : Chain next' nil a (a :: (m ++ d')) := by
  rw [cons_append_eq] at h ⊢
  refine h.replace (fun c hc => same c (dropLast_subset _ hc) ?_) rest
  rintro rfl
  exact (nodup_append.mp h.nodup).2.2 _ hc _ mem_cons_self rfl

end Chain

end Acc
