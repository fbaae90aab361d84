import Mathlib

namespace Acc

open List

variable {T : Type*}

structure StrictWeakOrder (lt : T → T → Bool) : Prop where
  asymm : ∀ {a b}, lt a b = true → lt b a = false
  cotrans : ∀ {a c} (b), lt a c = true → lt a b = true ∨ lt b c = true

namespace SortedSet

variable (lt : T → T → Bool) (x : T) (l : List T)

def Sorted : Prop := l.Pairwise fun a b => lt a b = true

def equiv (y : T) : Bool := !lt x y && !lt y x

def lowerBound : Option T := l.find? fun y => !lt y x

def find : Option T := l.find? (equiv lt x)

def insert : List T := l.takeWhile (fun y => lt y x) ++ x :: l.dropWhile fun y => lt y x

def erase : List T := l.filter fun y => !equiv lt x y

variable {lt x l}

lemma lowerBound_eq : lowerBound lt x l = (l.dropWhile fun y => lt y x).head? := by
  induction l with
  | nil => rfl
  | cons y l ih =>
    cases h : lt y x with
    | true =>
      rw [lowerBound, find?_cons_of_neg (by simp [h]), dropWhile_cons, if_pos h]
      exact ih
    | false =>
      rw [lowerBound, find?_cons_of_pos (by simp [h]), dropWhile_cons,
        if_neg (by simp [h])]
      rfl

section Ordered

variable (hlt : StrictWeakOrder lt)
include hlt

lemma trans {a b c : T} (hab : lt a b = true) (hbc : lt b c = true) : lt a c = true := by
  rcases hlt.cotrans c hab with hac | hcb
  · exact hac
  · rw [hlt.asymm hbc] at hcb
    cases hcb

lemma not_lt_of_mem_dropWhile (hl : Sorted lt l) :
    ∀ y ∈ l.dropWhile (fun y => lt y x), lt y x = false := by
  intro y hy
  cases hd : l.dropWhile (fun y => lt y x) with
  | nil =>
    rw [hd] at hy
    cases hy
  | cons z rest =>
    have hz : lt z x = false := by
      have hne : l.dropWhile (fun y => lt y x) ≠ [] := by
        rw [hd]
        nofun
      have hnot := head_dropWhile_not (fun y => lt y x) hne
      simpa [hd] using hnot
    rw [hd] at hy
    rcases mem_cons.mp hy with rfl | hy
    · exact hz
    have hsorted : Sorted lt (z :: rest) := hd ▸ hl.sublist (dropWhile_sublist _)
    have hzy := rel_of_pairwise_cons hsorted hy
    rw [← Bool.not_eq_true]
    intro hyx
    rw [trans hlt hzy hyx] at hz
    cases hz

lemma find_eq (hl : Sorted lt l) :
    find lt x l = (l.dropWhile fun y => lt y x).head?.filter fun y => !lt x y := by
  have hless : ∀ y ∈ l.takeWhile (fun y => lt y x), ¬ equiv lt x y = true := by
    intro y hy
    have := mem_takeWhile_imp hy
    simp [equiv, this]
  have hsplit : find lt x l = find lt x (l.dropWhile fun y => lt y x) := by
    conv_lhs => rw [← takeWhile_append_dropWhile (p := fun y => lt y x) (l := l)]
    rw [find, find?_append, find?_eq_none.mpr hless]
    rfl
  rw [hsplit]
  have hnot := not_lt_of_mem_dropWhile (x := x) hlt hl
  have hsorted : Sorted lt (l.dropWhile fun y => lt y x) := hl.sublist (dropWhile_sublist _)
  cases hd : l.dropWhile (fun y => lt y x) with
  | nil => rfl
  | cons z rest =>
    rw [hd] at hnot hsorted
    cases hz : lt x z with
    | false =>
      rw [find, find?_cons_of_pos (by simp [equiv, hz, hnot z mem_cons_self])]
      exact (Option.filter_some_pos (by simp [hz])).symm
    | true =>
      have hnone : (z :: rest).find? (equiv lt x) = none := by
        rw [find?_eq_none]
        intro y hy
        rcases mem_cons.mp hy with rfl | hy
        · simp [equiv, hz]
        · simp [equiv, trans hlt hz (rel_of_pairwise_cons hsorted hy)]
      rw [find, hnone]
      exact (Option.filter_some_neg (by simp [hz])).symm

lemma Sorted.insert (hl : Sorted lt l) (hx : find lt x l = none) : Sorted lt (insert lt x l) := by
  have hnot := not_lt_of_mem_dropWhile (x := x) hlt hl
  have hgreater : ∀ y ∈ l.dropWhile (fun y => lt y x), lt x y = true := by
    intro y hy
    have hin : y ∈ l := (dropWhile_sublist _).subset hy
    have := find?_eq_none.mp hx y hin
    simpa [equiv, hnot y hy] using this
  refine pairwise_append.mpr ⟨hl.sublist (takeWhile_sublist _),
    pairwise_cons.mpr ⟨hgreater, hl.sublist (dropWhile_sublist _)⟩, ?_⟩
  intro a ha b hb
  have hax : lt a x = true := mem_takeWhile_imp (p := fun y => lt y x) ha
  rcases mem_cons.mp hb with rfl | hb
  · exact hax
  · exact trans hlt hax (hgreater b hb)

omit hlt in
lemma erase_of_find_eq_none (hx : find lt x l = none) : erase lt x l = l := by
  refine filter_eq_self.mpr fun y hy => ?_
  simpa using find?_eq_none.mp hx y hy

lemma erase_of_find_eq_some (hl : Sorted lt l) {y : T} (hy : find lt x l = some y) :
    erase lt x l = l.takeWhile (fun y => lt y x) ++ (l.dropWhile fun y => lt y x).tail := by
  have hless : ∀ z ∈ l.takeWhile (fun y => lt y x), (!equiv lt x z) = true := by
    intro z hz
    have := mem_takeWhile_imp hz
    simp [equiv, this]
  have hnot := not_lt_of_mem_dropWhile (x := x) hlt hl
  have hsorted : Sorted lt (l.dropWhile fun y => lt y x) := hl.sublist (dropWhile_sublist _)
  rw [find_eq hlt hl] at hy
  conv_lhs => rw [erase, ← takeWhile_append_dropWhile (p := fun y => lt y x) (l := l)]
  rw [filter_append, filter_eq_self.mpr hless]
  congr 1
  cases hd : l.dropWhile (fun y => lt y x) with
  | nil => rfl
  | cons z rest =>
    rw [hd] at hnot hsorted hy
    have hz : lt x z = false := by
      obtain ⟨hzy, hz⟩ := Option.filter_eq_some_iff.mp hy
      cases hzy
      simpa using hz
    rw [filter_cons_of_neg (by simp [equiv, hz, hnot z mem_cons_self]), tail_cons]
    refine filter_eq_self.mpr fun w hw => ?_
    have hzw := rel_of_pairwise_cons hsorted hw
    rcases hlt.cotrans x hzw with hzx | hxw
    · rw [hnot z mem_cons_self] at hzx
      cases hzx
    · simp [equiv, hxw]

end Ordered

end SortedSet

end Acc
