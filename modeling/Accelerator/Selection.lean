import Mathlib

namespace Selection

variable {α : Type}

def Sorted (comp : α → α → Bool) (l : List α) : Prop := l.Pairwise fun a b => comp b a = false

def NthElement (comp : α → α → Bool) (nth : List α → Nat → List α) : Prop :=
  ∀ l n, ∃ s, s.Perm l ∧ Sorted comp s ∧ (nth l n)[n]? = s[n]?

structure StrictTotal (comp : α → α → Bool) : Prop where
  total : ∀ {a b}, comp a b = false → comp b a = false → a = b
  asymm : ∀ {a b}, comp a b = true → comp b a = false
  trans : ∀ {a b c}, comp b a = false → comp c b = false → comp c a = false

variable {comp : α → α → Bool} (h : StrictTotal comp)

def sort (comp : α → α → Bool) (l : List α) : List α := l.mergeSort fun a b => !comp b a

lemma sort_perm (l : List α) : (sort comp l).Perm l := List.mergeSort_perm l _

include h

lemma sorted_sort (l : List α) : Sorted comp (sort comp l) := by
  have htrans : ∀ a b c, (!comp b a) = true → (!comp c b) = true → (!comp c a) = true := by
    intro a b c hba hcb
    rw [Bool.not_eq_true'] at hba hcb ⊢
    exact h.trans hba hcb
  have htotal : ∀ a b, (!comp b a || !comp a b) = true := by
    intro a b
    cases hba : comp b a with
    | false => rfl
    | true => rw [h.asymm hba]; rfl
  exact (List.pairwise_mergeSort htrans htotal l).imp fun hab => by simpa using hab

lemma eq_of_sorted {l l' : List α} (hperm : l.Perm l') (hl : Sorted comp l) (hl' : Sorted comp l') :
    l = l' :=
  hperm.eq_of_pairwise (fun _ _ _ _ hab hba => h.total hba hab) hl hl'

lemma eq_sort {l s : List α} (hperm : s.Perm l) (hs : Sorted comp s) : s = sort comp l :=
  eq_of_sorted h (hperm.trans (sort_perm l).symm) hs (sorted_sort h l)

lemma getElem?_nth {nth : List α → Nat → List α} (hnth : NthElement comp nth) (l : List α) (n : Nat) :
    (nth l n)[n]? = (sort comp l)[n]? := by
  obtain ⟨s, hperm, hs, heq⟩ := hnth l n
  rw [heq, eq_sort h hperm hs]

lemma nthElement_sort : NthElement comp fun l _ => sort comp l :=
  fun l _ => ⟨sort comp l, sort_perm l, sorted_sort h l, rfl⟩

lemma filter_sort (p : α → Bool) (l : List α) : (sort comp l).filter p = sort comp (l.filter p) :=
  eq_sort h ((sort_perm l).filter p) ((sorted_sort h l).sublist List.filter_sublist)

lemma map_sort {f : α → α} (hf : ∀ a b, comp (f a) (f b) = comp a b) (l : List α) :
    (sort comp l).map f = sort comp (l.map f) := by
  refine eq_sort h ((sort_perm l).map f) ?_
  exact List.pairwise_map.mpr ((sorted_sort h l).imp fun hab => by rw [hf, hab])

end Selection
