import Mathlib

structure PriorityQueue (α : Type) (before : α → α → Prop) where
  Carrier : Type
  empty : Carrier
  push : Carrier → α → Carrier
  top : Carrier → Option α
  pop : Carrier → Carrier
  elems : Carrier → Multiset α
  elems_empty : elems empty = 0
  elems_push : ∀ q a, elems (push q a) = a ::ₘ elems q
  elems_of_top_none : ∀ q, top q = none → elems q = 0
  elems_of_top : ∀ q a, top q = some a → elems q = a ::ₘ elems (pop q)
  not_before_top : ∀ q a b, top q = some a → b ∈ elems q → ¬ before b a

namespace PriorityQueue

open Multiset

variable {α : Type} {before : α → α → Prop} (Q : PriorityQueue α before) {q : Q.Carrier} {a b : α}

lemma mem_of_top (h : Q.top q = some a) : a ∈ Q.elems q := by
  rw [Q.elems_of_top q a h]
  exact mem_cons_self a _

lemma mem_pop (h : Q.top q = some a) (hb : b ∈ Q.elems (Q.pop q)) : b ∈ Q.elems q := by
  rw [Q.elems_of_top q a h]
  exact mem_cons_of_mem hb

lemma mem_pop_of_ne (h : Q.top q = some a) (hb : b ∈ Q.elems q) (hne : b ≠ a) :
    b ∈ Q.elems (Q.pop q) := by
  rw [Q.elems_of_top q a h] at hb
  exact (mem_cons.mp hb).resolve_left hne

lemma card_pop_lt (h : Q.top q = some a) :
    card (Q.elems (Q.pop q)) < card (Q.elems q) := by
  rw [Q.elems_of_top q a h, card_cons]
  exact Nat.lt_succ_self _

def sorted (key : α → Nat) : PriorityQueue α fun a b => key a < key b where
  Carrier := { l : List α // l.Pairwise fun a b => key a ≤ key b }
  empty := ⟨[], List.Pairwise.nil⟩
  push q a :=
    haveI : Std.Total fun a b => key a ≤ key b := ⟨fun a b => Nat.le_total (key a) (key b)⟩
    haveI : IsTrans α fun a b => key a ≤ key b := ⟨fun _ _ _ h h' => Nat.le_trans h h'⟩
    ⟨q.1.orderedInsert (fun a b => key a ≤ key b) a, q.2.orderedInsert a q.1⟩
  top q := q.1.head?
  pop q := ⟨q.1.tail, q.2.tail⟩
  elems q := q.1
  elems_empty := rfl
  elems_push q a := coe_eq_coe.mpr (List.perm_orderedInsert _ a q.1)
  elems_of_top_none q h := by
    rw [List.head?_eq_none_iff.mp h]
    rfl
  elems_of_top q a h := by
    obtain ⟨l, hl⟩ := List.head?_eq_some_iff.mp h
    show (q.1 : Multiset α) = a ::ₘ (q.1.tail : Multiset α)
    rw [hl]
    rfl
  not_before_top q a b h hb := by
    obtain ⟨l, hl⟩ := List.head?_eq_some_iff.mp h
    have hs := q.2
    rw [hl] at hs
    have hb : b ∈ q.1 := hb
    rw [hl] at hb
    rcases List.mem_cons.mp hb with rfl | hb
    · exact Nat.lt_irrefl _
    · exact Nat.not_lt.mpr (List.rel_of_pairwise_cons hs hb)

end PriorityQueue
