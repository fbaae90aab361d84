/-
# `Accelerator.Counted` — cells that have one owner or are counted
-/
import Mathlib

namespace Counted

open Function Finset

inductive Cell (β : Type)
  | owned (v : β)
  | counted (n : Nat) (v : β)

variable {α β : Type} [DecidableEq α]

abbrev Store (α β : Type) := α → Option (Cell β)

inductive Hold (α β : Type)
  | nothing
  | own (a : α) (v : β)
  | share (a : α) (v : β)

def Cell.value : Cell β → β
  | owned v => v
  | counted _ v => v

def Cell.map (f : β → β) : Cell β → Cell β
  | owned v => owned (f v)
  | counted n v => counted n (f v)

def refs (s : Store α β) (a : α) : Nat :=
  match s a with
  | none => 0
  | some (.owned _) => 1
  | some (.counted n _) => n

def free (s : Store α β) (a : α) : Store α β := Function.update s a none

def increment (s : Store α β) (a : α) : Store α β :=
  match s a with
  | some (.counted n v) => Function.update s a (some (.counted (n + 1) v))
  | _ => s

def decrement (s : Store α β) (a : α) : Store α β :=
  match s a with
  | some (.counted n v) => if n = 1 then free s a else Function.update s a (some (.counted (n - 1) v))
  | _ => s

namespace Hold

def place : Hold α β → Option α
  | nothing => none
  | own a _ => some a
  | share a _ => some a

end Hold

def release (s : Store α β) : Hold α β → Store α β
  | .nothing => s
  | .own a _ => free s a
  | .share a _ => decrement s a

def Backed (s : Store α β) : Hold α β → Prop
  | .nothing => True
  | .own a v => s a = some (.owned v)
  | .share a v => ∃ n, s a = some (.counted (n + 1) v)

inductive Takes (g : Store α β) : Hold α β → Store α β → Prop
  | nothing : Takes g .nothing g
  | own {a : α} {v : β} (h : g a = none) : Takes g (.own a v) (Function.update g a (some (.owned v)))
  | first {a : α} {v : β} (h : g a = none) :
      Takes g (.share a v) (Function.update g a (some (.counted 1 v)))
  | again {a : α} {v : β} {n : Nat} (h : g a = some (.counted (n + 1) v)) :
      Takes g (.share a v) (Function.update g a (some (.counted (n + 2) v)))

lemma free_self (s : Store α β) (a : α) : free s a a = none := by
  rw [free, update_self]

lemma update_none_of_eq {g : Store α β} {a : α} (h : g a = none) (o : Option (Cell β)) :
    free (Function.update g a o) a = g := by
  rw [free, update_idem, ← h, update_eq_self]

section Takes

variable {g s : Store α β} {x y : Hold α β}

lemma Takes.release_eq (h : Takes g x s) : release s x = g := by
  cases h with
  | nothing => rfl
  | own h => exact update_none_of_eq h _
  | first h =>
    rw [release, decrement, update_self]
    exact update_none_of_eq h _
  | @again a v n h =>
    rw [release, decrement, update_self]
    simp only [Nat.reduceEqDiff, if_false, Nat.add_one_sub_one]
    rw [update_idem]
    exact (congrArg (Function.update g a) h.symm).trans (update_eq_self a g)

lemma Takes.backed (h : Takes g x s) : Backed s x := by
  cases h with
  | nothing => exact trivial
  | own h => exact update_self ..
  | first h => exact ⟨0, update_self ..⟩
  | again h => exact ⟨_, update_self ..⟩

lemma Backed.takes (h : Backed s x) : Takes (release s x) x s := by
  cases x with
  | nothing => exact .nothing
  | own a v =>
    have hs : Function.update (free s a) a (some (.owned v)) = s := by
      rw [free, update_idem, ← h, update_eq_self]
    have htakes := Takes.own (v := v) (free_self s a)
    rwa [hs] at htakes
  | share a v =>
    obtain ⟨n, h⟩ := h
    cases n with
    | zero =>
      have hg : release s (.share a v) = free s a := by
        rw [release, decrement, h]
        rfl
      have hs : Function.update (free s a) a (some (.counted 1 v)) = s := by
        rw [free, update_idem, ← h, update_eq_self]
      have htakes := Takes.first (v := v) (free_self s a)
      rwa [hs, ← hg] at htakes
    | succ n =>
      have hg : release s (.share a v) = Function.update s a (some (.counted (n + 1) v)) := by
        rw [release, decrement, h]
        rfl
      have hs : Function.update (release s (.share a v)) a (some (.counted (n + 2) v)) = s := by
        rw [hg, update_idem, ← h, update_eq_self]
      have htakes := Takes.again (g := release s (.share a v)) (a := a) (v := v) (n := n)
        (by rw [hg, update_self])
      rwa [hs] at htakes

lemma Takes.cases_at (h : Takes g x s) (b : α) : s b = g b ∨ g b = none ∨
    ∃ n v, g b = some (.counted (n + 1) v) ∧ s b = some (.counted (n + 2) v) := by
  cases h with
  | nothing => exact .inl rfl
  | @own a v h | @first a v h =>
    by_cases hb : b = a
    · exact .inr (.inl (hb ▸ h))
    · exact .inl (update_of_ne hb _ _)
  | @again a v n h =>
    by_cases hb : b = a
    · subst hb
      exact .inr (.inr ⟨n, v, h, update_self ..⟩)
    · exact .inl (update_of_ne hb _ _)

lemma Backed.of_takes (hy : Backed g y) (h : Takes g x s) : Backed s y := by
  cases y with
  | nothing => exact trivial
  | own b w =>
    have hy : g b = some (.owned w) := hy
    obtain heq | hnone | ⟨n, v, hg, -⟩ := h.cases_at b
    · exact heq.trans hy
    · rw [hnone] at hy
      cases hy
    · rw [hg] at hy
      cases hy
  | share b w =>
    obtain ⟨m, hy⟩ := hy
    obtain heq | hnone | ⟨n, v, hg, hs⟩ := h.cases_at b
    · exact ⟨m, heq.trans hy⟩
    · rw [hnone] at hy
      cases hy
    · rw [hg] at hy
      cases hy
      exact ⟨_, hs⟩

lemma Takes.eq_none (h : Takes g x s) {b : α} (hb : s b = none) : g b = none := by
  obtain heq | hnone | ⟨n, v, -, hs⟩ := h.cases_at b
  · exact heq.symm.trans hb
  · exact hnone
  · rw [hs] at hb
    cases hb

lemma Takes.refs_eq (h : Takes g x s) (b : α) :
    refs s b = refs g b + if x.place = some b then 1 else 0 := by
  cases h with
  | nothing => rfl
  | @own a v h | @first a v h | @again a v n h =>
    by_cases hb : b = a
    · subst hb
      simp [refs, Hold.place, h]
    · simp [refs, Hold.place, hb, Ne.symm hb]

lemma Takes.release_update (h : Takes g x s) {b : α} (hb : s b = none) (o : Option (Cell β)) :
    release (Function.update s b o) x = Function.update g b o := by
  cases h with
  | nothing => rfl
  | @own a v h =>
    have hne : b ≠ a := fun e => by rw [e, update_self] at hb; cases hb
    rw [release, free, update_comm hne, update_idem, ← h, update_eq_self]
  | @first a v h =>
    have hne : b ≠ a := fun e => by rw [e, update_self] at hb; cases hb
    rw [release, decrement, update_of_ne hne.symm, update_self]
    simp only [if_true]
    rw [free, update_comm hne, update_idem, ← h, update_eq_self]
  | @again a v n h =>
    have hne : b ≠ a := fun e => by rw [e, update_self] at hb; cases hb
    rw [release, decrement, update_of_ne hne.symm, update_self]
    simp only [Nat.reduceEqDiff, if_false, Nat.add_one_sub_one]
    rw [update_comm hne, update_idem, ← h, update_eq_self]

end Takes

section Many

variable {ι : Type} [Fintype ι]

def Counts (s : Store α β) (holds : ι → Hold α β) : Prop :=
  ∀ a, refs s a = ∑ i, if (holds i).place = some a then 1 else 0

variable [DecidableEq ι] {s s' : Store α β} {holds : ι → Hold α β}

lemma Counts.update (h : Counts s holds) {i : ι} {x : Hold α β} {g : Store α β}
    (hi : Takes g (holds i) s) (hx : Takes g x s') : Counts s' (Function.update holds i x) := by
  intro a
  have hsum : (∑ k, if (Function.update holds i x k).place = some a then 1 else 0)
      + (if (holds i).place = some a then 1 else 0)
      = (∑ k, if (holds k).place = some a then 1 else 0) + if x.place = some a then 1 else 0 := by
    have hrest : ∀ k ∈ univ.erase i,
        (if (Function.update holds i x k).place = some a then 1 else 0)
          = if (holds k).place = some a then 1 else 0 := by
      intro k hk
      rw [update_of_ne (ne_of_mem_erase hk)]
    rw [← add_sum_erase _ _ (mem_univ i), ← add_sum_erase _ _ (mem_univ i),
      sum_congr rfl hrest, update_self]
    omega
  have hs := hi.refs_eq a
  have hs' := hx.refs_eq a
  rw [h a] at hs
  omega

lemma Counts.swap (h : Counts s holds) (i j : ι) : Counts s (holds ∘ Equiv.swap i j) := by
  intro a
  rw [h a]
  exact (Equiv.sum_comp (Equiv.swap i j) fun k => if (holds k).place = some a then 1 else 0).symm

lemma Counts.two_le (h : Counts s holds) {i j : ι} (hne : j ≠ i) {a : α}
    (hi : (holds i).place = some a) (hj : (holds j).place = some a) : 2 ≤ refs s a := by
  rw [h a, ← add_sum_erase _ _ (mem_univ i),
    ← add_sum_erase _ _ (mem_erase.mpr ⟨hne, mem_univ j⟩), if_pos hi, if_pos hj]
  omega

lemma Counts.backed_release (h : Counts s holds) {i j : ι} (hne : j ≠ i) {g : Store α β}
    (hi : Takes g (holds i) s) (hj : Backed s (holds j)) : Backed g (holds j) := by
  have halone : ∀ b, (holds j).place = some b → g b = none → refs s b ≤ 1 → False := by
    intro b hjb hnone hle
    have hrefs := hi.refs_eq b
    have hg : refs g b = 0 := by rw [refs, hnone]
    by_cases hib : (holds i).place = some b
    · have := h.two_le hne hib hjb
      omega
    rw [if_neg hib, hg] at hrefs
    have hpos : 1 ≤ refs s b := by
      rw [h b, ← add_sum_erase _ _ (mem_univ j), if_pos hjb]
      omega
    omega
  cases hhold : holds j with
  | nothing => exact trivial
  | own b w =>
    rw [hhold] at hj halone
    have hj : s b = some (.owned w) := hj
    obtain heq | hnone | ⟨n, v, -, hs⟩ := hi.cases_at b
    · exact heq.symm.trans hj
    · exact (halone b rfl hnone (by rw [refs, hj])).elim
    · rw [hs] at hj
      cases hj
  | share b w =>
    rw [hhold] at hj halone
    obtain ⟨m, hj⟩ := hj
    obtain heq | hnone | ⟨n, v, hg, hs⟩ := hi.cases_at b
    · exact ⟨m, heq.symm.trans hj⟩
    · refine (halone b rfl hnone ?_).elim
      have hrefs := hi.refs_eq b
      have hg : refs g b = 0 := by rw [refs, hnone]
      split at hrefs <;> omega
    · rw [hs] at hj
      cases hj
      exact ⟨_, hg⟩

end Many

end Counted
