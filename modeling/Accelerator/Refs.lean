import Mathlib

namespace Refs

open Function Multiset Finset

section Counting

variable {ρ κ : Type} [DecidableEq κ] (key : ρ → Option κ)

def refs (k : κ) (M : Multiset ρ) : Nat := M.countP fun r => key r = some k

@[simp] lemma refs_zero (k : κ) : refs key k 0 = 0 := countP_zero _

@[simp] lemma refs_cons (k : κ) (r : ρ) (M : Multiset ρ) :
    refs key k (r ::ₘ M) = refs key k M + if key r = some k then 1 else 0 :=
  countP_cons _ r M

@[simp] lemma refs_add (k : κ) (M N : Multiset ρ) :
    refs key k (M + N) = refs key k M + refs key k N :=
  countP_add _ M N

lemma refs_le_card (k : κ) (M : Multiset ρ) : refs key k M ≤ M.card :=
  countP_le_card _ M

lemma refs_eq_zero {k : κ} {M : Multiset ρ} : refs key k M = 0 ↔ ∀ r ∈ M, key r ≠ some k :=
  countP_eq_zero

lemma refs_pos {k : κ} {M : Multiset ρ} {r : ρ} (h : r ∈ M) (hr : key r = some k) :
    0 < refs key k M :=
  countP_pos.mpr ⟨r, h, hr⟩

end Counting

section Flag

variable {ρ κ : Type} [DecidableEq κ] {key : ρ → Option κ} {flag : ρ → Bool}

def FlagSound (key : ρ → Option κ) (flag : ρ → Bool) (M : Multiset ρ) : Prop :=
  ∀ r ∈ M, ∀ k, key r = some k → flag r = false → refs key k M = 1

lemma flagSound_zero : FlagSound key flag 0 := fun _ h => absurd h (notMem_zero _)

variable {r r' : ρ} {M : Multiset ρ}

lemma FlagSound.alone (h : FlagSound key flag (r ::ₘ M)) {k : κ}
    (hr : key r = some k) (hflag : flag r = false) : refs key k M = 0 := by
  have hone := h r (mem_cons_self r M) k hr hflag
  rw [refs_cons, if_pos hr] at hone
  exact Nat.succ.inj hone

lemma FlagSound.fresh (h : FlagSound key flag M) {k : κ}
    (hr : key r = some k) (hfresh : refs key k M = 0) : FlagSound key flag (r ::ₘ M) := by
  intro s hs j hj hflag
  rw [refs_cons]
  rcases mem_cons.mp hs with rfl | hs
  · have hkj : k = j := Option.some.inj (hr.symm.trans hj)
    rw [if_pos hj, ← hkj, hfresh]
  have hne : key r ≠ some j := by
    rintro heq
    have hkj : k = j := Option.some.inj (hr.symm.trans heq)
    exact absurd (refs_pos key hs hj) (by rw [← hkj, hfresh]; exact lt_irrefl 0)
  rw [if_neg hne, h s hs j hj hflag]

lemma FlagSound.uncounted (h : FlagSound key flag M)
    (hr : key r = none) : FlagSound key flag (r ::ₘ M) := by
  have hne : ∀ j, key r ≠ some j := fun j hj => by rw [hr] at hj; cases hj
  intro s hs j hj hflag
  rw [refs_cons, if_neg (hne j)]
  rcases mem_cons.mp hs with rfl | hs
  · exact absurd hj (hne j)
  · exact h s hs j hj hflag

lemma FlagSound.of_cons (h : FlagSound key flag (r ::ₘ M)) : FlagSound key flag M := by
  intro s hs j hj hflag
  have hone := h s (mem_cons_of_mem hs) j hj hflag
  have hpos := refs_pos key hs hj
  rw [refs_cons] at hone
  omega

lemma FlagSound.copy {s : ρ} (h : FlagSound key flag (r ::ₘ M))
    (hr' : key r' = key r) (hs : key s = key r) (hflag' : flag r' = true) (hflag : flag s = true) :
    FlagSound key flag (r' ::ₘ s ::ₘ M) := by
  intro t ht j hj hfalse
  rcases mem_cons.mp ht with rfl | ht
  · rw [hflag'] at hfalse
    cases hfalse
  rcases mem_cons.mp ht with rfl | ht
  · rw [hflag] at hfalse
    cases hfalse
  have hone := h t (mem_cons_of_mem ht) j hj hfalse
  have hpos := refs_pos key ht hj
  rw [refs_cons] at hone
  rw [refs_cons, refs_cons, hr', hs]
  have hne : key r ≠ some j := by
    rintro heq
    rw [if_pos heq] at hone
    omega
  rw [if_neg hne] at hone ⊢
  exact hone

lemma FlagSound.swap (h : FlagSound key flag (r ::ₘ M)) (hr' : key r' = key r)
    (hflag : flag r = true → flag r' = false → ∀ k, key r = some k → refs key k M = 0) :
    FlagSound key flag (r' ::ₘ M) := by
  intro s hs j hj hfalse
  rw [refs_cons, hr']
  rcases mem_cons.mp hs with rfl | hs
  · have hj' : key r = some j := hr'.symm.trans hj
    rw [if_pos hj']
    cases hr : flag r with
    | true => rw [hflag hr hfalse j hj']
    | false => rw [h.alone hj' hr]
  · have hone := h s (mem_cons_of_mem hs) j hj hfalse
    rwa [refs_cons] at hone

end Flag

section Containers

variable {ι α : Type} [Fintype ι] [DecidableEq ι]

def total (f : ι → List α) : Multiset α := ∑ i, (f i : Multiset α)

lemma exists_rest (f : ι → List α) (i : ι) :
    ∃ M, total f = ↑(f i) + M ∧ (∀ c, total (update f i c) = ↑c + M) ∧
      ∀ l, l ≠ i → ∀ a ∈ f l, a ∈ M := by
  refine ⟨∑ j ∈ univ.erase i, (f j : Multiset α), ?_, ?_, ?_⟩
  · exact (add_sum_erase _ _ (mem_univ i)).symm
  · intro c
    rw [total, ← add_sum_erase _ _ (mem_univ i), update_self]
    congr 1
    refine sum_congr rfl fun j hj => ?_
    rw [update_of_ne (ne_of_mem_erase hj)]
  · intro l hl a ha
    exact mem_sum.mpr ⟨l, mem_erase.mpr ⟨hl, mem_univ l⟩, ha⟩

lemma exists_rest₂ (f : ι → List α) {i j : ι} (hij : i ≠ j) : ∃ M, total f = ↑(f i) + ↑(f j) + M ∧
      (∀ c d, total (update (update f i c) j d) = ↑c + ↑d + M) ∧
      ∀ l, l ≠ i → l ≠ j → ∀ a ∈ f l, a ∈ M := by
  have hj : j ∈ univ.erase i := mem_erase.mpr ⟨hij.symm, mem_univ j⟩
  refine ⟨∑ l ∈ (univ.erase i).erase j, (f l : Multiset α), ?_, ?_, ?_⟩
  · rw [total, ← add_sum_erase _ _ (mem_univ i), ← add_sum_erase _ _ hj,
      add_assoc]
  · intro c d
    rw [total, ← add_sum_erase _ _ (mem_univ i), ← add_sum_erase _ _ hj,
      update_of_ne hij, update_self, update_self, add_assoc]
    congr 2
    refine sum_congr rfl fun l hl => ?_
    obtain ⟨hlj, hl⟩ := mem_erase.mp hl
    rw [update_of_ne hlj, update_of_ne (ne_of_mem_erase hl)]
  · intro l hli hlj a ha
    exact mem_sum.mpr ⟨l, mem_erase.mpr ⟨hlj,
      mem_erase.mpr ⟨hli, mem_univ l⟩⟩, ha⟩

end Containers

end Refs
