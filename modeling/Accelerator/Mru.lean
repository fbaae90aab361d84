import Mathlib

namespace Mru

open List

variable {K V σ E : Type*} [DecidableEq K]

def Distinct (l : List (K × V)) : Prop := (l.map Prod.fst).Nodup

def find (k : K) (l : List (K × V)) : Option V :=
  (l.find? fun e => decide (e.1 = k)).map Prod.snd

def remove (k : K) (l : List (K × V)) : List (K × V) := l.filter fun e => decide (e.1 ≠ k)

def promote (k : K) (v : V) (l : List (K × V)) : List (K × V) := (k, v) :: remove k l

def assign (k : K) (v : V) (l : List (K × V)) : List (K × V) :=
  l.map fun e => if e.1 = k then (k, v) else e

def evict (tell : K → V → σ → Option E × σ) (ignored : Bool) :
    Nat → List (K × V) → σ → List (K × V) × σ × Option E
  | 0, l, w => (l, w, none)
  | n + 1, l, w =>
    match l.getLast? with
    | none => (l, w, none)
    | some (k, v) =>
      match tell k v w with
      | (none, w) => evict tell ignored n l.dropLast w
      | (some e, w) =>
        if ignored then evict tell ignored n l.dropLast w else (l.dropLast, w, some e)

variable {l : List (K × V)}

lemma map_fst_assign (k : K) (v : V) (l : List (K × V)) :
    (assign k v l).map Prod.fst = l.map Prod.fst := by
  rw [assign, map_map]
  refine map_congr_left ?_
  intro e _
  simp only [Function.comp_apply]
  split
  · rename_i h
    exact h.symm
  · rfl

lemma Distinct.assign (h : Distinct l) (k : K) (v : V) : Distinct (assign k v l) := by
  rw [Distinct, map_fst_assign]
  exact h

@[simp] lemma find_nil (k : K) : find k ([] : List (K × V)) = none := rfl

lemma find_cons (k : K) (e : K × V) (l : List (K × V)) :
    find k (e :: l) = if e.1 = k then some e.2 else find k l := by
  unfold find
  by_cases h : e.1 = k
  · simp [h]
  · simp [h]

variable {k : K} {v : V}

lemma mem_of_find (h : find k l = some v) : (k, v) ∈ l := by
  obtain ⟨e, he, rfl⟩ := Option.map_eq_some_iff.mp h
  have hk : e.1 = k := by simpa using find?_some he
  rw [← hk]
  exact mem_of_find?_eq_some he

lemma find_eq_some (hd : Distinct l) : find k l = some v ↔ (k, v) ∈ l := by
  refine ⟨mem_of_find, ?_⟩
  induction l with
  | nil => intro h; cases h
  | cons e l ih =>
    intro h
    obtain ⟨hnot, hd⟩ := nodup_cons.mp hd
    rw [find_cons]
    rcases mem_cons.mp h with rfl | h
    · simp
    · rw [if_neg, ih hd h]
      intro heq
      exact hnot (heq ▸ mem_map_of_mem h)

lemma find_eq_none : find k l = none ↔ k ∉ l.map Prod.fst := by
  unfold find
  rw [Option.map_eq_none_iff, find?_eq_none, mem_map]
  constructor
  · rintro h ⟨e, he, hk⟩
    exact h e he (by simpa using hk)
  · intro h e he hk
    exact h ⟨e, he, by simpa using hk⟩

lemma mem_remove {e : K × V} : e ∈ remove k l ↔ e ∈ l ∧ e.1 ≠ k := by
  simp [remove, mem_filter]

lemma mem_promote {e : K × V} : e ∈ promote k v l ↔ e = (k, v) ∨ e ∈ l ∧ e.1 ≠ k := by
  rw [promote, mem_cons, mem_remove]

lemma length_promote_le {u : V} (h : find k l = some u) (v : V) :
    (promote k v l).length ≤ l.length := by
  exact length_filter_lt_length_iff_exists.mpr ⟨_, mem_of_find h, by simp⟩

lemma remove_of_find_eq_none (h : find k l = none) : remove k l = l := by
  refine filter_eq_self.mpr ?_
  intro e he
  have hne : e.1 ≠ k := fun heq => find_eq_none.mp h (heq ▸ mem_map_of_mem he)
  simpa using hne

lemma mem_assign {e : K × V} (h : e ∈ assign k v l) : e = (k, v) ∨ e ∈ l ∧ e.1 ≠ k := by
  obtain ⟨d, hd, rfl⟩ := mem_map.mp h
  by_cases hk : d.1 = k
  · exact .inl (if_pos hk)
  · rw [if_neg hk]
    exact .inr ⟨hd, hk⟩

lemma remove_assign (k : K) (v : V) (l : List (K × V)) : remove k (assign k v l) = remove k l := by
  induction l with
  | nil => rfl
  | cons e l ih =>
    unfold remove assign at ih ⊢
    by_cases h : e.1 = k
    · simpa [h] using ih
    · simpa [h] using ih

lemma promote_assign (k : K) (u v : V) (l : List (K × V)) :
    promote k v (assign k u l) = promote k v l := by
  rw [promote, remove_assign, promote]

lemma Distinct.remove_last (h : Distinct (l ++ [(k, v)])) : Mru.remove k (l ++ [(k, v)]) = l := by
  rw [Distinct, map_append, nodup_append] at h
  rw [Mru.remove, filter_append, filter_cons_of_neg (by simp), filter_nil,
    append_nil]
  refine filter_eq_self.mpr ?_
  intro e he
  have hne : e.1 ≠ k := h.2.2 e.1 (mem_map_of_mem he) k (by simp)
  simpa using hne

omit [DecidableEq K] in
lemma evict_eq_take (tell : K → V → σ → Option E × σ) (ignored : Bool) (n : Nat)
    (l : List (K × V)) (w : σ) :
    ∃ m, l.length - n ≤ m ∧ (evict tell ignored n l w).1 = l.take m := by
  induction n generalizing l w with
  | zero => exact ⟨l.length, Nat.le_refl _, (take_length).symm⟩
  | succ n ih =>
    have hrest : ∀ w, ∃ m, l.length - (n + 1) ≤ m ∧
        (evict tell ignored n l.dropLast w).1 = l.take m := by
      intro w
      obtain ⟨m, hm, heq⟩ := ih l.dropLast w
      rw [length_dropLast] at hm
      rw [heq, dropLast_eq_take, take_take]
      exact ⟨min m (l.length - 1), by omega, rfl⟩
    rw [evict]
    cases l.getLast? with
    | none => exact ⟨l.length, by omega, (take_length).symm⟩
    | some e =>
      dsimp only
      split
      · exact hrest _
      · split
        · exact hrest _
        · exact ⟨l.length - 1, by omega, dropLast_eq_take⟩

omit [DecidableEq K] in
lemma evict_silent (ignored : Bool) (n : Nat) (l : List (K × V)) (w : σ) :
    evict (fun _ _ w => ((none : Option E), w)) ignored n l w = (l.take (l.length - n), w, none) := by
  induction n generalizing l with
  | zero => rw [evict, Nat.sub_zero, take_length]
  | succ n ih =>
    rw [evict]
    cases hl : l.getLast? with
    | none =>
      rw [getLast?_eq_none_iff.mp hl, take_nil]
    | some e =>
      dsimp only
      rw [ih, length_dropLast, dropLast_eq_take, take_take]
      congr 2
      omega

omit [DecidableEq K] in
lemma length_evict_succ_le (tell : K → V → σ → Option E × σ) (ignored : Bool) (n : Nat)
    (l : List (K × V)) (w : σ) : (evict tell ignored (n + 1) l w).1.length ≤ l.length - 1 := by
  have hrest : ∀ w, (evict tell ignored n l.dropLast w).1.length ≤ l.length - 1 := by
    intro w
    obtain ⟨m, -, heq⟩ := evict_eq_take tell ignored n l.dropLast w
    rw [heq, length_take, length_dropLast]
    exact Nat.min_le_right _ _
  rw [evict]
  cases hl : l.getLast? with
  | none =>
    rw [getLast?_eq_none_iff.mp hl]
    exact Nat.zero_le _
  | some e =>
    dsimp only
    split
    · exact hrest _
    · split
      · exact hrest _
      · exact length_dropLast.le

omit [DecidableEq K] in
lemma evict_of_none {tell : K → V → σ → Option E × σ} {ignored : Bool} {n : Nat}
    {l : List (K × V)} {w : σ} (h : (evict tell ignored n l w).2.2 = none) :
    (evict tell ignored n l w).1 = l.take (l.length - n) := by
  induction n generalizing l w with
  | zero => rw [evict, Nat.sub_zero, take_length]
  | succ n ih =>
    have hrest : ∀ w, (evict tell ignored n l.dropLast w).2.2 = none →
        (evict tell ignored n l.dropLast w).1 = l.take (l.length - (n + 1)) := by
      intro w hw
      rw [ih hw, length_dropLast, dropLast_eq_take, take_take]
      congr 1
      omega
    rw [evict] at h ⊢
    cases hl : l.getLast? with
    | none => rw [getLast?_eq_none_iff.mp hl, take_nil]
    | some e =>
      rw [hl] at h
      dsimp only at h ⊢
      split at h
      · exact hrest _ h
      · cases ignored with
        | true => exact hrest _ h
        | false => cases h

end Mru
