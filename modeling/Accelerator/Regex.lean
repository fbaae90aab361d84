import Mathlib

namespace Acc

open List

variable {α β : Type*}

inductive Regex (α : Type*)
  | one (p : α → Bool)
  | many (p : α → Bool)
  | seq (r s : Regex α)
  | alt (r s : Regex α)
  | opt (r : Regex α)
  | group (n : Nat) (r : Regex α)

namespace Regex

def char [DecidableEq α] (c : α) : Regex α := one (· = c)

def manyExcept [DecidableEq α] (l : List α) : Regex α := many (· ∉ l)

abbrev Captures (α : Type*) := Nat → List α

def greedy (p : α → Bool) (k : List α → Option β) : List α → Option β
  | [] => k []
  | c :: s => if p c then (greedy p k s).or (k (c :: s)) else k (c :: s)

def tryMatch : Regex α → List α → Captures α → (List α → Captures α → Option β) → Option β
  | one p, s, m, k =>
    match s with
    | [] => none
    | c :: s => if p c then k s m else none
  | many p, s, m, k => greedy p (fun s => k s m) s
  | seq r₁ r₂, s, m, k => r₁.tryMatch s m fun s m => r₂.tryMatch s m k
  | alt r₁ r₂, s, m, k => (r₁.tryMatch s m k).or (r₂.tryMatch s m k)
  | opt r, s, m, k => (r.tryMatch s m k).or (k s m)
  | group n r, s, m, k =>
    r.tryMatch s m fun s' m => k s' (Function.update m n (s.take (s.length - s'.length)))

def atEnd (s : List α) (m : Captures α) : Option (Captures α) := if s.isEmpty then some m else none

def fullMatch (r : Regex α) (s : List α) : Option (Captures α) := r.tryMatch s (fun _ => []) atEnd

lemma atEnd_cons (c : α) (s : List α) (m : Captures α) : atEnd (c :: s) m = none := rfl

section Equations

variable (s : List α) (m : Captures α) (k : List α → Captures α → Option β)

lemma tryMatch_one_of_pos {p : α → Bool} {c : α} (h : p c = true) :
    (one p).tryMatch (c :: s) m k = k s m := by
  rw [tryMatch, if_pos h]

lemma tryMatch_char_self [DecidableEq α] (c : α) : (char c).tryMatch (c :: s) m k = k s m :=
  tryMatch_one_of_pos s m k (decide_eq_true rfl)

lemma tryMatch_char_of_ne [DecidableEq α] {c d : α} (h : d ≠ c) :
    (char c).tryMatch (d :: s) m k = none := by
  rw [char, tryMatch, decide_eq_false h, if_neg Bool.false_ne_true]

lemma tryMatch_seq (r₁ r₂ : Regex α) :
    (seq r₁ r₂).tryMatch s m k = r₁.tryMatch s m fun s m => r₂.tryMatch s m k := rfl

lemma tryMatch_alt (r₁ r₂ : Regex α) :
    (alt r₁ r₂).tryMatch s m k = (r₁.tryMatch s m k).or (r₂.tryMatch s m k) := rfl

lemma tryMatch_opt (r : Regex α) : (opt r).tryMatch s m k = (r.tryMatch s m k).or (k s m) := rfl

lemma tryMatch_group (n : Nat) (r : Regex α) : (group n r).tryMatch s m k =
    r.tryMatch s m fun s' m => k s' (Function.update m n (s.take (s.length - s'.length))) := rfl

end Equations

lemma exists_run (p : α → Bool) (s : List α) :
    ∃ a b, s = a ++ b ∧ (∀ c ∈ a, p c = true) ∧ ∀ c ∈ b.head?, p c = false := by
  induction s with
  | nil => exact ⟨[], [], rfl, nofun, nofun⟩
  | cons c s ih =>
    cases hc : p c with
    | false => exact ⟨[], c :: s, rfl, nofun, fun d hd => Option.some.inj hd ▸ hc⟩
    | true =>
      obtain ⟨a, b, rfl, ha, hb⟩ := ih
      exact ⟨c :: a, b, rfl, forall_mem_cons.mpr ⟨hc, ha⟩, hb⟩

lemma take_length_sub (a b : List α) : (a ++ b).take ((a ++ b).length - b.length) = a := by
  rw [length_append, Nat.add_sub_cancel]
  exact take_left

variable {p : α → Bool} {a b : List α}

lemma greedy_eq {k : List α → Option β} (hk : ∀ c s, p c = true → k (c :: s) = none) (ha : ∀ c ∈ a, p c = true) (hb : ∀ c ∈ b.head?, p c = false) :
    greedy p k (a ++ b) = k b := by
  induction a with
  | nil =>
    cases b with
    | nil => rfl
    | cons c b => rw [nil_append, greedy, hb c rfl, if_neg Bool.false_ne_true]
  | cons c a ih =>
    have hc := ha c mem_cons_self
    rw [cons_append, greedy, if_pos hc, ih fun c hc => ha c (mem_cons_of_mem _ hc),
      hk c _ hc, Option.or_none]

variable {k : List α → Captures α → Option β}

lemma tryMatch_many (hk : ∀ c s m, p c = true → k (c :: s) m = none)
    (ha : ∀ c ∈ a, p c = true) (hb : ∀ c ∈ b.head?, p c = false) (m : Captures α) :
    (many p).tryMatch (a ++ b) m k = k b m :=
  greedy_eq (fun c s => hk c s m) ha hb

lemma tryMatch_group_many (hk : ∀ c s m, p c = true → k (c :: s) m = none) (n : Nat)
    (ha : ∀ c ∈ a, p c = true) (hb : ∀ c ∈ b.head?, p c = false) (m : Captures α) :
    (group n (many p)).tryMatch (a ++ b) m k = k b (Function.update m n a) := by
  rw [tryMatch_group, tryMatch_many _ ha hb, take_length_sub]
  exact fun c s m hc => hk c s _ hc

section Except

variable [DecidableEq α] {l : List α}

lemma exists_run_except (l s : List α) :
    ∃ a b, s = a ++ b ∧ (∀ c ∈ a, c ∉ l) ∧ ∀ c ∈ b.head?, c ∈ l := by
  obtain ⟨a, b, hs, ha, hb⟩ := exists_run (· ∉ l) s
  exact ⟨a, b, hs, fun c hc => of_decide_eq_true (ha c hc),
    fun c hc => not_not.mp (of_decide_eq_false (hb c hc))⟩

variable {k : List α → Captures α → Option β} (hk : ∀ c s m, c ∉ l → k (c :: s) m = none) {a b : List α}
  (ha : ∀ c ∈ a, c ∉ l) (hb : ∀ c ∈ b.head?, c ∈ l) (m : Captures α)
include hk ha hb

lemma tryMatch_manyExcept : (manyExcept l).tryMatch (a ++ b) m k = k b m :=
  tryMatch_many (fun c s m hc => hk c s m (of_decide_eq_true hc)) (fun c hc => decide_eq_true (ha c hc))
    (fun c hc => decide_eq_false (not_not.mpr (hb c hc))) m

lemma tryMatch_group_manyExcept (n : Nat) :
    (group n (manyExcept l)).tryMatch (a ++ b) m k = k b (Function.update m n a) :=
  tryMatch_group_many (fun c s m hc => hk c s m (of_decide_eq_true hc)) n
    (fun c hc => decide_eq_true (ha c hc)) (fun c hc => decide_eq_false (not_not.mpr (hb c hc))) m

end Except

end Regex

end Acc
