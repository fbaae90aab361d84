import Accelerator.Selection

namespace Acc.RendezvousHash

open List

open Selection

variable {S : Type} [LinearOrder S] (score : BitVec 64 → BitVec 64 → BitVec 64 → S)

def build (computeHash : List UInt8 → BitVec 64) (nodes : List (List UInt8 × BitVec 64)) :
    List (BitVec 64 × BitVec 64) :=
  nodes.map fun (key, weight) => (computeHash key, weight)

def greater (a b : S × Nat) : Bool := b.1 < a.1 || (!(decide (a.1 < b.1)) && b.2 < a.2)

def scaledWeights (weights : List (BitVec 64 × BitVec 64)) (key : BitVec 64) : List (S × Nat) :=
  weights.mapIdx fun i entry => (score entry.1 entry.2 key, i)

def get (nth : List (S × Nat) → Nat → List (S × Nat)) (weights : List (BitVec 64 × BitVec 64))
    (key : BitVec 64) (rank : Nat) : Option Nat :=
  let modRank := rank % weights.length
  (nth (scaledWeights score weights key) modRank)[modRank]?.map Prod.snd

def ranks (nth : List (S × Nat) → Nat → List (S × Nat)) (weights : List (BitVec 64 × BitVec 64))
    (key : BitVec 64) : List (Option Nat) :=
  (List.range weights.length).map (get score nth weights key)

lemma greater_eq_false {a b : S × Nat} : greater a b = false ↔ toLex a ≤ toLex b := by
  rw [Prod.Lex.toLex_le_toLex, greater, Bool.or_eq_false_iff, decide_eq_false_iff_not, not_lt]
  constructor
  · rintro ⟨hle, hsnd⟩
    obtain hlt | heq := hle.lt_or_eq
    · exact .inl hlt
    · refine .inr ⟨heq, ?_⟩
      simpa [heq] using hsnd
  · rintro (hlt | ⟨heq, hle⟩)
    · exact ⟨hlt.le, by simp [hlt]⟩
    · exact ⟨heq.le, by simp [heq, hle]⟩

lemma strictTotal_greater : StrictTotal (greater (S := S)) where
  total hab hba := toLex.injective (le_antisymm (greater_eq_false.mp hab) (greater_eq_false.mp hba))
  asymm {a b} hab := by
    rw [greater_eq_false]
    refine le_of_not_ge fun hle => ?_
    rw [greater_eq_false.mpr hle] at hab
    cases hab
  trans hba hcb := greater_eq_false.mpr ((greater_eq_false.mp hcb).trans (greater_eq_false.mp hba))

def ranking (weights : List (BitVec 64 × BitVec 64)) (key : BitVec 64) : List Nat :=
  (sort greater (scaledWeights score weights key)).map Prod.snd

variable {nth : List (S × Nat) → Nat → List (S × Nat)}

lemma get_eq (hnth : NthElement greater nth)
    (weights : List (BitVec 64 × BitVec 64)) (key : BitVec 64) (rank : Nat) :
    get score nth weights key rank = (ranking score weights key)[rank % weights.length]? := by
  rw [get, getElem?_nth strictTotal_greater hnth, ranking, getElem?_map]

lemma ranks_eq (hnth : NthElement greater nth)
    (weights : List (BitVec 64 × BitVec 64)) (key : BitVec 64) :
    ranks score nth weights key = (ranking score weights key).map some := by
  have hlength : (ranking score weights key).length = weights.length := by
    rw [ranking, length_map, (sort_perm _).length_eq, scaledWeights, length_mapIdx]
  rw [ranks]
  refine ext_getElem (by rw [length_map, length_map, length_range, hlength]) ?_
  intro i hi hi'
  rw [length_map, length_range] at hi
  rw [getElem_map, getElem_map, getElem_range, get_eq score hnth, Nat.mod_eq_of_lt hi,
    getElem?_eq_getElem]

lemma ranking_perm (weights : List (BitVec 64 × BitVec 64)) (key : BitVec 64) :
    (ranking score weights key).Perm (List.range weights.length) := by
  have hmap : (scaledWeights score weights key).map Prod.snd = List.range weights.length := by
    refine ext_getElem (by simp [scaledWeights]) ?_
    simp [scaledWeights]
  rw [← hmap]
  exact (sort_perm _).map _

def shift (r i : Nat) : Nat := if i < r then i else i + 1

lemma shift_lt_shift (r i j : Nat) : shift r i < shift r j ↔ i < j := by
  unfold shift
  split <;> split <;> omega

omit [LinearOrder S] in
lemma scaledWeights_append (a b : List (BitVec 64 × BitVec 64)) (key : BitVec 64) :
    scaledWeights score (a ++ b) key = scaledWeights score a key ++
      b.mapIdx fun i entry => (score entry.1 entry.2 key, i + a.length) :=
  mapIdx_append

omit [LinearOrder S] in
lemma filter_scaledWeights (a b : List (BitVec 64 × BitVec 64)) (x : BitVec 64 × BitVec 64)
    (key : BitVec 64) : (scaledWeights score (a ++ x :: b) key).filter (fun p => p.2 ≠ a.length)
      = (scaledWeights score (a ++ b) key).map fun p => (p.1, shift a.length p.2) := by
  have hfirst : ∀ p ∈ scaledWeights score a key, p.2 < a.length := by
    intro p hp
    obtain ⟨i, hi, rfl⟩ := mem_mapIdx.mp hp
    exact hi
  rw [scaledWeights_append, scaledWeights_append, mapIdx_cons, filter_append, map_append]
  congr 1
  · rw [filter_eq_self.mpr fun p hp => by simpa using (hfirst p hp).ne]
    refine (map_id _).symm.trans (map_congr_left fun p hp => ?_)
    rw [shift, if_pos (hfirst p hp)]
    rfl
  have hlast : ∀ p ∈ b.mapIdx fun i entry => (score entry.1 entry.2 key, i + 1 + a.length),
      a.length < p.2 := by
    intro p hp
    obtain ⟨i, hi, rfl⟩ := mem_mapIdx.mp hp
    omega
  rw [filter_cons_of_neg (by simp),
    filter_eq_self.mpr fun p hp => by simpa using (hlast p hp).ne']
  refine ext_getElem (by simp) ?_
  intro i hi hi'
  have hshift : shift a.length (i + a.length) = i + 1 + a.length := by
    rw [shift, if_neg (by omega)]
    omega
  simp [hshift]

lemma ranking_remove (a b : List (BitVec 64 × BitVec 64)) (x : BitVec 64 × BitVec 64) (key : BitVec 64) :
    (ranking score (a ++ b) key).map (shift a.length)
      = (ranking score (a ++ x :: b) key).filter (· ≠ a.length) := by
  have hgreater : ∀ p q : S × Nat,
      greater (p.1, shift a.length p.2) (q.1, shift a.length q.2) = greater p q := by
    intro p q
    simp only [greater, shift_lt_shift]
  have hsort := filter_sort strictTotal_greater (fun p => p.2 ≠ a.length)
    (scaledWeights score (a ++ x :: b) key)
  rw [filter_scaledWeights, ← map_sort strictTotal_greater hgreater] at hsort
  rw [ranking, ranking, filter_map, map_map]
  show _ = ((sort greater (scaledWeights score (a ++ x :: b) key)).filter (fun p => p.2 ≠ a.length)).map _
  rw [hsort, map_map]
  rfl

section Get

variable {nth : List (S × Nat) → Nat → List (S × Nat)} (hnth : NthElement greater nth)
include hnth

lemma get_append (a : List (BitVec 64 × BitVec 64)) (x : BitVec 64 × BitVec 64) (key : BitVec 64) :
    get score nth (a ++ [x]) key 0 = some a.length ∨
      get score nth (a ++ [x]) key 0 = get score nth a key 0 := by
  have hremove := ranking_remove score a [] x key
  rw [append_nil] at hremove
  have hsame : (ranking score a key).map (shift a.length) = ranking score a key := by
    refine (map_congr_left fun i hi => ?_).trans (map_id _)
    have hi := mem_range.mp ((ranking_perm score a key).mem_iff.mp hi)
    rw [shift, if_pos hi]
    rfl
  rw [get_eq score hnth, get_eq score hnth, Nat.zero_mod, Nat.zero_mod]
  cases hranking : ranking score (a ++ [x]) key with
  | nil =>
    have hlength := (ranking_perm score (a ++ [x]) key).length_eq
    simp [hranking] at hlength
  | cons i l =>
    by_cases hi : i = a.length
    · exact .inl (by rw [hi]; rfl)
    right
    rw [hranking, filter_cons_of_pos (by simpa using hi), hsame] at hremove
    rw [hremove]
    rfl

end Get

theorem get_minimal_disruption {nth : List (S × Nat) → Nat → List (S × Nat)}
    (hnth : NthElement greater nth) (computeHash : List UInt8 → BitVec 64) (key : BitVec 64) :
    (∀ nodes, (ranks score nth (build computeHash nodes) key).Perm
      ((List.range nodes.length).map some)) ∧
    (∀ a x b, (ranks score nth (build computeHash (a ++ b)) key).map (Option.map (shift a.length))
      = (ranks score nth (build computeHash (a ++ x :: b)) key).filter (· ≠ some a.length)) ∧
    ∀ a x, get score nth (build computeHash (a ++ [x])) key 0 = some a.length ∨
      get score nth (build computeHash (a ++ [x])) key 0 = get score nth (build computeHash a) key 0 := by
  have hlength : ∀ nodes, (build computeHash nodes).length = nodes.length := fun _ => length_map _
  refine ⟨?_, ?_, ?_⟩
  · intro nodes
    rw [ranks_eq score hnth, ← hlength]
    exact (ranking_perm score _ key).map some
  · intro a x b
    have hremove := ranking_remove score (build computeHash a) (build computeHash b)
    rw [hlength] at hremove
    rw [ranks_eq score hnth, ranks_eq score hnth, map_map, filter_map]
    have hbuild : ∀ c d, build computeHash (c ++ d) = build computeHash c ++ build computeHash d :=
      fun c d => map_append
    rw [hbuild, hbuild]
    calc (ranking score (build computeHash a ++ build computeHash b) key).map
          (Option.map (shift a.length) ∘ some)
        = ((ranking score (build computeHash a ++ build computeHash b) key).map (shift a.length)).map
            some := by
          rw [map_map]
          rfl
      _ = ((ranking score (build computeHash a ++ (computeHash x.1, x.2) :: build computeHash b)
            key).filter (· ≠ a.length)).map some := by rw [hremove]
      _ = _ := by
          refine congrArg (List.map some) (filter_congr fun i _ => ?_)
          simp
  · intro a x
    have happend := get_append score hnth (build computeHash a) (computeHash x.1, x.2) key
    rw [hlength] at happend
    rw [build, map_append]
    exact happend

theorem get_minimal_disruption_sort :
    let score := fun h w k : BitVec 64 => (h * w + k).toNat
    let nth := fun (l : List (Nat × Nat)) (_ : Nat) => sort greater l
    let hash := fun name : List UInt8 => BitVec.ofNat 64 name.length
    let a := ([97], 3)
    let b := ([98, 98], 2)
    let c := ([99], 5)
    (ranks score nth (build hash [a, b, c]) 7).Perm ([0, 1, 2].map some) ∧
    (ranks score nth (build hash [a, c]) 7).map (Option.map (shift 1))
      = (ranks score nth (build hash [a, b, c]) 7).filter (· ≠ some 1) ∧
    (get score nth (build hash [a, b, c]) 7 0 = some 2 ∨
      get score nth (build hash [a, b, c]) 7 0 = get score nth (build hash [a, b]) 7 0) := by
  intro score nth hash a b c
  obtain ⟨hall, hremove, happend⟩ :=
    get_minimal_disruption score (nthElement_sort strictTotal_greater) hash 7
  exact ⟨hall [a, b, c], hremove [a] b [c], happend [a, b] c⟩

end Acc.RendezvousHash
