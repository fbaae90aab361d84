import Accelerator.Range.Find

namespace Acc.Range

open Function List

structure FastByteSet where
  size : Nat
  sparse : UInt8 → UInt8
  dense : UInt8 → UInt8

namespace FastByteSet

variable {s : FastByteSet} {i : UInt8}

def contains (s : FastByteSet) (i : UInt8) : Bool :=
  (s.sparse i).toNat < s.size && s.dense (s.sparse i) == i

def add (s : FastByteSet) (i : UInt8) : Option FastByteSet :=
  if !s.contains i then
    if s.size < 256 then
      some ⟨s.size + 1, update s.sparse i s.size.toUInt8, update s.dense s.size.toUInt8 i⟩
    else none
  else some s

def Inv (s : FastByteSet) : Prop :=
  s.size ≤ 256 ∧ ∀ j : UInt8, j.toNat < s.size → s.sparse (s.dense j) = j

lemma contains_iff (h : s.Inv) :
    s.contains i = true ↔ ∃ j : UInt8, j.toNat < s.size ∧ s.dense j = i := by
  rw [contains, Bool.and_eq_true, decide_eq_true_eq, beq_iff_eq]
  constructor
  · intro hi
    exact ⟨s.sparse i, hi⟩
  · rintro ⟨j, hj, rfl⟩
    rw [h.2 j hj]
    exact ⟨hj, rfl⟩

lemma size_lt (h : s.Inv) (hi : s.contains i = false) : s.size < 256 := by
  apply lt_of_le_of_ne h.1
  intro hfull
  have hinv : LeftInverse s.sparse s.dense := by
    intro j
    apply h.2 j
    rw [hfull]
    exact j.toNat_lt
  obtain ⟨j, hj⟩ := Finite.surjective_of_injective hinv.injective i
  have hmem := (contains_iff h).mpr ⟨j, hfull ▸ j.toNat_lt, hj⟩
  exact Bool.false_ne_true (hi.symm.trans hmem)

lemma add_spec (h : s.Inv) (i : UInt8) :
    ∃ s', s.add i = some s' ∧ s'.Inv ∧ ∀ x, s'.contains x = true ↔ s.contains x = true ∨ x = i := by
  cases hi : s.contains i with
  | true =>
    refine ⟨s, by simp [add, hi], h, ?_⟩
    rintro x
    constructor
    · exact Or.inl
    · rintro (hx | rfl)
      · exact hx
      · exact hi
  | false =>
    have hlt := size_lt h hi
    have hk : s.size.toUInt8.toNat = s.size := by
      simp only [Nat.toUInt8_eq, UInt8.toNat_ofNat']
      omega
    have hcell (j : UInt8) : j.toNat < s.size + 1 ↔ j.toNat < s.size ∨ j = s.size.toUInt8 := by
      rw [← UInt8.toNat_inj, hk]
      omega
    have hold (j : UInt8) (hj : j.toNat < s.size) : j ≠ s.size.toUInt8 := by
      rintro rfl
      omega
    have hnew (j : UInt8) (hj : j.toNat < s.size) : s.dense j ≠ i := by
      intro hji
      exact Bool.false_ne_true (hi.symm.trans ((contains_iff h).mpr ⟨j, hj, hji⟩))
    have hinv : Inv ⟨s.size + 1, update s.sparse i s.size.toUInt8,
        update s.dense s.size.toUInt8 i⟩ := by
      refine ⟨hlt, ?_⟩
      intro j hj
      rcases (hcell j).mp hj with hj | rfl
      · simp [hold j hj, hnew j hj, h.2 j hj]
      · simp
    refine ⟨_, by simp [add, hi, hlt], hinv, ?_⟩
    intro x
    rw [contains_iff hinv, contains_iff h]
    constructor
    · rintro ⟨j, hj, rfl⟩
      rcases (hcell j).mp hj with hj | rfl
      · exact Or.inl ⟨j, hj, by simp [hold j hj]⟩
      · exact Or.inr (by simp)
    · rintro (⟨j, hj, rfl⟩ | rfl)
      · exact ⟨j, (hcell j).mpr (Or.inl hj), by simp [hold j hj]⟩
      · exact ⟨_, (hcell _).mpr (Or.inr rfl), by simp⟩

lemma foldlM_add (l : List UInt8) (h : s.Inv) : ∃ s', l.foldlM add s = some s' ∧
      ∀ x, s'.contains x = true ↔ s.contains x = true ∨ x ∈ l := by
  induction l generalizing s with
  | nil => exact ⟨s, rfl, by simp⟩
  | cons i l ih =>
    obtain ⟨s₁, hadd, hinv, hmem⟩ := add_spec h i
    obtain ⟨s', hrun, hall⟩ := ih hinv
    refine ⟨s', by simp [hadd, hrun], ?_⟩
    intro x
    rw [hall, hmem, mem_cons, or_assoc]

end FastByteSet

open FastByteSet

def qfindFirstByteOfByteset (sparse dense : UInt8 → UInt8) (haystack needles : List UInt8) :
    Option (Option Nat) := do
  let s ← needles.foldlM add ⟨0, sparse, dense⟩
  pure (haystack.findIdx? s.contains)

def qfindFirstOf {α : Type} (eq : α → α → Bool) (haystack needles : List α) : Option Nat :=
  haystack.findIdx? fun b => needles.any fun needle => eq b needle

def qfindFirstByteOfNosse (sparse dense : UInt8 → UInt8) (haystack needles : List UInt8) :
    Option (Option Nat) :=
  if needles.isEmpty || haystack.isEmpty then some none
  else if (needles.length ≥ 4 && haystack.length ≤ 10) ||
      (needles.length ≥ 16 && haystack.length ≤ 64) || needles.length ≥ 32 then
    qfindFirstByteOfByteset sparse dense haystack needles
  else some (qfindFirstOf (· == ·) haystack needles)

lemma addAll_spec (sparse dense : UInt8 → UInt8) (l : List UInt8) :
    ∃ s, l.foldlM add ⟨0, sparse, dense⟩ = some s ∧ ∀ i, s.contains i = true ↔ i ∈ l := by
  have hinv : Inv ⟨0, sparse, dense⟩ := ⟨by simp, by simp⟩
  obtain ⟨s, hrun, hmem⟩ := foldlM_add l hinv
  refine ⟨s, hrun, ?_⟩
  intro i
  rw [hmem]
  simp [FastByteSet.contains]

lemma qfindFirstByteOfNosse_eq (sparse dense : UInt8 → UInt8) (haystack needles : List UInt8) :
    qfindFirstByteOfNosse sparse dense haystack needles =
      some (haystack.findIdx? (· ∈ needles)) := by
  rw [qfindFirstByteOfNosse]
  split
  · rename_i hempty
    rcases Bool.or_eq_true _ _ ▸ hempty with h | h
    · rw [isEmpty_iff.mp h]
      exact congrArg some (findIdx?_eq_none_iff.mpr (by simp)).symm
    · simp [isEmpty_iff.mp h]
  split
  · obtain ⟨s, hrun, hmem⟩ := addAll_spec sparse dense needles
    have hfun : s.contains = fun b => decide (b ∈ needles) := by
      funext b
      rw [Bool.eq_iff_iff, hmem, decide_eq_true_eq]
    simp [qfindFirstByteOfByteset, hrun, hfun]
  · simp [qfindFirstOf, any_beq]

lemma first_findIdx? {α : Type} (p : α → Bool) (l : List α) :
    First (fun k => ∃ b, p b = true ∧ l[k]? = some b) 0 (l.findIdx? p) := by
  cases h : l.findIdx? p with
  | none =>
    rintro k - ⟨b, hb, hk⟩
    have hno := findIdx?_eq_none_iff.mp h b (mem_of_getElem? hk)
    exact Bool.false_ne_true (hno.symm.trans hb)
  | some r =>
    obtain ⟨hr, hp, hleast⟩ := findIdx?_eq_some_iff_getElem.mp h
    refine ⟨Nat.zero_le r, ⟨l[r], hp, getElem?_eq_getElem hr⟩, ?_⟩
    rintro k - hkr ⟨b, hb, hk⟩
    obtain ⟨hlt, rfl⟩ := List.getElem?_eq_some_iff.mp hk
    exact hleast k hkr hb

theorem fastByteSet_spec (sparse dense : UInt8 → UInt8) :
    (∀ l : List UInt8, ∃ s, l.foldlM add ⟨0, sparse, dense⟩ = some s ∧
      ∀ i, s.contains i = true ↔ i ∈ l) ∧
    ∀ haystack needles : List UInt8, ∃ r,
      qfindFirstByteOfNosse sparse dense haystack needles = some r ∧
        First (fun k => ∃ b, b ∈ needles ∧ haystack[k]? = some b) 0 r := by
  refine ⟨addAll_spec sparse dense, ?_⟩
  intro haystack needles
  refine ⟨_, qfindFirstByteOfNosse_eq sparse dense haystack needles, ?_⟩
  have hfirst := first_findIdx? (· ∈ needles) haystack
  simpa only [decide_eq_true_eq] using hfirst

end Acc.Range
