import Accelerator.Delimited

namespace Acc.Range

open List

section

variable {α : Type} (eq : α → α → Bool) (haystack needle : List α)

def skipLoop (nsize1 : Nat) (hn : nsize1 < needle.length) (skip : Nat) : Nat :=
  if hskip : skip ≤ nsize1 then
    have hback : nsize1 - skip < needle.length := by omega
    if !eq needle[nsize1 - skip] needle[nsize1] then skipLoop nsize1 hn (skip + 1) else skip
  else skip
termination_by nsize1 + 1 - skip

def scanLast (nsize1 : Nat) (hn : nsize1 < needle.length) (i : Nat)
    (hi : i + nsize1 < haystack.length) : Option Nat :=
  if !eq haystack[i + nsize1] needle[nsize1] then
    if hend : i + 1 + nsize1 = haystack.length then none
    else scanLast nsize1 hn (i + 1) (by omega)
  else some i
termination_by haystack.length - i

def pedestrian (nsize1 : Nat) (i : Nat) (hi : i + nsize1 < haystack.length) (j : Nat)
    (hj : j ≤ nsize1) (hn : nsize1 + 1 = needle.length) : Bool :=
  if !eq haystack[i + j] needle[j] then false
  else if hdone : j + 1 = needle.length then true
  else pedestrian nsize1 i hi (j + 1) (by omega) hn
termination_by nsize1 - j

variable {eq haystack needle}

variable {nsize1 : Nat}

lemma scanLast_bounds {hn : nsize1 < needle.length} {i : Nat}
    {hi : i + nsize1 < haystack.length} {i' : Nat}
    (h : scanLast eq haystack needle nsize1 hn i hi = some i') :
    i ≤ i' ∧ i' + nsize1 < haystack.length := by
  fun_induction scanLast eq haystack needle nsize1 hn i hi with
  | case1 i hi hne hend => cases h
  | case2 i hi hne hend ih =>
    have hnext := ih h
    exact ⟨by omega, hnext.2⟩
  | case3 i hi heq =>
    cases h
    exact ⟨Nat.le_refl _, hi⟩

lemma le_skipLoop (hn : nsize1 < needle.length) (skip : Nat) :
    skip ≤ skipLoop eq needle nsize1 hn skip := by
  fun_induction skipLoop eq needle nsize1 hn skip with
  | case1 skip hskip hback hne ih => omega
  | case2 skip hskip hback heq | case3 skip hskip => exact Nat.le_refl _

variable (eq haystack needle)

def lazySkip (nsize1 : Nat) (hn : nsize1 < needle.length) (skip : Nat) : Nat :=
  if skip = 0 then skipLoop eq needle nsize1 hn 1 else skip

lemma lazySkip_pos (hn : nsize1 < needle.length) (skip : Nat) :
    0 < lazySkip eq needle nsize1 hn skip := by
  unfold lazySkip
  split
  · exact le_skipLoop hn 1
  · omega

def search (nsize1 : Nat) (hn : nsize1 + 1 = needle.length) (i skip : Nat) : Option Nat :=
  if hi : i + nsize1 < haystack.length then
    match hscan : scanLast eq haystack needle nsize1 hn.le i hi with
    | none => none
    | some i' =>
      have hi' := scanLast_bounds hscan
      if pedestrian eq haystack needle nsize1 i' hi'.2 0 (Nat.zero_le _) hn then some i'
      else
        let skip' := lazySkip eq needle nsize1 hn.le skip
        search nsize1 hn (i' + skip') skip'
  else none
termination_by haystack.length - i
decreasing_by
  have hpos := lazySkip_pos eq needle hn.le skip
  omega

def qfind : Option Nat :=
  if haystack.length < needle.length then none
  else if hsize : needle.length = 0 then some 0
  else search eq haystack needle (needle.length - 1) (by omega) 0 0

end

section

variable {α : Type} (eq : α → α → Bool) (haystack needle : List α)

def Occurs (i : Nat) : Prop :=
  ∀ j y, needle[j]? = some y → ∃ x, haystack[i + j]? = some x ∧ eq x y = true

def First (P : Nat → Prop) (i : Nat) : Option Nat → Prop
  | none => ∀ k, i ≤ k → ¬ P k
  | some r => i ≤ r ∧ P r ∧ ∀ k, i ≤ k → k < r → ¬ P k

variable {eq haystack needle}

variable {i nsize1 skip : Nat}

lemma First.step {P : Nat → Prop} {i' : Nat} {r : Option Nat} (h : First P i' r) (hle : i ≤ i')
    (hskip : ∀ k, i ≤ k → k < i' → ¬ P k) : First P i r := by
  cases r with
  | none =>
    intro k hk
    rcases Nat.lt_or_ge k i' with hlt | hge
    · exact hskip k hk hlt
    · exact h k hge
  | some r =>
    refine ⟨Nat.le_trans hle h.1, h.2.1, ?_⟩
    intro k hk hkr
    rcases Nat.lt_or_ge k i' with hlt | hge
    · exact hskip k hk hlt
    · exact h.2.2 k hge hkr

lemma First.unique {P : Nat → Prop} {r r' : Option Nat} (h : First P i r)
    (h' : First P i r') : r = r' := by
  cases r with
  | none =>
    cases r' with
    | none => rfl
    | some b => exact absurd h'.2.1 (h b h'.1)
  | some a =>
    cases r' with
    | none => exact absurd h.2.1 (h' a h.1)
    | some b =>
      rcases Nat.lt_trichotomy a b with hlt | heq | hgt
      · exact absurd h.2.1 (h'.2.2 a h.1 hlt)
      · rw [heq]
      · exact absurd h'.2.1 (h.2.2 b h'.1 hgt)

lemma Occurs.last (h : Occurs eq haystack needle i) (hn : nsize1 < needle.length) :
    ∃ hi : i + nsize1 < haystack.length, eq haystack[i + nsize1] needle[nsize1] = true := by
  obtain ⟨x, hx, hxy⟩ := h nsize1 needle[nsize1] (List.getElem?_eq_getElem hn)
  obtain ⟨hi, hget⟩ := List.getElem?_eq_some_iff.mp hx
  rw [← hget] at hxy
  exact ⟨hi, hxy⟩

variable {hi : i + nsize1 < haystack.length} {hn : nsize1 + 1 = needle.length}

lemma pedestrian_iff {j : Nat} {hj : j ≤ nsize1} :
    pedestrian eq haystack needle nsize1 i hi j hj hn = true ↔
      ∀ k y, j ≤ k → needle[k]? = some y → ∃ x, haystack[i + k]? = some x ∧ eq x y = true := by
  have hfits : ∀ k (hk : k ≤ nsize1), (∀ y, needle[k]? = some y →
      ∃ x, haystack[i + k]? = some x ∧ eq x y = true) ↔ eq haystack[i + k] needle[k] = true := by
    intro k hk
    rw [List.getElem?_eq_getElem (by omega), List.getElem?_eq_getElem (by omega)]
    simp
  fun_induction pedestrian eq haystack needle nsize1 i hi j hj hn with
  | case1 j hj hne =>
    constructor
    · intro h
      cases h
    · intro h
      rw [(hfits j hj).mp (h j · (Nat.le_refl j))] at hne
      cases hne
  | case2 j hj heq hdone =>
    refine iff_of_true rfl ?_
    intro k y hk hy
    obtain rfl : k = j := by
      have hlt := (List.getElem?_eq_some_iff.mp hy).1
      omega
    exact (hfits k hj).mpr (by simpa using heq) y hy
  | case3 j hj heq hdone ih =>
    refine (ih hfits).trans ?_
    constructor
    · intro h k y hk hy
      rcases Nat.eq_or_lt_of_le hk with rfl | hlt
      · exact (hfits j hj).mpr (by simpa using heq) y hy
      · exact h k y hlt hy
    · intro h k y hk hy
      exact h k y (Nat.le_of_lt hk) hy

lemma pedestrian_iff_occurs :
    pedestrian eq haystack needle nsize1 i hi 0 (Nat.zero_le _) hn = true ↔
      Occurs eq haystack needle i := by
  rw [pedestrian_iff]
  exact ⟨fun h j y hy => h j y (Nat.zero_le j) hy, fun h j y _ hy => h j y hy⟩

variable (eq) in
lemma scanLast_spec (hn : nsize1 < needle.length) (hi : i + nsize1 < haystack.length) :
    match scanLast eq haystack needle nsize1 hn i hi with
    | none => ∀ k, i ≤ k → ¬ Occurs eq haystack needle k
    | some i' => (∀ k, i ≤ k → k < i' → ¬ Occurs eq haystack needle k) ∧
        ∃ hi' : i' + nsize1 < haystack.length, eq haystack[i' + nsize1] needle[nsize1] = true := by
  have hmiss : ∀ (i) (hi : i + nsize1 < haystack.length),
      (!eq haystack[i + nsize1] needle[nsize1]) = true → ¬ Occurs eq haystack needle i := by
    intro i hi hne hocc
    obtain ⟨_, heq⟩ := hocc.last hn
    rw [heq] at hne
    cases hne
  fun_induction scanLast eq haystack needle nsize1 hn i hi with
  | case1 i hi hne hend =>
    intro k hk hocc
    obtain ⟨hroom, _⟩ := hocc.last hn
    obtain rfl : k = i := by omega
    exact hmiss k hi hne hocc
  | case2 i hi hne hend ih =>
    split
    · next hnone =>
      rw [hnone] at ih
      intro k hk
      rcases Nat.eq_or_lt_of_le hk with rfl | hlt
      · exact hmiss i hi hne
      · exact ih k hlt
    next i' hsome =>
    rw [hsome] at ih
    refine ⟨?_, ih.2⟩
    intro k hk hki
    rcases Nat.eq_or_lt_of_le hk with rfl | hlt
    · exact hmiss i hi hne
    · exact ih.1 k hlt hki
  | case3 i hi heq =>
    refine ⟨?_, hi, by simpa using heq⟩
    omega

def Skips (eq : α → α → Bool) (needle : List α) (nsize1 skip : Nat) : Prop :=
  ∀ k, 0 < k → k < skip → k ≤ nsize1 ∧
    ∀ y z, needle[nsize1 - k]? = some y → needle[nsize1]? = some z → eq y z = false

lemma skips_skipLoop (hn : nsize1 < needle.length) (h : Skips eq needle nsize1 skip) :
    Skips eq needle nsize1 (skipLoop eq needle nsize1 hn skip) := by
  fun_induction skipLoop eq needle nsize1 hn skip with
  | case1 skip hskip hback hne ih =>
    apply ih
    intro k hpos hk
    rcases Nat.eq_or_lt_of_le (Nat.le_of_lt_succ hk) with rfl | hlt
    · refine ⟨hskip, ?_⟩
      intro y z hy hz
      rw [List.getElem?_eq_getElem hback, Option.some.injEq] at hy
      rw [List.getElem?_eq_getElem hn, Option.some.injEq] at hz
      rw [← hy, ← hz]
      simpa using hne
    · exact h k hpos hlt
  | case2 skip hskip hback heq | case3 skip hskip => exact h

lemma skips_lazySkip (hn : nsize1 < needle.length) (h : Skips eq needle nsize1 skip) :
    Skips eq needle nsize1 (lazySkip eq needle nsize1 hn skip) := by
  unfold lazySkip
  split
  · apply skips_skipLoop
    intro k hpos hk
    omega
  · exact h

section

variable (symm : ∀ x y, eq x y = true → eq y x = true)
  (trans : ∀ x y z, eq x y = true → eq y z = true → eq x z = true)

include symm trans

lemma not_occurs_of_skips {nsize1 skip i : Nat} (hn : nsize1 < needle.length)
    (hskip : Skips eq needle nsize1 skip) {hi : i + nsize1 < haystack.length}
    (hlast : eq haystack[i + nsize1] needle[nsize1] = true) {k : Nat} (hik : i < k)
    (hk : k < i + skip) : ¬ Occurs eq haystack needle k := by
  intro hocc
  obtain ⟨hle, hdiff⟩ := hskip (k - i) (by omega) (by omega)
  have hback : nsize1 - (k - i) < needle.length := by omega
  obtain ⟨x, hx, hxy⟩ := hocc _ _ (List.getElem?_eq_getElem hback)
  have hplace : k + (nsize1 - (k - i)) = i + nsize1 := by omega
  rw [hplace, List.getElem?_eq_getElem hi, Option.some.injEq] at hx
  rw [← hx] at hxy
  have heq := trans _ _ _ (symm _ _ hxy) hlast
  rw [hdiff _ _ (List.getElem?_eq_getElem hback) (List.getElem?_eq_getElem hn)] at heq
  cases heq

lemma search_first {nsize1 : Nat} (hn : nsize1 + 1 = needle.length) (i skip : Nat)
    (hskip : Skips eq needle nsize1 skip) :
    First (Occurs eq haystack needle) i (search eq haystack needle nsize1 hn i skip) := by
  have hlt : nsize1 < needle.length := by omega
  fun_induction search eq haystack needle nsize1 hn i skip with
  | case1 i skip hi hscan =>
    have hspec := scanLast_spec eq hlt hi
    rw [hscan] at hspec
    exact hspec
  | case2 i skip hi i' hscan hi' hall =>
    have hspec := scanLast_spec eq hlt hi
    rw [hscan] at hspec
    exact ⟨hi'.1, pedestrian_iff_occurs.mp hall, hspec.1⟩
  | case3 i skip hi i' hscan hi' hnot skip' ih =>
    have hspec := scanLast_spec eq hlt hi
    rw [hscan] at hspec
    obtain ⟨hpassed, _, hlast⟩ := hspec
    have hskips : Skips eq needle nsize1 skip' := skips_lazySkip hlt hskip
    refine (ih hskips).step (Nat.le_trans hi'.1 (Nat.le_add_right _ _)) ?_
    intro k hk hklt
    rcases Nat.lt_trichotomy k i' with hbefore | rfl | hafter
    · exact hpassed k hk hbefore
    · exact fun hocc => hnot (pedestrian_iff_occurs.mpr hocc)
    · exact not_occurs_of_skips symm trans hlt hskips hlast hafter hklt
  | case4 i skip hi =>
    intro k hk hocc
    obtain ⟨hroom, _⟩ := hocc.last hlt
    omega

lemma qfind_first : First (Occurs eq haystack needle) 0 (qfind eq haystack needle) := by
  unfold qfind
  split
  · next hshort =>
    intro k _ hocc
    obtain ⟨hroom, _⟩ := hocc.last (show needle.length - 1 < needle.length by omega)
    omega
  split
  · next hsize =>
    refine ⟨Nat.le_refl 0, ?_, fun k _ hk => absurd hk (Nat.not_lt_zero k)⟩
    intro j y hy
    rw [eq_nil_of_length_eq_zero hsize, getElem?_nil] at hy
    cases hy
  · apply search_first symm trans
    intro k hpos hk
    omega

end

theorem qfind_least (h : Equivalence fun x y => eq x y = true) :
    (∀ i, qfind eq haystack needle = some i ↔ IsLeast {k | Occurs eq haystack needle k} i) ∧
      (qfind eq haystack needle = none ↔ ∀ k, ¬ Occurs eq haystack needle k) := by
  have hfirst : First (Occurs eq haystack needle) 0 (qfind eq haystack needle) :=
    qfind_first (fun _ _ => h.symm) fun _ _ _ => h.trans
  refine ⟨fun i => ⟨?_, ?_⟩, ⟨?_, ?_⟩⟩
  · intro hi
    rw [hi] at hfirst
    exact ⟨hfirst.2.1, fun k hk => not_lt.mp fun hlt => hfirst.2.2 k (Nat.zero_le k) hlt hk⟩
  · intro hi
    refine hfirst.unique ⟨Nat.zero_le i, hi.1, ?_⟩
    intro k _ hlt hk
    exact absurd (hi.2 hk) (Nat.not_le.mpr hlt)
  · intro hnone k
    rw [hnone] at hfirst
    exact hfirst k (Nat.zero_le k)
  · intro hnone
    exact hfirst.unique fun k _ => hnone k

end

theorem qfind_least_caseless :
    qfind (fun x y : UInt8 => x ||| 32 == y ||| 32) [120, 65, 98] [97, 66] = some 1 := by
  have hequiv : Equivalence fun x y : UInt8 => (x ||| 32 == y ||| 32) = true := by
    simp only [beq_iff_eq]
    exact ⟨fun _ => rfl, Eq.symm, Eq.trans⟩
  refine ((qfind_least hequiv).1 1).mpr ⟨?_, ?_⟩
  · rintro (_ | _ | j) y hy
    · cases hy; exact ⟨65, rfl, rfl⟩
    · cases hy; exact ⟨98, rfl, rfl⟩
    · cases hy
  · rintro (_ | k) hk
    · obtain ⟨x, hx, hxy⟩ := hk 0 97 rfl
      cases hx
      cases hxy
    · exact Nat.le_add_left 1 k

open Delimited

def memchr (haystack : List UInt8) (needle : UInt8) : Option Nat :=
  haystack.findIdx? (· == needle)

lemma occurs_iff_starts {haystack needle : List UInt8} {i : Nat} :
    Occurs (· == ·) haystack needle i ↔ needle <+: haystack.drop i := by
  rw [prefix_iff_getElem?]
  constructor
  · intro h j hj
    obtain ⟨x, hx, hxy⟩ := h j needle[j] (List.getElem?_eq_getElem hj)
    simp [hx, beq_iff_eq.mp hxy]
  intro h j y hy
  obtain ⟨hj, hget⟩ := List.getElem?_eq_some_iff.mp hy
  have hx := h j hj
  rw [List.getElem?_drop, hget] at hx
  exact ⟨y, hx, beq_self_eq_true y⟩

lemma first_cut (needle haystack : List UInt8) : First (fun i => needle <+: haystack.drop i) 0
      ((cut needle haystack).map fun p => p.1.length) := by
  cases h : cut needle haystack with
  | none =>
    intro k _ hk
    exact cut_eq_none.mp h (hk.isInfix.trans (drop_suffix k haystack).isInfix)
  | some p =>
    refine ⟨Nat.zero_le _, ?_, fun k _ hk => not_prefix_of_cut h hk⟩
    show needle <+: haystack.drop p.1.length
    rw [eq_of_cut h, append_assoc, drop_left]
    exact prefix_append _ _

lemma qfind_eq_cut (haystack needle : List UInt8) :
    qfind (· == ·) haystack needle = (cut needle haystack).map fun p => p.1.length := by
  have hfirst : First (Occurs (· == ·) haystack needle) 0 (qfind (· == ·) haystack needle) := by
    apply qfind_first
    · intro x y h
      rw [beq_iff_eq] at h ⊢
      exact h.symm
    · intro x y z hxy hyz
      rw [beq_iff_eq] at hxy hyz ⊢
      exact hxy.trans hyz
  have hP : Occurs (· == ·) haystack needle = fun i => needle <+: haystack.drop i :=
    funext fun _ => propext occurs_iff_starts
  rw [hP] at hfirst
  exact hfirst.unique (first_cut needle haystack)

lemma memchr_eq_cut (haystack : List UInt8) (c : UInt8) :
    memchr haystack c = (cut [c] haystack).map fun p => p.1.length := by
  have hat : ∀ i, [c] <+: haystack.drop i ↔ haystack[i]? = some c := by
    intro i
    rw [prefix_iff_getElem?]
    simp
  refine First.unique ?_ (first_cut [c] haystack)
  unfold memchr
  cases h : haystack.findIdx? (· == c) with
  | none =>
    rw [findIdx?_eq_none_iff] at h
    intro k _ hk
    have hc := h c (mem_of_getElem? ((hat k).mp hk))
    rw [beq_self_eq_true] at hc
    cases hc
  | some r =>
    obtain ⟨hr, heq, hbefore⟩ := findIdx?_eq_some_iff_getElem.mp h
    refine ⟨Nat.zero_le r, ?_, ?_⟩
    · apply (hat r).mpr
      rw [List.getElem?_eq_getElem hr, beq_iff_eq.mp heq]
    · intro k _ hk hin
      obtain ⟨hlt, hget⟩ := List.getElem?_eq_some_iff.mp ((hat k).mp hin)
      exact hbefore k hk (beq_iff_eq.mpr hget)

end Acc.Range
