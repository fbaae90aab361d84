import Accelerator.Range.Find

namespace Acc.Range

variable {α : Type} (eq : α → α → Bool) (haystack needle : List α)

def windowLoop (nsize1 : Nat) (hn : nsize1 < needle.length) (i : Nat)
    (hi : i + nsize1 < haystack.length) (skip : Nat) : Nat :=
  if hskip : skip ≤ nsize1 then
    if !eq haystack[i + (nsize1 - skip)] needle[nsize1] then windowLoop nsize1 hn i hi (skip + 1)
    else skip
  else skip
termination_by nsize1 + 1 - skip

def windowSkip (nsize1 : Nat) (hn : nsize1 < needle.length) (i : Nat)
    (hi : i + nsize1 < haystack.length) (skip : Nat) : Nat :=
  if skip = 0 then windowLoop eq haystack needle nsize1 hn i hi 1 else skip

variable {eq haystack needle} {nsize1 : Nat}

lemma le_windowLoop (hn : nsize1 < needle.length) {i : Nat} (hi : i + nsize1 < haystack.length)
    (skip : Nat) : skip ≤ windowLoop eq haystack needle nsize1 hn i hi skip := by
  fun_induction windowLoop eq haystack needle nsize1 hn i hi skip with
  | case1 skip hskip hne ih => omega
  | case2 skip hskip heq | case3 skip hskip => exact Nat.le_refl _

variable (eq haystack needle)

lemma windowSkip_pos (hn : nsize1 < needle.length) {i : Nat} (hi : i + nsize1 < haystack.length)
    (skip : Nat) : 0 < windowSkip eq haystack needle nsize1 hn i hi skip := by
  unfold windowSkip
  split
  · exact le_windowLoop hn hi 1
  · omega

def rsearch (nsize1 : Nat) (hn : nsize1 + 1 = needle.length) (k : Nat)
    (hk : k + nsize1 ≤ haystack.length) (skip : Nat) : Option Nat :=
  match k with
  | 0 => none
  | i + 1 =>
    if !eq haystack[i + nsize1] needle[nsize1] then rsearch nsize1 hn i (by omega) skip
    else if pedestrian eq haystack needle nsize1 i (by omega) 0 (Nat.zero_le _) hn then some i
    else
      let skip' := windowSkip eq haystack needle nsize1 hn.le i (by omega) skip
      rsearch nsize1 hn (i + 1 - skip') (by omega) skip'
termination_by k
decreasing_by
  · omega
  · have hpos := windowSkip_pos eq haystack needle hn.le
      (show i + nsize1 < haystack.length by omega) skip
    omega

def compared (nsize1 : Nat) (hn : nsize1 + 1 = needle.length) (k : Nat)
    (hk : k + nsize1 ≤ haystack.length) (skip : Nat) : List Nat :=
  match k with
  | 0 => []
  | i + 1 =>
    if !eq haystack[i + nsize1] needle[nsize1] then compared nsize1 hn i (by omega) skip
    else if pedestrian eq haystack needle nsize1 i (by omega) 0 (Nat.zero_le _) hn then [i]
    else
      let skip' := windowSkip eq haystack needle nsize1 hn.le i (by omega) skip
      i :: compared nsize1 hn (i + 1 - skip') (by omega) skip'
termination_by k
decreasing_by
  · omega
  · have hpos := windowSkip_pos eq haystack needle hn.le
      (show i + nsize1 < haystack.length by omega) skip
    omega

def rfind : Option Nat :=
  if hshort : haystack.length < needle.length then none
  else if hsize : needle.length = 0 then some 0
  else rsearch eq haystack needle (needle.length - 1) (by omega)
    (haystack.length - needle.length + 1) (by omega) 0

def rfindCompared : List Nat :=
  if hshort : haystack.length < needle.length then []
  else if hsize : needle.length = 0 then [0]
  else compared eq haystack needle (needle.length - 1) (by omega)
    (haystack.length - needle.length + 1) (by omega) 0

variable {eq haystack needle}

lemma rsearch_eq_some {hn : nsize1 + 1 = needle.length} {k : Nat}
    {hk : k + nsize1 ≤ haystack.length} {skip g : Nat} :
    rsearch eq haystack needle nsize1 hn k hk skip = some g ↔
      g ∈ compared eq haystack needle nsize1 hn k hk skip ∧ Occurs eq haystack needle g := by
  fun_induction rsearch eq haystack needle nsize1 hn k hk skip with
  | case1 skip hk => simp [compared]
  | case2 skip i hk hne hk' ih => rw [compared, if_pos hne]; exact ih
  | case3 skip i hk heq hall =>
    rw [compared, if_neg heq, if_pos hall, List.mem_singleton, Option.some.injEq]
    constructor
    · rintro rfl
      exact ⟨rfl, pedestrian_iff_occurs.mp hall⟩
    · intro h
      exact h.1.symm
  | case4 skip i hk heq hnot skip' hk' ih =>
    rw [compared, if_neg heq, if_neg hnot, List.mem_cons, ih]
    have hi : ¬ Occurs eq haystack needle i := fun h => hnot (pedestrian_iff_occurs.mpr h)
    constructor
    · intro h
      exact ⟨Or.inr h.1, h.2⟩
    · rintro ⟨rfl | hin, hocc⟩
      · exact absurd hocc hi
      · exact ⟨hin, hocc⟩

variable {x : α} {xs : List α}

lemma rfind_eq_some {g : Nat} : rfind eq haystack (x :: xs) = some g ↔
    g ∈ rfindCompared eq haystack (x :: xs) ∧ Occurs eq haystack (x :: xs) g := by
  unfold rfind rfindCompared
  split
  · simp
  · rw [dif_neg (by simp), dif_neg (by simp)]
    exact rsearch_eq_some

lemma Occurs.exists_greatest {i : Nat} (h : Occurs eq haystack (x :: xs) i) :
    ∃ g, IsGreatest {k | Occurs eq haystack (x :: xs) k} g := by
  have hbdd : BddAbove {k | Occurs eq haystack (x :: xs) k} := by
    refine ⟨haystack.length, ?_⟩
    intro k hk
    obtain ⟨hroom, _⟩ := Occurs.last hk (Nat.succ_pos xs.length)
    omega
  exact ⟨_, Nat.sSup_mem ⟨i, h⟩ hbdd, fun _ hk => le_csSup hbdd hk⟩

end Acc.Range
