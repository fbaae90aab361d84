import Accelerator.Range.Rfind

namespace Acc.Range

open List Delimited

def find (text str : List UInt8) (pos : Nat) : Option Nat :=
  if text.length < pos then none
  else (qfind (· == ·) (text.drop pos) str).map (· + pos)

def replaceAt (text : List UInt8) (pos : Nat) (replacement : List UInt8) : List UInt8 :=
  if text.length < pos + replacement.length then text
  else text.take pos ++ replacement ++ text.drop (pos + replacement.length)

variable {text source dest : List UInt8} {pos found : Nat}

lemma length_replaceAt : (replaceAt text pos dest).length = text.length := by
  unfold replaceAt
  split
  · rfl
  · simp; omega

lemma pos_le_of_find (h : find text source pos = some found) : pos ≤ text.length := by
  unfold find at h
  split at h
  · cases h
  · omega

variable (source dest) in
def replaceLoop (hne : source ≠ []) (text : List UInt8) (pos : Nat) : List UInt8 × List Nat :=
  match _ : find text source pos with
  | none => (text, [])
  | some found =>
    (replaceLoop hne (replaceAt text found dest) (pos + source.length)).map id (found :: ·)
termination_by text.length + 1 - pos
decreasing_by
  have hpos := pos_le_of_find ‹_›
  have hlen := length_pos_of_ne_nil hne
  rw [length_replaceAt]
  omega

def replaceAll (text source dest : List UInt8) : Option (List UInt8 × Nat) :=
  if source.length ≠ dest.length then none
  else if hne : source = [] then some (text, 0)
  else
    let r := replaceLoop source dest hne text 0
    some (r.1, r.2.length)

def replaced (text source dest : List UInt8) : List Nat :=
  if hne : source = [] then [] else (replaceLoop source dest hne text 0).2

def clear (n : Nat) : Nat → List Nat → Bool
  | _, [] => true
  | a, p :: ps => a ≤ p && clear n (p + n) ps

def leftmost (source dest text : List UInt8) (a : Nat) : List UInt8 :=
  text.take a ++ dest.intercalate (tokens source (text.drop a))

section

variable (hne : source ≠ [])

include hne

lemma find_eq_cut (text : List UInt8) (pos : Nat) :
    find text source pos = (cut source (text.drop pos)).map fun p => p.1.length + pos := by
  unfold find
  split
  · next hlt =>
    rw [drop_eq_nil_of_le (Nat.le_of_lt hlt), cut, if_neg hne]
    rfl
  · rw [qfind_eq_cut, Option.map_map]
    rfl

lemma find_first (text : List UInt8) (pos : Nat) :
    First (fun i => source <+: text.drop i) pos (find text source pos) := by
  rw [find_eq_cut hne]
  have hcut := first_cut source (text.drop pos)
  cases h : cut source (text.drop pos) with
  | none =>
    rw [h] at hcut
    intro k hk hpre
    apply hcut (k - pos) (Nat.zero_le _)
    rwa [drop_drop, Nat.add_sub_cancel' hk]
  | some p =>
    rw [h] at hcut
    refine ⟨Nat.le_add_left _ _, ?_, ?_⟩
    · have hpre : source <+: (text.drop pos).drop p.1.length := hcut.2.1
      rwa [drop_drop, Nat.add_comm] at hpre
    · intro k hk (hlt : k < p.1.length + pos) hpre
      apply hcut.2.2 (k - pos) (Nat.zero_le _) (Nat.sub_lt_right_of_lt_add hk hlt)
      rwa [drop_drop, Nat.add_sub_cancel' hk]

lemma split_of_find (h : find text source pos = some found) :
    ∃ pre post, text = pre ++ source ++ post ∧ pre.length = found := by
  have hfirst := find_first hne text pos
  rw [h] at hfirst
  obtain ⟨post, hpost⟩ := hfirst.2.1
  have hlen := congrArg length hpost
  have hpos := length_pos_of_ne_nil hne
  rw [length_append, length_drop] at hlen
  refine ⟨text.take found, post, ?_, length_take_of_le (by omega)⟩
  simp [hpost]

end

section

variable (hlen : source.length = dest.length)

include hlen

lemma replaceAt_split (pre post : List UInt8) :
    replaceAt (pre ++ source ++ post) pre.length dest = pre ++ dest ++ post := by
  unfold replaceAt
  rw [if_neg (by simp; omega), ← hlen, ← length_append, drop_left, append_assoc pre source,
    take_left]

variable (hne : source ≠ []) {a : Nat}

include hne

omit hlen in
lemma leftmost_of_cut (dest : List UInt8) {head tail : List UInt8}
    (h : cut source (text.drop a) = some (head, tail)) :
    text = (text.take a ++ head) ++ source ++ tail ∧ leftmost source dest text a =
        (text.take a ++ head) ++ dest ++ dest.intercalate (tokens source tail) ∧
      (text.take a ++ head).length = head.length + a := by
  have hle : a ≤ text.length := by
    rw [← Nat.not_lt]
    intro hlt
    rw [drop_eq_nil_of_le (Nat.le_of_lt hlt), cut, if_neg hne] at h
    cases h
  refine ⟨?_, ?_, ?_⟩
  · simp [← eq_of_cut h]
  · obtain ⟨t, ts, hts⟩ := exists_cons_of_ne_nil (tokens_ne_nil source tail)
    rw [leftmost, tokens_of_some hne h, hts, intercalate_cons_cons]
    simp only [append_assoc]
  · rw [length_append, length_take_of_le hle, Nat.add_comm]

lemma leftmost_step (hpos : pos ≤ a) (h : find text source pos = some found) (ha : a ≤ found) :
    leftmost source dest text a =
        leftmost source dest (replaceAt text found dest) (found + source.length) ∧
      (tokens source (text.drop a)).length =
        (tokens source ((replaceAt text found dest).drop (found + source.length))).length + 1 := by
  have hfirst := find_first hne text pos
  rw [h] at hfirst
  have hagain : find text source a = some found :=
    (find_first hne text a).unique
      ⟨ha, hfirst.2.1, fun k hk hlt => hfirst.2.2 k (Nat.le_trans hpos hk) hlt⟩
  rw [find_eq_cut hne, Option.map_eq_some_iff] at hagain
  obtain ⟨⟨head, tail⟩, hcut, rfl⟩ := hagain
  obtain ⟨htext, hleft, hplace⟩ := leftmost_of_cut hne dest hcut
  have hnew : replaceAt text (head.length + a) dest = text.take a ++ head ++ dest ++ tail := by
    conv_lhs => rw [htext]
    rw [← hplace, replaceAt_split hlen]
  rw [hleft, hnew, ← hplace, hlen, ← length_append, drop_left, tokens_of_some hne hcut]
  refine ⟨?_, rfl⟩
  rw [leftmost, take_left, drop_left]

end

section

variable (hne : source ≠ []) (hlen : source.length = dest.length)

include hlen

lemma leftmost_of_clear {a : Nat} (hpos : pos ≤ a)
    (h : clear source.length a (replaceLoop source dest hne text pos).2 = true) :
    (replaceLoop source dest hne text pos).1 = leftmost source dest text a ∧
      (replaceLoop source dest hne text pos).2.length + 1 =
        (tokens source (text.drop a)).length := by
  fun_induction replaceLoop source dest hne text pos generalizing a with
  | case1 text pos hfind =>
    have hfirst := find_first hne text pos
    rw [hfind] at hfirst
    have hnone : find text source a = none :=
      (find_first hne text a).unique fun k hk => hfirst k (Nat.le_trans hpos hk)
    rw [find_eq_cut hne, Option.map_eq_none_iff] at hnone
    rw [leftmost, tokens_of_none hnone, intercalate_singleton, take_append_drop]
    exact ⟨rfl, rfl⟩
  | case2 text pos found hfind ih =>
    rw [Prod.map_snd, clear, Bool.and_eq_true, decide_eq_true_eq] at h
    obtain ⟨htext, hcount⟩ := leftmost_step hlen hne hpos hfind h.1
    have hfound : pos ≤ found := Nat.le_trans hpos h.1
    obtain ⟨ih, ihcount⟩ := ih (Nat.add_le_add_right hfound _) h.2
    exact ⟨ih.trans htext.symm, by rw [hcount, ← ihcount]; rfl⟩

omit hlen in
lemma replaceLoop_some (h : find text source pos = some found) :
    replaceLoop source dest hne text pos =
      (replaceLoop source dest hne (replaceAt text found dest) (pos + source.length)).map id
        (found :: ·) := by
  rw [replaceLoop]
  split
  · next hnone => rw [h] at hnone; cases hnone
  · next hsome => rw [h] at hsome; cases hsome; rfl

omit hlen in
lemma replaceLoop_nil (dest text : List UInt8) (pos : Nat)
    (h : (replaceLoop source dest hne text pos).2 = []) :
    (replaceLoop source dest hne text pos).1 = text := by
  rw [replaceLoop] at h ⊢
  split at h
  · rfl
  · cases h

section

variable {d : Nat} (hd : d < source.length) (hsame : ∀ i < d, dest[i]? = source[i]?)

include hsame hd

lemma same_before (pre post post' : List UInt8) {i : Nat} (hi : i < pre.length + d) :
    (pre ++ dest ++ post')[i]? = (pre ++ source ++ post)[i]? := by
  rw [append_assoc, append_assoc]
  rcases Nat.lt_or_ge i pre.length with hlt | hge
  · simp [getElem?_append_left hlt]
  · rw [getElem?_append_right hge, getElem?_append_right hge, getElem?_append_left (by omega),
      getElem?_append_left (by omega), hsame _ (by omega)]

lemma leftmost_same (text : List UInt8) {a i : Nat} (hi : i < a + d) (hne : source ≠ []) :
    (leftmost source dest text a)[i]? = text[i]? := by
  cases hcut : cut source (text.drop a) with
  | none => simp [leftmost, tokens_of_none hcut]
  | some p =>
    obtain ⟨htext, hleft, hplace⟩ := leftmost_of_cut hne dest hcut
    rw [hleft]
    conv_rhs => rw [htext]
    exact same_before hlen hd hsame _ _ _ (by omega)

lemma replaceLoop_changes (h : (replaceLoop source dest hne text pos).2 ≠ []) :
    ∃ m, (∀ p ∈ (replaceLoop source dest hne text pos).2, m ≤ p) ∧
      text[m + d]? = source[d]? ∧ (replaceLoop source dest hne text pos).1[m + d]? = dest[d]? ∧
      ∀ i < m + d, (replaceLoop source dest hne text pos).1[i]? = text[i]? := by
  fun_induction replaceLoop source dest hne text pos with
  | case1 text pos hfind => exact absurd rfl h
  | case2 text pos found hfind ih =>
    obtain ⟨pre, post, rfl, rfl⟩ := split_of_find hne hfind
    rw [replaceAt_split hlen] at ih ⊢
    have hnil := replaceLoop_nil hne dest (pre ++ dest ++ post) (pos + source.length)
    generalize replaceLoop source dest hne (pre ++ dest ++ post) (pos + source.length) = r
      at ih hnil ⊢
    have hbefore : ∀ i < pre.length + d,
        (pre ++ dest ++ post)[i]? = (pre ++ source ++ post)[i]? :=
      fun i hi => same_before hlen hd hsame pre post post hi
    have hat : ∀ x : List UInt8, d < x.length → (pre ++ x ++ post)[pre.length + d]? = x[d]? := by
      intro x hx
      simp [getElem?_append_right (Nat.le_add_right _ _), getElem?_append_left hx]
    by_cases hlast : r.2 = []
    · refine ⟨pre.length, by simp [hlast], hat source hd, ?_⟩
      rw [Prod.map_fst, hnil hlast]
      exact ⟨hat dest (hlen ▸ hd), hbefore⟩
    obtain ⟨m, hmin, hsrc, hdst, hagree⟩ := ih hlast
    rcases Nat.lt_or_ge m pre.length with hlt | hge
    · refine ⟨m, ?_, (hbefore _ (by omega)).symm.trans hsrc, hdst, ?_⟩
      · exact forall_mem_cons.mpr ⟨Nat.le_of_lt hlt, hmin⟩
      · intro i hi
        exact (hagree i hi).trans (hbefore i (by omega))
    refine ⟨pre.length, ?_, hat source hd, ?_, ?_⟩
    · exact forall_mem_cons.mpr ⟨Nat.le_refl _, fun p hp => Nat.le_trans hge (hmin p hp)⟩
    · rcases Nat.eq_or_lt_of_le hge with heq | hgt
      · rw [heq]; exact hdst
      · exact (hagree _ (by omega)).trans (hat dest (hlen ▸ hd))
    · intro i hi
      exact (hagree i (by omega)).trans (hbefore i hi)

end

lemma clear_of_leftmost (hdiff : source ≠ dest) {a : Nat} (hpos : pos ≤ a)
    (h : (replaceLoop source dest hne text pos).1 = leftmost source dest text a) :
    clear source.length a (replaceLoop source dest hne text pos).2 = true := by
  have hex : ∃ i : Nat, source[i]? ≠ dest[i]? := by
    by_contra hall
    exact hdiff (ext_getElem? fun i => not_not.mp fun hi => hall ⟨i, hi⟩)
  obtain ⟨d, hother, hleast⟩ : ∃ d : Nat, source[d]? ≠ dest[d]? ∧
      ∀ i < d, dest[i]? = source[i]? :=
    ⟨Nat.find hex, Nat.find_spec hex, fun i hi => (not_not.mp (Nat.find_min hex hi)).symm⟩
  have hd : d < source.length := by
    rw [← Nat.not_le]
    intro hle
    rw [getElem?_eq_none hle, getElem?_eq_none (hlen ▸ hle)] at hother
    exact hother rfl
  fun_induction replaceLoop source dest hne text pos generalizing a with
  | case1 text pos hfind => rfl
  | case2 text pos found hfind ih =>
    have hle : a ≤ found := by
      rw [← Nat.not_lt]
      intro hlt
      rw [← replaceLoop_some hne hfind] at h
      have hmem : found ∈ (replaceLoop source dest hne text pos).2 := by
        rw [replaceLoop_some hne hfind]
        exact mem_cons_self
      obtain ⟨m, hmin, hsrc, hdst, _⟩ :=
        replaceLoop_changes hne hlen hd hleast (ne_nil_of_mem hmem)
      have hsame := leftmost_same hlen hd hleast text
        (show m + d < a + d by have := hmin _ hmem; omega) hne
      rw [← h, hdst, hsrc] at hsame
      exact hother hsame.symm
    have hstep := (leftmost_step hlen hne hpos hfind hle).1
    rw [Prod.map_snd, clear, Bool.and_eq_true, decide_eq_true_eq]
    exact ⟨hle, ih (Nat.add_le_add_right (Nat.le_trans hpos hle) _) (h.trans hstep)⟩

end

lemma replaceLoop_self (hne : source ≠ []) (text : List UInt8) (pos : Nat) :
    (replaceLoop source source hne text pos).1 = text ∧
    ∀ l, IsGreatest {k | Occurs (· == ·) text source k} l →
      (replaceLoop source source hne text pos).2.length =
        (l + source.length - pos) / source.length := by
  have hn := length_pos_of_ne_nil hne
  fun_induction replaceLoop source source hne text pos with
  | case1 text pos hfind =>
    have hfirst := find_first hne text pos
    rw [hfind] at hfirst
    refine ⟨rfl, ?_⟩
    intro l hl
    have hlt : l < pos := Nat.not_le.mp fun hle => hfirst l hle (occurs_iff_starts.mp hl.1)
    exact (Nat.div_eq_of_lt (by omega)).symm
  | case2 text pos found hfind ih =>
    have hfirst := find_first hne text pos
    rw [hfind] at hfirst
    have hold : replaceAt text found source = text := by
      obtain ⟨pre, post, rfl, rfl⟩ := split_of_find hne hfind
      exact replaceAt_split rfl pre post
    rw [hold] at ih ⊢
    refine ⟨ih.1, ?_⟩
    intro l hl
    have hle : pos ≤ l := Nat.le_trans hfirst.1 (hl.2 (occurs_iff_starts.mpr hfirst.2.1))
    have hpart : l + source.length - pos = l + source.length - (pos + source.length) +
        source.length := by omega
    simp [ih.2 l hl, hpart, Nat.add_div_right _ hn]

end Acc.Range
