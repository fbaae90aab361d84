import Accelerator.FBString.Storage

namespace Acc.FBString

open List

open Counted

inductive Source
  | chars (l : List Byte)
  | piece (str : Core) (pos n : Nat)

namespace Source

def size : Source → Nat
  | chars l => l.length
  | piece _ _ n => n

def read (h : Heap) : Source → List Byte
  | chars l => l
  | piece str pos n => ((dataChars str h).drop pos).take n

def offsetIn (c : Core) : Source → Option Nat
  | chars _ => none
  | piece str pos _ =>
    if c.category ≠ some .isSmall ∧ str.category ≠ some .isSmall ∧ str.data = c.data ∧ pos < c.getSize then
      some pos
    else none

end Source

section

variable (good : Nat → Nat) (sup : Supply)

def append (c : Core) (h : Heap) (s : Source) : Core × Heap :=
  if s.size = 0 then (c, h)
  else
    let (c', h') := expandNoinit good sup c h s.size true
    match s.offsetIn c with
    | some off => writeData c' h' c.getSize (((dataChars c' h').drop off).take s.size)
    | none => writeData c' h' c.getSize (s.read h')

def expandFill (c : Core) (h : Heap) (n : Nat) (b : Byte) (expGrowth : Bool) : Core × Heap :=
  let (c', h') := expandNoinit good sup c h n expGrowth
  writeData c' h' c.getSize (List.replicate n b)

def fill (n : Nat) (b : Byte) (h : Heap) : Core × Heap := expandFill good sup sup.uninit.reset h n b false

def appendFill (c : Core) (h : Heap) (n : Nat) (b : Byte) : Core × Heap := expandFill good sup c h n b true

def pushBack (c : Core) (h : Heap) (b : Byte) : Core × Heap :=
  let (c', h') := expandNoinit good sup c h 1 true
  writeData c' h' c.getSize [b]

def resize (c : Core) (h : Heap) (n : Nat) (b : Byte) : Core × Heap :=
  if n ≤ c.getSize then shrink good sup c h (c.getSize - n)
  else expandFill good sup c h (n - c.getSize) b false

def assign (c : Core) (h : Heap) (s : Source) : Core × Heap :=
  if s.size = 0 then resize good sup c h 0 0
  else if s.size ≤ c.getSize then
    let (c, h) := mutableData good sup c h
    let (c, h) := writeData c h 0 (s.read h)
    shrink good sup c h (c.getSize - s.size)
  else
    let (c, h) := resize good sup c h 0 0
    let (c', h') := expandNoinit good sup c h s.size false
    writeData c' h' c.getSize (s.read h')

def set (c : Core) (h : Heap) (pos : Nat) (b : Byte) : Core × Heap :=
  let (c, h) := mutableData good sup c h
  writeData c h pos [b]

def assignChar (c : Core) (h : Heap) (b : Byte) : Core × Heap :=
  if c.getSize = 0 then
    let (c, h) := expandNoinit good sup c h 1 false
    set good sup c h 0 b
  else if isShared c h then
    let (c', h) := fill good sup 1 b h
    (c', destroy c h)
  else
    let (c, h) := shrink good sup c h (c.getSize - 1)
    set good sup c h 0 b

end

def Source.Denotes (g : Heap) (s : Source) (m : List Byte) : Prop :=
  m.length = s.size ∧ ∀ x h, Takes g x h → s.read h = m

section

variable {good : Nat → Nat} (hgood : ∀ n, n ≤ good n) {sup : Supply} {g h : Heap} {c : Core}
  {l m : List Byte} {s : Source}

lemma writeData_nil (c : Core) (h : Heap) (off : Nat) : writeData c h off [] = (c, h) := by
  rw [writeData]
  split
  · rfl
  rw [poke]
  split
  · next cell hcell =>
      have hmap : cell.map (fun v => overwrite v off []) = cell := by
        cases cell <;> simp only [Cell.map, overwrite_nil]
      simp [hmap, ← hcell]
  · rfl

lemma Holds.getSize_eq (hh : Holds g c h l) : c.getSize = l.length := by
  obtain ⟨x, hform, -⟩ := hh
  exact hform.getSize_eq

lemma overwrite_append (l m m' : List Byte) (hm : m.length = m'.length) :
    overwrite (l ++ m) l.length m' = l ++ m' := by
  rw [overwrite, take_left, drop_of_length_le (by rw [length_append, hm]), append_nil]

include hgood

section

variable {delta : Nat} (expGrowth : Bool) (hroom : Room good (need c (l.length + delta)))
  (hfresh : h sup.addr = none) (hh : Holds g c h l) (hm : m.length = delta)
include hroom hfresh hh hm

lemma writable_extend (hdelta : delta ≠ 0) : Writable g
      (writeData (expandNoinit good sup c h delta expGrowth).1 (expandNoinit good sup c h delta expGrowth).2
        c.getSize m).1
      (writeData (expandNoinit good sup c h delta expGrowth).1 (expandNoinit good sup c h delta expGrowth).2
        c.getSize m).2 (l ++ m) := by
  obtain ⟨h0, -⟩ | ⟨m', hm', hw⟩ := writable_expandNoinit hgood expGrowth hroom hfresh hh
  · exact absurd h0 hdelta
  have hfits : l.length + m.length ≤ (l ++ m').length := by
    rw [length_append]
    omega
  have hwrite := hw.write hfits
  rw [overwrite_append l m' m (by omega)] at hwrite
  rwa [hh.getSize_eq]

lemma becomes_extend : Becomes g c h (writeData (expandNoinit good sup c h delta expGrowth).1
      (expandNoinit good sup c h delta expGrowth).2 c.getSize m) (l ++ m) := by
  by_cases hdelta : delta = 0
  · have hnil : m = [] := length_eq_zero_iff.mp (hm.trans hdelta)
    rw [hnil, writeData_nil, append_nil]
    obtain ⟨-, heq⟩ | ⟨m', hm', hw⟩ := writable_expandNoinit hgood expGrowth hroom hfresh hh
    · exact .inr ⟨heq, hh⟩
    · rw [length_eq_zero_iff.mp (hm'.trans hdelta), append_nil] at hw
      exact .inl hw
  · exact .inl (writable_extend hgood expGrowth hroom hfresh hh hm hdelta)

end

variable {n pos : Nat}

lemma becomes_expandFill (b : Byte) (expGrowth : Bool)
    (hroom : Room good (need c (l.length + n))) (hfresh : h sup.addr = none) (hh : Holds g c h l) :
    Becomes g c h (expandFill good sup c h n b expGrowth) (l ++ List.replicate n b) :=
  becomes_extend hgood expGrowth hroom hfresh hh length_replicate

lemma becomes_pushBack (b : Byte) (hroom : Room good (need c (l.length + 1))) (hfresh : h sup.addr = none)
    (hh : Holds g c h l) : Becomes g c h (pushBack good sup c h b) (l ++ [b]) :=
  becomes_extend hgood true hroom hfresh hh rfl

def resized (l : List Byte) (n : Nat) (b : Byte) : List Byte := l.take n ++ List.replicate (n - l.length) b

lemma becomes_resize (b : Byte) (hroom : Room good (need c (l.length + n)))
    (hfresh : h sup.addr = none) (hh : Holds g c h l) :
    Becomes g c h (resize good sup c h n b) (resized l n b) := by
  rw [resize, hh.getSize_eq, resized]
  have hroom' : ∀ k ≤ l.length + n, Room good (need c k) := fun k hk i hi =>
    hroom i (by rw [need] at hi ⊢; omega)
  split
  · next hn =>
      have hshrink := becomes_shrink hgood hh hfresh (Nat.sub_le l.length n) (hroom' _ (Nat.le_add_right ..))
      rw [Nat.sub_sub_self hn] at hshrink
      rwa [Nat.sub_eq_zero_of_le hn, replicate_zero, append_nil]
  · next hn =>
      rw [take_of_length_le (by omega)]
      exact becomes_expandFill hgood b false (hroom' _ (by omega)) hfresh hh

lemma becomes_append (hroom : Room good (need c (l.length + s.size))) (hfresh : h sup.addr = none)
    (hh : Holds g c h l) (hs : s.Denotes g m)
    (hinside : ∀ off, s.offsetIn c = some off → off + s.size ≤ l.length ∧ (l.drop off).take s.size = m) :
    Becomes g c h (append good sup c h s) (l ++ m) := by
  obtain ⟨hlength, hread⟩ := hs
  rw [append]
  by_cases h0 : s.size = 0
  · have hnil : m = [] := length_eq_zero_iff.mp (hlength.trans h0)
    rw [if_pos h0, hnil, append_nil]
    exact .inr ⟨rfl, hh⟩
  have hextend := becomes_extend hgood true hroom hfresh hh hlength
  obtain ⟨hzero, -⟩ | ⟨m', hm', hw⟩ := writable_expandNoinit hgood true hroom hfresh hh
  · exact absurd hzero h0
  rw [if_neg h0]
  obtain ⟨x, hform, htakes⟩ := hw.holds
  cases hoff : s.offsetIn c with
  | none =>
    simp only [hread x _ htakes]
    exact hextend
  | some off =>
    obtain ⟨hle, hpiece⟩ := hinside off hoff
    have hown := (hform.text htakes.backed).drop_take (show off + s.size ≤ (l ++ m').length by
      rw [length_append]
      omega)
    rw [drop_append_of_le_length (by omega), take_append_of_le_length (by rw [length_drop]; omega),
      hpiece] at hown
    simp only [hown]
    exact hextend

lemma becomes_clear (hroom : Room good (need c l.length)) (hfresh : h sup.addr = none) (hh : Holds g c h l) :
    Becomes g c h (resize good sup c h 0 0) [] ∧ (resize good sup c h 0 0).2 sup.addr = none ∧
      blockCapacity (resize good sup c h 0 0).1 ≤ blockCapacity c := by
  have hcut := becomes_shrink hgood hh hfresh (le_refl l.length) hroom
  have hsmall : ∀ {d : Core}, Form d .nothing [] → blockCapacity d ≤ blockCapacity c := by
    intro d hform
    rw [blockCapacity, if_pos hform.category_nothing]
    exact Nat.zero_le _
  rw [Nat.sub_self, take_zero] at hcut
  rw [resize, if_pos (Nat.zero_le _), Nat.sub_zero, hh.getSize_eq]
  refine ⟨hcut, ?_⟩
  obtain ⟨hform, rfl⟩ | ⟨v, he⟩ | ⟨p, v, n, hform, hg, rfl⟩ := hh.cases
  · rw [shrink, if_pos hform.category_nothing]
    cases hform with
    | small hlen hlast htext =>
      rw [Core.smallSize_eq hlen hlast, Nat.sub_self]
      exact ⟨hfresh, hsmall (form_setSmallSize c (Nat.zero_le _))⟩
  · rw [shrink, if_neg he.category_ne, if_pos he.alone]
    exact ⟨poke_eq_none hfresh .., le_refl _⟩
  rw [shrink_shared hform, shrinkLarge]
  split
  · simp only [init, hform.destroy_eq, hform.shared.2.2.1, Nat.sub_self, take_zero, length_nil,
      Nat.zero_le, if_true]
    have htakes : Takes g (.share p v) (Function.update g p (some (.counted (n + 2) v))) := .again hg
    rw [htakes.release_eq]
    exact ⟨htakes.eq_none hfresh, hsmall (form_initSmall sup (Nat.zero_le _))⟩
  · exact ⟨hfresh, le_refl _⟩

lemma becomes_assign (hroom : Room good (need c (l.length + s.size))) (hfresh : h sup.addr = none)
    (hh : Holds g c h l) (hs : s.Denotes g m) : Becomes g c h (assign good sup c h s) m := by
  obtain ⟨hlength, hread⟩ := hs
  have hroom' : Room good (need c l.length) := fun k hk => hroom k (by rw [need] at hk ⊢; omega)
  obtain ⟨hclear, hfresh', hblock⟩ := becomes_clear hgood hroom' hfresh hh
  rw [assign, hh.getSize_eq]
  split
  · next h0 =>
      rw [length_eq_zero_iff.mp (hlength.trans h0)]
      exact hclear
  split
  · next hle =>
      have hw := writable_mutableData hgood hh hfresh hroom'
      obtain ⟨x, -, htakes⟩ := hw.holds
      have hfits : 0 + m.length ≤ l.length := by omega
      have hwrite := hw.write hfits
      simp only [hread x _ htakes, hwrite.holds.getSize_eq, length_overwrite hfits]
      have hshrink := hwrite.shrink good sup (show l.length - s.size ≤ (overwrite l 0 m).length by
        rw [length_overwrite hfits]
        omega)
      rw [length_overwrite hfits, Nat.sub_sub_self hle, overwrite_zero, ← hlength, take_left] at hshrink
      rw [← hlength]
      exact .inl hshrink
  next h0 hlt =>
    have hroom'' : Room good (need (resize good sup c h 0 0).1 (([] : List Byte).length + s.size)) :=
      fun k hk => hroom k (by rw [need, length_nil] at hk; rw [need]; omega)
    obtain ⟨hzero, -⟩ | ⟨m', hm', hw⟩ := writable_expandNoinit hgood false hroom'' hfresh' hclear.holds
    · exact absurd hzero h0
    obtain ⟨x, -, htakes⟩ := hw.holds
    simp only [hread x _ htakes]
    exact .inl (writable_extend hgood false hroom'' hfresh' hclear.holds hlength h0)

omit hgood in
lemma overwrite_singleton (hpos : pos < l.length) (b : Byte) :
    overwrite l pos [b] = l.set pos b := by
  simp [overwrite, set_eq_take_append_cons_drop, hpos]

omit hgood in
lemma Writable.set (hw : Writable g c h l) (b : Byte) (hpos : pos < l.length) :
    Writable g (set good sup c h pos b).1 (set good sup c h pos b).2 (l.set pos b) := by
  rw [FBString.set, hw.mutableData_eq, ← overwrite_singleton hpos]
  exact hw.write hpos

lemma writable_set (b : Byte) (hpos : pos < l.length) (hroom : Room good (need c l.length))
    (hfresh : h sup.addr = none) (hh : Holds g c h l) :
    Writable g (set good sup c h pos b).1 (set good sup c h pos b).2 (l.set pos b) := by
  rw [← overwrite_singleton hpos]
  exact (writable_mutableData hgood hh hfresh hroom).write hpos

lemma writable_fill (b : Byte) (hroom : Room good (64 + n)) (hfresh : h sup.addr = none) :
    Writable h (fill good sup n b h).1 (fill good sup n b h).2 (List.replicate n b) := by
  have hform : Form sup.uninit.reset .nothing [] := form_setSmallSize sup.uninit (Nat.zero_le _)
  have hroom' : Room good (need sup.uninit.reset (([] : List Byte).length + n)) := by
    rwa [need, blockCapacity, if_pos hform.category_nothing, length_nil, Nat.zero_add]
  have hfill := becomes_expandFill hgood b false hroom' hfresh ⟨_, hform, .nothing⟩
  exact hfill.writable_of_small hform.category_nothing

lemma writable_assignChar (b : Byte) (hroom : Room good (need c (l.length + 1)))
    (hfresh : h sup.addr = none) (hh : Holds g c h l) :
    Writable g (assignChar good sup c h b).1 (assignChar good sup c h b).2 [b] := by
  have hset : ∀ {c' h'} {m : List Byte}, Writable g c' h' m → m.length = 1 →
      Writable g (set good sup c' h' 0 b).1 (set good sup c' h' 0 b).2 [b] := by
    intro c' h' m hw hm
    obtain ⟨x, rfl⟩ := length_eq_one_iff.mp hm
    exact hw.set b Nat.one_pos
  rw [assignChar, hh.getSize_eq]
  split
  · next h0 =>
      obtain ⟨hzero, -⟩ | ⟨m, hm, hw⟩ := writable_expandNoinit hgood false hroom hfresh hh
      · cases hzero
      · exact hset hw (by rw [length_append, h0, hm])
  split
  · obtain ⟨x, hform, htakes⟩ := hh
    have hfill := writable_fill (n := 1) hgood b (fun k hk => hroom k (by rw [need]; omega)) hfresh
    simp only [hform.destroy_eq]
    exact hfill.exchange htakes
  next h0 hshared =>
    obtain hw | ⟨p, v, n, hform, hg, rfl⟩ := hh.writable_or
    · refine hset (hw.shrink good sup (Nat.sub_le ..)) ?_
      rw [length_take]
      omega
    · refine absurd ?_ hshared
      rw [isShared, hform.category_share, hform.shared.1, refs, Function.update_self]
      simp

lemma writable_reserve (n : Nat) (hroom : Room good (need c (l.length + n))) (hfresh : h sup.addr = none)
    (hh : Holds g c h l) : Writable g (reserve good sup c h n).1 (reserve good sup c h n).2 l := by
  obtain ⟨hform, hg, -, heq⟩ | ⟨v, he, -⟩ := exclusive_reserve hgood n hh hfresh fun k hk =>
    hroom k (by rw [dataOffset] at hk; rw [need]; omega)
  · rw [heq]
    exact .inl ⟨hform, hg⟩
  · exact .inr ⟨v, he⟩

end

end Acc.FBString
