import Accelerator.Io.Path
import Accelerator.Conv.Integral

namespace Acc.LogBase

open Function List

open Io (Path)
open Decimal (isDigit value text)

abbrev FileSystem := List UInt8 → Option (List UInt8)

def remove (path : Path) (fs : FileSystem) : FileSystem := Function.update fs path.path none

def rename (oldPath newPath : Path) (fs : FileSystem) : Option FileSystem :=
  (fs oldPath.path).map fun content =>
    Function.update (Function.update fs oldPath.path none) newPath.path (some content)

def openLog (file : Path) (fs : FileSystem) : FileSystem :=
  Function.update fs file.path (some ((fs file.path).getD []))

def atoi (s : List UInt8) : Int :=
  match s.dropWhile Conv.isspace with
  | [] => 0
  | b :: s =>
    if b = 45 then -(value (s.takeWhile isDigit) : Int)
    else if b = 43 then value (s.takeWhile isDigit)
    else value ((b :: s).takeWhile isDigit)

def splitStep (rotate : Int) (file : Path) (fs : FileSystem) (f : List UInt8) :
    Option FileSystem :=
  let path := file.parent.div (Path.ofString f).path
  if path.base = file.name then
    let no := atoi path.ext
    if rotate > 0 ∧ no ≥ rotate then some (remove path fs)
    else if no > 0 then rename path (path.replaceExt (text (no + 1).toNat)) fs
    else some fs
  else some fs

def split (rotate : Int) (file : List UInt8) (entries : List (List UInt8)) (fs : FileSystem) :
    Option FileSystem := do
  let file := Path.ofString file
  let fs ← entries.foldlM (splitStep rotate file) fs
  let fs ← rename file (file.add [46, 49]) fs
  return openLog file fs

def backup (file : Path) (i : Nat) : List UInt8 := file.path ++ 46 :: text i

structure Rotated (r : Nat) (file : Path) (before after : FileSystem) : Prop where
  first : after (backup file 1) = before file.path
  next : ∀ i content, 1 ≤ i → i < r → before (backup file i) = some content →
    after (backup file (i + 1)) = some content
  bounded : ∀ i, r < i → after (backup file i) = none
  others : ∀ p, p ≠ file.path → (∀ i, 1 ≤ i → p ≠ backup file i) → after p = before p

structure Still (r : Nat) (file : Path) (fs : FileSystem) : Prop where
  next : ∀ i content, 1 ≤ i → i < r → fs (backup file i) = some content →
    fs (backup file (i + 1)) = some content
  bounded : ∀ i, r < i → fs (backup file i) = none

lemma atoi_ext (path : Path) : atoi path.ext = 0 := by
  rcases path.ext_eq with hext | ⟨e, hext⟩
  · rw [hext]
    rfl
  · rw [hext]
    rfl

lemma splitStep_eq {rotate : Int} (file : Path) (fs : FileSystem) (f : List UInt8) :
    splitStep rotate file fs f = some fs := by
  rw [splitStep]
  split
  · rw [atoi_ext]
    have hkeep : ¬ (rotate > 0 ∧ (0 : Int) ≥ rotate) := by
      omega
    rw [if_neg hkeep, if_neg (by decide)]
  · rfl

lemma foldlM_splitStep {rotate : Int} (file : Path) (entries : List (List UInt8))
    (fs : FileSystem) : entries.foldlM (splitStep rotate file) fs = some fs := by
  induction entries with
  | nil => rfl
  | cons f entries ih =>
    rw [foldlM_cons, splitStep_eq]
    exact ih

lemma ordinary_number (i : Nat) : Path.Ordinary (46 :: text i) := by
  have hdigits := Decimal.text_digits i
  refine ⟨cons_ne_nil _ _, ?_, ?_, ?_⟩
  · intro hmem
    rcases mem_cons.mp hmem with heq | hmem
    · exact absurd heq (by decide)
    · exact absurd (hdigits _ hmem) (by decide)
  · intro heq
    exact Decimal.text_ne_nil i (cons.inj heq).2
  intro heq
  have hdot : (46 : UInt8) ∈ text i := by
    rw [(cons.inj heq).2]
    exact mem_singleton_self _
  exact absurd (hdigits _ hdot) (by decide)

lemma backup_ne (file : Path) (i : Nat) : backup file i ≠ file.path := by
  intro heq
  have hlen := congrArg length heq
  rw [backup, length_append, length_cons] at hlen
  omega

lemma backup_injective {file : Path} {i j : Nat} (h : backup file i = backup file j) : i = j := by
  have htext : text i = text j := (cons.inj (append_cancel_left h)).2
  rw [← Decimal.value_text i, htext, Decimal.value_text]

lemma backup_one (file : List UInt8) :
    ((Path.ofString file).add [46, 49]).path = backup (Path.ofString file) 1 :=
  Path.add_path (Path.canonical_ofString file) (ordinary_number 1)

lemma split_eq (rotate : Int) (file : List UInt8) (entries : List (List UInt8))
    {fs : FileSystem} {content : List UInt8} (h : fs (Path.ofString file).path = some content) :
    split rotate file entries fs =
      some (update (update fs (backup (Path.ofString file) 1) (some content))
        (Path.ofString file).path (some [])) := by
  have hne := backup_ne (Path.ofString file) 1
  have hrename : rename (Path.ofString file) ((Path.ofString file).add [46, 49]) fs =
      some (update (update fs (Path.ofString file).path none)
        (backup (Path.ofString file) 1) (some content)) := by
    rw [rename, h, backup_one]
    rfl
  rw [split, foldlM_splitStep, Option.bind_eq_bind, Option.bind_some, hrename]
  show some (openLog _ _) = _
  rw [openLog, update_of_ne hne.symm, update_self, update_comm hne,
    update_idem, update_comm hne.symm]
  rfl

theorem split_rotates_iff (r : Nat) (hr : 0 < r) (file : List UInt8) (entries : List (List UInt8))
    (fs : FileSystem) (hlog : (fs (Path.ofString file).path).isSome) :
    ∃ after, split r file entries fs = some after ∧
      (Rotated r (Path.ofString file) fs after ↔ Still r (Path.ofString file) fs) := by
  obtain ⟨content, hcontent⟩ := Option.isSome_iff_exists.mp hlog
  refine ⟨_, split_eq r file entries hcontent, ?_⟩
  generalize Path.ofString file = log at *
  have hfirst := backup_ne log 1
  have hother : ∀ p, p ≠ log.path → p ≠ backup log 1 →
      update (update fs (backup log 1) (some content)) log.path (some []) p =
        fs p := by
    intro p hp hp1
    rw [update_of_ne hp, update_of_ne hp1]
  have hlater : ∀ i, 1 < i →
      update (update fs (backup log 1) (some content)) log.path (some [])
        (backup log i) = fs (backup log i) := by
    intro i hi
    refine hother _ (backup_ne log i) ?_
    intro heq
    have hone := backup_injective heq
    omega
  constructor
  · intro hrot
    refine ⟨?_, ?_⟩
    · intro i c hi hir hc
      have hnext := hrot.next i c hi hir hc
      rwa [hlater (i + 1) (by omega)] at hnext
    · intro i hi
      have hnone := hrot.bounded i hi
      rwa [hlater i (by omega)] at hnone
  · intro hstill
    refine ⟨?_, ?_, ?_, ?_⟩
    · rw [update_of_ne hfirst, update_self, hcontent]
    · intro i c hi hir hc
      rw [hlater (i + 1) (by omega)]
      exact hstill.next i c hi hir hc
    · intro i hi
      rw [hlater i (by omega)]
      exact hstill.bounded i hi
    · intro p hp hbackup
      exact hother p hp (hbackup 1 (Nat.le_refl 1))

def logText : List UInt8 := [108, 111, 103]

lemma ofString_logText : Path.ofString logText = ⟨logText⟩ := by
  refine Path.ofString_of_canonical ?_
  have hname : ∀ c ∈ [logText], Path.Ordinary c := by
    intro c hc
    rw [mem_singleton.mp hc]
    exact ⟨by decide, by decide, by decide, by decide⟩
  have hrel := Path.Canonical.relative 0 [logText] hname (by simp)
  simpa using hrel

theorem split_rotates_iff_fresh :
    ∃ after, split 3 logText [logText] (Function.update (fun _ => none) logText (some [1])) =
        some after ∧
      Rotated 3 ⟨logText⟩ (Function.update (fun _ => none) logText (some [1])) after := by
  obtain ⟨after, hsplit, hiff⟩ := split_rotates_iff 3 (by decide) logText [logText]
    (update (fun _ => none) logText (some [1])) (by rw [ofString_logText]; rfl)
  rw [ofString_logText] at hiff
  have hnone : ∀ i, update (fun _ => none) logText (some [1]) (backup ⟨logText⟩ i) =
      (none : Option (List UInt8)) :=
    fun i => update_of_ne (backup_ne ⟨logText⟩ i) _ _
  refine ⟨after, hsplit, hiff.mpr ⟨?_, fun i _ => hnone i⟩⟩
  intro i c _ _ hc
  rw [hnone i] at hc
  cases hc

theorem split_loses_backup :
    let fs : FileSystem := Function.update
      (Function.update (fun _ => none) (logText ++ [46, 49]) (some [2])) logText (some [1])
    ∃ after, split 3 logText [logText, logText ++ [46, 49]] fs = some after ∧
      after (backup ⟨logText⟩ 1) = some [1] ∧ after (backup ⟨logText⟩ 2) = none ∧
      ¬ Rotated 3 ⟨logText⟩ fs after := by
  intro fs
  have hlog : fs (Path.ofString logText).path = some [1] := by
    rw [ofString_logText]
    rfl
  have hsplit := split_eq 3 logText [logText, logText ++ [46, 49]] hlog
  rw [ofString_logText] at hsplit
  have hnone : update (update fs (backup ⟨logText⟩ 1) (some [1])) logText
      (some []) (backup ⟨logText⟩ 2) = none := by decide
  refine ⟨_, hsplit, by decide, hnone, ?_⟩
  intro hrot
  have hnext := hrot.next 1 [2] (by decide) (by decide) (by decide)
  cases hnext

end Acc.LogBase
