import Accelerator.Delimited

namespace Acc.Text

open List

open Delimited

inductive Delim
  | char (c : UInt8)
  | piece (s : List UInt8)
  deriving DecidableEq, Repr

namespace Delim

def bytes : Delim → List UInt8
  | char c => [c]
  | piece s => s

def size (d : Delim) : Nat := d.bytes.length

end Delim

def atDelim (s : List UInt8) (i : Nat) (delim : Delim) : Bool :=
  (s.drop i).take delim.size == delim.bytes

def emit (ignoreEmpty : Bool) (out : List (List UInt8)) (token : List UInt8) : List (List UInt8) :=
  if !ignoreEmpty || 0 < token.length then out ++ [token] else out

def splitLoop (delim : Delim) (s : List UInt8) (ignoreEmpty : Bool)
    (i tokenStartPos tokenSize : Nat) (out : List (List UInt8)) : List (List UInt8) :=
  if i + delim.size ≤ s.length then
    if atDelim s i delim then
      splitLoop delim s ignoreEmpty (i + (delim.size - 1) + 1) (i + delim.size) 0
        (emit ignoreEmpty out ((s.drop tokenStartPos).take tokenSize))
    else splitLoop delim s ignoreEmpty (i + 1) tokenStartPos (tokenSize + 1) out
  else emit ignoreEmpty out ((s.drop tokenStartPos).take (s.length - tokenStartPos))
termination_by s.length + 1 - i

def internalSplit (delim : Delim) (sp : List UInt8) (ignoreEmpty : Bool) : List (List UInt8) :=
  if delim.size > sp.length ∨ delim.size = 0 then
    if !ignoreEmpty || 0 < sp.length then [sp] else []
  else
    match delim with
    | .piece [c] => splitLoop (.char c) sp ignoreEmpty 0 0 0 []
    | delim => splitLoop delim sp ignoreEmpty 0 0 0 []

def joinRest (delim : Delim) (output : List UInt8) : List (List UInt8) → List UInt8
  | [] => output
  | token :: tokens => joinRest delim (output ++ delim.bytes ++ token) tokens

def internalJoin (delim : Delim) : List (List UInt8) → List UInt8
  | [] => []
  | token :: tokens => joinRest delim token tokens

def kept (ignoreEmpty : Bool) (tokens : List (List UInt8)) : List (List UInt8) :=
  if ignoreEmpty then tokens.filter (· ≠ []) else tokens

lemma mem_of_mem_kept {ignoreEmpty : Bool} {tokens : List (List UInt8)} {t : List UInt8}
    (h : t ∈ kept ignoreEmpty tokens) : t ∈ tokens := by
  unfold kept at h
  split at h
  · exact mem_of_mem_filter h
  · exact h

lemma emit_append_kept (ignoreEmpty : Bool) (out : List (List UInt8)) (token : List UInt8)
    (tokens : List (List UInt8)) :
    emit ignoreEmpty out token ++ kept ignoreEmpty tokens = out ++ kept ignoreEmpty (token :: tokens) := by
  cases ignoreEmpty with
  | false => simp [emit, kept]
  | true =>
    by_cases h : token = []
    · simp [emit, kept, h]
    · simp [emit, kept, h, length_pos_of_ne_nil h]

lemma emit_eq (ignoreEmpty : Bool) (out : List (List UInt8)) (token : List UInt8) :
    emit ignoreEmpty out token = out ++ kept ignoreEmpty [token] := by
  have hkept := emit_append_kept ignoreEmpty out token []
  rw [show kept ignoreEmpty [] = [] by cases ignoreEmpty <;> rfl, append_nil] at hkept
  exact hkept

lemma atDelim_iff (s : List UInt8) (i : Nat) (delim : Delim) :
    atDelim s i delim = true ↔ delim.bytes <+: s.drop i := by
  rw [atDelim, beq_iff_eq, prefix_iff_eq_take, eq_comm]
  rfl

lemma splitLoop_eq {delim : Delim} (hne : delim.bytes ≠ []) (s : List UInt8) (ignoreEmpty : Bool)
    (i start size : Nat) (out : List (List UInt8)) (hi : start + size = i)
    (hcut : cut delim.bytes (s.drop start) =
      (cut delim.bytes (s.drop i)).map fun p => ((s.drop start).take size ++ p.1, p.2)) :
    splitLoop delim s ignoreEmpty i start size out =
      out ++ kept ignoreEmpty (tokens delim.bytes (s.drop start)) := by
  have hpos : 0 < delim.size := length_pos_of_ne_nil hne
  fun_induction splitLoop delim s ignoreEmpty i start size out with
  | case1 i start size out hbound hat ih =>
    have hnext : i + (delim.size - 1) + 1 = i + delim.size := by omega
    rw [atDelim_iff] at hat
    rw [cut_of_starts hat, Option.map_some, append_nil, drop_drop] at hcut
    rw [hnext] at ih ⊢
    have hrest := ih (Nat.add_zero _) (by simp)
    rw [hrest, emit_append_kept, tokens_of_some hne hcut]
    rfl
  | case2 i start size out hbound hat ih =>
    have hlt : i < s.length := by omega
    rw [atDelim_iff, drop_eq_getElem_cons hlt] at hat
    refine ih (by omega) ?_
    have hget : (s.drop start)[size]? = some s[i] := by
      rw [getElem?_drop, hi, getElem?_eq_getElem hlt]
    rw [hcut, drop_eq_getElem_cons hlt, cut_cons hat, Option.map_map, take_add_one, hget]
    simp [Function.comp_def]
  | case3 i start size out hbound =>
    have hshort : (s.drop i).length < delim.bytes.length := by
      rw [length_drop]
      have hsize : delim.size = delim.bytes.length := rfl
      omega
    rw [cut_of_length_lt hshort, Option.map_none] at hcut
    have htake : (s.drop start).take (s.length - start) = s.drop start := by
      rw [← length_drop, take_length]
    rw [htake, tokens_of_none hcut, emit_eq]

lemma splitLoop_start {delim : Delim} (hne : delim.bytes ≠ []) (s : List UInt8)
    (ignoreEmpty : Bool) :
    splitLoop delim s ignoreEmpty 0 0 0 [] = kept ignoreEmpty (tokens delim.bytes s) := by
  rw [splitLoop_eq hne s ignoreEmpty 0 0 0 [] rfl (by simp)]
  rfl

lemma internalSplit_eq (delim : Delim) (sp : List UInt8) (ignoreEmpty : Bool) :
    internalSplit delim sp ignoreEmpty = kept ignoreEmpty (tokens delim.bytes sp) := by
  unfold internalSplit
  split
  · next hshort =>
    have hwhole : tokens delim.bytes sp = [sp] := by
      rcases hshort with hlt | hzero
      · exact tokens_of_none (cut_of_length_lt hlt)
      · rw [eq_nil_of_length_eq_zero hzero, tokens_nil]
    have hemit := emit_eq ignoreEmpty [] sp
    rw [hwhole]
    exact hemit
  next hlong =>
  have hne : delim.bytes ≠ [] := fun h => hlong (Or.inr (congrArg List.length h))
  split
  · next c =>
    have hchar : (Delim.char c).bytes ≠ [] := hne
    exact splitLoop_start hchar sp ignoreEmpty
  · exact splitLoop_start hne sp ignoreEmpty

lemma internalSplit_char (c : UInt8) (sp : List UInt8) (ignoreEmpty : Bool) :
    internalSplit (.char c) sp ignoreEmpty = kept ignoreEmpty (sp.splitOn c) := by
  rw [internalSplit_eq, Delim.bytes, tokens_singleton]

lemma joinRest_eq (delim : Delim) (output : List UInt8) (tokens : List (List UInt8)) :
    joinRest delim output tokens = delim.bytes.intercalate (output :: tokens) := by
  induction tokens generalizing output with
  | nil => simp [joinRest]
  | cons token tokens ih =>
    rw [joinRest, ih, intercalate_cons_cons]
    cases tokens with
    | nil => simp
    | cons t ts => simp [intercalate_cons_cons]

lemma internalJoin_eq (delim : Delim) (tokens : List (List UInt8)) :
    internalJoin delim tokens = delim.bytes.intercalate tokens := by
  cases tokens with
  | nil => rfl
  | cons token tokens => exact joinRest_eq delim token tokens

lemma kept_splitOn_join {c : UInt8} {tokens : List (List UInt8)}
    (h : ∀ t ∈ tokens, t ≠ [] ∧ c ∉ t) :
    kept true ((internalJoin (.char c) tokens).splitOn c) = tokens := by
  rw [internalJoin_eq]
  cases tokens with
  | nil => rfl
  | cons t ts =>
    rw [Delim.bytes, splitOn_intercalate c (fun l hl => (h l hl).2) (cons_ne_nil t ts)]
    refine filter_eq_self.mpr ?_
    intro l hl
    simpa using (h l hl).1

lemma not_mem_of_mem_splitOn {c : UInt8} {s t : List UInt8} (h : t ∈ s.splitOn c) : c ∉ t := by
  rw [← tokens_singleton] at h
  have hin := not_infix_of_mem_tokens (cons_ne_nil c []) h
  rwa [singleton_infix_iff] at hin

theorem split_join (delim : Delim) (hne : delim.size ≠ 0) (s : List UInt8) :
    internalJoin delim (internalSplit delim s false) = s ∧
      (∀ ignoreEmpty, ∀ t ∈ internalSplit delim s ignoreEmpty, ¬ delim.bytes <:+: t) ∧
      internalSplit delim s true = (internalSplit delim s false).filter (· ≠ []) ∧
      ∀ c ignoreEmpty, delim = .piece [c] →
        internalSplit delim s ignoreEmpty = internalSplit (.char c) s ignoreEmpty := by
  have hbytes : delim.bytes ≠ [] := fun h => hne (congrArg List.length h)
  refine ⟨?_, ?_, ?_, ?_⟩
  · rw [internalJoin_eq, internalSplit_eq]
    exact intercalate_tokens delim.bytes s
  · intro ignoreEmpty t ht
    rw [internalSplit_eq] at ht
    exact not_infix_of_mem_tokens hbytes (mem_of_mem_kept ht)
  · rw [internalSplit_eq, internalSplit_eq]
    rfl
  · intro c ignoreEmpty hpiece
    rw [internalSplit_eq, internalSplit_eq, hpiece]
    rfl

theorem split_join_overlap : (Delim.piece [97, 97]).size ≠ 0 ∧
    internalJoin (.piece [97, 97]) (internalSplit (.piece [97, 97]) [97, 97, 97, 98] false)
      = [97, 97, 97, 98] :=
  ⟨by decide, (split_join (.piece [97, 97]) (by decide) [97, 97, 97, 98]).1⟩

end Acc.Text
