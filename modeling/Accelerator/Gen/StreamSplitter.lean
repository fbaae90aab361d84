import Accelerator.Blocks
import Accelerator.Gen.Core

namespace Acc.Gen

open List Answer

open Dialogue Blocks

variable {ε : Type*}

abbrev StringPiece := List UInt8

def splitPrefix (input : StringPiece) (delimiter : UInt8) : Bool × StringPiece × StringPiece :=
  match input.findIdx? (· == delimiter) with
  | some found => (true, input.take (found + 1), input.drop (found + 1))
  | none => (false, [], input)

lemma splitPrefix_of_notMem {input : StringPiece} {delimiter : UInt8} (h : delimiter ∉ input) :
    splitPrefix input delimiter = (false, [], input) := by
  have hnone : input.findIdx? (· == delimiter) = none := by
    rw [findIdx?_eq_none_iff]
    intro c hc
    exact beq_false_of_ne fun heq => h (heq ▸ hc)
  rw [splitPrefix, hnone]

lemma splitPrefix_append {w : StringPiece} {delimiter : UInt8} (h : delimiter ∉ w)
    (v : StringPiece) : splitPrefix (w ++ delimiter :: v) delimiter = (true, w ++ [delimiter], v) := by
  have hfound : (w ++ delimiter :: v).findIdx? (· == delimiter) = some w.length := by
    rw [findIdx?_append, findIdx?_eq_none_iff.mpr, Option.none_or, findIdx?_cons]
    · simp
    · intro c hc
      exact beq_false_of_ne fun heq => h (heq ▸ hc)
  have hlength : (w ++ [delimiter]).length = w.length + 1 := by simp
  have hsplit : w ++ delimiter :: v = (w ++ [delimiter]) ++ v := by simp
  rw [splitPrefix, hfound, hsplit]
  show (true, ((w ++ [delimiter]) ++ v).take _, ((w ++ [delimiter]) ++ v).drop _) = _
  rw [take_left' hlength, drop_left' hlength]

def consumeFixedSizeChunks (maxLength : Nat) (s : StringPiece) : Apply ε StringPiece :=
  if s = [] then ret (.ok true)
  else
    let num_to_add := if maxLength ≠ 0 then min s.length maxLength else s.length
    call (s.take num_to_add) fun
      | .ok true => consumeFixedSizeChunks maxLength (s.drop num_to_add)
      | x => ret x
termination_by s.length
decreasing_by
  rename_i h
  have := List.length_pos_iff.mpr h
  rw [List.length_drop]
  split <;> omega

def consumeBufferPlus (buf s : StringPiece) (n : Nat) :
    Dialogue (Answer ε) StringPiece (Answer ε × StringPiece × StringPiece) :=
  call (buf ++ s.take n) fun
    | .ok true => ret (.ok true, [], s.drop n)
    | x => ret (x, buf ++ s.take n, s.drop n)

namespace StreamSplitter

variable (delimiter : UInt8) (maxLength : Nat)

def checked {ρ : Type*} (buffer : StringPiece) (p : Dialogue (Answer ε) StringPiece ρ) :
    Dialogue (Answer ε) StringPiece ρ :=
  if maxLength = 0 ∨ buffer.length < maxLength then p else out

def flush (buffer : StringPiece) : Dialogue (Answer ε) StringPiece (Answer ε × StringPiece) :=
  checked maxLength buffer (call buffer fun
    | .ok true => ret (.ok true, [])
    | x => ret (x, buffer))

structure Search where
  buffer : StringPiece
  found : Bool
  linePrefix : StringPiece
  input : StringPiece

def consumeBuffer (s : Search) : Dialogue (Answer ε) StringPiece (Answer ε × Search) :=
  if s.buffer.length ≠ 0 then
    if s.found then
      let num_to_add :=
        if maxLength ≠ 0 then min (maxLength - s.buffer.length) s.linePrefix.length
        else s.linePrefix.length
      checked maxLength s.buffer ((consumeBufferPlus s.buffer s.linePrefix num_to_add).bind fun
        | (.ok true, buffer, linePrefix) =>
          (consumeFixedSizeChunks maxLength linePrefix).bind fun
            | .ok true =>
              let next := splitPrefix s.input delimiter
              ret (.ok true, ⟨buffer, next.1, next.2.1, next.2.2⟩)
            | x => ret (x, { s with buffer, linePrefix })
        | (x, buffer, linePrefix) => ret (x, { s with buffer, linePrefix }))
    else if maxLength ≠ 0 ∧ s.buffer.length + s.input.length ≥ maxLength then
      (consumeBufferPlus s.buffer s.input (maxLength - s.buffer.length)).map fun
        | (x, buffer, input) => (x, { s with buffer, input })
    else ret (.ok true, s)
  else ret (.ok true, s)

lemma length_splitPrefix (input : StringPiece) :
    2 * (splitPrefix input delimiter).2.2.length + (splitPrefix input delimiter).1.toNat
      < 2 * input.length + 1 := by
  unfold splitPrefix
  split
  · rename_i found h
    have := (findIdx?_eq_some_iff_getElem.mp h).1
    rw [length_drop]
    simp only [Bool.toNat_true]
    omega
  · simp

def sendLines (found : Bool) (linePrefix input : StringPiece) :
    Dialogue (Answer ε) StringPiece (Answer ε × StringPiece) :=
  if found then
    (consumeFixedSizeChunks maxLength linePrefix).bind fun
      | .ok true =>
        let next := splitPrefix input delimiter
        sendLines next.1 next.2.1 next.2.2
      | x => ret (x, input)
  else ret (.ok true, input)
termination_by 2 * input.length + found.toNat
decreasing_by
  rename_i h
  rw [h]
  exact length_splitPrefix delimiter input

def sendBlocks (input : StringPiece) : Dialogue (Answer ε) StringPiece (Answer ε × StringPiece) :=
  if maxLength ≠ 0 ∧ input.length ≥ maxLength then
    call (input.take maxLength) fun
      | .ok true => sendBlocks (input.drop maxLength)
      | x => ret (x, input)
  else ret (.ok true, input)
termination_by input.length
decreasing_by
  rw [List.length_drop]
  omega

def consumeInput (s : Search) : Dialogue (Answer ε) StringPiece (Answer ε × StringPiece) :=
  (sendLines delimiter maxLength s.found s.linePrefix s.input).bind fun
    | (.ok true, input) =>
      (sendBlocks maxLength input).bind fun
        | (.ok true, input) =>
          let buffer := if input ≠ [] then s.buffer ++ input else s.buffer
          checked maxLength buffer (ret (.ok true, buffer))
        | (x, _) => ret (x, s.buffer)
    | (x, _) => ret (x, s.buffer)

def operatorCall (buffer input : StringPiece) :
    Dialogue (Answer ε) StringPiece (Answer ε × StringPiece) :=
  let first := splitPrefix input delimiter
  (consumeBuffer delimiter maxLength ⟨buffer, first.1, first.2.1, first.2.2⟩).bind fun
    | (.ok true, s) => consumeInput delimiter maxLength s
    | (x, s) => ret (x, s.buffer)

def session (buffer : StringPiece) :
    List StringPiece → Dialogue (Answer ε) StringPiece (Answer ε × StringPiece)
  | [] => flush maxLength buffer
  | input :: inputs => (operatorCall delimiter maxLength buffer input).bind fun
      | (.ok true, buffer) => session buffer inputs
      | r => ret r

section Yields

variable {delimiter maxLength}

lemma consumeFixedSizeChunks_yields (s : StringPiece) :
    Yields (.ok true) (consumeFixedSizeChunks (ε := ε) maxLength s) (blocks maxLength s) (.ok true) := by
  induction hk : s.length using Nat.strong_induction_on generalizing s with
  | _ k ih =>
    rw [consumeFixedSizeChunks]
    by_cases hs : s = []
    · rw [if_pos hs, hs, blocks_nil]
      exact .ret _
    have hpos : 0 < s.length := length_pos_iff.mpr hs
    rw [if_neg hs]
    by_cases hn : maxLength = 0 ∨ s.length ≤ maxLength
    · have hall : (if maxLength ≠ 0 then min s.length maxLength else s.length) = s.length := by
        split <;> omega
      have hone : blocks maxLength s = [s] := by
        rcases hn with rfl | hn
        · exact blocks_zero hs
        · exact blocks_of_length_le hs hn
      rw [hall, hone]
      dsimp only
      rw [take_length, drop_length]
      refine .call ?_
      have hend := ih 0 (hk ▸ hpos) [] rfl
      rwa [blocks_nil] at hend
    rw [not_or, Nat.not_le] at hn
    have hpart : (if maxLength ≠ 0 then min s.length maxLength else s.length) = maxLength := by
      split <;> omega
    rw [hpart, blocks_of_lt (Nat.pos_of_ne_zero hn.1) hn.2.le]
    exact .call (ih _ (by rw [length_drop]; omega) _ rfl)

lemma sendLines_yields (w : StringPiece) :
    Yields (.ok true) (sendLines (ε := ε) delimiter maxLength (splitPrefix w delimiter).1
        (splitPrefix w delimiter).2.1 (splitPrefix w delimiter).2.2)
      ((splitLines delimiter w).1.flatMap (blocks maxLength)) (.ok true, (splitLines delimiter w).2) := by
  induction hk : w.length using Nat.strong_induction_on generalizing w with
  | _ k ih =>
    by_cases hd : delimiter ∈ w
    · obtain ⟨a, v, rfl, ha⟩ := eq_append_cons_of_mem hd
      have hv := ih v.length (by rw [← hk, length_append, length_cons]; omega) v rfl
      rw [splitPrefix_append ha, splitLines_append ha, sendLines, if_pos rfl, flatMap_cons]
      exact (consumeFixedSizeChunks_yields _).bind hv
    · rw [splitPrefix_of_notMem hd, splitLines_of_notMem hd, sendLines, if_neg Bool.false_ne_true]
      exact .ret _

variable {w buffer : StringPiece}

lemma sendBlocks_yields (hd : delimiter ∉ w) :
    Yields (.ok true) (sendBlocks (ε := ε) maxLength w) (cut delimiter maxLength [] w).1
      (.ok true, (cut delimiter maxLength [] w).2) := by
  induction hk : w.length using Nat.strong_induction_on generalizing w with
  | _ k ih =>
    rw [sendBlocks]
    by_cases hn : maxLength ≠ 0 ∧ w.length ≥ maxLength
    · have hpos := Nat.pos_of_ne_zero hn.1
      have hrest := ih (w.drop maxLength).length (by rw [length_drop]; omega)
        (fun h => hd (mem_of_mem_drop h)) rfl
      rw [if_pos hn, cut_block (fun h => hd (mem_of_mem_take h)) hpos hn.2]
      exact .call hrest
    · rw [if_neg hn, cut_of_notMem hd (by rw [length_nil]; omega)]
      exact .ret _

lemma checked_yields (h : maxLength = 0 ∨ buffer.length < maxLength) :
    Yields (.ok true) (checked (ε := ε) maxLength buffer (ret ((.ok true : Answer ε), buffer))) []
      (.ok true, buffer) := by
  rw [checked, if_pos h]
  exact .ret _

lemma consumeInput_yields (w : StringPiece) :
    Yields (.ok true) (consumeInput (ε := ε) delimiter maxLength ⟨[], (splitPrefix w delimiter).1,
        (splitPrefix w delimiter).2.1, (splitPrefix w delimiter).2.2⟩)
      (cut delimiter maxLength [] w).1 (.ok true, (cut delimiter maxLength [] w).2) := by
  have hlength := length_cut (d := delimiter) (n := maxLength) (b := []) w
    (by rw [length_nil]; omega)
  rw [cut_lines] at hlength ⊢
  refine (sendLines_yields w).bind ?_
  rw [← append_nil (cut delimiter maxLength [] (splitLines delimiter w).2).1]
  refine (sendBlocks_yields (notMem_splitLines w)).bind ?_
  dsimp only
  rw [ite_not, nil_append, ite_eq_right_iff.mpr fun h => h.symm]
  exact checked_yields hlength

section Buffer

variable {buffer : StringPiece} (hne : buffer.length ≠ 0)
include hne

lemma consumeBuffer_of_found (hb : maxLength = 0 ∨ buffer.length < maxLength) {a : StringPiece}
    (ha : delimiter ∉ a) (v : StringPiece) :
    Yields (.ok true) (consumeBuffer (ε := ε) delimiter maxLength ⟨buffer, true, a ++ [delimiter], v⟩)
      (cut delimiter maxLength buffer (a ++ [delimiter])).1
      (.ok true, ⟨[], (splitPrefix v delimiter).1, (splitPrefix v delimiter).2.1,
        (splitPrefix v delimiter).2.2⟩) := by
  rw [cut_begun ha hb rfl]
  unfold consumeBuffer checked
  rw [if_pos hne, if_pos rfl, if_pos hb]
  refine .call ?_
  rw [← append_nil (blocks _ _)]
  exact (consumeFixedSizeChunks_yields _).bind (.ret _)

lemma consumeBuffer_of_full {w : StringPiece}
    (hfull : maxLength ≠ 0 ∧ buffer.length + w.length ≥ maxLength) :
    Yields (.ok true) (consumeBuffer (ε := ε) delimiter maxLength ⟨buffer, false, [], w⟩)
      [buffer ++ w.take (maxLength - buffer.length)]
      (.ok true, ⟨[], false, [], w.drop (maxLength - buffer.length)⟩) := by
  unfold consumeBuffer
  rw [if_pos hne, if_neg Bool.false_ne_true, if_pos hfull]
  exact .call (.ret _)

lemma consumeBuffer_of_short {w : StringPiece}
    (hshort : maxLength = 0 ∨ buffer.length + w.length < maxLength) :
    Yields (.ok true) (consumeBuffer (ε := ε) delimiter maxLength ⟨buffer, false, [], w⟩) []
      (.ok true, ⟨buffer, false, [], w⟩) := by
  unfold consumeBuffer
  dsimp only
  rw [if_pos hne, if_neg Bool.false_ne_true, if_neg (by omega)]
  exact .ret _

end Buffer

lemma consumeInput_of_short (hshort : maxLength = 0 ∨ buffer.length + w.length < maxLength) :
    Yields (.ok true) (consumeInput (ε := ε) delimiter maxLength ⟨buffer, false, [], w⟩) []
      (.ok true, buffer ++ w) := by
  unfold consumeInput
  rw [sendLines, if_neg Bool.false_ne_true, ret_bind]
  dsimp only
  rw [sendBlocks, if_neg (by omega), ret_bind]
  dsimp only
  have happend : (if w ≠ [] then buffer ++ w else buffer) = buffer ++ w := by
    by_cases hw : w = []
    · simp
    · rw [if_pos hw]
  rw [happend]
  exact checked_yields (by rwa [length_append])

lemma operatorCall_yields (hb : maxLength = 0 ∨ buffer.length < maxLength)
    (w : StringPiece) : Yields (.ok true) (operatorCall (ε := ε) delimiter maxLength buffer w)
      (cut delimiter maxLength buffer w).1 (.ok true, (cut delimiter maxLength buffer w).2) := by
  rw [operatorCall]
  by_cases hempty : buffer.length = 0
  · obtain rfl : buffer = [] := length_eq_zero_iff.mp hempty
    exact consumeInput_yields w
  by_cases hd : delimiter ∈ w
  · obtain ⟨a, v, rfl, ha⟩ := eq_append_cons_of_mem hd
    have hsplit : a ++ delimiter :: v = (a ++ [delimiter]) ++ v := by
      rw [append_assoc, singleton_append]
    have hfirst := consumeBuffer_of_found (ε := ε) hempty hb ha v
    rw [splitPrefix_append ha, hsplit, cut_append]
    rw [cut_begun ha hb rfl] at hfirst ⊢
    exact hfirst.bind (consumeInput_yields v)
  rw [splitPrefix_of_notMem hd]
  by_cases hshort : maxLength = 0 ∨ buffer.length + w.length < maxLength
  · rw [cut_of_notMem hd hshort]
    exact (consumeBuffer_of_short hempty hshort).bind (consumeInput_of_short hshort)
  have hfull : maxLength ≠ 0 ∧ buffer.length + w.length ≥ maxLength := by omega
  have hnone : delimiter ∉ w.drop (maxLength - buffer.length) := fun h => hd (mem_of_mem_drop h)
  rw [cut_fill (fun h => hd (mem_of_mem_take h)) (by omega) hfull.2]
  have hrest : Yields (.ok true) (consumeInput (ε := ε) delimiter maxLength _) _ _ :=
    consumeInput_yields (w.drop (maxLength - buffer.length))
  rw [splitPrefix_of_notMem hnone] at hrest
  exact (consumeBuffer_of_full hempty hfull).bind hrest

lemma session_yields (hb : maxLength = 0 ∨ buffer.length < maxLength)
    (inputs : List StringPiece) :
    Yields (.ok true) (session (ε := ε) delimiter maxLength buffer inputs)
      ((cut delimiter maxLength buffer inputs.flatten).1 ++
        [(cut delimiter maxLength buffer inputs.flatten).2]) (.ok true, []) := by
  induction inputs generalizing buffer with
  | nil =>
    rw [session, flush, checked, if_pos hb]
    exact .call (.ret _)
  | cons input inputs ih =>
    rw [session, flatten_cons, cut_append, append_assoc]
    exact (operatorCall_yields hb input).bind (ih (length_cut input hb))

end Yields

section Relays

variable {delimiter maxLength}

lemma consumeFixedSizeChunks_relays (s : StringPiece) :
    Relays (.ok true) (fun (x r : Answer ε) => r = x) (· = .ok true)
      (consumeFixedSizeChunks maxLength s) := by
  induction hk : s.length using Nat.strong_induction_on generalizing s with
  | _ k ih =>
    rw [consumeFixedSizeChunks]
    by_cases hs : s = []
    · rw [if_pos hs]
      rfl
    have hpos : 0 < s.length := length_pos_iff.mpr hs
    rw [if_neg hs]
    refine ⟨fun x hx => ?_, ih _ ?_ _ rfl⟩
    · obtain ⟨e, rfl⟩ | rfl := error_or_false hx <;> exact ⟨_, rfl, rfl⟩
    · rw [length_drop]
      split <;> omega

lemma consumeBufferPlus_relays (buf s : StringPiece) (n : Nat) :
    Relays (.ok true) (fun (x : Answer ε) r => r.1 = x) (·.1 = .ok true)
      (consumeBufferPlus buf s n) := by
  refine ⟨fun x hx => ?_, rfl⟩
  obtain ⟨e, rfl⟩ | rfl := error_or_false hx <;> exact ⟨_, rfl, rfl⟩

lemma checked_relays {ρ : Type*} {S : Answer ε → ρ → Prop} {E : ρ → Prop} {buffer : StringPiece}
    {p : Dialogue (Answer ε) StringPiece ρ} (hp : Relays (.ok true) S E p) :
    Relays (.ok true) S E (checked maxLength buffer p) := by
  rw [checked]
  split
  · exact hp
  · trivial

lemma flush_relays (buffer : StringPiece) :
    Relays (.ok true) (fun (x : Answer ε) r => r.1 = x) (·.1 = .ok true) (flush maxLength buffer) := by
  refine checked_relays ⟨fun x hx => ?_, rfl⟩
  obtain ⟨e, rfl⟩ | rfl := error_or_false hx <;> exact ⟨_, rfl, rfl⟩

lemma consumeBuffer_relays (s : Search) :
    Relays (.ok true) (fun (x : Answer ε) r => r.1 = x) (·.1 = .ok true)
      (consumeBuffer delimiter maxLength s) := by
  unfold consumeBuffer
  split
  · split
    · refine checked_relays ((consumeBufferPlus_relays _ _ _).bind ?_ ?_)
      · rintro x ⟨y, b, l⟩ hx rfl
        obtain ⟨e, rfl⟩ | rfl := error_or_false hx <;> exact ⟨_, rfl, rfl⟩
      rintro ⟨y, b, l⟩ rfl
      refine (consumeFixedSizeChunks_relays l).bind ?_ ?_
      · rintro x y hx rfl
        obtain ⟨e, rfl⟩ | rfl := error_or_false hx <;> exact ⟨_, rfl, rfl⟩
      · rintro y rfl
        rfl
    · split
      · exact (consumeBufferPlus_relays _ _ _).bind (fun x r _ hr => ⟨_, hr, rfl⟩) fun r hr => hr
      · rfl
  · rfl

lemma sendLines_relays (found : Bool) (linePrefix input : StringPiece) :
    Relays (.ok true) (fun (x : Answer ε) r => r.1 = x) (·.1 = .ok true)
      (sendLines delimiter maxLength found linePrefix input) := by
  induction hk : 2 * input.length + found.toNat using Nat.strong_induction_on
    generalizing found linePrefix input with
  | _ k ih =>
    rw [sendLines]
    split
    · rename_i hfound
      refine (consumeFixedSizeChunks_relays _).bind ?_ ?_
      · rintro x y hx rfl
        obtain ⟨e, rfl⟩ | rfl := error_or_false hx <;> exact ⟨_, rfl, rfl⟩
      rintro y rfl
      refine ih _ ?_ _ _ _ rfl
      rw [← hk, hfound]
      exact length_splitPrefix delimiter input
    · rfl

lemma sendBlocks_relays (input : StringPiece) :
    Relays (.ok true) (fun (x : Answer ε) r => r.1 = x) (·.1 = .ok true)
      (sendBlocks maxLength input) := by
  induction hk : input.length using Nat.strong_induction_on generalizing input with
  | _ k ih =>
    rw [sendBlocks]
    split
    · refine ⟨fun x hx => ?_, ih _ ?_ _ rfl⟩
      · obtain ⟨e, rfl⟩ | rfl := error_or_false hx <;> exact ⟨_, rfl, rfl⟩
      · rw [length_drop]
        omega
    · rfl

lemma consumeInput_relays (s : Search) :
    Relays (.ok true) (fun (x : Answer ε) r => r.1 = x) (·.1 = .ok true)
      (consumeInput delimiter maxLength s) := by
  refine (sendLines_relays _ _ _).bind ?_ ?_
  · rintro x ⟨y, l⟩ hx rfl
    obtain ⟨e, rfl⟩ | rfl := error_or_false hx <;> exact ⟨(_, s.buffer), rfl, rfl⟩
  rintro ⟨y, l⟩ rfl
  refine (sendBlocks_relays l).bind ?_ ?_
  · rintro x ⟨y, l⟩ hx rfl
    obtain ⟨e, rfl⟩ | rfl := error_or_false hx <;> exact ⟨(_, s.buffer), rfl, rfl⟩
  · rintro ⟨y, l⟩ rfl
    exact checked_relays rfl

lemma operatorCall_relays (buffer input : StringPiece) :
    Relays (.ok true) (fun (x : Answer ε) r => r.1 = x) (·.1 = .ok true)
      (operatorCall delimiter maxLength buffer input) := by
  refine (consumeBuffer_relays _).bind ?_ ?_
  · rintro x ⟨y, s⟩ hx rfl
    obtain ⟨e, rfl⟩ | rfl := error_or_false hx <;> exact ⟨_, rfl, rfl⟩
  · rintro ⟨y, s⟩ rfl
    exact consumeInput_relays s

end Relays

def pieces (delimiter : UInt8) (maxLength : Nat) (stream : StringPiece) : List StringPiece :=
  let lines := splitLines delimiter stream
  let full := lines.2.length / maxLength * maxLength
  lines.1.flatMap (blocks maxLength) ++ blocks maxLength (lines.2.take full) ++ [lines.2.drop full]

theorem session_pieces (delimiter : UInt8) (maxLength : Nat) (inputs : List StringPiece) {σ : Type*}
    (pieceCb : StringPiece → σ → Answer ε × σ) (h : ∀ piece s, (pieceCb piece s).1 = .ok true) (s : σ) :
    called pieceCb (session delimiter maxLength [] inputs) s
      = pieces delimiter maxLength inputs.flatten ∧
    result pieceCb (session delimiter maxLength [] inputs) s = some (.ok true, []) := by
  have hempty : maxLength = 0 ∨ ([] : StringPiece).length < maxLength := by
    rw [length_nil]
    omega
  have hyields : Yields (.ok true) (session (ε := ε) delimiter maxLength [] inputs) _ _ :=
    session_yields hempty inputs
  refine ⟨?_, hyields.result_eq h s⟩
  rw [hyields.called_eq h s, cut_lines, cut_rest (notMem_splitLines _)]
  rfl

theorem session_pieces_two_calls :
    called (fun _ (s : Unit) => ((.ok true : Answer Empty), s))
        (session 10 2 [] [[97], [98, 10, 99, 100, 101]]) ()
      = [[97, 98], [10], [99, 100], [101]] := by
  rw [(session_pieces 10 2 [[97], [98, 10, 99, 100, 101]]
    (fun _ (s : Unit) => ((.ok true : Answer Empty), s)) (fun _ _ => rfl) ()).1]
  with_unfolding_all decide

end StreamSplitter

end Acc.Gen
