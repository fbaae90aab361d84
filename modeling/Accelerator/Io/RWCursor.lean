import Accelerator.Io.Cursor
import Accelerator.Io.Writing

namespace Acc.Io.Cursor

open List

def copyIn (c : Cursor) (src : List UInt8) : Cursor :=
  { c with crtBuf := overwrite c.crtBuf c.offset src }

def pushLoop (before : List (List UInt8)) (crtBuf : List UInt8) (offset : Nat)
    (after : List (List UInt8)) (src : List UInt8) : Nat × Cursor :=
  let c : Cursor := { before, crtBuf, after, offset }
  if src.length ≤ c.length then
    (src.length, { c.copyIn src with offset := offset + src.length })
  else
    let c' := c.copyIn (src.take c.length)
    match after with
    | [] => (c.length, c'.tryAdvanceBuffer.2)
    | next :: after =>
      let (copied, d) := pushLoop (c'.crtBuf :: before) next 0 after (src.drop c.length)
      (c.length + copied, d)

def pushAtMost (c : Cursor) (src : List UInt8) : Nat × Cursor :=
  if src = [] then (0, c) else pushLoop c.before c.crtBuf c.offset c.after src

def push (c : Cursor) (src : List UInt8) : Except String Unit × Cursor :=
  let (n, c) := c.pushAtMost src
  (if n = src.length then .ok () else .error "overflow", c)

def pushPieces (c : Cursor) : List (List UInt8) → Nat → Except String Nat × Cursor
  | [], _ => (.ok 0, c)
  | piece :: pieces, len =>
    if piece = [] then pushPieces c pieces len
    else if len ≤ piece.length then
      match c.push (piece.take len) with
      | (.ok _, c) => (.ok len, c)
      | (.error what, c) => (.error what, c)
    else
      match c.push piece with
      | (.ok _, c) =>
        let (written, c) := pushPieces c pieces (len - piece.length)
        (written.map (piece.length + ·), c)
      | (.error what, c) => (.error what, c)

def pushAtMostFrom (c source : Cursor) (len : Nat) : Except String Nat × Cursor :=
  c.pushPieces (source.data :: source.after) len

def insert (c : Cursor) (buf : List (List UInt8)) : Cursor :=
  if c.offset = 0 then
    match c.before with
    | [] => { c with after := c.after ++ buf }
    | _ => { c with before := buf.reverse ++ c.before }
  else
    let crtBuf := c.crtBuf.take c.offset
    let before := buf.reverse ++ crtBuf :: c.before
    if c.crtBuf.length - c.offset > 0 then { before, crtBuf := c.data, after := c.after }
    else
      match c.after with
      | next :: after => { before, crtBuf := next, after }
      | [] =>
        match before.reverse with
        | [] => c
        | head :: rest => { crtBuf := head, after := rest }

def gatherLoop (maxLength newLength : Nat) : List (List UInt8) → Option Nat
  | [] => if maxLength ≤ newLength then some 0 else none
  | next :: ring =>
    if maxLength ≤ newLength then some 0
    else (gatherLoop maxLength (newLength + next.length) ring).map (· + 1)

def gatherHere (c : Cursor) (maxLength : Nat) : Option String × Cursor :=
  if (c.before = [] ∧ c.after = []) ∨ maxLength ≤ c.crtBuf.length then (none, c)
  else
    let ring := c.after ++ c.before.reverse
    match gatherLoop maxLength c.crtBuf.length ring with
    | none => (some "attempted to coalesce more data than available", c)
    | some k => (none, { c with
        crtBuf := c.crtBuf ++ (ring.take k).flatten
        after := c.after.drop k
        before := (c.before.reverse.drop (k - c.after.length)).reverse })

def gather (c : Cursor) (n : UInt64) : Option String × Cursor :=
  if c.before ≠ [] ∧ c.totalLength < n then (some "cannot gather() past the end of the chain", c)
  else c.gatherHere (UInt64.ofNat c.offset + n).toNat

structure Wrote (c : Cursor) (src : List UInt8) (c' : Cursor) : Prop where
  inside : c'.Inside
  bytes : c'.bytes = overwrite c.bytes c.position src
  position : c'.position = c.position + src.length

lemma overwrite_middle (pre post : List UInt8) {b : List UInt8} {offset : Nat}
    {src : List UInt8} (h : offset + src.length ≤ b.length) :
    overwrite (pre ++ (b ++ post)) (pre.length + offset) src =
      pre ++ (overwrite b offset src ++ post) := by
  rw [overwrite, overwrite, take_length_add_append, Nat.add_assoc,
    drop_length_add_append, take_append_of_le_length (by omega),
    drop_append_of_le_length h]
  simp only [append_assoc]

lemma overwrite_append {b : List UInt8} {p : Nat} (h : p ≤ b.length) (x y : List UInt8) :
    overwrite (overwrite b p x) (p + x.length) y = overwrite b p (x ++ y) := by
  have hlen : (b.take p ++ x).length = p + x.length := by
    rw [length_append, length_take_of_le h]
  rw [overwrite, overwrite, ← hlen, take_left, drop_length_add_append, drop_drop,
    hlen, overwrite, length_append, Nat.add_assoc]
  simp only [append_assoc]

variable {c c' c'' : Cursor} {src : List UInt8}

lemma length_bytes (c : Cursor) (hin : c.Inside) : c.bytes.length = c.position + c.rest.length := by
  rw [← drop_position hin, length_drop]
  rw [Inside] at hin
  have hle : c.position ≤ c.bytes.length := by
    rw [bytes, length_append, length_reverse_flatten, length_append, position]
    omega
  omega

lemma length_rest (c : Cursor) : c.rest.length = c.length + c.after.flatten.length := by
  rw [rest, length_append, length_data]

lemma Inside.room (h : c.Inside) : c.offset + c.length = c.crtBuf.length := Nat.add_sub_cancel' h

lemma Wrote.refl (hin : c.Inside) : Wrote c [] c :=
  ⟨hin, by simp [overwrite], rfl⟩

lemma Wrote.moved (h : Wrote c src c') (hmoved : Moved c' c'' 0) : Wrote c src c'' :=
  ⟨hmoved.inside, hmoved.bytes.trans h.bytes, hmoved.position.trans h.position⟩

lemma Wrote.trans {x y : List UInt8} (hin : c.Inside) (h : Wrote c x c') (h' : Wrote c' y c'') :
    Wrote c (x ++ y) c'' := by
  refine ⟨h'.inside, ?_, ?_⟩
  · rw [h'.bytes, h.bytes, h.position, overwrite_append (by rw [length_bytes c hin]; omega)]
  · rw [h'.position, h.position, length_append, Nat.add_assoc]

lemma Wrote.rest_length (hin : c.Inside) (h : Wrote c src c') (hfits : src.length ≤ c.rest.length) :
    c'.rest.length = c.rest.length - src.length := by
  have hold := length_bytes c hin
  have hnew := length_bytes c' h.inside
  rw [h.bytes, h.position, length_overwrite (by omega)] at hnew
  omega

lemma wrote_here (h : c.offset + src.length ≤ c.crtBuf.length) :
    Wrote c src { c.copyIn src with offset := c.offset + src.length } := by
  refine ⟨?_, ?_, ?_⟩
  · show c.offset + src.length ≤ (overwrite c.crtBuf c.offset src).length
    rwa [length_overwrite h]
  · rw [position, ← length_reverse_flatten]
    exact (overwrite_middle _ _ h).symm
  · simp only [position, copyIn, Nat.add_assoc]

lemma wrote_whole (hin : c.Inside) (h : src.length = c.length) :
    Wrote c src (c.copyIn src).tryAdvanceBuffer.2 := by
  have hroom : c.offset + src.length = c.crtBuf.length := by
    rw [h, hin.room]
  have hwrote := wrote_here hroom.le
  have hmoved := moved_tryAdvanceBuffer hwrote.inside
  have hzero : length { c.copyIn src with offset := c.offset + src.length } = 0 := by
    simp only [length, copyIn, length_overwrite hroom.le, hroom, Nat.sub_self]
  rw [hzero] at hmoved
  exact hwrote.moved hmoved

lemma pushLoop_spec (before : List (List UInt8)) (crtBuf : List UInt8) (offset : Nat)
    (after : List (List UInt8)) (src : List UInt8) (c : Cursor)
    (hc : c = { before, crtBuf, after, offset }) (hin : c.Inside) :
    (pushLoop before crtBuf offset after src).1 = min src.length c.rest.length ∧
      Wrote c (src.take c.rest.length) (pushLoop before crtBuf offset after src).2 := by
  induction after generalizing before crtBuf offset src c with
  | nil =>
    have hroom := hin.room
    have hrest : c.rest.length = c.length := by rw [length_rest, hc, flatten_nil]; rfl
    rw [pushLoop]
    simp only [← hc]
    split
    · have hoffset : offset = c.offset := by rw [hc]
      rw [Nat.min_eq_left (by omega), take_of_length_le (by omega), hoffset]
      exact ⟨rfl, wrote_here (by omega)⟩
    · rw [hrest, Nat.min_eq_right (by omega)]
      exact ⟨rfl, wrote_whole hin (length_take_of_le (by omega))⟩
  | cons next after ih =>
    have hroom := hin.room
    have hrest : c.rest.length = c.length + (next :: after).flatten.length := by
      rw [length_rest, hc]
    rw [pushLoop]
    simp only [← hc]
    split
    · have hoffset : offset = c.offset := by rw [hc]
      rw [Nat.min_eq_left (by omega), take_of_length_le (by omega), hoffset]
      exact ⟨rfl, wrote_here (by omega)⟩
    next hlong =>
    have hwrote := wrote_whole hin
      (show (src.take c.length).length = _ from length_take_of_le (by omega))
    have hnext : (c.copyIn (src.take c.length)).tryAdvanceBuffer.2 =
        { before := (c.copyIn (src.take c.length)).crtBuf :: before, crtBuf := next, after,
          offset := 0 } := by
      rw [tryAdvanceBuffer, copyIn, hc]
    have hleft : (c.copyIn (src.take c.length)).tryAdvanceBuffer.2.rest.length =
        (next :: after).flatten.length := by rw [hnext]; rfl
    obtain ⟨hcopied, hrun⟩ := ih _ next 0 (src.drop c.length) _ hnext hwrote.inside
    have hboth := hwrote.trans hin hrun
    rw [hleft, length_drop] at hcopied
    rw [hleft, ← take_add, ← hrest] at hboth
    exact ⟨by rw [hcopied, hrest]; omega, hboth⟩

lemma pushAtMost_spec (hin : c.Inside) (src : List UInt8) :
    (c.pushAtMost src).1 = min src.length c.rest.length ∧
      Wrote c (src.take c.rest.length) (c.pushAtMost src).2 := by
  rw [pushAtMost]
  split
  · next hnil =>
    rw [hnil, take_nil, length_nil, Nat.zero_min]
    exact ⟨rfl, .refl hin⟩
  · exact pushLoop_spec _ _ _ _ src c rfl hin

lemma push_spec (hin : c.Inside) (src : List UInt8) :
    if src.length ≤ c.rest.length then ∃ c', c.push src = (.ok (), c') ∧ Wrote c src c'
    else ∃ c', c.push src = (.error "overflow", c') := by
  obtain ⟨hn, hwrote⟩ := pushAtMost_spec hin src
  split
  · next hle =>
    rw [take_of_length_le hle] at hwrote
    refine ⟨_, ?_, hwrote⟩
    simp [push, hn, Nat.min_eq_left hle]
  · refine ⟨(c.pushAtMost src).2, ?_⟩
    simp only [push, hn]
    rw [if_neg (by omega)]

lemma pushPieces_spec (hin : c.Inside) (pieces : List (List UInt8)) (len : Nat) :
    if (pieces.flatten.take len).length ≤ c.rest.length then
      (c.pushPieces pieces len).1 = .ok (pieces.flatten.take len).length ∧
        Wrote c (pieces.flatten.take len) (c.pushPieces pieces len).2
    else (c.pushPieces pieces len).1 = .error "overflow" := by
  induction pieces generalizing c len with
  | nil =>
    rw [flatten_nil, take_nil, length_nil, if_pos (Nat.zero_le _)]
    exact ⟨rfl, .refl hin⟩
  | cons piece pieces ih =>
    by_cases hnil : piece = []
    · rw [pushPieces, if_pos hnil, hnil, flatten_cons, nil_append]
      exact ih hin len
    by_cases hle : len ≤ piece.length
    · have hlen : (piece.take len).length = len := length_take_of_le hle
      have hpush := push_spec hin (piece.take len)
      rw [pushPieces, if_neg hnil, if_pos hle, flatten_cons,
        take_append_of_le_length hle]
      split at hpush
      · next hroom =>
        obtain ⟨c', hc', hwrote⟩ := hpush
        rw [if_pos hroom, hc', hlen]
        exact ⟨rfl, hwrote⟩
      · next hroom =>
        obtain ⟨c', hc'⟩ := hpush
        rw [if_neg hroom, hc']
    have hsrc : (piece :: pieces).flatten.take len =
        piece ++ pieces.flatten.take (len - piece.length) := by
      rw [flatten_cons, take_append, take_of_length_le (by omega)]
    have hpush := push_spec hin piece
    rw [pushPieces, if_neg hnil, if_neg hle, hsrc, length_append]
    split at hpush
    · next hroom =>
      obtain ⟨c', hc', hwrote⟩ := hpush
      have hspec := ih hwrote.inside (len - piece.length)
      rw [hwrote.rest_length hin hroom] at hspec
      simp only [hc']
      split at hspec
      · rw [if_pos (by omega), hspec.1]
        exact ⟨rfl, hwrote.trans hin hspec.2⟩
      · rw [if_neg (by omega), hspec]
        rfl
    · obtain ⟨c', hc'⟩ := hpush
      rw [if_neg (by omega), hc']

theorem pushAtMostFrom_iff (hin : c.Inside) (source : Cursor) (len : Nat) :
    ((c.pushAtMostFrom source len).1 =
          .ok (min len (min source.rest.length c.rest.length)) ∧
        Wrote c (source.rest.take (min len (min source.rest.length c.rest.length)))
          (c.pushAtMostFrom source len).2) ↔
      min len source.rest.length ≤ c.rest.length := by
  have hspec := pushPieces_spec hin (source.data :: source.after) len
  have hflat : (source.data :: source.after).flatten = source.rest := rfl
  rw [hflat, length_take] at hspec
  rw [pushAtMostFrom]
  split at hspec
  · next hle =>
    have hmin : min len (min source.rest.length c.rest.length) = min len source.rest.length := by
      omega
    have htake : source.rest.take (min len source.rest.length) = source.rest.take len := by
      rw [← take_eq_take_min]
    rw [hmin, htake]
    exact iff_of_true hspec hle
  · next hgt =>
    refine iff_of_false (fun h => ?_) hgt
    rw [hspec] at h
    cases h.1

theorem pushAtMostFrom_iff_split : pushAtMostFrom { crtBuf := [0], after := [[0, 0]] }
    { crtBuf := [97, 98], after := [[99]] } 3 =
      (.ok 3, { before := [[97]], crtBuf := [98, 99], after := [], offset := 2 }) := by
  have h := (pushAtMostFrom_iff (c := { crtBuf := [0], after := [[0, 0]] }) (Nat.zero_le _)
    { crtBuf := [97, 98], after := [[99]] } 3).mpr (by decide)
  exact Prod.ext h.1 (by decide)

theorem pushAtMostFrom_throws :
    (pushAtMostFrom { crtBuf := [0], after := [] } { crtBuf := [97, 98], after := [] } 2).1 =
      .error "overflow" := by
  decide

variable {buf : List (List UInt8)}

def Inserted (c : Cursor) (buf : List (List UInt8)) (c' : Cursor) : Prop :=
  c'.bytes = c.bytes.take c.position ++ buf.flatten ++ c.bytes.drop c.position ∧
    c'.position = c.position + buf.flatten.length

lemma take_position (hin : c.Inside) :
    c.bytes.take c.position = c.before.reverse.flatten ++ c.crtBuf.take c.offset := by
  rw [bytes, position, ← length_reverse_flatten, take_length_add_append,
    take_append_of_le_length hin]

lemma inserted_between (hin : c.Inside) {crtBuf : List UInt8} {after : List (List UInt8)}
    (h : crtBuf ++ after.flatten = c.rest) :
    Inserted c buf { before := buf.reverse ++ c.crtBuf.take c.offset :: c.before, crtBuf, after } := by
  refine ⟨?_, ?_⟩
  · rw [take_position hin, drop_position hin, ← h]
    simp [bytes]
  have hlen : (c.crtBuf.take c.offset).length = c.offset := length_take_of_le hin
  rw [position, position, map_append, sum_append, map_cons, sum_cons, hlen,
    ← length_reverse_flatten, reverse_reverse]
  show _ + 0 = _
  omega

theorem insert_iff (hin : c.Inside) (buf : List (List UInt8)) :
    Inserted c buf (c.insert buf) ↔
      ¬ (c.before = [] ∧ c.offset = 0 ∧ buf.flatten ≠ []) ∧
        ¬ (c.after = [] ∧ 0 < c.offset ∧ c.offset = c.crtBuf.length) := by
  unfold insert
  split
  · next hzero =>
    split
    · next hbefore =>
      have hpos : c.position = 0 := by rw [position, hbefore, hzero]; rfl
      rw [Inserted, hpos]
      constructor
      · rintro ⟨_, hlen⟩
        refine ⟨fun h => h.2.2 ?_, fun h => by omega⟩
        rw [position, hbefore, hzero] at hlen
        exact eq_nil_of_length_eq_zero (by simpa using hlen.symm)
      · rintro ⟨hhead, _⟩
        have hnil : buf.flatten = [] := not_not.mp fun h => hhead ⟨hbefore, hzero, h⟩
        refine ⟨?_, ?_⟩
        · simp [bytes, hbefore, hnil]
        · rw [position, hbefore, hzero, hnil]
          rfl
    · next hbefore =>
      refine iff_of_true ⟨?_, ?_⟩ ⟨fun h => hbefore h.1, fun h => by omega⟩
      · rw [take_position hin, drop_position hin, hzero, rest, data, hzero]
        simp [bytes]
      · rw [position, position, map_append, sum_append, ← length_reverse_flatten,
          reverse_reverse]
        show _ + c.offset = _
        omega
  · next hpos =>
    simp only
    split
    · exact iff_of_true (inserted_between hin rfl) ⟨fun h => hpos h.2.1, fun h => by omega⟩
    · next hend =>
      rw [Inside] at hin
      have hdata : c.data = [] := drop_eq_nil_of_le (by omega)
      split
      · next next after hafter =>
        refine iff_of_true (inserted_between hin ?_) ⟨fun h => hpos h.2.1, fun h => ?_⟩
        · rw [rest, hdata, hafter]
          rfl
        · rw [hafter] at h
          cases h.1
      · next hafter =>
        refine iff_of_false ?_ fun h => h.2 ⟨hafter, by omega, by omega⟩
        rintro ⟨_, hlen⟩
        split at hlen
        · next hnil => simp at hnil
        · rw [position, position] at hlen
          simp at hlen
          omega

theorem insert_iff_middle : Inserted { crtBuf := [97, 98], after := [], offset := 1 } [[120]]
    (insert { crtBuf := [97, 98], after := [], offset := 1 } [[120]]) :=
  (insert_iff (c := { crtBuf := [97, 98], after := [], offset := 1 }) (Nat.le_succ 1) [[120]]).mpr
    (by decide)

theorem insert_at_ends : (insert { crtBuf := [97], after := [] } [[98]]).bytes = [97, 98] ∧
    (insert { crtBuf := [97], after := [], offset := 1 } [[98]]).position = 0 := by
  decide

def Gathered (c : Cursor) (n : Nat) (r : Option String × Cursor) : Prop :=
  (r.1 ≠ none ∧ r.2 = c) ∨
    (r.1 = none ∧ n ≤ r.2.length ∧ r.2.bytes = c.bytes ∧ r.2.position = c.position)

lemma gatherLoop_spec {maxLength newLength k : Nat} {ring : List (List UInt8)}
    (h : gatherLoop maxLength newLength ring = some k) :
    maxLength ≤ newLength + (ring.take k).flatten.length ∧
      ∀ j, maxLength ≤ newLength + (ring.take j).flatten.length → k ≤ j := by
  induction ring generalizing newLength k with
  | nil =>
    rw [gatherLoop] at h
    split at h
    · next hle => cases h; exact ⟨by simpa using hle, fun j _ => Nat.zero_le j⟩
    · cases h
  | cons next ring ih =>
    rw [gatherLoop] at h
    split at h
    · next hle => cases h; exact ⟨by simpa using hle, fun j _ => Nat.zero_le j⟩
    next hlt =>
    obtain ⟨k, hk, rfl⟩ := Option.map_eq_some_iff.mp h
    obtain ⟨henough, hleast⟩ := ih hk
    refine ⟨?_, ?_⟩
    · rw [take_succ_cons, flatten_cons, length_append]
      omega
    rintro (_ | j) hj
    · rw [take_zero, flatten_nil, length_nil] at hj
      omega
    · rw [take_succ_cons, flatten_cons, length_append] at hj
      exact Nat.succ_le_succ (hleast j (by omega))

lemma gatherLoop_behind {maxLength k : Nat}
    (h : gatherLoop maxLength c.crtBuf.length (c.after ++ c.before.reverse) = some k)
    (hbehind : c.before = [] ∨ maxLength ≤ c.crtBuf.length + c.after.flatten.length) :
    maxLength ≤ c.crtBuf.length + ((c.after ++ c.before.reverse).take k).flatten.length ∧
      k ≤ c.after.length := by
  obtain ⟨henough, hleast⟩ := gatherLoop_spec h
  refine ⟨henough, ?_⟩
  rcases hbehind with hhead | hle
  · by_contra hgt
    rw [hhead, reverse_nil, append_nil] at henough hleast
    rw [take_of_length_le (by omega)] at henough
    exact hgt (hleast c.after.length (by rwa [take_length]))
  · exact hleast c.after.length (by rwa [take_left])

theorem gather_iff (hin : c.Inside) (n : UInt64) :
    Gathered c n.toNat (c.gather n) ↔
      ¬ (c.length < n.toNat ∧ (c.before = [] ∨ n ≤ c.totalLength) ∧
        ((c.before = [] ∧ c.after = []) ∨ 2 ^ 64 ≤ c.offset + n.toNat)) := by
  have hn := n.toNat_lt
  have hm : (UInt64.ofNat c.offset + n).toNat = (c.offset + n.toNat) % 2 ^ 64 := by
    simp
  have hroom := hin.room
  unfold gather
  split
  · next hthrow =>
    refine iff_of_true (Or.inl ⟨Option.some_ne_none _, rfl⟩) ?_
    rintro ⟨_, hhead | hle, _⟩
    · exact hthrow.1 hhead
    · exact absurd hthrow.2 (UInt64.not_lt.mpr hle)
  · next hcheck =>
    have hpassed : c.before = [] ∨ n ≤ c.totalLength := by
      by_contra h
      rw [not_or, UInt64.not_le] at h
      exact hcheck h
    unfold gatherHere
    rw [hm]
    split
    · next hhere =>
      have hiff : Gathered c n.toNat (none, c) ↔ n.toNat ≤ c.length := by
        simp [Gathered]
      rw [hiff]
      constructor
      · intro hle h
        omega
      · intro h
        by_contra hlt
        refine h ⟨by omega, hpassed, ?_⟩
        rcases hhere with hsingle | hshort
        · exact Or.inl hsingle
        · refine Or.inr ?_
          by_contra hwrap
          omega
    · next hslow =>
      rw [not_or] at hslow
      have hwrap : c.offset + n.toNat < 2 ^ 64 := by
        by_contra hge
        omega
      rw [Nat.mod_eq_of_lt hwrap] at hslow ⊢
      refine iff_of_true ?_ fun h => h.2.2.elim hslow.1 (by omega)
      simp only
      split
      · exact Or.inl ⟨Option.some_ne_none _, rfl⟩
      · next k hk =>
        have hbehind : c.before = [] ∨
            c.offset + n.toNat ≤ c.crtBuf.length + c.after.flatten.length := by
          refine hpassed.imp_right fun hle => ?_
          rw [totalLength_eq hin, UInt64.le_iff_toNat_le, UInt64.toNat_ofNat'] at hle
          have hleft := length_rest c
          omega
        obtain ⟨henough, hkle⟩ := gatherLoop_behind hk hbehind
        refine Or.inr ⟨rfl, ?_, ?_, ?_⟩
        · show _ ≤ (c.crtBuf ++ _).length - c.offset
          rw [length_append]
          omega
        · simp only [bytes]
          simp [Nat.sub_eq_zero_of_le hkle, take_append_of_le_length hkle, ← flatten_append]
        · simp only [position]
          simp [Nat.sub_eq_zero_of_le hkle]

theorem gather_iff_pair : Gathered { crtBuf := [97], after := [[98]] } 2
    (gather { crtBuf := [97], after := [[98]] } 2) :=
  (gather_iff (c := { crtBuf := [97], after := [[98]] }) (Nat.zero_le _) 2).mpr (by decide)

theorem gather_returns_short : gather { crtBuf := [97], after := [] } 2 =
    (none, { crtBuf := [97], after := [] }) := by
  decide

end Acc.Io.Cursor
