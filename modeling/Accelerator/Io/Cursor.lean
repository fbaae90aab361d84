import Accelerator.Io.Content

namespace Acc.Io

open List hiding beq_eq_decide isEmpty_iff

structure Cursor where
  before : List (List UInt8) := []
  crtBuf : List UInt8
  after : List (List UInt8)
  offset : Nat := 0
  deriving DecidableEq, Repr

namespace Cursor

def length (c : Cursor) : Nat := c.crtBuf.length - c.offset

def tryAdvanceBuffer (c : Cursor) : Bool × Cursor :=
  match c.after with
  | [] => (false, { c with offset := c.crtBuf.length })
  | next :: after =>
    (true, { before := c.crtBuf :: c.before, crtBuf := next, after := after, offset := 0 })

def advanceBufferIfEmpty (c : Cursor) : Cursor :=
  if c.length = 0 then c.tryAdvanceBuffer.2 else c

def advance (c : Cursor) (len : Nat) : Cursor :=
  advanceBufferIfEmpty { c with offset := c.offset + len }

def data (c : Cursor) : List UInt8 := c.crtBuf.drop c.offset

def walk (before : List (List UInt8)) (crtBuf : List UInt8) (offset : Nat) :
    List (List UInt8) → Nat → List (List UInt8) × Bool × Cursor
  | [], len =>
    let c : Cursor := { before, crtBuf, after := [], offset }
    if c.length < len then ([c.data], false, c.tryAdvanceBuffer.2)
    else ([c.data.take len], true, c.advance len)
  | next :: after, len =>
    let c : Cursor := { before, crtBuf, after := next :: after, offset }
    if c.length < len then
      let (pieces, found, c') := walk (crtBuf :: before) next 0 after (len - c.length)
      (c.data :: pieces, found, c')
    else ([c.data.take len], true, c.advance len)

def pieces (c : Cursor) (len : Nat) : List (List UInt8) × Bool × Cursor :=
  walk c.before c.crtBuf c.offset c.after len

def skipAtMostSlow (c : Cursor) (len : Nat) : Nat × Cursor :=
  let (pieces, _, c) := c.pieces len
  ((pieces.map List.length).sum, c)

def skipAtMost (c : Cursor) (len : Nat) : Nat × Cursor :=
  if len ≤ c.length then (len, c.advance len) else c.skipAtMostSlow len

def copyPieces (dest : List UInt8) : List (List UInt8) → List UInt8
  | [] => dest
  | piece :: pieces => piece ++ copyPieces (dest.drop piece.length) pieces

def pullAtMostSlow (c : Cursor) (dest : List UInt8) : List UInt8 × Nat × Cursor :=
  let (pieces, _, c) := c.pieces dest.length
  (copyPieces dest pieces, (pieces.map List.length).sum, c)

def pullAtMost (c : Cursor) (dest : List UInt8) : List UInt8 × Nat × Cursor :=
  if dest.length ≤ c.length then
    (copyPieces dest [c.data.take dest.length], dest.length, c.advance dest.length)
  else c.pullAtMostSlow dest

def readFixedStringSlow (c : Cursor) (len : Nat) : List UInt8 × Bool × Cursor :=
  let (pieces, found, c) := c.pieces len
  (pieces.flatten, found, c)

def readFixedString (c : Cursor) (len : Nat) : List UInt8 × Bool × Cursor :=
  if len ≤ c.length then (c.data.take len, true, c.advance len) else c.readFixedStringSlow len

def cloneAtMost (c : Cursor) (len : Nat) : List (List UInt8) × Nat × Cursor :=
  let (pieces, _, c) := c.pieces len
  (pieces, (pieces.map List.length).sum, c)

def tryRead (c : Cursor) (val : List UInt8) : Bool × List UInt8 × Cursor :=
  if val.length ≤ c.length then (true, c.data.take val.length, c.advance val.length)
  else
    let (val', n, c') := c.pullAtMostSlow val
    (n == val.length, val', c')

def retreatAtMostSlow (crtBuf : List UInt8) (after : List (List UInt8)) (offset : Nat) :
    List (List UInt8) → Nat → Nat × Cursor
  | [], len =>
    if offset < len then (offset, { before := [], crtBuf, after, offset := 0 })
    else (len, { before := [], crtBuf, after, offset := offset - len })
  | prev :: before, len =>
    if offset < len then
      let (n, c) := retreatAtMostSlow prev (crtBuf :: after) prev.length before (len - offset)
      (offset + n, c)
    else (len, { before := prev :: before, crtBuf, after, offset := offset - len })

def retreatAtMost (c : Cursor) (len : Nat) : Nat × Cursor :=
  if len ≤ c.offset then (len, { c with offset := c.offset - len })
  else retreatAtMostSlow c.crtBuf c.after c.offset c.before len

def canAdvanceLoop (available : Nat) : List (List UInt8) → Nat → Bool
  | [], amount => amount ≤ available
  | next :: after, amount =>
    if amount ≤ available then true
    else canAdvanceLoop next.length after (amount - available)

def canAdvance (c : Cursor) (amount : Nat) : Bool := canAdvanceLoop c.length c.after amount

def chainLength (chain : List (List UInt8)) : UInt64 :=
  UInt64.ofNat (chain.map List.length).sum

def totalLength (c : Cursor) : UInt64 :=
  if c.before.isEmpty then chainLength (c.crtBuf :: c.after) - UInt64.ofNat c.offset
  else if c.after.isEmpty then UInt64.ofNat (c.crtBuf.length - c.offset)
  else
    UInt64.ofNat (c.crtBuf.length - c.offset) + chainLength c.after.dropLast +
      UInt64.ofNat (c.after.getLast?.getD []).length

def isAtEnd (c : Cursor) : Bool :=
  if c.offset ≠ c.crtBuf.length then false
  else if c.after.isEmpty then true
  else c.after.all fun buf => buf.length == 0

def littleValue : List UInt8 → Nat
  | [] => 0
  | b :: bs => b.toNat + 256 * littleValue bs

def bigValue (val : List UInt8) : Nat := littleValue val.reverse

inductive Call
  | skip (len : Nat)
  | skipAtMost (len : Nat)
  | retreat (len : Nat)
  | retreatAtMost (len : Nat)
  | pull (dest : List UInt8)
  | pullAtMost (dest : List UInt8)
  | tryRead (val : List UInt8)
  | tryReadBE (val : List UInt8)
  | tryReadLE (val : List UInt8)
  | read (size : Nat)
  | readBE (size : Nat)
  | readLE (size : Nat)
  | readFixedString (len : Nat)
  | clone (len : Nat)
  | cloneAtMost (len : Nat)
  | canAdvance (amount : Nat)
  | totalLength
  | isAtEnd
  deriving DecidableEq, Repr

inductive Outcome
  | done
  | flag (b : Bool)
  | size (n : Nat)
  | total (n : UInt64)
  | number (n : Nat)
  | tried (success : Bool) (val : Nat)
  | memory (bytes : List UInt8)
  | copied (bytes : List UInt8) (n : Nat)
  | thrown (what : String) (bytes : List UInt8)
  deriving DecidableEq, Repr

def readWith (c : Cursor) (size : Nat) (value : List UInt8 → Nat) : Outcome × Cursor :=
  let (success, val, c) := c.tryRead (List.replicate size 0)
  (if success then .number (value val) else .thrown "underflow" [], c)

def call (c : Cursor) : Call → Outcome × Cursor
  | .skip len =>
    let (n, c) := c.skipAtMost len
    (if n = len then .done else .thrown "underflow" [], c)
  | .skipAtMost len =>
    let (n, c) := c.skipAtMost len
    (.size n, c)
  | .retreat len =>
    let (n, c) := c.retreatAtMost len
    (if n = len then .done else .thrown "underflow" [], c)
  | .retreatAtMost len =>
    let (n, c) := c.retreatAtMost len
    (.size n, c)
  | .pull dest =>
    let (bytes, n, c) := c.pullAtMost dest
    (if n = dest.length then .memory bytes else .thrown "underflow" bytes, c)
  | .pullAtMost dest =>
    let (bytes, n, c) := c.pullAtMost dest
    (.copied bytes n, c)
  | .tryRead val =>
    let (success, val, c) := c.tryRead val
    (.tried success (littleValue val), c)
  | .tryReadBE val =>
    let (success, val, c) := c.tryRead val
    (.tried success (bigValue val), c)
  | .tryReadLE val =>
    let (success, val, c) := c.tryRead val
    (.tried success (littleValue val), c)
  | .read size => c.readWith size littleValue
  | .readBE size => c.readWith size bigValue
  | .readLE size => c.readWith size littleValue
  | .readFixedString len =>
    let (bytes, found, c) := c.readFixedString len
    (if found then .memory bytes else .thrown "string underflow" [], c)
  | .clone len =>
    let (buffers, n, c) := c.cloneAtMost len
    (if n = len then .memory buffers.flatten else .thrown "underflow" buffers.flatten, c)
  | .cloneAtMost len =>
    let (buffers, n, c) := c.cloneAtMost len
    (.copied buffers.flatten n, c)
  | .canAdvance amount => (.flag (c.canAdvance amount), c)
  | .totalLength => (.total c.totalLength, c)
  | .isAtEnd => (.flag c.isAtEnd, c)

def calls (c : Cursor) : List Call → List (Outcome × Cursor)
  | [] => []
  | a :: as => c.call a :: (c.call a).2.calls as

def bytes (c : Cursor) : List UInt8 := c.before.reverse.flatten ++ (c.crtBuf ++ c.after.flatten)

def position (c : Cursor) : Nat := (c.before.map List.length).sum + c.offset

def Inside (c : Cursor) : Prop := c.offset ≤ c.crtBuf.length

def rest (c : Cursor) : List UInt8 := c.data ++ c.after.flatten

lemma length_reverse_flatten (l : List (List UInt8)) :
    l.reverse.flatten.length = (l.map List.length).sum := by
  simp

variable {c c' : Cursor}

lemma drop_position (h : c.Inside) : c.bytes.drop c.position = c.rest := by
  rw [bytes, position, ← length_reverse_flatten, drop_length_add_append,
    drop_append_of_le_length h]
  rfl

lemma length_data (c : Cursor) : c.data.length = c.length := length_drop

structure Moved (c c' : Cursor) (n : Nat) : Prop where
  inside : c'.Inside
  bytes : c'.bytes = c.bytes
  position : c'.position = c.position + n

lemma Moved.trans {c'' : Cursor} {m n : Nat} (h : Moved c c' m) (h' : Moved c' c'' n) :
    Moved c c'' (m + n) :=
  ⟨h'.inside, h'.bytes.trans h.bytes, by rw [h'.position, h.position, Nat.add_assoc]⟩

lemma moved_tryAdvanceBuffer (h : c.Inside) : Moved c c.tryAdvanceBuffer.2 c.length := by
  rw [tryAdvanceBuffer]
  split
  · rename_i hafter
    refine ⟨le_refl _, rfl, ?_⟩
    simp only [position, length]
    have := h
    rw [Inside] at this
    omega
  rename_i next after hafter
  refine ⟨Nat.zero_le _, ?_, ?_⟩
  · simp [bytes, hafter]
  · simp only [position, length, map_cons, sum_cons]
    rw [Inside] at h
    omega

lemma moved_advance {len : Nat} (h : c.offset + len ≤ c.crtBuf.length) :
    Moved c (c.advance len) len := by
  have hstep : Moved c { c with offset := c.offset + len } len :=
    ⟨h, rfl, by simp only [position]; omega⟩
  rw [advance, advanceBufferIfEmpty]
  split
  · rename_i hzero
    have hnext := hstep.trans (moved_tryAdvanceBuffer hstep.inside)
    rwa [hzero] at hnext
  · exact hstep

lemma walk_here (c : Cursor) {len : Nat} (hin : c.Inside) (h : ¬ c.length < len) :
    [c.data.take len].flatten = c.rest.take len ∧ true = decide (len ≤ c.rest.length) ∧
      Moved c (c.advance len) (min len c.rest.length) := by
  have hlen := length_data c
  have hrest : len ≤ c.rest.length := by
    rw [rest, length_append]
    omega
  refine ⟨?_, (decide_eq_true hrest).symm, ?_⟩
  · rw [flatten_singleton, rest, take_append_of_le_length (by omega)]
  rw [Nat.min_eq_left hrest]
  refine moved_advance ?_
  rw [Inside] at hin
  rw [length] at h
  omega

lemma walk_spec (before : List (List UInt8)) (crtBuf : List UInt8) (offset : Nat)
    (after : List (List UInt8)) (len : Nat) (c : Cursor)
    (hc : c = { before, crtBuf, after, offset }) (hin : c.Inside) :
    (walk before crtBuf offset after len).1.flatten = c.rest.take len ∧
      (walk before crtBuf offset after len).2.1 = decide (len ≤ c.rest.length) ∧
      Moved c (walk before crtBuf offset after len).2.2 (min len c.rest.length) := by
  induction after generalizing before crtBuf offset len c with
  | nil =>
    rw [walk]
    simp only [← hc]
    split
    · rename_i hlt
      have hrest : c.rest = c.data := by simp [rest, hc]
      have hlen := length_data c
      refine ⟨?_, ?_, ?_⟩
      · rw [flatten_singleton, hrest, take_of_length_le (by omega)]
      · rw [hrest]
        exact (decide_eq_false (by omega)).symm
      · rw [hrest, Nat.min_eq_right (by omega), hlen]
        exact moved_tryAdvanceBuffer hin
    · rename_i hge
      exact walk_here c hin hge
  | cons next after ih =>
    rw [walk]
    simp only [← hc]
    split
    · rename_i hlt
      have hlen := length_data c
      have hnext : c.tryAdvanceBuffer.2 =
          { before := crtBuf :: before, crtBuf := next, after, offset := 0 } := by
        rw [tryAdvanceBuffer, hc]
      have hmoved := moved_tryAdvanceBuffer hin
      have hrest : c.rest = c.data ++ c.tryAdvanceBuffer.2.rest := by
        rw [hnext, rest, hc]
        rfl
      obtain ⟨htake, hfound, hwalk⟩ :=
        ih (crtBuf :: before) next 0 (len - c.length) _ hnext hmoved.inside
      refine ⟨?_, ?_, ?_⟩
      · rw [flatten_cons, htake, hrest, take_append, hlen,
          take_of_length_le (l := c.data) (by omega)]
      · rw [hfound, hrest, length_append, hlen]
        congr 1
        exact propext (by omega)
      have hboth := hmoved.trans hwalk
      rw [hrest, length_append, hlen]
      rwa [show min len (c.length + c.tryAdvanceBuffer.2.rest.length) = c.length +
        min (len - c.length) c.tryAdvanceBuffer.2.rest.length by omega]
    · rename_i hge
      exact walk_here c hin hge

lemma pieces_spec (hin : c.Inside) (len : Nat) : (c.pieces len).1.flatten = c.rest.take len ∧
      (c.pieces len).2.1 = decide (len ≤ c.rest.length) ∧
      Moved c (c.pieces len).2.2 (min len c.rest.length) :=
  walk_spec _ _ _ _ len c rfl hin

lemma skipAtMost_spec (hin : c.Inside) (len : Nat) :
    (c.skipAtMost len).1 = min len c.rest.length ∧
      Moved c (c.skipAtMost len).2 (min len c.rest.length) := by
  rw [skipAtMost]
  split
  · rename_i hle
    obtain ⟨_, hfound, hmoved⟩ := walk_here c hin (not_lt.mpr hle)
    exact ⟨(Nat.min_eq_left (of_decide_eq_true hfound.symm)).symm, hmoved⟩
  obtain ⟨htake, _, hmoved⟩ := pieces_spec hin len
  refine ⟨?_, hmoved⟩
  simp only [skipAtMostSlow]
  rw [← length_flatten, htake, length_take]

lemma copyPieces_eq (dest : List UInt8) (pieces : List (List UInt8)) :
    copyPieces dest pieces = pieces.flatten ++ dest.drop pieces.flatten.length := by
  induction pieces generalizing dest with
  | nil => rfl
  | cons piece pieces ih =>
    simp [copyPieces, ih]

lemma pullAtMostSlow_spec (hin : c.Inside) (dest : List UInt8) :
    (c.pullAtMostSlow dest).1 = c.rest.take dest.length ++ dest.drop c.rest.length ∧
      (c.pullAtMostSlow dest).2.1 = min dest.length c.rest.length ∧
      Moved c (c.pullAtMostSlow dest).2.2 (min dest.length c.rest.length) := by
  obtain ⟨htake, _, hmoved⟩ := pieces_spec hin dest.length
  refine ⟨?_, ?_, hmoved⟩
  · simp only [pullAtMostSlow]
    rw [copyPieces_eq, htake, length_take]
    rcases Nat.le_total dest.length c.rest.length with hle | hle
    · simp [Nat.min_eq_left hle, drop_of_length_le hle]
    · rw [Nat.min_eq_right hle]
  · simp only [pullAtMostSlow]
    rw [← length_flatten, htake, length_take]

lemma pullAtMost_spec (hin : c.Inside) (dest : List UInt8) :
    (c.pullAtMost dest).1 = c.rest.take dest.length ++ dest.drop c.rest.length ∧
      (c.pullAtMost dest).2.1 = min dest.length c.rest.length ∧
      Moved c (c.pullAtMost dest).2.2 (min dest.length c.rest.length) := by
  rw [pullAtMost]
  split
  · rename_i hle
    obtain ⟨htake, hfound, hmoved⟩ := walk_here c hin (not_lt.mpr hle)
    have hrest := of_decide_eq_true hfound.symm
    refine ⟨?_, (Nat.min_eq_left hrest).symm, hmoved⟩
    rw [copyPieces_eq, htake, length_take, Nat.min_eq_left hrest,
      drop_of_length_le (le_refl _), drop_of_length_le hrest]
  · exact pullAtMostSlow_spec hin dest

lemma readFixedString_spec (hin : c.Inside) (len : Nat) :
    (c.readFixedString len).1 = c.rest.take len ∧
      (c.readFixedString len).2.1 = decide (len ≤ c.rest.length) ∧
      Moved c (c.readFixedString len).2.2 (min len c.rest.length) := by
  rw [readFixedString]
  split
  · rename_i hle
    have hhere := walk_here c hin (not_lt.mpr hle)
    rwa [flatten_singleton] at hhere
  · exact pieces_spec hin len

lemma cloneAtMost_spec (hin : c.Inside) (len : Nat) :
    (c.cloneAtMost len).1.flatten = c.rest.take len ∧
      (c.cloneAtMost len).2.1 = min len c.rest.length ∧
      Moved c (c.cloneAtMost len).2.2 (min len c.rest.length) := by
  obtain ⟨htake, _, hmoved⟩ := pieces_spec hin len
  refine ⟨htake, ?_, hmoved⟩
  simp only [cloneAtMost]
  rw [← length_flatten, htake, length_take]

lemma tryRead_spec (hin : c.Inside) (val : List UInt8) :
    (c.tryRead val).1 = decide (val.length ≤ c.rest.length) ∧
      (c.tryRead val).2.1 = c.rest.take val.length ++ val.drop c.rest.length ∧
      Moved c (c.tryRead val).2.2 (min val.length c.rest.length) := by
  rw [tryRead]
  split
  · rename_i hle
    obtain ⟨htake, hfound, hmoved⟩ := walk_here c hin (not_lt.mpr hle)
    have hrest := of_decide_eq_true hfound.symm
    rw [flatten_singleton] at htake
    refine ⟨hfound, ?_, hmoved⟩
    rw [htake, drop_of_length_le hrest, append_nil]
  obtain ⟨hval, hn, hmoved⟩ := pullAtMostSlow_spec hin val
  refine ⟨?_, hval, hmoved⟩
  show ((c.pullAtMostSlow val).2.1 == val.length) = _
  rw [hn, beq_eq_decide]
  congr 1
  exact propext (by omega)

lemma retreatAtMostSlow_spec (crtBuf : List UInt8) (after : List (List UInt8)) (offset : Nat)
    (before : List (List UInt8)) (len : Nat) (c : Cursor)
    (hc : c = { before, crtBuf, after, offset }) (hin : c.Inside) :
    (retreatAtMostSlow crtBuf after offset before len).1 = min len c.position ∧
      (retreatAtMostSlow crtBuf after offset before len).2.Inside ∧
      (retreatAtMostSlow crtBuf after offset before len).2.bytes = c.bytes ∧
      (retreatAtMostSlow crtBuf after offset before len).2.position = c.position - len := by
  induction before generalizing crtBuf after offset len c with
  | nil =>
    have hpos : c.position = offset := by simp [hc, position]
    rw [hpos, retreatAtMostSlow]
    split
    · refine ⟨by omega, Nat.zero_le _, by rw [hc]; rfl, ?_⟩
      simp only [position, map_nil, sum_nil]
      omega
    refine ⟨by omega, ?_, by rw [hc]; rfl, ?_⟩
    · rw [hc, Inside] at hin
      simp only [Inside] at hin ⊢
      omega
    · simp only [position, map_nil, sum_nil]
      omega
  | cons prev before ih =>
    have hpos : c.position = (before.map List.length).sum + prev.length + offset := by
      simp only [hc, position, map_cons, sum_cons]
      omega
    rw [retreatAtMostSlow]
    split
    · obtain ⟨hn, hinside, hbytes, hposition⟩ := ih prev (crtBuf :: after) prev.length
        (len - offset) { before, crtBuf := prev, after := crtBuf :: after, offset := prev.length }
        rfl (le_refl _)
      have hprev : ({ before, crtBuf := prev, after := crtBuf :: after, offset := prev.length } :
          Cursor).position = (before.map List.length).sum + prev.length := rfl
      refine ⟨?_, hinside, ?_, ?_⟩
      · show offset + (retreatAtMostSlow prev (crtBuf :: after) prev.length before
          (len - offset)).1 = _
        omega
      · refine hbytes.trans ?_
        simp [hc, bytes]
      · refine hposition.trans ?_
        omega
    refine ⟨by omega, ?_, by rw [hc]; rfl, ?_⟩
    · rw [hc, Inside] at hin
      simp only [Inside] at hin ⊢
      omega
    · rw [hpos]
      simp only [position, map_cons, sum_cons]
      omega

lemma retreatAtMost_spec (hin : c.Inside) (len : Nat) :
    (c.retreatAtMost len).1 = min len c.position ∧ (c.retreatAtMost len).2.Inside ∧
      (c.retreatAtMost len).2.bytes = c.bytes ∧
      (c.retreatAtMost len).2.position = c.position - len := by
  rw [retreatAtMost]
  split
  · rename_i hle
    have hpos : c.offset ≤ c.position := Nat.le_add_left _ _
    refine ⟨by omega, ?_, rfl, ?_⟩
    · rw [Inside] at hin ⊢
      simp only
      omega
    · simp only [position]
      omega
  · exact retreatAtMostSlow_spec _ _ _ _ len c rfl hin

lemma canAdvanceLoop_eq (available : Nat) (after : List (List UInt8)) (amount : Nat) :
    canAdvanceLoop available after amount = decide (amount ≤ available + after.flatten.length) := by
  induction after generalizing available amount with
  | nil =>
    simp [canAdvanceLoop]
  | cons next after ih =>
    rw [canAdvanceLoop, flatten_cons, length_append]
    split
    · exact (decide_eq_true (by omega)).symm
    · rw [ih]
      congr 1
      exact propext (by omega)

lemma canAdvance_eq (c : Cursor) (amount : Nat) :
    c.canAdvance amount = decide (amount ≤ c.rest.length) := by
  rw [canAdvance, canAdvanceLoop_eq, rest, length_append, length_data]

lemma chainLength_eq (chain : List (List UInt8)) :
    chainLength chain = UInt64.ofNat chain.flatten.length := by
  rw [chainLength, length_flatten]

lemma totalLength_eq (hin : c.Inside) : c.totalLength = UInt64.ofNat c.rest.length := by
  have hlen : c.rest.length = c.crtBuf.length - c.offset + c.after.flatten.length := by
    rw [rest, length_append, length_data, length]
  rw [hlen, totalLength]
  split
  · rw [chainLength_eq, flatten_cons, length_append]
    have hsplit : c.crtBuf.length + c.after.flatten.length =
        c.crtBuf.length - c.offset + c.after.flatten.length + c.offset := by
      rw [Inside] at hin
      omega
    rw [hsplit, UInt64.ofNat_add _ c.offset, UInt64.add_sub_cancel]
  split
  · rename_i hafter
    simp [List.isEmpty_iff.mp hafter]
  rename_i hafter
  rcases List.eq_nil_or_concat c.after with hnil | ⟨init, last, hconcat⟩
  · rw [hnil] at hafter
    exact absurd rfl hafter
  · rw [hconcat, concat_eq_append, dropLast_concat, getLast?_concat,
      Option.getD_some, chainLength_eq, flatten_append, length_append,
      flatten_singleton, ← UInt64.ofNat_add, ← UInt64.ofNat_add, Nat.add_assoc]

lemma isAtEnd_eq (hin : c.Inside) : c.isAtEnd = c.rest.isEmpty := by
  have hdata : c.data = [] ↔ c.offset = c.crtBuf.length := by
    rw [Inside] at hin
    rw [data, List.drop_eq_nil_iff]
    omega
  rw [Bool.eq_iff_iff, List.isEmpty_iff, rest, List.append_eq_nil_iff, hdata, isAtEnd]
  split
  · rename_i hne
    exact ⟨fun h => (nomatch h), fun h => absurd h.1 hne⟩
  rename_i heq
  rw [not_not] at heq
  rw [flatten_eq_nil_iff]
  split
  · rename_i hafter
    rw [List.isEmpty_iff.mp hafter]
    exact ⟨fun _ => ⟨heq, fun _ h => (nomatch h)⟩, fun _ => rfl⟩
  · simp [heq]

def flatCall (bytes : List UInt8) (pos : Nat) (a : Call) : Outcome × Nat :=
  let rest := bytes.drop pos
  let filled (dest : List UInt8) := rest.take dest.length ++ dest.drop rest.length
  let forward (len : Nat) := pos + min len rest.length
  let number (size : Nat) (value : List UInt8 → Nat) :=
    if size ≤ rest.length then Outcome.number (value (rest.take size))
    else Outcome.thrown "underflow" []
  match a with
  | .skip len =>
    (if len ≤ rest.length then .done else .thrown "underflow" [], forward len)
  | .skipAtMost len => (.size (min len rest.length), forward len)
  | .retreat len => (if len ≤ pos then .done else .thrown "underflow" [], pos - len)
  | .retreatAtMost len => (.size (min len pos), pos - len)
  | .pull dest =>
    (if dest.length ≤ rest.length then .memory (filled dest)
      else .thrown "underflow" (filled dest), forward dest.length)
  | .pullAtMost dest =>
    (.copied (filled dest) (min dest.length rest.length), forward dest.length)
  | .tryRead val | .tryReadLE val =>
    (.tried (val.length ≤ rest.length) (littleValue (filled val)), forward val.length)
  | .tryReadBE val =>
    (.tried (val.length ≤ rest.length) (bigValue (filled val)), forward val.length)
  | .read size | .readLE size => (number size littleValue, forward size)
  | .readBE size => (number size bigValue, forward size)
  | .readFixedString len =>
    (if len ≤ rest.length then .memory (rest.take len) else .thrown "string underflow" [],
      forward len)
  | .clone len =>
    (if len ≤ rest.length then .memory (rest.take len)
      else .thrown "underflow" (rest.take len), forward len)
  | .cloneAtMost len => (.copied (rest.take len) (min len rest.length), forward len)
  | .canAdvance amount => (.flag (amount ≤ rest.length), pos)
  | .totalLength => (.total (UInt64.ofNat rest.length), pos)
  | .isAtEnd => (.flag rest.isEmpty, pos)

structure At (c : Cursor) (bytes : List UInt8) (pos : Nat) : Prop where
  inside : c.Inside
  bytes : c.bytes = bytes
  position : c.position = pos

lemma Moved.at {n : Nat} (h : Moved c c' n) : At c' c.bytes (c.position + n) :=
  ⟨h.inside, h.bytes, h.position⟩

lemma min_eq_iff_le (m n : Nat) : min m n = m ↔ m ≤ n := by omega

lemma readWith_spec (hin : c.Inside) (size : Nat) (value : List UInt8 → Nat) :
    (c.readWith size value).1 = (if size ≤ c.rest.length
      then .number (value (c.rest.take size)) else .thrown "underflow" []) ∧
      Moved c (c.readWith size value).2 (min size c.rest.length) := by
  obtain ⟨hsuccess, hval, hmoved⟩ := tryRead_spec hin (List.replicate size 0)
  rw [length_replicate] at hsuccess hval hmoved
  refine ⟨?_, hmoved⟩
  simp only [readWith, hsuccess, hval, decide_eq_true_eq]
  split
  · rename_i hle
    rw [drop_of_length_le (by rwa [length_replicate]), append_nil]
  · rfl

lemma call_flat (hin : c.Inside) (a : Call) : (c.call a).1 = (flatCall c.bytes c.position a).1 ∧
      At (c.call a).2 c.bytes (flatCall c.bytes c.position a).2 := by
  simp only [flatCall, drop_position hin]
  cases a with
  | skip len =>
    obtain ⟨hn, hmoved⟩ := skipAtMost_spec hin len
    refine ⟨?_, hmoved.at⟩
    simp only [call, hn, min_eq_iff_le]
  | skipAtMost len =>
    obtain ⟨hn, hmoved⟩ := skipAtMost_spec hin len
    exact ⟨congrArg Outcome.size hn, hmoved.at⟩
  | retreat len =>
    obtain ⟨hn, hinside, hbytes, hposition⟩ := retreatAtMost_spec hin len
    refine ⟨?_, hinside, hbytes, hposition⟩
    simp only [call, hn, min_eq_iff_le]
  | retreatAtMost len =>
    obtain ⟨hn, hinside, hbytes, hposition⟩ := retreatAtMost_spec hin len
    exact ⟨congrArg Outcome.size hn, hinside, hbytes, hposition⟩
  | pull dest =>
    obtain ⟨hdest, hn, hmoved⟩ := pullAtMost_spec hin dest
    refine ⟨?_, hmoved.at⟩
    simp [call, hn, hdest]
  | pullAtMost dest =>
    obtain ⟨hdest, hn, hmoved⟩ := pullAtMost_spec hin dest
    refine ⟨?_, hmoved.at⟩
    simp only [call, hn, hdest]
  | tryRead val | tryReadBE val | tryReadLE val =>
    obtain ⟨hsuccess, hval, hmoved⟩ := tryRead_spec hin val
    refine ⟨?_, hmoved.at⟩
    simp only [call, hsuccess, hval]
  | read size | readBE size | readLE size =>
    obtain ⟨hnumber, hmoved⟩ := readWith_spec hin size _
    exact ⟨hnumber, hmoved.at⟩
  | readFixedString len =>
    obtain ⟨hbytes, hfound, hmoved⟩ := readFixedString_spec hin len
    refine ⟨?_, hmoved.at⟩
    simp [call, hbytes, hfound]
  | clone len =>
    obtain ⟨hbytes, hn, hmoved⟩ := cloneAtMost_spec hin len
    refine ⟨?_, hmoved.at⟩
    simp [call, hn, hbytes]
  | cloneAtMost len =>
    obtain ⟨hbytes, hn, hmoved⟩ := cloneAtMost_spec hin len
    refine ⟨?_, hmoved.at⟩
    simp only [call, hn, hbytes]
  | canAdvance amount => exact ⟨congrArg Outcome.flag (canAdvance_eq c amount), hin, rfl, rfl⟩
  | totalLength => exact ⟨congrArg Outcome.total (totalLength_eq hin), hin, rfl, rfl⟩
  | isAtEnd => exact ⟨congrArg Outcome.flag (isAtEnd_eq hin), hin, rfl, rfl⟩

def flatCalls (bytes : List UInt8) (pos : Nat) : List Call → List (Outcome × Nat)
  | [] => []
  | a :: as => flatCall bytes pos a :: flatCalls bytes (flatCall bytes pos a).2 as

def seen (c : Cursor) (as : List Call) : List (Outcome × Nat) :=
  (c.calls as).map fun x => (x.1, x.2.position)

lemma seen_eq_flatCalls {bytes : List UInt8} {pos : Nat} (h : At c bytes pos)
    (as : List Call) : c.seen as = flatCalls bytes pos as := by
  induction as generalizing c pos with
  | nil => rfl
  | cons a as ih =>
    obtain ⟨hin, rfl, rfl⟩ := h
    obtain ⟨hout, hat⟩ := call_flat hin a
    have hseen : c.seen (a :: as) =
        ((c.call a).1, (c.call a).2.position) :: (c.call a).2.seen as := rfl
    rw [hseen, ih hat, hout, hat.position]
    rfl

def ofChain (st : Store) (b : IOBuf) (bs : List IOBuf) : Cursor :=
  { before := [], crtBuf := read st b, after := bs.map (read st), offset := 0 }

lemma at_ofChain (st : Store) (b : IOBuf) (bs : List IOBuf) :
    At (ofChain st b bs) (content st (b :: bs)) 0 := by
  refine ⟨Nat.zero_le _, ?_, rfl⟩
  simp [Cursor.bytes, ofChain, content, flatMap_def]

def ofBytes (bytes : List UInt8) : Cursor :=
  { before := [], crtBuf := bytes, after := [], offset := 0 }

theorem calls_eq_of_content_eq (st₁ st₂ : Store) (b₁ b₂ : IOBuf) (bs₁ bs₂ : List IOBuf)
    (hcontent : content st₁ (b₁ :: bs₁) = content st₂ (b₂ :: bs₂)) (as : List Call) :
    (ofChain st₁ b₁ bs₁).seen as = (ofChain st₂ b₂ bs₂).seen as ∧
      (ofChain st₁ b₁ bs₁).seen as = (ofBytes (content st₁ (b₁ :: bs₁))).seen as := by
  have hflat : At (ofBytes (content st₁ (b₁ :: bs₁))) (content st₁ (b₁ :: bs₁)) 0 := by
    refine ⟨Nat.zero_le _, ?_, rfl⟩
    simp [Cursor.bytes, ofBytes]
  rw [seen_eq_flatCalls hflat, seen_eq_flatCalls (at_ofChain st₁ b₁ bs₁),
    seen_eq_flatCalls (at_ofChain st₂ b₂ bs₂), hcontent]
  exact ⟨rfl, rfl⟩

theorem calls_eq_of_split :
    (ofChain [⟨[1, 2, 3], true, 1, false, 0⟩] ⟨some 0, true, 0, 3, 3, false⟩ []).seen
        [.skip 1, .readBE 2, .retreat 3, .isAtEnd] =
      (ofChain [⟨[9, 1], true, 1, false, 0⟩, ⟨[2, 3], true, 1, false, 0⟩]
        ⟨some 0, true, 1, 1, 2, false⟩
        [⟨some 0, true, 0, 0, 2, false⟩, ⟨some 1, true, 0, 2, 2, false⟩]).seen
        [.skip 1, .readBE 2, .retreat 3, .isAtEnd] :=
  (calls_eq_of_content_eq [⟨[1, 2, 3], true, 1, false, 0⟩]
    [⟨[9, 1], true, 1, false, 0⟩, ⟨[2, 3], true, 1, false, 0⟩]
    ⟨some 0, true, 0, 3, 3, false⟩ ⟨some 0, true, 1, 1, 2, false⟩ []
    [⟨some 0, true, 0, 0, 2, false⟩, ⟨some 1, true, 0, 2, 2, false⟩] (by decide)
    [.skip 1, .readBE 2, .retreat 3, .isAtEnd]).1

end Cursor

end Acc.Io
