import Accelerator.Io.Cursor

namespace Acc.Io.Cursor

open List UInt64

def buffers (c : Cursor) : List (List UInt8) := c.before.reverse ++ c.crtBuf :: c.after

def index (c : Cursor) : Nat := c.before.length

def distanceLoop (target i : Nat) (len : UInt64) : List (List UInt8) → Option UInt64
  | [] => none
  | buf :: bufs =>
    if i = target then some len
    else distanceLoop target (i + 1) (len + ofNat buf.length) bufs

def distance (a b : Cursor) : Except String UInt64 :=
  if a.index ≠ b.index then
    match distanceLoop a.index (b.index + 1) (ofNat b.length) b.after with
    | none => .error "wrap-around"
    | some len => .ok (len + ofNat a.offset)
  else if a.offset < b.offset then .error "underflow"
  else .ok (ofNat (a.offset - b.offset))

lemma distanceLoop_eq (target i : Nat) (len : UInt64) (bufs : List (List UInt8)) :
    distanceLoop target i len bufs = if i ≤ target ∧ target < i + bufs.length then
      some (len + ofNat (bufs.take (target - i)).flatten.length) else none := by
  induction bufs generalizing i len with
  | nil =>
    rw [distanceLoop, if_neg]
    simp
  | cons buf bufs ih =>
    rw [distanceLoop]
    split
    · next heq => subst heq; simp
    next hne =>
    rw [ih]
    by_cases hin : i ≤ target ∧ target < i + (buf :: bufs).length
    · have hstep : target - i = target - (i + 1) + 1 := by omega
      rw [length_cons] at hin
      rw [if_pos (by omega), if_pos (by rw [length_cons]; omega), hstep, take_succ_cons,
        flatten_cons, length_append, ofNat_add, UInt64.add_assoc]
    · rw [if_neg hin, if_neg (by rw [length_cons] at hin; omega)]

lemma position_eq (c : Cursor) :
    c.position = (c.buffers.take c.index).flatten.length + c.offset := by
  rw [buffers, index, take_left' length_reverse, length_reverse_flatten]
  rfl

variable {a b : Cursor}

lemma position_le_of_index_lt (ha : a.Inside) (h : a.buffers = b.buffers)
    (hlt : a.index < b.index) : b.position = a.position + (a.length +
      (a.after.take (b.index - (a.index + 1))).flatten.length) + b.offset := by
  have hindex : b.index = a.before.reverse.length + (b.index - (a.index + 1) + 1) := by
    rw [length_reverse]
    have : a.index = a.before.length := rfl
    omega
  have htake : b.buffers.take b.index = a.before.reverse ++
      a.crtBuf :: a.after.take (b.index - (a.index + 1)) := by
    conv_lhs => rw [hindex, ← h, buffers, take_length_add_append, take_succ_cons]
  rw [position_eq b, htake, position, length]
  rw [Inside] at ha
  simp
  omega

theorem distance_iff (ha : a.Inside) (hb : b.Inside) (h : a.buffers = b.buffers) :
    ((b.position ≤ a.position → distance a b = .ok (ofNat (a.position - b.position))) ∧
      (a.position < b.position → ∃ what, distance a b = .error what)) ↔
    ¬ (a.index < b.index ∧ a.position = b.position) := by
  have hloop := distanceLoop_eq a.index (b.index + 1) (ofNat b.length) b.after
  rcases Nat.lt_trichotomy a.index b.index with hlt | heq | hgt
  · have hpos := position_le_of_index_lt ha h hlt
    have herr : distance a b = .error "wrap-around" := by
      rw [if_neg (by omega)] at hloop
      rw [distance, if_pos (by omega), hloop]
    rw [herr]
    constructor
    · rintro ⟨hok, _⟩ ⟨_, hsame⟩
      cases hok (by omega)
    · intro hne
      refine ⟨fun hle => absurd ⟨hlt, by omega⟩ hne, fun _ => ⟨_, rfl⟩⟩
  · have hpos := position_eq a
    rw [h, heq] at hpos
    have hposb := position_eq b
    refine iff_of_true ⟨?_, ?_⟩ (by omega)
    · intro hle
      rw [distance, if_neg (by omega), if_neg (by omega)]
      congr 2
      omega
    · intro hlt
      rw [distance, if_neg (by omega), if_pos (by omega)]
      exact ⟨_, rfl⟩
  · have hpos := position_le_of_index_lt hb h.symm hgt
    have hlen : a.index < b.index + 1 + b.after.length := by
      have hcount := congrArg List.length h
      simp only [buffers, length_append, length_reverse, length_cons] at hcount
      simp only [index]
      omega
    rw [if_pos ⟨hgt, hlen⟩] at hloop
    refine iff_of_true ⟨?_, ?_⟩ (by omega)
    · intro _
      rw [distance, if_pos (by omega), hloop]
      simp only [← ofNat_add]
      congr 2
      omega
    · intro hlt
      omega

theorem distance_iff_seam :
    distance { before := [[97]], crtBuf := [98], after := [] } { crtBuf := [97], after := [[98]] } =
      .ok 1 := by
  have h := distance_iff (a := { before := [[97]], crtBuf := [98], after := [] })
    (b := { crtBuf := [97], after := [[98]] }) (Nat.zero_le _) (Nat.zero_le _) rfl
  exact (h.mpr (by decide)).1 (by decide)

theorem distance_throws_at_same_position :
    let a : Cursor := { crtBuf := [], after := [[97]] }
    let b := (a.call (.skip 0)).2
    a.position = b.position ∧ distance a b = .error "wrap-around" := by
  decide

section

variable {σ ε : Type}

def takeWhile (predicate : σ → UInt8 → Except ε (Option σ)) (s : σ) :
    List UInt8 → Except ε (List UInt8 × Option σ)
  | [] => .ok ([], some s)
  | byte :: bytes =>
    match predicate s byte with
    | .error e => .error e
    | .ok none => .ok ([], none)
    | .ok (some s) => (takeWhile predicate s bytes).map fun r => (byte :: r.1, r.2)

def readLoop (predicate : σ → UInt8 → Except ε (Option σ)) (before : List (List UInt8))
    (crtBuf : List UInt8) (offset : Nat) (after : List (List UInt8)) (s : σ) :
    Except ε (List UInt8) × Cursor :=
  let c : Cursor := { before, crtBuf, after, offset }
  match takeWhile predicate s c.data with
  | .error e => (.error e, c)
  | .ok (taken, none) => (.ok taken, c.advance taken.length)
  | .ok (taken, some s) =>
    match after with
    | [] => (.ok taken, c.tryAdvanceBuffer.2)
    | next :: after =>
      let (r, c) := readLoop predicate (crtBuf :: before) next 0 after s
      (r.map (taken ++ ·), c)

def readWhile (predicate : σ → UInt8 → Except ε (Option σ)) (c : Cursor) (s : σ) :
    Except ε (List UInt8) × Cursor :=
  readLoop predicate c.before c.crtBuf c.offset c.after s

variable {predicate : σ → UInt8 → Except ε (Option σ)} {s : σ}

lemma takeWhile_append (x y : List UInt8) : takeWhile predicate s (x ++ y) =
    match takeWhile predicate s x with
    | .error e => .error e
    | .ok (taken, none) => .ok (taken, none)
    | .ok (taken, some s) => (takeWhile predicate s y).map fun r => (taken ++ r.1, r.2) := by
  induction x generalizing s with
  | nil => cases h : takeWhile predicate s y <;> simp [takeWhile, h, Except.map]
  | cons byte x ih =>
    rw [cons_append, takeWhile, takeWhile]
    cases predicate s byte with
    | error e => rfl
    | ok r =>
      cases r with
      | none => rfl
      | some s =>
        simp only [ih]
        rcases takeWhile predicate s x with e | ⟨taken, _ | s'⟩
        · rfl
        · rfl
        · show Except.map _ (Except.map _ (takeWhile predicate s' y)) = Except.map _ _
          cases takeWhile predicate s' y <;> rfl

lemma takeWhile_taken {x taken : List UInt8} {r : Option σ}
    (h : takeWhile predicate s x = .ok (taken, r)) : taken <+: x ∧ (r ≠ none → taken = x) := by
  induction x generalizing s taken with
  | nil => cases h; exact ⟨prefix_rfl, fun _ => rfl⟩
  | cons byte x ih =>
    rw [takeWhile] at h
    split at h
    · cases h
    · cases h; exact ⟨⟨_, rfl⟩, fun hr => absurd rfl hr⟩
    next s' _ =>
    cases hx : takeWhile predicate s' x with
    | error e => rw [hx] at h; cases h
    | ok r' =>
      rw [hx] at h
      cases h
      obtain ⟨hpre, hall⟩ := ih hx
      exact ⟨cons_prefix_cons.mpr ⟨rfl, hpre⟩, fun hr => by rw [hall hr]⟩

lemma moved_taken {c : Cursor} {taken : List UInt8} {r : Option σ} (hin : c.Inside)
    (h : takeWhile predicate s c.data = .ok (taken, r)) :
    Moved c (c.advance taken.length) taken.length := by
  have hle := (takeWhile_taken h).1.length_le
  rw [length_data, length] at hle
  rw [Inside] at hin
  exact moved_advance (by omega)

lemma readLoop_spec (before : List (List UInt8)) (crtBuf : List UInt8) (offset : Nat)
    (after : List (List UInt8)) (c : Cursor) (hc : c = { before, crtBuf, after, offset })
    (hin : c.Inside) :
    match takeWhile predicate s c.rest with
    | .error e => (readLoop predicate before crtBuf offset after s).1 = .error e
    | .ok r => (readLoop predicate before crtBuf offset after s).1 = .ok r.1 ∧
        Moved c (readLoop predicate before crtBuf offset after s).2 r.1.length := by
  induction after generalizing before crtBuf offset c s with
  | nil =>
    have hrest : c.rest = c.data := by simp [rest, hc]
    rw [hrest, readLoop]
    simp only [← hc]
    rcases h : takeWhile predicate s c.data with e | ⟨taken, _ | s'⟩
    · rfl
    · exact ⟨rfl, moved_taken hin h⟩
    · have hmoved := moved_tryAdvanceBuffer hin
      rw [← length_data, ← (takeWhile_taken h).2 (Option.some_ne_none s')] at hmoved
      exact ⟨rfl, hmoved⟩
  | cons next after ih =>
    have hrest : c.rest = c.data ++ (next :: after).flatten := by rw [rest, hc]
    rw [hrest, takeWhile_append, readLoop]
    simp only [← hc]
    rcases h : takeWhile predicate s c.data with e | ⟨taken, _ | s'⟩
    · rfl
    · exact ⟨rfl, moved_taken hin h⟩
    have hmoved := moved_tryAdvanceBuffer hin
    rw [← length_data, ← (takeWhile_taken h).2 (Option.some_ne_none s')] at hmoved
    have hnext : c.tryAdvanceBuffer.2 =
        { before := crtBuf :: before, crtBuf := next, after, offset := 0 } := by
      rw [tryAdvanceBuffer, hc]
    have hspec := @ih s' (crtBuf :: before) next 0 _ hnext hmoved.inside
    have hflat : c.tryAdvanceBuffer.2.rest = (next :: after).flatten := by rw [hnext]; rfl
    rw [hflat] at hspec
    simp only
    cases hr : takeWhile predicate s' (next :: after).flatten with
    | error e =>
      rw [hr] at hspec
      simp only [hspec, Except.map]
    | ok r =>
      rw [hr] at hspec
      simp only [hspec.1, Except.map, true_and]
      rw [length_append]
      exact hmoved.trans hspec.2

lemma readWhile_spec (predicate : σ → UInt8 → Except ε (Option σ)) (s : σ) {c : Cursor}
    (hin : c.Inside) :
    match takeWhile predicate s c.rest with
    | .error e => (c.readWhile predicate s).1 = .error e
    | .ok r => (c.readWhile predicate s).1 = .ok r.1 ∧
        Moved c (c.readWhile predicate s).2 r.1.length :=
  readLoop_spec _ _ _ _ c rfl hin

end

inductive ReadError
  | lengthError (what : String)
  | outOfRange (what : String)
  deriving DecidableEq, Repr

def sameChar (byte termChar : UInt8) : Bool := (byte.toNat : Int) == termChar.toInt8.toInt

def keepReading (termChar : UInt8) (maxLength bytesRead : Nat) (byte : UInt8) :
    Except ReadError (Option Nat) :=
  if sameChar byte termChar then .ok none
  else if maxLength ≤ bytesRead + 1 then .error (.lengthError "string overflow")
  else .ok (some (bytesRead + 1))

def readTerminatedString (c : Cursor) (termChar : UInt8) (maxLength : Nat) :
    Except ReadError (List UInt8) × Cursor :=
  match c.readWhile (keepReading termChar maxLength) 0 with
  | (.error e, c) => (.error e, c)
  | (.ok result, c) =>
    if c.isAtEnd then (.error (.outOfRange "terminator not found"), c)
    else
      match c.call (.skip 1) with
      | (.done, c) => (.ok result, c)
      | (_, c) => (.error (.outOfRange "underflow"), c)

lemma sameChar_eq (byte termChar : UInt8) :
    sameChar byte termChar = (decide (termChar < 128) && byte == termChar) := by
  have hsign : termChar.toInt8.toInt = termChar.toBitVec.toInt := rfl
  have hterm := termChar.toNat_lt
  rw [sameChar, hsign, BitVec.toInt_eq_toNat_cond, Bool.eq_iff_iff]
  simp only [UInt8.toNat_toBitVec, beq_iff_eq, Bool.and_eq_true, decide_eq_true_eq,
    UInt8.lt_iff_toNat_lt, ← UInt8.toNat_inj]
  have hlit : (128 : UInt8).toNat = 128 := rfl
  split <;> omega

lemma takeWhile_keepReading (t : UInt8) {maxLength n : Nat} (hn : n < maxLength)
    (bytes : List UInt8) : takeWhile (keepReading t maxLength) n bytes =
      if (bytes.take (maxLength - n)).any (sameChar · t) then
        .ok (bytes.takeWhile fun b => !sameChar b t, none)
      else if maxLength - n ≤ bytes.length then .error (.lengthError "string overflow")
      else .ok (bytes, some (n + bytes.length)) := by
  induction bytes generalizing n with
  | nil =>
    have hpos : ¬ maxLength - n ≤ 0 := by omega
    simp [takeWhile, hpos]
  | cons b bytes ih =>
    obtain ⟨k, hk⟩ : ∃ k, maxLength - n = k + 1 := ⟨maxLength - n - 1, by omega⟩
    rw [takeWhile, keepReading, hk, take_succ_cons, any_cons, takeWhile_cons]
    cases hb : sameChar b t with
    | true => simp
    | false =>
      by_cases hlast : maxLength ≤ n + 1
      · obtain rfl : k = 0 := by omega
        simp [hlast]
      have hk' : maxLength - (n + 1) = k := by omega
      simp only [Bool.false_eq_true, if_false, hlast, ih (Nat.lt_of_not_le hlast), hk',
        Bool.false_or, Bool.not_false, if_true, length_cons, Nat.add_le_add_iff_right]
      split
      · rfl
      · split
        · rfl
        · simp [Except.map]; omega

variable {c : Cursor} {t : UInt8} {maxLength : Nat}

lemma rest_of_moved {c' : Cursor} {n : Nat} (hin : c.Inside) (h : Moved c c' n) :
    c'.rest = c.rest.drop n := by
  rw [← drop_position h.inside, h.bytes, h.position, ← drop_drop, drop_position hin]

lemma readTerminatedString_found (hin : c.Inside) (hm : 1 ≤ maxLength)
    (h : (c.rest.take maxLength).any (sameChar · t) = true) :
    (c.readTerminatedString t maxLength).1 = .ok (c.rest.takeWhile fun b => !sameChar b t) ∧
      Moved c (c.readTerminatedString t maxLength).2
        ((c.rest.takeWhile fun b => !sameChar b t).length + 1) := by
  have hspec := readWhile_spec (keepReading t maxLength) 0 hin
  rw [takeWhile_keepReading t hm, Nat.sub_zero, if_pos h] at hspec
  obtain ⟨hread, hmoved⟩ := hspec
  generalize hr : c.readWhile (keepReading t maxLength) 0 = r at hread hmoved
  obtain ⟨r, c₁⟩ := r
  cases hread
  have hleft : c₁.rest.length ≠ 0 := by
    intro hzero
    rw [rest_of_moved hin hmoved, length_drop] at hzero
    have heq := ( takeWhile_prefix (l := c.rest) fun b => !sameChar b t).eq_of_length_le
      (Nat.sub_eq_zero_iff_le.mp hzero)
    have hall := all_takeWhile (l := c.rest) (p := fun b => !sameChar b t)
    rw [heq, all_eq_true] at hall
    obtain ⟨b, hb, hsame⟩ := any_eq_true.mp h
    have hnot := hall b (mem_of_mem_take hb)
    rw [hsame] at hnot
    cases hnot
  have hskip := skipAtMost_spec hmoved.inside 1
  rw [Nat.min_eq_left (Nat.one_le_iff_ne_zero.mpr hleft)] at hskip
  have hend : c₁.isAtEnd = false := by
    rw [isAtEnd_eq hmoved.inside]
    cases hrest : c₁.rest with
    | nil => rw [hrest] at hleft; exact absurd rfl hleft
    | cons b bytes => rfl
  simp only [readTerminatedString, hr, hend, call, hskip.1, if_true]
  exact ⟨rfl, hmoved.trans hskip.2⟩

lemma readTerminatedString_missing (hin : c.Inside) (hm : 1 ≤ maxLength)
    (h : (c.rest.take maxLength).any (sameChar · t) = false) :
    (c.readTerminatedString t maxLength).1 = .error (if maxLength ≤ c.rest.length then
      .lengthError "string overflow" else .outOfRange "terminator not found") := by
  have hspec := readWhile_spec (keepReading t maxLength) 0 hin
  rw [takeWhile_keepReading t hm, Nat.sub_zero, if_neg (by rw [h]; exact Bool.false_ne_true)] at hspec
  generalize hr : c.readWhile (keepReading t maxLength) 0 = r at hspec
  obtain ⟨r, c₁⟩ := r
  by_cases hle : maxLength ≤ c.rest.length
  · rw [if_pos hle] at hspec ⊢
    simp only at hspec
    simp only [readTerminatedString, hr, hspec]
  rw [if_neg hle] at hspec ⊢
  obtain ⟨hread, hmoved⟩ := hspec
  simp only at hread hmoved
  have hend : c₁.isAtEnd = true := by
    rw [isAtEnd_eq hmoved.inside, rest_of_moved hin hmoved, drop_length]
    rfl
  simp only [readTerminatedString, hr, hread, hend, if_true]

def Terminated (c : Cursor) (t : UInt8) (maxLength : Nat)
    (r : Except ReadError (List UInt8) × Cursor) : Prop :=
  if t ∈ c.rest.take maxLength then
    r.1 = .ok (c.rest.takeWhile (· != t)) ∧ Moved c r.2 ((c.rest.takeWhile (· != t)).length + 1)
  else if maxLength ≤ c.rest.length then ∃ what, r.1 = .error (.lengthError what)
  else ∃ what, r.1 = .error (.outOfRange what)

theorem readTerminatedString_iff (hin : c.Inside) (t : UInt8) (hm : 1 ≤ maxLength) :
    Terminated c t maxLength (c.readTerminatedString t maxLength) ↔
      t < 128 ∨ t ∉ c.rest.take maxLength := by
  by_cases hfound : t < 128 ∧ t ∈ c.rest.take maxLength
  · have hany : (c.rest.take maxLength).any (sameChar · t) = true :=
      any_eq_true.mpr ⟨t, hfound.2, by simp [sameChar_eq, hfound.1]⟩
    have hwhile : (fun b => !sameChar b t) = (· != t) := by
      simp [sameChar_eq, hfound.1, bne]
    have hspec := readTerminatedString_found hin hm hany
    rw [hwhile] at hspec
    rw [Terminated, if_pos hfound.2]
    exact iff_of_true hspec (Or.inl hfound.1)
  · have hnone : (c.rest.take maxLength).any (sameChar · t) = false := by
      rw [any_eq_false]
      intro b hb hsame
      rw [sameChar_eq, Bool.and_eq_true, decide_eq_true_eq, beq_iff_eq] at hsame
      exact hfound ⟨hsame.1, hsame.2 ▸ hb⟩
    have hspec := readTerminatedString_missing hin hm hnone
    rw [Terminated, hspec]
    by_cases hmem : t ∈ c.rest.take maxLength
    · rw [if_pos hmem]
      refine iff_of_false (fun h => nomatch h.1) ?_
      rintro (hlt | hnot)
      · exact hfound ⟨hlt, hmem⟩
      · exact hnot hmem
    · rw [if_neg hmem]
      refine iff_of_true ?_ (Or.inr hmem)
      split
      · exact ⟨_, rfl⟩
      · exact ⟨_, rfl⟩

theorem readTerminatedString_iff_line :
    Terminated { crtBuf := [97, 98], after := [[10]] } 10 3
      (readTerminatedString { crtBuf := [97, 98], after := [[10]] } 10 3) := by
  refine (readTerminatedString_iff ?_ 10 (by decide)).mpr (Or.inl (by decide))
  exact Nat.zero_le _

theorem readTerminatedString_misses_ff :
    (readTerminatedString { crtBuf := [97, 255], after := [] } 255 10).1 =
      .error (.outOfRange "terminator not found") := by
  decide +kernel

end Acc.Io.Cursor
