import Accelerator.Io.CursorScan

namespace Acc.Io

open List

structure Iovec where
  buf : Option Nat
  data : Nat
  len : Nat
  deriving DecidableEq, Repr

def IOBuf.iovec (b : IOBuf) : Iovec := ⟨b.buf, b.data, b.length⟩

def appendToIov : List IOBuf → List Iovec → List Iovec
  | [], iov => iov
  | p :: ps, iov => appendToIov ps (if p.length > 0 then iov ++ [p.iovec] else iov)

def getIov (chain : List IOBuf) : List Iovec := appendToIov chain []

def fillLoop (len : Nat) : List IOBuf → List Iovec → Nat × List Iovec
  | [], iov => (iov.length, iov)
  | p :: ps, iov =>
    if iov.length < len then fillLoop len ps (if p.length > 0 then iov ++ [p.iovec] else iov)
    else (0, iov)

def fillIov (chain : List IOBuf) (len : Nat) : Nat × List Iovec := fillLoop len chain []

lemma appendToIov_append (ps qs : List IOBuf) (iov : List Iovec) :
    appendToIov (ps ++ qs) iov = appendToIov qs (appendToIov ps iov) := by
  induction ps generalizing iov with
  | nil => rfl
  | cons p ps ih => exact ih _

lemma length_le_appendToIov (ps : List IOBuf) (iov : List Iovec) :
    iov.length ≤ (appendToIov ps iov).length := by
  induction ps generalizing iov with
  | nil => exact le_refl _
  | cons p ps ih =>
    refine le_trans ?_ (ih _)
    split
    · simp
    · exact le_refl _

lemma fillLoop_concat (len : Nat) (ps : List IOBuf) (p : IOBuf) (iov : List Iovec) :
    ((appendToIov ps iov).length < len → fillLoop len (ps ++ [p]) iov =
      ((appendToIov (ps ++ [p]) iov).length, appendToIov (ps ++ [p]) iov)) ∧
    (len ≤ (appendToIov ps iov).length → (fillLoop len (ps ++ [p]) iov).1 = 0) := by
  induction ps generalizing iov with
  | nil =>
    rw [nil_append, fillLoop, appendToIov]
    refine ⟨fun h => ?_, fun h => ?_⟩
    · rw [if_pos h]
      rfl
    · rw [if_neg (not_lt.mpr h)]
  | cons q ps ih =>
    rw [cons_append, fillLoop, appendToIov]
    by_cases hroom : iov.length < len
    · rw [if_pos hroom]
      exact ih _
    · rw [if_neg hroom]
      refine ⟨fun h => absurd ?_ hroom, fun _ => rfl⟩
      exact (length_le_appendToIov (q :: ps) iov).trans_lt h

def FillsLikeGetIov (chain : List IOBuf) (len : Nat) : Prop :=
  if (getIov chain).length ≤ len then fillIov chain len = ((getIov chain).length, getIov chain)
  else (fillIov chain len).1 = 0

theorem fillIov_iff (bs : List IOBuf) (b : IOBuf) (len : Nat) :
    FillsLikeGetIov (bs ++ [b]) len ↔
      ¬ (b.length = 0 ∧ (getIov (bs ++ [b])).length = len ∧ 0 < len) := by
  obtain ⟨hroom, hfull⟩ := fillLoop_concat len bs b []
  have hlast : getIov (bs ++ [b]) =
      if b.length > 0 then getIov bs ++ [b.iovec] else getIov bs := appendToIov_append bs [b] []
  rw [FillsLikeGetIov]
  rcases lt_or_ge (getIov bs).length len with hlt | hge
  · have hcount : (getIov (bs ++ [b])).length ≤ len := by
      rw [hlast]
      split
      · rw [length_append, length_singleton]
        omega
      · omega
    rw [if_pos hcount]
    refine iff_of_true (hroom hlt) ?_
    rintro ⟨hempty, heq, -⟩
    rw [hlast, if_neg (by omega)] at heq
    omega
  · have hzero : (fillIov (bs ++ [b]) len).1 = 0 := hfull hge
    by_cases hcount : (getIov (bs ++ [b])).length ≤ len
    · -- the others fill the array, and the last one is empty
      have hempty : b.length = 0 := by
        by_contra hne
        rw [hlast, if_pos (by omega), length_append, length_singleton] at hcount
        omega
      have heq : (getIov (bs ++ [b])).length = len := by
        rw [hlast, if_neg (by omega)] at hcount ⊢
        omega
      rw [if_pos hcount, heq]
      constructor
      · rintro h ⟨-, -, hpos⟩
        rw [h] at hzero
        exact absurd hzero hpos.ne'
      · intro h
        obtain rfl : len = 0 := Nat.eq_zero_of_not_pos fun hpos => h ⟨hempty, rfl, hpos⟩
        rw [length_eq_zero_iff.mp heq]
        cases bs with
        | nil | cons c bs => rfl
    · rw [if_neg hcount]
      exact iff_of_true hzero fun h => hcount h.2.1.le

theorem fillIov_empty_last :
    let b : IOBuf := { buf := some 0, length := 3, capacity := 8 }
    getIov [b, {}] = [b.iovec] ∧ fillIov [b, {}] 1 = (0, [b.iovec]) :=
  ⟨rfl, rfl⟩

namespace Cursor

def peekLoop (before : List (List UInt8)) (crtBuf : List UInt8) (offset : Nat) :
    List (List UInt8) → Cursor
  | [] => advanceBufferIfEmpty { before, crtBuf, after := [], offset }
  | next :: after =>
    let c : Cursor := { before, crtBuf, after := next :: after, offset }
    if c.length = 0 then peekLoop (crtBuf :: before) next 0 after else c

def peekBytes (c : Cursor) : List UInt8 × Cursor :=
  let c := peekLoop c.before c.crtBuf c.offset c.after
  (c.data, c)

def skip (c : Cursor) (len : Nat) : Except String Cursor :=
  let (n, c) := c.skipAtMost len
  if n = len then .ok c else .error "underflow"

def equalLoop : Nat → Cursor → Cursor → Option (Except String Bool)
  | 0, _, _ => none
  | fuel + 1, ca, cb =>
    let (ba, ca) := ca.peekBytes
    let (bb, cb) := cb.peekBytes
    if ba.isEmpty && bb.isEmpty then some (.ok true)
    else if ba.isEmpty || bb.isEmpty then some (.ok false)
    else
      let n := min ba.length bb.length
      if ba.take n ≠ bb.take n then some (.ok false)
      else
        match ca.skip n, cb.skip n with
        | .ok ca, .ok cb => equalLoop fuel ca cb
        | .error what, _ => some (.error what)
        | _, .error what => some (.error what)

variable {ca cb : Cursor}

lemma stays (hin : ca.Inside) (h : ca.length ≠ 0) :
    Moved ca ca 0 ∧ (ca.data = [] → ca.rest = []) := by
  refine ⟨⟨hin, rfl, rfl⟩, fun hnil => absurd ?_ h⟩
  rw [← length_data, hnil, length_nil]

lemma peekLoop_spec (before : List (List UInt8)) (crtBuf : List UInt8) (offset : Nat)
    (after : List (List UInt8)) (c : Cursor) (hc : c = { before, crtBuf, after, offset })
    (hin : c.Inside) : Moved c (peekLoop before crtBuf offset after) 0 ∧
      ((peekLoop before crtBuf offset after).data = [] → c.rest = []) := by
  induction after generalizing before crtBuf offset c with
  | nil =>
    rw [peekLoop, advanceBufferIfEmpty, ← hc]
    split
    · rename_i hzero
      have hmoved := moved_tryAdvanceBuffer hin
      rw [hzero] at hmoved
      refine ⟨hmoved, fun _ => ?_⟩
      rw [rest, length_eq_zero_iff.mp ((length_data c).trans hzero), hc]
      rfl
    · rename_i hne
      exact stays hin hne
  | cons next after ih =>
    rw [peekLoop]
    simp only [← hc]
    split
    · rename_i hzero
      have hnext : c.tryAdvanceBuffer.2 =
          { before := crtBuf :: before, crtBuf := next, after, offset := 0 } := by
        rw [tryAdvanceBuffer, hc]
      have hmoved := moved_tryAdvanceBuffer hin
      rw [hzero] at hmoved
      obtain ⟨hpeek, hrest⟩ := ih _ _ _ _ hnext hmoved.inside
      refine ⟨hmoved.trans hpeek, fun hnil => ?_⟩
      rw [← hrest hnil, rest_of_moved hin hmoved, drop_zero]
    · rename_i hne
      exact stays hin hne

lemma peekBytes_spec (hin : ca.Inside) : ca.peekBytes.2.Inside ∧ ca.peekBytes.2.rest = ca.rest ∧
      (ca.peekBytes.1 = [] ↔ ca.rest = []) ∧ ca.peekBytes.1 = ca.peekBytes.2.data := by
  obtain ⟨hmoved, hrest⟩ := peekLoop_spec _ _ _ _ ca rfl hin
  have hsame : ca.peekBytes.2.rest = ca.rest := by rw [peekBytes, rest_of_moved hin hmoved, drop_zero]
  refine ⟨hmoved.inside, hsame, ⟨hrest, fun hnil => ?_⟩, rfl⟩
  rw [← hsame] at hnil
  exact (append_eq_nil_iff.mp hnil).1

lemma skip_spec (hin : ca.Inside) {len : Nat} (h : len ≤ ca.data.length) :
    ca.data.take len = ca.rest.take len ∧
      ∃ c, ca.skip len = .ok c ∧ c.Inside ∧ c.rest = ca.rest.drop len := by
  have hlen : min len ca.rest.length = len := by
    rw [rest, length_append]
    omega
  obtain ⟨hn, hmoved⟩ := skipAtMost_spec hin len
  rw [hlen] at hn hmoved
  refine ⟨?_, _, if_pos hn, hmoved.inside, rest_of_moved hin hmoved⟩
  rw [rest, take_append_of_le_length h]

lemma equalLoop_eq (fuel : Nat) (ha : ca.Inside) (hb : cb.Inside) (h : ca.rest.length < fuel) :
    equalLoop fuel ca cb = some (.ok (decide (ca.rest = cb.rest))) := by
  induction fuel generalizing ca cb with
  | zero => cases h
  | succ fuel ih =>
    obtain ⟨hina, hresta, hnila, hdataa⟩ := peekBytes_spec ha
    obtain ⟨hinb, hrestb, hnilb, hdatab⟩ := peekBytes_spec hb
    rw [equalLoop]
    generalize ca.peekBytes = pa at *
    generalize cb.peekBytes = pb at *
    obtain ⟨ba, ca'⟩ := pa
    obtain ⟨bb, cb'⟩ := pb
    dsimp only at *
    by_cases hba : ba = []
    · by_cases hbb : bb = []
      · simp [hba, hbb, hnila.mp hba, hnilb.mp hbb]
      · have hne : cb.rest ≠ [] := mt hnilb.mpr hbb
        simp [hba, hbb, hnila.mp hba, hne.symm]
    have hne : ca.rest ≠ [] := mt hnila.mpr hba
    by_cases hbb : bb = []
    · simp [hba, hbb, hnilb.mp hbb, hne]
    have hposa := length_pos_iff.mpr hba
    have hposb := length_pos_iff.mpr hbb
    generalize hn : min ba.length bb.length = n
    obtain ⟨htakea, ca₁, hskipa, hina₁, hrest₁⟩ := skip_spec hina (show n ≤ _ by rw [← hdataa]; omega)
    obtain ⟨htakeb, cb₁, hskipb, hinb₁, hrest₂⟩ := skip_spec hinb (show n ≤ _ by rw [← hdatab]; omega)
    rw [← hdataa, hresta] at htakea
    rw [← hdatab, hrestb] at htakeb
    rw [hresta] at hrest₁
    rw [hrestb] at hrest₂
    simp only [isEmpty_eq_false_iff.mpr hba, isEmpty_eq_false_iff.mpr hbb, Bool.and_self,
      Bool.or_self, Bool.false_eq_true, if_false, hskipa, hskipb, htakea, htakeb]
    by_cases heq : ca.rest.take n = cb.rest.take n
    · have hlt : ca₁.rest.length < fuel := by
        have := length_pos_iff.mpr hne
        rw [hrest₁, length_drop]
        omega
      rw [if_neg (not_not.mpr heq), ih hina₁ hinb₁ hlt, hrest₁, hrest₂]
      congr 3
      refine propext ⟨fun hdrop => ?_, fun hall => by rw [hall]⟩
      rw [← take_append_drop n ca.rest, heq, hdrop, take_append_drop]
    · rw [if_pos heq, decide_eq_false fun hall => heq (by rw [hall])]

end Cursor

theorem iobufEqual_eq (st : Store) (a b : IOBuf) (as bs : List IOBuf) (fuel : Nat)
    (h : (content st (a :: as)).length < fuel) :
    Cursor.equalLoop fuel (.ofChain st a as) (.ofChain st b bs) =
      some (.ok (decide (content st (a :: as) = content st (b :: bs)))) := by
  have hrest : ∀ (c : IOBuf) (cs : List IOBuf), (Cursor.ofChain st c cs).rest = content st (c :: cs) := by
    intro c cs
    obtain ⟨hin, hbytes, hpos⟩ := Cursor.at_ofChain st c cs
    rw [← Cursor.drop_position hin, hbytes, hpos, drop_zero]
  rw [Cursor.equalLoop_eq fuel (Nat.zero_le _) (Nat.zero_le _) (by rwa [hrest]), hrest, hrest]

theorem iobufEqual_eq_chunks :
    let st : Store := newBlock (newBlock [] [1, 2, 3] true) [1, 2, 3] true
    let b (k data length : Nat) : IOBuf := { buf := some k, managed := true, data, length, capacity := 3 }
    Cursor.equalLoop 4 (.ofChain st (b 0 0 1) [b 0 3 0, b 0 1 2]) (.ofChain st (b 1 0 3) []) =
      some (.ok (decide (content st [b 0 0 1, b 0 3 0, b 0 1 2] = content st [b 1 0 3]))) :=
  iobufEqual_eq _ _ _ _ _ 4 (by decide)

end Acc.Io
