import Accelerator.Thread.SharedMutex

namespace Acc.Thread.SharedMutex

open BitVec Nat

variable {w : Word}

variable {mask : Word}

lemma has_eq_false : has w mask = false ↔ w &&& mask = 0 := bne_eq_false_iff_eq

lemma has_iff : has w mask = true ↔ w &&& mask ≠ 0 := bne_iff_ne

lemma has_mask_or (w a b : Word) : has w (a ||| b) = (has w a || has w b) := by
  have hand : w &&& (a ||| b) = (w &&& a) ||| (w &&& b) := by
    ext i hi
    simp [Bool.and_or_distrib_left]
  have hzero : (w &&& a) ||| (w &&& b) = 0 ↔ w &&& a = 0 ∧ w &&& b = 0 := or_eq_zero_iff
  rw [Bool.eq_iff_iff, Bool.or_eq_true, has_iff, has_iff, has_iff, hand, ne_eq, hzero, not_and_or]

lemma has_or (w put mask : Word) : has (w ||| put) mask = (has w mask || has put mask) := by
  rw [has, BitVec.and_comm, ← has, has_mask_or, has, has, BitVec.and_comm, BitVec.and_comm mask put,
    ← has, ← has]

lemma has_twoPow (w : Word) {i : Nat} (hi : i < 32) :
    has w (BitVec.twoPow 32 i) = w.getLsbD i := by
  rw [has, and_twoPow]
  cases w.getLsbD i with
  | false => rfl
  | true =>
    rw [if_pos rfl, bne_iff_ne]
    intro h
    have hbit := congrArg (fun v => BitVec.getLsbD v i) h
    simp [hi] at hbit

lemma has_andNot (w clear : Word) {i : Nat} (hi : i < 32) :
    has (w &&& ~~~ clear) (BitVec.twoPow 32 i)
      = (has w (BitVec.twoPow 32 i) && !has clear (BitVec.twoPow 32 i)) := by
  rw [has_twoPow _ hi, has_twoPow _ hi, has_twoPow _ hi]
  simp [hi]

lemma has_add_of_mod {x : Word} (hx : x.toNat % 1024 = 0) (hmask : mask.toNat < 1024) :
    has (w + x) mask = has w mask := by
  have hand : ∀ v : Word, (v &&& mask).toNat = (v.toNat % 2 ^ 10) &&& mask.toNat := by
    intro v
    have hm : mask.toNat % 2 ^ 10 = mask.toNat := mod_eq_of_lt hmask
    rw [toNat_and, ← mod_eq_of_lt (Nat.lt_of_le_of_lt and_le_right hmask),
      show 1024 = 2 ^ 10 from rfl, and_mod_two_pow, hm]
  have heq : (w + x) &&& mask = w &&& mask := by
    refine eq_of_toNat_eq ?_
    have hmod : (w + x).toNat % 2 ^ 10 = w.toNat % 2 ^ 10 := by
      rw [toNat_add]
      omega
    rw [hand, hand, hmod]
  rw [has, heq, has]

lemma has_incr (w : Word) (hmask : mask.toNat < 1024) :
    has (w + kIncrHasS) mask = has w mask := has_add_of_mod (by decide) hmask

lemma has_decr (w : Word) (hmask : mask.toNat < 1024) : has (w - kIncrHasS) mask = has w mask := by
  simp [← has_incr (w - kIncrHasS) hmask]

lemma incr_toNat : kIncrHasS.toNat = 1024 := by decide

lemma has_add (w : Word) (k : Nat) (hmask : mask.toNat < 1024) :
    has (w + BitVec.ofNat 32 k * kIncrHasS) mask = has w mask := by
  refine has_add_of_mod ?_ hmask
  rw [toNat_mul, toNat_ofNat, incr_toNat]
  omega

lemma add_hasU (h : has w kHasU = false) : w + kHasU = w ||| kHasU :=
  add_eq_or_of_and_eq_zero _ _ (has_eq_false.mp h)

lemma sub_hasU (h : has w kHasU = true) : w - kHasU = w &&& ~~~ kHasU := by
  have hclear : has (w &&& ~~~ kHasU) kHasU = false := by
    have := has_andNot w kHasU (i := 5) (by decide)
    rw [show BitVec.twoPow 32 5 = kHasU by decide] at this
    rw [this]
    exact Bool.and_false _
  have hbit : w &&& kHasU = kHasU := by
    have htwo : kHasU = BitVec.twoPow 32 5 := by decide
    rw [has_iff, htwo, and_twoPow] at h
    rw [htwo, and_twoPow]
    split
    · rfl
    · rename_i hne
      rw [if_neg hne] at h
      exact absurd rfl h
  have hsplit : (w &&& ~~~ kHasU) + kHasU = w := by
    rw [add_hasU hclear]
    nth_rewrite 2 [← hbit]
    ext i hi
    simp [← Bool.and_or_distrib_left]
  nth_rewrite 1 [← hsplit]
  exact add_sub_cancel _ _

def count (w : Word) : ZMod (2 ^ 22) := ((w >>> 10).toNat : ZMod (2 ^ 22))

lemma count_eq (w : Word) : count w = ((w.toNat / 1024 : Nat) : ZMod (2 ^ 22)) := by
  simp [count, shiftRight_eq_div_pow]

lemma count_or {put : Word} (h : put >>> 10 = 0) : count (w ||| put) = count w := by
  have hor : w >>> 10 ||| (0 : Word) = w >>> 10 := or_zero
  rw [count, ushiftRight_or_distrib, h, hor, count]

lemma count_andNot {clear : Word} (h : clear >>> 10 = 0) : count (w &&& ~~~ clear) = count w := by
  have hshift : (w &&& ~~~ clear) >>> 10 = w >>> 10 := by
    ext i hi
    have hc := congrArg (fun v => BitVec.getLsbD v i) h
    simp only [getLsbD_ushiftRight] at hc
    by_cases hbit : 10 + i < 32
    · simp_all
    · simp [getLsbD_of_ge w (10 + i) (by omega)]
  rw [count, hshift, count]

lemma count_of_toNat {v : Word} {k : Nat}
    (h : v.toNat = (w.toNat + k * 1024) % 2 ^ 32) : count v = count w + k := by
  have hdiv : v.toNat / 1024 = (w.toNat / 1024 + k) % 2 ^ 22 := by omega
  simp [count_eq, hdiv]

lemma count_incr (w : Word) : count (w + kIncrHasS) = count w + 1 := by
  have h : (w + kIncrHasS).toNat = (w.toNat + 1 * 1024) % 2 ^ 32 := by
    simp [incr_toNat]
  rw [count_of_toNat h, cast_one]

lemma count_decr (w : Word) : count (w - kIncrHasS) = count w - 1 := by
  have h : count w = count (w - kIncrHasS) + 1 := by
    rw [← count_incr, sub_add_cancel]
  rw [h, add_sub_cancel_right]

lemma count_add (w : Word) (k : Nat) : count (w + BitVec.ofNat 32 k * kIncrHasS) = count w + k := by
  refine count_of_toNat ?_
  rw [toNat_add, toNat_mul, toNat_ofNat, incr_toNat]
  omega

lemma has_hasS (w : Word) : has w kHasS = decide (count w ≠ 0) := by
  have hlt : (w >>> 10).toNat < 2 ^ 22 := by
    rw [toNat_ushiftRight, shiftRight_eq_div_pow]
    omega
  have hlow : ∀ i, i < 10 → kHasS.getLsbD i = false := by decide
  have hhigh : ∀ i, i < 22 → kHasS.getLsbD (10 + i) = true := by decide
  have hzero : w &&& kHasS = 0 ↔ (w >>> 10).toNat = 0 := by
    rw [← toNat_zero (w := 32), toNat_inj]
    constructor
    · intro h
      ext i hi
      have hbit := congrArg (fun v => BitVec.getLsbD v (10 + i)) h
      by_cases hi' : i < 22
      · simpa [hhigh i hi'] using hbit
      · simp [getLsbD_of_ge w (10 + i) (by omega)]
    intro h
    ext i hi
    by_cases hi' : i < 10
    · simp [← getLsbD_eq_getElem, hlow i hi']
    · have hbit := congrArg (fun v => BitVec.getLsbD v (i - 10)) h
      simp only [getLsbD_ushiftRight, show 10 + (i - 10) = i by omega] at hbit
      simp_all [← getLsbD_eq_getElem]
  have hdvd : 2 ^ 22 ∣ (w >>> 10).toNat ↔ (w >>> 10).toNat = 0 :=
    ⟨fun h => eq_zero_of_dvd_of_lt h hlt, fun h => h ▸ dvd_zero _⟩
  rw [Bool.eq_iff_iff, has_iff, decide_eq_true_iff, ne_eq, ne_eq, hzero, count,
    ZMod.natCast_eq_zero_iff, hdvd]

def view (m : Mem) : DeferredReaders.Mem (2 ^ 22) kMaxDeferredReaders where
  count := count m.state
  mayDefer := has m.state kMayDefer
  hasE := has m.state kHasE
  begunE := has m.state kBegunE
  hasU := has m.state kHasU
  slots := m.slots

def Reads (w : Word) (c : ZMod (2 ^ 22)) (mayDefer hasE begunE hasU : Bool) : Prop :=
  count w = c ∧ has w kMayDefer = mayDefer ∧ has w kHasE = hasE ∧ has w kBegunE = begunE ∧
    has w kHasU = hasU

lemma Reads.view {m : Mem} {c : ZMod (2 ^ 22)} {mayDefer hasE begunE hasU : Bool}
    (h : Reads w c mayDefer hasE begunE hasU) :
    view { m with state := w } = ⟨c, mayDefer, hasE, begunE, hasU, m.slots⟩ := by
  obtain ⟨rfl, rfl, rfl, rfl, rfl⟩ := h
  rfl

lemma Reads.zero : Reads 0 0 false false false false :=
  ⟨cast_zero, rfl, rfl, rfl, rfl⟩

lemma Reads.self (w : Word) :
    Reads w (count w) (has w kMayDefer) (has w kHasE) (has w kBegunE) (has w kHasU) :=
  ⟨rfl, rfl, rfl, rfl, rfl⟩

namespace Reads

variable {c : ZMod (2 ^ 22)} {d e b u : Bool} (h : Reads w c d e b u)

include h

lemma incr : Reads (w + kIncrHasS) (c + 1) d e b u := by
  obtain ⟨rfl, rfl, rfl, rfl, rfl⟩ := h
  exact ⟨count_incr w, has_incr w (by decide), has_incr w (by decide), has_incr w (by decide),
    has_incr w (by decide)⟩

lemma decr : Reads (w - kIncrHasS) (c - 1) d e b u := by
  obtain ⟨rfl, rfl, rfl, rfl, rfl⟩ := h
  exact ⟨count_decr w, has_decr w (by decide), has_decr w (by decide), has_decr w (by decide),
    has_decr w (by decide)⟩

lemma add (k : Nat) : Reads (w + BitVec.ofNat 32 k * kIncrHasS) (c + k) d e b u := by
  obtain ⟨rfl, rfl, rfl, rfl, rfl⟩ := h
  exact ⟨count_add w k, has_add w k (by decide), has_add w k (by decide), has_add w k (by decide),
    has_add w k (by decide)⟩

lemma or (put : Word) (d' e' b' u' : Bool) (hput : put >>> 10 = 0 ∧ has put kMayDefer = d' ∧
    has put kHasE = e' ∧ has put kBegunE = b' ∧ has put kHasU = u') :
    Reads (w ||| put) c (d || d') (e || e') (b || b') (u || u') := by
  obtain ⟨rfl, rfl, rfl, rfl, rfl⟩ := h
  obtain ⟨hcount, rfl, rfl, rfl, rfl⟩ := hput
  exact ⟨count_or hcount, has_or .., has_or .., has_or .., has_or ..⟩

lemma andNot (clear : Word) (d' e' b' u' : Bool) (hclear : clear >>> 10 = 0 ∧
    has clear kMayDefer = d' ∧ has clear kHasE = e' ∧ has clear kBegunE = b' ∧
    has clear kHasU = u') :
    Reads (w &&& ~~~ clear) c (d && !d') (e && !e') (b && !b') (u && !u') := by
  obtain ⟨rfl, rfl, rfl, rfl, rfl⟩ := h
  obtain ⟨hcount, rfl, rfl, rfl, rfl⟩ := hclear
  exact ⟨count_andNot hcount, has_andNot w clear (i := 9) (by decide),
    has_andNot w clear (i := 7) (by decide), has_andNot w clear (i := 6) (by decide),
    has_andNot w clear (i := 5) (by decide)⟩

end Reads

section Writes

variable {c : ZMod (2 ^ 22)} {d e b u : Bool} (h : Reads w c d e b u)

include h

lemma Reads.mayDefer : Reads (w ||| kMayDefer) c true e b u := by
  simpa using h.or kMayDefer true false false false (by decide)

lemma Reads.hasU : Reads (w ||| kHasU) c d e b true := by
  simpa using h.or kHasU false false false true (by decide)

lemma Reads.lockFast : Reads ((w ||| kHasE) &&& ~~~ kHasU) c d true b false := by
  simpa using (h.or kHasE false true false false (by decide)).andNot kHasU false false false true
    (by decide)

lemma Reads.lockEnd : Reads ((w &&& ~~~ kBegunE) ||| kHasE) c d true false u := by
  simpa using (h.andNot kBegunE false false true false (by decide)).or kHasE false true false false
    (by decide)

lemma Reads.backOut :
    Reads (w &&& ~~~ (kPrevDefer ||| kHasE ||| kBegunE ||| kWaitingNotS)) c d false false u := by
  simpa using h.andNot (kPrevDefer ||| kHasE ||| kBegunE ||| kWaitingNotS) false true true false
    (by decide)

lemma Reads.unlock : Reads (w &&& ~~~ (kWaitingNotS ||| kPrevDefer ||| kHasE)) c d false b u := by
  simpa using h.andNot (kWaitingNotS ||| kPrevDefer ||| kHasE) false true false false (by decide)

lemma Reads.toShared :
    Reads ((w &&& ~~~ (kWaitingAny ||| kPrevDefer ||| kHasE)) + kIncrHasS) (c + 1) d false b u := by
  refine Reads.incr ?_
  simpa using h.andNot (kWaitingAny ||| kPrevDefer ||| kHasE) false true false false (by decide)

lemma Reads.lockAfter (readerPriority : Bool) :
    Reads (lockAfter readerPriority w) c false (e || (!readerPriority || (!d && decide (c = 0))))
      (b || !(!readerPriority || (!d && decide (c = 0)))) false := by
  have hcond : (!readerPriority || !has w (kMayDefer ||| kHasS))
      = (!readerPriority || (!d && decide (c = 0))) := by
    obtain ⟨rfl, rfl, rfl, rfl, rfl⟩ := h
    rw [has_mask_or, has_hasS, Bool.not_or]
    simp
  have hprev : ∀ {v : Word} {e b : Bool}, Reads v c false e b false →
      Reads ((if has w kMayDefer then kPrevDefer else 0) ||| v) c false e b false := by
    intro v e b hv
    rw [BitVec.or_comm]
    split
    · simpa using hv.or kPrevDefer false false false false (by decide)
    · simpa using hv.or 0 false false false false (by decide)
  rw [SharedMutex.lockAfter, hcond]
  refine hprev ?_
  split
  · rename_i he
    rw [he]
    simpa using (h.or kHasE false true false false (by decide)).andNot (kHasU ||| kMayDefer)
      true false false true (by decide)
  rename_i he
  rw [Bool.not_eq_true] at he
  rw [he]
  simpa using (h.or kBegunE false false true false (by decide)).andNot (kHasU ||| kMayDefer)
    true false false true (by decide)

lemma Reads.waitAfter {waitMask : Word} (hmask : waitMask = kWaitingE ∨ waitMask = kWaitingNotS ∨
    waitMask = kWaitingS ∨ waitMask = kWaitingU) : Reads (waitAfter w waitMask) c d e b u := by
  have put : ∀ mask : Word, (mask >>> 10 = 0 ∧ has mask kMayDefer = false ∧
      has mask kHasE = false ∧ has mask kBegunE = false ∧ has mask kHasU = false) →
      Reads (w ||| mask) c d e b u := by
    intro mask hm
    simpa using h.or mask false false false false hm
  rw [SharedMutex.waitAfter]
  split
  · split
    · exact put _ (by decide)
    · exact put _ (by decide)
  rcases hmask with rfl | rfl | rfl | rfl
  · exact put _ (by decide)
  · exact put _ (by decide)
  · exact put _ (by decide)
  · exact put _ (by decide)

end Writes

section Upgrade

variable {c : ZMod (2 ^ 22)} {d e b : Bool}

lemma Reads.unlockUpgrade (h : Reads w c d e b true) : Reads (w - kHasU) c d e b false := by
  rw [sub_hasU h.2.2.2.2]
  simpa using h.andNot kHasU false false false true (by decide)

lemma Reads.upgradeToShared (h : Reads w c d e b true) :
    Reads (w - (kHasU - kIncrHasS)) (c + 1) d e b false := by
  have hsub : w - (kHasU - kIncrHasS) = (w - kHasU) + kIncrHasS := by
    rw [BitVec.sub_eq_add_neg, BitVec.neg_sub, BitVec.sub_eq_add_neg, BitVec.add_assoc]
  rw [hsub]
  exact h.unlockUpgrade.incr

lemma Reads.toUpgrade (h : Reads w c d e b false) :
    Reads ((w &&& ~~~ (kWaitingNotS ||| kWaitingS ||| kPrevDefer ||| kHasE)) + kHasU) c d false b
      true := by
  have hclear : Reads (w &&& ~~~ (kWaitingNotS ||| kWaitingS ||| kPrevDefer ||| kHasE)) c d false b
      false := by
    simpa using h.andNot (kWaitingNotS ||| kWaitingS ||| kPrevDefer ||| kHasE) false true false false
      (by decide)
  rw [add_hasU hclear.2.2.2.2]
  exact hclear.hasU

end Upgrade

end Acc.Thread.SharedMutex
