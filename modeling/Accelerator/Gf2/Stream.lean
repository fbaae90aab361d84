import Accelerator.Gf2.Register

namespace Gf2

open List

variable {w : Nat}

noncomputable def msgEval (p : BitVec w) : List UInt8 → RegRing p
  | [] => 0
  | b :: bs => regEval p b.toBitVec + regRoot p ^ 8 * msgEval p bs

@[simp] lemma msgEval_nil (p : BitVec w) : msgEval p [] = 0 := rfl

lemma msgEval_append (p : BitVec w) (s t : List UInt8) :
    msgEval p (s ++ t) = msgEval p s + regRoot p ^ (8 * s.length) * msgEval p t := by
  induction s with
  | nil => simp
  | cons b s ih =>
    simp only [cons_append, msgEval, ih, length_cons]
    ring

def leWord (n : Nat) : List UInt8 → BitVec n
  | [] => 0
  | b :: bs => b.toBitVec.setWidth n ^^^ (leWord n bs <<< 8)

lemma leWord_getLsbD_of_ge (n : Nat) (s : List UInt8) :
    ∀ i, 8 * s.length ≤ i → (leWord n s).getLsbD i = false := by
  induction s with
  | nil => intro i _; simp [leWord]
  | cons b s ih =>
    intro i hi
    simp only [length_cons] at hi
    rw [leWord, BitVec.getLsbD_xor, BitVec.getLsbD_setWidth, BitVec.getLsbD_shiftLeft,
      BitVec.getLsbD_of_ge b.toBitVec i (by omega), ih (i - 8) (by omega)]
    simp

lemma eval_leWord (p : BitVec w) {n : Nat} (s : List UInt8) (h : 8 * s.length ≤ n) :
    regEval p (leWord n s) = msgEval p s := by
  induction s with
  | nil => exact bitEval_zero _ _
  | cons b s ih =>
    simp only [length_cons] at h
    have hshift : regEval p (leWord n s <<< 8) = regRoot p ^ 8 * regEval p (leWord n s) :=
      bitEval_shiftLeft _ _ _ fun i hi => leWord_getLsbD_of_ge n s i (by omega)
    have hbyte : regEval p (b.toBitVec.setWidth n) = regEval p b.toBitVec :=
      bitEval_zeroExtend _ _ (by omega)
    rw [leWord, msgEval, ← ih (by omega), ← hshift, ← hbyte]
    exact bitEval_xor _ _ _

def slice (data : List UInt8) (off n : Nat) : List UInt8 := (data.drop off).take n

def load (bits : Nat) (data : List UInt8) (off n : Nat) : BitVec bits :=
  leWord bits (slice data off n)

lemma length_slice {data : List UInt8} {off n : Nat} (h : off + n ≤ data.length) :
    (slice data off n).length = n := by
  simp only [slice, length_take, length_drop]
  omega

lemma slice_append (data : List UInt8) (off m n : Nat) :
    slice data off m ++ slice data (off + m) n = slice data off (m + n) := by
  rw [slice, slice, slice, take_add, drop_drop]

lemma slice_zero (data : List UInt8) (off : Nat) : slice data off 0 = [] := by
  simp [slice]

lemma slice_all (data : List UInt8) : slice data 0 data.length = data := by
  simp [slice]

lemma eval_load (p : BitVec w) {bits : Nat} {data : List UInt8} {off n : Nat}
    (h : off + n ≤ data.length) (hb : 8 * n ≤ bits) :
    regEval p (load bits data off n) = msgEval p (slice data off n) :=
  eval_leWord p _ (by rw [length_slice h]; exact hb)

def Consumes (p : BitVec w) (a : RegRing p) (s : List UInt8) (b : RegRing p) : Prop :=
  b = regGen p ^ (8 * s.length) * (a + msgEval p s)

namespace Consumes

variable {p : BitVec w} {a b c d : RegRing p} {s t : List UInt8}

lemma refl (a : RegRing p) : Consumes p a [] a := by
  simp [Consumes]

lemma append (h : Consumes p a s b) (h' : Consumes p b t c) : Consumes p a (s ++ t) c := by
  unfold Consumes at h h' ⊢
  rw [h', h, msgEval_append, length_append]
  have hroot := gen_pow_mul_root_pow p (8 * s.length) (msgEval p t)
  calc regGen p ^ (8 * t.length) *
        (regGen p ^ (8 * s.length) * (a + msgEval p s) + msgEval p t)
      = regGen p ^ (8 * t.length) * (regGen p ^ (8 * s.length) * (a + msgEval p s) +
          regGen p ^ (8 * s.length) * (regRoot p ^ (8 * s.length) * msgEval p t)) := by
        rw [hroot]
    _ = _ := by ring

lemma join (h : Consumes p a s b) (h' : Consumes p 0 t c) :
    Consumes p a (s ++ t) (regGen p ^ (8 * t.length) * b + c) := by
  have happ : Consumes p a (s ++ t) (regGen p ^ (8 * t.length) * (b + msgEval p t)) :=
    h.append rfl
  have hc : c = regGen p ^ (8 * t.length) * msgEval p t := by
    rw [h', zero_add]
  rw [hc, ← mul_add]
  exact happ

lemma word {n : Nat} {v : BitVec n} (hv : regEval p v = msgEval p s)
    (hb : b = regGen p ^ (8 * s.length) * (a + regEval p v)) : Consumes p a s b := by
  rw [Consumes, hb, hv]

lemma msgEval_eq (h : Consumes p a s b) (h' : Consumes p a t b) (hlen : s.length = t.length) :
    msgEval p s = msgEval p t := by
  have heq := h.symm.trans h'
  rw [hlen] at heq
  have hcancel := congrArg (regRoot p ^ (8 * t.length) * ·) heq
  simp only [mul_left_comm _ (regGen p ^ _), gen_pow_mul_root_pow] at hcancel
  exact add_left_cancel hcancel

end Consumes

lemma eq_zero_of_burst {p : BitVec (w + 1)} (hp : p.getLsbD w = true) {n k : Nat} {v : BitVec n}
    (hbits : ∀ i, v.getLsbD i = true → k ≤ i ∧ i < k + (w + 1)) (h : regEval p v = 0) : v = 0 := by
  have hlow : v.setWidth k = 0 := by
    refine BitVec.eq_of_getLsbD_eq fun i _ => ?_
    rw [BitVec.getLsbD_setWidth]
    grind
  have hfits : FitsIn (w + 1) (v >>> k) := by
    intro i hi
    rw [BitVec.getLsbD_ushiftRight]
    grind
  have hsplit : regEval p v = regRoot p ^ k * regEval p (v >>> k) := by
    have := bitEval_split (regRoot p) v k
    rwa [hlow, bitEval_zero, zero_add] at this
  have hshift : regEval p (v >>> k) = 0 := by
    rw [← gen_pow_mul_root_pow p k (regEval p (v >>> k)), ← hsplit, h, mul_zero]
  have hword : (v >>> k).setWidth (w + 1) = 0 := by
    apply regEval_injective hp
    exact (bitEval_setWidth _ _ _ hfits).trans (hshift.trans (bitEval_zero _ _).symm)
  refine BitVec.eq_of_getLsbD_eq fun i _ => ?_
  have hbit := congrArg (·.getLsbD (i - k)) hword
  rw [BitVec.getLsbD_setWidth, BitVec.getLsbD_ushiftRight] at hbit
  grind

lemma Consumes.unique {p : BitVec (w + 1)} (hp : p.getLsbD w = true)
    {a : RegRing p} {s : List UInt8} {c₁ c₂ : BitVec (w + 1)}
    (h₁ : Consumes p a s (regEval p c₁)) (h₂ : Consumes p a s (regEval p c₂)) : c₁ = c₂ :=
  regEval_injective hp (h₁.trans h₂.symm)

def consumeBytes (p : BitVec w) (c : BitVec w) (s : List UInt8) : BitVec w :=
  s.foldl (fun c b => consume p c b.toBitVec) c

lemma consumes_consumeBytes (p : BitVec (w + 1)) (c : BitVec (w + 1))
    (s : List UInt8) : Consumes p (regEval p c) s (regEval p (consumeBytes p c s)) := by
  induction s generalizing c with
  | nil => exact Consumes.refl _
  | cons b s ih =>
    have hb : Consumes p (regEval p c) [b] (regEval p (consume p c b.toBitVec)) := by
      refine Consumes.word (v := b.toBitVec) ?_ (eval_consume p c b.toBitVec)
      simp [msgEval]
    exact hb.append (ih _)

end Gf2
