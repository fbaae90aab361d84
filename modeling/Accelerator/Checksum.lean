/-
# `Accelerator.Checksum` — checksums of streams

Each of the functions of `Checksum.h` takes in a stream by the law `Consumes`, from which follows
how the checksums of pieces go together and which errors change them.
-/
import Accelerator.Checksum.Crc32Hw
import Accelerator.Checksum.Crc32cHw

namespace Acc.Checksum

open Gf2

def crc32c (addr : BitVec 64) (data : List UInt8) (startingChecksum : BitVec 32) : BitVec 32 :=
  crc32cHw addr data startingChecksum

def crc32 (addr : BitVec 64) (data : List UInt8) (startingChecksum : BitVec 32) : BitVec 32 :=
  crc32Hw addr data startingChecksum

def crc32Type (addr : BitVec 64) (data : List UInt8) (startingChecksum : BitVec 32) :
    BitVec 32 :=
  ~~~crc32 addr data startingChecksum

section Laws

variable {p : BitVec 32} {f : BitVec 64 → List UInt8 → BitVec 32 → BitVec 32}

/-- Wherever the data are, they are taken in by the law of the polynomial. -/
def TakesIn (p : BitVec 32) (f : BitVec 64 → List UInt8 → BitVec 32 → BitVec 32) : Prop :=
  p.getLsbD 31 = true ∧
    ∀ addr data seed, Consumes p (regEval p seed) data (regEval p (f addr data seed))

lemma TakesIn.pieces (h : TakesIn p f) (pieces : List (BitVec 64 × List UInt8))
    (addr : BitVec 64) (seed : BitVec 32) :
    pieces.foldl (fun sum x => f x.1 x.2 sum) seed = f addr (pieces.flatMap Prod.snd) seed := by
  refine Consumes.unique h.1 ?_ (h.2 addr _ seed)
  induction pieces generalizing seed with
  | nil => exact Consumes.refl _
  | cons x pieces ih => exact (h.2 x.1 x.2 seed).append (ih _)

/-- Bits of two messages of one length differ, and all that do are among the 32 from `k` on. -/
structure Burst (k : Nat) (s t : List UInt8) : Prop where
  length : s.length = t.length
  differ : leWord (8 * s.length) s ≠ leWord (8 * s.length) t
  within : ∀ i < 8 * s.length,
    (leWord (8 * s.length) s).getLsbD i ≠ (leWord (8 * s.length) t).getLsbD i → k ≤ i ∧ i < k + 32

lemma TakesIn.burst (h : TakesIn p f) (addr addr' : BitVec 64) (seed : BitVec 32) {k : Nat}
    {s t : List UInt8} (hburst : Burst k s t) : f addr s seed ≠ f addr' t seed := by
  intro heq
  have hs := h.2 addr s seed
  rw [heq] at hs
  have hvalue := hs.msgEval_eq (h.2 addr' t seed) hburst.length
  rw [← eval_leWord p s (le_refl _), ← eval_leWord p t (by rw [← hburst.length])] at hvalue
  refine hburst.differ (BitVec.xor_eq_zero_iff.mp (eq_zero_of_burst h.1 (k := k) ?_ ?_))
  · intro i hi
    exact hburst.within i (BitVec.lt_of_getLsbD hi) (by simpa using hi)
  · rw [regEval, bitEval_xor]
    exact (congrArg (· + _) hvalue).trans (Gf2.add_self_eq_zero _)

lemma takesIn_crc32c : TakesIn crc32cReflected crc32c := ⟨crc32cReflected_top, consumes_crc32cHw⟩

lemma takesIn_crc32 : TakesIn crc32Reflected crc32 := ⟨crc32Reflected_top, consumes_crc32Hw⟩

end Laws

/-- The checksum of a stream does not depend on where its pieces are cut, nor on where they are
in memory. -/
theorem checksum_pieces (pieces : List (BitVec 64 × List UInt8)) (addr : BitVec 64)
    (seed : BitVec 32) :
    pieces.foldl (fun sum x => crc32c x.1 x.2 sum) seed =
        crc32c addr (pieces.flatMap Prod.snd) seed ∧
      pieces.foldl (fun sum x => crc32 x.1 x.2 sum) seed =
        crc32 addr (pieces.flatMap Prod.snd) seed ∧
      ~~~pieces.foldl (fun sum x => ~~~crc32Type x.1 x.2 sum) seed =
        crc32Type addr (pieces.flatMap Prod.snd) seed := by
  simp only [crc32Type, BitVec.not_not]
  exact ⟨takesIn_crc32c.pieces pieces addr seed, takesIn_crc32.pieces pieces addr seed,
    congrArg _ (takesIn_crc32.pieces pieces addr seed)⟩

/-- Errors within 32 consecutive bits are detected. -/
theorem checksum_detects_burst (addr addr' : BitVec 64) (seed : BitVec 32) {k : Nat}
    {s t : List UInt8} (h : Burst k s t) :
    crc32c addr s seed ≠ crc32c addr' t seed ∧ crc32 addr s seed ≠ crc32 addr' t seed ∧
      crc32Type addr s seed ≠ crc32Type addr' t seed := by
  have hcrc32 := takesIn_crc32.burst addr addr' seed h
  refine ⟨takesIn_crc32c.burst addr addr' seed h, hcrc32, ?_⟩
  rwa [crc32Type, crc32Type, ne_eq, BitVec.not_inj]

theorem checksum_detects_burst_carried : crc32c 3 [0, 0, 0] 7 ≠ crc32c 8 [0, 0x80, 1] 7 :=
  (checksum_detects_burst 3 8 7 (k := 15) (s := [0, 0, 0]) (t := [0, 0x80, 1])
    ⟨rfl, by decide, by decide⟩).1

end Acc.Checksum
