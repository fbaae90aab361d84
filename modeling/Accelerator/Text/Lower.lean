import Accelerator.Lanes

namespace Acc.Text

open Lanes (pack load store)

def lowerBits {w : Nat} (k7f k25 k1a k20 c : BitVec w) : BitVec w :=
  let rotated := c &&& k7f
  let rotated := rotated + k25
  let rotated := rotated &&& k7f
  let rotated := rotated + k1a
  let rotated := rotated &&& ~~~ c
  let rotated := rotated >>> 2
  let rotated := rotated &&& k20
  c + rotated

def toLowerAscii8 (c : BitVec 8) : BitVec 8 :=
  lowerBits 0x7f#8 0x25#8 0x1a#8 0x20#8 c

def toLowerAscii32 (c : BitVec 32) : BitVec 32 :=
  lowerBits 0x7f7f7f7f#32 0x25252525#32 0x1a1a1a1a#32 0x20202020#32 c

def toLowerAscii64 (c : BitVec 64) : BitVec 64 :=
  lowerBits 0x7f7f7f7f7f7f7f7f#64 0x2525252525252525#64 0x1a1a1a1a1a1a1a1a#64
    0x2020202020202020#64 c

abbrev Memory := Nat → BitVec 8

structure Pass where
  mem : Memory
  offset : Nat

variable {k : Nat} (f : BitVec (8 * k) → BitVec (8 * k)) (str : Nat)

def Pass.convert (k : Nat) (f : BitVec (8 * k) → BitVec (8 * k)) (str : Nat) (s : Pass) : Pass :=
  ⟨store k s.mem (str + s.offset) (f (load k s.mem (str + s.offset))), s.offset + k⟩

@[simp] lemma Pass.convert_offset (s : Pass) : (s.convert k f str).offset = s.offset + k := rfl

def Pass.doWhile (str n : Nat) (s : Pass) : Pass :=
  let s' := s.convert 1 toLowerAscii8 str
  if s'.offset < n then s'.doWhile str n else s'
termination_by n - s.offset
decreasing_by
  rw [Pass.convert_offset] at *
  omega

def Pass.whileRoom (k : Nat) [NeZero k] (f : BitVec (8 * k) → BitVec (8 * k)) (str length : Nat)
    (s : Pass) : Pass :=
  if s.offset + k ≤ length then (s.convert k f str).whileRoom k f str length else s
termination_by length - s.offset
decreasing_by
  have hk : 0 < k := Nat.pos_of_ne_zero (NeZero.ne k)
  rw [Pass.convert_offset]
  omega

local instance neZero_four : NeZero 4 := ⟨by decide⟩

def toLowerAscii (mem : Memory) (str length : Nat) : Memory :=
  let n := str &&& 3
  let n := min n length
  let s : Pass := ⟨mem, 0⟩
  let s := if n ≠ 0 then s.doWhile str (min (4 - n) length) else s
  let n := (str + s.offset) &&& 7
  let s := if n ≠ 0 ∧ s.offset + 4 ≤ length then s.convert 4 toLowerAscii32 str else s
  let s := s.whileRoom 8 toLowerAscii64 str length
  let s := s.whileRoom 4 toLowerAscii32 str length
  let s := s.whileRoom 1 toLowerAscii8 str length
  s.mem

def lowerByte (c : BitVec 8) : BitVec 8 :=
  if 0x41#8 ≤ c ∧ c ≤ 0x5a#8 then c + 0x20#8 else c

lemma toLowerAscii8_eq : ∀ c : BitVec 8, toLowerAscii8 c = lowerByte c := by
  decide

lemma toLowerAscii8_room : ∀ c : BitVec 8,
    c.toNat + ((((((c &&& 0x7f#8) + 0x25#8) &&& 0x7f#8) + 0x1a#8) &&& ~~~ c) >>> 2
      &&& 0x20#8).toNat < 2 ^ 8 := by
  decide

lemma and_7f_le : ∀ c : BitVec 8, (c &&& 0x7f#8).toNat ≤ 127 := by
  decide

lemma mask_20 (j : Nat) (hj : 8 - 2 ≤ j) : (0x20#8).getLsbD j = false := by
  rcases Nat.lt_or_ge j 8 with hlt | hge
  · obtain rfl | rfl : j = 6 ∨ j = 7 := by omega
    · rfl
    · rfl
  · exact BitVec.getLsbD_of_ge _ _ hge

lemma lowerBits_pack (n : Nat) (g : Fin n → BitVec 8) :
    lowerBits (pack n fun _ => 0x7f#8) (pack n fun _ => 0x25#8) (pack n fun _ => 0x1a#8)
      (pack n fun _ => 0x20#8) (pack n g) = pack n fun i => lowerByte (g i) := by
  have hadd25 : ∀ i, (g i &&& 0x7f#8).toNat + (0x25#8).toNat < 2 ^ 8 := by
    intro i
    exact Nat.lt_of_le_of_lt (Nat.add_le_add_right (and_7f_le (g i)) _) (by decide)
  have hadd1a : ∀ i, (((g i &&& 0x7f#8) + 0x25#8) &&& 0x7f#8).toNat + (0x1a#8).toNat < 2 ^ 8 := by
    intro i
    exact Nat.lt_of_le_of_lt (Nat.add_le_add_right (and_7f_le _) _) (by decide)
  unfold lowerBits
  dsimp only
  rw [Lanes.pack_and, Lanes.pack_add hadd25, Lanes.pack_and, Lanes.pack_add hadd1a, Lanes.pack_not,
    Lanes.pack_and, Lanes.pack_ushiftRight_and fun _ => mask_20,
    Lanes.pack_add fun i => toLowerAscii8_room (g i)]
  exact congrArg (pack n) (funext fun i => toLowerAscii8_eq (g i))

def Lanewise (k : Nat) (f : BitVec (8 * k) → BitVec (8 * k)) : Prop :=
  ∀ g : Fin k → BitVec 8, f (pack k g) = pack k fun i => lowerByte (g i)

lemma lanewise_toLowerAscii8 : Lanewise 1 toLowerAscii8 := lowerBits_pack 1
lemma lanewise_toLowerAscii32 : Lanewise 4 toLowerAscii32 := lowerBits_pack 4
lemma lanewise_toLowerAscii64 : Lanewise 8 toLowerAscii64 := lowerBits_pack 8

structure Lowered (mem : Memory) (str length : Nat) (s : Pass) : Prop where
  offset : s.offset ≤ length
  mem : ∀ a, s.mem a = if str ≤ a ∧ a < str + s.offset then lowerByte (mem a) else mem a

namespace Lowered

variable {f : BitVec (8 * k) → BitVec (8 * k)} {mem : Memory} {str length : Nat} {s : Pass}

lemma start : Lowered mem str length ⟨mem, 0⟩ := by
  refine ⟨Nat.zero_le _, ?_⟩
  intro a
  rw [if_neg]
  intro ha
  exact absurd ha.2 (Nat.not_lt.mpr ha.1)

lemma convert (h : Lowered mem str length s) (hf : Lanewise k f) (hroom : s.offset + k ≤ length) :
    Lowered mem str length (s.convert k f str) := by
  refine ⟨hroom, ?_⟩
  intro b
  have hstore : (s.convert k f str).mem b =
      if str + s.offset ≤ b ∧ b < str + s.offset + k then lowerByte (s.mem b) else s.mem b := by
    have hlanes := congrFun (Lanes.store_pack (n := k) lowerByte s.mem (str + s.offset)) b
    rw [← hf] at hlanes
    exact hlanes
  rw [hstore, h.mem, Pass.convert_offset]
  by_cases hbefore : str ≤ b ∧ b < str + s.offset
  · rw [if_neg (by omega), if_pos hbefore, if_pos (by omega)]
  rw [if_neg hbefore]
  by_cases hword : str + s.offset ≤ b ∧ b < str + s.offset + k
  · rw [if_pos hword, if_pos (by omega)]
  · rw [if_neg hword, if_neg (by omega)]

lemma doWhile {n : Nat} (h : Lowered mem str length s) (hstart : s.offset < n)
    (hn : n ≤ length) : Lowered mem str length (s.doWhile str n) := by
  induction s using Pass.doWhile.induct str n with
  | case1 s s' hless ih =>
    have hnext := h.convert lanewise_toLowerAscii8 (by omega)
    rw [Pass.doWhile, if_pos hless]
    exact ih hnext hless
  | case2 s s' hdone =>
    rw [Pass.doWhile, if_neg hdone]
    exact h.convert lanewise_toLowerAscii8 (by omega)

lemma whileRoom [NeZero k] (h : Lowered mem str length s) (hf : Lanewise k f) :
    Lowered mem str length (s.whileRoom k f str length) ∧
      length < (s.whileRoom k f str length).offset + k := by
  induction s using Pass.whileRoom.induct k f str length with
  | case1 s hroom ih =>
    rw [Pass.whileRoom, if_pos hroom]
    exact ih (h.convert hf hroom)
  | case2 s hfull =>
    rw [Pass.whileRoom, if_neg hfull]
    exact ⟨h, Nat.lt_of_not_le hfull⟩

end Lowered

lemma Lowered.head (mem : Memory) (str length : Nat) : Lowered mem str length
      (if min (str &&& 3) length ≠ 0
        then Pass.doWhile str (min (4 - min (str &&& 3) length) length) ⟨mem, 0⟩
        else ⟨mem, 0⟩) := by
  split
  · next hn =>
    have hthree : str &&& 3 ≤ 3 := Nat.and_le_right
    have hsome : 0 < min (4 - min (str &&& 3) length) length := by omega
    exact Lowered.start.doWhile hsome (Nat.min_le_right _ _)
  · exact Lowered.start

lemma toLowerAscii_lowered (mem : Memory) (str length : Nat) :
    ∃ s : Pass, Lowered mem str length s ∧ s.offset = length ∧
      toLowerAscii mem str length = s.mem := by
  have hword : ∀ s, Lowered mem str length s → Lowered mem str length
      (if (str + s.offset) &&& 7 ≠ 0 ∧ s.offset + 4 ≤ length
        then s.convert 4 toLowerAscii32 str else s) := by
    intro s hs
    split
    · next hn => exact hs.convert lanewise_toLowerAscii32 hn.2
    · exact hs
  have h8 := (hword _ (Lowered.head mem str length)).whileRoom lanewise_toLowerAscii64
  have h4 := h8.1.whileRoom lanewise_toLowerAscii32
  have h1 := h4.1.whileRoom lanewise_toLowerAscii8
  have hfull := h1.1.offset
  exact ⟨_, h1.1, by omega, rfl⟩

theorem toLowerAscii_bytes (mem : Memory) (str length a : Nat) :
    toLowerAscii mem str length a =
      if (str ≤ a ∧ a < str + length) ∧ 0x41#8 ≤ mem a ∧ mem a ≤ 0x5a#8
      then mem a + 0x20#8 else mem a := by
  obtain ⟨s, hs, hall, heq⟩ := toLowerAscii_lowered mem str length
  rw [heq, hs.mem, hall, lowerByte, ← ite_and]

end Acc.Text
