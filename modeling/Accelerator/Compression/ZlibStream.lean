import Mathlib

namespace Acc.Compression

open List

inductive Status
  | ok
  | streamEnd
  | bufError
  | dataError
  | streamError
  deriving DecidableEq, Repr

inductive Flush
  | noFlush
  | syncFlush
  | finish
  deriving DecidableEq, Repr

structure Reply (σ : Type) where
  state : σ
  consumed : Nat
  output : List UInt8
  status : Status

def uInt (n : Nat) : Nat := n % 2 ^ 32

def subSize (a b : Nat) : Nat := (a + 2 ^ 64 - b) % 2 ^ 64

structure Flags where
  growth : Nat
  minsize : Nat
  create : Nat → Nat
  minsize_pos : 0 < minsize
  le_create : ∀ n, n ≤ create n
  create_lt : ∀ n ≤ max minsize growth, create n < 2 ^ 32

structure Buf where
  bytes : List UInt8
  beyond : Nat → UInt8
  size_lt : bytes.length < 2 ^ 64

namespace Buf

def length (b : Buf) : Nat := b.bytes.length

def window (b : Buf) (offset n : Nat) : List UInt8 :=
  (List.range n).map fun k => (b.bytes[offset + k]?).getD (b.beyond (offset + k - b.length))

@[simp] lemma length_window (b : Buf) (offset n : Nat) : (b.window offset n).length = n := by
  rw [window, length_map, length_range]

lemma window_eq_drop (b : Buf) (offset : Nat) : b.window offset (b.length - offset) = b.bytes.drop offset := by
  refine ext_getElem? fun k => ?_
  rw [window, getElem?_map, getElem?_drop]
  by_cases hk : k < b.length - offset
  · have hlt : offset + k < b.bytes.length := by
      rw [length] at hk
      omega
    rw [getElem?_range hk, Option.map_some, getElem?_eq_getElem hlt, Option.getD_some]
  have hge : b.bytes.length ≤ offset + k := by
    rw [length] at hk
    omega
  rw [getElem?_eq_none (by rw [length_range]; omega), Option.map_none, getElem?_eq_none hge]

lemma window_all (b : Buf) : b.window 0 b.length = b.bytes := b.window_eq_drop 0

end Buf

structure Position where
  crtBuf : Buf
  todo : List Buf
  offset : Nat

structure Appender where
  bytes : List UInt8
  room : Nat
  deriving DecidableEq

namespace Appender

def new (flags : Flags) : Appender := ⟨[], flags.create flags.growth⟩

def ensure (flags : Flags) (a : Appender) : Appender :=
  if flags.minsize ≤ a.room then a else { a with room := flags.create (max flags.minsize flags.growth) }

def append (a : Appender) (l : List UInt8) : Appender := ⟨a.bytes ++ l, a.room - l.length⟩

@[simp] lemma bytes_ensure (flags : Flags) (a : Appender) : (a.ensure flags).bytes = a.bytes := by
  rw [ensure]
  split <;> rfl

lemma room_new (flags : Flags) : (new flags).room < 2 ^ 32 := flags.create_lt _ (Nat.le_max_right ..)

lemma room_ensure_lt {flags : Flags} {a : Appender} (ha : a.room < 2 ^ 32) :
    (a.ensure flags).room < 2 ^ 32 := by
  rw [ensure]
  split
  · exact ha
  · exact flags.create_lt _ (Nat.le_refl _)

lemma room_ensure (flags : Flags) (a : Appender) : flags.minsize ≤ (a.ensure flags).room := by
  rw [ensure]
  split
  · assumption
  · exact Nat.le_trans (Nat.le_max_left ..) (flags.le_create _)

end Appender

end Acc.Compression
