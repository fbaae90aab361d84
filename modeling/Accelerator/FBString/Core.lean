import Accelerator.Counted

namespace Acc.FBString

open Counted

abbrev Byte := BitVec 8

abbrev Addr := BitVec 64

abbrev Heap := Store Addr (List Byte)

inductive Category
  | isSmall
  | isMedium
  | isLarge
  deriving DecidableEq, Repr

def Category.value : Category → Byte
  | isSmall => 0x00
  | isMedium => 0x80
  | isLarge => 0x40

def maxSmallSize : Nat := 23

def maxMediumSize : Nat := 254

def dataOffset : Nat := 8

structure Core where
  data : Addr
  size : BitVec 64
  capacity : BitVec 64
  deriving DecidableEq, Repr

structure Supply where
  addr : Addr
  inPlace : Bool
  aligned : Bool
  junk : Nat → Byte
  uninit : Core

namespace Core

def word (c : Core) : Nat → BitVec 64
  | 0 => c.data
  | 1 => c.size
  | _ => c.capacity

def byte (c : Core) (i : Nat) : Byte := (c.word (i / 8) >>> (8 * (i % 8))).setWidth 8

end Core

def replaceByte (w : BitVec 64) (k : Nat) (b : Byte) : BitVec 64 :=
  (w &&& ~~~(0xFF#64 <<< (8 * k))) ||| (b.setWidth 64 <<< (8 * k))

def loadWord (bytes : Nat → Byte) (k : Nat) : BitVec 64 :=
  (List.range 8).foldl (fun w j => replaceByte w j (bytes (8 * k + j))) 0

namespace Core

def setByte (c : Core) (i : Nat) (b : Byte) : Core :=
  match i / 8 with
  | 0 => { c with data := replaceByte c.data (i % 8) b }
  | 1 => { c with size := replaceByte c.size (i % 8) b }
  | _ => { c with capacity := replaceByte c.capacity (i % 8) b }

def chars (c : Core) : List Byte := (List.range 24).map c.byte

def write (c : Core) (off : Nat) : List Byte → Core
  | [] => c
  | b :: l => (c.setByte off b).write (off + 1) l

def copyWords (c : Core) (bytes : Nat → Byte) (size : Nat) : Core :=
  let words := (size + 7) / 8
  let c := if 3 ≤ words then { c with capacity := loadWord bytes 2 } else c
  let c := if 2 ≤ words then { c with size := loadWord bytes 1 } else c
  if 1 ≤ words then { c with data := loadWord bytes 0 } else c

def category (c : Core) : Option Category :=
  let b := c.byte maxSmallSize &&& 0xC0
  if b = Category.isSmall.value then some .isSmall
  else if b = Category.isMedium.value then some .isMedium
  else if b = Category.isLarge.value then some .isLarge
  else none

def mlCapacity (c : Core) : Nat := (c.capacity &&& ~~~(0xC0#64 <<< 56)).toNat

def smallSize (c : Core) : Nat :=
  (BitVec.ofNat 64 maxSmallSize - (c.byte maxSmallSize).signExtend 64).toNat

def getSize (c : Core) : Nat :=
  let maybeSmallSize := BitVec.ofNat 64 maxSmallSize - (c.byte maxSmallSize).setWidth 64
  if 0 ≤ maybeSmallSize.toInt then maybeSmallSize.toNat else c.size.toNat

def setSmallSize (c : Core) (s : Nat) : Core :=
  (c.setByte maxSmallSize (BitVec.ofNat 8 (maxSmallSize - s))).setByte s 0

def reset (c : Core) : Core := c.setSmallSize 0

end Core

def encode (cap : Nat) (cat : Category) : BitVec 64 :=
  BitVec.ofNat 64 cap ||| (cat.value.setWidth 64 <<< 56)

def overwrite (v : List Byte) (off : Nat) (l : List Byte) : List Byte :=
  v.take off ++ l ++ v.drop (off + l.length)

def peek (h : Heap) (p : Addr) : List Byte :=
  match h p with
  | some cell => cell.value
  | none => []

def poke (h : Heap) (p : Addr) (off : Nat) (l : List Byte) : Heap :=
  match h p with
  | some cell => Function.update h p (some (cell.map fun v => overwrite v off l))
  | none => h

section

variable (good : Nat → Nat) (sup : Supply)

def blank (n : Nat) : List Byte := (List.range n).map sup.junk

def mallocChars (h : Heap) (n : Nat) : Heap :=
  Function.update h sup.addr (some (.owned (blank sup n)))

def create (h : Heap) (size : Nat) : Nat × Heap :=
  let allocSize := good (dataOffset + (size + 1))
  let size := allocSize - dataOffset - 1
  (size, Function.update h sup.addr (some (.counted 1 (blank sup (size + 1)))))

def smartRealloc (h : Heap) (p : Addr) (offset currentSize currentCapacity newCapacity : Nat) :
    Addr × Heap :=
  let slack := currentCapacity - currentSize
  let moved := decide (slack * 2 > currentSize)
  let a := if !moved && sup.inPlace then p else sup.addr
  let kept := fun v : List Byte => if moved then v.take (currentSize - offset) else v
  let grow := fun v => kept v ++ (blank sup (newCapacity - offset)).drop (kept v).length
  match h p with
  | some cell => (a, Function.update (free h p) a (some (cell.map grow)))
  | none => (a, h)

def destroy (c : Core) (h : Heap) : Heap :=
  match c.category with
  | some .isSmall => h
  | some .isMedium => free h c.data
  | _ => decrement h c.data

def copy (rhs : Core) (h : Heap) : Core × Heap :=
  match rhs.category with
  | some .isSmall => (rhs, h)
  | some .isMedium =>
    let allocSize := good (1 + rhs.size.toNat)
    let h := mallocChars sup h allocSize
    let h := poke h sup.addr 0 ((peek h rhs.data).take (rhs.size.toNat + 1))
    (⟨sup.addr, rhs.size, encode (allocSize - 1) .isMedium⟩, h)
  | _ => (rhs, increment h rhs.data)

def initSmall (data : List Byte) : Core :=
  let c :=
    if sup.aligned then sup.uninit.copyWords (fun i => data.getD i (sup.junk i)) data.length
    else sup.uninit.write 0 data
  c.setSmallSize data.length

def initMedium (data : List Byte) (h : Heap) : Core × Heap :=
  let allocSize := good (1 + data.length)
  let h := mallocChars sup h allocSize
  let h := poke h sup.addr 0 data
  let h := poke h sup.addr data.length [0]
  (⟨sup.addr, BitVec.ofNat 64 data.length, encode (allocSize - 1) .isMedium⟩, h)

def initLarge (data : List Byte) (h : Heap) : Core × Heap :=
  let (effectiveCapacity, h) := create good sup h data.length
  let h := poke h sup.addr 0 data
  let h := poke h sup.addr data.length [0]
  (⟨sup.addr, BitVec.ofNat 64 data.length, encode effectiveCapacity .isLarge⟩, h)

def init (data : List Byte) (h : Heap) : Core × Heap :=
  if data.length ≤ maxSmallSize then (initSmall sup data, h)
  else if data.length ≤ maxMediumSize then initMedium good sup data h
  else initLarge good sup data h

def capacity (c : Core) (h : Heap) : Nat :=
  match c.category with
  | some .isSmall => maxSmallSize
  | some .isLarge => if refs h c.data > 1 then c.size.toNat else c.mlCapacity
  | _ => c.mlCapacity

def isShared (c : Core) (h : Heap) : Bool := c.category = some .isLarge && refs h c.data > 1

def unshare (c : Core) (h : Heap) (minCapacity : Nat) : Core × Heap :=
  let (effectiveCapacity, h) := create good sup h (max minCapacity c.mlCapacity)
  let h := poke h sup.addr 0 ((peek h c.data).take (c.size.toNat + 1))
  let h := decrement h c.data
  ({ c with data := sup.addr, capacity := encode effectiveCapacity .isLarge }, h)

def mutableData (c : Core) (h : Heap) : Core × Heap :=
  match c.category with
  | some .isSmall => (c, h)
  | some .isMedium => (c, h)
  | _ => if refs h c.data > 1 then unshare good sup c h 0 else (c, h)

def reserveLarge (c : Core) (h : Heap) (minCapacity : Nat) : Core × Heap :=
  if refs h c.data > 1 then unshare good sup c h minCapacity
  else if minCapacity > c.mlCapacity then
    let allocNewCapacity := good (dataOffset + (minCapacity + 1))
    let (a, h) := smartRealloc sup h c.data dataOffset (dataOffset + (c.size.toNat + 1))
      (dataOffset + (c.mlCapacity + 1)) allocNewCapacity
    ({ c with data := a, capacity := encode (allocNewCapacity - dataOffset - 1) .isLarge }, h)
  else (c, h)

def reserveSmall (c : Core) (h : Heap) (minCapacity : Nat) : Core × Heap :=
  if minCapacity ≤ maxSmallSize then (c, h)
  else if minCapacity ≤ maxMediumSize then
    let allocSizeBytes := good (1 + minCapacity)
    let h := mallocChars sup h allocSizeBytes
    let size := c.smallSize
    let h := poke h sup.addr 0 (c.chars.take (size + 1))
    (⟨sup.addr, BitVec.ofNat 64 size, encode (allocSizeBytes - 1) .isMedium⟩, h)
  else
    let (capacity, h) := create good sup h minCapacity
    let size := c.smallSize
    let h := poke h sup.addr 0 (c.chars.take (size + 1))
    (⟨sup.addr, BitVec.ofNat 64 size, encode capacity .isLarge⟩, h)

def reserveMedium (c : Core) (h : Heap) (minCapacity : Nat) : Core × Heap :=
  if minCapacity ≤ c.mlCapacity then (c, h)
  else if minCapacity ≤ maxMediumSize then
    let capacityBytes := good (1 + minCapacity)
    let (a, h) := smartRealloc sup h c.data 0 (c.size.toNat + 1) (c.mlCapacity + 1) capacityBytes
    ({ c with data := a, capacity := encode (capacityBytes - 1) .isMedium }, h)
  else
    let (nascent, h) := reserveSmall good sup sup.uninit.reset h minCapacity
    let nascent := { nascent with size := c.size }
    let h := poke h nascent.data 0 ((peek h c.data).take (c.size.toNat + 1))
    (nascent, destroy c h)

def reserve (c : Core) (h : Heap) (minCapacity : Nat) : Core × Heap :=
  match c.category with
  | some .isSmall => reserveSmall good sup c h minCapacity
  | some .isMedium => reserveMedium good sup c h minCapacity
  | _ => reserveLarge good sup c h minCapacity

def setSize (c : Core) (h : Heap) (newSz : Nat) : Core × Heap :=
  ({ c with size := BitVec.ofNat 64 newSz }, poke h c.data newSz [0])

def expandNoinit (c : Core) (h : Heap) (delta : Nat) (expGrowth : Bool) : Core × Heap :=
  if c.category = some .isSmall then
    let newSz := (c.smallSize + delta) % 2 ^ 64
    if newSz ≤ maxSmallSize then (c.setSmallSize newSz, h)
    else
      let (c, h) := reserveSmall good sup c h (if expGrowth then max newSz (2 * maxSmallSize) else newSz)
      setSize c h newSz
  else
    let newSz := (c.size.toNat + delta) % 2 ^ 64
    let (c, h) :=
      if newSz > capacity c h then
        reserve good sup c h (if expGrowth then max newSz (1 + capacity c h * 3 / 2) else newSz)
      else (c, h)
    setSize c h newSz

def shrinkLarge (c : Core) (h : Heap) (delta : Nat) : Core × Heap :=
  if delta ≠ 0 then
    let (c', h) := init good sup ((peek h c.data).take (c.size.toNat - delta)) h
    (c', destroy c h)
  else (c, h)

def shrink (c : Core) (h : Heap) (delta : Nat) : Core × Heap :=
  if c.category = some .isSmall then (c.setSmallSize (c.smallSize - delta), h)
  else if c.category = some .isMedium ∨ refs h c.data = 1 then setSize c h (c.size.toNat - delta)
  else shrinkLarge good sup c h delta

end

def dataChars (c : Core) (h : Heap) : List Byte :=
  if c.category = some .isSmall then c.chars else peek h c.data

def writeData (c : Core) (h : Heap) (off : Nat) (l : List Byte) : Core × Heap :=
  if c.category = some .isSmall then (c.write off l, h) else (c, poke h c.data off l)

def content (c : Core) (h : Heap) : List Byte := (dataChars c h).take c.getSize

end Acc.FBString
