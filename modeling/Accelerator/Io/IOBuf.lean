import Accelerator.Refs

namespace Acc.Io

open Refs List

structure Block where
  bytes : List UInt8
  managed : Bool := true
  refcount : UInt32 := 1
  externallyShared : Bool := false
  released : Nat := 0
  deriving DecidableEq, Repr

abbrev Store := List Block

structure IOBuf where
  buf : Option Nat := none
  managed : Bool := false
  data : Nat := 0
  length : Nat := 0
  capacity : Nat := 0
  maybeShared : Bool := false
  deriving DecidableEq, Repr

namespace IOBuf

def headroom (b : IOBuf) : Nat := b.data

def tailroom (b : IOBuf) : Nat := b.capacity - (b.data + b.length)

def key (b : IOBuf) : Option Nat := if b.managed then b.buf else none

def trimStart (b : IOBuf) (amount : Nat) : IOBuf :=
  { b with data := b.data + amount, length := b.length - amount }

def trimEnd (b : IOBuf) (amount : Nat) : IOBuf := { b with length := b.length - amount }

def append (b : IOBuf) (amount : Nat) : IOBuf := { b with length := b.length + amount }

def prepend (b : IOBuf) (amount : Nat) : IOBuf :=
  { b with data := b.data - amount, length := b.length + amount }

def clear (b : IOBuf) : IOBuf := { b with data := 0, length := 0 }

end IOBuf

def bytesAt (st : Store) (k : Nat) : List UInt8 := (st[k]?.map Block.bytes).getD []

def read (st : Store) (b : IOBuf) : List UInt8 :=
  match b.buf with
  | none => []
  | some k => ((bytesAt st k).drop b.data).take b.length

def content (st : Store) (chain : List IOBuf) : List UInt8 := chain.flatMap (read st)

def overwrite (bytes : List UInt8) (offset : Nat) (src : List UInt8) : List UInt8 :=
  bytes.take offset ++ src ++ bytes.drop (offset + src.length)

def write (st : Store) (b : IOBuf) (offset : Nat) (src : List UInt8) : Store :=
  match b.buf with
  | none => st
  | some k => st.modify k fun blk => { blk with bytes := overwrite blk.bytes offset src }

def goodExtBufferSize (minCapacity : UInt64) : UInt64 := (minCapacity + 24 + 7) &&& ~~~ 7

def allocExtBuffer (minCapacity : Nat) : Option Nat :=
  let mallocSize := (goodExtBufferSize (UInt64.ofNat minCapacity)).toNat
  if minCapacity < 2 ^ 64 ∧ 24 ≤ mallocSize then some (mallocSize - 24) else none

def newBlock (st : Store) (bytes : List UInt8) (managed : Bool) : Store :=
  st ++ [{ bytes := bytes, managed := managed }]

def newIOBuf (st : Store) (managed : Bool) (capacity data length : Nat) : IOBuf :=
  { buf := some st.length, managed, data, length, capacity }

def create (st : Store) (capacity : Nat) : Option (Store × IOBuf) :=
  (if capacity ≤ 1024 then some capacity else allocExtBuffer capacity).map fun capacity =>
    (newBlock st (replicate capacity 0) true, newIOBuf st true capacity 0 0)

def copyBuffer (st : Store) (data : List UInt8) (headroom minTailroom : Nat) :
    Option (Store × IOBuf) :=
  let capacity := headroom + data.length + minTailroom
  match (if capacity ≤ 1024 then some capacity else allocExtBuffer capacity) with
  | none => none
  | some capacity =>
    if headroom + data.length ≤ capacity then
      some (newBlock st (replicate headroom 0 ++ data ++
          replicate (capacity - (headroom + data.length)) 0) true,
        newIOBuf st true capacity headroom data.length)
    else none

def takeOwnership (st : Store) (bytes : List UInt8) (length : Nat) : Option (Store × IOBuf) :=
  if length ≤ bytes.length then
    some (newBlock st bytes true, newIOBuf st true bytes.length 0 length)
  else none

def wrapBuffer (st : Store) (bytes : List UInt8) : Store × IOBuf :=
  (newBlock st bytes false, newIOBuf st false bytes.length 0 bytes.length)

def sharedInfo (st : Store) (b : IOBuf) : Option Block := b.key.bind (st[·]?)

def modifyInfo (st : Store) (b : IOBuf) (f : Block → Block) : Store :=
  match b.key with
  | none => st
  | some k => st.modify k f

def isSharedOne (st : Store) (b : IOBuf) : Bool × IOBuf :=
  match sharedInfo st b with
  | none => (true, b)
  | some info =>
    if info.externallyShared then (true, b)
    else if !b.maybeShared then (false, b)
    else if info.refcount > 1 then (true, b)
    else (false, { b with maybeShared := false })

def cloneOne (st : Store) (b : IOBuf) : Store × IOBuf × IOBuf :=
  if b.managed then
    let b := { b with maybeShared := true }
    (modifyInfo st b fun info => { info with refcount := info.refcount + 1 }, b, b)
  else (st, b, b)

def cloneChain (st : Store) : List IOBuf → Store × List IOBuf × List IOBuf
  | [] => (st, [], [])
  | b :: bs =>
    let (st, b, c) := cloneOne st b
    let (st, bs, cs) := cloneChain st bs
    (st, b :: bs, c :: cs)

def Block.decrement (info : Block) : Block :=
  { info with
    refcount := info.refcount - 1
    released := if info.refcount > 1 then info.released else info.released + 1 }

def decrementRefcount (st : Store) (b : IOBuf) : Store := modifyInfo st b Block.decrement

def destroy (st : Store) : List IOBuf → Store
  | [] => st
  | b :: bs => decrementRefcount (bs.foldl decrementRefcount st) b

def isShared (st : Store) : List IOBuf → Bool × List IOBuf
  | [] => (false, [])
  | b :: bs =>
    match isSharedOne st b with
    | (true, b) => (true, b :: bs)
    | (false, b) =>
      let (shared, bs) := isShared st bs
      (shared, b :: bs)

def markExternallyShared (st : Store) (chain : List IOBuf) : Store :=
  chain.foldl (fun st b => modifyInfo st b fun info => { info with externallyShared := true }) st

def unshareOneSlow (st : Store) (b : IOBuf) : Option (Store × IOBuf) :=
  match allocExtBuffer b.capacity with
  | none => none
  | some actualCapacity =>
    if b.capacity ≤ actualCapacity then
      let bytes := replicate b.headroom 0 ++ read st b ++
        replicate (actualCapacity - (b.headroom + b.length)) 0
      some (decrementRefcount (newBlock st bytes true) b,
        { b with buf := some st.length, managed := true, maybeShared := false })
    else none

def unshareOne (st : Store) (b : IOBuf) : Option (Store × IOBuf) :=
  match isSharedOne st b with
  | (true, b) => unshareOneSlow st b
  | (false, b) => some (st, b)

def coalesceAndReallocate (st : Store) (newHeadroom newTailroom : Nat) (b : IOBuf)
    (mid rest : List IOBuf) : Option (Store × List IOBuf) :=
  let newLength := b.length + (mid.map IOBuf.length).sum
  match allocExtBuffer (newLength + newHeadroom + newTailroom) with
  | none => none
  | some actualCapacity =>
    if newHeadroom + newLength ≤ actualCapacity then
      let bytes := replicate newHeadroom 0 ++ content st (b :: mid) ++
        replicate (actualCapacity - (newHeadroom + newLength)) 0
      some (destroy (decrementRefcount (newBlock st bytes true) b) mid,
        newIOBuf st true actualCapacity newHeadroom newLength :: rest)
    else none

def lastTailroom (b : IOBuf) (bs : List IOBuf) : Nat := (bs.getLast?.getD b).tailroom

def coalesce (st : Store) : List IOBuf → Option (Store × List IOBuf)
  | [] => none
  | [b] => some (st, [b])
  | b :: bs => coalesceAndReallocate st b.headroom (lastTailroom b bs) b bs []

def gatherSpan (missing : Nat) : List IOBuf → Option (List IOBuf × List IOBuf)
  | [] => none
  | b :: bs =>
    if missing ≤ b.length then some ([b], bs)
    else (gatherSpan (missing - b.length) bs).map fun (mid, rest) => (b :: mid, rest)

inductive Exn
  | overflow (what : String)
  | underflow (what : String)
  deriving DecidableEq, Repr

def gather (st : Store) (maxLength : Nat) : List IOBuf → Option (Store × List IOBuf × Option Exn)
  | [] => none
  | b :: bs =>
    if bs.isEmpty || maxLength ≤ b.length then some (st, b :: bs, none)
    else
      match gatherSpan (maxLength - b.length) bs with
      | none => some (st, b :: bs, some (.overflow "attempted to coalesce more data than available"))
      | some (mid, rest) =>
        (coalesceAndReallocate st b.headroom (lastTailroom b mid) b mid rest).map
          fun (st, chain) => (st, chain, none)

def unshare (st : Store) : List IOBuf → Option (Store × List IOBuf)
  | [] => none
  | [b] => (unshareOne st b).map fun (st, b) => (st, [b])
  | b :: bs =>
    match isShared st (b :: bs) with
    | (false, chain) => some (st, chain)
    | (true, chain) => coalesce st chain

end Acc.Io
