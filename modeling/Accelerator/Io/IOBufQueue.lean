import Accelerator.Io.IOBuf

namespace Acc.Io

open UInt64

structure IOBufQueue where
  cacheChainLength : Bool := false
  chainLength : UInt64 := 0
  head : List IOBuf := []
  deriving DecidableEq, Repr

def computeChainDataLength (chain : List IOBuf) : UInt64 :=
  ofNat (chain.map IOBuf.length).sum

def MIN_ALLOC_SIZE : Nat := 2000

def MAX_ALLOC_SIZE : Nat := 8000

def MAX_PACK_COPY : Nat := 4096

def packLoop (st : Store) (tail : IOBuf) (copyRemaining : Nat) :
    List IOBuf → Store × IOBuf × List IOBuf
  | [] => (st, tail, [])
  | b :: src =>
    if b.length < copyRemaining ∧ b.length < tail.tailroom then
      packLoop (decrementRefcount (write st tail (tail.data + tail.length) (read st b)) b)
        (tail.append b.length) (copyRemaining - b.length) src
    else (st, tail, b :: src)

def appendToChain (st : Store) (dst src : List IOBuf) (pack : Bool) : Store × List IOBuf :=
  match dst.getLast? with
  | none => (st, src)
  | some tail =>
    if pack then
      let (st, tail, src) := packLoop st tail MAX_PACK_COPY src
      (st, dst.dropLast ++ tail :: src)
    else (st, dst ++ src)

namespace IOBufQueue

def append (st : Store) (q : IOBufQueue) (buf : List IOBuf) (pack : Bool) : Store × IOBufQueue :=
  if buf.isEmpty then (st, q)
  else
    let q :=
      if q.cacheChainLength then
        { q with chainLength := q.chainLength + computeChainDataLength buf }
      else q
    let (st, head) := appendToChain st q.head buf pack
    (st, { q with head := head })

def appendQueue (st : Store) (q other : IOBufQueue) (pack : Bool) :
    Store × IOBufQueue × IOBufQueue :=
  if other.head.isEmpty then (st, q, other)
  else
    let q :=
      if q.cacheChainLength then
        { q with chainLength := q.chainLength +
            if other.cacheChainLength then other.chainLength
            else computeChainDataLength other.head }
      else q
    let (st, head) := appendToChain st q.head other.head pack
    (st, { q with head := head }, { other with chainLength := 0, head := [] })

def reserveTail (st : Store) (q : IOBufQueue) (need capacity : Nat) :
    Option (Store × IOBufQueue) :=
  let newTail (q : IOBufQueue) :=
    (create st capacity).map fun (st, b) =>
      (st, { q with head := (appendToChain st q.head [b] false).2 })
  match q.head.getLast? with
  | none => newTail q
  | some last =>
    let (shared, last) := isSharedOne st last
    let q := { q with head := q.head.dropLast ++ [last] }
    if shared ∨ last.tailroom < need then newTail q else some (st, q)

def extendTail (st : Store) (q : IOBufQueue) (src : List UInt8) (n : Nat) :
    Option (Store × IOBufQueue) :=
  match q.head.getLast? with
  | none => none
  | some last =>
    some (write st last (last.data + last.length) src,
      { q with
        head := q.head.dropLast ++ [last.append n]
        chainLength := q.chainLength + ofNat n })

def tailroom (q : IOBufQueue) : Nat := (q.head.getLast?.getD {}).tailroom

def appendBytes : Nat → Store → IOBufQueue → List UInt8 → Option (Store × IOBufQueue)
  | _, st, q, [] => some (st, q)
  | 0, _, _, _ => none
  | fuel + 1, st, q, src =>
    match reserveTail st q 1 (max MIN_ALLOC_SIZE (min src.length MAX_ALLOC_SIZE)) with
    | none => none
    | some (st, q) =>
      let copyLen := min src.length q.tailroom
      match extendTail st q (src.take copyLen) copyLen with
      | none => none
      | some (st, q) => appendBytes fuel st q (src.drop copyLen)

def wrapBuffer (blockSize : Nat) :
    Nat → Store → IOBufQueue → List UInt8 → Option (Store × IOBufQueue)
  | _, st, q, [] => some (st, q)
  | 0, _, _, _ => none
  | fuel + 1, st, q, src =>
    let n := min src.length blockSize
    let (st, b) := Io.wrapBuffer st (src.take n)
    let (st, q) := append st q [b] false
    wrapBuffer blockSize fuel st q (src.drop n)

def preallocate (st : Store) (q : IOBufQueue) (minSize newAllocationSize maxSize : Nat) :
    Option (Store × IOBufQueue × Nat) :=
  (reserveTail st q minSize (max minSize newAllocationSize)).map fun (st, q) =>
    (st, q, min maxSize q.tailroom)

def fill (st : Store) (q : IOBufQueue) (minSize newAllocationSize maxSize : Nat)
    (src : List UInt8) (n : Nat) : Option (Store × IOBufQueue) :=
  match preallocate st q minSize newAllocationSize maxSize with
  | none => none
  | some (st, q, size) =>
    if src.length ≤ size ∧ n ≤ src.length then extendTail st q src n else none

def headroom (q : IOBufQueue) : Nat :=
  match q.head with
  | [] => 0
  | b :: _ => b.headroom

def prepend (st : Store) (q : IOBufQueue) (src : List UInt8) : Store × IOBufQueue × Option Exn :=
  if q.headroom < src.length then (st, q, some (.overflow "Not enough room to prepend"))
  else
    match q.head with
    | [] => (st, q, none)
    | b :: bs =>
      let st := write st b (b.headroom - src.length) src
      if src.isEmpty then (st, q, none)
      else
        (st, { q with
          head := b.prepend src.length :: bs
          chainLength := q.chainLength + ofNat src.length }, none)

def splitLoop (st : Store) (chainLength : UInt64) (n : Nat) (result : List IOBuf) :
    List IOBuf → Store × UInt64 × Nat × List IOBuf × List IOBuf
  | [] => (st, chainLength, n, result, [])
  | b :: bs =>
    if n = 0 then (st, chainLength, n, result, b :: bs)
    else if b.length ≤ n then
      splitLoop st (chainLength - ofNat b.length) (n - b.length) (result ++ [b]) bs
    else
      let (st, b, clone) := cloneOne st b
      (st, chainLength - ofNat n, 0, result ++ [clone.trimEnd (clone.length - n)],
        b.trimStart n :: bs)

def split (st : Store) (q : IOBufQueue) (n : Nat) (throwOnUnderflow : Bool) :
    Option (Store × IOBufQueue × List IOBuf × Option Exn) :=
  let (st, chainLength, left, result, head) := splitLoop st q.chainLength n [] q.head
  let q := { q with chainLength := chainLength, head := head }
  if left ≠ 0 ∧ throwOnUnderflow then
    some (destroy st result, q, [],
      some (.underflow "Attempt to remove more bytes than are present in IOBufQueue"))
  else
    match result with
    | [] => (create st 0).map fun (st, b) => (st, q, [b], none)
    | _ => some (st, q, result, none)

def trimStartLoop (st : Store) (chainLength : UInt64) (amount : Nat) :
    List IOBuf → Store × UInt64 × Nat × List IOBuf
  | [] => (st, chainLength, amount, [])
  | b :: bs =>
    if amount = 0 then (st, chainLength, 0, b :: bs)
    else if b.length > amount then
      (st, chainLength - ofNat amount, 0, b.trimStart amount :: bs)
    else
      trimStartLoop (destroy st [b]) (chainLength - ofNat b.length) (amount - b.length) bs

def trimEndLoop (st : Store) (chainLength : UInt64) (amount : Nat) :
    List IOBuf → Store × UInt64 × Nat × List IOBuf
  | [] => (st, chainLength, amount, [])
  | b :: bs =>
    if amount = 0 then (st, chainLength, 0, b :: bs)
    else if b.length > amount then
      (st, chainLength - ofNat amount, 0, b.trimEnd amount :: bs)
    else
      trimEndLoop (destroy st [b]) (chainLength - ofNat b.length) (amount - b.length) bs

def trimmed (left : Nat) (throwOnUnderflow : Bool) : Option Exn :=
  if left ≠ 0 ∧ throwOnUnderflow then
    some (.underflow "Attempt to trim more bytes than are present in IOBufQueue")
  else none

def trimStart (st : Store) (q : IOBufQueue) (amount : Nat) (throwOnUnderflow : Bool) :
    Store × IOBufQueue × Option Exn :=
  let (st, chainLength, left, head) := trimStartLoop st q.chainLength amount q.head
  (st, { q with chainLength, head }, trimmed left throwOnUnderflow)

def trimEnd (st : Store) (q : IOBufQueue) (amount : Nat) (throwOnUnderflow : Bool) :
    Store × IOBufQueue × Option Exn :=
  let (st, chainLength, left, rev) := trimEndLoop st q.chainLength amount q.head.reverse
  (st, { q with chainLength, head := rev.reverse }, trimmed left throwOnUnderflow)

def popFront (q : IOBufQueue) : IOBufQueue × List IOBuf :=
  match q.head with
  | [] => (q, [])
  | b :: bs => ({ q with chainLength := q.chainLength - ofNat b.length, head := bs }, [b])

def move (q : IOBufQueue) : IOBufQueue × List IOBuf :=
  ({ q with chainLength := 0, head := [] }, q.head)

def clear (q : IOBufQueue) : IOBufQueue :=
  if q.head.isEmpty then q
  else { q with chainLength := 0, head := q.head.map IOBuf.clear }

end IOBufQueue

end Acc.Io
