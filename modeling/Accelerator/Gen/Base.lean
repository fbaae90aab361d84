import Accelerator.Gen.StreamSplitter

namespace Acc.Gen

open Dialogue

variable {ε : Type} {α β κ ι : Type}

def Source.generator (values : List α) : GenImpl ε α where
  apply := applyEach values
  foreach := foreachEach values

def Unfold.apply (next : ι → Except ε (Option (α × ι))) : Nat → ι → Apply ε α
  | 0, _ => out
  | fuel + 1, i =>
    match next i with
    | .error e => ret (.error e)
    | .ok none => ret (.ok true)
    | .ok (some (value, i)) => call value fun
        | .ok true => Unfold.apply next fuel i
        | x => ret x

def Unfold.foreach (next : ι → Except ε (Option (α × ι))) : Nat → ι → Foreach ε α
  | 0, _ => out
  | fuel + 1, i =>
    match next i with
    | .error e => ret (.error e)
    | .ok none => ret (.ok ())
    | .ok (some (value, i)) => call value fun
        | .ok () => Unfold.foreach next fuel i
        | x => ret x

def Unfold.generator (fuel : Nat) (start : ι) (next : ι → Except ε (Option (α × ι))) : GenImpl ε α where
  apply := Unfold.apply next fuel start
  foreach := Unfold.foreach next fuel start

def Sequence.next (test : α → Bool) (step : α → α) (current : α) : Except ε (Option (α × α)) :=
  if test current then .ok (some (current, step current)) else .ok none

def SplitStringSource.next (delimiter : UInt8) (rest : StringPiece) :
    Except ε (Option (StringPiece × StringPiece)) :=
  match splitPrefix rest delimiter with
  | (true, linePrefix, rest) => .ok (some (linePrefix.dropLast, rest))
  | (false, _, rest) => .ok (if rest ≠ [] then some (rest, []) else none)

section Operators

variable (source : GenImpl ε α)

def Map.generator (pred : α → Except ε β) : GenImpl ε β where
  apply := (applyWith source () fun value () =>
    match pred value with
    | .error e => ret (.error e, ())
    | .ok value => call value fun x => ret (x, ())).map Prod.fst
  foreach := (foreachWith source () fun value () =>
    match pred value with
    | .error e => ret (.error e, ())
    | .ok value => call value fun x => ret (x, ())).map Prod.fst

def Filter.generator (pred : α → Except ε Bool) : GenImpl ε α where
  apply := (applyWith source () fun value () =>
    match pred value with
    | .error e => ret (.error e, ())
    | .ok true => call value fun x => ret (x, ())
    | .ok false => ret (.ok true, ())).map Prod.fst
  foreach := (foreachWith source () fun value () =>
    match pred value with
    | .error e => ret (.error e, ())
    | .ok true => call value fun x => ret (x, ())
    | .ok false => ret (.ok (), ())).map Prod.fst

def notCancelled (r : Answer ε) (cancelled : Bool) : Answer ε := r.map fun _ => !cancelled

def Until.generator (pred : α → Except ε Bool) : GenImpl ε α :=
  .ofApply ((applyWith source false fun value cancelled =>
    match pred value with
    | .error e => ret (.error e, cancelled)
    | .ok true => ret (.ok false, cancelled)
    | .ok false => call value fun
        | .ok false => ret (.ok false, true)
        | x => ret (x, cancelled)).map fun r => notCancelled r.1 r.2)

def decrement (n : Nat) : Nat := if n = 0 then 2 ^ 64 - 1 else n - 1

def Take.generator (count : Nat) : GenImpl ε α :=
  .ofApply (if count = 0 then ret (.ok false)
    else (applyWith source (count, false) fun value t =>
      call value fun
        | .ok false => ret (.ok false, t.1, true)
        | .ok true => ret (.ok (decrement t.1 ≠ 0), decrement t.1, t.2)
        | .error e => ret (.error e, t)).map fun r => notCancelled r.1 r.2.2)

def Stride.generator (stride : Nat) : GenImpl ε α where
  apply := (applyWith source stride fun value distance =>
    let distance := (distance + 1) % 2 ^ 64
    if distance ≥ stride then
      call value fun
        | .ok true => ret (.ok true, 0)
        | x => ret (x, distance)
    else ret (.ok true, distance)).map Prod.fst
  foreach := (foreachWith source stride fun value distance =>
    let distance := (distance + 1) % 2 ^ 64
    if distance ≥ stride then
      call value fun
        | .ok () => ret (.ok (), 0)
        | x => ret (x, distance)
    else ret (.ok (), distance)).map Prod.fst

def Skip.generator (count : Nat) : GenImpl ε α where
  apply :=
    if count = 0 then source.apply
    else (applyWith source 0 fun value n =>
      if n < count then ret (.ok true, n + 1) else call value fun x => ret (x, n)).map Prod.fst
  foreach :=
    if count = 0 then source.foreach
    else (foreachWith source 0 fun value n =>
      if n < count then ret (.ok (), n + 1) else call value fun x => ret (x, n)).map Prod.fst

def gather {τ A ρ : Type} (t : τ) (body : α → τ → Except ε τ) (next : τ → Dialogue A β (Except ε ρ)) :
    Dialogue A β (Except ε ρ) :=
  (foreachWith source t fun value t =>
    match body value t with
    | .ok t => ret (.ok (), t)
    | .error e => ret (.error e, t)).bind fun
      | (.ok (), t) => next t
      | (.error e, _) => ret (.error e)

def Sample.step (count : Nat) (rng : Nat → Nat) (value : α) (t : List α × Nat × Nat) :
    List α × Nat × Nat :=
  if t.1.length < count then (t.1 ++ [value], t.2.1 + 1, t.2.2)
  else (t.1.set (rng t.2.2 % t.2.1) value, t.2.1 + 1, t.2.2 + 1)

def Sample.generator (count : Nat) (rng : Nat → Nat) : GenImpl ε α :=
  .ofApply (if count = 0 then ret (.ok false)
    else gather source ([], 1, 0) (fun value t => .ok (Sample.step count rng value t))
      fun t => applyEach t.1)

def Order.generator (heapOrder sorted : List α → List α) : GenImpl ε α where
  apply := gather source [] (fun value t => .ok (t ++ [value])) fun t => applyEach (heapOrder t)
  foreach := gather source [] (fun value t => .ok (t ++ [value])) fun t => foreachEach (sorted t)

def GroupBy.push [DecidableEq κ] (key : κ) (value : α) : List (κ × List α) → List (κ × List α)
  | [] => [(key, [value])]
  | group :: groups =>
    if group.1 = key then (group.1, group.2 ++ [value]) :: groups
    else group :: GroupBy.push key value groups

def GroupBy.generator [DecidableEq κ] (selector : α → Except ε κ)
    (iteration : List (κ × List α) → List (κ × List α)) : GenImpl ε (κ × List α) :=
  .ofApply (gather source []
    (fun value groups => (selector value).map fun key => GroupBy.push key value groups)
    fun groups => applyEach (iteration groups))

def Distinct.generator [DecidableEq κ] (selector : α → Except ε κ) : GenImpl ε α where
  apply := (applyWith source [] fun value keysSeen =>
    match selector value with
    | .error e => ret (.error e, keysSeen)
    | .ok key =>
      if key ∈ keysSeen then ret (.ok true, keysSeen)
      else call value fun x => ret (x, key :: keysSeen)).map Prod.fst
  foreach := (foreachWith source [] fun value keysSeen =>
    match selector value with
    | .error e => ret (.error e, keysSeen)
    | .ok key =>
      if key ∈ keysSeen then ret (.ok (), keysSeen)
      else call value fun x => ret (x, key :: keysSeen)).map Prod.fst

def Batch.generator (batchSize : Nat) : GenImpl ε (List α) :=
  .ofApply ((applyWith source [] fun value batch =>
    let batch := batch ++ [value]
    if batch.length = batchSize then
      call batch fun
        | .error e => ret (.error e, batch)
        | x => ret (x, [])
    else ret (.ok true, batch)).bind fun
      | (.ok true, batch) => if batch ≠ [] then call batch ret else ret (.ok true)
      | (x, _) => ret x)

def Concat.generator (source : GenImpl ε β) (inner : β → GenImpl ε α) : GenImpl ε α where
  apply := (applyWith source () fun value () => (inner value).apply.map fun x => (x, ())).map Prod.fst
  foreach := (foreachWith source () fun value () => (inner value).foreach.map fun x => (x, ())).map Prod.fst

def RangeConcat.generator (source : GenImpl ε (List α)) : GenImpl ε α where
  apply := (applyWith source () fun range () => (applyEach range).map fun x => (x, ())).map Prod.fst
  foreach := (foreachWith source () fun range () => (foreachEach range).map fun x => (x, ())).map Prod.fst

def GuardImpl.body (catches : ε → Bool) (errorHandler : ε → α → Except ε Bool) (value : α) (_ : Unit) :
    Dialogue (Answer ε) α (Answer ε × Unit) :=
  call value fun
    | .ok true => ret (.ok true, ())
    | .ok false => note (ret (.ok true, ()))
    | .error e => ret (if catches e then errorHandler e value else .error e, ())

def GuardImpl.generator (catches : ε → Bool) (errorHandler : ε → α → Except ε Bool) : GenImpl ε α :=
  .ofApply ((applyWith source () (GuardImpl.body catches errorHandler)).map Prod.fst)

def Dereference.generator (source : GenImpl ε (Option α)) : GenImpl ε α where
  apply := (applyWith source () fun value () =>
    match value with
    | some value => call value fun x => ret (x, ())
    | none => ret (.ok true, ())).map Prod.fst
  foreach := (foreachWith source () fun value () =>
    match value with
    | some value => call value fun x => ret (x, ())
    | none => ret (.ok (), ())).map Prod.fst

def Cycle.round (next : Apply ε α) : Apply ε α :=
  (applyWith source false fun value cont =>
    call value fun
      | .ok b => ret (.ok b, b)
      | .error e => ret (.error e, cont)).bind fun
        | (.error e, _) => ret (.error e)
        | (.ok _, cont) => if cont then next else ret (.ok false)

def Cycle.rounds (last : Apply ε α) : Nat → Apply ε α
  | 0 => last
  | n + 1 => Cycle.round source (Cycle.rounds last n)

def Cycle.generator (fuel : Nat) (limit : Option Nat) : GenImpl ε α :=
  .ofApply (match limit with
    | some n => Cycle.rounds source (ret (.ok true)) n
    | none => Cycle.rounds source out fuel)

def Interleave.body (value : α) (iter : List α) : Dialogue (Answer ε) α (Answer ε × List α) :=
  match iter with
  | [] => ret (.ok false, [])
  | other :: rest => call value fun
      | .ok true => call other fun
          | .ok true => ret (.ok true, rest)
          | x => ret (x, iter)
      | x => ret (x, iter)

def Interleave.generator (container : List α) : GenImpl ε α :=
  .ofApply ((applyWith source container Interleave.body).map Prod.fst)

def Zip.body (value : α) (iter : List β) : Dialogue (Answer ε) (α × β) (Answer ε × List β) :=
  match iter with
  | [] => ret (.ok false, [])
  | other :: rest => call (value, other) fun
      | .ok true => ret (.ok true, rest)
      | x => ret (x, iter)

def Zip.generator (container : List β) : GenImpl ε (α × β) :=
  .ofApply ((applyWith source container Zip.body).map Prod.fst)

def StringResplitter.callback (delimiter : UInt8) (s : StringPiece) : Apply ε StringPiece :=
  if s = [] then ret (.ok true)
  else if s.getLast? ≠ some delimiter then call s ret
  else call s.dropLast ret

def StringResplitter.body (delimiter : UInt8)
    (p : Dialogue (Answer ε) StringPiece (Answer ε × StringPiece)) :
    Dialogue (Answer ε) StringPiece (Answer ε × StringPiece) :=
  (handle (fun s () => (StringResplitter.callback delimiter s).map fun x => (x, ())) p ()).map Prod.fst

def StringResplitter.generator (source : GenImpl ε StringPiece) (delimiter : UInt8) :
    GenImpl ε StringPiece :=
  .ofApply ((applyWith source [] fun value buffer =>
    StringResplitter.body delimiter (StreamSplitter.operatorCall delimiter 0 buffer value)).bind fun
      | (.ok true, buffer) => (StringResplitter.body delimiter (StreamSplitter.flush 0 buffer)).map Prod.fst
      | (x, _) => ret x)

end Operators

end Acc.Gen
