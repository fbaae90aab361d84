import Accelerator.DeferredReaders
import Accelerator.Interleaving

namespace Acc.Thread.SharedMutex

open DeferredReaders (Slot)

abbrev Word := BitVec 32

def kIncrHasS : Word := 1 <<< 10
def kHasS : Word := ~~~ (kIncrHasS - 1)
def kMayDefer : Word := 1 <<< 9
def kPrevDefer : Word := 1 <<< 8
def kHasE : Word := 1 <<< 7
def kBegunE : Word := 1 <<< 6
def kHasU : Word := 1 <<< 5
def kHasSolo : Word := kHasE ||| kBegunE ||| kHasU
def kWaitingNotS : Word := 1 <<< 4
def kWaitingESingle : Word := 1 <<< 2
def kWaitingEMultiple : Word := 1 <<< 3
def kWaitingE : Word := kWaitingESingle ||| kWaitingEMultiple
def kWaitingU : Word := 1 <<< 1
def kWaitingS : Word := 1 <<< 0
def kWaitingAny : Word := kWaitingNotS ||| kWaitingE ||| kWaitingU ||| kWaitingS

def kNumSharedToStartDeferring : Word := 2
abbrev kMaxDeferredReaders : Nat := 64
def kDeferredSearchDistance : Nat := 2

def has (state mask : Word) : Bool := state &&& mask != 0

inductive WaitContext
  | forever
  | never
  | timed
  deriving DecidableEq, Repr

namespace WaitContext

def canBlock : WaitContext → Bool
  | .never => false
  | _ => true

def canTimeOut : WaitContext → Bool
  | .forever => false
  | _ => true

end WaitContext

inductive Token
  | inlineShared
  | deferredShared (slot : Fin kMaxDeferredReaders)
  deriving DecidableEq, Repr

inductive Held
  | none
  | exclusive
  | upgrade
  | shared (token : Option Token)
  deriving DecidableEq, Repr

inductive Waiter
  | lock (up : Bool) (ctx : WaitContext)
  | drain (ctx : WaitContext)
  | shared (tok : Bool) (ctx : WaitContext)
  | upgrade (ctx : WaitContext)
  deriving DecidableEq, Repr

inductive Phase
  | spin
  | yield
  | futex
  | mark (after : Word)
  | sleep
  deriving DecidableEq, Repr

inductive Release
  | unlock
  | retry (tok : Bool) (ctx : WaitContext) (state : Word)
  deriving DecidableEq, Repr

inductive Pc
  | held (h : Held)
  | lockFast (up : Bool) (ctx : WaitContext) (state : Word)
  | lockCas (up : Bool) (ctx : WaitContext) (state : Word)
  | applySpin (ctx : WaitContext) (state : Word) (slot : Fin kMaxDeferredReaders)
  | applyYield (ctx : WaitContext) (state : Word) (slot : Fin kMaxDeferredReaders)
  | applyMove (ctx : WaitContext) (state : Word) (slot : Fin kMaxDeferredReaders) (moved : Nat)
  | applyCas (ctx : WaitContext) (state : Word) (slot : Fin kMaxDeferredReaders) (moved : Nat)
      (tok : Bool)
  | applyAdd (ctx : WaitContext) (state : Word) (moved : Nat)
  | lockEnd (ctx : WaitContext) (state : Word)
  | backOut (state : Word)
  | wait (k : Waiter) (phase : Phase) (state : Word)
  | sharedFast (tok : Bool) (ctx : WaitContext) (state : Word)
  | sharedLook (tok : Bool) (ctx : WaitContext) (state : Word)
  | sharedSearch (tok : Bool) (ctx : WaitContext) (state : Word)
      (bestSlot : Fin kMaxDeferredReaders) (i : Nat)
  | sharedCas (tok : Bool) (ctx : WaitContext) (state : Word)
  | sharedMark (tok : Bool) (ctx : WaitContext) (state : Word) (slot : Fin kMaxDeferredReaders)
  | sharedClaim (tok : Bool) (ctx : WaitContext) (slot : Fin kMaxDeferredReaders)
  | sharedRecheck (tok : Bool) (ctx : WaitContext) (slot : Fin kMaxDeferredReaders)
      (gotSlot : Bool)
  | search (k : Release) (bestSlot : Fin kMaxDeferredReaders) (i : Nat)
  | searchCas (k : Release) (bestSlot : Fin kMaxDeferredReaders) (i : Nat)
  | freeSlot (k : Release) (slot : Fin kMaxDeferredReaders)
  | inline (k : Release)
  | wake (state wakeMask : Word) (next : Pc)
  | upgradeCas (ctx : WaitContext) (state : Word)
  | toShared (tok : Bool) (state : Word)
  | toUpgrade (state : Word)
  deriving DecidableEq, Repr

inductive Op
  | lock (ctx : WaitContext)
  | unlock
  | lockShared (tok : Bool) (ctx : WaitContext)
  | unlockShared
  | unlockAndLockShared (tok : Bool)
  | lockUpgrade (ctx : WaitContext)
  | unlockUpgrade
  | unlockUpgradeAndLock
  | unlockUpgradeAndLockShared (tok : Bool)
  | unlockAndLockUpgrade
  deriving DecidableEq, Repr

structure Choice where
  op : Op := .unlock
  hint : Fin kMaxDeferredReaders := 0
  bestSlot : Fin kMaxDeferredReaders := 0
  go : Bool := true
  out : Bool := false

def lockGoal (up : Bool) : Word := if up then 0 else kHasSolo

namespace Waiter

def goal : Waiter → Word
  | .lock up _ => lockGoal up
  | .drain _ => kHasS
  | .shared _ _ => kHasE
  | .upgrade _ => kHasSolo

def waitMask : Waiter → Word
  | .lock _ _ => kWaitingE
  | .drain _ => kWaitingNotS
  | .shared _ _ => kWaitingS
  | .upgrade _ => kWaitingU

def ctx : Waiter → WaitContext
  | .lock _ ctx => ctx
  | .drain ctx => ctx
  | .shared _ ctx => ctx
  | .upgrade ctx => ctx

end Waiter

def nextSlot (slot : Fin kMaxDeferredReaders) : Option (Fin kMaxDeferredReaders) :=
  if h : slot.val + 1 < kMaxDeferredReaders then some ⟨slot.val + 1, h⟩ else none

def slotNear (bestSlot : Fin kMaxDeferredReaders) (i : Nat) : Fin kMaxDeferredReaders :=
  Fin.ofNat kMaxDeferredReaders (bestSlot.val ^^^ i)

def lockTop (up : Bool) (ctx : WaitContext) (state : Word) : Pc :=
  if has state (lockGoal up) then .wait (.lock up ctx) .spin state else .lockCas up ctx state

def lockAfter (readerPriority : Bool) (state : Word) : Word :=
  (if has state kMayDefer then kPrevDefer else 0) |||
    (if !readerPriority || !has state (kMayDefer ||| kHasS) then
      (state ||| kHasE) &&& ~~~ (kHasU ||| kMayDefer)
    else (state ||| kBegunE) &&& ~~~ (kHasU ||| kMayDefer))

def drained (readerPriority : Bool) (ctx : WaitContext) (state : Word) : Pc :=
  if readerPriority && !has state kHasE then .lockEnd ctx state else .held .exclusive

def drainTop (readerPriority : Bool) (ctx : WaitContext) (state : Word) : Pc :=
  if has state kHasS then .wait (.drain ctx) .spin state else drained readerPriority ctx state

def applyNext (readerPriority : Bool) (ctx : WaitContext) (state : Word)
    (slot : Fin kMaxDeferredReaders) (moved : Nat) : Pc :=
  match nextSlot slot with
  | some next => .applyMove ctx state next moved
  | none => if moved > 0 then .applyAdd ctx state moved else drainTop readerPriority ctx state

def sharedGo (readerPriority tok : Bool) (ctx : WaitContext) (state : Word) : Pc :=
  let canAlreadyDefer := has state kMayDefer
  let aboveDeferThreshold : Bool :=
    decide ((kNumSharedToStartDeferring - 1) * kIncrHasS ≤ state &&& kHasS)
  let drainInProgress := readerPriority && has state kBegunE
  if canAlreadyDefer || (aboveDeferThreshold && !drainInProgress) then .sharedLook tok ctx state
  else .sharedCas tok ctx state

def sharedTop (readerPriority tok : Bool) (ctx : WaitContext) (state : Word) : Pc :=
  if has state kHasE then .wait (.shared tok ctx) .spin state
  else sharedGo readerPriority tok ctx state

def sharedFound (tok : Bool) (ctx : WaitContext) (state : Word) (slot : Fin kMaxDeferredReaders) :
    Pc :=
  if has state kMayDefer then .sharedClaim tok ctx slot else .sharedMark tok ctx state slot

def sharedSearchNext (tok : Bool) (ctx : WaitContext) (state : Word)
    (bestSlot : Fin kMaxDeferredReaders) (i : Nat) : Pc :=
  if i < kDeferredSearchDistance then .sharedSearch tok ctx state bestSlot i
  else .sharedCas tok ctx state

def released (readerPriority : Bool) : Release → Pc
  | .unlock => .held .none
  | .retry tok ctx state => sharedTop readerPriority tok ctx state

def searchNext (k : Release) (bestSlot : Fin kMaxDeferredReaders) (i : Nat) : Pc :=
  if i < kMaxDeferredReaders then .search k bestSlot i else .inline k

def wakeRegisteredWaiters (state wakeMask : Word) (next : Pc) : Pc :=
  if has state wakeMask then .wake state wakeMask next else next

def sharedInline (tok : Bool) : Held := .shared (if tok then some .inlineShared else none)

def waited (readerPriority : Bool) (state : Word) : Waiter → Pc
  | .lock up ctx => .lockCas up ctx state
  | .drain ctx => drained readerPriority ctx state
  | .shared tok ctx => sharedGo readerPriority tok ctx state
  | .upgrade ctx => .upgradeCas ctx state

def gaveUp (readerPriority : Bool) (state : Word) (k : Waiter) : Pc :=
  match k with
  | .lock _ ctx => if ctx.canTimeOut then .held .none else waited readerPriority state k
  | .drain ctx => if ctx.canTimeOut then .backOut state else waited readerPriority state k
  | .shared _ ctx => if ctx.canTimeOut then .held .none else waited readerPriority state k
  | .upgrade _ => .held .none

def waitAfter (state waitMask : Word) : Word :=
  if waitMask = kWaitingE then
    if has state kWaitingESingle then state ||| kWaitingEMultiple else state ||| kWaitingESingle
  else state ||| waitMask

structure Mem where
  state : Word
  slots : Fin kMaxDeferredReaders → Slot

variable (readerPriority : Bool) (ch : Choice) (m : Mem)

def Mem.setSlot (slot : Fin kMaxDeferredReaders) (v : Slot) : Mem :=
  { m with slots := Function.update m.slots slot v }

def call (h : Held) : Option (Mem × Pc) :=
  match h, ch.op with
  | .none, .lock ctx =>
    some (m, if !has m.state (lockGoal false ||| kMayDefer ||| kHasS) then
      .lockFast false ctx m.state else lockTop false ctx m.state)
  | .none, .lockShared tok ctx =>
    some (m, if !has m.state (kHasS ||| kMayDefer ||| kHasE) then .sharedFast tok ctx m.state
      else sharedTop readerPriority tok ctx m.state)
  | .none, .lockUpgrade ctx => some (m, .wait (.upgrade ctx) .spin 0)
  | .exclusive, .unlock =>
    let state := m.state &&& ~~~ (kWaitingNotS ||| kPrevDefer ||| kHasE)
    some ({ m with state },
      wakeRegisteredWaiters state (kWaitingE ||| kWaitingU ||| kWaitingS) (.held .none))
  | .exclusive, .unlockAndLockShared tok => some (m, .toShared tok m.state)
  | .exclusive, .unlockAndLockUpgrade => some (m, .toUpgrade m.state)
  | .upgrade, .unlockUpgrade =>
    let state := m.state - kHasU
    some ({ m with state }, wakeRegisteredWaiters state (kWaitingE ||| kWaitingU) (.held .none))
  | .upgrade, .unlockUpgradeAndLock =>
    some (m, if !has m.state (lockGoal true ||| kMayDefer ||| kHasS) then
      .lockFast true .forever m.state else lockTop true .forever m.state)
  | .upgrade, .unlockUpgradeAndLockShared tok =>
    let state := m.state - (kHasU - kIncrHasS)
    some ({ m with state }, wakeRegisteredWaiters state (kWaitingE ||| kWaitingU)
      (.held (sharedInline tok)))
  | .shared none, .unlockShared =>
    some (m, if !has m.state (kMayDefer ||| kPrevDefer) then .inline .unlock
      else .search .unlock ch.hint 0)
  | .shared (some .inlineShared), .unlockShared => some (m, .inline .unlock)
  | .shared (some (.deferredShared slot)), .unlockShared => some (m, .freeSlot .unlock slot)
  | _, _ => none

def stepWait (k : Waiter) (state : Word) : Phase → Option (Mem × Pc)
  | .spin =>
    if !has m.state k.goal then some (m, waited readerPriority m.state k)
    else if !ch.go then some (m, .wait k .spin m.state)
    else if k.ctx.canBlock then some (m, .wait k .yield m.state)
    else some (m, gaveUp readerPriority m.state k)
  | .yield =>
    if !has m.state k.goal then some (m, waited readerPriority m.state k)
    else if k.ctx.canTimeOut && ch.out then some (m, gaveUp readerPriority m.state k)
    else some (m, .wait k (if ch.go then .futex else .yield) m.state)
  | .futex =>
    if !has m.state k.goal then some (m, waited readerPriority m.state k)
    else
      let after := waitAfter m.state k.waitMask
      some (m, .wait k (if after ≠ m.state then .mark after else .sleep) m.state)
  | .mark after =>
    if m.state = state then some ({ m with state := after }, .wait k .sleep state)
    else some (m, .wait k .futex m.state)
  | .sleep =>
    if k.ctx.canTimeOut && ch.out then some (m, gaveUp readerPriority state k)
    else some (m, .wait k .futex state)

def step : Pc → Option (Mem × Pc)
  | .held h => call readerPriority ch m h
  | .lockFast up ctx state =>
    if m.state = state then
      some ({ m with state := (state ||| kHasE) &&& ~~~ kHasU }, .held .exclusive)
    else some (m, lockTop up ctx m.state)
  | .lockCas up ctx state =>
    if m.state = state then
      let after := lockAfter readerPriority state
      some ({ m with state := after },
        if has state kMayDefer then .applySpin ctx after 0 else drainTop readerPriority ctx after)
    else some (m, lockTop up ctx m.state)
  | .applySpin ctx state slot =>
    if (m.slots slot).isThis then
      some (m, if ch.go then .applyYield ctx state slot else .applySpin ctx state slot)
    else
      match nextSlot slot with
      | some next => some (m, .applySpin ctx state next)
      | none => some (m, drainTop readerPriority ctx state)
  | .applyYield ctx state slot =>
    if (m.slots slot).isThis then
      some (m, if ch.go then .applyMove ctx state slot 0 else .applyYield ctx state slot)
    else
      match nextSlot slot with
      | some next => some (m, .applyYield ctx state next)
      | none => some (m, drainTop readerPriority ctx state)
  | .applyMove ctx state slot moved =>
    match m.slots slot with
    | .this tok => some (m, .applyCas ctx state slot moved tok)
    | _ => some (m, applyNext readerPriority ctx state slot moved)
  | .applyCas ctx state slot moved tok =>
    if m.slots slot = .this tok then
      some (m.setSlot slot .zero, applyNext readerPriority ctx state slot (moved + 1))
    else some (m, applyNext readerPriority ctx state slot moved)
  | .applyAdd ctx _ moved =>
    let state := m.state + BitVec.ofNat 32 moved * kIncrHasS
    some ({ m with state }, drainTop readerPriority ctx state)
  | .lockEnd ctx state =>
    if m.state = state then
      some ({ m with state := (state &&& ~~~ kBegunE) ||| kHasE }, .held .exclusive)
    else some (m, drainTop readerPriority ctx m.state)
  | .backOut _ =>
    let state := m.state &&& ~~~ (kPrevDefer ||| kHasE ||| kBegunE ||| kWaitingNotS)
    some ({ m with state },
      wakeRegisteredWaiters state (kWaitingE ||| kWaitingU ||| kWaitingS) (.held .none))
  | .wait k phase state => stepWait readerPriority ch m k state phase
  | .sharedFast tok ctx state =>
    if m.state = state then
      some ({ m with state := state + kIncrHasS }, .held (sharedInline tok))
    else some (m, sharedTop readerPriority tok ctx m.state)
  | .sharedLook tok ctx state =>
    if m.slots ch.hint = .zero then some (m, sharedFound tok ctx state ch.hint)
    else some (m, .sharedSearch tok ctx state ch.bestSlot 0)
  | .sharedSearch tok ctx state bestSlot i =>
    if m.slots (slotNear bestSlot i) = .zero then
      some (m, sharedFound tok ctx state (slotNear bestSlot i))
    else some (m, sharedSearchNext tok ctx state bestSlot (i + 1))
  | .sharedCas tok ctx state =>
    if m.state = state then
      some ({ m with state := state + kIncrHasS }, .held (sharedInline tok))
    else some (m, sharedTop readerPriority tok ctx m.state)
  | .sharedMark tok ctx state slot =>
    if m.state = state then
      some ({ m with state := state ||| kMayDefer }, .sharedClaim tok ctx slot)
    else if m.state &&& (kHasE ||| kMayDefer) ≠ kMayDefer then
      some (m, sharedTop readerPriority tok ctx m.state)
    else some (m, .sharedClaim tok ctx slot)
  | .sharedClaim tok ctx slot =>
    if m.slots slot = .zero then
      some (m.setSlot slot (.this tok), .sharedRecheck tok ctx slot true)
    else some (m, .sharedRecheck tok ctx slot false)
  | .sharedRecheck tok ctx slot gotSlot =>
    if !gotSlot then some (m, sharedTop readerPriority tok ctx m.state)
    else if has m.state kMayDefer then
      some (m, .held (.shared (if tok then some (.deferredShared slot) else none)))
    else if tok then some (m, .freeSlot (.retry tok ctx m.state) slot)
    else some (m, .search (.retry tok ctx m.state) slot 0)
  | .search k bestSlot i =>
    if m.slots (slotNear bestSlot i) = .this false then some (m, .searchCas k bestSlot i)
    else some (m, searchNext k bestSlot (i + 1))
  | .searchCas k bestSlot i =>
    if m.slots (slotNear bestSlot i) = .this false then
      some (m.setSlot (slotNear bestSlot i) .zero, released readerPriority k)
    else some (m, searchNext k bestSlot (i + 1))
  | .freeSlot k slot =>
    if m.slots slot = .this true then
      some (m.setSlot slot .zero, released readerPriority k)
    else some (m, .inline k)
  | .inline k =>
    let state := m.state - kIncrHasS
    some ({ m with state },
      if !has state kHasS then wakeRegisteredWaiters state kWaitingNotS (released readerPriority k)
      else released readerPriority k)
  | .wake state wakeMask next =>
    if wakeMask &&& kWaitingE = kWaitingE ∧ state &&& wakeMask = kWaitingE ∧ ch.go then
      some (m, next)
    else some ({ m with state := m.state &&& ~~~ wakeMask }, next)
  | .upgradeCas ctx state =>
    if m.state = state then some ({ m with state := state ||| kHasU }, .held .upgrade)
    else some (m, .wait (.upgrade ctx) .spin m.state)
  | .toShared tok state =>
    if m.state = state then
      some ({ m with state := (state &&& ~~~ (kWaitingAny ||| kPrevDefer ||| kHasE)) + kIncrHasS },
        .held (sharedInline tok))
    else some (m, .toShared tok m.state)
  | .toUpgrade state =>
    if m.state = state then
      some ({ m with
        state := (state &&& ~~~ (kWaitingNotS ||| kWaitingS ||| kPrevDefer ||| kHasE)) + kHasU },
        .held .upgrade)
    else some (m, .toUpgrade m.state)

def Moves (m : Mem) (p : Pc) (m' : Mem) (p' : Pc) : Prop :=
  ∃ ch, step readerPriority ch m p = some (m', p')

inductive Outside (m : Mem) : Mem → Prop
  | fill {slot : Fin kMaxDeferredReaders} (h : m.slots slot = .zero) :
      Outside m (m.setSlot slot .other)
  | clear {slot : Fin kMaxDeferredReaders} (h : m.slots slot = .other) :
      Outside m (m.setSlot slot .zero)

abbrev State (ι : Type*) := Interleaving.State Mem Pc ι

def start (ι : Type*) : State ι := .all ι ⟨0, fun _ => .zero⟩ (.held .none)

inductive Mode
  | exclusive
  | upgrade
  | shared
  deriving DecidableEq, Repr

def Pc.mode : Pc → Option Mode
  | .held .exclusive => some .exclusive
  | .toShared .. => some .exclusive
  | .toUpgrade _ => some .exclusive
  | .held .upgrade => some .upgrade
  | .lockFast true _ _ => some .upgrade
  | .lockCas true _ _ => some .upgrade
  | .wait (.lock true _) _ _ => some .upgrade
  | .held (.shared _) => some .shared
  | .search .unlock _ _ => some .shared
  | .searchCas .unlock _ _ => some .shared
  | .freeSlot .unlock _ => some .shared
  | .inline .unlock => some .shared
  | .wake _ _ next => next.mode
  | _ => none

def Pc.sharing : Pc → Bool
  | .held (.shared _) => true
  | .sharedRecheck _ _ _ gotSlot => gotSlot
  | .search .. => true
  | .searchCas .. => true
  | .freeSlot .. => true
  | .inline _ => true
  | .wake _ _ next => next.sharing
  | _ => false

structure Exclusion {ι : Type*} (s : State ι) : Prop where
  alone : ∀ a b, a ≠ b → (s.pc a).mode = some .exclusive → (s.pc b).mode = none
  solo : ∀ a b, a ≠ b → (s.pc a).mode = some .exclusive ∨ (s.pc a).mode = some .upgrade →
    ¬ ((s.pc b).mode = some .exclusive ∨ (s.pc b).mode = some .upgrade)

end Acc.Thread.SharedMutex
