import Accelerator.Turns

namespace Acc.Thread

open Function List UInt32

open Turns (Event Job Stage)

namespace TurnSequencer

def kTurnShift : UInt32 := 6

def kWaitersMask : UInt32 := (1 <<< kTurnShift) - 1

def kMinSpins : UInt32 := 20

def kMaxSpins : UInt32 := 2000

def decodeCurrentSturn (state : UInt32) : UInt32 := state &&& ~~~kWaitersMask

def decodeMaxWaitersDelta (state : UInt32) : UInt32 := state &&& kWaitersMask

def encode (currentSturn maxWaiterD : UInt32) : UInt32 :=
  currentSturn ||| min kWaitersMask maxWaiterD

def futexChannel (turn : UInt32) : UInt32 := 1 <<< (turn &&& 31)

def isTurn (state turn : UInt32) : Bool := decodeCurrentSturn state == turn <<< kTurnShift

def recordWaiter (state turn : UInt32) : UInt32 :=
  let currentSturn := decodeCurrentSturn state
  let ourWaiterDelta := ((turn <<< kTurnShift) - currentSturn) >>> kTurnShift
  if ourWaiterDelta ≤ decodeMaxWaitersDelta state then state
  else encode currentSturn ourWaiterDelta

def nextState (state turn : UInt32) : UInt32 :=
  let maxWaiterDelta := decodeMaxWaitersDelta state
  encode ((turn + 1) <<< kTurnShift) (if maxWaiterDelta = 0 then 0 else maxWaiterDelta - 1)

def spinTarget (tries : UInt32) : UInt32 :=
  if tries ≥ kMaxSpins then kMinSpins else min kMaxSpins (max kMinSpins (tries * 2))

end TurnSequencer

open TurnSequencer

def smallPrimes : List UInt64 := [2, 3, 5, 7, 11, 13, 17, 19, 23]

def tryStride (capacity : UInt64) (best : UInt64 × UInt64) (stride : UInt64) : UInt64 × UInt64 :=
  if stride % capacity = 0 ∨ capacity % stride = 0 then best
  else
    let sep := min (stride % capacity) (capacity - stride % capacity)
    if sep > best.2 then (stride, sep) else best

def computeStride (capacity : UInt64) : UInt64 :=
  (smallPrimes.foldl (tryStride capacity) (1, 1)).1

def idx (ticket cap stride : UInt64) : Nat := ((ticket * stride) % cap).toNat

def turn (ticket cap : UInt64) : UInt32 := (ticket / cap).toUInt32

inductive Side (α : Type)
  | push (v : α)
  | pop
  deriving DecidableEq, Repr

def Side.sequencerTurn {α : Type} (turn : UInt32) : Side α → UInt32
  | .push _ => turn * 2
  | .pop => turn * 2 + 1

inductive Op (α : Type)
  | blockingWrite (v : α)
  | write (v : α)
  | writeIfNotFull (v : α)
  | blockingRead
  | read
  | readIfNotEmpty
  deriving DecidableEq, Repr

inductive Pc (α : Type)
  | idle
  | readyCheck (side : Side α) (ticket : UInt64)
  | readyReload (side : Side α) (prev : UInt64)
  | readyExchange (side : Side α) (ticket : UInt64)
  | promisedLoad (side : Side α) (ticket : UInt64)
  | promisedExchange (side : Side α) (ticket : UInt64)
  | waitBegin (side : Side α) (ticket : UInt64)
  | waitLoad (side : Side α) (ticket : UInt64) (prevThresh tries : UInt32)
  | waitExchange (side : Side α) (ticket : UInt64) (prevThresh tries state : UInt32)
  | waitFutex (side : Side α) (ticket : UInt64) (prevThresh tries newState : UInt32)
  | asleep (side : Side α) (ticket : UInt64) (prevThresh tries : UInt32)
  | waitEnd (side : Side α) (ticket : UInt64) (prevThresh tries : UInt32)
  | access (side : Side α) (ticket : UInt64)
  | completeLoad (side : Side α) (ticket : UInt64)
  | completeExchange (side : Side α) (ticket : UInt64) (state : UInt32)
  | wake (side : Side α) (ticket : UInt64) (maxWaiterDelta : UInt32)
  deriving DecidableEq, Repr

structure Slot (α : Type) where
  state : UInt32 := encode (0 <<< kTurnShift) 0
  contents : Option α := none
  deriving DecidableEq, Repr

structure Queue (ι α : Type) where
  pushTicket : UInt64 := 0
  popTicket : UInt64 := 0
  pushSpinCutoff : UInt32 := 0
  popSpinCutoff : UInt32 := 0
  slots : Nat → Slot α := fun _ => {}
  pc : ι → Pc α := fun _ => .idle

namespace Queue

variable {ι α : Type} [DecidableEq ι]

def counter (q : Queue ι α) : Side α → UInt64
  | .push _ => q.pushTicket
  | .pop => q.popTicket

def setCounter (q : Queue ι α) (ticket : UInt64) : Side α → Queue ι α
  | .push _ => { q with pushTicket := ticket }
  | .pop => { q with popTicket := ticket }

def spinCutoff (q : Queue ι α) : Side α → UInt32
  | .push _ => q.pushSpinCutoff
  | .pop => q.popSpinCutoff

def setSpinCutoff (q : Queue ι α) (cutoff : UInt32) : Side α → Queue ι α
  | .push _ => { q with pushSpinCutoff := cutoff }
  | .pop => { q with popSpinCutoff := cutoff }

def goto (q : Queue ι α) (i : ι) (pc : Pc α) : Queue ι α :=
  { q with pc := Function.update q.pc i pc }

def setSlot (q : Queue ι α) (x : Nat) (slot : Slot α) : Queue ι α :=
  { q with slots := Function.update q.slots x slot }

def obtain (q : Queue ι α) (i : ι) (side : Side α) : Queue ι α :=
  (q.setCounter (q.counter side + 1) side).goto i (.waitBegin side (q.counter side))

def begin (q : Queue ι α) (i : ι) : Op α → Queue ι α
  | .blockingWrite v => q.obtain i (.push v)
  | .write v => q.goto i (.readyCheck (.push v) q.pushTicket)
  | .writeIfNotFull v => q.goto i (.promisedLoad (.push v) q.pushTicket)
  | .blockingRead => q.obtain i .pop
  | .read => q.goto i (.readyCheck .pop q.popTicket)
  | .readIfNotEmpty => q.goto i (.promisedLoad .pop q.popTicket)

def noPromise (cap ticket : UInt64) (q : Queue ι α) : Side α → Bool
  | .push _ => decide ((ticket - q.popTicket).toInt64 ≥ cap.toInt64)
  | .pop => decide (ticket ≥ q.pushTicket)

def kAdaptationFreq : UInt64 := 128

def waitMore (side : Side α) (ticket : UInt64) (prevThresh tries state turn : UInt32) : Pc α :=
  let updateSpinCutoff := ticket % kAdaptationFreq = 0
  let effectiveSpinCutoff := if updateSpinCutoff ∨ prevThresh = 0 then kMaxSpins else prevThresh
  if tries < effectiveSpinCutoff then .waitLoad side ticket prevThresh (tries + 1)
  else if recordWaiter state turn = state then .waitFutex side ticket prevThresh tries state
  else .waitExchange side ticket prevThresh tries state

def adapt (q : Queue ι α) (side : Side α) (ticket : UInt64) (prevThresh tries : UInt32)
    (spurious : Bool) : Queue ι α :=
  if ticket % kAdaptationFreq = 0 ∨ prevThresh = 0 then
    if prevThresh = 0 then q.setSpinCutoff (spinTarget tries) side
    else if q.spinCutoff side = prevThresh ∧ spurious = false then
      q.setSpinCutoff
        (prevThresh + (Int32.div (spinTarget tries - prevThresh).toInt32 8).toUInt32) side
    else q
  else q

def futexWake (q : Queue ι α) (cap stride : UInt64) (x : Nat) (channel : UInt32) : Queue ι α :=
  { q with
    pc := fun j =>
      match q.pc j with
      | .asleep side ticket prevThresh tries =>
        if idx ticket cap stride = x ∧
            futexChannel (side.sequencerTurn (turn ticket cap)) &&& channel ≠ 0
        then .waitLoad side ticket prevThresh (tries + 1)
        else .asleep side ticket prevThresh tries
      | pc => pc }

def step (cap : UInt64) (q : Queue ι α) (i : ι) (op : Op α) (spurious : Bool) :
    Queue ι α × List (Event ι α) :=
  let stride := computeStride cap
  let slotOf (ticket : UInt64) := q.slots (idx ticket cap stride)
  let turnOf (side : Side α) (ticket : UInt64) := side.sequencerTurn (turn ticket cap)
  match q.pc i with
  | .idle => (q.begin i op, [])
  | .readyCheck side ticket =>
    if isTurn (slotOf ticket).state (turnOf side ticket)
    then (q.goto i (.readyExchange side ticket), [])
    else (q.goto i (.readyReload side ticket), [])
  | .readyReload side prev =>
    if q.counter side = prev then (q.goto i .idle, [])
    else (q.goto i (.readyCheck side (q.counter side)), [])
  | .readyExchange side ticket =>
    if q.counter side = ticket then (q.obtain i side, [])
    else (q.goto i (.readyCheck side (q.counter side)), [])
  | .promisedLoad side ticket =>
    if q.noPromise cap ticket side then (q.goto i .idle, [])
    else (q.goto i (.promisedExchange side ticket), [])
  | .promisedExchange side ticket =>
    if q.counter side = ticket then (q.obtain i side, [])
    else (q.goto i (.promisedLoad side (q.counter side)), [])
  | .waitBegin side ticket => (q.goto i (.waitLoad side ticket (q.spinCutoff side) 0), [])
  | .waitLoad side ticket prevThresh tries =>
    let state := (slotOf ticket).state
    if isTurn state (turnOf side ticket)
    then (q.goto i (.waitEnd side ticket prevThresh tries), [])
    else (q.goto i (waitMore side ticket prevThresh tries state (turnOf side ticket)), [])
  | .waitExchange side ticket prevThresh tries state =>
    if (slotOf ticket).state = state then
      let newState := recordWaiter state (turnOf side ticket)
      ((q.setSlot (idx ticket cap stride) { slotOf ticket with state := newState }).goto i
        (.waitFutex side ticket prevThresh tries newState), [])
    else (q.goto i (.waitLoad side ticket prevThresh (tries + 1)), [])
  | .waitFutex side ticket prevThresh tries newState =>
    if (slotOf ticket).state = newState
    then (q.goto i (.asleep side ticket prevThresh tries), [])
    else (q.goto i (.waitLoad side ticket prevThresh (tries + 1)), [])
  | .asleep side ticket prevThresh tries =>
    if spurious then (q.goto i (.waitLoad side ticket prevThresh (tries + 1)), [])
    else (q, [])
  | .waitEnd side ticket prevThresh tries =>
    ((q.adapt side ticket prevThresh tries spurious).goto i (.access side ticket), [])
  | .access (.push v) ticket =>
    ((q.setSlot (idx ticket cap stride) { slotOf ticket with contents := some v }).goto i
      (.completeLoad (.push v) ticket), [.stored i ticket.toNat v])
  | .access .pop ticket =>
    ((q.setSlot (idx ticket cap stride) { slotOf ticket with contents := none }).goto i
      (.completeLoad .pop ticket), [.returned i ticket.toNat (slotOf ticket).contents])
  | .completeLoad side ticket =>
    (q.goto i (.completeExchange side ticket (slotOf ticket).state), [])
  | .completeExchange side ticket state =>
    if (slotOf ticket).state = state then
      ((q.setSlot (idx ticket cap stride)
          { slotOf ticket with state := nextState state (turnOf side ticket) }).goto i
        (.wake side ticket (decodeMaxWaitersDelta state)), [.completed i ticket.toNat])
    else (q.goto i (.completeExchange side ticket (slotOf ticket).state), [])
  | .wake side ticket maxWaiterDelta =>
    let q := q.goto i .idle
    if maxWaiterDelta = 0 then (q, [])
    else (q.futexWake cap stride (idx ticket cap stride)
      (futexChannel (turnOf side ticket + 1)), [])

end Queue

lemma prime_of_mem_smallPrimes {p : UInt64} (h : p ∈ smallPrimes) : p.toNat.Prime := by
  have hmap : smallPrimes.map UInt64.toNat = [2, 3, 5, 7, 11, 13, 17, 19, 23] := rfl
  have hmem := mem_map_of_mem (f := UInt64.toNat) h
  rw [hmap] at hmem
  simp only [mem_cons, not_mem_nil, or_false] at hmem
  rcases hmem with h | h | h | h | h | h | h | h | h <;> rw [h] <;> norm_num

lemma foldl_tryStride {capacity : UInt64} (l : List UInt64) (hl : ∀ p ∈ l, p ∈ smallPrimes)
    (best : UInt64 × UInt64) (hbest : best.1 = 1 ∨ (best.1 ∈ smallPrimes ∧ capacity % best.1 ≠ 0)) :
    (l.foldl (tryStride capacity) best).1 = 1 ∨
      ((l.foldl (tryStride capacity) best).1 ∈ smallPrimes ∧
        capacity % (l.foldl (tryStride capacity) best).1 ≠ 0) := by
  induction l generalizing best with
  | nil => exact hbest
  | cons p l ih =>
    refine ih (fun q hq => hl q (mem_cons_of_mem _ hq)) _ ?_
    rw [tryStride]
    split
    · exact hbest
    rename_i hskip
    rw [not_or] at hskip
    simp only
    split
    · exact .inr ⟨hl p mem_cons_self, hskip.2⟩
    · exact hbest

lemma computeStride_cases (capacity : UInt64) : computeStride capacity = 1 ∨
      (computeStride capacity ∈ smallPrimes ∧ capacity % computeStride capacity ≠ 0) :=
  foldl_tryStride smallPrimes (fun _ h => h) (1, 1) (.inl rfl)

lemma coprime_computeStride (capacity : UInt64) :
    Nat.Coprime (computeStride capacity).toNat capacity.toNat := by
  rcases computeStride_cases capacity with h1 | ⟨hmem, hmod⟩
  · rw [h1]
    exact Nat.coprime_one_left _
  rw [(prime_of_mem_smallPrimes hmem).coprime_iff_not_dvd]
  intro hdvd
  apply hmod
  rw [← UInt64.toNat_inj, UInt64.toNat_mod]
  exact Nat.mod_eq_zero_of_dvd hdvd

lemma computeStride_le (capacity : UInt64) : (computeStride capacity).toNat ≤ 23 := by
  rcases computeStride_cases capacity with h1 | ⟨hmem, -⟩
  · rw [h1]
    decide
  · have hall : smallPrimes.all (fun p => p.toNat ≤ 23) = true := by decide
    exact of_decide_eq_true (all_eq_true.mp hall _ hmem)

namespace TurnSequencer

def sturn (n : Nat) : UInt32 := ofNat n <<< kTurnShift

lemma toNat_shift (x : UInt32) : (x <<< kTurnShift).toNat = x.toNat * 2 ^ 6 % 2 ^ 32 := by
  rw [UInt32.toNat_shiftLeft, Nat.shiftLeft_eq]
  rfl

lemma toNat_sturn (n : Nat) : (sturn n).toNat = n % 2 ^ 26 * 2 ^ 6 := by
  rw [sturn, toNat_shift, toNat_ofNat']
  omega

lemma toNat_decode (state : UInt32) :
    (decodeCurrentSturn state).toNat = state.toNat / 2 ^ 6 * 2 ^ 6 := by
  have hmask : (~~~kWaitersMask).toBitVec = BitVec.allOnes 32 <<< 6 := by decide
  have hshift : state.toBitVec >>> 6 <<< 6 = state.toBitVec &&& BitVec.allOnes 32 <<< 6 :=
    BitVec.shiftLeft_ushiftRight
  rw [decodeCurrentSturn, ← toNat_toBitVec, UInt32.toBitVec_and, hmask, ← hshift,
    BitVec.toNat_shiftLeft, BitVec.toNat_ushiftRight, Nat.shiftLeft_eq, Nat.shiftRight_eq_div_pow,
    toNat_toBitVec]
  have := state.toNat_lt
  omega

lemma decode_encode (sturn delta : UInt32) :
    decodeCurrentSturn (encode sturn delta) = decodeCurrentSturn sturn := by
  have hsmall : decodeCurrentSturn (min kWaitersMask delta) = 0 := by
    have hle : (min kWaitersMask delta).toNat ≤ 63 := by
      have hmin : min kWaitersMask delta = if kWaitersMask ≤ delta then kWaitersMask else delta :=
        rfl
      rw [hmin]
      split
      · decide
      rename_i hlt
      rw [le_iff_toNat_le] at hlt
      have hmask : kWaitersMask.toNat = 63 := rfl
      omega
    rw [← UInt32.toNat_inj, toNat_decode]
    show _ = 0
    omega
  rw [← UInt32.toBitVec_inj]
  have hbits := congrArg toBitVec hsmall
  simp only [decodeCurrentSturn, encode, UInt32.toBitVec_and, UInt32.toBitVec_or] at hbits ⊢
  rw [BitVec.and_or_distrib_right, hbits]
  exact BitVec.or_zero

lemma decode_shift (x : UInt32) : decodeCurrentSturn (x <<< kTurnShift) = x <<< kTurnShift := by
  rw [← UInt32.toNat_inj, toNat_decode, toNat_shift]
  omega

lemma decode_decode (x : UInt32) :
    decodeCurrentSturn (decodeCurrentSturn x) = decodeCurrentSturn x := by
  rw [← UInt32.toNat_inj, toNat_decode, toNat_decode]
  omega

lemma decode_recordWaiter (state turn : UInt32) :
    decodeCurrentSturn (recordWaiter state turn) = decodeCurrentSturn state := by
  simp only [recordWaiter]
  split
  · rfl
  · rw [decode_encode, decode_decode]

lemma decode_nextState (state turn : UInt32) :
    decodeCurrentSturn (nextState state turn) = (turn + 1) <<< kTurnShift := by
  rw [nextState, decode_encode, decode_shift]

lemma isTurn_iff {state : UInt32} {m n : Nat} (hstate : decodeCurrentSturn state = sturn m)
    (hle : m ≤ n) (hlt : n < m + 2 ^ 26) : isTurn state (ofNat n) = true ↔ m = n := by
  rw [isTurn, hstate, beq_iff_eq]
  constructor
  · intro h
    have hnat : (sturn m).toNat = (sturn n).toNat := congrArg UInt32.toNat h
    rw [toNat_sturn, toNat_sturn] at hnat
    omega
  · rintro rfl
    rfl

end TurnSequencer

variable {ι α : Type}

lemma turn_eq (ticket cap : UInt64) :
    turn ticket cap = ofNat (ticket.toNat / cap.toNat) := by
  simp [turn, ← UInt32.toNat_inj]

def layout (cap : UInt64) : Turns.Layout Nat where
  slot t := t * (computeStride cap).toNat % cap.toNat
  turn t := t / cap.toNat
  inj := by
    intro t t' hslot hturn
    have hmod : t % cap.toNat = t' % cap.toNat := by
      have hcop : Nat.gcd cap.toNat (computeStride cap).toNat = 1 :=
        (coprime_computeStride cap).symm
      exact Nat.ModEq.cancel_right_of_coprime hcop hslot
    rw [← Nat.div_add_mod t cap.toNat, ← Nat.div_add_mod t' cap.toNat, hturn, hmod]

lemma idx_eq {ticket : UInt64} (h : ticket.toNat ≤ 2 ^ 59) (cap : UInt64) :
    idx ticket cap (computeStride cap) = (layout cap).slot ticket.toNat := by
  have hstride := computeStride_le cap
  have hmul : ticket.toNat * (computeStride cap).toNat < 2 ^ 64 :=
    lt_of_le_of_lt (Nat.mul_le_mul h hstride) (by decide)
  rw [idx, UInt64.toNat_mod, UInt64.toNat_mul, Nat.mod_eq_of_lt hmul]
  rfl

theorem idx_turn_distinct (cap : UInt64) :
    Nat.Coprime (computeStride cap).toNat cap.toNat ∧
    (∀ ticket : UInt64, ticket.toNat + cap.toNat ≤ 2 ^ 59 → ∀ i < cap, ∀ j < cap,
      idx (ticket + i) cap (computeStride cap) = idx (ticket + j) cap (computeStride cap) → i = j) ∧
    ∀ ticket ticket' : UInt64, ticket.toNat < 2 ^ 59 → ticket'.toNat < 2 ^ 59 →
      ticket.toNat / cap.toNat < 2 ^ 32 → ticket'.toNat / cap.toNat < 2 ^ 32 →
      idx ticket cap (computeStride cap) = idx ticket' cap (computeStride cap) →
      turn ticket cap = turn ticket' cap → ticket = ticket' := by
  have hcop := coprime_computeStride cap
  refine ⟨hcop, ?_, ?_⟩
  · intro ticket hticket i hi j hj hidx
    have hi' := UInt64.lt_iff_toNat_lt.mp hi
    have hj' := UInt64.lt_iff_toNat_lt.mp hj
    have hadd {k : UInt64} (hk : k.toNat < cap.toNat) :
        (ticket + k).toNat = ticket.toNat + k.toNat := by
      rw [UInt64.toNat_add]
      omega
    rw [idx_eq (by rw [hadd hi']; omega), idx_eq (by rw [hadd hj']; omega), hadd hi',
      hadd hj'] at hidx
    have hmod := Nat.ModEq.cancel_right_of_coprime hcop.symm hidx
    have hmod' := Nat.ModEq.add_left_cancel' _ hmod
    rw [Nat.ModEq, Nat.mod_eq_of_lt hi', Nat.mod_eq_of_lt hj'] at hmod'
    exact UInt64.toNat_inj.mp hmod'
  · intro ticket ticket' h h' hquot hquot' hidx hturn
    rw [idx_eq h.le, idx_eq h'.le] at hidx
    have hturn' : (layout cap).turn ticket.toNat = (layout cap).turn ticket'.toNat := by
      have hword := congrArg UInt32.toNat hturn
      rwa [turn_eq, turn_eq, UInt32.toNat_ofNat', UInt32.toNat_ofNat', Nat.mod_eq_of_lt hquot,
        Nat.mod_eq_of_lt hquot'] at hword
    exact UInt64.toNat_inj.mp ((layout cap).inj hidx hturn')

def Side.job : Side α → Nat → Job α
  | .push v, t => .push t v
  | .pop, t => .pop t

lemma Side.ticket_job (side : Side α) (t : Nat) : (side.job t).ticket = t := by
  cases side <;> rfl

lemma sequencerTurn_eq (side : Side α) (ticket cap : UInt64) :
    side.sequencerTurn (turn ticket cap) =
      ofNat ((layout cap).due (side.job ticket.toNat)) := by
  rw [turn_eq, ← UInt32.toNat_inj]
  cases side with
  | push v =>
    rw [Side.sequencerTurn, UInt32.toNat_mul, toNat_ofNat', toNat_ofNat']
    show _ * 2 % 2 ^ 32 = 2 * (ticket.toNat / cap.toNat) % 2 ^ 32
    omega
  | pop =>
    rw [Side.sequencerTurn, UInt32.toNat_add, UInt32.toNat_mul, toNat_ofNat',
      toNat_ofNat']
    show (_ * 2 % 2 ^ 32 + 1) % 2 ^ 32 = (2 * (ticket.toNat / cap.toNat) + 1) % 2 ^ 32
    omega

def Pc.stage : Pc α → Stage α
  | .idle => .free
  | .readyCheck _ _ => .free
  | .readyReload _ _ => .free
  | .readyExchange _ _ => .free
  | .promisedLoad _ _ => .free
  | .promisedExchange _ _ => .free
  | .waitBegin side ticket => .waiting (side.job ticket.toNat)
  | .waitLoad side ticket _ _ => .waiting (side.job ticket.toNat)
  | .waitExchange side ticket _ _ _ => .waiting (side.job ticket.toNat)
  | .waitFutex side ticket _ _ _ => .waiting (side.job ticket.toNat)
  | .asleep side ticket _ _ => .waiting (side.job ticket.toNat)
  | .waitEnd side ticket _ _ => .active (side.job ticket.toNat)
  | .access side ticket => .active (side.job ticket.toNat)
  | .completeLoad side ticket => .leaving (side.job ticket.toNat)
  | .completeExchange side ticket _ => .leaving (side.job ticket.toNat)
  | .wake _ _ _ => .free

def completions (cap : UInt64) (tr : List (Event ι α)) (x : Nat) : Nat :=
  tr.countP fun
    | .completed _ t => (layout cap).slot t = x
    | _ => false

def Queue.abs (cap : UInt64) (tr : List (Event ι α)) (q : Queue ι α) : Turns.State ι Nat α where
  pushes := q.pushTicket.toNat
  pops := q.popTicket.toNat
  clock := completions cap tr
  contents x := (q.slots x).contents
  stage i := (q.pc i).stage

structure Queue.Few (cap : UInt64) (tr : List (Event ι α)) (q : Queue ι α) : Prop where
  pushes : q.pushTicket.toNat ≤ 2 ^ 59
  pops : q.popTicket.toNat ≤ 2 ^ 59
  ahead : ∀ i, ∀ job ∈ (q.pc i).stage.job?,
    (layout cap).turn job.ticket < completions cap tr ((layout cap).place job) / 2 + 2 ^ 25

def Queue.Coded (cap : UInt64) (tr : List (Event ι α)) (q : Queue ι α) : Prop :=
  ∀ x, decodeCurrentSturn (q.slots x).state = sturn (completions cap tr x)

namespace Queue

variable {cap : UInt64} {tr : List (Event ι α)} {q : Queue ι α}

lemma abs_setSlot (x : Nat) (slot : Slot α) : (q.setSlot x slot).abs cap tr = { q.abs cap tr with
        contents := update (q.abs cap tr).contents x slot.contents } := by
  simp only [abs, setSlot, Turns.State.mk.injEq, true_and, and_true]
  funext y
  by_cases hy : y = x
  · rw [hy, update_self, update_self]
  · simp [update_of_ne hy]

lemma abs_setState (x : Nat) (state : UInt32) :
    (q.setSlot x { q.slots x with state }).abs cap tr = q.abs cap tr := by
  rw [abs_setSlot]
  exact congrArg (fun contents => { q.abs cap tr with contents }) (update_eq_self x _)

lemma abs_adapt (cap : UInt64) (tr : List (Event ι α)) (q : Queue ι α) (side : Side α)
    (ticket : UInt64) (prevThresh tries : UInt32) (spurious : Bool) :
    (q.adapt side ticket prevThresh tries spurious).abs cap tr =
      q.abs cap tr ∧ (q.adapt side ticket prevThresh tries spurious).slots = q.slots ∧
      (q.adapt side ticket prevThresh tries spurious).pc = q.pc := by
  have hset : ∀ cutoff, (q.setSpinCutoff cutoff side).abs cap tr = q.abs cap tr ∧
      (q.setSpinCutoff cutoff side).slots = q.slots ∧
      (q.setSpinCutoff cutoff side).pc = q.pc := by
    intro cutoff
    cases side with
    | push v | pop => exact ⟨rfl, rfl, rfl⟩
  rw [adapt]
  split
  · split
    · exact hset _
    · split
      · exact hset _
      · exact ⟨rfl, rfl, rfl⟩
  · exact ⟨rfl, rfl, rfl⟩

lemma stage_waitMore (side : Side α) (ticket : UInt64) (prevThresh tries state turn : UInt32) :
    (waitMore side ticket prevThresh tries state turn).stage =
      .waiting (side.job ticket.toNat) := by
  rw [waitMore]
  simp only [apply_ite Pc.stage]
  simp only [Pc.stage, ite_self]

lemma abs_futexWake (stride : UInt64) (x : Nat) (channel : UInt32) :
    (q.futexWake cap stride x channel).abs cap tr = q.abs cap tr := by
  simp only [abs, futexWake, Turns.State.mk.injEq, true_and]
  funext j
  split
  · rename_i side ticket prevThresh tries hpc
    rw [hpc]
    split
    · rfl
    · rfl
  · rfl

variable {i : ι} {side : Side α} {ticket : UInt64}

lemma Few.ticket_le (hfew : q.Few cap tr) (hinv : Turns.Inv (layout cap) tr (q.abs cap tr))
    (hjob : (q.pc i).stage.job? = some (side.job ticket.toNat)) : ticket.toNat ≤ 2 ^ 59 := by
  have hlt := hinv.threads.issued i _ hjob
  cases side with
  | push v => exact (lt_of_lt_of_le hlt hfew.pushes).le
  | pop => exact (lt_of_lt_of_le hlt hfew.pops).le

lemma setSlot_coded {x : Nat} {slot : Slot α} (h : q.Coded cap tr)
    (hslot : decodeCurrentSturn slot.state = decodeCurrentSturn (q.slots x).state) :
    (q.setSlot x slot).Coded cap tr := by
  intro y
  by_cases hy : y = x
  · rw [hy, setSlot]
    simp only [update_self]
    rw [hslot]
    exact h x
  · rw [setSlot]
    simp only [update_of_ne hy]
    exact h y

lemma completions_snoc (cap : UInt64) (tr : List (Event ι α)) (e : Event ι α)
    (h : ∀ i t, e ≠ .completed i t) : completions cap (tr ++ [e]) = completions cap tr := by
  funext x
  rw [completions, countP_append]
  cases e with
  | completed i t => exact absurd rfl (h i t)
  | stored | returned => rfl

lemma idx_of_job (hinv : Turns.Inv (layout cap) tr (q.abs cap tr)) (hfew : q.Few cap tr)
    (side : Side α) (hjob : (q.pc i).stage.job? = some (side.job ticket.toNat)) :
    idx ticket cap (computeStride cap) = (layout cap).slot ticket.toNat :=
  idx_eq (hfew.ticket_le hinv hjob) cap

lemma completions_completed (cap : UInt64) (tr : List (Event ι α)) (i : ι) (t : Nat) :
    completions cap (tr ++ [.completed i t]) = update (completions cap tr) ((layout cap).slot t)
        (completions cap tr ((layout cap).slot t) + 1) := by
  funext x
  by_cases hx : x = (layout cap).slot t
  · rw [hx, update_self]
    simp [completions]
  · rw [update_of_ne hx]
    simp [completions, Ne.symm hx]

variable [DecidableEq ι]

lemma abs_goto (i : ι) (pc : Pc α) : (q.goto i pc).abs cap tr =
      { q.abs cap tr with stage := update (q.abs cap tr).stage i pc.stage } := by
  simp only [abs, goto, Turns.State.mk.injEq, true_and]
  funext j
  by_cases hj : j = i
  · rw [hj, update_self, update_self]
  · simp [update_of_ne hj]

lemma abs_goto_same {pc : Pc α} (h : pc.stage = (q.pc i).stage) :
    (q.goto i pc).abs cap tr = q.abs cap tr := by
  rw [abs_goto, h]
  exact congrArg (fun stage => { q.abs cap tr with stage }) (update_eq_self i _)

lemma obtain_refines (hfew : q.Few cap tr) (hfree : (q.pc i).stage = .free)
    (side : Side α) : Turns.Step (layout cap) (q.abs cap tr) [] ((q.obtain i side).abs cap tr) := by
  have hnext : ∀ n : UInt64, n.toNat ≤ 2 ^ 59 → (n + 1).toNat = n.toNat + 1 := by
    intro n hn
    exact Nat.mod_eq_of_lt (lt_of_le_of_lt (Nat.add_le_add_right hn 1) (by decide))
  rw [obtain, abs_goto]
  cases side with
  | push v =>
    have h := Turns.Step.push (L := layout cap) (s := q.abs cap tr) i v hfree
    simp only [abs, setCounter, counter, hnext _ hfew.pushes] at h ⊢
    exact h
  | pop =>
    have h := Turns.Step.pop (L := layout cap) (s := q.abs cap tr) i hfree
    simp only [abs, setCounter, counter, hnext _ hfew.pops] at h ⊢
    exact h

structure Refines (cap : UInt64) (tr : List (Event ι α)) (q : Queue ι α)
    (r : Queue ι α × List (Event ι α)) : Prop where
  refines : (r.2 = [] ∧ r.1.abs cap tr = q.abs cap tr) ∨
    Turns.Step (layout cap) (q.abs cap tr) r.2 (r.1.abs cap (tr ++ r.2))
  coded : r.1.Coded cap (tr ++ r.2)

lemma refines_of_abs_eq {q' : Queue ι α} (habs : q'.abs cap tr = q.abs cap tr)
    (hcoded : q'.Coded cap tr) : Refines cap tr q (q', []) :=
  ⟨.inl ⟨rfl, habs⟩, by rw [append_nil]; exact hcoded⟩

lemma refines_goto (hcoded : q.Coded cap tr) {pc : Pc α}
    (h : pc.stage = (q.pc i).stage) : Refines cap tr q (q.goto i pc, []) :=
  refines_of_abs_eq (abs_goto_same h) hcoded

lemma refines_obtain (hfew : q.Few cap tr) (hcoded : q.Coded cap tr)
    (hfree : (q.pc i).stage = .free) (side : Side α) : Refines cap tr q (q.obtain i side, []) := by
  refine ⟨.inr ?_, ?_⟩
  · rw [append_nil]
    exact obtain_refines hfew hfree side
  · rw [append_nil]
    cases side <;> exact hcoded

lemma refines_begin (hfew : q.Few cap tr) (hcoded : q.Coded cap tr)
    (hidle : q.pc i = .idle) (op : Op α) : Refines cap tr q (q.begin i op, []) := by
  have hfree : (q.pc i).stage = .free := by rw [hidle]; rfl
  cases op with
  | blockingWrite v => exact refines_obtain hfew hcoded hfree (.push v)
  | blockingRead => exact refines_obtain hfew hcoded hfree .pop
  | write | writeIfNotFull | read | readIfNotEmpty => exact refines_goto hcoded hfree.symm

lemma refines_waitEnd (hinv : Turns.Inv (layout cap) tr (q.abs cap tr)) (hfew : q.Few cap tr)
    (hcoded : q.Coded cap tr) {prevThresh tries : UInt32}
    (hpc : q.pc i = .waitLoad side ticket prevThresh tries)
    (hturn : isTurn (q.slots (idx ticket cap (computeStride cap))).state
      (side.sequencerTurn (turn ticket cap)) = true) :
    Refines cap tr q (q.goto i (.waitEnd side ticket prevThresh tries), []) := by
  have hwaiting : (q.abs cap tr).stage i = .waiting (side.job ticket.toNat) := by
    show (q.pc i).stage = _
    rw [hpc]
    rfl
  have hjob : (q.pc i).stage.job? = some (side.job ticket.toNat) := by rw [hpc]; rfl
  have hahead := hfew.ahead i _ hjob
  have hplace : idx ticket cap (computeStride cap) =
      (layout cap).place (side.job ticket.toNat) := by
    rw [idx_eq (hfew.ticket_le hinv hjob), Turns.Layout.place, Side.ticket_job]
  have hfits := hinv.threads.fits i
  rw [hwaiting, Turns.Stage.Fits] at hfits
  have hclock := hinv.history.clock ((layout cap).place (side.job ticket.toNat))
  have hclock' : completions cap tr ((layout cap).place (side.job ticket.toNat)) =
      (layout cap).due (side.job ticket.toNat) := by
    rw [hplace, sequencerTurn_eq] at hturn
    refine (isTurn_iff (hcoded _) ?_ ?_).mp hturn
    · change completions cap tr _ = _ at hclock
      omega
    cases side with
    | push v | pop =>
      simp only [Side.job, Turns.Job.ticket, Turns.Layout.due] at hahead ⊢
      omega
  refine ⟨.inr ?_, by rw [append_nil]; exact hcoded⟩
  rw [append_nil, abs_goto]
  exact Turns.Step.begin i _ hwaiting hclock'

lemma refines_access_push (hinv : Turns.Inv (layout cap) tr (q.abs cap tr))
    (hfew : q.Few cap tr) (hcoded : q.Coded cap tr) {v : α}
    (hpc : q.pc i = .access (.push v) ticket) : Refines cap tr q
      ((q.setSlot (idx ticket cap (computeStride cap))
          { q.slots (idx ticket cap (computeStride cap)) with contents := some v }).goto i
        (.completeLoad (.push v) ticket), [.stored i ticket.toNat v]) := by
  have hstage : (q.pc i).stage = .active (.push ticket.toNat v) := by rw [hpc]; rfl
  have hidx := idx_of_job hinv hfew (.push v) (by rw [hstage]; rfl)
  have hcompletions := completions_snoc cap tr (.stored i ticket.toNat v) (fun _ _ h => by cases h)
  refine ⟨.inr ?_, ?_⟩
  · have h := Turns.Step.store (L := layout cap) (s := q.abs cap tr) i ticket.toNat v hstage
    rw [abs_goto, abs_setSlot, hidx]
    simp only [abs, hcompletions] at h ⊢
    exact h
  intro x
  rw [hcompletions]
  refine setSlot_coded hcoded ?_ x
  rfl

lemma refines_access_pop (hinv : Turns.Inv (layout cap) tr (q.abs cap tr))
    (hfew : q.Few cap tr) (hcoded : q.Coded cap tr) (hpc : q.pc i = .access .pop ticket) :
    Refines cap tr q ((q.setSlot (idx ticket cap (computeStride cap))
          { q.slots (idx ticket cap (computeStride cap)) with contents := none }).goto i
        (.completeLoad .pop ticket),
        [.returned i ticket.toNat (q.slots (idx ticket cap (computeStride cap))).contents]) := by
  have hstage : (q.pc i).stage = .active (.pop ticket.toNat) := by rw [hpc]; rfl
  have hidx := idx_of_job hinv hfew .pop (by rw [hstage]; rfl)
  rw [hidx]
  have hcompletions := completions_snoc cap tr
    (.returned i ticket.toNat (q.slots ((layout cap).slot ticket.toNat)).contents)
    (fun _ _ h => by cases h)
  refine ⟨.inr ?_, ?_⟩
  · have h := Turns.Step.take (L := layout cap) (s := q.abs cap tr) i ticket.toNat hstage
    rw [abs_goto, abs_setSlot]
    simp only [abs, hcompletions] at h ⊢
    exact h
  intro x
  rw [hcompletions]
  refine setSlot_coded hcoded ?_ x
  rfl

lemma refines_completed (hinv : Turns.Inv (layout cap) tr (q.abs cap tr))
    (hfew : q.Few cap tr) (hcoded : q.Coded cap tr)
    {state state' : UInt32} (hpc : q.pc i = .completeExchange side ticket state') (delta : UInt32) :
    Refines cap tr q ((q.setSlot (idx ticket cap (computeStride cap))
          { q.slots (idx ticket cap (computeStride cap)) with
            state := nextState state (side.sequencerTurn (turn ticket cap)) }).goto i
        (.wake side ticket delta), [.completed i ticket.toNat]) := by
  have hstage : (q.pc i).stage = .leaving (side.job ticket.toNat) := by rw [hpc]; rfl
  have hidx := idx_of_job hinv hfew side (by rw [hstage]; rfl)
  have hcompletions := completions_completed cap tr i ticket.toNat
  refine ⟨.inr ?_, ?_⟩
  · have h := Turns.Step.leave (L := layout cap) (s := q.abs cap tr) i _ hstage
    rw [Turns.Layout.place, Side.ticket_job] at h
    rw [abs_goto, abs_setState]
    simp only [abs, hcompletions] at h ⊢
    exact h
  intro x
  rw [hcompletions, hidx]
  by_cases hx : x = (layout cap).slot ticket.toNat
  · -- The clock showed the turn that is completed.
    have hfits := hinv.threads.fits i
    have hclock := hinv.history.clock ((layout cap).slot ticket.toNat)
    change (q.pc i).stage.Fits _ _ at hfits
    rw [hstage, Turns.Stage.Fits, Turns.Layout.place, Side.ticket_job] at hfits
    change completions cap tr _ = _ at hclock
    have hdue : completions cap tr ((layout cap).slot ticket.toNat) =
        (layout cap).due (side.job ticket.toNat) := by omega
    simp only [hx, goto, setSlot, update_self, hdue]
    rw [decode_nextState, sequencerTurn_eq, sturn, ofNat_add]
    rfl
  · simp only [goto, setSlot, update_of_ne hx]
    exact hcoded x

lemma step_refines (hinv : Turns.Inv (layout cap) tr (q.abs cap tr)) (hfew : q.Few cap tr)
    (hcoded : q.Coded cap tr) (i : ι) (op : Op α) (spurious : Bool) :
    Refines cap tr q (q.step cap i op spurious) := by
  rw [step]
  cases hpc : q.pc i with
  | idle => exact refines_begin hfew hcoded hpc op
  | readyCheck side ticket | readyReload side prev | promisedLoad side ticket
  | waitFutex side ticket prevThresh tries newState =>
    simp only
    split
    · exact refines_goto hcoded (by rw [hpc]; rfl)
    · exact refines_goto hcoded (by rw [hpc]; rfl)
  | readyExchange side ticket | promisedExchange side ticket =>
    simp only
    split
    · exact refines_obtain hfew hcoded (by rw [hpc]; rfl) side
    · exact refines_goto hcoded (by rw [hpc]; rfl)
  | waitBegin side ticket | completeLoad side ticket => exact refines_goto hcoded (by rw [hpc]; rfl)
  | waitLoad side ticket prevThresh tries =>
    simp only
    split
    · rename_i hturn
      exact refines_waitEnd hinv hfew hcoded hpc hturn
    · refine refines_goto hcoded ?_
      rw [hpc, stage_waitMore]
      rfl
  | waitExchange side ticket prevThresh tries state =>
    simp only
    split
    · rename_i hstate
      refine refines_of_abs_eq ?_ ?_
      · rw [abs_goto_same (by simp only [setSlot]; rw [hpc]; rfl), abs_setState]
      · refine setSlot_coded (q := q) hcoded ?_
        rw [hstate]
        exact decode_recordWaiter _ _
    · exact refines_goto hcoded (by rw [hpc]; rfl)
  | asleep side ticket prevThresh tries =>
    simp only
    split
    · exact refines_goto hcoded (by rw [hpc]; rfl)
    · exact refines_of_abs_eq rfl hcoded
  | waitEnd side ticket prevThresh tries =>
    obtain ⟨habs, hslots, hpcs⟩ :=
      abs_adapt cap tr q side ticket prevThresh tries spurious
    refine refines_of_abs_eq ?_ ?_
    · rw [abs_goto_same (by rw [hpcs, hpc]; rfl), habs]
    · intro x
      simp only [goto, hslots]
      exact hcoded x
  | access side ticket =>
    cases side with
    | push v => exact refines_access_push hinv hfew hcoded hpc
    | pop => exact refines_access_pop hinv hfew hcoded hpc
  | completeExchange side ticket state =>
    simp only
    split
    · exact refines_completed hinv hfew hcoded hpc _
    · exact refines_goto hcoded (by rw [hpc]; rfl)
  | wake side ticket maxWaiterDelta =>
    simp only
    split
    · exact refines_goto hcoded (by rw [hpc]; rfl)
    · refine refines_of_abs_eq ?_ ?_
      · rw [abs_futexWake, abs_goto_same (by rw [hpc]; rfl)]
      · exact hcoded

inductive Run (cap : UInt64) : List (Event ι α) → Queue ι α → Prop
  | start : Run cap [] {}
  | next {tr : List (Event ι α)} {q : Queue ι α} (h : Run cap tr q) (i : ι) (op : Op α)
      (spurious : Bool)
      (hfew : (q.step cap i op spurious).1.Few cap (tr ++ (q.step cap i op spurious).2)) :
      Run cap (tr ++ (q.step cap i op spurious).2) (q.step cap i op spurious).1

lemma Run.few (h : Run cap tr q) : q.Few cap tr := by
  cases h with
  | start => exact ⟨Nat.zero_le _, Nat.zero_le _, fun _ _ h => by cases h⟩
  | next _ _ _ _ hfew => exact hfew

lemma Run.inv (h : Run cap tr q) : Turns.Inv (layout cap) tr (q.abs cap tr) ∧ q.Coded cap tr := by
  induction h with
  | start =>
    refine ⟨Turns.inv_start _ _ (fun _ => rfl) (fun _ => rfl) fun _ => rfl, fun x => ?_⟩
    show decodeCurrentSturn (encode (0 <<< kTurnShift) 0) = sturn 0
    decide
  | @next tr q h i op spurious _ ih =>
    obtain ⟨hinv, hcoded⟩ := ih
    obtain ⟨hrefines, hcoded'⟩ := step_refines hinv h.few hcoded i op spurious
    refine ⟨?_, hcoded'⟩
    rcases hrefines with ⟨hes, habs⟩ | hstep
    · rw [hes, append_nil, habs]
      exact hinv
    · exact hinv.step hstep

theorem fifo_by_ticket (hcap : cap ≠ 0) (h : Run cap tr q) :
    (∀ j t c, Event.returned j t c ∈ tr → ∃ i v, c = some v ∧ Event.stored i t v ∈ tr) ∧
    (Turns.storedTickets tr).Nodup ∧ (Turns.returnedTickets tr).Nodup ∧
    (∀ i op spurious j t v, Event.stored j t v ∈ (q.step cap i op spurious).2 →
      (q.slots ((layout cap).slot t)).contents = none ∧
        ∀ t' ∈ Turns.unread tr, (layout cap).slot t' ≠ (layout cap).slot t) ∧
    (Turns.unread tr).length ≤ cap.toNat := by
  obtain ⟨hinv, hcoded⟩ := h.inv
  have hpos : 0 < cap.toNat := by
    refine Nat.pos_of_ne_zero fun hzero => hcap ?_
    rw [← UInt64.toNat_inj, hzero]
    rfl
  refine ⟨hinv.history.returned_stored, hinv.history.nodup_stored, hinv.history.nodup_returned,
    ?_, ?_⟩
  · intro i op spurious j t v hmem
    rcases (step_refines hinv h.few hcoded i op spurious).refines with ⟨hnil, -⟩ | hstep
    · rw [hnil] at hmem
      cases hmem
    · have hactive := hstep.active_of_stored hmem
      exact ⟨hinv.empty_of_active hactive, fun t' ht' => hinv.slot_ne_of_unread hactive ht'⟩
  · have hle := hinv.history.length_unread_le (Finset.range cap.toNat)
      (fun t => Finset.mem_range.mpr (Nat.mod_lt _ hpos))
    rwa [Finset.card_range] at hle

instance [Fintype ι] (cap : UInt64) (tr : List (Event ι α)) (q : Queue ι α) :
    Decidable (q.Few cap tr) :=
  decidable_of_iff (q.pushTicket.toNat ≤ 2 ^ 59 ∧ q.popTicket.toNat ≤ 2 ^ 59 ∧
      ∀ i, ∀ job ∈ (q.pc i).stage.job?, (layout cap).turn job.ticket <
        completions cap tr ((layout cap).place job) / 2 + 2 ^ 25)
    ⟨fun h => ⟨h.1, h.2.1, h.2.2⟩, fun h => ⟨h.pushes, h.pops, h.ahead⟩⟩

def play (cap : UInt64) : List (ι × Op α × Bool) → List (Event ι α) × Queue ι α →
    List (Event ι α) × Queue ι α
  | [], s => s
  | (i, op, spurious) :: l, (tr, q) =>
    play cap l (tr ++ (q.step cap i op spurious).2, (q.step cap i op spurious).1)

def FewAlong (cap : UInt64) : List (ι × Op α × Bool) → List (Event ι α) × Queue ι α → Prop
  | [], _ => True
  | (i, op, spurious) :: l, (tr, q) =>
    (q.step cap i op spurious).1.Few cap (tr ++ (q.step cap i op spurious).2) ∧
      FewAlong cap l (tr ++ (q.step cap i op spurious).2, (q.step cap i op spurious).1)

instance decidableFewAlong [Fintype ι] (cap : UInt64) : (l : List (ι × Op α × Bool)) →
    (s : List (Event ι α) × Queue ι α) → Decidable (FewAlong cap l s)
  | [], _ => instDecidableTrue
  | (_, _, _) :: l, (_, _) => @instDecidableAnd _ _ _ (decidableFewAlong cap l _)

lemma Run.play (l : List (ι × Op α × Bool)) {s : List (Event ι α) × Queue ι α}
    (h : Run cap s.1 s.2) (hfew : FewAlong cap l s) :
    Run cap (Queue.play cap l s).1 (Queue.play cap l s).2 := by
  induction l generalizing s with
  | nil => exact h
  | cons x l ih =>
    obtain ⟨i, op, spurious⟩ := x
    exact ih (h.next i op spurious hfew.1) hfew.2

def pushPop : List (Bool × Op Nat × Bool) :=
  List.replicate 8 (false, .blockingWrite 7, false) ++ List.replicate 7 (true, .read, false)

theorem fifo_by_ticket_pushPop :
    Event.returned true 0 (some 7) ∈ (play 3 pushPop ([], {})).1 ∧
      ∃ i v, some 7 = some v ∧ Event.stored i 0 v ∈ (play 3 pushPop ([], {})).1 :=
  ⟨by decide,
    (fifo_by_ticket (by decide) (Run.start.play pushPop (by decide))).1 true 0 (some 7)
      (by decide)⟩

end Queue

end Acc.Thread
