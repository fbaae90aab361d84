import Accelerator.Chain

namespace Acc.Thread.AtomicMap

inductive BucketState
  | EMPTY
  | CONSTRUCTING
  | LINKED
  deriving DecidableEq, Repr

def BucketState.val : BucketState → Nat
  | EMPTY => 0
  | CONSTRUCTING => 1
  | LINKED => 2

def kMaxAllocationTries : Nat := 1000

structure Slot (K V : Type*) where
  headAndState : Nat := 0
  next : Nat := 0
  keyValue : Option (K × V) := none

structure Config (K : Type*) where
  bits : Nat
  numSlots : Nat
  slotMask : Nat
  hash : K → Nat
  positive : 0 < numSlots
  wide : 2 ≤ bits
  fits : numSlots ≤ 2 ^ (bits - 2)

namespace Config

variable {K : Type*} (cfg : Config K)

def wrap (numSlots : Nat) : Nat → Nat → Nat
  | 0, h => h
  | rounds + 1, h => if numSlots ≤ h then wrap numSlots rounds (h - numSlots) else h

def keyToSlotIdx (key : K) : Nat :=
  let h := cfg.hash key &&& cfg.slotMask
  wrap cfg.numSlots h h

def allocationAttempt (start tries rand : Nat) : Nat :=
  if tries < 8 ∧ start + tries < cfg.numSlots then start + tries else rand % cfg.numSlots

def stateUpdate (word : Nat) (before after : BucketState) : Nat :=
  (word + (2 ^ cfg.bits + after.val - before.val)) % 2 ^ cfg.bits

end Config

structure Call (K V : Type*) where
  key : K
  construct : Option V

inductive After
  | search
  | first (prev : Nat)
  | again (prev idx : Nat)
  deriving DecidableEq, Repr

inductive Pc
  | idle
  | load
  | look (after : After)
  | walk (after : After) (slot : Nat)
  | attempt (prev tries : Nat)
  | reserve (prev tries slot seen : Nat)
  | construct (prev idx : Nat)
  | setNext (prev idx : Nat)
  | link (prev idx : Nat)
  | mark (idx : Nat)
  | discard (idx existing : Nat)
  | recycle (idx existing : Nat)
  | done (slot : Nat) (inserted : Bool)
  | threw
  deriving DecidableEq, Repr

structure State (ι K V : Type*) where
  slots : Nat → Slot K V
  pc : ι → Pc

namespace State

variable {ι K V : Type*} [DecidableEq ι] [DecidableEq K]

def start : State ι K V where
  slots := fun i => if i = 0 then { headAndState := BucketState.CONSTRUCTING.val } else {}
  pc := fun _ => .idle

def word (s : State ι K V) (i : Nat) : Nat := (s.slots i).headAndState

def setSlot (s : State ι K V) (i : Nat) (slot : Slot K V) : State ι K V :=
  { s with slots := fun j => if j = i then slot else s.slots j }

def setWord (s : State ι K V) (i w : Nat) : State ι K V :=
  s.setSlot i { s.slots i with headAndState := w }

def setPc (s : State ι K V) (c : ι) (p : Pc) : State ι K V :=
  { s with pc := fun d => if d = c then p else s.pc d }

def notFound : After → Pc
  | .search => .done 0 false
  | .first prev => .attempt prev 0
  | .again prev idx => .setNext prev idx

def found (slot : Nat) : After → Pc
  | .search => .done slot false
  | .first _ => .done slot false
  | .again _ idx => .discard idx slot

def step (cfg : Config K) (calls : ι → Call K V) (s : State ι K V) (c : ι) (rand : Nat) :
    Option (State ι K V) :=
  let key := (calls c).key
  let slot := cfg.keyToSlotIdx key
  match s.pc c with
  | .idle =>
    match (calls c).construct with
    | none => some (s.setPc c (.look .search))
    | some _ => some (s.setPc c .load)
  | .load => some (s.setPc c (.look (.first (s.word slot))))
  | .look after => some (s.setPc c (.walk after (s.word slot >>> 2)))
  | .walk after i =>
    if i = 0 then some (s.setPc c (notFound after))
    else
      match (s.slots i).keyValue with
      | none => none
      | some (k, _) =>
        if key = k then some (s.setPc c (found i after))
        else some (s.setPc c (.walk after (s.slots i).next))
  | .attempt prev tries =>
    if tries < kMaxAllocationTries then
      let i := cfg.allocationAttempt slot tries rand
      if s.word i &&& 3 = BucketState.EMPTY.val then
        some (s.setPc c (.reserve prev tries i (s.word i)))
      else some (s.setPc c (.attempt prev (tries + 1)))
    else some (s.setPc c .threw)
  | .reserve prev tries i seen =>
    if s.word i = seen then
      some ((s.setWord i (cfg.stateUpdate seen .EMPTY .CONSTRUCTING)).setPc c (.construct prev i))
    else some (s.setPc c (.attempt prev (tries + 1)))
  | .construct prev idx =>
    match (calls c).construct with
    | none => none
    | some value =>
      some ((s.setSlot idx { s.slots idx with keyValue := some (key, value) }).setPc c
        (.setNext prev idx))
  | .setNext prev idx =>
    some ((s.setSlot idx { s.slots idx with next := prev >>> 2 }).setPc c (.link prev idx))
  | .link prev idx =>
    let after := (idx <<< 2) % 2 ^ cfg.bits +
      (if slot = idx then BucketState.LINKED.val else prev &&& 3)
    if s.word slot = prev then
      some ((s.setWord slot (after % 2 ^ cfg.bits)).setPc c
        (if idx ≠ slot then .mark idx else .done idx true))
    else some (s.setPc c (.look (.again (s.word slot) idx)))
  | .mark idx =>
    some ((s.setWord idx (cfg.stateUpdate (s.word idx) .CONSTRUCTING .LINKED)).setPc c
      (.done idx true))
  | .discard idx existing =>
    some ((s.setSlot idx { s.slots idx with keyValue := none }).setPc c (.recycle idx existing))
  | .recycle idx existing =>
    some ((s.setWord idx (cfg.stateUpdate (s.word idx) .CONSTRUCTING .EMPTY)).setPc c
      (.done existing false))
  | .done _ _ => none
  | .threw => none

end State

section Runs

variable {ι K V : Type*} [DecidableEq ι] [DecidableEq K]

def StepOf (cfg : Config K) (calls : ι → Call K V) (c : ι) (s s' : State ι K V) : Prop :=
  ∃ rand, s.step cfg calls c rand = some s'

def Step (cfg : Config K) (calls : ι → Call K V) (s s' : State ι K V) : Prop :=
  ∃ c, StepOf cfg calls c s s'

abbrev Steps (cfg : Config K) (calls : ι → Call K V) : State ι K V → State ι K V → Prop :=
  Relation.ReflTransGen (Step cfg calls)

abbrev Reachable (cfg : Config K) (calls : ι → Call K V) (s : State ι K V) : Prop :=
  Steps cfg calls .start s

end Runs

namespace State

variable {ι K V : Type*}

def head (s : State ι K V) (b : Nat) : Nat := s.word b >>> 2

abbrev Follows (s : State ι K V) (i : Nat) (l : List Nat) : Prop :=
  Chain (fun j => (s.slots j).next) 0 i l

def keyAt (s : State ι K V) (i : Nat) : Option K := (s.slots i).keyValue.map Prod.fst

def Linked (cfg : Config K) (s : State ι K V) (i : Nat) (k : K) : Prop :=
  ∃ l, s.Follows (s.head (cfg.keyToSlotIdx k)) l ∧ i ∈ l ∧ s.keyAt i = some k

end State

namespace Pc

def owned : Pc → Option Nat
  | .look (.again _ idx) => some idx
  | .walk (.again _ idx) _ => some idx
  | .construct _ idx => some idx
  | .setNext _ idx => some idx
  | .link _ idx => some idx
  | .discard idx _ => some idx
  | .recycle idx _ => some idx
  | _ => none

def inserted : Pc → Option Nat
  | .mark idx => some idx
  | .done idx true => some idx
  | _ => none

end Pc

lemma and_three (w : Nat) : w &&& 3 = w % 4 := Nat.and_two_pow_sub_one_eq_mod w 2

namespace Config

variable {K : Type*} (cfg : Config K)

lemma allocationAttempt_lt (start tries rand : Nat) :
    cfg.allocationAttempt start tries rand < cfg.numSlots := by
  rw [allocationAttempt]
  split
  · rename_i h
    exact h.2
  · exact Nat.mod_lt _ cfg.positive

lemma two_pow_bits : 2 ^ cfg.bits = 4 * 2 ^ (cfg.bits - 2) := by
  have h : cfg.bits = 2 + (cfg.bits - 2) := by
    have := cfg.wide
    omega
  rw [h, Nat.pow_add, Nat.add_sub_cancel_left]

lemma stateUpdate_eq {w : Nat} {before : BucketState} (after : BucketState)
    (hw : w < 2 ^ cfg.bits) (hb : w % 4 = before.val) :
    cfg.stateUpdate w before after = w / 4 * 4 + after.val := by
  have hpow := cfg.two_pow_bits
  have ha : after.val < 4 := by cases after <;> decide
  have hsum : w + (2 ^ cfg.bits + after.val - before.val)
      = w / 4 * 4 + after.val + 2 ^ cfg.bits := by omega
  rw [stateUpdate, hsum, Nat.add_mod_right, Nat.mod_eq_of_lt (by omega)]

lemma link_word {idx t : Nat} (hidx : idx < cfg.numSlots) (ht : t < 4) :
    ((idx <<< 2) % 2 ^ cfg.bits + t) % 2 ^ cfg.bits = idx * 4 + t := by
  have hpow := cfg.two_pow_bits
  have hfits := cfg.fits
  rw [Nat.shiftLeft_eq, Nat.mod_eq_of_lt (a := idx * 2 ^ 2) (by omega), Nat.mod_eq_of_lt (by omega)]

end Config

namespace State

variable {ι K V : Type*}

lemma head_eq (s : State ι K V) (b : Nat) : s.head b = s.word b / 4 := by
  rw [head, Nat.shiftRight_eq_div_pow]

end State

namespace State

variable {ι K V : Type*} [DecidableEq ι] (s : State ι K V) (c d : ι) (p : Pc) (i j w : Nat)
  (slot : Slot K V)

@[simp] lemma setPc_slots : (s.setPc c p).slots = s.slots := rfl

@[simp] lemma setPc_word : (s.setPc c p).word i = s.word i := rfl

@[simp] lemma setPc_keyAt : (s.setPc c p).keyAt i = s.keyAt i := rfl

@[simp] lemma setPc_self : (s.setPc c p).pc c = p := if_pos rfl

variable {c d} in
lemma setPc_of_ne (h : d ≠ c) : (s.setPc c p).pc d = s.pc d := if_neg h

omit [DecidableEq ι]

lemma setSlot_self : (s.setSlot i slot).slots i = slot := if_pos rfl

variable {i j} in
lemma setSlot_of_ne (h : j ≠ i) : (s.setSlot i slot).slots j = s.slots j := if_neg h

@[simp] lemma setWord_next : ((s.setWord i w).slots j).next = (s.slots j).next := by
  by_cases h : j = i
  · subst h
    rw [setWord, setSlot_self]
  · rw [setWord, setSlot_of_ne _ _ h]

@[simp] lemma setWord_keyValue : ((s.setWord i w).slots j).keyValue = (s.slots j).keyValue := by
  by_cases h : j = i
  · subst h
    rw [setWord, setSlot_self]
  · rw [setWord, setSlot_of_ne _ _ h]

lemma setWord_word_self : (s.setWord i w).word i = w := by rw [word, setWord, setSlot_self]

variable {i j} in
lemma setWord_word_of_ne (h : j ≠ i) : (s.setWord i w).word j = s.word j := by
  rw [word, setWord, setSlot_of_ne _ _ h, word]

variable {slot} in
lemma setSlot_word (h : slot.headAndState = s.word i) : (s.setSlot i slot).word j = s.word j := by
  by_cases hj : j = i
  · subst hj
    rw [word, setSlot_self, h]
  · rw [word, setSlot_of_ne _ _ hj, word]

end State

section Moves

variable {ι K V : Type*} [DecidableEq ι]

inductive Move (cfg : Config K) (calls : ι → Call K V) (s : State ι K V) (c : ι) :
    State ι K V → Prop
  | startFind (hp : s.pc c = .idle) (hf : (calls c).construct = none) :
      Move cfg calls s c (s.setPc c (.look .search))
  | startInsert (hp : s.pc c = .idle) (hf : (calls c).construct.isSome) :
      Move cfg calls s c (s.setPc c .load)
  | load (hp : s.pc c = .load) :
      Move cfg calls s c
        (s.setPc c (.look (.first (s.word (cfg.keyToSlotIdx (calls c).key)))))
  | look {after : After} (hp : s.pc c = .look after) :
      Move cfg calls s c
        (s.setPc c (.walk after (s.head (cfg.keyToSlotIdx (calls c).key))))
  | notFound {after : After} (hp : s.pc c = .walk after 0) :
      Move cfg calls s c (s.setPc c (State.notFound after))
  | found {after : After} {i : Nat} (hp : s.pc c = .walk after i) (hi : i ≠ 0)
      (hk : s.keyAt i = some (calls c).key) :
      Move cfg calls s c (s.setPc c (State.found i after))
  | next {after : After} {i : Nat} (hp : s.pc c = .walk after i) (hi : i ≠ 0)
      (hk : s.keyAt i ≠ some (calls c).key) :
      Move cfg calls s c (s.setPc c (.walk after (s.slots i).next))
  | seen {prev tries i : Nat} (hp : s.pc c = .attempt prev tries) (hi : i < cfg.numSlots)
      (hw : s.word i % 4 = 0) :
      Move cfg calls s c (s.setPc c (.reserve prev tries i (s.word i)))
  | taken {prev tries : Nat} (hp : s.pc c = .attempt prev tries) :
      Move cfg calls s c (s.setPc c (.attempt prev (tries + 1)))
  | threw {prev tries : Nat} (hp : s.pc c = .attempt prev tries) :
      Move cfg calls s c (s.setPc c .threw)
  | lost {prev tries i seen : Nat} (hp : s.pc c = .reserve prev tries i seen) :
      Move cfg calls s c (s.setPc c (.attempt prev (tries + 1)))
  | reserve {prev tries i seen : Nat} (hp : s.pc c = .reserve prev tries i seen)
      (hw : s.word i = seen) :
      Move cfg calls s c
        ((s.setWord i (cfg.stateUpdate seen .EMPTY .CONSTRUCTING)).setPc c (.construct prev i))
  | construct {prev idx : Nat} {value : V} (hp : s.pc c = .construct prev idx) :
      Move cfg calls s c
        ((s.setSlot idx { s.slots idx with keyValue := some ((calls c).key, value) }).setPc c
          (.setNext prev idx))
  | setNext {prev idx : Nat} (hp : s.pc c = .setNext prev idx) :
      Move cfg calls s c
        ((s.setSlot idx { s.slots idx with next := prev >>> 2 }).setPc c (.link prev idx))
  | link {prev idx : Nat} (hp : s.pc c = .link prev idx)
      (hw : s.word (cfg.keyToSlotIdx (calls c).key) = prev) :
      Move cfg calls s c
        ((s.setWord (cfg.keyToSlotIdx (calls c).key)
          (((idx <<< 2) % 2 ^ cfg.bits + (if cfg.keyToSlotIdx (calls c).key = idx
            then BucketState.LINKED.val else prev &&& 3)) % 2 ^ cfg.bits)).setPc c
          (if idx ≠ cfg.keyToSlotIdx (calls c).key then .mark idx else .done idx true))
  | relook {prev idx : Nat} (hp : s.pc c = .link prev idx) :
      Move cfg calls s c
        (s.setPc c (.look (.again (s.word (cfg.keyToSlotIdx (calls c).key)) idx)))
  | mark {idx : Nat} (hp : s.pc c = .mark idx) :
      Move cfg calls s c
        ((s.setWord idx (cfg.stateUpdate (s.word idx) .CONSTRUCTING .LINKED)).setPc c
          (.done idx true))
  | discard {idx existing : Nat} (hp : s.pc c = .discard idx existing) :
      Move cfg calls s c
        ((s.setSlot idx { s.slots idx with keyValue := none }).setPc c (.recycle idx existing))
  | recycle {idx existing : Nat} (hp : s.pc c = .recycle idx existing) :
      Move cfg calls s c
        ((s.setWord idx (cfg.stateUpdate (s.word idx) .CONSTRUCTING .EMPTY)).setPc c
          (.done existing false))

variable [DecidableEq K] {cfg : Config K} {calls : ι → Call K V} {s s' : State ι K V} {c : ι}

lemma State.move_of_step {rand : Nat} (h : s.step cfg calls c rand = some s') :
    Move cfg calls s c s' := by
  unfold State.step at h
  cases hp : s.pc c with
  | idle =>
    cases hf : (calls c).construct with
    | none =>
      simp only [hp, hf, Option.some.injEq] at h
      exact h ▸ .startFind hp hf
    | some v =>
      simp only [hp, hf, Option.some.injEq] at h
      exact h ▸ .startInsert hp (by rw [hf]; rfl)
  | load =>
    simp only [hp, Option.some.injEq] at h
    exact h ▸ .load hp
  | look after =>
    simp only [hp, Option.some.injEq] at h
    exact h ▸ .look hp
  | walk after i =>
    simp only [hp] at h
    split at h
    case isTrue hi =>
      subst hi
      rw [Option.some.injEq] at h
      exact h ▸ .notFound hp
    case isFalse hi =>
      cases hkv : (s.slots i).keyValue with
      | none => simp only [hkv, reduceCtorEq] at h
      | some kv =>
        have hat : s.keyAt i = some kv.1 := by simp [State.keyAt, hkv]
        simp only [hkv] at h
        split at h
        case isTrue heq =>
          rw [Option.some.injEq] at h
          exact h ▸ .found hp hi (by rw [hat, heq])
        case isFalse hne =>
          rw [Option.some.injEq] at h
          exact h ▸ .next hp hi (by rw [hat]; exact fun he => hne (Option.some.inj he).symm)
  | attempt prev tries =>
    simp only [hp] at h
    split at h
    case isTrue =>
      split at h
      case isTrue hw =>
        rw [Option.some.injEq] at h
        refine h ▸ .seen hp (cfg.allocationAttempt_lt _ _ _) ?_
        exact (and_three _).symm.trans hw
      case isFalse =>
        rw [Option.some.injEq] at h
        exact h ▸ .taken hp
    case isFalse =>
      rw [Option.some.injEq] at h
      exact h ▸ .threw hp
  | reserve prev tries i seen =>
    simp only [hp] at h
    split at h
    case isTrue hw =>
      rw [Option.some.injEq] at h
      exact h ▸ .reserve hp hw
    case isFalse =>
      rw [Option.some.injEq] at h
      exact h ▸ .lost hp
  | construct prev idx =>
    cases hf : (calls c).construct with
    | none => simp only [hp, hf, reduceCtorEq] at h
    | some v =>
      simp only [hp, hf, Option.some.injEq] at h
      exact h ▸ .construct hp
  | setNext prev idx =>
    simp only [hp, Option.some.injEq] at h
    exact h ▸ .setNext hp
  | link prev idx =>
    simp only [hp] at h
    split at h
    case isTrue hw =>
      rw [Option.some.injEq] at h
      exact h ▸ .link hp hw
    case isFalse =>
      rw [Option.some.injEq] at h
      exact h ▸ .relook hp
  | mark idx =>
    simp only [hp, Option.some.injEq] at h
    exact h ▸ .mark hp
  | discard idx existing =>
    simp only [hp, Option.some.injEq] at h
    exact h ▸ .discard hp
  | recycle idx existing =>
    simp only [hp, Option.some.injEq] at h
    exact h ▸ .recycle hp
  | done | threw => simp only [hp, reduceCtorEq] at h

end Moves

end Acc.Thread.AtomicMap
