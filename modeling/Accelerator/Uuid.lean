import Mathlib

namespace Acc

open BitVec
open List hiding Vector

structure Uuid where
  timeLow : BitVec 32
  timeMid : BitVec 16
  timeHiAndVersion : BitVec 16
  clockSeq : BitVec 16
  node : Vector (BitVec 8) 6
  deriving DecidableEq, Repr

namespace Uuid

def uuidPack (uu : Uuid) : Vector (BitVec 8) 16 :=
  #v[(uu.timeLow >>> 24).setWidth 8, (uu.timeLow >>> 16).setWidth 8,
    (uu.timeLow >>> 8).setWidth 8, uu.timeLow.setWidth 8,
    (uu.timeMid >>> 8).setWidth 8, uu.timeMid.setWidth 8,
    (uu.timeHiAndVersion >>> 8).setWidth 8, uu.timeHiAndVersion.setWidth 8,
    (uu.clockSeq >>> 8).setWidth 8, uu.clockSeq.setWidth 8,
    uu.node[0], uu.node[1], uu.node[2], uu.node[3], uu.node[4], uu.node[5]]

def shiftIn (tmp : BitVec 32) (b : BitVec 8) : BitVec 32 := (tmp <<< 8) ||| b.setWidth 32

def uuidUnpack (p : Vector (BitVec 8) 16) : Uuid where
  timeLow := shiftIn (shiftIn (shiftIn (p[0].setWidth 32) p[1]) p[2]) p[3]
  timeMid := (shiftIn (p[4].setWidth 32) p[5]).setWidth 16
  timeHiAndVersion := (shiftIn (p[6].setWidth 32) p[7]).setWidth 16
  clockSeq := (shiftIn (p[8].setWidth 32) p[9]).setWidth 16
  node := #v[p[10], p[11], p[12], p[13], p[14], p[15]]

structure TimeVal where
  tvSec : Int
  tvUsec : Int
  deriving DecidableEq, Repr

namespace TimeVal

def before (tv last : TimeVal) : Bool :=
  tv.tvSec < last.tvSec || (tv.tvSec == last.tvSec && tv.tvUsec < last.tvUsec)

def Valid (tv : TimeVal) : Prop := 0 ≤ tv.tvUsec ∧ tv.tvUsec < 1000000

def usecs (tv : TimeVal) : Int := tv.tvSec * 1000000 + tv.tvUsec

end TimeVal

structure Env where
  hardware : Option (Vector (BitVec 8) 6)
  randomNode : Vector (BitVec 8) 6
  randomSeq : Nat → BitVec 16

structure Thread where
  adjustment : Int := 0
  last : TimeVal := ⟨0, 0⟩
  clockSeq : BitVec 16 := 0
  draws : Nat := 0
  nodeId : Option (Vector (BitVec 8) 6) := none
  num : Int := 0
  uu : Uuid := ⟨0, 0, 0, 0, Vector.replicate 6 0⟩
  lastTime : Int := 0

def Thread.initial : Thread := {}

def maxAdjustment : Int := 10

def tryAgain (t : Thread) : List TimeVal → Option (TimeVal × Thread × List TimeVal)
  | [] => none
  | tv :: rs =>
    if tv.before t.last then
      some (tv, { t with clockSeq := (t.clockSeq + 1) &&& 0x3FFF, adjustment := 0, last := tv }, rs)
    else if tv = t.last then
      if t.adjustment ≥ maxAdjustment then tryAgain t rs
      else some (tv, { t with adjustment := t.adjustment + 1 }, rs)
    else some (tv, { t with adjustment := 0, last := tv }, rs)

def start (env : Env) (t : Thread) (rs : List TimeVal) : Option (Thread × List TimeVal) :=
  if t.last = ⟨0, 0⟩ then
    match rs with
    | [] => none
    | tv :: rs => some ({ t with
        clockSeq := env.randomSeq t.draws &&& 0x3FFF, draws := t.draws + 1
        last := { tv with tvSec := tv.tvSec - 1 } }, rs)
  else some (t, rs)

def clockReg (tv : TimeVal) (adjustment : Int) : BitVec 64 :=
  BitVec.ofInt 64 (tv.tvUsec * 10 + adjustment) + BitVec.ofInt 64 tv.tvSec * 10000000#64 +
    ((0x01B21DD2#64 <<< 32) + 0x13814000#64)

def reserve (num : Option Int) (t : Thread) : Thread :=
  match num with
  | none => t
  | some n =>
    if n > 1 then
      let adjustment := t.adjustment + (n - 1)
      let usec := t.last.tvUsec + adjustment.tdiv 10
      { t with
        adjustment := adjustment.tmod 10
        last := ⟨t.last.tvSec + usec.tdiv 1000000, usec.tmod 1000000⟩ }
    else t

def getClock (env : Env) (num : Option Int) (t : Thread) (rs : List TimeVal) :
    Option ((BitVec 32 × BitVec 32 × BitVec 16) × Thread × List TimeVal) := do
  let (t, rs) ← start env t rs
  let (tv, t, rs) ← tryAgain t rs
  let reg := clockReg tv t.adjustment
  some (((reg >>> 32).setWidth 32, reg.setWidth 32, t.clockSeq), reserve num t, rs)

def initNode (env : Env) : Vector (BitVec 8) 6 :=
  match env.hardware with
  | some a => a
  | none => env.randomNode.set 0 (env.randomNode[0] ||| 0x01)

def fill (clockMid timeLow : BitVec 32) (clockSeq : BitVec 16) (node : Vector (BitVec 8) 6) : Uuid where
  timeLow
  timeMid := clockMid.setWidth 16
  timeHiAndVersion := (((clockMid >>> 16) &&& 0x0FFF) ||| 0x1000).setWidth 16
  clockSeq := clockSeq ||| 0x8000
  node

def internalUuidGenerateTime (env : Env) (num : Option Int) (t : Thread) (rs : List TimeVal) :
    Option (Vector (BitVec 8) 16 × Thread × List TimeVal) :=
  let node := t.nodeId.getD (initNode env)
  match getClock env num { t with nodeId := some node } rs with
  | none => none
  | some ((clockMid, timeLow, clockSeq), t, rs) =>
    some (uuidPack (fill clockMid timeLow clockSeq node), t, rs)

def next (uu : Uuid) : Uuid :=
  let uu := { uu with timeLow := uu.timeLow + 1 }
  if uu.timeLow = 0 then
    let uu := { uu with timeMid := uu.timeMid + 1 }
    if uu.timeMid = 0 then { uu with timeHiAndVersion := uu.timeHiAndVersion + 1 } else uu
  else uu

def uuidGenerateTime (env : Env) (now : Int) (t : Thread) (rs : List TimeVal) :
    Option (Vector (BitVec 8) 16 × Thread × List TimeVal) :=
  let num := if t.num > 0 ∧ now > t.lastTime + 1 then 0 else t.num
  let num := if num ≤ 0 then 0 else num
  if num > 0 then
    let uu := next t.uu
    some (uuidPack uu, { t with uu, num := num - 1 }, rs)
  else internalUuidGenerateTime env none { t with num } rs

structure Call where
  thread : Thread
  readings : List TimeVal
  after : Thread
  out : Vector (BitVec 8) 16

def calls (env : Env) : List Int → Thread → List TimeVal → List Call
  | [], _, _ => []
  | now :: nows, t, rs =>
    match uuidGenerateTime env now t rs with
    | none => []
    | some (out, t', rs') => ⟨t, rs, t', out⟩ :: calls env nows t' rs'

def Call.Carries (c : Call) : Prop :=
  c.thread.adjustment = maxAdjustment ∧
  ∃ tv, c.readings.find? (· ≠ c.thread.last) = some tv ∧ tv.usecs = c.thread.last.usecs + 1

lemma shiftIn_ushiftRight (x : BitVec 32) : shiftIn (x >>> 8) (x.setWidth 8) = x := by
  rw [shiftIn]
  apply eq_of_getLsbD_eq
  intro i hi
  by_cases h : i < 8
  · simp [h, hi]
  · have hadd : 8 + (i - 8) = i := by omega
    simp [h, hi, hadd]

lemma shiftIn_four (x : BitVec 32) :
    shiftIn (shiftIn (shiftIn (((x >>> 24).setWidth 8).setWidth 32) ((x >>> 16).setWidth 8))
      ((x >>> 8).setWidth 8)) (x.setWidth 8) = x := by
  have htop : ((x >>> 24).setWidth 8).setWidth 32 = x >>> 16 >>> 8 := by
    apply eq_of_toNat_eq
    simp only [toNat_setWidth, toNat_ushiftRight, Nat.shiftRight_eq_div_pow]
    omega
  have hmid : x >>> 16 = x >>> 8 >>> 8 := (shiftRight_add x 8 8)
  rw [htop, shiftIn_ushiftRight, hmid, shiftIn_ushiftRight, shiftIn_ushiftRight]

lemma shiftIn_two (x : BitVec 16) :
    (shiftIn (((x >>> 8).setWidth 8).setWidth 32) (x.setWidth 8)).setWidth 16 = x := by
  have htop : ((x >>> 8).setWidth 8).setWidth 32 = x.setWidth 32 >>> 8 := by
    apply eq_of_toNat_eq
    simp only [toNat_setWidth, toNat_ushiftRight, Nat.shiftRight_eq_div_pow]
    omega
  have hlow : x.setWidth 8 = (x.setWidth 32).setWidth 8 := by
    apply eq_of_toNat_eq
    simp only [toNat_setWidth]
    omega
  rw [htop, hlow, shiftIn_ushiftRight]
  apply eq_of_toNat_eq
  simp only [toNat_setWidth]
  omega

lemma uuidUnpack_uuidPack (uu : Uuid) : uuidUnpack (uuidPack uu) = uu := by
  obtain ⟨low, mid, hi, seq, node⟩ := uu
  have hnode : #v[node[0], node[1], node[2], node[3], node[4], node[5]] = node := by
    ext i hi : 1
    interval_cases i <;> rfl
  exact congr (congr (congr (congr (congrArg Uuid.mk (shiftIn_four low)) (shiftIn_two mid))
    (shiftIn_two hi)) (shiftIn_two seq)) hnode

lemma uuidPack_injective : Function.Injective uuidPack :=
  Function.LeftInverse.injective uuidUnpack_uuidPack

variable {node : Vector (BitVec 8) 6}

lemma setWidth_eq_of_fill {x y : BitVec 64} {seq seq' : BitVec 16} {node' : Vector (BitVec 8) 6}
    (h : fill ((x >>> 32).setWidth 32) (x.setWidth 32) seq node
      = fill ((y >>> 32).setWidth 32) (y.setWidth 32) seq' node') : x.setWidth 60 = y.setWidth 60 := by
  obtain ⟨hlow, hmid, hhi, -, -⟩ := Uuid.mk.inj h
  apply eq_of_getLsbD_eq
  intro i hi
  rw [getLsbD_setWidth, getLsbD_setWidth, decide_eq_true hi, Bool.true_and, Bool.true_and]
  by_cases h32 : i < 32
  · have hbit := congrArg (fun z => z.getLsbD i) hlow
    simpa [h32] using hbit
  by_cases h48 : i < 48
  · have hbit := congrArg (fun z => z.getLsbD (i - 32)) hmid
    have h₁ : i - 32 < 16 := by omega
    have h₂ : i - 32 < 32 := by omega
    have h₃ : 32 + (i - 32) = i := by omega
    simpa [h₁, h₂, h₃] using hbit
  have hbit := congrArg (fun z => z.getLsbD (i - 48)) hhi
  obtain ⟨j, hj, rfl⟩ : ∃ j < 12, i = 48 + j := ⟨i - 48, by omega, by omega⟩
  have hmask : ∀ j < 12, (0x0FFF : BitVec 32).getLsbD j = true ∧ (0x1000 : BitVec 32).getLsbD j = false := by
    decide
  obtain ⟨hand, hor⟩ := hmask j hj
  have h16 : j < 16 := by omega
  have h₁ : 16 + j < 32 := by omega
  have h₂ : 32 + (16 + j) = 48 + j := by omega
  rw [Nat.add_sub_cancel_left] at hbit
  simpa only [getLsbD_setWidth, getLsbD_or, getLsbD_and, hand, hor, h16, h₁, h₂,
    getLsbD_ushiftRight, decide_true, Bool.true_and, Bool.and_true, Bool.or_false] using hbit

def epoch : Int := 0x01B21DD213814000

lemma clockReg_eq (tv : TimeVal) (adjustment : Int) :
    clockReg tv adjustment = BitVec.ofInt 64 (10 * tv.usecs + adjustment + epoch) := by
  have hsec : BitVec.ofInt 64 tv.tvSec * 10000000#64 = BitVec.ofInt 64 (tv.tvSec * 10000000) := by
    rw [ofInt_mul]
    rfl
  have hepoch : (0x01B21DD2#64 <<< 32) + 0x13814000#64 = BitVec.ofInt 64 epoch := by decide
  rw [clockReg, hsec, hepoch, ← ofInt_add, ← ofInt_add]
  congr 1
  rw [TimeVal.usecs]
  ring

def encode (seq : BitVec 16) (node : Vector (BitVec 8) 6) (ticks : Int) : Vector (BitVec 8) 16 :=
  let reg := BitVec.ofInt 64 (ticks + epoch)
  uuidPack (fill ((reg >>> 32).setWidth 32) (reg.setWidth 32) seq node)

lemma eq_of_encode {seq : BitVec 16} {a b : Int}
    (h : encode seq node a = encode seq node b) (hab : a < b + 2 ^ 60) (hba : b < a + 2 ^ 60) :
    a = b := by
  have hlow := congrArg BitVec.toNat (setWidth_eq_of_fill (uuidPack_injective h))
  rw [toNat_setWidth, toNat_setWidth, toNat_ofInt, toNat_ofInt] at hlow
  omega

def Thread.ticks (t : Thread) : Int := 10 * t.last.usecs + t.adjustment

structure Readings (rs : List TimeVal) : Prop where
  valid : ∀ r ∈ rs, r.Valid
  ne_zero : ∀ r ∈ rs, r ≠ ⟨0, 0⟩
  sorted : rs.Pairwise fun r r' => r'.before r = false

variable {r r' tv : TimeVal}

lemma usecs_le (hr : r.Valid) (hr' : r'.Valid) (h : r'.before r = false) : r.usecs ≤ r'.usecs := by
  obtain ⟨hr₀, hr₁⟩ := hr
  obtain ⟨hr₀', hr₁'⟩ := hr'
  simp only [TimeVal.before, Bool.or_eq_false_iff, Bool.and_eq_false_iff, decide_eq_false_iff_not,
    beq_eq_false_iff_ne] at h
  rw [TimeVal.usecs, TimeVal.usecs]
  omega

lemma eq_of_usecs (hr : r.Valid) (hr' : r'.Valid) (h : r.usecs = r'.usecs) : r = r' := by
  obtain ⟨hr₀, hr₁⟩ := hr
  obtain ⟨hr₀', hr₁'⟩ := hr'
  rw [TimeVal.usecs, TimeVal.usecs] at h
  obtain ⟨sec, usec⟩ := r
  obtain ⟨sec', usec'⟩ := r'
  simp only [TimeVal.mk.injEq] at *
  omega

variable {t t' : Thread}

lemma tryAgain_cases {rs rs' : List TimeVal}
    (hrs : ∀ r ∈ rs, r.before t.last = false) (h : tryAgain t rs = some (tv, t', rs')) :
    (rs = tv :: rs' ∧ tv = t.last ∧ t.adjustment < maxAdjustment ∧
      t' = { t with adjustment := t.adjustment + 1 }) ∨
    (tv ≠ t.last ∧ t' = { t with adjustment := 0, last := tv } ∧ ∃ p, rs = p ++ tv :: rs' ∧
      rs.find? (· ≠ t.last) = some tv) := by
  induction rs with
  | nil => cases h
  | cons r rs ih =>
    rw [tryAgain, hrs r mem_cons_self, if_neg Bool.false_ne_true] at h
    by_cases hr : r = t.last
    · rw [if_pos hr] at h
      by_cases hadj : t.adjustment ≥ maxAdjustment
      · rw [if_pos hadj] at h
        obtain ⟨-, -, hlt, -⟩ | ⟨hne, ht, p, rfl, hfind⟩ :=
          ih (fun r hr => hrs r (mem_cons_of_mem _ hr)) h
        · exact absurd hlt (not_lt.mpr hadj)
        · refine .inr ⟨hne, ht, r :: p, rfl, ?_⟩
          rw [find?_cons_of_neg (by simpa using hr), hfind]
      · rw [if_neg hadj] at h
        cases h
        exact .inl ⟨rfl, hr, not_le.mp hadj, rfl⟩
    · rw [if_neg hr] at h
      cases h
      exact .inr ⟨hr, rfl, [], rfl, find?_cons_of_pos (by simpa using hr)⟩

structure Running (node : Vector (BitVec 8) 6) (t : Thread) (rs : List TimeVal) : Prop where
  num : t.num = 0
  node : t.nodeId = some node
  nonneg : 0 ≤ t.adjustment
  le_max : t.adjustment ≤ maxAdjustment
  valid : t.last.Valid
  le_last : ∀ r ∈ rs, r.before t.last = false
  readings : Readings rs

structure Advanced (node : Vector (BitVec 8) 6) (t : Thread) (rs : List TimeVal) (t' : Thread)
    (rs' : List TimeVal) : Prop where
  running : Running node t' rs'
  seq : t'.clockSeq = t.clockSeq
  mem : t'.last ∈ rs
  subset : ∀ r ∈ rs', r ∈ rs
  le : t.ticks ≤ t'.ticks
  eq_iff : t.ticks = t'.ticks ↔ t.adjustment = maxAdjustment ∧
    ∃ tv, rs.find? (· ≠ t.last) = some tv ∧ tv.usecs = t.last.usecs + 1

lemma advanced_of_tryAgain {rs rs' : List TimeVal} (h : Running node t rs) (htry : tryAgain t rs = some (tv, t', rs')) :
    t'.last = tv ∧ Advanced node t rs t' rs' := by
  have hnonneg := h.nonneg
  have hmax := h.le_max
  obtain ⟨rfl, rfl, hlt, rfl⟩ | ⟨hne, rfl, p, rfl, hfind⟩ := tryAgain_cases h.le_last htry
  · have hsorted := pairwise_cons.mp h.readings.sorted
    refine ⟨rfl, ?_⟩
    exact {
      running := {
        num := h.num
        node := h.node
        nonneg := by dsimp only; omega
        le_max := hlt
        valid := h.valid
        le_last := fun r hr => h.le_last r (mem_cons_of_mem _ hr)
        readings := {
          valid := fun r hr => h.readings.valid r (mem_cons_of_mem _ hr)
          ne_zero := fun r hr => h.readings.ne_zero r (mem_cons_of_mem _ hr)
          sorted := hsorted.2 } }
      seq := rfl
      mem := mem_cons_self
      subset := fun r hr => mem_cons_of_mem _ hr
      le := by simp only [Thread.ticks]; omega
      eq_iff := iff_of_false (by simp only [Thread.ticks]; omega) fun hc => hlt.ne hc.1 }
  have hsub : ∀ r ∈ rs', r ∈ p ++ tv :: rs' := fun r hr => by simp [hr]
  have htv : tv ∈ p ++ tv :: rs' := by simp
  have hvalid := h.readings.valid tv htv
  have hle := usecs_le h.valid hvalid (h.le_last tv htv)
  have hlt : t.last.usecs < tv.usecs := lt_of_le_of_ne hle fun e => hne (eq_of_usecs h.valid hvalid e).symm
  have hsorted := pairwise_cons.mp (pairwise_append.mp h.readings.sorted).2.1
  refine ⟨rfl, ?_⟩
  exact {
    running := {
      num := h.num
      node := h.node
      nonneg := le_refl _
      le_max := by dsimp only [maxAdjustment]; decide
      valid := hvalid
      le_last := hsorted.1
      readings := {
        valid := fun r hr => h.readings.valid r (hsub r hr)
        ne_zero := fun r hr => h.readings.ne_zero r (hsub r hr)
        sorted := hsorted.2 } }
    seq := rfl
    mem := htv
    subset := hsub
    le := by
      rw [maxAdjustment] at hmax
      simp only [Thread.ticks]
      omega
    eq_iff := by
      rw [maxAdjustment] at *
      simp only [Thread.ticks, hfind, Option.some.injEq, exists_eq_left']
      omega }

lemma uuidGenerateTime_eq (h : t.num = 0) (env : Env) (now : Int) (rs : List TimeVal) :
    uuidGenerateTime env now t rs = internalUuidGenerateTime env none t rs := by
  obtain ⟨adjustment, last, clockSeq, draws, nodeId, num, uu, lastTime⟩ := t
  cases h
  simp [uuidGenerateTime]

lemma internalUuidGenerateTime_eq (env : Env) {s : Thread} {rs qs : List TimeVal}
    (hstart : start env { t with nodeId := some (t.nodeId.getD (initNode env)) } rs = some (s, qs)) :
    internalUuidGenerateTime env none t rs = (tryAgain s qs).map fun (tv, t', rs') =>
        (encode t'.clockSeq (t.nodeId.getD (initNode env)) (10 * tv.usecs + t'.adjustment), t', rs') := by
  simp only [internalUuidGenerateTime, getClock, hstart, Option.bind_eq_bind, Option.bind_some]
  cases htry : tryAgain s qs with
  | none => rfl
  | some r =>
    simp only [Option.bind_some, reserve, Option.map_some, clockReg_eq]
    rfl

section Runs

variable {node : Vector (BitVec 8) 6} {env : Env}

variable {t t' : Thread} {rs rs' : List TimeVal} {out : Vector (BitVec 8) 16}

lemma step_ticks (h : Running node t rs) (hlast : t.last ≠ ⟨0, 0⟩) {now : Int}
    (hcall : uuidGenerateTime env now t rs = some (out, t', rs')) :
    out = encode t'.clockSeq node t'.ticks ∧ Advanced node t rs t' rs' := by
  have hnode : t.nodeId.getD (initNode env) = node := by rw [h.node, Option.getD_some]
  have hself : { t with nodeId := some (t.nodeId.getD (initNode env)) } = t := by
    rw [hnode, ← h.node]
  have hstart : start env { t with nodeId := some (t.nodeId.getD (initNode env)) } rs = some (t, rs) := by
    rw [hself, start.eq_def, if_neg hlast]
  rw [uuidGenerateTime_eq h.num, internalUuidGenerateTime_eq env hstart, Option.map_eq_some_iff] at hcall
  obtain ⟨⟨tv, s, qs⟩, htry, heq⟩ := hcall
  cases heq
  obtain ⟨rfl, hadvanced⟩ := advanced_of_tryAgain h htry
  exact ⟨by rw [hnode]; rfl, hadvanced⟩

lemma first_ticks (hrs : Readings rs) {now : Int}
    (hcall : uuidGenerateTime env now .initial rs = some (out, t', rs')) :
    out = encode t'.clockSeq (initNode env) t'.ticks ∧ Running (initNode env) t' rs' ∧ t'.last ∈ rs ∧
      ∀ r ∈ rs', r ∈ rs := by
  rw [uuidGenerateTime_eq rfl] at hcall
  cases rs with
  | nil => simp [internalUuidGenerateTime, getClock, start, Thread.initial] at hcall
  | cons r rs =>
    rw [internalUuidGenerateTime_eq env rfl, Option.map_eq_some_iff] at hcall
    obtain ⟨⟨tv, s, qs⟩, htry, heq⟩ := hcall
    cases heq
    have hsorted := pairwise_cons.mp hrs.sorted
    have hvalid := hrs.valid r mem_cons_self
    have hrunning : Running (initNode env) { Thread.initial with
        clockSeq := env.randomSeq 0 &&& 0x3FFF, draws := 1, nodeId := some (initNode env)
        last := { r with tvSec := r.tvSec - 1 } } rs := {
      num := rfl
      node := rfl
      nonneg := le_refl _
      le_max := by dsimp only [maxAdjustment]; decide
      valid := hvalid
      le_last := fun r' hr' => by
        have hbefore := hsorted.1 r' hr'
        simp only [TimeVal.before, Bool.or_eq_false_iff, Bool.and_eq_false_iff,
          decide_eq_false_iff_not, beq_eq_false_iff_ne] at hbefore ⊢
        omega
      readings := {
        valid := fun r hr => hrs.valid r (mem_cons_of_mem _ hr)
        ne_zero := fun r hr => hrs.ne_zero r (mem_cons_of_mem _ hr)
        sorted := hsorted.2 } }
    obtain ⟨rfl, hadvanced⟩ := advanced_of_tryAgain hrunning htry
    exact ⟨rfl, hadvanced.running, mem_cons_of_mem _ hadvanced.mem,
      fun r hr => mem_cons_of_mem _ (hadvanced.subset r hr)⟩

lemma nodup_cons_cons {x y : Int} {l : List Int} (h : (x :: y :: l).Pairwise (· ≤ ·)) :
    (x :: y :: l).Nodup ↔ x ≠ y ∧ (y :: l).Nodup := by
  obtain ⟨hx, hyl⟩ := pairwise_cons.mp h
  obtain ⟨hy, -⟩ := pairwise_cons.mp hyl
  rw [nodup_cons]
  refine and_congr_left fun _ => ⟨fun hmem e => hmem (e ▸ mem_cons_self), fun hne hmem => ?_⟩
  obtain e | hmem := mem_cons.mp hmem
  · exact hne e
  · exact hne (le_antisymm (hx y mem_cons_self) (hy x hmem))

variable (env) in
lemma calls_ticks (nows : List Int) (h : Running node t rs) (hlast : t.last ≠ ⟨0, 0⟩) :
    (∀ c ∈ calls env nows t rs, c.out = encode t.clockSeq node c.after.ticks ∧ c.after.last ∈ rs ∧
      0 ≤ c.after.adjustment ∧ c.after.adjustment ≤ maxAdjustment) ∧
    (t.ticks :: (calls env nows t rs).map (·.after.ticks)).Pairwise (· ≤ ·) ∧
    ((t.ticks :: (calls env nows t rs).map (·.after.ticks)).Nodup ↔
      ∀ c ∈ calls env nows t rs, ¬ c.Carries) := by
  induction nows generalizing t rs with
  | nil => simp [calls]
  | cons now nows ih =>
    cases hcall : uuidGenerateTime env now t rs with
    | none => simp [calls, hcall]
    | some r =>
      obtain ⟨out, t', rs'⟩ := r
      obtain ⟨hout, hadvanced⟩ := step_ticks h hlast hcall
      have hrunning := hadvanced.running
      obtain ⟨hcs, hsorted, hnodup⟩ :=
        ih hrunning (h.readings.ne_zero _ hadvanced.mem)
      rw [calls, hcall]
      simp only [map_cons, forall_mem_cons]
      have hsorted' : (t.ticks :: t'.ticks ::
          (calls env nows t' rs').map (·.after.ticks)).Pairwise (· ≤ ·) := by
        refine pairwise_cons.mpr ⟨?_, hsorted⟩
        intro k hk
        obtain rfl | hk := mem_cons.mp hk
        · exact hadvanced.le
        · exact hadvanced.le.trans ((pairwise_cons.mp hsorted).1 k hk)
      refine ⟨⟨⟨?_, hadvanced.mem, hrunning.nonneg, hrunning.le_max⟩, ?_⟩, hsorted', ?_⟩
      · rw [hout, hadvanced.seq]
      · intro c hc
        obtain ⟨hout, hmem, hadj⟩ := hcs c hc
        exact ⟨by rw [hout, hadvanced.seq], hadvanced.subset _ hmem, hadj⟩
      · rw [nodup_cons_cons hsorted', hnodup]
        exact and_congr_left fun _ => not_congr hadvanced.eq_iff

end Runs

def Spans (rs : List TimeVal) : Prop := ∀ r ∈ rs, ∀ r' ∈ rs, 10 * r.usecs + 10 < 10 * r'.usecs + 2 ^ 60

theorem uuids_nodup_iff (env : Env) (nows : List Int) (rs : List TimeVal) (hrs : Readings rs)
    (hspans : Spans rs) :
    ((calls env nows .initial rs).map Call.out).Nodup ↔
      ∀ c ∈ calls env nows .initial rs, ¬ c.Carries := by
  cases nows with
  | nil => simp [calls]
  | cons now nows =>
    cases hcall : uuidGenerateTime env now .initial rs with
    | none => simp [calls, hcall]
    | some r =>
      obtain ⟨out, t, qs⟩ := r
      obtain ⟨hout, hrunning, hmem, hsubset⟩ := first_ticks hrs hcall
      obtain ⟨hcs, -, hnodup⟩ := calls_ticks env nows hrunning (hrs.ne_zero _ hmem)
      rw [calls, hcall]
      simp only [map_cons, forall_mem_cons]
      have houts : out :: (calls env nows t qs).map Call.out =
          (t.ticks :: (calls env nows t qs).map (·.after.ticks)).map
            (encode t.clockSeq (initNode env)) := by
        rw [map_cons, map_map, hout]
        exact congrArg _ (map_congr_left fun c hc => (hcs c hc).1)
      have hticks : ∀ k ∈ t.ticks :: (calls env nows t qs).map (·.after.ticks),
          ∃ r ∈ rs, 10 * r.usecs ≤ k ∧ k ≤ 10 * r.usecs + maxAdjustment := by
        intro k hk
        obtain rfl | hk := mem_cons.mp hk
        · exact ⟨t.last, hmem, le_add_of_nonneg_right hrunning.nonneg, by
            exact add_le_add_right hrunning.le_max _⟩
        · obtain ⟨c, hc, rfl⟩ := mem_map.mp hk
          obtain ⟨-, hlast, hnonneg, hle⟩ := hcs c hc
          exact ⟨c.after.last, hsubset _ hlast, le_add_of_nonneg_right hnonneg, by
            exact add_le_add_right hle _⟩
      have hfirst : ¬ (⟨.initial, rs, t, out⟩ : Call).Carries := fun h => by cases h.1
      rw [houts, and_iff_right hfirst, ← hnodup]
      refine ⟨List.Nodup.of_map _, List.Nodup.map_on ?_⟩
      intro k hk k' hk' heq
      obtain ⟨r, hr, hlo, hhi⟩ := hticks k hk
      obtain ⟨r', hr', hlo', hhi'⟩ := hticks k' hk'
      have hspan := hspans r hr r' hr'
      have hspan' := hspans r' hr' r hr
      rw [maxAdjustment] at hhi hhi'
      exact eq_of_encode heq (by omega) (by omega)

def stands (n : Nat) : List TimeVal := List.replicate n ⟨1, 0⟩ ++ [⟨1, 1⟩]

lemma readings_stands (n : Nat) : Readings (stands n) := by
  have hmem : ∀ r ∈ stands n, r = ⟨1, 0⟩ ∨ r = ⟨1, 1⟩ := by
    intro r hr
    obtain hr | hr := mem_append.mp hr
    · exact .inl (eq_of_mem_replicate hr)
    · exact .inr (mem_singleton.mp hr)
  constructor
  · intro r hr
    obtain rfl | rfl := hmem r hr <;> simp [TimeVal.Valid]
  · intro r hr
    obtain rfl | rfl := hmem r hr <;> simp
  refine pairwise_append.mpr ⟨?_, pairwise_singleton _ _, ?_⟩
  · exact pairwise_replicate.mpr (.inr rfl)
  · intro r hr r' hr'
    rw [eq_of_mem_replicate hr, mem_singleton.mp hr']
    rfl

lemma spans_stands (n : Nat) : Spans (stands n) := by
  have hmem : ∀ r ∈ stands n, 1000000 ≤ r.usecs ∧ r.usecs ≤ 1000001 := by
    intro r hr
    obtain hr | hr := mem_append.mp hr
    · rw [eq_of_mem_replicate hr]
      decide
    · rw [mem_singleton.mp hr]
      decide
  intro r hr r' hr'
  obtain ⟨hlo, hhi⟩ := hmem r hr
  obtain ⟨hlo', hhi'⟩ := hmem r' hr'
  omega

def zeros : Env := ⟨none, Vector.replicate 6 0, fun _ => 0⟩

theorem uuids_nodup_iff_three :
    ((calls zeros [0, 0, 0, 0] .initial (stands 4)).map Call.out).Nodup ↔
      ∀ c ∈ calls zeros [0, 0, 0, 0] .initial (stands 4), ¬ c.Carries :=
  uuids_nodup_iff zeros [0, 0, 0, 0] (stands 4) (readings_stands 4) (spans_stands 4)

theorem twelfth_uuid_eq_eleventh :
    Readings (stands 12) ∧ Spans (stands 12) ∧
    ∃ a b, (calls zeros (List.replicate 12 0) .initial (stands 12))[10]? = some a ∧
      (calls zeros (List.replicate 12 0) .initial (stands 12))[11]? = some b ∧ a.out = b.out :=
  ⟨readings_stands 12, spans_stands 12, _, _, rfl, rfl, by decide⟩

end Uuid

end Acc
