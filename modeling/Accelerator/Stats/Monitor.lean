import Mathlib

namespace Acc.Stats.Monitor

open Option Function List

inductive MonitorType
  | non
  | cnt
  | avg
  | min
  | max
  | sum
  deriving DecidableEq, Repr

structure MonitorValue where
  isset : Bool
  count : BitVec 32
  value : BitVec 64
  deriving DecidableEq, Repr

inductive AddPc
  | begin
  | body
  | addValue
  | update (prev : BitVec 64)
  | done
  deriving DecidableEq, Repr

inductive DumpPc
  | idle
  | isSet (key : Nat)
  | value (key : Nat)
  | divide (key : Nat) (n : BitVec 32)
  | resetIsset (key : Nat)
  | resetCount (key : Nat)
  | resetValue (key : Nat)
  deriving DecidableEq, Repr

structure Call where
  key : Nat
  value : BitVec 64

structure Setup (ι : Type*) where
  kMax : Nat
  getType : Nat → MonitorType
  call : ι → Call

structure State (ι : Type*) where
  mvalues : Nat → MonitorValue
  pc : ι → AddPc
  dumper : DumpPc
  data : Nat → List Int

def MonitorType.counts : MonitorType → Bool
  | .cnt | .sum => true
  | _ => false

def init (type : MonitorType) : MonitorValue := ⟨type.counts, 0, 0⟩

def MonitorValue.get (type : MonitorType) (m : MonitorValue) : BitVec 64 :=
  match type with
  | .cnt => m.count.signExtend 64
  | .avg => if m.count ≠ 0 then m.value.sdiv (m.count.signExtend 64) else 0
  | .min | .max | .sum => m.value
  | .non => 0

def update (before : BitVec 64 → BitVec 64 → Bool) (value prev : BitVec 64) (fails : Bool)
    (m : MonitorValue) : MonitorValue × AddPc :=
  if before prev value then
    if m.value = prev ∧ fails = false then ({ m with value := value }, .done)
    else (m, .update m.value)
  else (m, .done)

def add (type : MonitorType) (value : BitVec 64) (fails : Bool) (m : MonitorValue) :
    AddPc → Option (MonitorValue × AddPc)
  | .begin => some ({ m with isset := true }, .body)
  | .body =>
    match type with
    | .cnt | .avg => some ({ m with count := m.count + 1 }, .addValue)
    | .sum => some ({ m with value := m.value + value }, .done)
    | .min | .max => some (m, .update m.value)
    | .non => some (m, .done)
  | .addValue => some ({ m with value := m.value + value }, .done)
  | .update prev =>
    match type with
    | .min => some (update (fun prev value => value.slt prev) value prev fails m)
    | _ => some (update (fun prev value => prev.slt value) value prev fails m)
  | .done => none

section Steps

variable {ι : Type*} (setup : Setup ι)

def State.put (s : State ι) (key : Nat) (m : MonitorValue) : State ι :=
  { s with mvalues := Function.update s.mvalues key m }

def State.dump (s : State ι) (key : Nat) (v : BitVec 64) : State ι :=
  { s with data := Function.update s.data key (s.data key ++ [v.toInt]), dumper := .resetIsset key }

def dump (s : State ι) : State ι :=
  match s.dumper with
  | .idle => { s with dumper := .isSet 0 }
  | .isSet key =>
    if key < setup.kMax then
      if (s.mvalues key).isset then { s with dumper := .value key }
      else { s with dumper := .isSet (key + 1) }
    else { s with dumper := .idle }
  | .value key =>
    match setup.getType key with
    | .cnt => s.dump key ((s.mvalues key).count.signExtend 64)
    | .avg =>
      if (s.mvalues key).count ≠ 0 then { s with dumper := .divide key (s.mvalues key).count }
      else s.dump key 0
    | .min | .max | .sum => s.dump key (s.mvalues key).value
    | .non => s.dump key 0
  | .divide key n => s.dump key ((s.mvalues key).value.sdiv (n.signExtend 64))
  | .resetIsset key =>
    { s.put key { s.mvalues key with isset := (setup.getType key).counts } with
      dumper := .resetCount key }
  | .resetCount key =>
    { s.put key { s.mvalues key with count := 0 } with dumper := .resetValue key }
  | .resetValue key =>
    { s.put key { s.mvalues key with value := 0 } with dumper := .isSet (key + 1) }

inductive Actor (ι : Type*)
  | call (c : ι) (fails : Bool)
  | dumper

def step [DecidableEq ι] (s : State ι) : Actor ι → Option (State ι)
  | .call c fails =>
    let key := (setup.call c).key
    (add (setup.getType key) (setup.call c).value fails (s.mvalues key) (s.pc c)).map fun r =>
      { s.put key r.1 with pc := Function.update s.pc c r.2 }
  | .dumper => some (dump setup s)

def start : State ι := ⟨fun key => init (setup.getType key), fun _ => .begin, .idle, fun _ => []⟩

def Runs [DecidableEq ι] : State ι → State ι → Prop :=
  Relation.ReflTransGen fun s s' => ∃ a, step setup s a = some s'

def DumpPc.holds (type : MonitorType) (key : Nat) : DumpPc → Bool
  | .resetIsset k | .resetCount k => k == key
  | .resetValue k => k == key && type != .cnt
  | _ => false

def Setup.sample (c : ι) : Int :=
  match setup.getType (setup.call c).key with
  | .cnt => 1
  | _ => (setup.call c).value.toInt

def Setup.total (calls : List ι) (key : Nat) : Int :=
  ((calls.filter fun c => (setup.call c).key == key).map setup.sample).sum

def Timely (s : State ι) : Actor ι → Prop
  | .call c _ =>
    let key := (setup.call c).key
    let m := s.mvalues key
    s.pc c = .body →
      match setup.getType key with
      | .cnt => s.dumper.holds .cnt key = false ∧ (m.count + 1).toInt = m.count.toInt + 1
      | .sum => s.dumper.holds .sum key = false ∧
          (m.value + (setup.call c).value).toInt = m.value.toInt + (setup.call c).value.toInt
      | _ => True
  | .dumper => True

def TimelyRuns [DecidableEq ι] : State ι → State ι → Prop :=
  Relation.ReflTransGen fun s s' => ∃ a, Timely setup s a ∧ step setup s a = some s'

def AddPc.counted : AddPc → Bool
  | .begin | .body => false
  | _ => true

def AddPc.Fits (type : MonitorType) : AddPc → Prop
  | .addValue => type = .cnt ∨ type = .avg
  | .update _ => type = .min ∨ type = .max
  | _ => True

def Balanced (s : State ι) (calls : List ι) (key : Nat) : Prop :=
  (s.data key).sum + (if s.dumper.holds (setup.getType key) key then 0
    else ((s.mvalues key).get (setup.getType key)).toInt) = setup.total calls key

structure Inv (s : State ι) (calls : List ι) : Prop where
  nodup : calls.Nodup
  mem : ∀ c, c ∈ calls ↔ (s.pc c).counted = true
  fits : ∀ c, (s.pc c).Fits (setup.getType (setup.call c).key)
  divides : ∀ key n, s.dumper = .divide key n → setup.getType key = .avg
  balanced : ∀ key, (setup.getType key).counts = true → Balanced setup s calls key

end Steps

section Runs

variable {ι : Type*} {setup : Setup ι} {s s' : State ι} {calls : List ι}

lemma total_cons (c : ι) (calls : List ι) (key : Nat) : setup.total (c :: calls) key =
      (if (setup.call c).key = key then setup.sample c else 0) + setup.total calls key := by
  by_cases hkey : (setup.call c).key = key
  · simp [Setup.total, hkey]
  · simp [Setup.total, hkey]

variable {key k : Nat}

lemma Balanced.of_get (h : Balanced setup s calls key) (hdata : s'.data key = s.data key)
    (hholds : s'.dumper.holds (setup.getType key) key = s.dumper.holds (setup.getType key) key)
    (hget : (s'.mvalues key).get (setup.getType key) = (s.mvalues key).get (setup.getType key)) :
    Balanced setup s' calls key := by
  rw [Balanced, hdata, hholds, hget]
  exact h

variable {type : MonitorType} {fails : Bool} {m m' : MonitorValue} {p p' : AddPc}

lemma add_quiet {value : BitVec 64} (hp : p ≠ .body) (hfits : p.Fits type)
    (h : add type value fails m p = some (m', p')) :
    p'.counted = p.counted ∧ p'.Fits type ∧ (type.counts = true → m'.get type = m.get type) := by
  cases p with
  | begin =>
    cases h
    exact ⟨rfl, trivial, fun _ => by cases type <;> rfl⟩
  | body => exact absurd rfl hp
  | addValue =>
    cases h
    refine ⟨rfl, trivial, ?_⟩
    intro hcounts
    rcases hfits with rfl | rfl
    · rfl
    · cases hcounts
  | update prev =>
    have hloop : ∀ before, (update before value prev fails m).2.counted = true ∧
        (update before value prev fails m).2.Fits type := by
      intro before
      rw [update]
      split
      · split
        · exact ⟨rfl, trivial⟩
        · exact ⟨rfl, hfits⟩
      · exact ⟨rfl, trivial⟩
    have hcounts : type.counts ≠ true := by
      rcases hfits with rfl | rfl
      · nofun
      · nofun
    rcases hfits with rfl | rfl
    · rw [add, Option.some.injEq] at h
      obtain ⟨hcounted, hfit⟩ := hloop fun prev value => value.slt prev
      rw [h] at hcounted hfit
      exact ⟨hcounted, hfit, fun hc => absurd hc hcounts⟩
    rw [add, Option.some.injEq] at h
    · obtain ⟨hcounted, hfit⟩ := hloop fun prev value => prev.slt value
      rw [h] at hcounted hfit
      exact ⟨hcounted, hfit, fun hc => absurd hc hcounts⟩
    · nofun
  | done => cases h

lemma add_body {value : BitVec 64} (h : add type value fails m .body = some (m', p')) :
    p'.counted = true ∧ p'.Fits type ∧ (type = .cnt → m'.count = m.count + 1) ∧
      (type = .sum → m'.value = m.value + value) := by
  cases type with
  | non => cases h; exact ⟨rfl, trivial, nofun, nofun⟩
  | cnt => cases h; exact ⟨rfl, .inl rfl, fun _ => rfl, nofun⟩
  | avg | max => cases h; exact ⟨rfl, .inr rfl, nofun, nofun⟩
  | min => cases h; exact ⟨rfl, .inl rfl, nofun, nofun⟩
  | sum => cases h; exact ⟨rfl, trivial, nofun, fun _ => rfl⟩

lemma toInt_signExtend (n : BitVec 32) : (n.signExtend 64).toInt = n.toInt :=
  BitVec.toInt_signExtend_of_le (by decide)

lemma put_of_ne (h : key ≠ k) (s : State ι) (m : MonitorValue) :
    (s.put k m).mvalues key = s.mvalues key := update_of_ne h _ _

lemma put_self (s : State ι) (k : Nat) (m : MonitorValue) : (s.put k m).mvalues k = m :=
  update_self ..

lemma balanced_sample [DecidableEq ι] {c : ι}
    (hbody : s.pc c = .body) (htimely : Timely setup s (.call c fails))
    (hadd : add (setup.getType (setup.call c).key) (setup.call c).value fails
      (s.mvalues (setup.call c).key) .body = some (m, p))
    (hcounts : (setup.getType (setup.call c).key).counts = true)
    (h : Balanced setup s calls (setup.call c).key) :
    Balanced setup { s.put (setup.call c).key m with pc := Function.update s.pc c p } (c :: calls)
      (setup.call c).key := by
  obtain ⟨-, -, hcount, hsum⟩ := add_body hadd
  have hgood := htimely hbody
  rw [Balanced, total_cons, if_pos rfl, put_self, Setup.sample]
  rw [Balanced] at h
  cases htype : setup.getType (setup.call c).key with
  | cnt =>
    simp only [htype] at hgood h ⊢
    rw [hgood.1] at h
    rw [MonitorValue.get, toInt_signExtend] at h ⊢
    rw [hcount htype, hgood.2]
    show (s.data _).sum + (if s.dumper.holds _ _ = true then _ else _) = _
    rw [hgood.1]
    simp only [Bool.false_eq_true, if_false] at h ⊢
    omega
  | sum =>
    simp only [htype] at hgood h ⊢
    rw [hgood.1] at h
    rw [MonitorValue.get] at h ⊢
    rw [hsum htype, hgood.2]
    show (s.data _).sum + (if s.dumper.holds _ _ = true then _ else _) = _
    rw [hgood.1]
    simp only [Bool.false_eq_true, if_false] at h ⊢
    omega
  | non | avg | min | max => rw [htype] at hcounts; cases hcounts

lemma Inv.call [DecidableEq ι] (h : Inv setup s calls) {c : ι}
    (htimely : Timely setup s (.call c fails)) (hstep : step setup s (.call c fails) = some s') :
    ∃ calls', Inv setup s' calls' := by
  rw [step, map_eq_some_iff] at hstep
  obtain ⟨⟨m, p⟩, hadd, rfl⟩ := hstep
  have hfits := h.fits c
  have hpc : ∀ d, d ≠ c → Function.update s.pc c p d = s.pc d :=
    fun d hd => update_of_ne hd _ _
  have hallfit : p.Fits (setup.getType (setup.call c).key) →
      ∀ d, (Function.update s.pc c p d).Fits (setup.getType (setup.call d).key) := by
    intro hp d
    by_cases hd : d = c
    · rw [hd, update_self]
      exact hp
    · rw [hpc d hd]
      exact h.fits d
  by_cases hbody : s.pc c = .body
  · rw [hbody] at hadd
    obtain ⟨hcounted, hfit, -, -⟩ := add_body hadd
    have hnew : c ∉ calls := by
      intro hmem
      have hc := (h.mem c).mp hmem
      rw [hbody] at hc
      cases hc
    refine ⟨c :: calls, nodup_cons.mpr ⟨hnew, h.nodup⟩, ?_, hallfit hfit, h.divides, ?_⟩
    · intro d
      by_cases hd : d = c
      · rw [hd]
        simp [hcounted]
      · simp [hd, h.mem d]
    intro key hkey
    by_cases hk : key = (setup.call c).key
    · rw [hk] at hkey ⊢
      exact balanced_sample hbody htimely hadd hkey (h.balanced _ hkey)
    · have hbal := h.balanced key hkey
      rw [Balanced, total_cons, if_neg (Ne.symm hk), zero_add, put_of_ne hk]
      exact hbal
  obtain ⟨hcounted, hfit, hget⟩ := add_quiet hbody hfits hadd
  refine ⟨calls, h.nodup, ?_, hallfit hfit, h.divides, ?_⟩
  · intro d
    by_cases hd : d = c
    · rw [hd, h.mem c]
      simp [hcounted]
    · simp [hd, h.mem d]
  intro key hkey
  refine (h.balanced key hkey).of_get rfl rfl ?_
  by_cases hk : key = (setup.call c).key
  · rw [hk] at hkey ⊢
    rw [put_self]
    exact hget hkey
  · rw [put_of_ne hk]

lemma counts_cases (h : type.counts = true) : type = .cnt ∨ type = .sum := by
  cases type with
  | cnt => exact .inl rfl
  | sum => exact .inr rfl
  | non | avg | min | max => cases h

lemma holds_of_ne (h : key ≠ k) :
    (DumpPc.resetIsset k).holds type key = false ∧ (DumpPc.resetCount k).holds type key = false ∧
      (DumpPc.resetValue k).holds type key = false := by
  have hne : (k == key) = false := by simpa using Ne.symm h
  simp [DumpPc.holds, hne]

lemma dump_data_of_ne (h : key ≠ k) (s : State ι) (v : BitVec 64) :
    (s.dump k v).data key = s.data key := update_of_ne h _ _

lemma balanced_dump_of_ne (h : Balanced setup s calls key) (hk : key ≠ k)
    (hbefore : s.dumper.holds (setup.getType key) key = false) (v : BitVec 64) :
    Balanced setup (s.dump k v) calls key :=
  h.of_get (dump_data_of_ne hk s v) ((holds_of_ne hk).1.trans hbefore.symm) rfl

lemma balanced_dump_self (h : Balanced setup s calls key)
    (hbefore : s.dumper.holds (setup.getType key) key = false) {v : BitVec 64}
    (hv : v = (s.mvalues key).get (setup.getType key)) : Balanced setup (s.dump key v) calls key := by
  rw [Balanced, hbefore, if_neg Bool.false_ne_true] at h
  have hholds : (s.dump key v).dumper.holds (setup.getType key) key = true := by
    simp [State.dump, DumpPc.holds]
  have hdata : (s.dump key v).data key = s.data key ++ [v.toInt] := update_self ..
  rw [Balanced, hholds, if_pos rfl, hdata, sum_append, sum_singleton, add_zero, hv]
  exact h

lemma balanced_put_self {d : DumpPc} : Balanced setup { s.put key m with dumper := d } calls key ↔
      (s.data key).sum + (if d.holds (setup.getType key) key then 0
        else (m.get (setup.getType key)).toInt) = setup.total calls key := by
  rw [Balanced, put_self]
  exact Iff.rfl

lemma Balanced.put_of_ne (h : Balanced setup s calls key) (hk : key ≠ k) {d : DumpPc}
    (hholds : d.holds (setup.getType key) key = s.dumper.holds (setup.getType key) key) :
    Balanced setup { s.put k m with dumper := d } calls key :=
  h.of_get rfl hholds (congrArg _ (Monitor.put_of_ne hk s m))

lemma Inv.dump (h : Inv setup s calls) : Inv setup (dump setup s) calls := by
  have hpc : (Monitor.dump setup s).pc = s.pc := by
    rw [Monitor.dump]
    repeat' split
    all_goals rfl
  have hdivides : ∀ key n, (Monitor.dump setup s).dumper = .divide key n →
      setup.getType key = .avg := by
    intro key n
    rw [Monitor.dump]
    repeat' split
    all_goals intro hd
    all_goals cases hd
    assumption
  refine ⟨h.nodup, fun c => by rw [hpc]; exact h.mem c, fun c => by rw [hpc]; exact h.fits c,
    hdivides, ?_⟩
  intro key hkey
  have hbal := h.balanced key hkey
  have htype := counts_cases hkey
  cases hd : s.dumper with
  | idle =>
    rw [Monitor.dump, hd]
    exact hbal.of_get rfl (by rw [hd]; rfl) rfl
  | isSet k =>
    rw [Monitor.dump, hd]
    dsimp only
    split
    · split
      · exact hbal.of_get rfl (by rw [hd]; rfl) rfl
      · exact hbal.of_get rfl (by rw [hd]; rfl) rfl
    · exact hbal.of_get rfl (by rw [hd]; rfl) rfl
  | value k =>
    have hbefore : s.dumper.holds (setup.getType key) key = false := by rw [hd]; rfl
    rw [Monitor.dump, hd]
    dsimp only
    by_cases hk : key = k
    · subst hk
      rcases htype with ht | ht
      · rw [ht]
        exact balanced_dump_self hbal hbefore (by rw [ht]; rfl)
      · rw [ht]
        exact balanced_dump_self hbal hbefore (by rw [ht]; rfl)
    cases setup.getType k with
    | avg =>
      dsimp only
      split
      · exact hbal.of_get rfl (by rw [hbefore]; rfl) rfl
      · exact balanced_dump_of_ne hbal hk hbefore _
    | _ => exact balanced_dump_of_ne hbal hk hbefore _
  | divide k n =>
    have hbefore : s.dumper.holds (setup.getType key) key = false := by rw [hd]; rfl
    have hk : key ≠ k := by
      rintro rfl
      rw [h.divides key n hd] at hkey
      cases hkey
    rw [Monitor.dump, hd]
    exact balanced_dump_of_ne hbal hk hbefore _
  | resetIsset k =>
    rw [Monitor.dump, hd]
    by_cases hk : key = k
    · subst hk
      rw [Balanced, hd] at hbal
      rw [balanced_put_self, ← hbal]
      simp [DumpPc.holds]
    · exact hbal.put_of_ne hk (by rw [hd, (holds_of_ne hk).1]; exact (holds_of_ne hk).2.1)
  | resetCount k =>
    rw [Monitor.dump, hd]
    by_cases hk : key = k
    · subst hk
      rw [Balanced, hd] at hbal
      rw [balanced_put_self, ← hbal]
      rcases htype with ht | ht
      · simp [ht, DumpPc.holds, MonitorValue.get]
      · simp [ht, DumpPc.holds]
    · exact hbal.put_of_ne hk (by rw [hd, (holds_of_ne hk).2.1]; exact (holds_of_ne hk).2.2)
  | resetValue k =>
    rw [Monitor.dump, hd]
    by_cases hk : key = k
    · subst hk
      rw [Balanced, hd] at hbal
      rw [balanced_put_self, ← hbal]
      rcases htype with ht | ht
      · simp [ht, DumpPc.holds, MonitorValue.get]
      · simp [ht, DumpPc.holds, MonitorValue.get]
    · exact hbal.put_of_ne hk (by rw [hd, (holds_of_ne hk).2.2]; rfl)

lemma inv_start : Inv setup (start setup) [] where
  nodup := nodup_nil
  mem := fun c => ⟨fun h => absurd h not_mem_nil, fun h => nomatch h⟩
  fits := fun _ => trivial
  divides := fun _ _ h => nomatch h
  balanced := by
    intro key hkey
    rcases counts_cases hkey with ht | ht
    · simp [Balanced, start, DumpPc.holds, init, ht, MonitorValue.get, Setup.total]
    · simp [Balanced, start, DumpPc.holds, init, ht, MonitorValue.get, Setup.total]

variable [DecidableEq ι]

lemma Inv.step (h : Inv setup s calls) {a : Actor ι} (htimely : Timely setup s a)
    (hstep : step setup s a = some s') : ∃ calls', Inv setup s' calls' := by
  cases a with
  | call c fails => exact h.call htimely hstep
  | dumper =>
    cases hstep
    exact ⟨calls, h.dump⟩

lemma inv_runs (h : TimelyRuns setup (start setup) s) : ∃ calls, Inv setup s calls := by
  induction h with
  | refl => exact ⟨[], inv_start⟩
  | tail _ hstep ih =>
    obtain ⟨calls, hinv⟩ := ih
    obtain ⟨a, htimely, hstep⟩ := hstep
    exact hinv.step htimely hstep

structure AtRest (setup : Setup ι) (s : State ι) (key : Nat) : Prop where
  calls : ∀ c, s.pc c = .begin ∨ s.pc c = .done
  cleared : s.dumper.holds (setup.getType key) key = false

theorem samples_conserved (setup : Setup ι) {s : State ι} (hrun : TimelyRuns setup (start setup) s)
    {key : Nat} (hkey : setup.getType key = .cnt ∨ setup.getType key = .sum)
    (hrest : AtRest setup s key) {finished : List ι} (hnodup : finished.Nodup)
    (hmem : ∀ c, c ∈ finished ↔ s.pc c = .done) :
    (s.data key).sum + ((s.mvalues key).get (setup.getType key)).toInt =
      setup.total finished key := by
  obtain ⟨calls, hinv⟩ := inv_runs hrun
  have hcounts : (setup.getType key).counts = true := by
    rcases hkey with h | h
    · rw [h]
      rfl
    · rw [h]
      rfl
  have hbal := hinv.balanced key hcounts
  rw [Balanced, hrest.cleared, if_neg Bool.false_ne_true] at hbal
  have hperm : calls.Perm finished := by
    refine (perm_ext_iff_of_nodup hinv.nodup hnodup).mpr ?_
    intro c
    rw [hinv.mem c, hmem c]
    rcases hrest.calls c with hc | hc
    · rw [hc]
      exact ⟨nofun, nofun⟩
    · rw [hc]
      exact ⟨fun _ => rfl, fun _ => rfl⟩
  rw [hbal, Setup.total, Setup.total]
  exact ((hperm.filter _).map _).sum_eq

end Runs

def counter : Setup (Fin 2) := ⟨1, fun _ => .cnt, fun _ => ⟨0, 0⟩⟩

instance (s : State (Fin 2)) (a : Actor (Fin 2)) : Decidable (Timely counter s a) :=
  match a with
  | .call c _ => inferInstanceAs (Decidable (s.pc c = .body → s.dumper.holds .cnt 0 = false ∧
      ((s.mvalues 0).count + 1).toInt = (s.mvalues 0).count.toInt + 1))
  | .dumper => .isTrue trivial

section Play

variable (P : State (Fin 2) → Actor (Fin 2) → Prop) [∀ s a, Decidable (P s a)]

def play : List (Actor (Fin 2)) → State (Fin 2) → Option (State (Fin 2))
  | [], s => some s
  | a :: actors, s => if P s a then (step counter s a).bind (play actors) else none

lemma runs_of_play {actors : List (Actor (Fin 2))} :
    ∀ {s s' : State (Fin 2)}, play P actors s = some s' →
      Relation.ReflTransGen (fun s s' => ∃ a, P s a ∧ step counter s a = some s') s s' := by
  induction actors with
  | nil =>
    intro s s' h
    cases h
    exact .refl
  | cons a actors ih =>
    intro s s' h
    rw [play] at h
    split at h
    · rename_i hP
      rw [bind_eq_some_iff] at h
      obtain ⟨s₁, hstep, hplay⟩ := h
      exact .head ⟨a, hP, hstep⟩ (ih hplay)
    · cases h

end Play

def callThenDump : List (Actor (Fin 2)) :=
  replicate 3 (.call 0 false) ++ replicate 7 .dumper

def callDuringDump : List (Actor (Fin 2)) :=
  replicate 3 (.call 0 false) ++ replicate 3 .dumper ++
    (replicate 3 (.call 1 false) ++ replicate 4 .dumper)

theorem samples_conserved_one :
    ∃ s, TimelyRuns counter (start counter) s ∧ AtRest counter s 0 ∧ s.data 0 = [1] ∧
      (s.data 0).sum + ((s.mvalues 0).get .cnt).toInt = counter.total [0] 0 := by
  obtain ⟨s, hs⟩ := isSome_iff_exists.mp
    (show (play (Timely counter) callThenDump (start counter)).isSome = true by decide)
  have hrun : TimelyRuns counter (start counter) s := runs_of_play _ hs
  have hend : (play (Timely counter) callThenDump (start counter)).map
      (fun s => (s.pc 0, s.pc 1, s.dumper, s.data 0)) = some (.done, .begin, .idle, [1]) := by
    decide
  rw [hs, map_some, Option.some.injEq, Prod.mk.injEq, Prod.mk.injEq, Prod.mk.injEq] at hend
  obtain ⟨hzero, hone, hdumper, hdata⟩ := hend
  have hrest : AtRest counter s 0 := by
    refine ⟨?_, by rw [hdumper]; rfl⟩
    intro c
    match c with
    | 0 => exact .inr hzero
    | 1 => exact .inl hone
  refine ⟨s, hrun, hrest, hdata,
    samples_conserved counter hrun (.inl rfl) hrest (nodup_singleton 0) ?_⟩
  intro c
  match c with
  | 0 => simp [hzero]
  | 1 => simp [hone]

theorem sample_lost :
    ∃ s, Runs counter (start counter) s ∧ AtRest counter s 0 ∧ (∀ c, s.pc c = .done) ∧
      (s.data 0).sum + ((s.mvalues 0).get .cnt).toInt = 1 ∧ counter.total [0, 1] 0 = 2 := by
  obtain ⟨s, hs⟩ := isSome_iff_exists.mp
    (show (play (fun _ _ => True) callDuringDump (start counter)).isSome = true by decide)
  have hrun : Runs counter (start counter) s :=
    (runs_of_play _ hs).lift id fun _ _ ⟨a, _, hstep⟩ => ⟨a, hstep⟩
  have hend : (play (fun _ _ => True) callDuringDump (start counter)).map
      (fun s => (s.pc 0, s.pc 1, s.dumper, s.data 0, s.mvalues 0)) =
        some (.done, .done, .idle, [1], ⟨true, 0, 0⟩) := by
    decide
  rw [hs, map_some, Option.some.injEq, Prod.mk.injEq, Prod.mk.injEq, Prod.mk.injEq,
    Prod.mk.injEq] at hend
  obtain ⟨hzero, hone, hdumper, hdata, hcell⟩ := hend
  have hdone : ∀ c, s.pc c = .done := by
    intro c
    match c with
    | 0 => exact hzero
    | 1 => exact hone
  refine ⟨s, hrun, ⟨fun c => .inr (hdone c), by rw [hdumper]; rfl⟩, hdone, ?_, by decide⟩
  rw [hdata, hcell]
  decide

end Acc.Stats.Monitor
