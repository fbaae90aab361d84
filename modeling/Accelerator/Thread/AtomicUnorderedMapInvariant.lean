import Accelerator.Thread.AtomicUnorderedMap

namespace Acc.Thread.AtomicMap

namespace Pc

def holds : Pc → Option (Nat × BucketState)
  | .mark idx => some (idx, .CONSTRUCTING)
  | .done idx true => some (idx, .LINKED)
  | p => p.owned.map fun idx => (idx, .CONSTRUCTING)

variable {p : Pc} {i : Nat}

lemma holds_of_owned (h : p.owned = some i) : p.holds = some (i, .CONSTRUCTING) := by
  cases p with
  | mark => cases h
  | done _ b => cases b <;> cases h
  | _ => simp [holds, h]

lemma holds_of_inserted (h : p.inserted = some i) : ∃ st, p.holds = some (i, st) := by
  cases p with
  | mark => cases h; exact ⟨_, rfl⟩
  | done _ b =>
    cases b with
    | true => cases h; exact ⟨_, rfl⟩
    | false => cases h
  | _ => cases h

lemma holds_ne_empty : p.holds ≠ some (i, .EMPTY) := by
  cases p with
  | done _ b => cases b <;> exact nofun
  | look after | walk after => cases after <;> exact nofun
  | _ => exact nofun

lemma inserted_of_linked (h : p.holds = some (i, .LINKED)) : p.inserted = some i := by
  cases p with
  | done _ b =>
    cases b with
    | true => cases h; rfl
    | false => cases h
  | look after | walk after => cases after <;> cases h
  | _ => cases h

lemma inserted_of_owned (h : p.owned = some i) : p.inserted = none := by
  cases p with
  | mark | done => cases h
  | _ => rfl

end Pc

lemma holds_notFound (after : After) (i : Nat) :
    (State.notFound after).holds = (Pc.walk after i).holds := by
  cases after <;> rfl

lemma holds_found (after : After) (i j : Nat) :
    (State.found j after).holds = (Pc.walk after i).holds := by
  cases after <;> rfl

section Invariant

variable {ι K V : Type*} (cfg : Config K) (calls : ι → Call K V) (s : State ι K V)

structure Slots : Prop where
  bound : ∀ i, s.word i < 2 ^ cfg.bits
  zero : s.word 0 % 4 = BucketState.CONSTRUCTING.val
  free : ∀ i, i ≠ 0 → (∀ c st, (s.pc c).holds ≠ some (i, st)) → s.word i % 4 = 0
  held : ∀ c i st, (s.pc c).holds = some (i, st) →
    s.word i % 4 = st.val ∧ i ≠ 0 ∧ i < cfg.numSlots
  unique : ∀ c d i st st', (s.pc c).holds = some (i, st) → (s.pc d).holds = some (i, st') → c = d

def InBucket (b i : Nat) : Prop :=
  ∃ c, (s.pc c).inserted = some i ∧ cfg.keyToSlotIdx (calls c).key = b

structure Chains : Prop where
  bucket : ∀ b, ∃ l, s.Follows (s.head b) l ∧ ∀ i, i ∈ l ↔ InBucket cfg calls s b i
  content : ∀ c i, (s.pc c).inserted = some i → s.keyAt i = some (calls c).key
  distinct : ∀ c d i j, (s.pc c).inserted = some i → (s.pc d).inserted = some j →
    (calls c).key = (calls d).key → c = d

def Place (c : ι) (i : Nat) (l : List Nat) : Prop :=
  s.Follows i l ∧ ∀ m ∈ l, InBucket cfg calls s (cfg.keyToSlotIdx (calls c).key) m

def Absent (c : ι) (i : Nat) : Prop :=
  ∃ l, Place cfg calls s c i l ∧ ∀ m ∈ l, s.keyAt m ≠ some (calls c).key

def Found (c : ι) (i : Nat) : Prop :=
  InBucket cfg calls s (cfg.keyToSlotIdx (calls c).key) i ∧ s.keyAt i = some (calls c).key

def AfterOk (c : ι) : After → Prop
  | .search => (calls c).construct = none
  | .first prev => (calls c).construct.isSome ∧ ∃ l, Place cfg calls s c (prev >>> 2) l
  | .again prev idx => (calls c).construct.isSome ∧ (∃ l, Place cfg calls s c (prev >>> 2) l) ∧
      s.keyAt idx = some (calls c).key

def After.prev : After → Option Nat
  | .search => none
  | .first prev => some prev
  | .again prev _ => some prev

def WalkOk (c : ι) (after : After) (i : Nat) : Prop :=
  ∃ l, Place cfg calls s c i l ∧ ∀ prev, after.prev = some prev →
    ∃ l', Place cfg calls s c (prev >>> 2) l' ∧ ∀ m ∈ l', m ∈ l ∨ s.keyAt m ≠ some (calls c).key

def CallOk (c : ι) : Pc → Prop
  | .idle => True
  | .load => (calls c).construct.isSome
  | .look after => AfterOk cfg calls s c after
  | .walk after i => AfterOk cfg calls s c after ∧ WalkOk cfg calls s c after i
  | .attempt prev _ => (calls c).construct.isSome ∧ Absent cfg calls s c (prev >>> 2)
  | .reserve prev _ i seen => (calls c).construct.isSome ∧ Absent cfg calls s c (prev >>> 2) ∧
      i < cfg.numSlots ∧ seen % 4 = 0
  | .construct prev _ => (calls c).construct.isSome ∧ Absent cfg calls s c (prev >>> 2)
  | .setNext prev idx => (calls c).construct.isSome ∧ Absent cfg calls s c (prev >>> 2) ∧
      s.keyAt idx = some (calls c).key
  | .link prev idx => (calls c).construct.isSome ∧ Absent cfg calls s c (prev >>> 2) ∧
      s.keyAt idx = some (calls c).key ∧ (s.slots idx).next = prev >>> 2
  | .mark _ => (calls c).construct.isSome
  | .discard _ existing => Found cfg calls s c existing
  | .recycle _ existing => Found cfg calls s c existing
  | .done _ true => (calls c).construct.isSome
  | .done i false => Found cfg calls s c i ∨ (i = 0 ∧ (calls c).construct = none)
  | .threw => True

structure Inv : Prop where
  slots : Slots cfg s
  chains : Chains cfg calls s
  calls : ∀ c, CallOk cfg calls s c (s.pc c)

end Invariant

section Preservation

variable {ι K V : Type*} {cfg : Config K} {calls : ι → Call K V} {s s' : State ι K V} {c : ι}

structure Frame (s s' : State ι K V) (c : ι) : Prop where
  others : ∀ d, d ≠ c → s'.pc d = s.pc d
  next : ∀ i, (s.pc c).owned ≠ some i → (s'.slots i).next = (s.slots i).next
  keyAt : ∀ i, (s.pc c).owned ≠ some i → s'.keyAt i = s.keyAt i
  inserted : ∀ i, (s.pc c).inserted = some i → (s'.pc c).inserted = some i

variable {i b : Nat}

lemma Frame.persists (fr : Frame s s' c) {d : ι} (h : (s.pc d).inserted = some i) :
    (s'.pc d).inserted = some i := by
  by_cases hd : d = c
  · subst hd
    exact fr.inserted i h
  · rw [fr.others d hd]
    exact h

lemma Slots.not_owned (hs : Slots cfg s) {d : ι} (h : (s.pc d).inserted = some i) :
    (s.pc c).owned ≠ some i := by
  intro hc
  obtain ⟨st, hd⟩ := Pc.holds_of_inserted h
  have hcd := hs.unique _ _ _ _ _ (Pc.holds_of_owned hc) hd
  subst hcd
  rw [Pc.inserted_of_owned hc] at h
  cases h

lemma Frame.inBucket (fr : Frame s s' c) (h : InBucket cfg calls s b i) :
    InBucket cfg calls s' b i := by
  obtain ⟨d, hd, hb⟩ := h
  exact ⟨d, fr.persists hd, hb⟩

lemma Frame.keyAt_inBucket (fr : Frame s s' c) (hs : Slots cfg s)
    (h : InBucket cfg calls s b i) : s'.keyAt i = s.keyAt i := by
  obtain ⟨d, hd, _⟩ := h
  exact fr.keyAt i (hs.not_owned hd)

lemma Frame.follows (fr : Frame s s' c) (hs : Slots cfg s) {l : List Nat}
    (hl : ∀ m ∈ l, InBucket cfg calls s b m) (h : s.Follows i l) : s'.Follows i l := by
  refine h.congr fun m hm => ?_
  obtain ⟨d, hd, _⟩ := hl m hm
  exact fr.next m (hs.not_owned hd)

section Others

variable (fr : Frame s s' c) (hs : Slots cfg s) {d : ι}

include fr hs

variable {i : Nat}

lemma Place.frame {l : List Nat} (h : Place cfg calls s d i l) : Place cfg calls s' d i l :=
  ⟨fr.follows hs h.2 h.1, fun m hm => fr.inBucket (h.2 m hm)⟩

lemma Absent.frame (h : Absent cfg calls s d i) : Absent cfg calls s' d i := by
  obtain ⟨l, hl, hk⟩ := h
  refine ⟨l, hl.frame fr hs, fun m hm => ?_⟩
  rw [fr.keyAt_inBucket hs (hl.2 m hm)]
  exact hk m hm

lemma Found.frame (h : Found cfg calls s d i) : Found cfg calls s' d i := by
  refine ⟨fr.inBucket h.1, ?_⟩
  rw [fr.keyAt_inBucket hs h.1]
  exact h.2

lemma WalkOk.frame {after : After} (h : WalkOk cfg calls s d after i) :
    WalkOk cfg calls s' d after i := by
  obtain ⟨l, hl, hprev⟩ := h
  refine ⟨l, hl.frame fr hs, fun prev hp => ?_⟩
  obtain ⟨l', hl', hk⟩ := hprev prev hp
  refine ⟨l', hl'.frame fr hs, fun m hm => ?_⟩
  rw [fr.keyAt_inBucket hs (hl'.2 m hm)]
  exact hk m hm

lemma AfterOk.frame {after : After} (h : AfterOk cfg calls s d after)
    (hidx : ∀ prev idx, after = .again prev idx → s'.keyAt idx = s.keyAt idx) :
    AfterOk cfg calls s' d after := by
  cases after with
  | search => exact h
  | first prev => exact ⟨h.1, h.2.imp fun l hl => hl.frame fr hs⟩
  | again prev idx =>
    refine ⟨h.1, h.2.1.imp fun l hl => hl.frame fr hs, ?_⟩
    rw [hidx prev idx rfl]
    exact h.2.2

lemma CallOk.frame {p : Pc} (hkey : ∀ i, p.owned = some i → s'.keyAt i = s.keyAt i)
    (hnext : ∀ i, p.owned = some i → (s'.slots i).next = (s.slots i).next)
    (h : CallOk cfg calls s d p) : CallOk cfg calls s' d p := by
  cases p with
  | idle | threw => trivial
  | load | mark => exact h
  | look after =>
    exact AfterOk.frame fr hs h fun prev idx he => hkey idx (by rw [he, Pc.owned])
  | walk after i =>
    refine ⟨h.1.frame fr hs fun prev idx he => ?_, h.2.frame fr hs⟩
    exact hkey idx (by rw [he, Pc.owned])
  | attempt prev tries | construct prev idx => exact ⟨h.1, h.2.frame fr hs⟩
  | reserve prev tries i seen => exact ⟨h.1, h.2.1.frame fr hs, h.2.2⟩
  | setNext prev idx =>
    refine ⟨h.1, h.2.1.frame fr hs, ?_⟩
    rw [hkey idx rfl]
    exact h.2.2
  | link prev idx =>
    refine ⟨h.1, h.2.1.frame fr hs, ?_⟩
    rw [hkey idx rfl, hnext idx rfl]
    exact h.2.2
  | discard idx existing | recycle idx existing => exact Found.frame fr hs h
  | done i b =>
    cases b with
    | true => exact h
    | false => exact h.imp_left fun hf => hf.frame fr hs

lemma CallOk.other (hd : d ≠ c) (h : CallOk cfg calls s d (s.pc d)) :
    CallOk cfg calls s' d (s'.pc d) := by
  have hown : ∀ i, (s.pc d).owned = some i → (s.pc c).owned ≠ some i := by
    intro i hi hc
    exact hd (hs.unique _ _ _ _ _ (Pc.holds_of_owned hi) (Pc.holds_of_owned hc))
  rw [fr.others d hd]
  exact h.frame fr hs (fun i hi => fr.keyAt i (hown i hi)) fun i hi => fr.next i (hown i hi)

end Others

lemma Chains.place (h : Chains cfg calls s) (c : ι) :
    ∃ l, Place cfg calls s c (s.head (cfg.keyToSlotIdx (calls c).key)) l := by
  obtain ⟨l, hl, hmem⟩ := h.bucket (cfg.keyToSlotIdx (calls c).key)
  exact ⟨l, hl, fun m hm => (hmem m).mp hm⟩

lemma Chains.quiet (fr : Frame s s' c) (hs : Slots cfg s) (h : Chains cfg calls s)
    (hhead : ∀ b, s'.head b = s.head b) (hins : (s'.pc c).inserted = (s.pc c).inserted) :
    Chains cfg calls s' := by
  have same : ∀ d, (s'.pc d).inserted = (s.pc d).inserted := by
    intro d
    by_cases hd : d = c
    · rw [hd, hins]
    · rw [fr.others d hd]
  have hin : ∀ b i, InBucket cfg calls s' b i ↔ InBucket cfg calls s b i := by
    intro b i
    simp only [InBucket, same]
  refine ⟨fun b => ?_, fun d i hd => ?_, fun d e i j hd he => ?_⟩
  · obtain ⟨l, hl, hmem⟩ := h.bucket b
    refine ⟨l, ?_, fun i => by rw [hmem, hin]⟩
    rw [hhead]
    exact fr.follows hs (fun m hm => (hmem m).mp hm) hl
  · rw [same] at hd
    rw [fr.keyAt i (hs.not_owned hd)]
    exact h.content d i hd
  · rw [same] at hd he
    exact h.distinct d e i j hd he

lemma Chains.link (fr : Frame s s' c) (hs : Slots cfg s) (h : Chains cfg calls s) {idx : Nat}
    (hown : (s.pc c).owned = some idx) (hkey : s'.keyAt idx = some (calls c).key)
    (hnext : (s'.slots idx).next = s.head (cfg.keyToSlotIdx (calls c).key))
    (habs : Absent cfg calls s c (s.head (cfg.keyToSlotIdx (calls c).key)))
    (hhead : s'.head (cfg.keyToSlotIdx (calls c).key) = idx)
    (hheads : ∀ b, b ≠ cfg.keyToSlotIdx (calls c).key → s'.head b = s.head b)
    (hins : (s'.pc c).inserted = some idx) : Chains cfg calls s' := by
  obtain ⟨l, hl, hne⟩ := habs
  have hwhole : ∀ i, i ∈ l ↔ InBucket cfg calls s (cfg.keyToSlotIdx (calls c).key) i := by
    intro i
    obtain ⟨l', hl', hmem⟩ := h.bucket (cfg.keyToSlotIdx (calls c).key)
    rw [hl.1.unique hl', hmem]
  have hnew : ∀ d i, d ≠ c → (s.pc d).inserted = some i → (calls d).key ≠ (calls c).key := by
    intro d i _ hd hk
    refine hne i ((hwhole i).mpr ⟨d, hd, by rw [hk]⟩) ?_
    rw [h.content d i hd, hk]
  have hin : ∀ b i, InBucket cfg calls s' b i ↔
      (i = idx ∧ b = cfg.keyToSlotIdx (calls c).key) ∨ InBucket cfg calls s b i := by
    intro b i
    constructor
    · rintro ⟨d, hd, hb⟩
      by_cases hdc : d = c
      · subst hdc
        rw [hins] at hd
        exact .inl ⟨(Option.some.inj hd).symm, hb.symm⟩
      · rw [fr.others d hdc] at hd
        exact .inr ⟨d, hd, hb⟩
    · rintro (⟨rfl, rfl⟩ | hi)
      · exact ⟨c, hins, rfl⟩
      · exact fr.inBucket hi
  refine ⟨fun b => ?_, fun d i hd => ?_, fun d e i j hd he hk => ?_⟩
  · by_cases hb : b = cfg.keyToSlotIdx (calls c).key
    · subst hb
      refine ⟨idx :: l, ?_, fun i => ?_⟩
      · rw [hhead]
        refine .cons (hs.held c idx _ (Pc.holds_of_owned hown)).2.1 ?_
        rw [hnext]
        exact fr.follows hs hl.2 hl.1
      · rw [List.mem_cons, hwhole, hin]
        simp
    obtain ⟨l', hl', hmem⟩ := h.bucket b
    refine ⟨l', ?_, fun i => ?_⟩
    · rw [hheads b hb]
      exact fr.follows hs (fun m hm => (hmem m).mp hm) hl'
    · rw [hmem, hin]
      simp [hb]
  · by_cases hdc : d = c
    · subst hdc
      rw [hins] at hd
      cases hd
      exact hkey
    · rw [fr.others d hdc] at hd
      rw [fr.keyAt i (hs.not_owned hd)]
      exact h.content d i hd
  by_cases hdc : d = c
  · by_cases hec : e = c
    · rw [hdc, hec]
    · rw [fr.others e hec] at he
      exact absurd (hdc ▸ hk.symm) (hnew e j hec he)
  rw [fr.others d hdc] at hd
  by_cases hec : e = c
  · exact absurd (hec ▸ hk) (hnew d i hdc hd)
  · rw [fr.others e hec] at he
    exact h.distinct d e i j hd he hk

variable {after : After}

lemma WalkOk.start (h : Chains cfg calls s) (ok : AfterOk cfg calls s c after) :
    WalkOk cfg calls s c after (s.head (cfg.keyToSlotIdx (calls c).key)) := by
  obtain ⟨l, hl, hmem⟩ := h.bucket (cfg.keyToSlotIdx (calls c).key)
  refine ⟨l, ⟨hl, fun m hm => (hmem m).mp hm⟩, fun prev hp => ?_⟩
  have hplace : ∃ l', Place cfg calls s c (prev >>> 2) l' := by
    cases after with
    | search => cases hp
    | first prev =>
      cases hp
      exact ok.2
    | again prev idx =>
      cases hp
      exact ok.2.1
  obtain ⟨l', hl'⟩ := hplace
  exact ⟨l', hl', fun m hm => .inl ((hmem m).mpr (hl'.2 m hm))⟩

lemma WalkOk.absent {prev : Nat} (h : WalkOk cfg calls s c after 0)
    (hp : after.prev = some prev) : Absent cfg calls s c (prev >>> 2) := by
  obtain ⟨l, hl, hprev⟩ := h
  obtain ⟨l', hl', hk⟩ := hprev prev hp
  refine ⟨l', hl', fun m hm => ?_⟩
  cases hl.1.unique .nil
  exact (hk m hm).resolve_left List.not_mem_nil

lemma WalkOk.found (h : WalkOk cfg calls s c after i) (hi : i ≠ 0)
    (hk : s.keyAt i = some (calls c).key) : Found cfg calls s c i := by
  obtain ⟨l, hl, _⟩ := h
  have hmem : i ∈ l := by
    cases hl.1 with
    | nil => exact absurd rfl hi
    | cons => exact List.mem_cons_self
  exact ⟨hl.2 i hmem, hk⟩

lemma WalkOk.next (h : WalkOk cfg calls s c after i) (hi : i ≠ 0)
    (hk : s.keyAt i ≠ some (calls c).key) : WalkOk cfg calls s c after (s.slots i).next := by
  obtain ⟨l, hl, hprev⟩ := h
  obtain ⟨hfollows, hin⟩ := hl
  cases hfollows with
  | nil => exact absurd rfl hi
  | @cons _ l hi rest =>
    refine ⟨l, ⟨rest, fun m hm => hin m (List.mem_cons_of_mem i hm)⟩, fun prev hp => ?_⟩
    obtain ⟨l', hl', hkeys⟩ := hprev prev hp
    refine ⟨l', hl', fun m hm => ?_⟩
    rcases hkeys m hm with hml | hne
    · rcases List.mem_cons.mp hml with rfl | hml
      · exact .inr hk
      · exact .inl hml
    · exact .inr hne

lemma CallOk.notFound (ok : AfterOk cfg calls s c after)
    (h : WalkOk cfg calls s c after 0) : CallOk cfg calls s c (State.notFound after) := by
  cases after with
  | search => exact .inr ⟨rfl, ok⟩
  | first prev => exact ⟨ok.1, h.absent rfl⟩
  | again prev idx => exact ⟨ok.1, h.absent rfl, ok.2.2⟩

lemma CallOk.found (h : Found cfg calls s c i) : CallOk cfg calls s c (State.found i after) := by
  cases after with
  | search | first prev => exact .inl h
  | again prev idx => exact h

lemma Slots.same (h : Slots cfg s) (hholds : ∀ d, (s'.pc d).holds = (s.pc d).holds)
    (hbound : ∀ i, s'.word i < 2 ^ cfg.bits) (hword : ∀ i, s'.word i % 4 = s.word i % 4) :
    Slots cfg s' := by
  refine ⟨hbound, ?_, fun i hi hfree => ?_, fun d i st hd => ?_, fun d e i st st' hd he => ?_⟩
  · rw [hword, h.zero]
  · simp only [hholds] at hfree
    rw [hword]
    exact h.free i hi hfree
  · rw [hholds] at hd
    rw [hword]
    exact h.held d i st hd
  · rw [hholds] at hd he
    exact h.unique d e i st st' hd he

lemma Slots.update (h : Slots cfg s) (hothers : ∀ d, d ≠ c → s'.pc d = s.pc d)
    (hi : i ≠ 0) (hlt : i < cfg.numSlots) (hfree : ∀ d st, d ≠ c → (s.pc d).holds ≠ some (i, st))
    (hold : ∀ j st, (s.pc c).holds = some (j, st) → j = i)
    (hnew : ∀ j st, (s'.pc c).holds = some (j, st) → j = i ∧ s'.word i % 4 = st.val)
    (hgone : (s'.pc c).holds = none → s'.word i % 4 = 0) (hbound : ∀ j, s'.word j < 2 ^ cfg.bits)
    (hword : ∀ j, j ≠ i → s'.word j % 4 = s.word j % 4) : Slots cfg s' := by
  refine ⟨hbound, ?_, fun j hj hjfree => ?_, fun d j st hd => ?_, fun d e j st st' hd he => ?_⟩
  · rw [hword 0 hi.symm, h.zero]
  · by_cases hji : j = i
    · subst hji
      cases hc : (s'.pc c).holds with
      | none => exact hgone hc
      | some q =>
        have := (hnew q.1 q.2 hc).1
        exact absurd (this ▸ hc) (hjfree c q.2)
    rw [hword j hji]
    refine h.free j hj fun d st hd => ?_
    by_cases hdc : d = c
    · subst hdc
      exact hji (hold j st hd)
    · rw [← hothers d hdc] at hd
      exact hjfree d st hd
  · by_cases hdc : d = c
    · subst hdc
      obtain ⟨rfl, hst⟩ := hnew j st hd
      exact ⟨hst, hi, hlt⟩
    rw [hothers d hdc] at hd
    have hji : j ≠ i := by
      rintro rfl
      exact hfree d st hdc hd
    rw [hword j hji]
    exact h.held d j st hd
  by_cases hdc : d = c
  · by_cases hec : e = c
    · rw [hdc, hec]
    subst hdc
    obtain ⟨rfl, _⟩ := hnew j st hd
    rw [hothers e hec] at he
    exact absurd he (hfree e st' hec)
  rw [hothers d hdc] at hd
  by_cases hec : e = c
  · subst hec
    obtain ⟨rfl, _⟩ := hnew j st' he
    exact absurd hd (hfree d st hdc)
  · rw [hothers e hec] at he
    exact h.unique d e j st st' hd he

end Preservation

section Steps

variable {ι K V : Type*} [DecidableEq ι] {cfg : Config K} {calls : ι → Call K V}
  {s s' : State ι K V} {c : ι} {p p' : Pc}

lemma Frame.pc (hp : s.pc c = p) (hins : p.inserted = none) : Frame s (s.setPc c p') c where
  others := fun d hd => s.setPc_of_ne p' hd
  next := fun _ _ => rfl
  keyAt := fun _ _ => rfl
  inserted := fun i h => by rw [hp, hins] at h; cases h

lemma Frame.word (hp : s.pc c = p) (hins : ∀ i, p.inserted = some i → p'.inserted = some i)
    (i w : Nat) : Frame s ((s.setWord i w).setPc c p') c where
  others := fun d hd => (s.setWord i w).setPc_of_ne p' hd
  next := fun _ _ => by simp
  keyAt := fun _ _ => by simp [State.keyAt]
  inserted := fun i h => by
    rw [State.setPc_self]
    exact hins i (hp ▸ h)

lemma Frame.slot {idx : Nat} (hp : s.pc c = p) (hown : p.owned = some idx) (slot : Slot K V) :
    Frame s ((s.setSlot idx slot).setPc c p') c where
  others := fun d hd => (s.setSlot idx slot).setPc_of_ne p' hd
  next := fun i hi => by
    rw [State.setPc_slots, State.setSlot_of_ne]
    rintro rfl
    exact hi (hp ▸ hown)
  keyAt := fun i hi => by
    rw [State.setPc_keyAt, State.keyAt, State.setSlot_of_ne, State.keyAt]
    rintro rfl
    exact hi (hp ▸ hown)
  inserted := fun i h => by
    rw [hp, Pc.inserted_of_owned hown] at h
    cases h

lemma Inv.of_frame (h : Inv cfg calls s) (fr : Frame s s' c) (slots : Slots cfg s')
    (chains : Chains cfg calls s') (ok : CallOk cfg calls s' c (s'.pc c)) : Inv cfg calls s' := by
  refine ⟨slots, chains, fun d => ?_⟩
  by_cases hd : d = c
  · rw [hd]
    exact ok
  · exact (h.calls d).other fr h.slots hd

lemma holds_setPc (hp : s.pc c = p) (hh : p'.holds = p.holds) (d : ι) :
    ((s.setPc c p').pc d).holds = (s.pc d).holds := by
  by_cases hd : d = c
  · rw [hd, State.setPc_self, hp, hh]
  · rw [State.setPc_of_ne _ _ hd]

lemma Inv.pc (h : Inv cfg calls s) (hp : s.pc c = p) (hh : p'.holds = p.holds)
    (hins : p.inserted = none) (hins' : p'.inserted = none) (ok : CallOk cfg calls s c p') :
    Inv cfg calls (s.setPc c p') := by
  have fr : Frame s (s.setPc c p') c := .pc hp hins
  refine h.of_frame fr ?_ ?_ ?_
  · exact h.slots.same (holds_setPc hp hh) h.slots.bound fun _ => rfl
  · exact h.chains.quiet fr h.slots (fun _ => rfl) (by simp [hp, hins, hins'])
  · rw [State.setPc_self]
    exact ok.frame fr h.slots (fun _ _ => rfl) fun _ _ => rfl

lemma Inv.slot (h : Inv cfg calls s) {idx : Nat} (hp : s.pc c = p) (hown : p.owned = some idx)
    (hown' : p'.owned = some idx) {slot : Slot K V} (hslot : slot.headAndState = s.word idx)
    (ok : CallOk cfg calls ((s.setSlot idx slot).setPc c p') c p') :
    Inv cfg calls ((s.setSlot idx slot).setPc c p') := by
  have fr : Frame s ((s.setSlot idx slot).setPc c p') c := .slot hp hown slot
  have hword : ∀ i, ((s.setSlot idx slot).setPc c p').word i = s.word i :=
    fun i => s.setSlot_word idx i hslot
  refine h.of_frame fr ?_ ?_ ?_
  · refine h.slots.same ?_ (fun i => ?_) fun i => by rw [hword]
    · refine holds_setPc (s := s.setSlot idx slot) hp ?_
      rw [Pc.holds_of_owned hown, Pc.holds_of_owned hown']
    · rw [hword]
      exact h.slots.bound i
  · refine h.chains.quiet fr h.slots (fun b => ?_) ?_
    · rw [State.head, State.head, hword]
    · simp [hp, Pc.inserted_of_owned hown, Pc.inserted_of_owned hown']
  · rw [State.setPc_self]
    exact ok

lemma Inv.state (h : Inv cfg calls s) {i : Nat} {before after : BucketState} (hp : s.pc c = p)
    (hi : i ≠ 0) (hlt : i < cfg.numSlots) (hw : s.word i % 4 = before.val)
    (hfree : ∀ d st, d ≠ c → (s.pc d).holds ≠ some (i, st))
    (hold : ∀ j st, p.holds = some (j, st) → j = i)
    (hnew : ∀ j st, p'.holds = some (j, st) → j = i ∧ st = after)
    (hgone : p'.holds = none → after = .EMPTY) (hins : p'.inserted = p.inserted)
    (ok : CallOk cfg calls s c p') :
    Inv cfg calls ((s.setWord i (cfg.stateUpdate (s.word i) before after)).setPc c p') := by
  have fr : Frame s ((s.setWord i (cfg.stateUpdate (s.word i) before after)).setPc c p') c :=
    .word hp (fun j hj => hins.trans hj) i _
  have hval : after.val < 4 := by cases after <;> decide
  have hpow := cfg.two_pow_bits
  have hbound := h.slots.bound i
  have hself : ((s.setWord i (cfg.stateUpdate (s.word i) before after)).setPc c p').word i
      = s.word i / 4 * 4 + after.val := by
    simp [State.setWord_word_self, cfg.stateUpdate_eq after hbound hw]
  have hother : ∀ j, j ≠ i →
      ((s.setWord i (cfg.stateUpdate (s.word i) before after)).setPc c p').word j = s.word j :=
    fun j hj => s.setWord_word_of_ne _ hj
  refine h.of_frame fr ?_ ?_ ?_
  · refine h.slots.update fr.others hi hlt hfree ?_ ?_ ?_ (fun j => ?_) fun j hj => by rw [hother j hj]
    · rw [hp]
      exact hold
    · intro j st hj
      rw [State.setPc_self] at hj
      obtain ⟨hji, rfl⟩ := hnew j st hj
      omega
    · intro hn
      rw [State.setPc_self] at hn
      rw [hself, hgone hn]
      exact Nat.mul_mod_left _ 4
    by_cases hj : j = i
    · rw [hj, hself]
      omega
    · rw [hother j hj]
      exact h.slots.bound j
  · refine h.chains.quiet fr h.slots (fun b => ?_) (by rw [State.setPc_self, hins, hp])
    rw [State.head_eq, State.head_eq]
    by_cases hb : b = i
    · rw [hb, hself]
      omega
    · rw [hother b hb]
  · rw [State.setPc_self]
    exact ok.frame fr h.slots (fun j _ => by simp [State.keyAt]) fun j _ => by simp

lemma Inv.link (h : Inv cfg calls s) {prev idx : Nat} (hp : s.pc c = .link prev idx)
    (hw : s.word (cfg.keyToSlotIdx (calls c).key) = prev) :
    Inv cfg calls ((s.setWord (cfg.keyToSlotIdx (calls c).key)
      (((idx <<< 2) % 2 ^ cfg.bits + (if cfg.keyToSlotIdx (calls c).key = idx
        then BucketState.LINKED.val else prev &&& 3)) % 2 ^ cfg.bits)).setPc c
      (if idx ≠ cfg.keyToSlotIdx (calls c).key then .mark idx else .done idx true)) := by
  have hok := h.calls c
  rw [hp] at hok
  obtain ⟨hsome, habs, hkey, hnext⟩ := hok
  have hown : (s.pc c).owned = some idx := by rw [hp, Pc.owned]
  obtain ⟨hst, hne, hlt⟩ := h.slots.held c idx _ (Pc.holds_of_owned hown)
  have hpow := cfg.two_pow_bits
  have hfits := cfg.fits
  generalize hb : cfg.keyToSlotIdx (calls c).key = b at hw ⊢
  have ht : (if b = idx then BucketState.LINKED.val else prev &&& 3) < 4 := by
    rw [and_three]
    split
    · decide
    · omega
  generalize htt : (if b = idx then BucketState.LINKED.val else prev &&& 3) = t at ht ⊢
  rw [cfg.link_word hlt ht]
  generalize hp' : (if idx ≠ b then Pc.mark idx else Pc.done idx true) = p'
  have hins : p'.inserted = some idx := by
    rw [← hp']
    split <;> rfl
  have fr : Frame s ((s.setWord b (idx * 4 + t)).setPc c p') c :=
    .word rfl (fun j hj => by rw [Pc.inserted_of_owned hown] at hj; cases hj) b _
  have hself : ((s.setWord b (idx * 4 + t)).setPc c p').word b = idx * 4 + t :=
    s.setWord_word_self b _
  have hother : ∀ j, j ≠ b → ((s.setWord b (idx * 4 + t)).setPc c p').word j = s.word j :=
    fun j hj => s.setWord_word_of_ne _ hj
  have hbound : ∀ j, ((s.setWord b (idx * 4 + t)).setPc c p').word j < 2 ^ cfg.bits := by
    intro j
    by_cases hj : j = b
    · rw [hj, hself]
      omega
    · rw [hother j hj]
      exact h.slots.bound j
  refine h.of_frame fr ?_ ?_ ?_
  · by_cases hbi : b = idx
    · -- the slot heads its own chain: one exchange changes the head and the state
      subst hbi
      rw [if_pos rfl] at htt
      rw [if_neg (not_not_intro rfl)] at hp'
      refine h.slots.update fr.others hne hlt ?_ ?_ ?_ ?_ hbound fun j hj => by rw [hother j hj]
      · intro d st hd hh
        exact hd (h.slots.unique _ _ _ _ _ hh (Pc.holds_of_owned hown))
      · intro j st hj
        rw [Pc.holds_of_owned hown] at hj
        cases hj
        rfl
      · intro j st hj
        rw [State.setPc_self, ← hp'] at hj
        cases hj
        omega
      · intro hj
        rw [State.setPc_self, ← hp'] at hj
        cases hj
    rw [if_neg hbi, and_three] at htt
    rw [if_pos (Ne.symm hbi)] at hp'
    refine h.slots.same (holds_setPc (s := s.setWord b _) hp (by rw [← hp']; rfl)) hbound ?_
    intro j
    by_cases hj : j = b
    · rw [hj, hself, hw]
      omega
    · rw [hother j hj]
  · subst hb
    have hhead : s.head (cfg.keyToSlotIdx (calls c).key) = prev >>> 2 := by rw [State.head, hw]
    refine h.chains.link fr h.slots hown ?_ ?_ ?_ ?_ (fun b' hb' => ?_) ?_
    · simpa [State.keyAt] using hkey
    · simpa [hhead] using hnext
    · rw [hhead]
      exact habs
    · rw [State.head_eq, hself]
      omega
    · rw [State.head, hother b' hb', State.head]
    · rw [State.setPc_self, hins]
  · rw [State.setPc_self, ← hp']
    split <;> exact hsome

lemma Inv.move (h : Inv cfg calls s) (hm : Move cfg calls s c s') : Inv cfg calls s' := by
  have hok := h.calls c
  cases hm with
  | startFind hp hf | startInsert hp hf => exact h.pc hp rfl rfl rfl hf
  | load hp =>
    rw [hp] at hok
    exact h.pc hp rfl rfl rfl ⟨hok, h.chains.place c⟩
  | @look after hp =>
    rw [hp] at hok
    exact h.pc hp (by cases after <;> rfl) rfl rfl ⟨hok, .start h.chains hok⟩
  | notFound hp =>
    rw [hp] at hok
    refine h.pc hp (holds_notFound _ _) rfl ?_ (.notFound hok.1 hok.2)
    rename_i after
    cases after <;> rfl
  | found hp hi hk =>
    rw [hp] at hok
    refine h.pc hp (holds_found _ _ _) rfl ?_ (.found (hok.2.found hi hk))
    rename_i after _
    cases after <;> rfl
  | @next after i hp hi hk =>
    rw [hp] at hok
    exact h.pc hp (by cases after <;> rfl) rfl rfl ⟨hok.1, hok.2.next hi hk⟩
  | seen hp hi hw =>
    rw [hp] at hok
    exact h.pc hp rfl rfl rfl ⟨hok.1, hok.2, hi, hw⟩
  | taken hp =>
    rw [hp] at hok
    exact h.pc hp rfl rfl rfl hok
  | threw hp => exact h.pc hp rfl rfl rfl trivial
  | lost hp =>
    rw [hp] at hok
    exact h.pc hp rfl rfl rfl ⟨hok.1, hok.2.1⟩
  | @reserve prev tries i seen hp hw =>
    rw [hp] at hok
    obtain ⟨hf, habs, hlt, hseen⟩ := hok
    subst hw
    have hi : i ≠ 0 := by
      rintro rfl
      rw [h.slots.zero] at hseen
      exact absurd hseen (by decide)
    have hfree : ∀ d st, (s.pc d).holds ≠ some (i, st) := by
      intro d st hd
      have hst := (h.slots.held d i st hd).1
      rw [hseen] at hst
      cases st with
      | EMPTY => exact Pc.holds_ne_empty hd
      | CONSTRUCTING | LINKED => exact absurd hst (by decide)
    refine h.state hp hi hlt hseen (fun d st _ => hfree d st) (by rintro _ _ ⟨⟩) ?_ (by rintro ⟨⟩) rfl ⟨hf, habs⟩
    intro j st hj
    cases hj
    exact ⟨rfl, rfl⟩
  | @construct prev idx value hp =>
    rw [hp] at hok
    refine h.slot hp rfl rfl rfl ⟨hok.1, ?_, ?_⟩
    · exact hok.2.frame (.slot hp rfl _) h.slots
    · simp [State.keyAt, State.setSlot_self]
  | @setNext prev idx hp =>
    rw [hp] at hok
    refine h.slot hp rfl rfl rfl ⟨hok.1, ?_, ?_, ?_⟩
    · exact hok.2.1.frame (.slot hp rfl _) h.slots
    · rw [State.setPc_keyAt, State.keyAt, State.setSlot_self]
      exact hok.2.2
    · simp [State.setSlot_self]
  | link hp hw => exact h.link hp hw
  | relook hp =>
    rw [hp] at hok
    exact h.pc hp rfl rfl rfl ⟨hok.1, h.chains.place c, hok.2.2.1⟩
  | @mark idx hp =>
    rw [hp] at hok
    have hh : (s.pc c).holds = some (idx, .CONSTRUCTING) := by rw [hp, Pc.holds]
    obtain ⟨hst, hi, hlt⟩ := h.slots.held c idx _ hh
    refine h.state hp hi hlt hst (fun d st hd hdh => ?_) ?_ ?_ (by rintro ⟨⟩) rfl hok
    · exact hd (h.slots.unique _ _ _ _ _ hdh hh)
    · intro j st hj
      cases hj
      rfl
    · intro j st hj
      cases hj
      exact ⟨rfl, rfl⟩
  | discard hp =>
    rw [hp] at hok
    exact h.slot hp rfl rfl rfl (Found.frame (.slot hp rfl _) h.slots hok)
  | @recycle idx existing hp =>
    rw [hp] at hok
    have hh : (s.pc c).holds = some (idx, .CONSTRUCTING) := by rw [hp]; rfl
    obtain ⟨hst, hi, hlt⟩ := h.slots.held c idx _ hh
    refine h.state hp hi hlt hst (fun d st hd hdh => ?_) ?_ (by rintro _ _ ⟨⟩) (fun _ => rfl) rfl (.inl hok)
    · exact hd (h.slots.unique _ _ _ _ _ hdh hh)
    · intro j st hj
      cases hj
      rfl

end Steps

end Acc.Thread.AtomicMap
