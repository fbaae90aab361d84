import Accelerator.Thread.AtomicUnorderedMapInvariant

namespace Acc.Thread.AtomicMap

open Option List

section Runs

variable {ι K V : Type*} {cfg : Config K} {calls : ι → Call K V}
  {s s' : State ι K V} {c : ι}

lemma Inv.start : Inv cfg calls (.start : State ι K V) := by
  have hidle : ∀ c : ι, (State.start : State ι K V).pc c = .idle := fun _ => rfl
  have hword : ∀ i, (State.start : State ι K V).word i = if i = 0 then 1 else 0 := by
    intro i
    by_cases hi : i = 0 <;> simp [State.word, State.start, hi, BucketState.val]
  have hpow := cfg.two_pow_bits
  have hpos := Nat.two_pow_pos (cfg.bits - 2)
  refine ⟨⟨fun i => ?_, rfl, fun i hi _ => ?_, fun c i st h => ?_, fun c d i st st' h => ?_⟩,
    ⟨fun b => ⟨[], ?_, fun i => ?_⟩, fun c i h => ?_, fun c d i j h => ?_⟩, fun c => trivial⟩
  · rw [hword]
    split <;> omega
  · rw [hword, if_neg hi]
  · rw [hidle] at h
    cases h
  · rw [hidle] at h
    cases h
  · have hhead : (State.start : State ι K V).head b = 0 := by
      rw [State.head_eq, hword]
      split <;> rfl
    rw [hhead]
    exact .nil
  · refine ⟨by simp, ?_⟩
    rintro ⟨c, h, _⟩
    cases h
  · rw [hidle] at h
    cases h
  · rw [hidle] at h
    cases h

lemma Move.frame [DecidableEq ι] (hm : Move cfg calls s c s') : Frame s s' c := by
  cases hm with
  | startFind hp | startInsert hp | load hp | look hp | notFound hp | found hp | next hp
  | seen hp | taken hp | threw hp | lost hp | relook hp => exact .pc hp rfl
  | reserve hp | link hp | recycle hp => exact .word hp nofun _ _
  | construct hp | setNext hp | discard hp => exact .slot hp rfl _
  | mark hp =>
    refine .word hp ?_ _ _
    intro i hi
    exact hi

variable {i j : Nat}

lemma Inv.linked_iff (h : Inv cfg calls s) {k : K} :
    s.Linked cfg i k ↔ ∃ d, (s.pc d).inserted = some i ∧ (calls d).key = k := by
  constructor
  · rintro ⟨l, hl, hi, hk⟩
    obtain ⟨l', hl', hmem⟩ := h.chains.bucket (cfg.keyToSlotIdx k)
    rw [hl.unique hl', hmem] at hi
    obtain ⟨d, hd, _⟩ := hi
    rw [h.chains.content d i hd] at hk
    exact ⟨d, hd, some.inj hk⟩
  · rintro ⟨d, hd, rfl⟩
    obtain ⟨l, hl, hmem⟩ := h.chains.bucket (cfg.keyToSlotIdx (calls d).key)
    exact ⟨l, hl, (hmem i).mpr ⟨d, hd, rfl⟩, h.chains.content d i hd⟩

lemma Found.linked (h : Inv cfg calls s) (hf : Found cfg calls s c i) :
    s.Linked cfg i (calls c).key := by
  obtain ⟨⟨d, hd, _⟩, hk⟩ := hf
  rw [h.chains.content d i hd] at hk
  exact h.linked_iff.mpr ⟨d, hd, some.inj hk⟩

variable [DecidableEq ι] [DecidableEq K]

lemma Inv.step (h : Inv cfg calls s) (hs : Step cfg calls s s') : Inv cfg calls s' := by
  obtain ⟨c, rand, hs⟩ := hs
  exact h.move (State.move_of_step hs)

lemma Inv.steps (h : Inv cfg calls s) (hs : Steps cfg calls s s') : Inv cfg calls s' := by
  induction hs with
  | refl => exact h
  | tail _ hstep ih => exact ih.step hstep

lemma Reachable.inv (h : Reachable cfg calls s) : Inv cfg calls s := Inv.start.steps h

lemma inserted_steps (hs : Steps cfg calls s s') (hd : (s.pc c).inserted = some i) :
    (s'.pc c).inserted = some i := by
  induction hs with
  | refl => exact hd
  | tail _ hstep ih =>
    obtain ⟨d, rand, hstep⟩ := hstep
    exact (State.move_of_step hstep).frame.persists ih

lemma Linked.steps (h : Inv cfg calls s) (hs : Steps cfg calls s s') {k : K}
    (hl : s.Linked cfg i k) : s'.Linked cfg i k := by
  obtain ⟨d, hd, hk⟩ := h.linked_iff.mp hl
  exact (h.steps hs).linked_iff.mpr ⟨d, inserted_steps hs hd, hk⟩

def Pc.finished : Pc → Bool
  | .done _ _ => true
  | .threw => true
  | _ => false

lemma Inv.progress (h : Inv cfg calls s) (hp : (s.pc c).finished = false) (rand : Nat) :
    ∃ s', s.step cfg calls c rand = some s' := by
  have hok := h.calls c
  unfold State.step
  cases hpc : s.pc c with
  | idle =>
    cases hf : (calls c).construct with
    | none | some => exact ⟨_, rfl⟩
  | load | look | setNext | mark | discard | recycle => exact ⟨_, rfl⟩
  | walk after i =>
    rw [hpc] at hok
    dsimp only
    split
    · exact ⟨_, rfl⟩
    rename_i hi
    obtain ⟨_, l, ⟨hl, hin⟩, _⟩ := hok
    cases hl with
    | nil => exact absurd rfl hi
    | cons =>
      obtain ⟨d, hd, _⟩ := hin i mem_cons_self
      have hk := h.chains.content d i hd
      cases hkv : (s.slots i).keyValue with
      | none =>
        rw [State.keyAt, hkv] at hk
        cases hk
      | some =>
        dsimp only
        split
        · exact ⟨_, rfl⟩
        · exact ⟨_, rfl⟩
  | attempt =>
    dsimp only
    split
    · split
      · exact ⟨_, rfl⟩
      · exact ⟨_, rfl⟩
    · exact ⟨_, rfl⟩
  | reserve | link =>
    dsimp only
    split
    · exact ⟨_, rfl⟩
    · exact ⟨_, rfl⟩
  | construct prev idx =>
    rw [hpc] at hok
    obtain ⟨v, hv⟩ := isSome_iff_exists.mp hok.1
    simp only [hv]
    exact ⟨_, rfl⟩
  | done | threw =>
    rw [hpc] at hp
    cases hp

def LateAt (cfg : Config K) (calls : ι → Call K V) (s : State ι K V) (c : ι) (i : Nat) :
    Pc → Prop
  | .idle => True
  | .load => True
  | .look after => ∀ prev idx, after ≠ .again prev idx
  | .walk after j => (∀ prev idx, after ≠ .again prev idx) ∧ ∃ l, Place cfg calls s c j l ∧ i ∈ l
  | .done j b => j = i ∧ b = false
  | _ => False

structure Late (cfg : Config K) (calls : ι → Call K V) (s : State ι K V) (c : ι) (i : Nat) :
    Prop where
  inv : Inv cfg calls s
  linked : s.Linked cfg i (calls c).key
  place : LateAt cfg calls s c i (s.pc c)

omit [DecidableEq ι] [DecidableEq K] in
lemma Inv.linked_unique (h : Inv cfg calls s) {k : K} (hi : s.Linked cfg i k)
    (hj : s.Linked cfg j k) : i = j := by
  obtain ⟨d, hd, hdk⟩ := h.linked_iff.mp hi
  obtain ⟨e, he, hek⟩ := h.linked_iff.mp hj
  have hde := h.chains.distinct d e i j hd he (hdk.trans hek.symm)
  subst hde
  exact some.inj (hd.symm.trans he)

omit [DecidableEq ι] [DecidableEq K] in
lemma LateAt.frame {d : ι} (fr : Frame s s' d) (hs : Slots cfg s) {p : Pc}
    (h : LateAt cfg calls s c i p) : LateAt cfg calls s' c i p := by
  cases p with
  | walk after j =>
    obtain ⟨hafter, l, hl, hi⟩ := h
    exact ⟨hafter, l, hl.frame fr hs, hi⟩
  | _ => exact h

omit [DecidableEq K] in
lemma Late.own (h : Late cfg calls s c i) (hm : Move cfg calls s c s') :
    LateAt cfg calls s' c i (s'.pc c) := by
  have hat := h.place
  have fr := hm.frame
  cases hm with
  | startFind hp | load hp =>
    rw [State.setPc_self]
    exact nofun
  | startInsert hp =>
    rw [State.setPc_self]
    trivial
  | look hp =>
    rw [hp] at hat
    rw [State.setPc_self]
    obtain ⟨l, hl, hi, _⟩ := h.linked
    obtain ⟨l', hl'⟩ := h.inv.chains.place c
    rw [hl.unique hl'.1] at hi
    exact ⟨hat, l', hl'.frame fr h.inv.slots, hi⟩
  | notFound hp =>
    rw [hp] at hat
    obtain ⟨_, l, hl, hi⟩ := hat
    cases hl.1.unique .nil
    cases hi
  | @found after j hp hj hk =>
    have hok := h.inv.calls c
    rw [hp] at hat hok
    have hji := h.inv.linked_unique ((hok.2.found hj hk).linked h.inv) h.linked
    rw [State.setPc_self]
    cases after with
    | again prev idx => exact absurd rfl (hat.1 prev idx)
    | search | first => exact ⟨hji, rfl⟩
  | @next after j hp hj hk =>
    rw [hp] at hat
    rw [State.setPc_self]
    obtain ⟨hafter, l, ⟨hl, hin⟩, hi⟩ := hat
    cases hl with
    | nil => exact absurd rfl hj
    | @cons _ l _ rest =>
      refine ⟨hafter, l, Place.frame fr h.inv.slots ⟨rest, fun m hm => ?_⟩, ?_⟩
      · exact hin m (mem_cons_of_mem j hm)
      rcases mem_cons.mp hi with rfl | hi
      · obtain ⟨_, _, _, hki⟩ := h.linked
        exact absurd hki hk
      · exact hi
  | _ hp =>
    rw [hp] at hat
    exact hat.elim

lemma Late.step (h : Late cfg calls s c i) (hs : Step cfg calls s s') : Late cfg calls s' c i := by
  refine ⟨h.inv.step hs, Linked.steps h.inv (.single hs) h.linked, ?_⟩
  obtain ⟨d, rand, hs⟩ := hs
  have hm := State.move_of_step hs
  by_cases hd : d = c
  · subst hd
    exact h.own hm
  · rw [hm.frame.others c (Ne.symm hd)]
    exact h.place.frame hm.frame h.inv.slots

lemma Late.steps (h : Late cfg calls s c i) (hs : Steps cfg calls s s') :
    Late cfg calls s' c i := by
  induction hs with
  | refl => exact h
  | tail _ hstep ih => exact ih.step hstep

def Returns (cfg : Config K) (calls : ι → Call K V) (s : State ι K V) (c : ι) (i : Nat) : Prop :=
  ∃ s', Relation.ReflTransGen (StepOf cfg calls c) s s' ∧ s'.pc c = .done i false

lemma Returns.head (hs : StepOf cfg calls c s s') (h : Returns cfg calls s' c i) :
    Returns cfg calls s c i :=
  h.imp fun _ hr => ⟨.head hs hr.1, hr.2⟩

lemma Late.returns_walk {after : After} {l : List Nat} : ∀ {s : State ι K V} {j : Nat},
    Late cfg calls s c i → s.pc c = .walk after j → s.Follows j l → Returns cfg calls s c i := by
  induction l with
  | nil =>
    intro s j h hp hl
    have hat := h.place
    rw [hp] at hat
    obtain ⟨_, l, hl', hi⟩ := hat
    cases hl.unique hl'.1
    cases hi
  | cons j' l ih =>
    intro s j h hp hl
    obtain ⟨s', hs⟩ := h.inv.progress (c := c) (by rw [hp]; rfl) 0
    have hstep : StepOf cfg calls c s s' := ⟨0, hs⟩
    have h' := h.step ⟨c, hstep⟩
    refine .head hstep ?_
    cases hl with
    | cons hj rest =>
      have hm := State.move_of_step hs
      cases hm with
      | notFound hp' =>
        rw [hp] at hp'
        cases hp'
        exact absurd rfl hj
      | @found after' j' hp' hj' hk =>
        have hat := h'.place
        refine ⟨_, .refl, ?_⟩
        rw [hp] at hp'
        cases hp'
        rw [State.setPc_self] at hat ⊢
        cases after with
        | again => exact hat.elim
        | search | first => rw [State.found, hat.1]
      | next hp' hj' hk =>
        rw [hp] at hp'
        cases hp'
        exact ih h' (State.setPc_self _ _ _) rest
      | _ hp' =>
        rw [hp] at hp'
        cases hp'

lemma Late.returns_look {after : After} (h : Late cfg calls s c i)
    (hp : s.pc c = .look after) : Returns cfg calls s c i := by
  have hstep : StepOf cfg calls c s
      (s.setPc c (.walk after (s.head (cfg.keyToSlotIdx (calls c).key)))) := by
    refine ⟨0, ?_⟩
    simp only [State.step, hp]
    rfl
  obtain ⟨l, hl, _⟩ := h.inv.chains.bucket (cfg.keyToSlotIdx (calls c).key)
  exact .head hstep ((h.step ⟨c, hstep⟩).returns_walk (State.setPc_self _ _ _) hl)

lemma Late.returns_load (h : Late cfg calls s c i) (hp : s.pc c = .load) :
    Returns cfg calls s c i := by
  have hstep : StepOf cfg calls c s
      (s.setPc c (.look (.first (s.word (cfg.keyToSlotIdx (calls c).key))))) := by
    refine ⟨0, ?_⟩
    simp only [State.step, hp]
  exact .head hstep ((h.step ⟨c, hstep⟩).returns_look (State.setPc_self _ _ _))

lemma Late.returns (h : Late cfg calls s c i) : Returns cfg calls s c i := by
  have hat := h.place
  cases hp : s.pc c with
  | idle =>
    cases hf : (calls c).construct with
    | none =>
      have hstep : StepOf cfg calls c s (s.setPc c (.look .search)) := by
        refine ⟨0, ?_⟩
        simp only [State.step, hp, hf]
      exact .head hstep ((h.step ⟨c, hstep⟩).returns_look (State.setPc_self _ _ _))
    | some v =>
      have hstep : StepOf cfg calls c s (s.setPc c .load) := by
        refine ⟨0, ?_⟩
        simp only [State.step, hp, hf]
      exact .head hstep ((h.step ⟨c, hstep⟩).returns_load (State.setPc_self _ _ _))
  | load => exact h.returns_load hp
  | look => exact h.returns_look hp
  | walk =>
    rw [hp] at hat
    obtain ⟨_, l, hl, _⟩ := hat
    exact h.returns_walk hp hl.1
  | done =>
    rw [hp] at hat
    obtain ⟨rfl, rfl⟩ := hat
    exact ⟨s, .refl, hp⟩
  | _ =>
    rw [hp] at hat
    exact hat.elim

omit [DecidableEq ι] [DecidableEq K] in
lemma Inv.linked_of_marked (h : Inv cfg calls s)
    (hw : s.word i % 4 = BucketState.LINKED.val) : ∃ k, s.Linked cfg i k := by
  by_cases hc : ∃ c st, (s.pc c).holds = some (i, st)
  · obtain ⟨c, st, hc⟩ := hc
    have hst := (h.slots.held c i st hc).1
    rw [hw] at hst
    cases st with
    | EMPTY | CONSTRUCTING => exact absurd hst (by decide)
    | LINKED => exact ⟨_, h.linked_iff.mpr ⟨c, Pc.inserted_of_linked hc, rfl⟩⟩
  have hi : i ≠ 0 := by
    rintro rfl
    rw [h.slots.zero] at hw
    exact absurd hw (by decide)
  rw [h.slots.free i hi fun c st hcs => hc ⟨c, st, hcs⟩] at hw
  exact absurd hw (by decide)

omit [DecidableEq ι] [DecidableEq K] in
lemma Inv.returned (h : Inv cfg calls s) {inserted : Bool} (hp : s.pc c = .done i inserted) :
    s.Linked cfg i (calls c).key ∨ i = 0 ∧ inserted = false ∧ (calls c).construct = none := by
  cases inserted with
  | true => exact .inl (h.linked_iff.mpr ⟨c, by rw [hp, Pc.inserted], rfl⟩)
  | false =>
    have hok := h.calls c
    rw [hp] at hok
    rcases hok with hf | ⟨hi, hn⟩
    · exact .inl (hf.linked h)
    · exact .inr ⟨hi, rfl, hn⟩

omit [DecidableEq ι] [DecidableEq K] in
lemma Inv.at_most_one (h : Inv cfg calls s) {d : ι} (hc : s.pc c = .done i true)
    (hd : s.pc d = .done j true) (hk : (calls c).key = (calls d).key) : c = d := by
  refine h.chains.distinct c d i j ?_ ?_ hk
  · rw [hc, Pc.inserted]
  · rw [hd, Pc.inserted]

omit [DecidableEq ι] [DecidableEq K] in
lemma Inv.exactly_one (h : Inv cfg calls s) {inserted : Bool}
    (hsome : (calls c).construct.isSome) (hp : s.pc c = .done i inserted)
    (hall : ∀ d, (calls d).key = (calls c).key → (calls d).construct.isSome →
      s.pc d = .idle ∨ ∃ i inserted, s.pc d = .done i inserted) :
    ∃! d, (calls d).key = (calls c).key ∧ ∃ i, s.pc d = .done i true := by
  have hlinked : s.Linked cfg i (calls c).key := by
    rcases h.returned hp with hl | ⟨_, _, hn⟩
    · exact hl
    · rw [hn] at hsome
      cases hsome
  obtain ⟨d, hd, hdk⟩ := h.linked_iff.mp hlinked
  have hdone : s.pc d = .done i true := by
    have hok := h.calls d
    cases hpd : s.pc d with
    | mark =>
      rw [hpd] at hok
      rcases hall d hdk hok with hidle | ⟨_, _, hdone⟩
      · rw [hpd] at hidle
        cases hidle
      · rw [hpd] at hdone
        cases hdone
    | done _ b =>
      rw [hpd] at hd
      cases b with
      | true => cases hd; rfl
      | false => cases hd
    | _ =>
      rw [hpd] at hd
      cases hd
  refine ⟨d, ⟨hdk, i, hdone⟩, ?_⟩
  rintro e ⟨hek, j, hej⟩
  exact h.at_most_one hej hdone (hek.trans hdk.symm)

omit [DecidableEq ι] [DecidableEq K] in
lemma Inv.acyclic (h : Inv cfg calls s) (b : Nat) :
    ∃ l, s.Follows (s.head b) l ∧ l.Nodup ∧ ∀ i ∈ l, i < cfg.numSlots := by
  obtain ⟨l, hl, hmem⟩ := h.chains.bucket b
  refine ⟨l, hl, hl.nodup, fun i hi => ?_⟩
  obtain ⟨d, hd, _⟩ := (hmem i).mp hi
  obtain ⟨st, hh⟩ := Pc.holds_of_inserted hd
  exact (h.slots.held d i st hh).2.2

lemma Inv.found_after (h : Inv cfg calls s) (hl : s.Linked cfg i (calls c).key)
    (hp : s.pc c = .idle) (hs : Steps cfg calls s s') :
    (∀ j inserted, s'.pc c = .done j inserted → j = i ∧ inserted = false) ∧
      Returns cfg calls s' c i := by
  have hlate : Late cfg calls s' c i := Late.steps ⟨h, hl, by rw [hp]; trivial⟩ hs
  refine ⟨fun j inserted hdone => ?_, hlate.returns⟩
  have hat := hlate.place
  rw [hdone] at hat
  exact hat

structure InsertsOnce (cfg : Config K) (calls : ι → Call K V) (s : State ι K V) : Prop where
  linked_once : ∀ i j k, s.Linked cfg i k → s.Linked cfg j k → i = j
  linked_for_good : ∀ s' i k, Steps cfg calls s s' → s.Linked cfg i k →
    s'.Linked cfg i k ∧ ∀ k', s'.Linked cfg i k' → k' = k
  marked : ∀ i, s.word i &&& 3 = BucketState.LINKED.val → ∃ k, s.Linked cfg i k
  returned : ∀ c i inserted, s.pc c = .done i inserted →
    s.Linked cfg i (calls c).key ∨ i = 0 ∧ inserted = false ∧ (calls c).construct = none
  at_most_one : ∀ c d i j, s.pc c = .done i true → s.pc d = .done j true →
    (calls c).key = (calls d).key → c = d
  exactly_one : ∀ k,
    (∃ c i inserted, (calls c).key = k ∧ (calls c).construct.isSome ∧ s.pc c = .done i inserted) →
    (∀ c, (calls c).key = k → (calls c).construct.isSome →
      s.pc c = .idle ∨ ∃ i inserted, s.pc c = .done i inserted) →
    ∃! c, (calls c).key = k ∧ ∃ i, s.pc c = .done i true
  found_after : ∀ s' c i, s.Linked cfg i (calls c).key → s.pc c = .idle → Steps cfg calls s s' →
    (∀ j inserted, s'.pc c = .done j inserted → j = i ∧ inserted = false) ∧
      Returns cfg calls s' c i
  acyclic : ∀ b, ∃ l, s.Follows (s.head b) l ∧ l.Nodup ∧ ∀ i ∈ l, i < cfg.numSlots
  one_owner : ∀ c d i, (s.pc c).owned = some i → (s.pc d).owned = some i → c = d
  owned_unlinked : ∀ c i k, (s.pc c).owned = some i → ¬ s.Linked cfg i k
  progress : ∀ c rand, (s.pc c).finished = false → ∃ s', s.step cfg calls c rand = some s'

theorem reachable_insertsOnce (cfg : Config K) (calls : ι → Call K V) (s : State ι K V)
    (hr : Reachable cfg calls s) : InsertsOnce cfg calls s where
  linked_once := fun i j k => hr.inv.linked_unique
  linked_for_good := by
    intro s' i k hs hl
    have hl' := Linked.steps hr.inv hs hl
    refine ⟨hl', fun k' hk' => ?_⟩
    obtain ⟨_, _, _, hat⟩ := hl'
    obtain ⟨_, _, _, hat'⟩ := hk'
    exact some.inj (hat'.symm.trans hat)
  marked := by
    intro i hw
    rw [and_three] at hw
    exact hr.inv.linked_of_marked hw
  returned := fun c i inserted hp => hr.inv.returned hp
  at_most_one := fun c d i j hc hd hk => hr.inv.at_most_one hc hd hk
  exactly_one := by
    rintro k ⟨c, i, inserted, rfl, hsome, hp⟩ hall
    exact hr.inv.exactly_one hsome hp hall
  found_after := fun s' c i hl hp hs => hr.inv.found_after hl hp hs
  acyclic := hr.inv.acyclic
  one_owner := fun c d i hc hd =>
    hr.inv.slots.unique c d i _ _ (Pc.holds_of_owned hc) (Pc.holds_of_owned hd)
  owned_unlinked := by
    intro c i k hc hl
    obtain ⟨d, hd, _⟩ := hr.inv.linked_iff.mp hl
    exact hr.inv.slots.not_owned hd hc
  progress := fun c rand hp => hr.inv.progress hp rand

end Runs

section Race

variable {ι K V : Type*} [DecidableEq ι] [DecidableEq K] {cfg : Config K} {calls : ι → Call K V}

def State.play (cfg : Config K) (calls : ι → Call K V) :
    List ι → State ι K V → Option (State ι K V)
  | [], s => some s
  | c :: l, s => (s.step cfg calls c 0).bind (State.play cfg calls l)

lemma Steps.play {l : List ι} : ∀ {s s' : State ι K V}, s.play cfg calls l = some s' →
    Steps cfg calls s s' := by
  induction l with
  | nil =>
    intro s s' h
    cases h
    exact .refl
  | cons c l ih =>
    intro s s' h
    obtain ⟨s₁, h₁, h⟩ := bind_eq_some_iff.mp h
    exact .head ⟨c, 0, h₁⟩ (ih h)

def small : Config Nat where
  bits := 32
  numSlots := 8
  slotMask := 31
  hash := fun k => 8 * k + 5
  positive := by decide
  wide := by decide
  fits := by decide

def rivals : Fin 3 → Call Nat Char
  | 0 => ⟨1, some 'a'⟩
  | 1 => ⟨1, some 'b'⟩
  | 2 => ⟨1, none⟩

def race : List (Fin 3) :=
  replicate 12 0 ++ replicate 9 1 ++ [0] ++ replicate 5 1 ++ replicate 3 2

theorem race_insertsOnce : ∃ s : State (Fin 3) Nat Char,
    State.start.play small rivals race = some s ∧ s.pc 0 = .done 5 true ∧
      s.pc 1 = .done 5 false ∧ s.pc 2 = .done 5 false ∧ InsertsOnce small rivals s := by
  have hplay : (State.start.play small rivals race).map (fun s => (s.pc 0, s.pc 1, s.pc 2))
      = some (.done 5 true, .done 5 false, .done 5 false) := by decide
  obtain ⟨s, hs, hpc⟩ := map_eq_some_iff.mp hplay
  simp only [Prod.mk.injEq] at hpc
  exact ⟨s, hs, hpc.1, hpc.2.1, hpc.2.2, reachable_insertsOnce small rivals s (Steps.play hs)⟩

end Race

end Acc.Thread.AtomicMap
