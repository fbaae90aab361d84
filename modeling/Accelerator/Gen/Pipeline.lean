import Accelerator.Gen.Base

namespace Acc.Gen

open Dialogue

inductive Pipeline (ε : Type) : Type → Type 1
  | container {α : Type} (values : List α) : Pipeline ε α
  | unfold {ι α : Type} (start : ι) (next : ι → Except ε (Option (α × ι))) : Pipeline ε α
  | map {α β : Type} (source : Pipeline ε α) (pred : α → Except ε β) : Pipeline ε β
  | filter {α : Type} (source : Pipeline ε α) (pred : α → Except ε Bool) : Pipeline ε α
  | until {α : Type} (source : Pipeline ε α) (pred : α → Except ε Bool) : Pipeline ε α
  | take {α : Type} (source : Pipeline ε α) (count : Nat) : Pipeline ε α
  | stride {α : Type} (source : Pipeline ε α) (n : Nat) : Pipeline ε α
  | sample {α : Type} (source : Pipeline ε α) (count : Nat) (rng : Nat → Nat) : Pipeline ε α
  | skip {α : Type} (source : Pipeline ε α) (count : Nat) : Pipeline ε α
  | order {α : Type} (source : Pipeline ε α) (heapOrder sorted : List α → List α) : Pipeline ε α
  | groupBy {α κ : Type} [DecidableEq κ] (source : Pipeline ε α) (selector : α → Except ε κ)
      (iteration : List (κ × List α) → List (κ × List α)) : Pipeline ε (κ × List α)
  | distinct {α κ : Type} [DecidableEq κ] (source : Pipeline ε α) (selector : α → Except ε κ) :
      Pipeline ε α
  | batch {α : Type} (source : Pipeline ε α) (batchSize : Nat) : Pipeline ε (List α)
  | concat {α β : Type} (source : Pipeline ε β) (inner : β → Pipeline ε α) : Pipeline ε α
  | rconcat {α : Type} (source : Pipeline ε (List α)) : Pipeline ε α
  | guard {α : Type} (source : Pipeline ε α) (catches : ε → Bool)
      (errorHandler : ε → α → Except ε Bool) : Pipeline ε α
  | dereference {α : Type} (source : Pipeline ε (Option α)) : Pipeline ε α
  | cycle {α : Type} (source : Pipeline ε α) (limit : Option Nat) : Pipeline ε α
  | interleave {α : Type} (source : Pipeline ε α) (container : List α) : Pipeline ε α
  | zip {α β : Type} (source : Pipeline ε α) (container : List β) : Pipeline ε (α × β)
  | resplit (source : Pipeline ε StringPiece) (delimiter : UInt8) : Pipeline ε StringPiece
  | chain {α : Type} (first second : Pipeline ε α) : Pipeline ε α

variable {ε α β κ τ : Type}

def Pipeline.impl (fuel : Nat) : {α : Type} → Pipeline ε α → GenImpl ε α
  | _, .container values => Source.generator values
  | _, .unfold start next => Unfold.generator fuel start next
  | _, .map source pred => Map.generator (source.impl fuel) pred
  | _, .filter source pred => Filter.generator (source.impl fuel) pred
  | _, .until source pred => Until.generator (source.impl fuel) pred
  | _, .take source count => Take.generator (source.impl fuel) count
  | _, .stride source n => Stride.generator (source.impl fuel) n
  | _, .sample source count rng => Sample.generator (source.impl fuel) count rng
  | _, .skip source count => Skip.generator (source.impl fuel) count
  | _, .order source heapOrder sorted => Order.generator (source.impl fuel) heapOrder sorted
  | _, @groupBy _ _ _ _ source selector iteration => GroupBy.generator (source.impl fuel) selector iteration
  | _, @distinct _ _ _ _ source selector => Distinct.generator (source.impl fuel) selector
  | _, .batch source batchSize => Batch.generator (source.impl fuel) batchSize
  | _, .concat source inner => Concat.generator (source.impl fuel) fun value => (inner value).impl fuel
  | _, .rconcat source => RangeConcat.generator (source.impl fuel)
  | _, .guard source catches errorHandler => GuardImpl.generator (source.impl fuel) catches errorHandler
  | _, .dereference source => Dereference.generator (source.impl fuel)
  | _, .cycle source limit => Cycle.generator (source.impl fuel) fuel limit
  | _, .interleave source values => Interleave.generator (source.impl fuel) values
  | _, .zip source values => Zip.generator (source.impl fuel) values
  | _, .resplit source delimiter => StringResplitter.generator (source.impl fuel) delimiter
  | _, .chain first second => Chain.generator (first.impl fuel) (second.impl fuel)

abbrev Cancels (p : Apply ε α) : Prop := Heeds (.ok false) (· = .ok false) p

lemma applyEach_cancels (values : List α) : Cancels (applyEach values : Apply ε α) :=
  (applyEach_relays values).heeds Answer.false_ne_true

lemma Unfold.cancels {ι : Type} (next : ι → Except ε (Option (α × ι))) (fuel : Nat) (start : ι) :
    Cancels (Unfold.apply next fuel start) := by
  induction fuel generalizing start with
  | zero => trivial
  | succ fuel ih =>
    rw [Unfold.apply]
    split
    · trivial
    · trivial
    refine ⟨.inl ⟨_, rfl, rfl⟩, fun x => ?_⟩
    rcases x with e | b
    · trivial
    · cases b with
      | false => trivial
      | true => exact ih _

section Stages

variable {source : GenImpl ε α} (hsource : Cancels source.apply)
include hsource

variable {body : α → τ → Dialogue (Answer ε) β (Answer ε × τ)}

lemma cancels_applyWith {Q : τ → Prop} {f : Answer ε × τ → Answer ε}
    (hbody : ∀ a t, Heeds (.ok false) (fun r => r.1 = .ok false ∧ Q r.2) (body a t))
    (hf : ∀ t, Q t → f (.ok false, t) = .ok false) (t : τ) :
    Cancels ((applyWith source t body).map f) := by
  refine (Heeds.handle hbody hsource t).bind (fun r hr => ?_) fun r => trivial
  obtain ⟨x, t⟩ := r
  obtain ⟨rfl, ht⟩ := hr
  exact .inl ⟨_, hf t ht, rfl⟩

lemma cancels_applyWith_fst
    (hbody : ∀ a t, Heeds (.ok false) (fun r => r.1 = .ok false ∧ True) (body a t)) (t : τ) :
    Cancels ((applyWith source t body).map Prod.fst) :=
  cancels_applyWith (Q := fun _ => True) hsource hbody (fun _ _ => rfl) t

lemma Map.cancels (pred : α → Except ε β) : Cancels (Map.generator source pred).apply := by
  refine cancels_applyWith_fst hsource (fun value t => ?_) ()
  cases pred value with
  | error e => trivial
  | ok value => exact ⟨.inl ⟨_, ⟨rfl, trivial⟩, rfl⟩, fun _ => trivial⟩

lemma Filter.cancels (pred : α → Except ε Bool) : Cancels (Filter.generator source pred).apply := by
  refine cancels_applyWith_fst hsource (fun value t => ?_) ()
  rcases pred value with e | _ | _
  · trivial
  · trivial
  · exact ⟨.inl ⟨_, ⟨rfl, trivial⟩, rfl⟩, fun _ => trivial⟩

lemma Until.cancels (pred : α → Except ε Bool) : Cancels (Until.generator source pred).apply := by
  refine cancels_applyWith (Q := (· = true)) hsource (fun value cancelled => ?_) ?_ false
  · rcases pred value with e | _ | _
    · trivial
    · refine ⟨.inl ⟨_, ⟨rfl, rfl⟩, rfl⟩, fun x => ?_⟩
      rcases x with e | _ | _ <;> trivial
    · trivial
  · rintro _ rfl
    rfl

lemma Take.cancels (count : Nat) : Cancels (Take.generator source count).apply := by
  by_cases hcount : count = 0
  · rw [Take.generator, if_pos hcount]
    trivial
  rw [Take.generator, if_neg hcount]
  refine cancels_applyWith (Q := (·.2 = true)) hsource (fun value t => ?_) ?_ (count, false)
  · refine ⟨.inl ⟨_, ⟨rfl, rfl⟩, rfl⟩, fun x => ?_⟩
    rcases x with e | _ | _ <;> trivial
  · rintro ⟨n, _⟩ rfl
    rfl

lemma Stride.cancels (stride : Nat) : Cancels (Stride.generator source stride).apply := by
  refine cancels_applyWith_fst hsource (fun value distance => ?_) stride
  dsimp only
  split
  · refine ⟨.inl ⟨_, ⟨rfl, trivial⟩, rfl⟩, fun x => ?_⟩
    rcases x with e | _ | _ <;> trivial
  · trivial

lemma Skip.cancels (count : Nat) : Cancels (Skip.generator source count).apply := by
  by_cases hcount : count = 0
  · rw [Skip.generator, if_pos hcount]
    exact hsource
  rw [Skip.generator, if_neg hcount]
  refine cancels_applyWith_fst hsource (fun value n => ?_) 0
  split
  · trivial
  · exact ⟨.inl ⟨_, ⟨rfl, trivial⟩, rfl⟩, fun _ => trivial⟩

lemma Distinct.cancels [DecidableEq κ] (selector : α → Except ε κ) :
    Cancels (Distinct.generator source selector).apply := by
  refine cancels_applyWith_fst hsource (fun value keysSeen => ?_) []
  cases selector value with
  | error e => trivial
  | ok key =>
    dsimp only
    split
    · trivial
    · exact ⟨.inl ⟨_, ⟨rfl, trivial⟩, rfl⟩, fun _ => trivial⟩

lemma Batch.cancels (batchSize : Nat) : Cancels (Batch.generator source batchSize).apply := by
  refine (Heeds.handle (Q := fun _ => True) (fun value batch => ?_) hsource []).bind ?_ ?_
  · dsimp only
    split
    · refine ⟨.inl ⟨_, ⟨rfl, trivial⟩, rfl⟩, fun x => ?_⟩
      rcases x with e | _ | _ <;> trivial
    · trivial
  · rintro ⟨_, batch⟩ ⟨rfl, -⟩
    exact .inl ⟨_, rfl, rfl⟩
  rintro ⟨e | _ | _, batch⟩
  · trivial
  · trivial
  show Cancels (if batch ≠ [] then call batch ret else ret (.ok true))
  split
  · exact ⟨.inl ⟨_, rfl, rfl⟩, fun _ => trivial⟩
  · trivial

lemma Concat.cancels {inner : α → GenImpl ε β} (hinner : ∀ value, Cancels (inner value).apply) :
    Cancels (Concat.generator source inner).apply :=
  cancels_applyWith_fst hsource
    (fun value () => (hinner value).bind (fun _ hr => .inl ⟨_, ⟨hr, trivial⟩, rfl⟩) fun _ => trivial) ()

lemma GuardImpl.cancels (catches : ε → Bool) (errorHandler : ε → α → Except ε Bool) :
    Cancels (GuardImpl.generator source catches errorHandler).apply := by
  refine cancels_applyWith_fst hsource (fun value t => ?_) ()
  refine ⟨.inr ⟨_, rfl⟩, fun x => ?_⟩
  rcases x with e | _ | _ <;> trivial

lemma Cycle.round_cancels {next : Apply ε α} (hnext : Cancels next) :
    Cancels (Cycle.round source next) := by
  refine (Heeds.handle (Q := (· = false)) (fun value cont => ?_) hsource false).bind ?_ ?_
  · refine ⟨.inl ⟨_, ⟨rfl, rfl⟩, rfl⟩, fun x => ?_⟩
    cases x <;> trivial
  · rintro ⟨_, _⟩ ⟨rfl, rfl⟩
    exact .inl ⟨_, rfl, rfl⟩
  rintro ⟨e | b, cont⟩
  · trivial
  · cases cont with
    | false => trivial
    | true => exact hnext

lemma Cycle.rounds_cancels (last : Apply ε α) (hlast : Cancels last) (n : Nat) :
    Cancels (Cycle.rounds source last n) := by
  induction n with
  | zero => exact hlast
  | succ n ih => exact Cycle.round_cancels hsource ih

lemma Cycle.cancels (fuel : Nat) (limit : Option Nat) :
    Cancels (Cycle.generator source fuel limit).apply :=
  match limit with
  | some n => Cycle.rounds_cancels hsource (ret (.ok true)) trivial n
  | none => Cycle.rounds_cancels hsource out trivial fuel

lemma Interleave.cancels (container : List α) :
    Cancels (Interleave.generator source container).apply := by
  refine cancels_applyWith_fst hsource (fun value iter => ?_) container
  cases iter with
  | nil => trivial
  | cons other rest =>
    refine ⟨.inl ⟨_, ⟨rfl, trivial⟩, rfl⟩, fun x => ?_⟩
    rcases x with e | _ | _
    · trivial
    · trivial
    · refine ⟨.inl ⟨_, ⟨rfl, trivial⟩, rfl⟩, fun x => ?_⟩
      rcases x with e | _ | _ <;> trivial

lemma Zip.cancels (container : List β) : Cancels (Zip.generator source container).apply := by
  refine cancels_applyWith_fst hsource (fun value iter => ?_) container
  cases iter with
  | nil => trivial
  | cons other rest =>
    refine ⟨.inl ⟨_, ⟨rfl, trivial⟩, rfl⟩, fun x => ?_⟩
    rcases x with e | _ | _ <;> trivial

lemma Chain.cancels {second : GenImpl ε α} (hsecond : Cancels second.apply) :
    Cancels (Chain.generator source second).apply := by
  refine hsource.bind ?_ ?_
  · rintro _ rfl
    exact .inl ⟨_, rfl, rfl⟩
  rintro (e | _ | _)
  · trivial
  · trivial
  · exact hsecond

end Stages

lemma RangeConcat.cancels {source : GenImpl ε (List α)} (hsource : Cancels source.apply) :
    Cancels (RangeConcat.generator source).apply :=
  cancels_applyWith_fst hsource
    (fun range () => (applyEach_cancels range).bind (fun _ hr => .inl ⟨_, ⟨hr, trivial⟩, rfl⟩)
      fun _ => trivial) ()

lemma Dereference.cancels {source : GenImpl ε (Option α)} (hsource : Cancels source.apply) :
    Cancels (Dereference.generator source).apply := by
  refine cancels_applyWith_fst hsource (fun value t => ?_) ()
  cases value with
  | none => trivial
  | some value => exact ⟨.inl ⟨_, ⟨rfl, trivial⟩, rfl⟩, fun _ => trivial⟩

lemma gather_passes {source : GenImpl ε α} (t : τ) (body : α → τ → Except ε τ)
    {next : τ → Apply ε β} (hnext : ∀ t, Passes (next t)) : Passes (gather source t body next) := by
  refine (silent_handle (fun value t => ?_) source.foreach t).bind ?_
  · cases body value t <;> exact ⟨_, rfl⟩
  · rintro ⟨e | _, t⟩
    · exact nofun
    · exact hnext t

lemma gather_applyEach_passes {source : GenImpl ε α} (t : τ) (body : α → τ → Except ε τ)
    (values : τ → List β) : Passes (gather source t body fun t => applyEach (values t)) :=
  gather_passes t body fun t => applyEach_passes (values t)

lemma Sample.passes {count : Nat} (hcount : count ≠ 0) (source : GenImpl ε α) (rng : Nat → Nat) :
    Passes (Sample.generator source count rng).apply := by
  rw [Sample.generator, if_neg hcount]
  exact gather_applyEach_passes ([], 1, 0) (fun value t => .ok (Sample.step count rng value t)) Prod.fst

lemma Sample.cancels (source : GenImpl ε α) (count : Nat) (rng : Nat → Nat) :
    Cancels (Sample.generator source count rng).apply := by
  by_cases hcount : count = 0
  · rw [Sample.generator, if_pos hcount]
    trivial
  · exact (Sample.passes hcount source rng).heeds Answer.false_ne_true

lemma Order.passes (source : GenImpl ε α) (heapOrder sorted : List α → List α) :
    Passes (Order.generator source heapOrder sorted).apply :=
  gather_applyEach_passes [] (fun value t => .ok (t ++ [value])) heapOrder

lemma GroupBy.passes [DecidableEq κ] (source : GenImpl ε α) (selector : α → Except ε κ)
    (iteration : List (κ × List α) → List (κ × List α)) :
    Passes (GroupBy.generator source selector iteration).apply :=
  gather_applyEach_passes []
    (fun value groups => (selector value).map fun key => GroupBy.push key value groups) iteration

lemma StringResplitter.callback_relays (delimiter : UInt8) (s : StringPiece) :
    Relays (.ok true) (fun (x r : Answer ε) => r = x) (· = .ok true)
      (StringResplitter.callback delimiter s) := by
  unfold StringResplitter.callback
  split
  · rfl
  · split <;> exact ⟨fun x _ => ⟨_, rfl, rfl⟩, rfl⟩

lemma StringResplitter.body_relays {delimiter : UInt8}
    {p : Dialogue (Answer ε) StringPiece (Answer ε × StringPiece)}
    (hp : Relays (.ok true) (fun (x : Answer ε) r => r.1 = x) (·.1 = .ok true) p) :
    Relays (.ok true) (fun (x : Answer ε) r => r.1 = x) (·.1 = .ok true)
      (StringResplitter.body delimiter p) := by
  have hcallback : ∀ (s : StringPiece) (l : List StringPiece) (t : Unit), True →
      Relays (.ok true) (fun (x : Answer ε) (r : Answer ε × Unit) => r.1 = x ∧ True)
        (fun r => r.1 = .ok true ∧ True ∨ r.1 ≠ .ok true ∧ False)
        ((StringResplitter.callback delimiter s).map fun x => (x, ())) := fun s l t _ =>
    (StringResplitter.callback_relays delimiter s).bind
      (fun x r _ hr => ⟨_, ⟨hr, trivial⟩, rfl⟩) fun r hr => .inl ⟨hr, trivial⟩
  refine (Relays.handle (P := fun _ _ => True) (Q := fun _ _ => True) (F := fun _ _ => False) hp
    hcallback () trivial).bind ?_ ?_
  · rintro x r - ⟨hr, -⟩
    exact ⟨_, hr, rfl⟩
  · rintro r (⟨hr, -⟩ | ⟨x, -, -, hfalse⟩)
    · exact hr
    · exact hfalse.elim

lemma StringResplitter.cancels {source : GenImpl ε StringPiece} (hsource : Cancels source.apply)
    (delimiter : UInt8) : Cancels (StringResplitter.generator source delimiter).apply := by
  refine (Heeds.handle (Q := fun _ => True) (fun value buffer => ?_) hsource []).bind ?_ ?_
  · have hbody : Relays (.ok true) (fun (x : Answer ε) r => r.1 = x ∧ True) (·.1 = .ok true)
        (StringResplitter.body delimiter (StreamSplitter.operatorCall delimiter 0 buffer value)) :=
      (StringResplitter.body_relays (StreamSplitter.operatorCall_relays buffer value)).mono
        (fun _ _ _ hr => ⟨hr, trivial⟩) fun _ hr => hr
    exact hbody.heeds Answer.false_ne_true
  · rintro ⟨_, buffer⟩ ⟨rfl, -⟩
    exact .inl ⟨_, rfl, rfl⟩
  rintro ⟨e | _ | _, buffer⟩
  · trivial
  · trivial
  · exact ((StringResplitter.body_relays (StreamSplitter.flush_relays buffer)).heeds Answer.false_ne_true).bind
      (fun r hr => .inl ⟨_, hr, rfl⟩) fun _ => trivial

lemma Pipeline.cancels (fuel : Nat) (p : Pipeline ε α) : Cancels (p.impl fuel).apply := by
  induction p with
  | container values => exact applyEach_cancels values
  | unfold start next => exact Unfold.cancels next fuel start
  | map source pred ih => exact Map.cancels ih pred
  | filter source pred ih => exact Filter.cancels ih pred
  | «until» source pred ih => exact Until.cancels ih pred
  | take source count ih => exact Take.cancels ih count
  | stride source n ih => exact Stride.cancels ih n
  | sample source count rng ih => exact Sample.cancels _ count rng
  | skip source count ih => exact Skip.cancels ih count
  | order source heapOrder sorted ih => exact (Order.passes _ _ _).heeds Answer.false_ne_true
  | groupBy source selector iteration ih => exact (GroupBy.passes _ _ _).heeds Answer.false_ne_true
  | distinct source selector ih => exact Distinct.cancels ih selector
  | batch source batchSize ih => exact Batch.cancels ih batchSize
  | concat source inner ih ihinner => exact Concat.cancels ih ihinner
  | rconcat source ih => exact RangeConcat.cancels ih
  | guard source catches errorHandler ih => exact GuardImpl.cancels ih catches errorHandler
  | dereference source ih => exact Dereference.cancels ih
  | cycle source limit ih => exact Cycle.cancels ih fuel limit
  | interleave source container ih => exact Interleave.cancels ih container
  | zip source container ih => exact Zip.cancels ih container
  | resplit source delimiter ih => exact StringResplitter.cancels ih delimiter
  | chain first second ih₁ ih₂ => exact Chain.cancels ih₁ ih₂

theorem Pipeline.cancellation_final (fuel : Nat) {α σ : Type} (p : Pipeline ε α) (handler : α → σ → Answer ε × σ)
    (s : σ) (hguard : Event.note ∉ trace handler (p.impl fuel).apply s) (i : Nat) (value : α)
    (hfalse : (trace handler (p.impl fuel).apply s)[i]? = some (.call value (.ok false))) :
    (trace handler (p.impl fuel).apply s).length = i + 1 :=
  (p.cancels fuel).last_call hguard hfalse

theorem Pipeline.cancellation_final_take :
    (trace (fun _ (s : Unit) => ((.ok false : Answer Empty), s))
      (((Pipeline.container [1, 2]).take 2).impl 0).apply ()).length = 0 + 1 :=
  Pipeline.cancellation_final 0 ((Pipeline.container [1, 2]).take 2)
    (fun _ (s : Unit) => ((.ok false : Answer Empty), s)) () (fun hnote => nomatch hnote) 0 1 rfl

theorem Pipeline.guard_calls_again :
    trace (fun _ (s : Unit) => ((.ok false : Answer Empty), s))
        (((Pipeline.container [1, 2]).guard (fun _ => true) fun _ _ => .ok true).impl 0).apply ()
      = [.call 1 (.ok false), .note, .call 2 (.ok false), .note] :=
  rfl

end Acc.Gen
