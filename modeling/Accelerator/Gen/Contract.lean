import Accelerator.Gen.Pipeline

namespace Acc.Gen

open Dialogue Answer GuardImpl List Acc.Gen.Cycle Interleave StringResplitter

variable {ε α β κ τ : Type}

def KeepsContract (p : Apply ε α) : Prop :=
  ∀ (σ : Type) (handler : α → σ → Answer ε × σ) (s : σ),
    result handler p s = some (.ok false) ↔ ∃ value, Event.call value (.ok false) ∈ trace handler p s

lemma Passes.keepsContract {p : Apply ε α} (hp : Passes p) : KeepsContract p :=
  fun _ _ s => hp.result_eq_iff Answer.false_ne_true s

lemma KeepsContract.not_yields {p : Apply ε α} (hp : KeepsContract p) {l : List α} :
    ¬ Yields (.ok true) p l (.ok false) := by
  intro hyields
  have hyes : ∀ (a : α) (s : Unit), ((fun _ (s : Unit) => ((.ok true : Answer ε), s)) a s).1 = .ok true :=
    fun _ _ => rfl
  obtain ⟨value, hcall⟩ := (hp Unit _ ()).mp (hyields.result_eq hyes ())
  exact Answer.false_ne_true (answer_of_mem_trace hyes hcall)

lemma Unfold.passes {ι : Type} (next : ι → Except ε (Option (α × ι))) (fuel : Nat) (start : ι) :
    Passes (Unfold.apply next fuel start) := by
  induction fuel generalizing start with
  | zero => trivial
  | succ fuel ih =>
    rw [Unfold.apply]
    split
    · simp [Relays]
    · simp [Relays]
    · refine ⟨fun x hx => ?_, ih _⟩
      obtain ⟨e, rfl⟩ | rfl := error_or_false hx <;> exact ⟨_, rfl, rfl⟩

section Stages

variable {source : GenImpl ε α} (hsource : Passes source.apply)
include hsource

variable {body : α → τ → Dialogue (Answer ε) β (Answer ε × τ)}

lemma passes_applyWith_of {P : List α → τ → Prop}
    (hbody : ∀ a l t, P (a :: l) t → Relays (.ok true) (fun x r => r.1 = x)
      (fun r => r.1 ≠ .ok false ∧ P l r.2) (body a t))
    {t : τ} (ht : P (given (.ok true) source.apply) t) :
    Passes ((applyWith source t body).map Prod.fst) := by
  refine (Relays.handle (P := P) (Q := fun _ _ => True) (F := fun x _ => x ≠ .ok false) hsource
    (fun a l t ht => (hbody a l t ht).mono (fun _ _ _ hr => ⟨hr, trivial⟩) fun r hr => ?_) t ht).bind
    ?_ ?_
  · by_cases hyes : r.1 = .ok true
    · exact .inl ⟨hyes, hr.2⟩
    · exact .inr ⟨hyes, hr.1⟩
  · rintro x r - ⟨hr, -⟩
    exact ⟨_, hr, rfl⟩
  · rintro r (⟨hr, -⟩ | ⟨x, -, rfl, hx⟩)
    · exact hr
    · exact hx

lemma passes_applyWith
    (hbody : ∀ a t, Relays (.ok true) (fun x r => r.1 = x) (fun r => r.1 ≠ .ok false) (body a t)) (t : τ) :
    Passes ((applyWith source t body).map Prod.fst) :=
  passes_applyWith_of (P := fun _ _ => True) hsource
    (fun a _ t _ => (hbody a t).mono (fun _ _ _ hr => hr) fun _ hr => ⟨hr, trivial⟩) trivial

lemma Map.passes (pred : α → Except ε β) : Passes (Map.generator source pred).apply := by
  refine passes_applyWith hsource (fun value t => ?_) ()
  cases pred value with
  | error e => exact nofun
  | ok value => exact ⟨fun x _ => ⟨_, rfl, rfl⟩, nofun⟩

lemma Filter.passes (pred : α → Except ε Bool) : Passes (Filter.generator source pred).apply := by
  refine passes_applyWith hsource (fun value t => ?_) ()
  rcases pred value with e | _ | _
  · exact nofun
  · exact nofun
  · exact ⟨fun x _ => ⟨_, rfl, rfl⟩, nofun⟩

lemma passes_notCancelled (cancelled : τ → Bool)
    (hbody : ∀ a t, cancelled t = false → Relays (.ok true)
      (fun x r => r.1 = x ∧ (x = .ok false → cancelled r.2 = true)) (fun r => cancelled r.2 = false)
      (body a t)) {t : τ} (ht : cancelled t = false) :
    Passes ((applyWith source t body).map fun r => notCancelled r.1 (cancelled r.2)) := by
  refine (Relays.handle (P := fun _ t => cancelled t = false)
    (Q := fun x t => x = .ok false → cancelled t = true) (F := fun _ t => cancelled t = false) hsource
    (fun a l t ht => (hbody a t ht).mono (fun _ _ _ hr => hr) fun r hr => ?_) t ht).bind ?_ ?_
  · by_cases hyes : r.1 = .ok true
    · exact .inl ⟨hyes, hr⟩
    · exact .inr ⟨hyes, hr⟩
  · rintro x ⟨_, t⟩ hx ⟨rfl, hcancelled⟩
    obtain ⟨e, rfl⟩ | rfl := error_or_false hx
    · exact ⟨_, rfl, rfl⟩
    refine ⟨_, rfl, ?_⟩
    show (ret (notCancelled (.ok false) (cancelled t)) : Apply ε β) = _
    rw [hcancelled rfl]
    rfl
  have hown : ∀ (x : Answer ε) (t : τ), cancelled t = false →
      notCancelled x (cancelled t) ≠ .ok false := by
    intro x t ht
    rw [ht]
    cases x <;> exact nofun
  rintro ⟨x, t⟩ (⟨-, ht⟩ | ⟨_, -, -, ht⟩) <;> exact hown x t ht

lemma Until.passes (pred : α → Except ε Bool) : Passes (Until.generator source pred).apply := by
  refine passes_notCancelled hsource id (fun value cancelled hc => ?_) rfl
  rcases pred value with e | _ | _
  · exact hc
  · refine ⟨fun x hx => ?_, hc⟩
    obtain ⟨e, rfl⟩ | rfl := error_or_false hx
    · exact ⟨_, ⟨rfl, nofun⟩, rfl⟩
    · exact ⟨_, ⟨rfl, fun _ => rfl⟩, rfl⟩
  · exact hc

lemma Take.passes {count : Nat} (hcount : count ≠ 0) :
    Passes (Take.generator source count).apply := by
  rw [Take.generator, if_neg hcount]
  refine passes_notCancelled hsource Prod.snd (fun value t hc => ?_) rfl
  refine ⟨fun x hx => ?_, hc⟩
  obtain ⟨e, rfl⟩ | rfl := error_or_false hx
  · exact ⟨_, ⟨rfl, by simp⟩, rfl⟩
  · exact ⟨_, ⟨rfl, fun _ => rfl⟩, rfl⟩

lemma Stride.passes (stride : Nat) : Passes (Stride.generator source stride).apply := by
  refine passes_applyWith hsource (fun value distance => ?_) stride
  dsimp only
  split
  · refine ⟨fun x hx => ?_, nofun⟩
    obtain ⟨e, rfl⟩ | rfl := error_or_false hx <;> exact ⟨(_, _), rfl, rfl⟩
  · exact nofun

lemma Skip.passes (count : Nat) : Passes (Skip.generator source count).apply := by
  by_cases hcount : count = 0
  · rw [Skip.generator, if_pos hcount]
    exact hsource
  rw [Skip.generator, if_neg hcount]
  refine passes_applyWith hsource (fun value n => ?_) 0
  split
  · simp [Relays]
  · exact ⟨fun x _ => ⟨(x, _), rfl, rfl⟩, by simp [Relays]⟩

lemma Distinct.passes [DecidableEq κ] (selector : α → Except ε κ) :
    Passes (Distinct.generator source selector).apply := by
  refine passes_applyWith hsource (fun value keysSeen => ?_) []
  cases selector value with
  | error e => exact nofun
  | ok key =>
    dsimp only
    split
    · exact nofun
    · exact ⟨fun x _ => ⟨(x, _), rfl, rfl⟩, nofun⟩

lemma Batch.passes (batchSize : Nat) : Passes (Batch.generator source batchSize).apply := by
  refine (Relays.handle (P := fun _ _ => True) (Q := fun _ _ => True) (F := fun _ _ => False) hsource
    (fun value l batch _ => ?_) [] trivial).bind ?_ ?_
  · dsimp only
    split
    · refine ⟨fun x hx => ?_, .inl ⟨rfl, trivial⟩⟩
      obtain ⟨e, rfl⟩ | rfl := error_or_false hx <;> exact ⟨(_, _), ⟨rfl, trivial⟩, rfl⟩
    · exact .inl ⟨rfl, trivial⟩
  · rintro x ⟨_, batch⟩ hx ⟨rfl, -⟩
    obtain ⟨e, rfl⟩ | rfl := error_or_false hx <;> exact ⟨_, rfl, rfl⟩
  rintro ⟨x, batch⟩ (⟨hx, -⟩ | ⟨_, -, -, hfalse⟩)
  · rcases x with e | _ | _
    · exact nofun
    · exact absurd rfl hx
    show Passes (if batch ≠ [] then call batch ret else ret (.ok true))
    split
    · exact ⟨fun x _ => ⟨x, rfl, rfl⟩, nofun⟩
    · exact nofun
  · exact hfalse.elim

lemma Concat.passes {inner : α → GenImpl ε β} (hinner : ∀ value, Passes (inner value).apply) :
    Passes (Concat.generator source inner).apply :=
  passes_applyWith hsource
    (fun value () => (hinner value).bind (fun _ _ _ hr => ⟨_, hr, rfl⟩) fun _ hr => hr) ()

lemma GuardImpl.passes (catches : ε → Bool) (errorHandler : ε → α → Except ε Bool)
    (hnone : given (.ok true) source.apply = []) :
    Passes (generator source catches errorHandler).apply :=
  passes_applyWith_of (P := fun l _ => l = []) hsource
    (fun a l _ hl => absurd hl (cons_ne_nil a l)) hnone

lemma Cycle.round_passes {next : Apply ε α} (hnext : Passes next)
    (hvalue : ¬ ∃ b, Yields (.ok true) source.apply [] (.ok b)) : Passes (Cycle.round source next) := by
  by_cases hgiven : given (.ok true) source.apply = []
  · unfold Cycle.round applyWith
    have hsilent := silent_of_given_eq_nil hgiven
    generalize source.apply = p at hsilent hvalue
    induction p with
    | ret r =>
      rcases r with e | b
      · exact nofun
      · exact absurd ⟨b, .ret _⟩ hvalue
    | call a k _ => exact hsilent.elim
    | out => trivial
    | note p ih => exact ih hsilent fun ⟨b, hb⟩ => hvalue ⟨b, .note hb⟩
  refine (Relays.handle (P := fun l cont => cont = true ∨ l ≠ [])
    (Q := fun x cont => x = .ok false → cont = false) (F := fun _ _ => False) hsource
    (fun value l cont _ => ?_) false (.inr hgiven)).bind ?_ ?_
  · refine ⟨fun x hx => ?_, .inl ⟨rfl, .inl rfl⟩⟩
    obtain ⟨e, rfl⟩ | rfl := error_or_false hx
    · exact ⟨_, ⟨rfl, nofun⟩, rfl⟩
    · exact ⟨_, ⟨rfl, fun _ => rfl⟩, rfl⟩
  · rintro x ⟨_, cont⟩ hx ⟨rfl, hcont⟩
    obtain ⟨e, rfl⟩ | rfl := error_or_false hx
    · exact ⟨_, rfl, rfl⟩
    · obtain rfl : cont = false := hcont rfl
      exact ⟨_, rfl, rfl⟩
  rintro ⟨x, cont⟩ (⟨-, hcont⟩ | ⟨_, -, -, hfalse⟩)
  · obtain rfl : cont = true := hcont.resolve_right fun h => h rfl
    cases x with
    | error e => exact nofun
    | ok b => exact hnext
  · exact hfalse.elim

lemma Cycle.rounds_passes (last : Apply ε α) (hlast : Passes last) {n : Nat}
    (hvalue : n = 0 ∨ ¬ ∃ b, Yields (.ok true) source.apply [] (.ok b)) :
    Passes (rounds source last n) := by
  induction n with
  | zero => exact hlast
  | succ n ih =>
    have hsome := hvalue.resolve_left (Nat.succ_ne_zero n)
    exact round_passes hsource (ih (.inr hsome)) hsome

lemma Interleave.passes {container : List α}
    (hlength : (given (.ok true) source.apply).length ≤ container.length) :
    Passes (generator source container).apply := by
  refine passes_applyWith_of (P := fun l iter => l.length ≤ iter.length) hsource
    (fun value l iter hle => ?_) hlength
  cases iter with
  | nil => exact absurd hle (Nat.not_succ_le_zero _)
  | cons other rest =>
    refine ⟨fun x hx => ?_, fun x hx => ?_, nofun, Nat.le_of_succ_le_succ hle⟩
    · obtain ⟨e, rfl⟩ | rfl := error_or_false hx <;> exact ⟨(_, _), rfl, rfl⟩
    · obtain ⟨e, rfl⟩ | rfl := error_or_false hx <;> exact ⟨(_, _), rfl, rfl⟩

lemma Zip.passes {container : List β}
    (hlength : (given (.ok true) source.apply).length ≤ container.length) :
    Passes (Zip.generator source container).apply := by
  refine passes_applyWith_of (P := fun l iter => l.length ≤ iter.length) hsource
    (fun value l iter hle => ?_) hlength
  cases iter with
  | nil => exact absurd hle (Nat.not_succ_le_zero _)
  | cons other rest =>
    refine ⟨fun x hx => ?_, nofun, Nat.le_of_succ_le_succ hle⟩
    obtain ⟨e, rfl⟩ | rfl := error_or_false hx <;> exact ⟨(_, _), rfl, rfl⟩

lemma Chain.passes {second : GenImpl ε α} (hsecond : Passes second.apply) :
    Passes (Chain.generator source second).apply := by
  refine hsource.bind ?_ ?_
  · rintro x _ hx rfl
    obtain ⟨e, rfl⟩ | rfl := error_or_false hx <;> exact ⟨_, rfl, rfl⟩
  rintro (e | _ | _) hr
  · exact nofun
  · exact absurd rfl hr
  · exact hsecond

end Stages

lemma RangeConcat.passes {source : GenImpl ε (List α)} (hsource : Passes source.apply) :
    Passes (RangeConcat.generator source).apply :=
  passes_applyWith hsource
    (fun range () => (applyEach_passes range).bind (fun _ _ _ hr => ⟨_, hr, rfl⟩) fun _ hr => hr) ()

lemma Dereference.passes {source : GenImpl ε (Option α)} (hsource : Passes source.apply) :
    Passes (Dereference.generator source).apply := by
  refine passes_applyWith hsource (fun value t => ?_) ()
  cases value with
  | none => exact nofun
  | some value => exact ⟨fun x _ => ⟨_, rfl, rfl⟩, nofun⟩

lemma StringResplitter.passes {source : GenImpl ε StringPiece} (hsource : Passes source.apply)
    (delimiter : UInt8) : Passes (generator source delimiter).apply := by
  refine (Relays.handle (P := fun _ _ => True) (Q := fun _ _ => True) (F := fun _ _ => False) hsource
    (fun value l buffer _ =>
      (body_relays (StreamSplitter.operatorCall_relays buffer value)).mono
        (fun _ _ _ hr => ⟨hr, trivial⟩) fun _ hr => .inl ⟨hr, trivial⟩) [] trivial).bind ?_ ?_
  · rintro x ⟨_, buffer⟩ hx ⟨rfl, -⟩
    obtain ⟨e, rfl⟩ | rfl := error_or_false hx <;> exact ⟨_, rfl, rfl⟩
  rintro ⟨x, buffer⟩ (⟨hx, -⟩ | ⟨_, -, -, hfalse⟩)
  · rcases x with e | _ | _
    · exact nofun
    · exact absurd rfl hx
    · exact (body_relays (StreamSplitter.flush_relays buffer)).bind
        (fun _ _ _ hr => ⟨_, hr, rfl⟩) fun r hr => hr ▸ Answer.false_ne_true.symm
  · exact hfalse.elim

section Own

variable {source : GenImpl ε α}

lemma Take.count_ne_zero {count : Nat} (h : KeepsContract (Take.generator source count).apply) :
    count ≠ 0 := by
  rintro rfl
  exact h.not_yields (.ret _)

lemma Sample.count_ne_zero {count : Nat} {rng : Nat → Nat}
    (h : KeepsContract (Sample.generator source count rng).apply) : count ≠ 0 := by
  rintro rfl
  exact h.not_yields (.ret _)

lemma Cycle.rounds_value {last : Apply ε α} {n : Nat}
    (h : KeepsContract (rounds source last n)) :
    n = 0 ∨ ¬ ∃ b, Yields (.ok true) source.apply [] (.ok b) := by
  cases n with
  | zero => exact .inl rfl
  | succ n =>
    refine .inr fun ⟨b, hb⟩ => ?_
    exact h.not_yields ((hb.handle_nil false).bind (.ret _))

variable (hsource : Passes source.apply)
include hsource

lemma Interleave.length_le {container : List α}
    (h : KeepsContract (generator source container).apply) :
    (given (.ok true) source.apply).length ≤ container.length := by
  by_contra hlt
  have hmore : ∀ (value : α) (iter : List α), iter.length ≠ 0 → ∃ l rest,
      Yields (.ok true) (body (ε := ε) value iter) l (.ok true, rest)
        ∧ iter.length = rest.length + 1 := by
    intro value iter hne
    obtain ⟨other, rest, rfl⟩ := exists_cons_of_length_pos (Nat.pos_of_ne_zero hne)
    exact ⟨_, rest, .call (.call (.ret _)), rfl⟩
  have hstop : ∀ (value : α) (iter : List α), iter.length = 0 → ∃ l rest,
      Yields (.ok true) (body (ε := ε) value iter) l (.ok false, rest) := by
    intro value iter hnil
    obtain rfl : iter = [] := length_eq_zero_iff.mp hnil
    exact ⟨_, [], .ret _⟩
  obtain ⟨l, _, iter, rfl, hyields⟩ :=
    hsource.yields_own Answer.false_ne_true hmore hstop (Nat.not_le.mp hlt)
  exact h.not_yields (hyields.bind (.ret _))

lemma Zip.length_le {container : List β}
    (h : KeepsContract (Zip.generator source container).apply) :
    (given (.ok true) source.apply).length ≤ container.length := by
  by_contra hlt
  have hmore : ∀ (value : α) (iter : List β), iter.length ≠ 0 → ∃ l rest,
      Yields (.ok true) (Zip.body (ε := ε) value iter) l (.ok true, rest)
        ∧ iter.length = rest.length + 1 := by
    intro value iter hne
    obtain ⟨other, rest, rfl⟩ := exists_cons_of_length_pos (Nat.pos_of_ne_zero hne)
    exact ⟨_, rest, .call (.ret _), rfl⟩
  have hstop : ∀ (value : α) (iter : List β), iter.length = 0 → ∃ l rest,
      Yields (.ok true) (Zip.body (ε := ε) value iter) l (.ok false, rest) := by
    intro value iter hnil
    obtain rfl : iter = [] := length_eq_zero_iff.mp hnil
    exact ⟨_, [], .ret _⟩
  obtain ⟨l, _, iter, rfl, hyields⟩ :=
    hsource.yields_own Answer.false_ne_true hmore hstop (Nat.not_le.mp hlt)
  exact h.not_yields (hyields.bind (.ret _))

lemma GuardImpl.given_eq_nil {catches : ε → Bool} {errorHandler : ε → α → Except ε Bool}
    (h : KeepsContract (generator source catches errorHandler).apply) :
    given (.ok true) source.apply = [] := by
  have hreturns : ∀ p : Apply ε α, Passes p → result (fun _ (s : Unit) => ((.ok false : Answer ε), s))
      ((handle (body catches errorHandler) p ()).map Prod.fst) () ≠ some (.ok false) := by
    intro p hp
    induction p with
    | ret r => exact fun heq => hp (Option.some.inj heq)
    | call a k ih => exact ih _ hp.2
    | out => exact nofun
    | note p ih => exact ih hp
  have hcalls : ∀ p : Apply ε α, given (.ok true) p ≠ [] → ∃ value,
      Event.call value (.ok false) ∈ trace (fun _ (s : Unit) => ((.ok false : Answer ε), s))
        ((handle (body catches errorHandler) p ()).map Prod.fst) () := by
    intro p hp
    induction p with
    | ret r | out => exact absurd rfl hp
    | call a k _ => exact ⟨a, mem_cons_self⟩
    | note p ih =>
      obtain ⟨value, hcall⟩ := ih hp
      exact ⟨value, mem_cons_of_mem _ hcall⟩
  by_contra hne
  exact hreturns _ hsource ((h Unit _ ()).mpr (hcalls _ hne))

end Own

namespace Pipeline

def Every (C : ∀ {α : Type}, Pipeline ε α → Prop) : {α : Type} → Pipeline ε α → Prop
  | _, .container values => C (.container values)
  | _, .unfold start next => C (.unfold start next)
  | _, .map source pred => C (.map source pred) ∧ source.Every C
  | _, .filter source pred => C (.filter source pred) ∧ source.Every C
  | _, .until source pred => C (.until source pred) ∧ source.Every C
  | _, .take source count => C (.take source count) ∧ source.Every C
  | _, .stride source n => C (.stride source n) ∧ source.Every C
  | _, .sample source count rng => C (.sample source count rng) ∧ source.Every C
  | _, .skip source count => C (.skip source count) ∧ source.Every C
  | _, .order source heapOrder sorted => C (.order source heapOrder sorted) ∧ source.Every C
  | _, @groupBy _ _ _ _ source selector iteration =>
    C (.groupBy source selector iteration) ∧ source.Every C
  | _, @distinct _ _ _ _ source selector => C (.distinct source selector) ∧ source.Every C
  | _, .batch source batchSize => C (.batch source batchSize) ∧ source.Every C
  | _, .concat source inner => C (.concat source inner) ∧ source.Every C ∧ ∀ value, (inner value).Every C
  | _, .rconcat source => C (.rconcat source) ∧ source.Every C
  | _, .guard source catches errorHandler => C (.guard source catches errorHandler) ∧ source.Every C
  | _, .dereference source => C (.dereference source) ∧ source.Every C
  | _, .cycle source limit => C (.cycle source limit) ∧ source.Every C
  | _, .interleave source values => C (.interleave source values) ∧ source.Every C
  | _, .zip source values => C (.zip source values) ∧ source.Every C
  | _, .resplit source delimiter => C (.resplit source delimiter) ∧ source.Every C
  | _, .chain first second => C (.chain first second) ∧ first.Every C ∧ second.Every C

def Meets (fuel : Nat) {α : Type} : Pipeline ε α → Prop
  | .take _ count => count ≠ 0
  | .sample _ count _ => count ≠ 0
  | .guard source _ _ => given (.ok true) (source.impl fuel).apply = []
  | .cycle source limit =>
    limit.getD fuel = 0 ∨ ¬ ∃ b, Yields (.ok true) (source.impl fuel).apply [] (.ok b)
  | .interleave source values => (given (.ok true) (source.impl fuel).apply).length ≤ values.length
  | .zip source values => (given (.ok true) (source.impl fuel).apply).length ≤ values.length
  | _ => True

variable {p : Pipeline ε α}

lemma passes {fuel : Nat} (hp : p.Every (Meets fuel)) : Passes (p.impl fuel).apply := by
  induction p with
  | container values => exact applyEach_passes values
  | unfold start next => exact Unfold.passes next fuel start
  | map source pred ih => exact Map.passes (ih hp.2) pred
  | filter source pred ih => exact Filter.passes (ih hp.2) pred
  | «until» source pred ih => exact Until.passes (ih hp.2) pred
  | take source count ih => exact Take.passes (ih hp.2) hp.1
  | stride source n ih => exact Stride.passes (ih hp.2) n
  | sample source count rng ih => exact Sample.passes hp.1 _ rng
  | skip source count ih => exact Skip.passes (ih hp.2) count
  | order source heapOrder sorted ih => exact Order.passes _ heapOrder sorted
  | groupBy source selector iteration ih => exact GroupBy.passes _ selector iteration
  | distinct source selector ih => exact Distinct.passes (ih hp.2) selector
  | batch source batchSize ih => exact Batch.passes (ih hp.2) batchSize
  | concat source inner ih ihinner =>
    exact Concat.passes (ih hp.2.1) fun value => ihinner value (hp.2.2 value)
  | rconcat source ih => exact RangeConcat.passes (ih hp.2)
  | guard source catches errorHandler ih => exact GuardImpl.passes (ih hp.2) catches errorHandler hp.1
  | dereference source ih => exact Dereference.passes (ih hp.2)
  | cycle source limit ih =>
    cases limit with
    | none => exact rounds_passes (ih hp.2) out trivial hp.1
    | some n => exact rounds_passes (ih hp.2) (ret (.ok true)) nofun hp.1
  | interleave source values ih => exact Interleave.passes (ih hp.2) hp.1
  | zip source values ih => exact Zip.passes (ih hp.2) hp.1
  | resplit source delimiter ih => exact StringResplitter.passes (ih hp.2) delimiter
  | chain first second ih₁ ih₂ => exact Chain.passes (ih₁ hp.2.1) (ih₂ hp.2.2)

lemma Every.imp {C D : ∀ {α : Type}, Pipeline ε α → Prop}
    (h : ∀ {α : Type} (p : Pipeline ε α), p.Every C → D p) (hp : p.Every C) : p.Every D := by
  induction p with
  | container values | unfold start next => exact h _ hp
  | concat source inner ih ihinner =>
    exact ⟨h _ hp, ih hp.2.1, fun value => ihinner value (hp.2.2 value)⟩
  | chain first second ih₁ ih₂ => exact ⟨h _ hp, ih₁ hp.2.1, ih₂ hp.2.2⟩
  | _ => exact ⟨h _ hp, by rename_i ih; exact ih hp.2⟩

lemma meets_of_keepsContract {fuel : Nat}
    (hp : p.Every fun q => KeepsContract (q.impl fuel).apply) : p.Every (Meets fuel) := by
  induction p with
  | container values | unfold start next => trivial
  | take source count ih => exact ⟨Take.count_ne_zero hp.1, ih hp.2⟩
  | sample source count rng ih => exact ⟨Sample.count_ne_zero hp.1, ih hp.2⟩
  | concat source inner ih ihinner =>
    exact ⟨trivial, ih hp.2.1, fun value => ihinner value (hp.2.2 value)⟩
  | guard source catches errorHandler ih =>
    exact ⟨given_eq_nil (passes (ih hp.2)) hp.1, ih hp.2⟩
  | cycle source limit ih =>
    refine ⟨?_, ih hp.2⟩
    cases limit with
    | none | some n => exact rounds_value hp.1
  | interleave source values ih => exact ⟨length_le (passes (ih hp.2)) hp.1, ih hp.2⟩
  | zip source values ih => exact ⟨Zip.length_le (passes (ih hp.2)) hp.1, ih hp.2⟩
  | chain first second ih₁ ih₂ => exact ⟨trivial, ih₁ hp.2.1, ih₂ hp.2.2⟩
  | _ => exact ⟨trivial, by rename_i ih; exact ih hp.2⟩

lemma called_chain {fuel : Nat} {σ : Type} {first second : Pipeline ε α}
    (hfirst : KeepsContract (first.impl fuel).apply) {handler : α → σ → Answer ε × σ}
    (hyes : ∀ value s, (handler value s).1 = .ok true) {s : σ} {b : Bool}
    (hreturns : result handler (first.impl fuel).apply s = some (.ok b)) :
    called handler ((first.chain second).impl fuel).apply s
      = given (.ok true) (first.impl fuel).apply ++ given (.ok true) (second.impl fuel).apply := by
  cases b with
  | true => exact called_bind hyes _ _ hreturns
  | false =>
    obtain ⟨value, hcall⟩ := (hfirst σ handler s).mp hreturns
    exact absurd (answer_of_mem_trace hyes hcall) Answer.false_ne_true

theorem contract_iff (fuel : Nat) {α : Type} (p : Pipeline ε α) :
    ((p.Every fun q => KeepsContract (q.impl fuel).apply) ↔ p.Every (Meets fuel)) ∧
    (KeepsContract (p.impl fuel).apply → ∀ (second : Pipeline ε α) {σ : Type}
      (handler : α → σ → Answer ε × σ), (∀ value s, (handler value s).1 = .ok true) → ∀ (s : σ) (b : Bool),
        result handler (p.impl fuel).apply s = some (.ok b) →
        called handler ((p.chain second).impl fuel).apply s
          = given (.ok true) (p.impl fuel).apply ++ given (.ok true) (second.impl fuel).apply) := by
  refine ⟨⟨meets_of_keepsContract, Every.imp fun q hq => (passes hq).keepsContract⟩, ?_⟩
  intro hp second σ handler hyes s b hreturns
  exact called_chain hp hyes hreturns

theorem contract_iff_take_one :
    (((Pipeline.container [1]).take 1).Every fun q => KeepsContract (ε := Empty) (q.impl 0).apply) ∧
    called (fun _ (s : Unit) => ((.ok true : Answer Empty), s))
      ((((Pipeline.container [1]).take 1).chain (.container [2])).impl 0).apply () = [1, 2] := by
  have hkeeps : ((Pipeline.container [1]).take 1).Every fun q => KeepsContract (ε := Empty) (q.impl 0).apply :=
    (contract_iff 0 _).1.mpr ⟨Nat.one_ne_zero, trivial⟩
  exact ⟨hkeeps, (contract_iff 0 ((Pipeline.container [1]).take 1)).2 hkeeps.1 (.container [2])
    (fun _ (s : Unit) => ((.ok true : Answer Empty), s)) (fun _ _ => rfl) () true rfl⟩

theorem take_zero_returns_false :
    result (fun _ (s : Unit) => ((.ok true : Answer Empty), s))
      (((Pipeline.container [1]).take 0).impl 0).apply () = some (.ok false) ∧
    trace (fun _ (s : Unit) => ((.ok true : Answer Empty), s))
      ((((Pipeline.container [1]).take 0).chain (.container [2])).impl 0).apply () = [] :=
  ⟨rfl, rfl⟩

end Pipeline

end Acc.Gen
