import Accelerator.Gen.Pipeline

namespace Acc.Gen

open List Batch

open Dialogue Blocks

variable {ε α β κ σ : Type}

def everyNth (n : Nat) (l : List α) : List α := ((l.zipIdx).filter (·.2 % n = 0)).map Prod.fst

def distinctBy [DecidableEq κ] (key : α → κ) : List α → List α
  | [] => []
  | a :: l => a :: (distinctBy key l).filter (key · ≠ key a)

inductive ListPipeline : Type → Type 1
  | container {α : Type} (values : List α) : ListPipeline α
  | sequence {α : Type} (start : α) (test : α → Bool) (step : α → α)
      (finite : ∃ n, test (step^[n] start) = false) : ListPipeline α
  | map {α β : Type} (source : ListPipeline α) (pred : α → β) : ListPipeline β
  | filter {α : Type} (source : ListPipeline α) (pred : α → Bool) : ListPipeline α
  | until {α : Type} (source : ListPipeline α) (pred : α → Bool) : ListPipeline α
  | take {α : Type} (source : ListPipeline α) (count : Nat) (hcount : 1 ≤ count) : ListPipeline α
  | skip {α : Type} (source : ListPipeline α) (count : Nat) : ListPipeline α
  | stride {α : Type} (source : ListPipeline α) (n : Nat) (hpos : 1 ≤ n) (hlt : n < 2 ^ 64 - 1) :
      ListPipeline α
  | distinct {α κ : Type} [DecidableEq κ] (source : ListPipeline α) (selector : α → κ) : ListPipeline α
  | batch {α : Type} (source : ListPipeline α) (batchSize : Nat) (hpos : 1 ≤ batchSize) :
      ListPipeline (List α)
  | rconcat {α : Type} (source : ListPipeline (List α)) : ListPipeline α
  | concat {α β : Type} (source : ListPipeline β) (inner : β → ListPipeline α) : ListPipeline α
  | chain {α : Type} (first second : ListPipeline α) : ListPipeline α

namespace ListPipeline

def pipeline (ε : Type) : {α : Type} → ListPipeline α → Pipeline ε α
  | _, .container values => .container values
  | _, .sequence start test step _ => .unfold start (Sequence.next test step)
  | _, .map source pred => .map (source.pipeline ε) fun value => .ok (pred value)
  | _, .filter source pred => .filter (source.pipeline ε) fun value => .ok (pred value)
  | _, .until source pred => .until (source.pipeline ε) fun value => .ok (pred value)
  | _, .take source count _ => .take (source.pipeline ε) count
  | _, .skip source count => .skip (source.pipeline ε) count
  | _, .stride source n _ _ => .stride (source.pipeline ε) n
  | _, @distinct _ _ _ source selector => .distinct (source.pipeline ε) fun value => .ok (selector value)
  | _, .batch source batchSize _ => .batch (source.pipeline ε) batchSize
  | _, .rconcat source => .rconcat (source.pipeline ε)
  | _, .concat source inner => .concat (source.pipeline ε) fun value => (inner value).pipeline ε
  | _, .chain first second => .chain (first.pipeline ε) (second.pipeline ε)

def meaning : {α : Type} → ListPipeline α → List α
  | _, .container values => values
  | _, .sequence start _ step finite => (List.range (Nat.find finite)).map (step^[·] start)
  | _, .map source pred => source.meaning.map pred
  | _, .filter source pred => source.meaning.filter pred
  | _, .until source pred => source.meaning.takeWhile (!pred ·)
  | _, .take source count _ => source.meaning.take count
  | _, .skip source count => source.meaning.drop count
  | _, .stride source n _ _ => everyNth n source.meaning
  | _, @distinct _ _ _ source selector => distinctBy selector source.meaning
  | _, .batch source batchSize _ => blocks batchSize source.meaning
  | _, .rconcat source => source.meaning.flatten
  | _, .concat source inner => source.meaning.flatMap fun value => (inner value).meaning
  | _, .chain first second => first.meaning ++ second.meaning

end ListPipeline

lemma call_congr {ρ : Type} {a : α} {k k' : Answer ε → Dialogue (Answer ε) α ρ}
    (herror : ∀ e, k (.error e) = k' (.error e)) (hfalse : k (.ok false) = k' (.ok false))
    (htrue : k (.ok true) = k' (.ok true)) : call a k = call a k' := by
  refine congrArg (call a) (funext fun x => ?_)
  rcases x with e | _ | _
  · exact herror e
  · exact hfalse
  · exact htrue

lemma applyEach_append (l l' : List α) :
    (applyEach (l ++ l') : Apply ε α) = (applyEach l).bind fun
      | .ok true => applyEach l'
      | x => ret x := by
  induction l with
  | nil => rfl
  | cons a l ih => exact call_congr (fun _ => rfl) rfl ih

section Operators

variable {source : GenImpl ε α} {l : List α} (hsource : source.apply = applyEach l)
include hsource

lemma Map.apply_eq (pred : α → β) :
    (Map.generator source fun value => .ok (pred value)).apply = applyEach (l.map pred) := by
  unfold Map.generator applyWith
  rw [hsource]
  clear hsource
  induction l with
  | nil => rfl
  | cons a l ih => exact call_congr (fun _ => rfl) rfl ih

lemma Filter.apply_eq (pred : α → Bool) :
    (Filter.generator source fun value => .ok (pred value)).apply = applyEach (l.filter pred) := by
  unfold Filter.generator applyWith
  dsimp only
  rw [hsource]
  clear hsource
  induction l with
  | nil => rfl
  | cons a l ih =>
    rw [applyEach, handle_call]
    cases ha : pred a with
    | false =>
      rw [filter_cons_of_neg (by rw [ha]; exact Bool.false_ne_true)]
      exact ih
    | true =>
      rw [filter_cons_of_pos ha]
      exact call_congr (fun _ => rfl) rfl ih

lemma Until.apply_eq (pred : α → Bool) :
    (Until.generator source fun value => .ok (pred value)).apply
      = applyEach (l.takeWhile (!pred ·)) := by
  unfold Until.generator GenImpl.ofApply applyWith
  rw [hsource]
  clear hsource
  induction l with
  | nil => rfl
  | cons a l ih =>
    dsimp only at ih ⊢
    rw [applyEach, handle_call, takeWhile_cons]
    cases pred a with
    | true => rfl
    | false => exact call_congr (fun _ => rfl) rfl ih

lemma Take.apply_eq {count : Nat} (hcount : 1 ≤ count) :
    (Take.generator source count).apply = applyEach (l.take count) := by
  rw [Take.generator, if_neg (Nat.one_le_iff_ne_zero.mp hcount)]
  unfold GenImpl.ofApply applyWith
  rw [hsource]
  clear hsource
  induction l generalizing count with
  | nil =>
    rw [take_nil]
    rfl
  | cons a l ih =>
    obtain ⟨n, rfl⟩ := Nat.exists_eq_add_of_le' hcount
    refine call_congr (fun _ => rfl) rfl ?_
    cases n with
    | zero => rfl
    | succ n => exact ih (Nat.le_add_left 1 n)

lemma Skip.apply_eq (count : Nat) :
    (Skip.generator source count).apply = applyEach (l.drop count) := by
  by_cases hcount : count = 0
  · simp [Skip.generator, hcount, hsource]
  rw [Skip.generator, if_neg hcount]
  unfold applyWith
  rw [hsource]
  clear hsource
  suffices h : ∀ n ≤ count, (handle (fun value n =>
      if n < count then ret (.ok true, n + 1) else call value fun x => ret (x, n))
        (applyEach l) n).map Prod.fst = (applyEach (l.drop (count - n)) : Apply ε α) from
    h 0 (Nat.zero_le count)
  induction l with
  | nil =>
    intro n _
    rw [drop_nil]
    rfl
  | cons a l ih =>
    intro n hn
    rw [applyEach, handle_call]
    by_cases hlt : n < count
    · obtain ⟨m, hm⟩ : ∃ m, count - n = m + 1 := ⟨count - n - 1, by omega⟩
      have hm' : count - (n + 1) = m := by omega
      rw [if_pos hlt, hm, drop_succ_cons, ← hm']
      exact ih (n + 1) hlt
    have hzero : count - n = 0 := by omega
    rw [if_neg hlt, hzero, drop_zero]
    have hrest := ih n hn
    rw [hzero, drop_zero] at hrest
    exact call_congr (fun _ => rfl) rfl hrest

lemma Stride.apply_eq {stride : Nat} (hpos : 1 ≤ stride) (hlt : stride < 2 ^ 64 - 1) :
    (Stride.generator source stride).apply = applyEach (everyNth stride l) := by
  unfold Stride.generator applyWith
  rw [hsource]
  clear hsource
  suffices h : ∀ distance k, (k % stride = 0 ∧ stride ≤ distance + 1 ∧ distance ≤ stride ∨
      k % stride = distance + 1) → (handle (fun value distance =>
        if (distance + 1) % 2 ^ 64 ≥ stride then
          call value fun
            | .ok true => ret (.ok true, 0)
            | x => ret (x, (distance + 1) % 2 ^ 64)
        else ret (.ok true, (distance + 1) % 2 ^ 64)) (applyEach l) distance).map Prod.fst
          = (applyEach (((l.zipIdx k).filter (·.2 % stride = 0)).map Prod.fst) : Apply ε α) from
    h stride 0 (.inl ⟨Nat.zero_mod stride, Nat.le_succ stride, le_rfl⟩)
  induction l with
  | nil => exact fun _ _ _ => rfl
  | cons a l ih =>
    intro distance k hk
    have hbound := Nat.mod_lt k hpos
    have hdistance : (distance + 1) % 2 ^ 64 = distance + 1 := Nat.mod_eq_of_lt (by omega)
    have hnext : (k + 1) % stride = if k % stride + 1 = stride then 0 else k % stride + 1 := by
      rw [← Nat.mod_add_mod]
      split
      · rename_i heq
        rw [heq, Nat.mod_self]
      · exact Nat.mod_eq_of_lt (by omega)
    rw [applyEach, handle_call, hdistance, zipIdx_cons]
    by_cases hzero : k % stride = 0
    · rw [if_pos (by omega), filter_cons_of_pos (by simpa using hzero), map_cons]
      refine call_congr (fun _ => rfl) rfl (ih 0 (k + 1) ?_)
      split at hnext <;> omega
    · rw [if_neg (by omega), filter_cons_of_neg (by simpa using hzero)]
      refine ih (distance + 1) (k + 1) ?_
      split at hnext <;> omega

lemma Distinct.apply_eq [DecidableEq κ] (selector : α → κ) :
    (Distinct.generator source fun value => .ok (selector value)).apply
      = applyEach (distinctBy selector l) := by
  unfold Distinct.generator applyWith
  rw [hsource]
  clear hsource
  suffices h : ∀ keysSeen, (handle (fun value keysSeen =>
      if selector value ∈ keysSeen then ret (.ok true, keysSeen)
      else call value fun x => ret (x, selector value :: keysSeen)) (applyEach l) keysSeen).map Prod.fst
        = (applyEach ((distinctBy selector l).filter (selector · ∉ keysSeen)) : Apply ε α) by
    rw [h, filter_eq_self.mpr]
    simp
  induction l with
  | nil => exact fun _ => rfl
  | cons a l ih =>
    intro keysSeen
    rw [applyEach, handle_call, distinctBy]
    by_cases ha : selector a ∈ keysSeen
    · rw [if_pos ha, filter_cons_of_neg (by simpa using ha), filter_filter]
      refine (ih keysSeen).trans (congrArg applyEach (filter_congr fun b _ => ?_))
      by_cases hb : selector b ∈ keysSeen
      · simp [hb]
      · have hne : selector b ≠ selector a := fun heq => hb (heq ▸ ha)
        simp [hb, hne]
    · rw [if_neg ha, filter_cons_of_pos (by simpa using ha), filter_filter]
      refine call_congr (fun _ => rfl) rfl ((ih (selector a :: keysSeen)).trans ?_)
      simp [Bool.and_comm]

def Batch.collect (batchSize : Nat) (value : α) (batch : List α) :
    Dialogue (Answer ε) (List α) (Answer ε × List α) :=
  if (batch ++ [value]).length = batchSize then
    call (batch ++ [value]) fun
      | .error e => ret (.error e, batch ++ [value])
      | x => ret (x, [])
  else ret (.ok true, batch ++ [value])

def Batch.flush : Answer ε × List α → Apply ε (List α)
  | (.ok true, batch) => if batch ≠ [] then call batch ret else ret (.ok true)
  | (x, _) => ret x

lemma Batch.apply_eq {batchSize : Nat} (hpos : 1 ≤ batchSize) :
    (generator source batchSize).apply = applyEach (blocks batchSize l) := by
  unfold generator GenImpl.ofApply applyWith
  rw [hsource]
  clear hsource
  suffices h : ∀ batch : List α, batch.length < batchSize →
      (handle (collect batchSize) (applyEach l) batch).bind flush =
        (applyEach (blocks batchSize (batch ++ l)) : Apply ε (List α)) from h [] hpos
  induction l with
  | nil =>
    intro batch hlt
    rw [append_nil]
    show (if batch ≠ [] then call batch ret else ret (.ok true) : Apply ε (List α)) = _
    by_cases hbatch : batch = []
    · rw [if_neg (not_not.mpr hbatch), hbatch, blocks_nil]
      rfl
    · rw [if_pos hbatch, blocks_of_length_le hbatch hlt.le]
      exact call_congr (fun _ => rfl) rfl rfl
  | cons a l ih =>
    intro batch hlt
    have hsplit : batch ++ a :: l = (batch ++ [a]) ++ l := by simp
    rw [applyEach, handle_call, hsplit, collect]
    by_cases hfull : (batch ++ [a]).length = batchSize
    · have hle : batchSize ≤ ((batch ++ [a]) ++ l).length := by
        rw [length_append, hfull]
        exact Nat.le_add_right _ _
      rw [if_pos hfull, blocks_of_lt hpos hle, take_left' hfull, drop_left' hfull]
      exact call_congr (fun _ => rfl) rfl (ih [] hpos)
    rw [if_neg hfull]
    refine ih (batch ++ [a]) ?_
    rw [length_append, length_singleton] at hfull ⊢
    omega

end Operators

lemma Concat.apply_eq {source : GenImpl ε β} {l : List β} (hsource : source.apply = applyEach l)
    {inner : β → GenImpl ε α} {values : β → List α}
    (hinner : ∀ b ∈ l, (inner b).apply = applyEach (values b)) :
    (Concat.generator source inner).apply = applyEach (l.flatMap values) := by
  unfold Concat.generator applyWith
  rw [hsource]
  clear hsource
  induction l with
  | nil => rfl
  | cons b l ih =>
    have hrest := ih fun b hb => hinner b (mem_cons_of_mem _ hb)
    rw [applyEach, handle_call, flatMap_cons, applyEach_append, hinner b mem_cons_self]
    induction values b with
    | nil => exact hrest
    | cons a m ihm => exact call_congr (fun _ => rfl) rfl ihm

lemma RangeConcat.apply_eq {source : GenImpl ε (List α)} {l : List (List α)}
    (hsource : source.apply = applyEach l) :
    (RangeConcat.generator source).apply = applyEach l.flatten :=
  calc (RangeConcat.generator source).apply
      = (Concat.generator source Source.generator).apply := rfl
    _ = applyEach (l.flatMap id) := Concat.apply_eq hsource fun _ _ => rfl
    _ = applyEach l.flatten := by rw [flatMap_id]

lemma Chain.apply_eq {first second : GenImpl ε α} {l l' : List α}
    (hfirst : first.apply = applyEach l) (hsecond : second.apply = applyEach l') :
    (Chain.generator first second).apply = applyEach (l ++ l') := by
  rw [applyEach_append, Chain.generator, hfirst, hsecond]
  rfl

lemma Sequence.apply_eq {test : α → Bool} {step : α → α} {n fuel : Nat} (hfuel : n < fuel) (start : α)
    (htest : ∀ k < n, test (step^[k] start) = true) (hend : test (step^[n] start) = false) :
    Unfold.apply (Sequence.next test step) fuel start
      = (applyEach ((List.range n).map (step^[·] start)) : Apply ε α) := by
  induction n generalizing fuel start with
  | zero =>
    obtain ⟨fuel, rfl⟩ := Nat.exists_eq_add_of_le' hfuel
    have hstart : ¬ test start = true := Bool.eq_false_iff.mp hend
    rw [Unfold.apply, Sequence.next, if_neg hstart]
    rfl
  | succ n ih =>
    obtain ⟨fuel, rfl⟩ := Nat.exists_eq_add_of_le' (Nat.one_le_of_lt hfuel)
    have hstart : test start = true := htest 0 (Nat.succ_pos n)
    rw [Unfold.apply, Sequence.next, if_pos hstart, range_succ_eq_map, map_cons,
      map_map]
    refine call_congr (fun _ => rfl) rfl ?_
    exact ih (Nat.lt_of_succ_lt_succ hfuel) (step start)
      (fun k hk => htest (k + 1) (Nat.succ_lt_succ hk)) hend

namespace ListPipeline

lemma apply_eq (ε : Type) (p : ListPipeline α) :
    ∀ᶠ fuel in Filter.atTop, ((p.pipeline ε).impl fuel).apply = applyEach p.meaning := by
  induction p with
  | container values => exact .of_forall fun _ => rfl
  | sequence start test step finite =>
    filter_upwards [Filter.eventually_gt_atTop (Nat.find finite)] with fuel hfuel
    refine Sequence.apply_eq hfuel start (fun k hk => ?_) (Nat.find_spec finite)
    exact Bool.eq_true_of_not_eq_false (Nat.find_min finite hk)
  | map source pred ih => exact ih.mono fun _ h => Map.apply_eq h pred
  | filter source pred ih => exact ih.mono fun _ h => Filter.apply_eq h pred
  | «until» source pred ih => exact ih.mono fun _ h => Until.apply_eq h pred
  | take source count hcount ih => exact ih.mono fun _ h => Take.apply_eq h hcount
  | skip source count ih => exact ih.mono fun _ h => Skip.apply_eq h count
  | stride source n hpos hlt ih => exact ih.mono fun _ h => Stride.apply_eq h hpos hlt
  | distinct source selector ih => exact ih.mono fun _ h => Distinct.apply_eq h selector
  | batch source batchSize hpos ih => exact ih.mono fun _ h => Batch.apply_eq h hpos
  | rconcat source ih => exact ih.mono fun _ h => RangeConcat.apply_eq h
  | concat source inner ih ihinner =>
    have hinner : ∀ᶠ fuel in Filter.atTop, ∀ value ∈ {value | value ∈ source.meaning},
        (((inner value).pipeline ε).impl fuel).apply = applyEach (inner value).meaning :=
      (Filter.eventually_all_finite source.meaning.finite_toSet).mpr fun value _ => ihinner value
    filter_upwards [ih, hinner] with fuel h hvalues
    exact Concat.apply_eq h hvalues
  | chain first second ih₁ ih₂ => exact (ih₁.and ih₂).mono fun _ h => Chain.apply_eq h.1 h.2

def heard (handler : α → σ → Answer ε × σ) : List α → σ → List α
  | [], _ => []
  | value :: values, s =>
    value :: match handler value s with
      | (.ok true, s) => heard handler values s
      | _ => []

lemma called_applyEach (handler : α → σ → Answer ε × σ) (l : List α) (s : σ) :
    called handler (applyEach l) s = heard handler l s := by
  induction l generalizing s with
  | nil => rfl
  | cons value values ih =>
    rw [applyEach, called_call, heard]
    rcases handler value s with ⟨e | _ | _, s⟩
    · rfl
    · rfl
    · exact congrArg (value :: ·) (ih s)

theorem called_eq_heard (ε : Type) {α : Type} (p : ListPipeline α) :
    ∃ N, ∀ fuel ≥ N, ∀ (σ : Type) (handler : α → σ → Answer ε × σ) (s : σ),
      called handler ((p.pipeline ε).impl fuel).apply s = heard handler p.meaning s := by
  obtain ⟨N, hN⟩ := Filter.eventually_atTop.mp (p.apply_eq ε)
  refine ⟨N, fun fuel hfuel σ handler s => ?_⟩
  rw [hN fuel hfuel, called_applyEach]

theorem called_eq_heard_take : ∃ fuel,
    called (fun _ (s : Unit) => ((.ok true : Answer Empty), s))
      (((((container [1, 2, 3, 4, 5]).filter (· % 2 = 1)).take 2 one_le_two).pipeline Empty).impl
        fuel).apply () = [1, 3] := by
  obtain ⟨N, hN⟩ := called_eq_heard Empty
    (((container [1, 2, 3, 4, 5]).filter (· % 2 = 1)).take 2 one_le_two)
  exact ⟨N, hN N le_rfl Unit _ ()⟩

end ListPipeline

end Acc.Gen
