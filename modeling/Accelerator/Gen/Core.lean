import Accelerator.Dialogue

namespace Acc.Gen

open Dialogue

abbrev Answer (ε : Type*) := Except ε Bool

abbrev Apply (ε α : Type*) := Dialogue (Answer ε) α (Answer ε)

abbrev Foreach (ε α : Type*) := Dialogue (Except ε Unit) α (Except ε Unit)

lemma Answer.error_or_false {x : Answer ε} (h : x ≠ .ok true) :
    (∃ e, x = .error e) ∨ x = .ok false :=
  match x with
  | .error e => .inl ⟨e, rfl⟩
  | .ok false => .inr rfl
  | .ok true => absurd rfl h

lemma Answer.false_ne_true : (.ok false : Answer ε) ≠ .ok true := nofun

abbrev Passes {ε α : Type*} (p : Apply ε α) : Prop :=
  Relays (.ok true) (fun x r => r = x) (· ≠ .ok false) p

structure GenImpl (ε α : Type*) where
  apply : Apply ε α
  foreach : Foreach ε α

variable {ε α β τ : Type*}

def applyEach : List α → Apply ε α
  | [] => ret (.ok true)
  | value :: values => call value fun
      | .ok true => applyEach values
      | x => ret x

lemma applyEach_relays (values : List α) :
    Relays (.ok true) (fun (x r : Answer ε) => r = x) (· = .ok true) (applyEach values) := by
  induction values with
  | nil => rfl
  | cons value values ih =>
    refine ⟨fun x hx => ?_, ih⟩
    obtain ⟨e, rfl⟩ | rfl := Answer.error_or_false hx <;> exact ⟨_, rfl, rfl⟩

lemma applyEach_passes (values : List α) : Passes (applyEach values : Apply ε α) :=
  (applyEach_relays values).mono (fun _ _ _ hr => hr) fun _ hr => hr ▸ Answer.false_ne_true.symm

def foreachEach : List α → Foreach ε α
  | [] => ret (.ok ())
  | value :: values => call value fun
      | .ok () => foreachEach values
      | x => ret x

def applyWith (source : GenImpl ε α) (t : τ) (handler : α → τ → Dialogue (Answer ε) β (Answer ε × τ)) :
    Dialogue (Answer ε) β (Answer ε × τ) := handle handler source.apply t

def foreachWith {B : Type*} (source : GenImpl ε α) (t : τ)
    (body : α → τ → Dialogue B β (Except ε Unit × τ)) : Dialogue B β (Except ε Unit × τ) :=
  handle body source.foreach t

def GenImpl.ofApply (apply : Apply ε α) : GenImpl ε α where
  apply := apply
  foreach := (handle (fun value () => call value fun x => ret (x.map fun _ => true, ())) apply ()).map
    fun r => r.1.map fun _ => ()

def Chain.generator (first second : GenImpl ε α) : GenImpl ε α where
  apply := first.apply.bind fun
    | .ok true => second.apply
    | x => ret x
  foreach := first.foreach.bind fun
    | .ok () => second.foreach
    | x => ret x

end Acc.Gen
