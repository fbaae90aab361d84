/-
# `Accelerator.Dialogue` — programs that call somebody and go on by the answer
-/
import Mathlib

namespace Acc

open List

universe u v w

inductive Dialogue (A : Type u) (α : Type v) (ρ : Type w)
  | ret (r : ρ)
  | call (a : α) (k : A → Dialogue A α ρ)
  | out
  | note (p : Dialogue A α ρ)

namespace Dialogue

variable {A B : Type*} {α β ρ ρ' τ σ : Type*}

def bind : Dialogue A α ρ → (ρ → Dialogue A α ρ') → Dialogue A α ρ'
  | ret r, f => f r
  | call a k, f => call a fun x => (k x).bind f
  | out, _ => out
  | note p, f => note (p.bind f)

def map (f : ρ → ρ') (p : Dialogue A α ρ) : Dialogue A α ρ' := p.bind fun r => ret (f r)

def handle (answer : α → τ → Dialogue B β (A × τ)) : Dialogue A α ρ → τ → Dialogue B β (ρ × τ)
  | ret r, t => ret (r, t)
  | call a k, t => (answer a t).bind fun x => handle answer (k x.1) x.2
  | out, _ => out
  | note p, t => note (handle answer p t)

section Equations

variable (f : ρ → Dialogue A α ρ') (answer : α → τ → Dialogue B β (A × τ)) (t : τ)

@[simp] lemma ret_bind (r : ρ) : (ret r : Dialogue A α ρ).bind f = f r := rfl

@[simp] lemma handle_call (a : α) (k : A → Dialogue A α ρ) :
    handle answer (call a k) t = (answer a t).bind fun x => handle answer (k x.1) x.2 := rfl

end Equations

inductive Event (A : Type u) (α : Type v)
  | call (a : α) (x : A)
  | note

section Runs

variable (h : α → σ → A × σ)

def result : Dialogue A α ρ → σ → Option ρ
  | ret r, _ => some r
  | call a k, s => result (k (h a s).1) (h a s).2
  | out, _ => none
  | note p, s => result p s

def trace : Dialogue A α ρ → σ → List (Event A α)
  | ret _, _ => []
  | call a k, s => .call a (h a s).1 :: trace (k (h a s).1) (h a s).2
  | out, _ => []
  | note p, s => .note :: trace p s

def called (p : Dialogue A α ρ) (s : σ) : List α :=
  (trace h p s).filterMap fun
    | .call a _ => some a
    | .note => none

@[simp] lemma called_call (a : α) (k : A → Dialogue A α ρ) (s : σ) :
    called h (call a k) s = a :: called h (k (h a s).1) (h a s).2 := rfl

end Runs

def given (yes : A) (p : Dialogue A α ρ) : List α := called (fun _ (_ : Unit) => (yes, ())) p ()

section Yes

variable {yes : A} {h : α → σ → A × σ}

lemma answer_of_mem_trace (hyes : ∀ a s, (h a s).1 = yes) {p : Dialogue A α ρ} {s : σ} {a : α} {x : A}
    (hcall : Event.call a x ∈ trace h p s) : x = yes := by
  induction p generalizing s with
  | ret r | out => simp [trace] at hcall
  | call b k ih =>
    rw [trace, mem_cons] at hcall
    rcases hcall with heq | hrest
    · cases heq
      exact hyes a s
    · exact ih _ hrest
  | note p ih => exact ih (by simpa [trace] using hcall)

lemma called_eq_given (hyes : ∀ a s, (h a s).1 = yes) (p : Dialogue A α ρ) (s : σ) :
    called h p s = given yes p := by
  induction p generalizing s with
  | ret r | out => rfl
  | call a k ih => exact congrArg (a :: ·) (hyes a s ▸ ih (h a s).1 (h a s).2)
  | note p ih => exact ih s

lemma called_bind (hyes : ∀ a s, (h a s).1 = yes) (p : Dialogue A α ρ) (f : ρ → Dialogue A α ρ')
    {s : σ} {r : ρ} (hr : result h p s = some r) :
    called h (p.bind f) s = given yes p ++ given yes (f r) := by
  induction p generalizing s with
  | ret r' =>
    cases hr
    exact called_eq_given hyes (f r) s
  | call a k ih => exact congrArg (a :: ·) (hyes a s ▸ ih (h a s).1 hr)
  | out => cases hr
  | note p ih => exact ih hr

end Yes

inductive Yields (yes : A) : Dialogue A α ρ → List α → ρ → Prop
  | ret (r : ρ) : Yields yes (ret r) [] r
  | call {a : α} {k : A → Dialogue A α ρ} {l : List α} {r : ρ} (h : Yields yes (k yes) l r) :
      Yields yes (call a k) (a :: l) r
  | note {p : Dialogue A α ρ} {l : List α} {r : ρ} (h : Yields yes p l r) : Yields yes (note p) l r

namespace Yields

variable {yes : A} {p : Dialogue A α ρ} {l l' : List α} {r : ρ}

lemma bind {f : ρ → Dialogue A α ρ'} {r' : ρ'} (hp : Yields yes p l r) (hf : Yields yes (f r) l' r') :
    Yields yes (p.bind f) (l ++ l') r' := by
  induction hp with
  | ret r => exact hf
  | call _ ih => exact .call (ih hf)
  | note _ ih => exact .note (ih hf)

variable {h : α → σ → A × σ}

lemma called_eq (hyes : ∀ a s, (h a s).1 = yes) (hp : Yields yes p l r) (s : σ) :
    called h p s = l := by
  induction hp generalizing s with
  | ret r => rfl
  | call _ ih => rw [called_call, hyes, ih]
  | note _ ih => exact ih s

lemma result_eq (hyes : ∀ a s, (h a s).1 = yes) (hp : Yields yes p l r) (s : σ) :
    result h p s = some r := by
  induction hp generalizing s with
  | ret r => rfl
  | call _ ih => rw [result, hyes, ih]
  | note _ ih => exact ih s

lemma handle_nil {answer : α → τ → Dialogue B β (A × τ)} {yes' : B} (hp : Yields yes p [] r) (t : τ) :
    Yields yes' (handle answer p t) [] (r, t) := by
  generalize hl : ([] : List α) = l at hp
  induction hp with
  | ret r => exact .ret _
  | call _ _ => exact absurd hl.symm (cons_ne_nil _ _)
  | note _ ih => exact .note (ih hl)

end Yields

section Heeds

variable {no : A} {S : ρ → Prop} {S' : ρ' → Prop}

def Stops (S : ρ → Prop) (p : Dialogue A α ρ) : Prop := (∃ r, S r ∧ p = ret r) ∨ ∃ q, p = note q

def Heeds (no : A) (S : ρ → Prop) : Dialogue A α ρ → Prop
  | ret _ => True
  | call _ k => Stops S (k no) ∧ ∀ x, Heeds no S (k x)
  | out => True
  | note _ => True

variable {p : Dialogue A α ρ} {f : ρ → Dialogue A α ρ'}

lemma Stops.bind (hp : Stops S p) (stopped : ∀ r, S r → Stops S' (f r)) : Stops S' (p.bind f) := by
  rcases hp with ⟨r, hr, rfl⟩ | ⟨q, rfl⟩
  · exact stopped r hr
  · exact .inr ⟨q.bind f, rfl⟩

variable {answer : α → τ → Dialogue B β (A × τ)}

lemma Stops.handle {Q : τ → Prop} (hp : Stops S p) {t : τ} (ht : Q t) :
    Stops (fun r : ρ × τ => S r.1 ∧ Q r.2) (handle answer p t) := by
  rcases hp with ⟨r, hr, rfl⟩ | ⟨q, rfl⟩
  · exact .inl ⟨(r, t), ⟨hr, ht⟩, rfl⟩
  · exact .inr ⟨_, rfl⟩

lemma Heeds.bind (hp : Heeds no S p)
    (stopped : ∀ r, S r → Stops S' (f r)) (rest : ∀ r, Heeds no S' (f r)) :
    Heeds no S' (p.bind f) := by
  induction p with
  | ret r => exact rest r
  | call a k ih => exact ⟨hp.1.bind stopped, fun x => ih x (hp.2 x)⟩
  | out | note p _ => trivial

lemma Heeds.handle {noB : B} {Q : τ → Prop}
    (hanswer : ∀ a t, Heeds noB (fun r : A × τ => r.1 = no ∧ Q r.2) (answer a t)) (hp : Heeds no S p) :
    ∀ t, Heeds noB (fun r : ρ × τ => S r.1 ∧ Q r.2) (handle answer p t) := by
  induction p with
  | ret r => exact fun _ => trivial
  | call a k ih =>
    intro t
    refine (hanswer a t).bind (fun x hx => ?_) fun x => ih x.1 (hp.2 x.1) x.2
    rw [hx.1]
    exact hp.1.handle hx.2
  | out => exact fun _ => trivial
  | note p _ => exact fun _ => trivial

lemma Heeds.last_call {h : α → σ → A × σ} (hp : Heeds no S p) {s : σ}
    (hnote : Event.note ∉ trace h p s) {i : Nat} {a : α}
    (hcall : (trace h p s)[i]? = some (.call a no)) : (trace h p s).length = i + 1 := by
  induction p generalizing s i with
  | ret r | out => simp [trace] at hcall
  | call b k ih =>
    rw [trace] at hcall hnote ⊢
    rw [mem_cons, not_or] at hnote
    cases i with
    | zero =>
      obtain ⟨-, hno⟩ : b = a ∧ (h b s).1 = no := by simpa using hcall
      rw [hno] at hnote ⊢
      rcases hp.1 with ⟨r, -, hk⟩ | ⟨q, hk⟩
      · rw [hk, trace]
        rfl
      · rw [hk, trace] at hnote
        exact absurd mem_cons_self hnote.2
    | succ i =>
      rw [length_cons, ih _ (hp.2 _) hnote.2 hcall]
  | note p _ => exact absurd mem_cons_self hnote

end Heeds

section Relays

variable {yes : A} {S : A → ρ → Prop} {E : ρ → Prop} {S' : A → ρ' → Prop} {E' : ρ' → Prop}

def Relays (yes : A) (S : A → ρ → Prop) (E : ρ → Prop) : Dialogue A α ρ → Prop
  | ret r => E r
  | call _ k => (∀ x, x ≠ yes → ∃ r, S x r ∧ k x = ret r) ∧ Relays yes S E (k yes)
  | out => True
  | note p => Relays yes S E p

variable {p : Dialogue A α ρ}

lemma Relays.mono {S' : A → ρ → Prop} {E' : ρ → Prop} (hp : Relays yes S E p)
    (passed : ∀ x r, x ≠ yes → S x r → S' x r) (ends : ∀ r, E r → E' r) : Relays yes S' E' p := by
  induction p with
  | ret r => exact ends r hp
  | call a k ih =>
    refine ⟨fun x hx => ?_, ih yes hp.2⟩
    obtain ⟨r, hr, hk⟩ := hp.1 x hx
    exact ⟨r, passed x r hx hr, hk⟩
  | out => trivial
  | note p ih => exact ih hp

lemma Relays.bind {f : ρ → Dialogue A α ρ'} (hp : Relays yes S E p)
    (passed : ∀ x r, x ≠ yes → S x r → ∃ r', S' x r' ∧ f r = ret r')
    (rest : ∀ r, E r → Relays yes S' E' (f r)) : Relays yes S' E' (p.bind f) := by
  induction p with
  | ret r => exact rest r hp
  | call a k ih =>
    refine ⟨fun x hx => ?_, ih yes hp.2⟩
    obtain ⟨r, hr, hk⟩ := hp.1 x hx
    show ∃ r', S' x r' ∧ (k x).bind f = ret r'
    rw [hk]
    exact passed x r hx hr
  | out => trivial
  | note p ih => exact ih hp

variable {answer : α → τ → Dialogue A β (A × τ)}

lemma Relays.handle {P : List α → τ → Prop} {Q F : A → τ → Prop} (hp : Relays yes S E p)
    (hanswer : ∀ a l t, P (a :: l) t → Relays yes (fun x (r : A × τ) => r.1 = x ∧ Q x r.2)
      (fun r => r.1 = yes ∧ P l r.2 ∨ r.1 ≠ yes ∧ F r.1 r.2) (answer a t)) :
    ∀ t, P (given yes p) t → Relays yes (fun x (r : ρ × τ) => S x r.1 ∧ Q x r.2)
      (fun r => E r.1 ∧ P [] r.2 ∨ ∃ x, x ≠ yes ∧ S x r.1 ∧ F x r.2) (handle answer p t) := by
  induction p with
  | ret r => exact fun t ht => .inl ⟨hp, ht⟩
  | call a k ih =>
    intro t ht
    refine (hanswer a _ t ht).bind (fun x r hx hr => ?_) fun r hr => ?_
    · obtain ⟨r', hr', hk⟩ := hp.1 x hx
      rw [hr.1, hk]
      exact ⟨(r', r.2), ⟨hr', hr.2⟩, rfl⟩
    rcases hr with ⟨hyes, hrest⟩ | ⟨hother, hown⟩
    · rw [hyes]
      exact ih yes hp.2 r.2 hrest
    · obtain ⟨r', hr', hk⟩ := hp.1 r.1 hother
      rw [hk]
      exact .inr ⟨r.1, hother, hr', hown⟩
  | out => exact fun _ _ => trivial
  | note p ih => exact ih hp

lemma Relays.result_eq_iff {h : α → σ → A × σ} {no : A} {p : Dialogue A α A} (hno : no ≠ yes)
    (hp : Relays yes (fun x r => r = x) (· ≠ no) p) (s : σ) :
    result h p s = some no ↔ ∃ a, Event.call a no ∈ trace h p s := by
  induction p generalizing s with
  | ret r =>
    exact iff_of_false (fun heq => hp (Option.some.inj heq)) fun hcall => nomatch hcall
  | call a k ih =>
    rw [result, trace]
    by_cases hx : (h a s).1 = yes
    · rw [hx, ih yes hp.2]
      simp [hno]
    · obtain ⟨r, rfl, hk⟩ := hp.1 _ hx
      rw [hk, result, trace]
      simp [eq_comm]
  | out => exact iff_of_false nofun fun hcall => nomatch hcall
  | note p ih =>
    rw [result, trace, ih hp]
    simp

lemma Relays.yields_own {no : A} {n : τ → Nat} (hno : no ≠ yes)
    (hmore : ∀ a t, n t ≠ 0 → ∃ l t', Yields yes (answer a t) l (yes, t') ∧ n t = n t' + 1)
    (hstop : ∀ a t, n t = 0 → ∃ l t', Yields yes (answer a t) l (no, t')) (hp : Relays yes S E p) {t : τ} (hlt : n t < (given yes p).length) :
    ∃ l r t', S no r ∧ Yields yes (Dialogue.handle answer p t) l (r, t') := by
  induction p generalizing t with
  | ret r | out => exact absurd hlt (Nat.not_lt_zero _)
  | call a k ih =>
    by_cases ht : n t = 0
    · obtain ⟨l, t', hyields⟩ := hstop a t ht
      obtain ⟨r, hr, hk⟩ := hp.1 no hno
      refine ⟨l ++ [], r, t', hr, hyields.bind ?_⟩
      rw [hk]
      exact .ret _
    obtain ⟨l, t', hyields, hn⟩ := hmore a t ht
    have hlength : (given yes (call a k)).length = (given yes (k yes)).length + 1 := rfl
    obtain ⟨l', r, t'', hr, hrest⟩ := ih yes hp.2 (t := t') (by omega)
    exact ⟨l ++ l', r, t'', hr, hyields.bind hrest⟩
  | note p ih =>
    obtain ⟨l, r, t', hr, hyields⟩ := ih hp hlt
    exact ⟨l, r, t', hr, .note hyields⟩

lemma Relays.heeds (hp : Relays yes S E p) {no : A} (hno : no ≠ yes) : Heeds no (S no) p := by
  induction p with
  | ret r | out | note p _ => trivial
  | call a k ih =>
    refine ⟨.inl (hp.1 no hno), fun x => ?_⟩
    by_cases hx : x = yes
    · exact hx ▸ ih yes hp.2
    · obtain ⟨r, -, hk⟩ := hp.1 x hx
      rw [hk]
      trivial

end Relays

section Silent

def Silent : Dialogue A α ρ → Prop
  | ret _ => True
  | call _ _ => False
  | out => True
  | note p => Silent p

lemma Silent.bind {p : Dialogue A α ρ} {f : ρ → Dialogue A α ρ'} (hp : Silent p) {yes : A}
    {S : A → ρ' → Prop} {E : ρ' → Prop} (rest : ∀ r, Relays yes S E (f r)) :
    Relays yes S E (p.bind f) := by
  induction p with
  | ret r => exact rest r
  | call a k _ => exact hp.elim
  | out => trivial
  | note p ih => exact ih hp

lemma silent_handle {answer : α → τ → Dialogue B β (A × τ)}
    (hanswer : ∀ a t, ∃ r, answer a t = ret r) (p : Dialogue A α ρ) :
    ∀ t, Silent (handle answer p t) := by
  induction p with
  | ret r | out => exact fun _ => trivial
  | call a k ih =>
    intro t
    obtain ⟨r, hr⟩ := hanswer a t
    rw [handle_call, hr]
    exact ih r.1 r.2
  | note p ih => exact ih

lemma silent_of_given_eq_nil {yes : A} {p : Dialogue A α ρ} (hp : given yes p = []) : Silent p := by
  induction p with
  | ret r | out => trivial
  | call a k _ => exact absurd hp (cons_ne_nil _ _)
  | note p ih => exact ih hp

end Silent

end Dialogue

end Acc
