import Mathlib

namespace Acc.Interleaving

open Function Set

structure State (M P ι : Type*) where
  mem : M
  pc : ι → P

def State.all {M P : Type*} (ι : Type*) (m : M) (p : P) : State M P ι := ⟨m, fun _ => p⟩

def Every {σ : Type*} (Q : σ → Prop) : Option σ → Prop
  | none => True
  | some s => Q s

lemma Every.of_eq {σ : Type*} {Q : σ → Prop} {r : Option σ} {s : σ} (h : Every Q r)
    (hr : r = some s) : Q s := by
  rwa [hr] at h

def Leads {M P : Type*} (Q : M → P → Prop) : Option (M × P) → Prop
  | none => True
  | some (m, p) => Q m p

section Leads

variable {M P : Type*} {Q : M → P → Prop} {r : Option (M × P)}

lemma Leads.of_eq {m : M} {p : P} (h : Leads Q r) (hr : r = some (m, p)) : Q m p := by
  rwa [hr] at h

lemma Leads.intro (h : ∀ m p, r = some (m, p) → Q m p) : Leads Q r := by
  cases r with
  | none => trivial
  | some r => exact h r.1 r.2 rfl

end Leads

section Runs

variable {M P ι : Type*} [DecidableEq ι] (act : M → P → M → P → Prop) (env : M → M → Prop)

inductive Step : State M P ι → State M P ι → Prop
  | client {s : State M P ι} (c : ι) {m : M} {p : P} (h : act s.mem (s.pc c) m p) :
      Step s ⟨m, Function.update s.pc c p⟩
  | outside {s : State M P ι} {m : M} (h : env s.mem m) : Step s { s with mem := m }

def Runs : State M P ι → State M P ι → Prop := Relation.ReflTransGen (Step act env)

inductive Acts : M → P → M → P → Prop
  | refl {m : M} {p : P} : Acts m p m p
  | head {m m₁ m' : M} {p p₁ p' : P} (h : act m p m₁ p₁) (rest : Acts m₁ p₁ m' p') : Acts m p m' p'

variable (q : P → Prop) (k : ℕ)

def Few (s : State M P ι) : Prop := {c | q (s.pc c)}.encard < k

def Reaches : State M P ι → State M P ι → Prop :=
  Relation.ReflTransGen fun s s' => Step act env s s' ∧ Few q k s'

variable {act env q k}

lemma Acts.runs {m₀ m : M} {p₀ p : P} (h : Acts act m₀ p₀ m p) :
    ∀ {s : State M P ι} {c : ι}, s.mem = m₀ → s.pc c = p₀ →
      Runs act env s ⟨m, update s.pc c p⟩ := by
  induction h with
  | refl =>
    rintro s c rfl rfl
    rw [update_eq_self]
    exact .refl
  | @head m m₁ m' p p₁ p' hact _ ih =>
    rintro s c rfl rfl
    have hrest := ih (s := ⟨m₁, update s.pc c p₁⟩) (c := c) rfl
      (update_self ..)
    rw [update_idem] at hrest
    exact .head (.client c hact) hrest

lemma Runs.reaches [Fintype ι] (hk : Fintype.card ι < k) {s s' : State M P ι}
    (h : Runs act env s s') : Reaches act env q k s s' := by
  have hfew : ∀ s : State M P ι, Few q k s := by
    intro s
    calc {c | q (s.pc c)}.encard ≤ (univ : Set ι).encard :=
          encard_le_encard (subset_univ _)
      _ = Fintype.card ι := by rw [encard_univ, ENat.card_eq_coe_fintype_card]
      _ < k := by exact_mod_cast hk
  exact h.lift id fun _ s' hstep => ⟨hstep, hfew s'⟩

end Runs

section Finite

variable {M P ι : Type*}

def State.restrict (s : State M P ι) (A : Finset ι) : State M P A := ⟨s.mem, fun c => s.pc c⟩

variable {q : P → Prop} {k : ℕ}

variable {s s' : State M P ι}

lemma Few.restrict (h : Few q k s) (A : Finset ι) : Few q k (s.restrict A) := by
  refine lt_of_le_of_lt ?_ h
  calc {c : A | q ((s.restrict A).pc c)}.encard
      = (Subtype.val '' {c : A | q (s.pc c)}).encard := (Subtype.val_injective.encard_image _).symm
    _ ≤ {c | q (s.pc c)}.encard := by
        refine encard_le_encard ?_
        rintro _ ⟨c, hc, rfl⟩
        exact hc

variable [DecidableEq ι] {act : M → P → M → P → Prop} {env : M → M → Prop}

lemma Step.restrict (h : Step act env s s') :
    ∃ A₀ : Finset ι, ∀ A, A₀ ⊆ A → Step act env (s.restrict A) (s'.restrict A) := by
  cases h with
  | @client c m p h =>
    refine ⟨{c}, fun A hA => ?_⟩
    have hc : c ∈ A := hA (Finset.mem_singleton_self c)
    have hupdate : (fun b : A => update s.pc c p b)
        = update (fun b : A => s.pc b) ⟨c, hc⟩ p := by
      funext b
      by_cases hb : b = ⟨c, hc⟩
      · subst hb
        simp
      · rw [update_of_ne hb, update_of_ne]
        exact fun h => hb (Subtype.ext h)
    rw [State.restrict, State.restrict, hupdate]
    exact .client (s := s.restrict A) ⟨c, hc⟩ h
  | outside h => exact ⟨∅, fun A _ => .outside (s := s.restrict A) h⟩

lemma Reaches.restrict (h : Reaches act env q k s s') :
    ∃ A₀ : Finset ι, ∀ A, A₀ ⊆ A → Reaches act env q k (s.restrict A) (s'.restrict A) := by
  induction h with
  | refl => exact ⟨∅, fun A _ => .refl⟩
  | tail _ hstep ih =>
    obtain ⟨A₀, hrun⟩ := ih
    obtain ⟨A₁, hlast⟩ := hstep.1.restrict
    refine ⟨A₀ ∪ A₁, fun A hA => ?_⟩
    have hA₀ : A₀ ⊆ A := Finset.subset_union_left.trans hA
    have hA₁ : A₁ ⊆ A := Finset.subset_union_right.trans hA
    exact (hrun A hA₀).tail ⟨hlast A hA₁, hstep.2.restrict A⟩

lemma Reaches.pairwise {m : M} {p : P} {R : M → P → P → Prop}
    (hfin : ∀ (A : Finset ι) (s : State M P A), Reaches act env q k (.all A m p) s →
      ∀ a b, a ≠ b → R s.mem (s.pc a) (s.pc b))
    (h : Reaches act env q k (.all ι m p) s) (a b : ι) (hab : a ≠ b) :
    R s.mem (s.pc a) (s.pc b) := by
  obtain ⟨A₀, hrun⟩ := h.restrict
  have hsub : A₀ ⊆ A₀ ∪ {a, b} := Finset.subset_union_left
  have ha : a ∈ A₀ ∪ {a, b} := by simp
  have hb : b ∈ A₀ ∪ {a, b} := by simp
  refine hfin _ _ (hrun _ hsub) ⟨a, ha⟩ ⟨b, hb⟩ ?_
  exact fun h => hab (congrArg Subtype.val h)

end Finite

section Tally

variable {M P ι K : Type*} {kind : K → P → Bool} {p₀ : P} {s : State M P ι}

noncomputable def tally (kind : K → P → Bool) (s : State M P ι) (k : K) : ℕ :=
  {c | kind k (s.pc c) = true}.ncard

def plus (kind : K → P → Bool) (n : K → ℕ) (p : P) (k : K) : ℕ := n k + (kind k p).toNat

def Settled (p₀ : P) (s : State M P ι) : Prop := {c | s.pc c ≠ p₀}.Finite

lemma Settled.all (m : M) : Settled p₀ (State.all ι m p₀) := by
  have : {c : ι | (State.all ι m p₀).pc c ≠ p₀} = ∅ := eq_empty_of_forall_notMem fun _ h => h rfl
  rw [Settled, this]
  exact finite_empty

variable {k : K}

lemma Settled.finite (h : Settled p₀ s) (hk : kind k p₀ = false) :
    {c | kind k (s.pc c) = true}.Finite := by
  refine h.subset fun c hc he => ?_
  rw [mem_ofPred_eq, he, hk] at hc
  cases hc

lemma tally_all (m : M) (h₀ : ∀ k, kind k p₀ = false) :
    tally kind (State.all ι m p₀) = fun _ => 0 := by
  funext k
  have : {c : ι | kind k ((State.all ι m p₀).pc c) = true} = ∅ := by
    refine eq_empty_of_forall_notMem fun c hc => ?_
    exact absurd (hc.symm.trans (h₀ k)) nofun
  rw [tally, this, ncard_empty]

lemma Settled.tally_pos (h : Settled p₀ s) (hk : kind k p₀ = false) {c : ι}
    (hc : kind k (s.pc c) = true) : 0 < tally kind s k := (ncard_pos (h.finite hk)).mpr ⟨c, hc⟩

lemma exists_of_tally_pos (hpos : 0 < tally kind s k) : ∃ c, kind k (s.pc c) = true :=
  nonempty_of_ncard_ne_zero hpos.ne'

lemma Settled.eq_of_tally_le_one (h : Settled p₀ s) (hk : kind k p₀ = false)
    (hone : tally kind s k ≤ 1) {a b : ι} (ha : kind k (s.pc a) = true)
    (hb : kind k (s.pc b) = true) : a = b :=
  (ncard_le_one (h.finite hk)).mp hone a ha b hb

lemma Few.tally_lt {b : ℕ} (h : Few (fun p => kind k p = true) b s) : tally kind s k < b := by
  have hfin : {c | kind k (s.pc c) = true}.Finite := finite_of_encard_le_coe h.le
  rw [Few, ← hfin.cast_ncard_eq] at h
  exact_mod_cast h

lemma Settled.tally_eq (h : Settled p₀ s) (h₀ : ∀ k, kind k p₀ = false) (c : ι) :
    tally kind s = plus kind (fun k => ({b | kind k (s.pc b) = true} \ {c}).ncard) (s.pc c) := by
  funext k
  rw [tally, plus]
  cases hc : kind k (s.pc c) with
  | true =>
    have hmem : c ∈ {b | kind k (s.pc b) = true} := hc
    exact (ncard_sdiff_singleton_add_one hmem (h.finite (h₀ k))).symm
  | false =>
    have hnot : c ∉ {b | kind k (s.pc b) = true} := fun h => absurd (h.symm.trans hc) nofun
    rw [sdiff_singleton_eq_self hnot]
    rfl

variable [DecidableEq ι]

lemma Settled.client (h : Settled p₀ s) {m : M} {c : ι} {p : P} :
    Settled p₀ ⟨m, update s.pc c p⟩ := by
  refine (h.insert c).subset fun b hb => ?_
  by_cases hbc : b = c
  · exact .inl hbc
  · have hpc : update s.pc c p b = s.pc b := update_of_ne hbc ..
    exact .inr fun he => hb (hpc.trans he)

lemma Settled.tally_client (h : Settled p₀ s) (h₀ : ∀ k, kind k p₀ = false) (c : ι) :
    ∃ n : K → ℕ, tally kind s = plus kind n (s.pc c) ∧
      ∀ (m : M) (p : P), tally kind ⟨m, update s.pc c p⟩ = plus kind n p := by
  refine ⟨_, h.tally_eq h₀ c, fun m p => ?_⟩
  have hrest : ∀ k, {b | kind k (update s.pc c p b) = true} \ {c}
      = {b | kind k (s.pc b) = true} \ {c} := by
    intro k
    ext b
    simp only [mem_sdiff, mem_ofPred_eq, mem_singleton_iff, and_congr_left_iff]
    intro hb
    rw [update_of_ne hb]
  have hafter := (h.client (m := m) (c := c) (p := p)).tally_eq h₀ c
  simp only [hrest, update_self] at hafter
  exact hafter

end Tally

end Acc.Interleaving
