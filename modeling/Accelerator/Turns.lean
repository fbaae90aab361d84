import Mathlib

namespace Turns

open Function List

variable {ι σ α : Type*}

structure Layout (σ : Type*) where
  slot : Nat → σ
  turn : Nat → Nat
  inj : ∀ {t t' : Nat}, slot t = slot t' → turn t = turn t' → t = t'

inductive Job (α : Type*)
  | push (ticket : Nat) (v : α)
  | pop (ticket : Nat)
  deriving DecidableEq, Repr

def Job.ticket : Job α → Nat
  | .push t _ => t
  | .pop t => t

def Layout.due (L : Layout σ) : Job α → Nat
  | .push t _ => 2 * L.turn t
  | .pop t => 2 * L.turn t + 1

def Layout.place (L : Layout σ) (job : Job α) : σ := L.slot job.ticket

inductive Stage (α : Type*)
  | free
  | waiting (job : Job α)
  | active (job : Job α)
  | leaving (job : Job α)
  deriving DecidableEq, Repr

def Stage.job? : Stage α → Option (Job α)
  | .free => none
  | .waiting job => some job
  | .active job => some job
  | .leaving job => some job

inductive Event (ι α : Type*)
  | stored (i : ι) (t : Nat) (v : α)
  | returned (i : ι) (t : Nat) (c : Option α)
  | completed (i : ι) (t : Nat)
  deriving DecidableEq, Repr

def Event.ticket : Event ι α → Nat
  | .stored _ t _ => t
  | .returned _ t _ => t
  | .completed _ t => t

structure State (ι σ α : Type*) where
  pushes : Nat
  pops : Nat
  clock : σ → Nat
  contents : σ → Option α
  stage : ι → Stage α

section Steps

variable [DecidableEq ι] [DecidableEq σ]

inductive Step (L : Layout σ) : State ι σ α → List (Event ι α) → State ι σ α → Prop
  | push {s} (i : ι) (v : α) (hfree : s.stage i = .free) :
      Step L s []
        { s with
          pushes := s.pushes + 1
          stage := Function.update s.stage i (.waiting (.push s.pushes v)) }
  | pop {s} (i : ι) (hfree : s.stage i = .free) :
      Step L s []
        { s with
          pops := s.pops + 1
          stage := Function.update s.stage i (.waiting (.pop s.pops)) }
  | begin {s} (i : ι) (job : Job α) (hwaiting : s.stage i = .waiting job)
      (hclock : s.clock (L.place job) = L.due job) :
      Step L s [] { s with stage := Function.update s.stage i (.active job) }
  | store {s} (i : ι) (t : Nat) (v : α) (hactive : s.stage i = .active (.push t v)) :
      Step L s [.stored i t v]
        { s with
          contents := Function.update s.contents (L.slot t) (some v)
          stage := Function.update s.stage i (.leaving (.push t v)) }
  | take {s} (i : ι) (t : Nat) (hactive : s.stage i = .active (.pop t)) :
      Step L s [.returned i t (s.contents (L.slot t))]
        { s with
          contents := Function.update s.contents (L.slot t) none
          stage := Function.update s.stage i (.leaving (.pop t)) }
  | leave {s} (i : ι) (job : Job α) (hleaving : s.stage i = .leaving job) :
      Step L s [.completed i job.ticket]
        { s with
          clock := Function.update s.clock (L.place job) (s.clock (L.place job) + 1)
          stage := Function.update s.stage i .free }

end Steps

section Progress

variable [DecidableEq σ] (L : Layout σ)

def progress (tr : List (Event ι α)) (x : σ) : Nat :=
  tr.countP fun e => L.slot e.ticket = x

lemma progress_snoc (tr : List (Event ι α)) (e : Event ι α) (x : σ) :
    progress L (tr ++ [e]) x = progress L tr x + if L.slot e.ticket = x then 1 else 0 := by
  simp [progress, countP_append, countP_singleton]

lemma progress_snoc_self (tr : List (Event ι α)) (e : Event ι α) :
    progress L (tr ++ [e]) (L.slot e.ticket) = progress L tr (L.slot e.ticket) + 1 := by
  rw [progress_snoc, if_pos rfl]

lemma progress_snoc_of_ne (tr : List (Event ι α)) (e : Event ι α) {x : σ}
    (h : L.slot e.ticket ≠ x) : progress L (tr ++ [e]) x = progress L tr x := by
  simp [progress_snoc, h]

end Progress

def Stage.Fits (L : Layout σ) (p : σ → Nat) : Stage α → Prop
  | .free => True
  | .waiting job => p (L.place job) ≤ 2 * L.due job
  | .active job => p (L.place job) = 2 * L.due job
  | .leaving job => p (L.place job) = 2 * L.due job + 1

lemma Layout.same_job (L : Layout σ) {job job' : Job α} (hplace : L.place job = L.place job')
    (hdue : L.due job = L.due job') :
    (∃ t v v', job = .push t v ∧ job' = .push t v') ∨ (∃ t, job = .pop t ∧ job' = .pop t) := by
  cases job with
  | push t v =>
    cases job' with
    | push t' v' =>
      have ht : t = t' := L.inj hplace (by simp only [due] at hdue; omega)
      exact .inl ⟨t, v, v', rfl, by rw [ht]⟩
    | pop t' => simp only [due] at hdue; omega
  | pop t =>
    cases job' with
    | push t' v' => simp only [due] at hdue; omega
    | pop t' =>
      have ht : t = t' := L.inj hplace (by simp only [due] at hdue; omega)
      exact .inr ⟨t, rfl, by rw [ht]⟩

def Holds (L : Layout σ) (tr : List (Event ι α)) (x : σ) (p : Nat) (c : Option α) : Prop :=
  if p % 4 = 1 ∨ p % 4 = 2
  then ∃ i t v, Event.stored i t v ∈ tr ∧ L.slot t = x ∧ L.turn t = p / 4 ∧ c = some v
  else c = none

def storedTicket : Event ι α → Option Nat
  | .stored _ t _ => some t
  | _ => none

def returnedTicket : Event ι α → Option Nat
  | .returned _ t _ => some t
  | _ => none

def storedTickets (tr : List (Event ι α)) : List Nat := tr.filterMap storedTicket

def returnedTickets (tr : List (Event ι α)) : List Nat := tr.filterMap returnedTicket

def unread (tr : List (Event ι α)) : List Nat :=
  (storedTickets tr).filter (· ∉ returnedTickets tr)

def State.issued (s : State ι σ α) : Job α → Nat
  | .push _ _ => s.pushes
  | .pop _ => s.pops

variable [DecidableEq σ]

structure Threads (L : Layout σ) (tr : List (Event ι α)) (s : State ι σ α) : Prop where
  fits : ∀ i, (s.stage i).Fits L (progress L tr)
  issued : ∀ i job, (s.stage i).job? = some job → job.ticket < s.issued job
  unique : ∀ i j job job', (s.stage i).job? = some job → (s.stage j).job? = some job' →
    L.place job = L.place job' → L.due job = L.due job' → i = j

structure History (L : Layout σ) (tr : List (Event ι α)) (s : State ι σ α) : Prop where
  clock : ∀ x, s.clock x = progress L tr x / 2
  contents : ∀ x, Holds L tr x (progress L tr x) (s.contents x)
  stored : ∀ t, t ∈ storedTickets tr ↔ 4 * L.turn t + 0 < progress L tr (L.slot t)
  returned : ∀ t, t ∈ returnedTickets tr ↔ 4 * L.turn t + 2 < progress L tr (L.slot t)
  pushed : ∀ t ∈ storedTickets tr, t < s.pushes
  popped : ∀ t ∈ returnedTickets tr, t < s.pops
  nodup_stored : (storedTickets tr).Nodup
  nodup_returned : (returnedTickets tr).Nodup
  returned_stored : ∀ j t c, Event.returned j t c ∈ tr →
    ∃ i v, c = some v ∧ Event.stored i t v ∈ tr

structure Inv (L : Layout σ) (tr : List (Event ι α)) (s : State ι σ α) : Prop where
  threads : Threads L tr s
  history : History L tr s

section OneEvent

variable {L : Layout σ} {tr : List (Event ι α)}

lemma Stage.Fits.snoc {st : Stage α} (h : st.Fits L (progress L tr)) (e : Event ι α) {d : Nat}
    (hd : progress L tr (L.slot e.ticket) = 2 * d ∨ progress L tr (L.slot e.ticket) = 2 * d + 1)
    (hne : ∀ job, st.job? = some job → L.place job = L.slot e.ticket → L.due job ≠ d) :
    st.Fits L (progress L (tr ++ [e])) := by
  cases st with
  | free => trivial
  | waiting job | active job | leaving job =>
    simp only [Fits] at h ⊢
    by_cases hx : L.slot e.ticket = L.place job
    · have hdue := hne job rfl hx.symm
      rw [← hx] at h ⊢
      rw [progress_snoc_self]
      omega
    · rw [progress_snoc_of_ne L tr e hx]
      exact h

lemma lt_progress_snoc {e : Event ι α} {k k' : Nat} (hk : k < 4) (hk' : k' < 4)
    (hp : progress L tr (L.slot e.ticket) = 4 * L.turn e.ticket + k) (t : Nat) :
    4 * L.turn t + k' < progress L (tr ++ [e]) (L.slot t) ↔
      4 * L.turn t + k' < progress L tr (L.slot t) ∨ (t = e.ticket ∧ k' = k) := by
  by_cases hx : L.slot e.ticket = L.slot t
  · have hinj : L.turn e.ticket = L.turn t → e.ticket = t := L.inj hx
    rw [← hx, progress_snoc_self, hp]
    constructor
    · intro hlt
      by_cases hturn : L.turn e.ticket = L.turn t
      · rcases Nat.lt_or_ge k' k with hlt' | hge
        · exact .inl (by omega)
        · exact .inr ⟨(hinj hturn).symm, by omega⟩
      · exact .inl (by omega)
    · rintro (hlt | ⟨rfl, rfl⟩)
      · omega
      · omega
  rw [progress_snoc_of_ne L tr e hx]
  constructor
  · exact .inl
  · rintro (hlt | ⟨rfl, -⟩)
    · exact hlt
    · exact absurd rfl hx

variable {c : Option α}

omit [DecidableEq σ] in
lemma Holds.snoc {x : σ} {p : Nat} (h : Holds L tr x p c) (e : Event ι α) :
    Holds L (tr ++ [e]) x p c := by
  rw [Holds] at h ⊢
  split
  · rename_i hp
    rw [if_pos hp] at h
    obtain ⟨i, t, v, hmem, hrest⟩ := h
    exact ⟨i, t, v, mem_append_left _ hmem, hrest⟩
  · rename_i hp
    rwa [if_neg hp] at h

omit [DecidableEq σ] in
lemma Holds.next {x : σ} {p : Nat} (h : Holds L tr x p c) (hp : p % 2 = 1) :
    Holds L tr x (p + 1) c := by
  rw [Holds] at h ⊢
  by_cases h1 : p % 4 = 1
  · rw [if_pos (.inl h1)] at h
    rw [if_pos (by omega)]
    obtain ⟨i, t, v, hmem, hslot, hturn, hc⟩ := h
    exact ⟨i, t, v, hmem, hslot, by omega, hc⟩
  · rw [if_neg (by omega)] at h
    rw [if_neg (by omega)]
    exact h

lemma Holds.snoc_of_ne {e : Event ι α} {x : σ} (hx : L.slot e.ticket ≠ x)
    (h : Holds L tr x (progress L tr x) c) : Holds L (tr ++ [e]) x (progress L (tr ++ [e]) x) c := by
  rw [progress_snoc_of_ne L tr e hx]
  exact h.snoc e

end OneEvent

variable {L : Layout σ} {tr : List (Event ι α)} {s s' : State ι σ α}

lemma History.progress_le_of_new (h : History L tr s) (job : Job α)
    (hticket : job.ticket = s.issued job) : progress L tr (L.place job) ≤ 2 * L.due job := by
  cases job with
  | push t v =>
    have hout : t ∉ storedTickets tr := by
      intro hmem
      exact absurd hticket (Nat.ne_of_lt (h.pushed t hmem))
    rw [h.stored] at hout
    simp only [Layout.place, Job.ticket, Layout.due]
    omega
  | pop t =>
    have hout : t ∉ returnedTickets tr := by
      intro hmem
      exact absurd hticket (Nat.ne_of_lt (h.popped t hmem))
    rw [h.returned] at hout
    simp only [Layout.place, Job.ticket, Layout.due]
    omega

variable {i : ι}

lemma Inv.contents_of_active (h : Inv L tr s) {job : Job α} (hactive : s.stage i = .active job) :
    Holds L tr (L.place job) (2 * L.due job) (s.contents (L.place job)) := by
  have hp := h.threads.fits i
  rw [hactive, Stage.Fits] at hp
  rw [← hp]
  exact h.history.contents _

variable {t : Nat}

lemma Inv.empty_of_active (h : Inv L tr s) {v : α}
    (hactive : s.stage i = .active (.push t v)) : s.contents (L.slot t) = none := by
  have hholds := h.contents_of_active hactive
  rw [Holds, if_neg (by simp only [Layout.due]; omega)] at hholds
  exact hholds

lemma Inv.full_of_active (h : Inv L tr s) (hactive : s.stage i = .active (.pop t)) :
    ∃ j v, s.contents (L.slot t) = some v ∧ Event.stored j t v ∈ tr := by
  have hholds := h.contents_of_active hactive
  rw [Holds, if_pos (by simp only [Layout.due]; omega)] at hholds
  obtain ⟨j, t', v, hmem, hslot, hturn, hc⟩ := hholds
  have ht : t' = t := L.inj hslot (by simp only [Layout.due] at hturn; omega)
  rw [ht] at hmem
  exact ⟨j, v, hc, hmem⟩

section Updates

variable [DecidableEq ι]

lemma Threads.obtain (h : Threads L tr s) {i : ι} {job : Job α}
    (hstage : s'.stage = update s.stage i (.waiting job))
    (hp : progress L tr (L.place job) ≤ 2 * L.due job)
    (hticket : job.ticket = s.issued job) (hissued : s.issued job < s'.issued job)
    (hmono : ∀ job', s.issued job' ≤ s'.issued job') : Threads L tr s' := by
  have hnew : ∀ j job', (s.stage j).job? = some job' → L.place job' = L.place job →
      L.due job' ≠ L.due job := by
    intro j job' hjob' hplace hdue
    have hlt := h.issued j job' hjob'
    rcases L.same_job hplace hdue with ⟨t, v, v', rfl, rfl⟩ | ⟨t, rfl, rfl⟩
    · exact absurd hticket (Nat.ne_of_lt hlt)
    · exact absurd hticket (Nat.ne_of_lt hlt)
  refine ⟨?_, ?_, ?_⟩
  · intro j
    rw [hstage]
    by_cases hj : j = i
    · rw [hj, update_self]
      exact hp
    · rw [update_of_ne hj]
      exact h.fits j
  · intro j job' hjob'
    rw [hstage] at hjob'
    by_cases hj : j = i
    · rw [hj, update_self] at hjob'
      cases hjob'
      rwa [hticket]
    · rw [update_of_ne hj] at hjob'
      exact lt_of_lt_of_le (h.issued j job' hjob') (hmono job')
  intro j k job₁ job₂ h₁ h₂ hplace hdue
  rw [hstage] at h₁ h₂
  by_cases hj : j = i
  · by_cases hk : k = i
    · rw [hj, hk]
    rw [hj, update_self] at h₁
    rw [update_of_ne hk] at h₂
    cases h₁
    exact absurd hdue.symm (hnew k job₂ h₂ hplace.symm)
  rw [update_of_ne hj] at h₁
  by_cases hk : k = i
  · rw [hk, update_self] at h₂
    cases h₂
    exact absurd hdue (hnew j job₁ h₁ hplace)
  · rw [update_of_ne hk] at h₂
    exact h.unique j k job₁ job₂ h₁ h₂ hplace hdue

lemma Threads.go_on (h : Threads L tr s) {tr' : List (Event ι α)} {i : ι} {st : Stage α}
    (hstage : s'.stage = update s.stage i st) (hjob : st.job? = (s.stage i).job? ∨ st.job? = none)
    (hissued : ∀ job, s'.issued job = s.issued job) (hst : st.Fits L (progress L tr'))
    (hothers : ∀ j ≠ i, (s.stage j).Fits L (progress L tr')) : Threads L tr' s' := by
  have hjobs : ∀ j job, (s'.stage j).job? = some job → (s.stage j).job? = some job := by
    intro j job hj
    rw [hstage] at hj
    by_cases hji : j = i
    · rw [hji, update_self] at hj
      rcases hjob with hsame | hnone
      · rw [hji, ← hsame, hj]
      · rw [hnone] at hj
        cases hj
    · rwa [update_of_ne hji] at hj
  refine ⟨?_, ?_, ?_⟩
  · intro j
    rw [hstage]
    by_cases hj : j = i
    · rwa [hj, update_self]
    · rw [update_of_ne hj]
      exact hothers j hj
  · intro j job hj
    rw [hissued]
    exact h.issued j job (hjobs j job hj)
  · intro j k job job' hj hk
    exact h.unique j k job job' (hjobs j job hj) (hjobs k job' hk)

omit [DecidableEq ι] in
lemma Threads.others_fit (h : Threads L tr s) {i : ι} {job : Job α} {e : Event ι α}
    (hjob : (s.stage i).job? = some job) (he : L.slot e.ticket = L.place job)
    (hp : progress L tr (L.place job) = 2 * L.due job ∨
      progress L tr (L.place job) = 2 * L.due job + 1) (j : ι) (hj : j ≠ i) :
    (s.stage j).Fits L (progress L (tr ++ [e])) := by
  refine (h.fits j).snoc e (by rwa [he]) ?_
  intro job' hjob' hplace hdue
  exact hj (h.unique j i job' job hjob' hjob (hplace.trans he) hdue)

end Updates

lemma storedTickets_snoc (tr : List (Event ι α)) (e : Event ι α) :
    storedTickets (tr ++ [e]) = storedTickets tr ++ (storedTicket e).toList := by
  cases e <;> simp [storedTickets, storedTicket]

lemma returnedTickets_snoc (tr : List (Event ι α)) (e : Event ι α) :
    returnedTickets (tr ++ [e]) = returnedTickets tr ++ (returnedTicket e).toList := by
  cases e <;> simp [returnedTickets, returnedTicket]

lemma History.snoc (h : History L tr s) {e : Event ι α} {k : Nat} (hk : k < 4)
    (hp : progress L tr (L.slot e.ticket) = 4 * L.turn e.ticket + k)
    (hstored : storedTicket e = if k = 0 then some e.ticket else none)
    (hreturned : returnedTicket e = if k = 2 then some e.ticket else none)
    (hpushed : e.ticket < s.pushes ∨ k ≠ 0) (hpopped : e.ticket < s.pops ∨ k ≠ 2)
    (hfrom : ∀ j t c, e = .returned j t c → ∃ i v, c = some v ∧ Event.stored i t v ∈ tr)
    (hissued : s'.pushes = s.pushes ∧ s'.pops = s.pops)
    (hclock : ∀ x, s'.clock x = progress L (tr ++ [e]) x / 2)
    (hhere : Holds L (tr ++ [e]) (L.slot e.ticket) (4 * L.turn e.ticket + k + 1)
      (s'.contents (L.slot e.ticket)))
    (hthere : ∀ x, x ≠ L.slot e.ticket → s'.contents x = s.contents x) :
    History L (tr ++ [e]) s' := by
  have hpast := fun k' (hk' : k' < 4) => lt_progress_snoc hk hk' hp
  have hmemS : ∀ t, t ∈ storedTickets (tr ++ [e]) ↔
      t ∈ storedTickets tr ∨ (t = e.ticket ∧ 0 = k) := by
    intro t
    rw [storedTickets_snoc, hstored, mem_append]
    by_cases h0 : k = 0
    · simp [h0]
    · simp [h0, Ne.symm h0]
  have hmemR : ∀ t, t ∈ returnedTickets (tr ++ [e]) ↔
      t ∈ returnedTickets tr ∨ (t = e.ticket ∧ 2 = k) := by
    intro t
    rw [returnedTickets_snoc, hreturned, mem_append]
    by_cases h2 : k = 2
    · simp [h2]
    · simp [h2, Ne.symm h2]
  refine ⟨hclock, ?_, ?_, ?_, ?_, ?_, ?_, ?_, ?_⟩
  · intro x
    by_cases hx : x = L.slot e.ticket
    · rw [hx, progress_snoc_self, hp]
      exact hhere
    · rw [hthere x hx]
      exact (h.contents x).snoc_of_ne (Ne.symm hx)
  · intro t
    rw [hmemS, hpast 0 (by decide), h.stored]
  · intro t
    rw [hmemR, hpast 2 (by decide), h.returned]
  · intro t ht
    rw [hissued.1]
    rcases (hmemS t).mp ht with ht | ⟨rfl, h0⟩
    · exact h.pushed t ht
    · exact hpushed.resolve_right (not_not.mpr h0.symm)
  · intro t ht
    rw [hissued.2]
    rcases (hmemR t).mp ht with ht | ⟨rfl, h2⟩
    · exact h.popped t ht
    · exact hpopped.resolve_right (not_not.mpr h2.symm)
  · rw [storedTickets_snoc, hstored]
    split
    · rename_i h0
      refine h.nodup_stored.append (nodup_singleton _) ?_
      intro t ht heq
      rw [mem_singleton.mp heq, h.stored, hp, h0] at ht
      exact lt_irrefl _ ht
    · rw [Option.toList_none, append_nil]
      exact h.nodup_stored
  · rw [returnedTickets_snoc, hreturned]
    split
    · rename_i h2
      refine h.nodup_returned.append (nodup_singleton _) ?_
      intro t ht heq
      rw [mem_singleton.mp heq, h.returned, hp, h2] at ht
      exact lt_irrefl _ ht
    · rw [Option.toList_none, append_nil]
      exact h.nodup_returned
  intro j t c hmem
  have hold : ∃ i v, c = some v ∧ Event.stored i t v ∈ tr := by
    rcases mem_append.mp hmem with hmem | hmem
    · exact h.returned_stored j t c hmem
    · exact hfrom j t c (mem_singleton.mp hmem).symm
  obtain ⟨i, v, hc, hmem'⟩ := hold
  exact ⟨i, v, hc, mem_append_left _ hmem'⟩

lemma half_progress_even {e : Event ι α} {d : Nat}
    (hp : progress L tr (L.slot e.ticket) = 2 * d) (x : σ) :
    progress L tr x / 2 = progress L (tr ++ [e]) x / 2 := by
  rw [progress_snoc]
  split
  · rename_i hx
    rw [← hx, hp]
    omega
  · rfl

section Step

variable [DecidableEq ι]

lemma Inv.store (h : Inv L tr s) {i : ι} {t : Nat} {v : α}
    (hactive : s.stage i = .active (.push t v)) : Inv L (tr ++ [.stored i t v]) { s with
        contents := update s.contents (L.slot t) (some v)
        stage := update s.stage i (.leaving (.push t v)) } := by
  have hjob : (s.stage i).job? = some (.push t v) := by rw [hactive]; rfl
  have hfits := h.threads.fits i
  rw [hactive, Stage.Fits] at hfits
  have hp : progress L tr (L.slot t) = 4 * L.turn t + 0 := by
    refine hfits.trans ?_
    simp only [Layout.due]
    omega
  have hself := progress_snoc_self L tr (.stored i t v)
  constructor
  · refine h.threads.go_on rfl (.inl hjob.symm) (fun _ => rfl) ?_ ?_
    · exact hself.trans (congrArg (· + 1) hfits)
    · exact h.threads.others_fit hjob rfl (.inl hfits)
  refine h.history.snoc (k := 0) (by decide) hp rfl rfl (.inl (h.threads.issued i _ hjob))
    (.inr (by decide)) (fun _ _ _ h => by cases h) ⟨rfl, rfl⟩ ?_ ?_ ?_
  · intro x
    exact (h.history.clock x).trans (half_progress_even hfits x)
  · rw [Holds, if_pos (by omega)]
    exact ⟨i, t, v, mem_append_right _ (mem_singleton_self _), rfl,
      by simp only [Event.ticket]; omega, update_self _ _ _⟩
  · intro x hx
    exact update_of_ne hx _ _

lemma Inv.take (h : Inv L tr s) {i : ι} {t : Nat} (hactive : s.stage i = .active (.pop t)) :
    Inv L (tr ++ [.returned i t (s.contents (L.slot t))]) { s with
        contents := update s.contents (L.slot t) none
        stage := update s.stage i (.leaving (.pop t)) } := by
  have hjob : (s.stage i).job? = some (.pop t) := by rw [hactive]; rfl
  have hfits := h.threads.fits i
  rw [hactive, Stage.Fits] at hfits
  have hp : progress L tr (L.slot t) = 4 * L.turn t + 2 := by
    refine hfits.trans ?_
    simp only [Layout.due]
    omega
  have hself := progress_snoc_self L tr (.returned i t (s.contents (L.slot t)))
  constructor
  · refine h.threads.go_on rfl (.inl hjob.symm) (fun _ => rfl) ?_ ?_
    · exact hself.trans (congrArg (· + 1) hfits)
    · exact h.threads.others_fit hjob rfl (.inl hfits)
  refine h.history.snoc (k := 2) (by decide) hp rfl rfl (.inr (by decide))
    (.inl (h.threads.issued i _ hjob)) ?_ ⟨rfl, rfl⟩ ?_ ?_ ?_
  · intro j t' c heq
    obtain ⟨j', v, hc, hmem⟩ := h.full_of_active hactive
    cases heq
    exact ⟨j', v, hc, hmem⟩
  · intro x
    exact (h.history.clock x).trans (half_progress_even hfits x)
  · rw [Holds, if_neg (by omega)]
    exact update_self _ _ _
  · intro x hx
    exact update_of_ne hx _ _

lemma Inv.leave (h : Inv L tr s) {i : ι} {job : Job α} (hleaving : s.stage i = .leaving job) :
    Inv L (tr ++ [.completed i job.ticket]) { s with
        clock := update s.clock (L.place job) (s.clock (L.place job) + 1)
        stage := update s.stage i .free } := by
  have hjob : (s.stage i).job? = some job := by rw [hleaving]; rfl
  have hfits := h.threads.fits i
  rw [hleaving, Stage.Fits] at hfits
  have hself : progress L (tr ++ [.completed i job.ticket]) (L.place job) = _ :=
    progress_snoc_self L tr (.completed i job.ticket)
  obtain ⟨k, hk, hp, hodd⟩ : ∃ k < 4, progress L tr (L.place job) =
      4 * L.turn job.ticket + k ∧ k % 2 = 1 := by
    cases job with
    | push t v =>
      refine ⟨1, by decide, hfits.trans ?_, by decide⟩
      simp only [Layout.due, Job.ticket]
      omega
    | pop t =>
      refine ⟨3, by decide, hfits.trans ?_, by decide⟩
      simp only [Layout.due, Job.ticket]
      omega
  have hk0 : k ≠ 0 := by omega
  have hk2 : k ≠ 2 := by omega
  constructor
  · refine h.threads.go_on rfl (.inr rfl) (fun _ => rfl) trivial ?_
    exact h.threads.others_fit hjob rfl (.inr hfits)
  refine h.history.snoc hk hp (by rw [if_neg hk0]; rfl) (by rw [if_neg hk2]; rfl) (.inr hk0)
    (.inr hk2) (fun _ _ _ h => by cases h) ⟨rfl, rfl⟩ ?_ ?_ ?_
  · intro x
    by_cases hx : x = L.place job
    · subst hx
      show update s.clock _ _ _ = _
      rw [update_self, h.history.clock, hself]
      show _ = (progress L tr (L.place job) + 1) / 2
      omega
    · show update s.clock _ _ _ = _
      rw [update_of_ne hx, h.history.clock, progress_snoc_of_ne L tr _ (Ne.symm hx)]
  · have hcontents := h.history.contents (L.place job)
    rw [hp] at hcontents
    exact (hcontents.next (by omega)).snoc _
  · intro x hx
    rfl

lemma Inv.step (h : Inv L tr s) {es : List (Event ι α)} (hstep : Step L s es s') :
    Inv L (tr ++ es) s' := by
  cases hstep with
  | push i v hfree =>
    rw [append_nil]
    have hp := h.history.progress_le_of_new (.push s.pushes v) rfl
    refine ⟨h.threads.obtain rfl hp rfl (Nat.lt_succ_self _) ?_, { h.history with pushed := ?_ }⟩
    · intro job
      cases job with
      | push => exact Nat.le_succ _
      | pop => exact le_refl _
    · intro t ht
      exact Nat.lt_succ_of_lt (h.history.pushed t ht)
  | pop i hfree =>
    rw [append_nil]
    have hp := h.history.progress_le_of_new (.pop s.pops) rfl
    refine ⟨h.threads.obtain rfl hp rfl (Nat.lt_succ_self _) ?_, { h.history with popped := ?_ }⟩
    · intro job
      cases job with
      | push => exact le_refl _
      | pop => exact Nat.le_succ _
    · intro t ht
      exact Nat.lt_succ_of_lt (h.history.popped t ht)
  | begin i job hwaiting hclock =>
    rw [append_nil]
    have hfits := h.threads.fits i
    rw [hwaiting, Stage.Fits] at hfits
    rw [h.history.clock] at hclock
    refine ⟨h.threads.go_on rfl (.inl (by rw [hwaiting]; rfl)) (fun _ => rfl) ?_ ?_,
      { h.history with }⟩
    · simp only [Stage.Fits]
      omega
    · intro j _
      exact h.threads.fits j
  | store i t v hactive => exact h.store hactive
  | take i t hactive => exact h.take hactive
  | leave i job hleaving => exact h.leave hleaving

end Step

lemma inv_start (L : Layout σ) (s : State ι σ α) (hclock : ∀ x, s.clock x = 0)
    (hcontents : ∀ x, s.contents x = none) (hstage : ∀ i, s.stage i = .free) : Inv L [] s := by
  constructor
  · refine ⟨?_, ?_, ?_⟩
    · intro i
      rw [hstage]
      trivial
    · intro i job hjob
      rw [hstage] at hjob
      cases hjob
    · intro i j job job' hjob
      rw [hstage] at hjob
      cases hjob
  refine ⟨?_, ?_, ?_, ?_, ?_, ?_, nodup_nil, nodup_nil, ?_⟩
  · intro x
    rw [hclock, progress, countP_nil]
  · intro x
    exact hcontents x
  · intro t
    exact ⟨fun h => (nomatch h), fun h => absurd h (Nat.not_lt_zero _)⟩
  · intro t
    exact ⟨fun h => (nomatch h), fun h => absurd h (Nat.not_lt_zero _)⟩
  · intro t ht
    cases ht
  · intro t ht
    cases ht
  · intro j t c hmem
    cases hmem

lemma History.progress_of_unread (h : History L tr s) (ht : t ∈ unread tr) :
    progress L tr (L.slot t) = 4 * L.turn t + 1 ∨ progress L tr (L.slot t) = 4 * L.turn t + 2 := by
  rw [unread, mem_filter, decide_eq_true_eq] at ht
  obtain ⟨hstored, hreturned⟩ := ht
  rw [h.stored] at hstored
  rw [h.returned] at hreturned
  omega

lemma Step.active_of_stored [DecidableEq ι] {es : List (Event ι α)} (h : Step L s es s') {v : α} (hmem : Event.stored i t v ∈ es) :
    s.stage i = .active (.push t v) := by
  cases h with
  | push | pop | begin => cases hmem
  | store j t' v' hactive =>
    cases mem_singleton.mp hmem
    exact hactive
  | take | leave => cases mem_singleton.mp hmem

lemma Inv.slot_ne_of_unread (h : Inv L tr s) {t' : Nat} {v : α}
    (hactive : s.stage i = .active (.push t v)) (ht' : t' ∈ unread tr) : L.slot t' ≠ L.slot t := by
  intro hslot
  have hfits := h.threads.fits i
  rw [hactive] at hfits
  simp only [Stage.Fits, Layout.place, Job.ticket, Layout.due] at hfits
  have hp := h.history.progress_of_unread ht'
  rw [hslot] at hp
  omega

lemma History.length_unread_le (h : History L tr s) (slots : Finset σ)
    (hslots : ∀ t, L.slot t ∈ slots) : (unread tr).length ≤ slots.card := by
  have hnodup : (unread tr).Nodup := h.nodup_stored.filter _
  have hinj : Set.InjOn L.slot (unread tr).toFinset := by
    intro t ht t' ht' hslot
    have hp := h.progress_of_unread (mem_toFinset.mp ht)
    have hp' := h.progress_of_unread (mem_toFinset.mp ht')
    rw [hslot] at hp
    exact L.inj hslot (by omega)
  rw [← toFinset_card_of_nodup hnodup]
  exact Finset.card_le_card_of_injOn L.slot (fun t _ => hslots t) hinj

end Turns
