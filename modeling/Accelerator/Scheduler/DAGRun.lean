import Accelerator.Scheduler.DAGGraph

namespace Acc.Scheduler

open Function
open List hiding range

open Finset (range)

namespace Task

def rest : Task → List Nat
  | .scheduling rest => rest
  | .adding _ rest => rest
  | .queued _ => []
  | .running _ => []

def key? : Task → Option Nat
  | .scheduling _ => none
  | .adding key _ => some key
  | .queued key => some key
  | .running key => some key

end Task

def restCount (tasks : List Task) (key : Nat) : Nat := (tasks.map fun t => t.rest.count key).sum

@[simp] lemma restCount_split (l l' : List Task) (t : Task) (key : Nat) :
    restCount (l ++ t :: l') key = restCount l key + (t.rest.count key + restCount l' key) := by
  simp [restCount]

@[simp] lemma restCount_append (l l' : List Task) (key : Nat) :
    restCount (l ++ l') key = restCount l key + restCount l' key := by
  simp [restCount]

@[simp] lemma restCount_cons (t : Task) (l : List Task) (key : Nat) :
    restCount (t :: l) key = t.rest.count key + restCount l key := by
  simp [restCount]

def alive (tasks : List Task) (key : Nat) : Nat := tasks.countP fun t => t.key? = some key

@[simp] lemma alive_append (l l' : List Task) (key : Nat) :
    alive (l ++ l') key = alive l key + alive l' key :=
  countP_append

@[simp] lemma alive_cons (t : Task) (l : List Task) (key : Nat) :
    alive (t :: l) key = alive l key + if t.key? = some key then 1 else 0 := by
  rw [alive, countP_cons]
  simp [alive]

section Invariant

variable (d : DAG) (source : Nat)

def pending (tr : List Event) : Finset Nat :=
  (range d.length).filter fun i => i ≠ source ∧ Event.ended i ∉ tr

def owed (tr : List Event) (s : Running) (key : Nat) : Nat :=
  ∑ i ∈ pending d source tr, (d.nexts i).count key + restCount s.tasks key

structure Inv (tr : List Event) (s : Running) : Prop where
  wait : ∀ key, s.waitCount key = owed d source tr s key
  lives : ∀ key, key < d.length → key ≠ source →
    alive s.tasks key + tr.count (.ended key) = if s.waitCount key = 0 then 1 else 0
  inside : ∀ t ∈ s.tasks, ∀ key, key ∈ t.rest ∨ t.key? = some key → key < d.length ∧ key ≠ source
  ended : ∀ key, Event.ended key ∈ tr → key < d.length ∧ key ≠ source
  began : ∀ key, tr.count (.began key) = s.tasks.count (.running key) + tr.count (.ended key)
  order : ∀ tr₁ e tr₂, tr = tr₁ ++ e :: tr₂ →
    ∀ i, d.Edge i e.key → i = source ∨ Event.ended i ∈ tr₁

end Invariant

variable {d : DAG} {source : Nat} {tr : List Event} {s s' : Running}

variable {i key n : Nat}

lemma mem_pending : i ∈ pending d source tr ↔ i < d.length ∧ i ≠ source ∧ Event.ended i ∉ tr := by
  simp [pending]

variable {t : Task}

lemma Inv.owed_eq_zero (h : Inv d source tr s) (ht : t ∈ s.tasks)
    (hkey : t.key? = some key) : owed d source tr s key = 0 ∧ Event.ended key ∉ tr := by
  obtain ⟨hlt, hne⟩ := h.inside t ht key (.inr hkey)
  have hlives := h.lives key hlt hne
  have hpos : 0 < alive s.tasks key := countP_pos_iff.mpr ⟨t, ht, decide_eq_true hkey⟩
  have hwait := h.wait key
  split at hlives
  · rename_i hzero
    refine ⟨by omega, fun hmem => ?_⟩
    have := count_pos_iff.mpr hmem
    omega
  · omega

lemma ended_of_owed_eq_zero (h : owed d source tr s key = 0)
    (hedge : d.Edge i key) : i = source ∨ Event.ended i ∈ tr := by
  by_contra hnot
  rw [not_or] at hnot
  have hmem : i ∈ pending d source tr :=
    mem_pending.mpr ⟨DAG.lt_length_of_mem_nexts hedge, hnot.1, hnot.2⟩
  have hle : (d.nexts i).count key ≤ ∑ i ∈ pending d source tr, (d.nexts i).count key :=
    Finset.single_le_sum (f := fun i => (d.nexts i).count key) (fun _ _ => Nat.zero_le _) hmem
  have hpos : 0 < (d.nexts i).count key := count_pos_iff.mpr hedge
  rw [owed] at h
  omega

lemma inv_start (hd : DAG.Runnable d source) : Inv d source [] (start d source) := by
  have howed : ∀ key, owed d source [] (start d source) key = d.incoming key := by
    intro key
    have hfilter : pending d source [] = (range d.length).erase source := by
      ext i
      rw [mem_pending, Finset.mem_erase, Finset.mem_range]
      simp [and_comm]
    rw [owed, hfilter, DAG.incoming,
      ← Finset.sum_erase_add _ _ (Finset.mem_range.mpr hd.source_lt)]
    simp [start, restCount, Task.rest]
  refine ⟨?_, ?_, ?_, ?_, ?_, ?_⟩
  · intro key
    rw [howed]
    exact hd.counted.waitCount key
  · intro key hlt hne
    have hpos := DAG.incoming_pos.mpr (hd.reached key hlt hne)
    have hwait := hd.counted.waitCount key
    rw [if_neg]
    · rfl
    · show d.waitCount key ≠ 0
      omega
  · intro t ht key hkey
    cases mem_singleton.mp ht
    rcases hkey with hkey | hkey
    · refine ⟨hd.counted.closed _ _ hkey, ?_⟩
      rintro rfl
      exact hd.not_to_source _ hkey
    · cases hkey
  · intro key hkey
    cases hkey
  · intro key
    rfl
  · intro tr₁ e tr₂ heq
    simp at heq

variable {l l' : List Task}

lemma forall_mem_replace {P : Task → Prop} (mid : List Task)
    (h : ∀ u ∈ l ++ t :: l', P u) (hmid : ∀ u ∈ mid, P u) : ∀ u ∈ l ++ (mid ++ l'), P u := by
  intro u hu
  rcases mem_append.mp hu with hu | hu
  · exact h u (mem_append_left _ hu)
  · rcases mem_append.mp hu with hu | hu
    · exact hmid u hu
    · exact h u (mem_append_right _ (mem_cons_of_mem _ hu))

lemma Inv.count_down (h : Inv d source tr s) {rest : List Nat} (htasks : s.tasks = l ++ .scheduling (key :: rest) :: l') (hrest : t.rest = rest)
    (hkey : t.key? = if s.waitCount key - 1 = 0 then some key else none)
    (hrunning : ∀ k, t ≠ .running k) : Inv d source tr
      { waitCount := update s.waitCount key (s.waitCount key - 1)
        tasks := l ++ t :: l' } := by
  have howed : ∀ k, owed d source tr s k =
      owed d source tr ⟨update s.waitCount key (s.waitCount key - 1), l ++ t :: l'⟩ k +
        if key = k then 1 else 0 := by
    simp only [owed, htasks, restCount_split, hrest]
    simp only [Task.rest, count_cons, beq_iff_eq]
    omega
  refine ⟨?_, ?_, ?_, h.ended, ?_, h.order⟩
  · intro k
    have hwait := h.wait k
    have hk := howed k
    by_cases hkk : k = key
    · subst hkk
      rw [if_pos rfl] at hk
      simp only [update_self]
      omega
    · rw [if_neg (Ne.symm hkk)] at hk
      simp only [update_of_ne hkk]
      omega
  · intro k hlt hne
    have hlives := h.lives k hlt hne
    simp only [htasks, alive_append, alive_cons, Task.key?, reduceCtorEq, if_false] at hlives
    simp only [alive_append, alive_cons, hkey]
    by_cases hkk : k = key
    · -- The count was not zero: this decrement was owed.
      subst hkk
      have hwait := h.wait k
      have hk := howed k
      rw [if_pos rfl] at hk
      rw [if_neg (by omega)] at hlives
      simp only [update_self]
      split
      · simp only [if_true]
        omega
      · simp only [reduceCtorEq, if_false]
        omega
    simp only [update_of_ne hkk]
    have hnot : (if s.waitCount key - 1 = 0 then some key else none) ≠ some k := by
      split
      · intro heq
        cases heq
        exact hkk rfl
      · intro heq
        cases heq
    rw [if_neg hnot]
    omega
  · have hinside := h.inside
    rw [htasks] at hinside
    refine forall_mem_replace [t] hinside fun u hu k hk => ?_
    refine hinside _ (mem_append_right _ mem_cons_self) k (.inl ?_)
    rw [mem_singleton.mp hu, hrest, hkey] at hk
    rcases hk with hk | hk
    · exact mem_cons_of_mem _ hk
    split at hk
    · cases hk
      exact mem_cons_self
    · cases hk
  intro k
  have hbegan := h.began k
  rw [htasks] at hbegan
  rw [hbegan]
  simp [hrunning k]

lemma Inv.replace (h : Inv d source tr s) {tasks : List Task}
    (hrest : ∀ key, restCount tasks key = restCount s.tasks key)
    (halive : ∀ key, alive tasks key = alive s.tasks key)
    (hrunning : ∀ key, tasks.count (.running key) = s.tasks.count (.running key))
    (hinside : ∀ t ∈ tasks, ∀ key, key ∈ t.rest ∨ t.key? = some key →
      key < d.length ∧ key ≠ source) : Inv d source tr { s with tasks } := by
  refine ⟨?_, ?_, hinside, h.ended, ?_, h.order⟩
  · intro key
    rw [h.wait key, owed, owed, hrest]
  · intro key hlt hne
    rw [halive]
    exact h.lives key hlt hne
  · intro key
    rw [hrunning]
    exact h.began key

lemma Inv.order_snoc (h : Inv d source tr s) {e : Event} (ht : t ∈ s.tasks)
    (hkey : t.key? = some e.key) (tr₁ : List Event) (e' : Event) (tr₂ : List Event)
    (heq : tr ++ [e] = tr₁ ++ e' :: tr₂) (i : Nat) (hedge : d.Edge i e'.key) :
    i = source ∨ Event.ended i ∈ tr₁ := by
  rcases eq_nil_or_concat tr₂ with rfl | ⟨init, x, rfl⟩
  · obtain ⟨rfl, hlast⟩ := append_inj' heq rfl
    rw [← singleton_inj.mp hlast] at hedge
    exact ended_of_owed_eq_zero (h.owed_eq_zero ht hkey).1 hedge
  have hassoc : tr ++ [e] = (tr₁ ++ e' :: init) ++ [x] := by
    rw [heq]
    simp
  exact h.order tr₁ e' init (append_inj' hassoc rfl).1 i hedge

lemma Inv.begin (h : Inv d source tr s) (htasks : s.tasks = l ++ .queued key :: l') :
    Inv d source (tr ++ [.began key]) { s with tasks := l ++ .running key :: l' } := by
  have hmem : Task.queued key ∈ s.tasks := by
    rw [htasks]
    exact mem_append_right _ mem_cons_self
  have hended : ∀ k, Event.ended k ∈ tr ++ [Event.began key] ↔ Event.ended k ∈ tr := by simp
  have hcount : ∀ k, (tr ++ [Event.began key]).count (.ended k) = tr.count (.ended k) := by simp
  have hpending : pending d source (tr ++ [.began key]) = pending d source tr := by
    ext i
    simp [mem_pending]
  refine ⟨?_, ?_, ?_, ?_, ?_, ?_⟩
  · intro k
    rw [h.wait k, owed, owed, hpending, htasks]
    simp [Task.rest]
  · intro k hlt hne
    have hlives := h.lives k hlt hne
    rw [htasks] at hlives
    simpa [Task.key?] using hlives
  · have hinside := h.inside
    rw [htasks] at hinside
    refine forall_mem_replace [.running key] hinside fun u hu k hk => ?_
    rw [mem_singleton.mp hu] at hk
    exact hinside _ (mem_append_right _ mem_cons_self) k hk
  · intro k hk
    exact h.ended k ((hended k).mp hk)
  · intro k
    have hbegan := h.began k
    rw [htasks] at hbegan
    simp only [count_append, count_cons, count_nil, hbegan, beq_iff_eq, reduceCtorEq,
      if_false, Event.began.injEq, Task.running.injEq]
    omega
  · exact h.order_snoc hmem rfl

lemma pending_ended (key : Nat) :
    pending d source (tr ++ [.ended key]) = (pending d source tr).erase key := by
  ext i
  rw [mem_pending, Finset.mem_erase, mem_pending, mem_append, mem_singleton]
  constructor
  · rintro ⟨hi, hne, hnot⟩
    rw [not_or] at hnot
    exact ⟨fun heq => hnot.2 (by rw [heq]), hi, hne, hnot.1⟩
  rintro ⟨hne, hi, hns, hnot⟩
  refine ⟨hi, hns, ?_⟩
  rintro (hmem | heq)
  · exact hnot hmem
  · cases heq
    exact hne rfl

lemma Inv.finish (hd : DAG.Runnable d source) (h : Inv d source tr s) (htasks : s.tasks = l ++ .running key :: l') :
    Inv d source (tr ++ [.ended key]) { s with tasks := l ++ .scheduling (d.nexts key) :: l' } := by
  have hmem : Task.running key ∈ s.tasks := by
    rw [htasks]
    exact mem_append_right _ mem_cons_self
  obtain ⟨hlt, hne⟩ := h.inside _ hmem key (.inr rfl)
  have hnot := (h.owed_eq_zero hmem rfl).2
  refine ⟨?_, ?_, ?_, ?_, ?_, ?_⟩
  · intro k
    have hsum := Finset.sum_erase_add (pending d source tr) (fun i => (d.nexts i).count k)
      (mem_pending.mpr ⟨hlt, hne, hnot⟩)
    rw [h.wait k, owed, owed, pending_ended, htasks, ← hsum]
    simp only [restCount_split]
    simp only [Task.rest, count_nil]
    omega
  · intro k hklt hkne
    have hlives := h.lives k hklt hkne
    rw [htasks] at hlives
    simp only [alive_append, alive_cons, Task.key?, Option.some.injEq, reduceCtorEq, if_false]
      at hlives ⊢
    simp only [count_append, count_cons, count_nil, beq_iff_eq, Event.ended.injEq]
    omega
  · have hinside := h.inside
    rw [htasks] at hinside
    refine forall_mem_replace [.scheduling (d.nexts key)] hinside fun u hu k hk => ?_
    rw [mem_singleton.mp hu] at hk
    rcases hk with hk | hk
    · refine ⟨hd.counted.closed _ _ hk, ?_⟩
      rintro rfl
      exact hd.not_to_source _ hk
    · cases hk
  · intro k hk
    rcases mem_append.mp hk with hk | hk
    · exact h.ended k hk
    · cases mem_singleton.mp hk
      exact ⟨hlt, hne⟩
  · intro k
    have hbegan := h.began k
    rw [htasks] at hbegan
    simp only [count_append, count_cons, count_nil, beq_iff_eq, reduceCtorEq,
      if_false, Event.ended.injEq, Task.running.injEq] at hbegan ⊢
    omega
  · exact h.order_snoc hmem rfl

variable {es tr₁ tr₂ : List Event}

lemma Inv.step (hd : DAG.Runnable d source) (h : Inv d source tr s)
    (hstep : Step d s es s') : Inv d source (tr ++ es) s' := by
  cases hstep with
  | decrement htasks hcount =>
    rw [append_nil]
    exact h.count_down htasks rfl (if_neg hcount).symm (fun _ heq => by cases heq)
  | release htasks hcount =>
    rw [append_nil]
    exact h.count_down htasks rfl (if_pos hcount).symm (fun _ heq => by cases heq)
  | @submit l l' key rest htasks =>
    rw [append_nil]
    have hinside := h.inside
    rw [htasks] at hinside
    refine h.replace ?_ ?_ ?_ ?_
    · intro k
      simp [htasks, Task.rest]
    · intro k
      simp [htasks, Task.key?]
    · intro k
      simp [htasks]
    refine forall_mem_replace [.scheduling rest, .queued key] hinside ?_
    intro u hu k hk
    refine hinside _ (mem_append_right _ mem_cons_self) k ?_
    simp only [mem_cons, not_mem_nil, or_false] at hu
    rcases hu with rfl | rfl
    · exact hk.imp id fun h => by cases h
    · exact hk.imp (fun h => by cases h) id
  | begin htasks => exact h.begin htasks
  | finish htasks => exact h.finish hd htasks
  | @leave l l' htasks =>
    rw [append_nil]
    have hinside := h.inside
    rw [htasks] at hinside
    refine h.replace ?_ ?_ ?_ ?_
    · intro k
      simp [htasks, Task.rest]
    · intro k
      simp [htasks, Task.key?]
    · intro k
      simp [htasks]
    · exact forall_mem_replace [] hinside fun _ hu => by cases hu

lemma Run.inv (hd : DAG.Runnable d source) (h : Run d source n tr s) : Inv d source tr s := by
  induction h with
  | start => exact inv_start hd
  | next _ hstep ih => exact ih.step hd hstep

def life (d : DAG) (key : Nat) : Nat := 2 * (d.nexts key).length + 3

def Task.weight (d : DAG) : Task → Nat
  | .scheduling rest => 2 * rest.length + 1
  | .adding key rest => life d key + (2 * rest.length + 2)
  | .queued key => life d key
  | .running key => 2 * (d.nexts key).length + 2

def weight (d : DAG) (s : Running) : Nat :=
  ∑ key ∈ (range d.length).filter (s.waitCount · ≠ 0), life d key +
    (s.tasks.map (Task.weight d)).sum

lemma Inv.wait_pos (h : Inv d source tr s) {rest : List Nat}
    (htasks : s.tasks = l ++ .scheduling (key :: rest) :: l') : 0 < s.waitCount key := by
  rw [h.wait key, owed, htasks]
  simp only [restCount_split, Task.rest, count_cons_self]
  omega

lemma Step.weight_lt (h : Inv d source tr s) (hstep : Step d s es s') :
    weight d s' < weight d s := by
  cases hstep with
  | @decrement l l' key rest htasks hcount =>
    have hpos := h.wait_pos htasks
    have hsame : (range d.length).filter
        (update s.waitCount key (s.waitCount key - 1) · ≠ 0) =
        (range d.length).filter (s.waitCount · ≠ 0) := by
      refine Finset.filter_congr fun k _ => ?_
      by_cases hk : k = key
      · rw [hk, update_self]
        omega
      · rw [update_of_ne hk]
    simp only [weight, hsame, htasks, map_append, map_cons, sum_append,
      sum_cons, Task.weight, length_cons]
    omega
  | @release l l' key rest htasks hcount =>
    have hlt := (h.inside (.scheduling (key :: rest))
      (by rw [htasks]; exact mem_append_right _ mem_cons_self) key
      (.inl mem_cons_self)).1
    have herase : (range d.length).filter
        (update s.waitCount key (s.waitCount key - 1) · ≠ 0) =
        ((range d.length).filter (s.waitCount · ≠ 0)).erase key := by
      ext k
      rw [Finset.mem_filter, Finset.mem_erase, Finset.mem_filter]
      by_cases hk : k = key
      · rw [hk, update_self, hcount]
        simp
      · rw [update_of_ne hk]
        simp [hk]
    have hsum := Finset.sum_erase_add ((range d.length).filter (s.waitCount · ≠ 0)) (life d)
      (Finset.mem_filter.mpr ⟨Finset.mem_range.mpr hlt, by omega⟩)
    simp only [weight, herase, htasks, map_append, map_cons, sum_append,
      sum_cons, Task.weight, length_cons]
    omega
  | submit htasks | begin htasks | finish htasks | leave htasks =>
    simp only [weight, htasks, map_append, map_cons, sum_append, sum_cons,
      Task.weight, life, length_nil]
    omega

lemma Run.length_le (hd : DAG.Runnable d source) (h : Run d source n tr s) :
    n + weight d s ≤ weight d (Scheduler.start d source) := by
  induction h with
  | start => omega
  | next hrun hstep ih =>
    have := hstep.weight_lt (hrun.inv hd)
    omega

lemma Inv.all_ended (hd : DAG.Runnable d source) (h : Inv d source tr s) (hdone : s.tasks = [])
    (key : Nat) (hlt : key < d.length) (hne : key ≠ source) : tr.count (.ended key) = 1 := by
  induction key using hd.wellFounded.induction with
  | _ key ih =>
    have hzero : owed d source tr s key = 0 := by
      rw [owed, hdone]
      refine Nat.add_eq_zero_iff.mpr ⟨Finset.sum_eq_zero fun i hi => ?_, rfl⟩
      obtain ⟨hi, hins, hnot⟩ := mem_pending.mp hi
      rw [count_eq_zero]
      intro hedge
      have hone := ih i hedge hi hins
      exact hnot (count_pos_iff.mp (by omega))
    have hlives := h.lives key hlt hne
    rw [hdone, h.wait key, hzero] at hlives
    simpa [alive] using hlives

lemma exists_step (htasks : s.tasks ≠ []) : ∃ es s', Step d s es s' := by
  cases hs : s.tasks with
  | nil => exact absurd hs htasks
  | cons t l =>
    have hsplit : s.tasks = [] ++ t :: l := hs
    cases t with
    | scheduling rest =>
      cases rest with
      | nil => exact ⟨_, _, .leave hsplit⟩
      | cons key rest =>
        by_cases hcount : s.waitCount key - 1 = 0
        · exact ⟨_, _, .release hsplit hcount⟩
        · exact ⟨_, _, .decrement hsplit hcount⟩
    | adding key rest => exact ⟨_, _, .submit hsplit⟩
    | queued key => exact ⟨_, _, .begin hsplit⟩
    | running key => exact ⟨_, _, .finish hsplit⟩

lemma count_running_le_alive (tasks : List Task) (key : Nat) :
    tasks.count (.running key) ≤ alive tasks key := by
  refine countP_mono_left fun t _ ht => ?_
  rw [beq_iff_eq.mp ht]
  exact decide_eq_true rfl

lemma Inv.ended_of_edge (h : Inv d source tr s) (heq : tr = tr₁ ++ tr₂) (hended : Event.ended key ∈ tr₁) (hedge : d.Edge i key) :
    i = source ∨ Event.ended i ∈ tr₁ := by
  obtain ⟨a, b, hab⟩ := append_of_mem hended
  have hsplit : tr = a ++ .ended key :: (b ++ tr₂) := by
    rw [heq, hab]
    simp
  rcases h.order a _ _ hsplit i hedge with hsource | hmem
  · exact .inl hsource
  · rw [hab]
    exact .inr (mem_append_left _ hmem)

lemma Inv.ended_before_sink {d₀ : DAG} (hd₀ : d₀.Counted) (hacyclic : d₀.Acyclic)
    (hlink : DAG.Linking d₀ d₀.length d) (h : Inv d d₀.length tr s)
    {e : Event} (heq : tr = tr₁ ++ e :: tr₂) (hsink : e.key = d₀.length + 1) (i : Nat)
    (hi : i < d₀.length) : Event.ended i ∈ tr₁ := by
  induction i using (hacyclic.wellFounded_swap hd₀).induction with
  | _ i ih =>
    have hended : i = d₀.length ∨ Event.ended i ∈ tr₁ := by
      cases hnexts : d₀.nexts i with
      | nil =>
        refine h.order tr₁ e tr₂ heq i ?_
        rw [hsink]
        exact (hlink.edges _ _).mpr (.inr (.inr ⟨hi, hnexts, rfl⟩))
      | cons key rest =>
        have hedge : d₀.Edge i key := by
          rw [DAG.Edge, hnexts]
          exact mem_cons_self
        have hkey := ih key hedge (hd₀.edge_lt hedge).2
        exact h.ended_of_edge heq hkey ((hlink.edges _ _).mpr (.inl hedge))
    exact hended.resolve_left (Nat.ne_of_lt hi)

theorem go_runs {d : DAG} (hbuilt : DAG.Built d) (hne : d ≠ []) (hacyclic : d.Acyclic) :
    ∃ d', d.prepare = .ok (d.length, d') ∧ ∃ bound, ∀ n tr s, Run d' d.length n tr s →
      n ≤ bound ∧
      (∀ key, Event.began key ∈ tr → key < d.length ∨ key = d.length + 1) ∧
      (∀ key, tr.count (.began key) ≤ 1) ∧
      (∀ tr₁ key tr₂, tr = tr₁ ++ .began key :: tr₂ →
        ∀ i, d.Edge i key → Event.ended i ∈ tr₁) ∧
      (∀ tr₁ tr₂, tr = tr₁ ++ .began (d.length + 1) :: tr₂ →
        ∀ i < d.length, Event.ended i ∈ tr₁) ∧
      ((∀ es s', ¬ Step d' s es s') → ∀ key, key < d.length ∨ key = d.length + 1 →
        tr.count (.began key) = 1 ∧ tr.count (.ended key) = 1) := by
  have hd := hbuilt.counted
  obtain ⟨d', hprepare, hlink⟩ := DAG.prepare_linking hd hacyclic
  have hrunnable := hlink.runnable hd hacyclic hne
  have hlen := hlink.length
  refine ⟨d', hprepare, weight d' (start d' d.length), fun n tr s hrun => ?_⟩
  have hinv := hrun.inv hrunnable
  have hends : ∀ key, 0 < tr.count (.began key) → key < d'.length ∧ key ≠ d.length := by
    intro key hpos
    rw [hinv.began key] at hpos
    rcases Nat.eq_zero_or_pos (tr.count (.ended key)) with hzero | hended
    · have hmem : Task.running key ∈ s.tasks := count_pos_iff.mp (by omega)
      exact hinv.inside _ hmem key (.inr rfl)
    · exact hinv.ended key (count_pos_iff.mp hended)
  refine ⟨?_, ?_, ?_, ?_, ?_, ?_⟩
  · have := hrun.length_le hrunnable
    omega
  · intro key hmem
    have := hends key (count_pos_iff.mpr hmem)
    omega
  · intro key
    by_contra hmany
    obtain ⟨hlt, hns⟩ := hends key (by omega)
    have hlives := hinv.lives key hlt hns
    have hbegan := hinv.began key
    have hle := count_running_le_alive s.tasks key
    split at hlives <;> omega
  · intro tr₁ key tr₂ heq i hedge
    have hi := (hd.edge_lt hedge).1
    rcases hinv.order tr₁ _ tr₂ heq i ((hlink.edges _ _).mpr (.inl hedge)) with hsource | hended
    · omega
    · exact hended
  · intro tr₁ tr₂ heq i hi
    exact hinv.ended_before_sink hd hacyclic hlink heq rfl i hi
  · intro hover key hkey
    have htasks : s.tasks = [] := by
      by_contra htasks
      obtain ⟨es, s', hstep⟩ := exists_step (d := d') htasks
      exact hover es s' hstep
    have hended := hinv.all_ended hrunnable htasks key (by omega) (by omega)
    have hbegan := hinv.began key
    rw [htasks, count_nil, Nat.zero_add] at hbegan
    exact ⟨hbegan.trans hended, hended⟩

def doubleEdge : DAG := DAG.dependency (DAG.dependency (DAG.add (DAG.add []).2).2 0 1) 0 1

theorem doubleEdge_runs : doubleEdge ≠ [] ∧ DAG.Built doubleEdge ∧ doubleEdge.Acyclic ∧
    ∃ d', doubleEdge.prepare = .ok (2, d') := by
  have hbuilt : DAG.Built doubleEdge :=
    ((DAG.Built.nil.add.add).dependency (by decide) (by decide)).dependency (by decide) (by decide)
  have hacyclic : doubleEdge.Acyclic := by
    have hlt : ∀ i key, doubleEdge.Edge i key → i < key := by
      intro i key hedge
      have hi := DAG.lt_length_of_mem_nexts hedge
      have hcases : ∀ i < doubleEdge.length, ∀ key ∈ doubleEdge.nexts i, i < key := by decide
      exact hcases i hi key hedge
    have htrans : ∀ i key, Relation.TransGen doubleEdge.Edge i key → i < key := by
      intro i key h
      induction h with
      | single hedge => exact hlt _ _ hedge
      | tail _ hedge ih => exact lt_trans ih (hlt _ _ hedge)
    intro key hkey
    exact lt_irrefl key (htrans key key hkey)
  obtain ⟨d', hprepare, -⟩ := go_runs hbuilt (by decide) hacyclic
  exact ⟨by decide, hbuilt, hacyclic, d', hprepare⟩

end Acc.Scheduler
