import Accelerator.PriorityQueue

namespace Acc

open List Option

variable {D : Type} [DecidableEq D]

structure Timeout (D : Type) where
  data : Option D := none
  deadline : UInt64 := 0
  repeats : Bool := false
  deriving DecidableEq, Repr

def Timeout.before (a b : Timeout D) : Prop := a.deadline < b.deadline

def Timeout.eq (a b : Timeout D) : Bool := a.deadline == b.deadline

def getDefault (map : Option D → Option (Timeout D)) (key : Option D) : Timeout D :=
  (map key).getD {}

abbrev TimeoutQueue (D : Type) := PriorityQueue (Timeout D) Timeout.before

structure TimedHeap (Q : TimeoutQueue D) where
  map : Option D → Option (Timeout D)
  heap : Q.Carrier

namespace TimedHeap

variable {Q : TimeoutQueue D}

def create (Q : TimeoutQueue D) : TimedHeap Q := ⟨fun _ => none, Q.empty⟩

def push (s : TimedHeap Q) (v : Timeout D) : TimedHeap Q :=
  match v.data with
  | none => s
  | some d => ⟨fun k => if k = some d then some v else s.map k, Q.push s.heap v⟩

def pop (s : TimedHeap Q) (now : UInt64) : TimedHeap Q × Timeout D :=
  match _ : Q.top s.heap with
  | none => (s, {})
  | some timeout =>
    if (getDefault s.map timeout.data).eq timeout then
      if timeout.deadline ≤ now then
        (⟨fun k => if k = timeout.data then none else s.map k, Q.pop s.heap⟩, timeout)
      else (s, {})
    else pop ⟨s.map, Q.pop s.heap⟩ now
termination_by Multiset.card (Q.elems s.heap)
decreasing_by exact Q.card_pop_lt ‹_›

def erase (s : TimedHeap Q) (k : Option D) : TimedHeap Q :=
  match k with
  | none => s
  | some d => { s with map := fun k => if k = some d then none else s.map k }

inductive Op (D : Type)
  | push (v : Timeout D)
  | pop (now : UInt64)
  | erase (k : Option D)
  deriving DecidableEq, Repr

def step (s : TimedHeap Q) : Op D → TimedHeap Q × Option (Timeout D)
  | .push v => (s.push v, none)
  | .pop now =>
    let r := s.pop now
    (r.1, some r.2)
  | .erase k => (s.erase k, none)

def run (s : TimedHeap Q) : List (Op D) → TimedHeap Q × List (Option (Timeout D))
  | [] => (s, [])
  | op :: ops =>
    let r := s.step op
    let x := run r.1 ops
    (x.1, r.2 :: x.2)

def armed (s : TimedHeap Q) (d : D) : Option UInt64 := (s.map (some d)).map Timeout.deadline

end TimedHeap

namespace Timers

open TimedHeap (Op)

inductive Step : (D → Option UInt64) → Op D → Option (Timeout D) → (D → Option UInt64) → Prop
  | push (armed d deadline repeats) :
      Step armed (.push ⟨some d, deadline, repeats⟩) none
        fun k => if k = d then some deadline else armed k
  | pushNull (armed deadline repeats) : Step armed (.push ⟨none, deadline, repeats⟩) none armed
  | fire (armed now d deadline repeats) (here : armed d = some deadline)
      (least : ∀ k t, armed k = some t → deadline ≤ t) (due : deadline ≤ now) :
      Step armed (.pop now) (some ⟨some d, deadline, repeats⟩)
        fun k => if k = d then none else armed k
  | idle (armed now) (early : ∀ k t, armed k = some t → now < t) :
      Step armed (.pop now) (some {}) armed
  | erase (armed d) : Step armed (.erase (some d)) none fun k => if k = d then none else armed k
  | eraseNull (armed) : Step armed (.erase none) none armed

inductive Run : (D → Option UInt64) → List (Op D) → List (Option (Timeout D)) →
    (D → Option UInt64) → Prop
  | nil (armed) : Run armed [] [] armed
  | cons {armed armed₁ armed₂ op ops r rs} (first : Step armed op r armed₁)
      (rest : Run armed₁ ops rs armed₂) : Run armed (op :: ops) (r :: rs) armed₂

def deliveries (d : D) (rs : List (Option (Timeout D))) : List UInt64 :=
  rs.filterMap fun r =>
    match r with
    | some t => if t.data = some d then some t.deadline else none
    | none => none

def Pushes (d : D) : Op D → Prop
  | .push v => v.data = some d
  | _ => False

def Erases (d : D) : Op D → Prop
  | .erase k => k = some d
  | _ => False

lemma deliveries_cons_none (d : D) (rs : List (Option (Timeout D))) :
    deliveries d (none :: rs) = deliveries d rs := rfl

lemma deliveries_cons_self (d : D) (deadline : UInt64) (repeats : Bool)
    (rs : List (Option (Timeout D))) :
    deliveries d (some ⟨some d, deadline, repeats⟩ :: rs) = deadline :: deliveries d rs := by
  simp [deliveries]

lemma deliveries_cons_of_ne {d : D} {t : Timeout D} (h : t.data ≠ some d)
    (rs : List (Option (Timeout D))) : deliveries d (some t :: rs) = deliveries d rs := by
  simp [deliveries, h]

variable {armed armed' : D → Option UInt64}

lemma Step.kept {op : Op D} {r : Option (Timeout D)}
    (h : Step armed op r armed') {d : D} (hpush : ¬ Pushes d op) (herase : ¬ Erases d op) :
    (armed' d = armed d ∧ ∀ rs, deliveries d (r :: rs) = deliveries d rs) ∨
    (∃ t, armed d = some t ∧ armed' d = none ∧
      ∀ rs, deliveries d (r :: rs) = t :: deliveries d rs) := by
  cases h with
  | push k deadline repeats =>
    have hne : d ≠ k := fun heq => hpush (congrArg some heq.symm)
    exact .inl ⟨if_neg hne, deliveries_cons_none d⟩
  | pushNull deadline repeats | eraseNull => exact .inl ⟨rfl, deliveries_cons_none d⟩
  | fire now k deadline repeats here least due =>
    by_cases hk : d = k
    · subst hk
      exact .inr ⟨deadline, here, if_pos rfl, deliveries_cons_self d deadline repeats⟩
    · refine .inl ⟨if_neg hk, deliveries_cons_of_ne ?_⟩
      intro heq
      exact hk (some.inj heq).symm
  | idle now early => exact .inl ⟨rfl, deliveries_cons_of_ne nofun⟩
  | erase k =>
    have hne : d ≠ k := fun heq => herase (congrArg some heq.symm)
    exact .inl ⟨if_neg hne, deliveries_cons_none d⟩

variable {rs : List (Option (Timeout D))}

lemma Run.silent {ops : List (Op D)} (h : Run armed ops rs armed') {d : D} (hd : armed d = none)
    (hpush : ∀ op ∈ ops, ¬ Pushes d op) : armed' d = none ∧ deliveries d rs = [] := by
  induction h with
  | nil armed => exact ⟨hd, rfl⟩
  | @cons armed armed₁ armed₂ op ops r rs first rest ih =>
    have hrest : ∀ op ∈ ops, ¬ Pushes d op := fun o ho => hpush o (mem_cons_of_mem _ ho)
    have hfirst : armed₁ d = none ∧ deliveries d (r :: rs) = deliveries d rs := by
      by_cases herase : Erases d op
      · cases first with
        | erase k => exact ⟨if_pos (some.inj herase).symm, rfl⟩
        | eraseNull => exact ⟨hd, rfl⟩
        | push | pushNull | fire | idle => exact absurd herase id
      rcases first.kept (hpush op mem_cons_self) herase with
        ⟨heq, hnone⟩ | ⟨t, ht, -, -⟩
      · exact ⟨heq.trans hd, hnone rs⟩
      · rw [hd] at ht
        cases ht
    rw [hfirst.2]
    exact ih hfirst.1 hrest

lemma Run.kept {ops : List (Op D)} (h : Run armed ops rs armed') {d : D} {t : UInt64}
    (hd : armed d = some t) (hpush : ∀ op ∈ ops, ¬ Pushes d op)
    (herase : ∀ op ∈ ops, ¬ Erases d op) :
    (armed' d = some t ∧ deliveries d rs = []) ∨ (armed' d = none ∧ deliveries d rs = [t]) := by
  induction h with
  | nil armed => exact .inl ⟨hd, rfl⟩
  | @cons armed armed₁ armed₂ op ops r rs first rest ih =>
    have hpush' : ∀ op ∈ ops, ¬ Pushes d op := fun o ho => hpush o (mem_cons_of_mem _ ho)
    have herase' : ∀ op ∈ ops, ¬ Erases d op := fun o ho => herase o (mem_cons_of_mem _ ho)
    rcases first.kept (hpush op mem_cons_self) (herase op mem_cons_self) with
      ⟨heq, hnone⟩ | ⟨u, hu, hoff, hone⟩
    · rw [hnone rs]
      exact ih (heq.trans hd) hpush' herase'
    rw [hd] at hu
    cases hu
    obtain ⟨hlast, hrs⟩ := rest.silent hoff hpush'
    rw [hone rs, hrs]
    exact .inr ⟨hlast, rfl⟩

end Timers

namespace TimedHeap

variable {Q : TimeoutQueue D}

structure Inv (s : TimedHeap Q) : Prop where
  mapped : ∀ k v, s.map k = some v → k ≠ none ∧ v.data = k
  heaped : ∀ k v, s.map k = some v → v ∈ Q.elems s.heap
  data : ∀ v ∈ Q.elems s.heap, v.data ≠ none
  positive : ∀ v ∈ Q.elems s.heap, 0 < v.deadline

omit [DecidableEq D] in
lemma inv_create (Q : TimeoutQueue D) : Inv (create Q) := by
  refine ⟨nofun, nofun, ?_, ?_⟩
  · intro v hv
    rw [create, Q.elems_empty] at hv
    cases hv
  · intro v hv
    rw [create, Q.elems_empty] at hv
    cases hv

variable {s : TimedHeap Q}

lemma Inv.push (h : Inv s) {v : Timeout D} (hv : 0 < v.deadline) : Inv (s.push v) := by
  rw [TimedHeap.push]
  cases hd : v.data with
  | none => exact h
  | some d =>
    refine ⟨?_, ?_, ?_, ?_⟩
    · intro k u hu
      dsimp only at hu
      split at hu
      · rename_i hk
        cases hu
        subst hk
        exact ⟨nofun, hd⟩
      · exact h.mapped k u hu
    · intro k u hu
      rw [Q.elems_push, Multiset.mem_cons]
      dsimp only at hu
      split at hu
      · cases hu
        exact .inl rfl
      · exact .inr (h.heaped k u hu)
    · intro u hu
      rw [Q.elems_push, Multiset.mem_cons] at hu
      rcases hu with rfl | hu
      · rw [hd]
        exact nofun
      · exact h.data u hu
    intro u hu
    rw [Q.elems_push, Multiset.mem_cons] at hu
    rcases hu with rfl | hu
    · exact hv
    · exact h.positive u hu

lemma Inv.erase (h : Inv s) (k : Option D) : Inv (s.erase k) := by
  cases k with
  | none => exact h
  | some d =>
    refine { h with mapped := ?_, heaped := ?_ }
    · intro k v hv
      simp only [TimedHeap.erase] at hv
      split at hv
      · cases hv
      · exact h.mapped k v hv
    intro k v hv
    simp only [TimedHeap.erase] at hv
    split at hv
    · cases hv
    · exact h.heaped k v hv

variable {t : Timeout D}

omit [DecidableEq D] in
lemma Inv.dropTop (h : Inv s) {map : Option D → Option (Timeout D)}
    (hmap : ∀ k v, map k = some v → s.map k = some v) (htop : Q.top s.heap = some t)
    (hstale : ∀ v, map t.data = some v → v.deadline ≠ t.deadline) :
    Inv (⟨map, Q.pop s.heap⟩ : TimedHeap Q) where
  mapped := fun k v hv => h.mapped k v (hmap k v hv)
  heaped := by
    intro k v hv
    refine Q.mem_pop_of_ne htop (h.heaped k v (hmap k v hv)) ?_
    rintro rfl
    rw [← (h.mapped k v (hmap k v hv)).2] at hv
    exact hstale v hv rfl
  data := fun v hv => h.data v (Q.mem_pop htop hv)
  positive := fun v hv => h.positive v (Q.mem_pop htop hv)

omit [DecidableEq D] in
lemma Inv.eq_top (h : Inv s) (ht : t ∈ Q.elems s.heap) :
    (getDefault s.map t.data).eq t = true ↔ ∃ v, s.map t.data = some v ∧ v.deadline = t.deadline := by
  rw [Timeout.eq, beq_iff_eq, getDefault]
  cases hv : s.map t.data with
  | none =>
    refine ⟨?_, nofun⟩
    intro hz
    have hpos := h.positive t ht
    rw [← hz] at hpos
    exact absurd hpos (UInt64.lt_irrefl 0)
  | some v => simp

omit [DecidableEq D] in
lemma Inv.top_le (h : Inv s) (htop : Q.top s.heap = some t)
    {d : D} {deadline : UInt64} (hd : s.armed d = some deadline) : t.deadline ≤ deadline := by
  obtain ⟨v, hv, rfl⟩ := map_eq_some_iff.mp hd
  exact UInt64.not_lt.mp (Q.not_before_top s.heap t v htop (h.heaped _ v hv))

lemma Inv.pop (h : Inv s) (now : UInt64) :
    Inv (s.pop now).1 ∧ Timers.Step s.armed (.pop now) (some (s.pop now).2) (s.pop now).1.armed := by
  fun_induction TimedHeap.pop s now with
  | case1 s hnone =>
    refine ⟨h, .idle _ _ ?_⟩
    intro k t hk
    obtain ⟨v, hv, rfl⟩ := map_eq_some_iff.mp hk
    have hmem := h.heaped _ v hv
    rw [Q.elems_of_top_none s.heap hnone] at hmem
    cases hmem
  | case2 s t htop heq hdue =>
    obtain ⟨v, hv, hdeadline⟩ := (h.eq_top (Q.mem_of_top htop)).mp heq
    obtain ⟨d, hd⟩ := ne_none_iff_exists'.mp (h.data t (Q.mem_of_top htop))
    refine ⟨h.dropTop ?_ htop ?_, ?_⟩
    · intro k u hu
      split at hu
      · cases hu
      · exact hu
    · intro u hu
      rw [if_pos rfl] at hu
      cases hu
    have harmed : s.armed d = some t.deadline := by
      rw [armed, ← hd, hv, map_some, hdeadline]
    have hstep := Timers.Step.fire s.armed now d t.deadline t.repeats harmed
      (fun k u hu => h.top_le htop hu) hdue
    have hleft : (fun k => if k = d then none else s.armed k) =
        armed (⟨fun k => if k = t.data then none else s.map k, Q.pop s.heap⟩ : TimedHeap Q) := by
      funext k
      simp only [armed, hd, some.injEq]
      split
      · rfl
      · rfl
    rw [hleft, ← hd] at hstep
    exact hstep
  | case3 s t htop heq hdue =>
    refine ⟨h, .idle _ _ ?_⟩
    intro k u hk
    exact UInt64.lt_of_lt_of_le (UInt64.not_le.mp hdue) (h.top_le htop hk)
  | case4 s t htop heq ih =>
    refine ih (h.dropTop (fun k v hv => hv) htop ?_)
    intro v hv hdeadline
    exact heq ((h.eq_top (Q.mem_of_top htop)).mpr ⟨v, hv, hdeadline⟩)

lemma Inv.step (h : Inv s) {op : Op D} (hpos : ∀ v, op = .push v → 0 < v.deadline) :
    Inv (s.step op).1 ∧ Timers.Step s.armed op (s.step op).2 (s.step op).1.armed := by
  cases op with
  | push v =>
    refine ⟨h.push (hpos v rfl), ?_⟩
    obtain ⟨data, deadline, repeats⟩ := v
    cases data with
    | none => exact .pushNull _ _ _
    | some d =>
      have hleft : (s.push ⟨some d, deadline, repeats⟩).armed =
          fun k => if k = d then some deadline else s.armed k := by
        funext k
        simp only [TimedHeap.push, armed, some.injEq]
        split
        · rfl
        · rfl
      show Timers.Step _ _ none (s.push ⟨some d, deadline, repeats⟩).armed
      rw [hleft]
      exact .push _ _ _ _
  | pop now => exact h.pop now
  | erase k =>
    refine ⟨h.erase k, ?_⟩
    cases k with
    | none => exact .eraseNull _
    | some d =>
      have hleft : (s.erase (some d)).armed = fun k => if k = d then none else s.armed k := by
        funext k
        simp only [TimedHeap.erase, armed, some.injEq]
        split
        · rfl
        · rfl
      show Timers.Step _ _ none (s.erase (some d)).armed
      rw [hleft]
      exact .erase _ _

lemma Inv.run (h : Inv s) {ops : List (Op D)} (hpos : ∀ v, .push v ∈ ops → 0 < v.deadline) :
    Inv (s.run ops).1 ∧ Timers.Run s.armed ops (s.run ops).2 (s.run ops).1.armed := by
  induction ops generalizing s with
  | nil => exact ⟨h, .nil _⟩
  | cons op ops ih =>
    have hfirst : ∀ v, op = .push v → 0 < v.deadline :=
      fun v hv => hpos v (hv ▸ mem_cons_self)
    obtain ⟨hinv, hstep⟩ := h.step hfirst
    obtain ⟨hinv', hrun⟩ := ih hinv fun v hv => hpos v (mem_cons_of_mem _ hv)
    exact ⟨hinv', .cons hstep hrun⟩

theorem refines_timers (Q : TimeoutQueue D) (ops : List (Op D))
    (hpos : ∀ v, .push v ∈ ops → 0 < v.deadline) :
    Timers.Run (fun _ => none) ops ((create Q).run ops).2 ((create Q).run ops).1.armed ∧
    ∀ earlier later, ops = earlier ++ later → ∀ d, (∀ op ∈ later, ¬ Timers.Pushes d op) →
      let s := ((create Q).run earlier).1
      let r := s.run later
      (s.armed d = none → r.1.armed d = none ∧ Timers.deliveries d r.2 = []) ∧
      ∀ t, s.armed d = some t → (∀ op ∈ later, ¬ Timers.Erases d op) →
        (r.1.armed d = some t ∧ Timers.deliveries d r.2 = []) ∨
        (r.1.armed d = none ∧ Timers.deliveries d r.2 = [t]) := by
  refine ⟨((inv_create Q).run hpos).2, ?_⟩
  rintro earlier later rfl d hpush s r
  have hinv : Inv s := ((inv_create Q).run fun v hv => hpos v (mem_append_left _ hv)).1
  have hrun : Timers.Run s.armed later r.2 r.1.armed :=
    (hinv.run fun v hv => hpos v (mem_append_right _ hv)).2
  refine ⟨fun hd => hrun.silent hd hpush, ?_⟩
  intro t hd herase
  exact hrun.kept hd hpush herase

theorem refines_timers_sorted :
    ∃ rs armed, Timers.Run (fun _ => none)
      [.push ⟨some 1, 5, false⟩, .push ⟨some 2, 3, false⟩, .push ⟨some 1, 5, true⟩, .pop 2,
        .erase (some 2), .pop 9, .pop 9] rs armed := by
  refine ⟨_, _, (refines_timers (PriorityQueue.sorted fun t : Timeout Nat => t.deadline.toNat) _
    ?_).1⟩
  intro v hv
  simp only [mem_cons, Op.push.injEq, reduceCtorEq, not_mem_nil, or_false] at hv
  rcases hv with rfl | rfl | rfl
  · decide
  · decide
  · decide

def noted (last : D → Option (Timeout D)) : Op D × Option (Timeout D) → D → Option (Timeout D)
  | (.push v, _) => fun d => if v.data = some d then some v else last d
  | (.pop _, r) => fun d => if r.bind Timeout.data = some d then none else last d
  | (.erase k, _) => fun d => if k = some d then none else last d

def lastPushed (calls : List (Op D × Option (Timeout D))) : D → Option (Timeout D) :=
  calls.foldl noted fun _ => none

lemma map_pop (s : TimedHeap Q) (now : UInt64) (d : D) : (s.pop now).1.map (some d) =
    if (s.pop now).2.data = some d then none else s.map (some d) := by
  fun_induction TimedHeap.pop s now with
  | case1 s hnone | case3 s t htop heq hdue => rfl
  | case2 s t htop heq hdue => simp only [eq_comm]
  | case4 s t htop heq ih => exact ih

lemma map_step (s : TimedHeap Q) (op : Op D) (d : D) : (s.step op).1.map (some d) =
    noted (fun d => s.map (some d)) (op, (s.step op).2) d := by
  cases op with
  | push v =>
    simp only [TimedHeap.step, TimedHeap.push, noted]
    cases v.data with
    | none => rfl
    | some k => simp only [some.injEq, eq_comm]
  | pop now => exact map_pop s now d
  | erase k =>
    simp only [TimedHeap.step, TimedHeap.erase, noted]
    cases k with
    | none => rfl
    | some k => simp only [some.injEq, eq_comm]

lemma map_run (s : TimedHeap Q) (ops : List (Op D)) (d : D) : (s.run ops).1.map (some d) =
    (ops.zip (s.run ops).2).foldl noted (fun d => s.map (some d)) d := by
  induction ops generalizing s with
  | nil => rfl
  | cons op ops ih =>
    have hstep : (fun d => (s.step op).1.map (some d)) =
        noted (fun d => s.map (some d)) (op, (s.step op).2) := funext (map_step s op)
    rw [TimedHeap.run, zip_cons_cons, foldl_cons, ← hstep]
    exact ih _

def Tells (s : TimedHeap Q) : Op D → Prop
  | .push v => v.data ≠ none → 0 < v.deadline ∧
      ∀ t ∈ Q.elems s.heap, t.data = v.data → t.deadline = v.deadline → t.repeats = v.repeats
  | _ => True

def AllTell (s : TimedHeap Q) : List (Op D) → Prop
  | [] => True
  | op :: ops => s.Tells op ∧ AllTell (s.step op).1 ops

structure Exact (s : TimedHeap Q) : Prop extends Inv s where
  same : ∀ t ∈ Q.elems s.heap, ∀ v, s.map t.data = some v → v.deadline = t.deadline →
    t.repeats = v.repeats

lemma pop_le (s : TimedHeap Q) (now : UInt64) :
    (∀ t ∈ Q.elems (s.pop now).1.heap, t ∈ Q.elems s.heap) ∧
      ∀ k v, (s.pop now).1.map k = some v → s.map k = some v := by
  fun_induction TimedHeap.pop s now with
  | case1 s hnone | case3 s t htop heq hdue => exact ⟨fun _ ht => ht, fun _ _ hv => hv⟩
  | case2 s t htop heq hdue =>
    refine ⟨fun u hu => Q.mem_pop htop hu, ?_⟩
    intro k v hv
    dsimp only at hv
    split at hv
    · cases hv
    · exact hv
  | case4 s t htop heq ih => exact ⟨fun u hu => Q.mem_pop htop (ih.1 u hu), ih.2⟩

lemma Exact.step (h : Exact s) {op : Op D} (hop : s.Tells op) : Exact (s.step op).1 := by
  cases op with
  | push v =>
    cases hd : v.data with
    | none =>
      simp only [TimedHeap.step, TimedHeap.push, hd]
      exact h
    | some d =>
      obtain ⟨hpos, hold⟩ := hop (by rw [hd]; exact nofun)
      refine ⟨h.toInv.push hpos, ?_⟩
      simp only [TimedHeap.step, TimedHeap.push, hd, Q.elems_push, Multiset.mem_cons]
      rintro t ht u hu hdeadline
      split at hu
      · rename_i hkey
        cases hu
        rcases ht with rfl | ht
        · rfl
        · exact hold t ht (hkey.trans hd.symm) hdeadline.symm
      rename_i hkey
      rcases ht with rfl | ht
      · exact absurd hd hkey
      · exact h.same t ht u hu hdeadline
  | pop now =>
    obtain ⟨hheap, hmap⟩ := pop_le s now
    exact ⟨(h.toInv.pop now).1, fun t ht v hv => h.same t (hheap t ht) v (hmap _ v hv)⟩
  | erase k =>
    refine ⟨h.toInv.erase k, ?_⟩
    intro t ht v hv
    cases k with
    | none => exact h.same t ht v hv
    | some d =>
      simp only [TimedHeap.step, TimedHeap.erase] at hv
      split at hv
      · cases hv
      · exact h.same t ht v hv

lemma Exact.run (h : Exact s) {ops : List (Op D)} (hops : s.AllTell ops) :
    Exact (s.run ops).1 := by
  induction ops generalizing s with
  | nil => exact h
  | cons op ops ih => exact ih (h.step hops.1) hops.2

lemma Exact.pop_eq (h : Exact s) (now : UInt64) (hne : (s.pop now).2 ≠ {}) :
    ∃ d, (s.pop now).2.data = some d ∧ s.map (some d) = some (s.pop now).2 := by
  fun_induction TimedHeap.pop s now with
  | case1 s hnone | case3 s t htop heq hdue => exact absurd rfl hne
  | case2 s t htop heq hdue =>
    have ht := Q.mem_of_top htop
    obtain ⟨d, hd⟩ := ne_none_iff_exists'.mp (h.data t ht)
    obtain ⟨v, hv, hdeadline⟩ := (h.eq_top ht).mp heq
    have hvt : v = t := by
      have hdata := (h.mapped _ v hv).2
      have hrepeats := h.same t ht v hv hdeadline
      cases v
      cases t
      simp_all
    exact ⟨d, hd, by rw [← hd, hv, hvt]⟩
  | case4 s t htop heq ih =>
    refine ih ⟨h.dropTop (fun k v hv => hv) htop ?_, ?_⟩ hne
    · intro v hv hdeadline
      exact heq ((h.eq_top (Q.mem_of_top htop)).mpr ⟨v, hv, hdeadline⟩)
    · exact fun u hu => h.same u (Q.mem_pop htop hu)

theorem pop_eq_lastPushed (Q : TimeoutQueue D) (ops : List (Op D)) (hops : (create Q).AllTell ops)
    (now : UInt64) :
    let r := (create Q).run ops
    (r.1.pop now).2 ≠ {} → ∃ d, (r.1.pop now).2.data = some d ∧
      lastPushed (ops.zip r.2) d = some (r.1.pop now).2 := by
  intro r hne
  have hstart : Exact (create Q) := by
    refine ⟨inv_create Q, ?_⟩
    intro t ht
    rw [create, Q.elems_empty] at ht
    cases ht
  obtain ⟨d, hd, hmap⟩ := (hstart.run hops).pop_eq now hne
  rw [map_run] at hmap
  exact ⟨d, hd, hmap⟩

theorem pop_eq_lastPushed_twice :
    let Q : TimeoutQueue Nat := PriorityQueue.sorted fun t : Timeout Nat => t.deadline.toNat
    let ops : List (Op Nat) := [.push ⟨some 1, 5, true⟩, .push ⟨some 1, 3, false⟩]
    let r := (create Q).run ops
    (r.1.pop 9).2 ≠ {} → ∃ d, (r.1.pop 9).2.data = some d ∧
      lastPushed (ops.zip r.2) d = some (r.1.pop 9).2 := by
  refine pop_eq_lastPushed _ _ ?_ 9
  refine ⟨fun _ => ⟨by decide, by rintro t ⟨⟩⟩, fun _ => ⟨by decide, ?_⟩, trivial⟩
  intro t ht _ hdeadline
  obtain rfl : t = ⟨some 1, 5, true⟩ := Multiset.mem_singleton.mp ht
  exact absurd hdeadline (by decide)

theorem pop_delivers_erased :
    let Q : TimeoutQueue Nat := PriorityQueue.sorted fun t : Timeout Nat => t.deadline.toNat
    ((create Q).run [.push ⟨some 1, 0, false⟩, .erase (some 1), .pop 0]).2 =
      [none, none, some ⟨some 1, 0, false⟩] := by
  with_unfolding_all decide

end TimedHeap
end Acc
