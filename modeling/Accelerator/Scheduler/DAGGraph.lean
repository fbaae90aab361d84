import Accelerator.Scheduler.DAG

namespace Acc.Scheduler.DAG

open List

open Finset (range)

def incoming (d : DAG) (key : Nat) : Nat := ∑ i ∈ range d.length, (d.nexts i).count key

structure Counted (d : DAG) : Prop where
  closed : ∀ i, ∀ key ∈ d.nexts i, key < d.length
  waitCount : ∀ key, d.waitCount key = d.incoming key
  hasPrev : ∀ key, d.hasPrev key = true ↔ 0 < d.incoming key

variable {d d' : DAG} {i key a b : Nat}

lemma nexts_eq_nil (h : d.length ≤ i) : d.nexts i = [] := by
  rw [nexts, getD_eq_default _ _ h]

lemma lt_length_of_mem_nexts (h : key ∈ d.nexts i) : i < d.length := by
  by_contra hi
  rw [nexts_eq_nil (Nat.le_of_not_lt hi)] at h
  cases h

lemma incoming_pos : 0 < d.incoming key ↔ ∃ i, key ∈ d.nexts i := by
  rw [incoming, Finset.sum_pos_iff]
  constructor
  · rintro ⟨i, -, hi⟩
    exact ⟨i, count_pos_iff.mp hi⟩
  · rintro ⟨i, hi⟩
    exact ⟨i, Finset.mem_range.mpr (lt_length_of_mem_nexts hi), count_pos_iff.mpr hi⟩

lemma getD_add (d : DAG) (i : Nat) : d.add.2.getD i {} = d.getD i {} := by
  rw [add]
  rcases Nat.lt_or_ge i d.length with hi | hi
  · rw [getD_append _ _ _ _ hi]
  · rw [getD_append_right _ _ _ _ hi, getD_eq_default _ _ hi]
    cases i - d.length with
    | zero | succ n => rfl

lemma length_add (d : DAG) : d.add.2.length = d.length + 1 := by
  rw [add, length_append]
  rfl

lemma nexts_add (d : DAG) (i : Nat) : d.add.2.nexts i = d.nexts i := by
  rw [nexts, getD_add, ← nexts]

lemma incoming_add (d : DAG) (key : Nat) : d.add.2.incoming key = d.incoming key := by
  simp only [incoming, nexts_add]
  simp [length_add, Finset.sum_range_succ, nexts_eq_nil (le_refl _)]

lemma Counted.add (h : d.Counted) : d.add.2.Counted := by
  refine ⟨?_, ?_, ?_⟩
  · intro i key hkey
    rw [nexts_add] at hkey
    rw [length_add]
    exact Nat.lt_succ_of_lt (h.closed i key hkey)
  · intro key
    rw [DAG.waitCount, getD_add, incoming_add]
    exact h.waitCount key
  · intro key
    rw [DAG.hasPrev, getD_add, incoming_add]
    exact h.hasPrev key

lemma getD_modify {α : Type} (l : List α) (i j : Nat) (f : α → α) (x : α) (hi : i < l.length) :
    (l.modify i f).getD j x = if i = j then f (l.getD j x) else l.getD j x := by
  rw [getD_eq_getElem?_getD, getElem?_modify, getD_eq_getElem?_getD]
  split
  · rename_i hij
    subst hij
    rw [getElem?_eq_getElem hi]
    rfl
  · simp

lemma length_dependency (d : DAG) (a b : Nat) : (d.dependency a b).length = d.length := by
  simp [dependency]

section Dependency

variable {d : DAG} {a b : Nat} (ha : a < d.length) (hb : b < d.length)

include ha hb

lemma nexts_dependency (i : Nat) :
    (d.dependency a b).nexts i = if a = i then d.nexts i ++ [b] else d.nexts i := by
  rw [nexts, dependency, getD_modify _ _ _ _ _ (by rwa [length_modify]),
    getD_modify _ _ _ _ _ ha]
  split
  · split
    · rfl
    · rfl
  · split
    · rfl
    · rfl

lemma waitCount_dependency (i : Nat) :
    (d.dependency a b).waitCount i = if b = i then d.waitCount i + 1 else d.waitCount i := by
  rw [waitCount, dependency, getD_modify _ _ _ _ _ (by rwa [length_modify]),
    getD_modify _ _ _ _ _ ha]
  split
  · split
    · rfl
    · rfl
  · split
    · rfl
    · rfl

lemma hasPrev_dependency (i : Nat) :
    (d.dependency a b).hasPrev i = if b = i then true else d.hasPrev i := by
  rw [hasPrev, dependency, getD_modify _ _ _ _ _ (by rwa [length_modify]),
    getD_modify _ _ _ _ _ ha]
  split
  · rfl
  · split
    · rfl
    · rfl

lemma incoming_dependency (key : Nat) :
    (d.dependency a b).incoming key = if b = key then d.incoming key + 1 else d.incoming key := by
  have hsum : (d.dependency a b).incoming key =
      ∑ i ∈ range d.length, ((d.nexts i).count key + if a = i then [b].count key else 0) := by
    rw [incoming, length_dependency]
    refine Finset.sum_congr rfl fun i _ => ?_
    rw [nexts_dependency ha hb]
    split
    · rw [count_append]
    · rw [Nat.add_zero]
  rw [hsum, Finset.sum_add_distrib, Finset.sum_ite_eq, if_pos (Finset.mem_range.mpr ha),
    ← incoming, count_singleton]
  split
  · rename_i h
    rw [if_pos (beq_iff_eq.mp h)]
  · rename_i h
    rw [if_neg (fun heq => h (beq_iff_eq.mpr heq)), Nat.add_zero]

lemma Counted.dependency (h : d.Counted) : (d.dependency a b).Counted := by
  refine ⟨?_, ?_, ?_⟩
  · intro i key hkey
    rw [length_dependency]
    rw [nexts_dependency ha hb] at hkey
    split at hkey
    · rcases mem_append.mp hkey with hkey | hkey
      · exact h.closed i key hkey
      · rwa [mem_singleton.mp hkey]
    · exact h.closed i key hkey
  · intro key
    rw [waitCount_dependency ha hb, incoming_dependency ha hb, h.waitCount key]
    split
    · omega
    · rfl
  intro key
  rw [hasPrev_dependency ha hb, incoming_dependency ha hb]
  split
  · exact ⟨fun _ => Nat.succ_pos _, fun _ => rfl⟩
  · exact h.hasPrev key

end Dependency

inductive Built : DAG → Prop
  | nil : Built []
  | add {d : DAG} (h : Built d) : Built d.add.2
  | dependency {d : DAG} (h : Built d) {a b : Nat} (ha : a < d.length) (hb : b < d.length) :
      Built (d.dependency a b)

lemma Built.counted (h : Built d) : d.Counted := by
  induction h with
  | nil =>
    refine ⟨?_, fun _ => rfl, fun _ => ?_⟩
    · intro i key hkey
      cases hkey
    · exact ⟨fun h => (nomatch h), fun h => absurd h (lt_irrefl 0)⟩
  | add _ ih => exact ih.add
  | dependency _ ha hb ih => exact ih.dependency ha hb

def Edge (d : DAG) (i key : Nat) : Prop := key ∈ d.nexts i

def Acyclic (d : DAG) : Prop := ∀ key, ¬ Relation.TransGen d.Edge key key

lemma wellFounded_of_acyclic {n : Nat} {r : Nat → Nat → Prop} (hr : ∀ i j, r i j → i < n ∧ j < n)
    (hacyclic : ∀ i, ¬ Relation.TransGen r i i) : WellFounded r := by
  let s : Fin n → Fin n → Prop := fun a b => Relation.TransGen r a b
  have : Std.Irrefl s := ⟨fun a => hacyclic a⟩
  have hwf : WellFounded s := Finite.wellFounded_of_trans_of_irrefl s
  have hacc : ∀ a : Fin n, Acc r a := by
    intro a
    induction a using hwf.induction with
    | _ a ih =>
      refine ⟨_, fun j hj => ?_⟩
      exact ih ⟨j, (hr j a hj).1⟩ (.single hj)
  refine ⟨fun i => ⟨i, fun j hj => ?_⟩⟩
  exact hacc ⟨j, (hr j i hj).1⟩

lemma Counted.edge_lt (h : d.Counted) (hedge : d.Edge i key) : i < d.length ∧ key < d.length :=
  ⟨lt_length_of_mem_nexts hedge, h.closed i key hedge⟩

lemma Acyclic.wellFounded (hacyclic : d.Acyclic) (h : d.Counted) : WellFounded d.Edge :=
  wellFounded_of_acyclic (fun _ _ => h.edge_lt) hacyclic

lemma Acyclic.wellFounded_swap (hacyclic : d.Acyclic) (h : d.Counted) :
    WellFounded (Function.swap d.Edge) := by
  refine wellFounded_of_acyclic (fun _ _ hedge => (h.edge_lt hedge).symm) ?_
  intro i hi
  rw [Relation.transGen_swap] at hi
  exact hacyclic i hi

lemma getD_countEdges (edges : List Nat) (targets : List Int) (key : Nat)
    (hedges : ∀ next ∈ edges, next < targets.length) :
    (edges.foldl (fun targets key => targets.modify key (· + 1)) targets).getD key 0 =
      targets.getD key 0 + edges.count key := by
  induction edges generalizing targets with
  | nil => simp
  | cons next edges ih =>
    have hnext := hedges next mem_cons_self
    rw [foldl_cons, ih _ ?_, getD_modify _ _ _ _ _ hnext, count_cons]
    · split
      · rename_i heq
        simp
        omega
      · rename_i hne
        rw [if_neg (fun h => hne (beq_iff_eq.mp h)), Nat.add_zero]
    · intro k hk
      rw [length_modify]
      exact hedges k (mem_cons_of_mem _ hk)

lemma length_countEdges (edges : List Nat) (targets : List Int) :
    (edges.foldl (fun targets key => targets.modify key (· + 1)) targets).length =
      targets.length := by
  induction edges generalizing targets with
  | nil => rfl
  | cons next edges ih => rw [foldl_cons, ih, length_modify]

def left (nexts : List (List Nat)) (key : Nat) : Nat := (nexts.map fun edges => edges.count key).sum

lemma left_eq_incoming (d : DAG) (key : Nat) : left (d.map Node.nexts) key = d.incoming key := by
  induction d with
  | nil => rfl
  | cons node d ih =>
    rw [incoming, length_cons, Finset.sum_range_succ']
    show node.nexts.count key + left (d.map Node.nexts) key = _
    rw [ih, Nat.add_comm]
    rfl

lemma left_set (nexts : List (List Nat)) (i key : Nat) :
    left (nexts.set i []) key + (nexts.getD i []).count key = left nexts key := by
  induction nexts generalizing i with
  | nil => simp [left]
  | cons edges nexts ih =>
    cases i with
    | zero => simp [left, Nat.add_comm]
    | succ i =>
      have := ih i
      simp only [left, set_cons_succ, map_cons, sum_cons,
        getD_cons_succ] at this ⊢
      omega

variable {nexts : List (List Nat)}

lemma left_pos (h : left nexts key ≠ 0) : ∃ i, key ∈ nexts.getD i [] := by
  induction nexts with
  | nil => exact absurd rfl h
  | cons edges nexts ih =>
    by_cases hmem : key ∈ edges
    · exact ⟨0, hmem⟩
    · obtain ⟨i, hi⟩ := ih (by simpa [left, count_eq_zero.mpr hmem] using h)
      exact ⟨i + 1, hi⟩

lemma countTargets_foldl (nodes : List Node) (targets : List Int)
    (hnodes : ∀ node ∈ nodes, ∀ next ∈ node.nexts, next < targets.length) (key : Nat) :
    (nodes.foldl (fun targets node =>
        node.nexts.foldl (fun targets key => targets.modify key (· + 1)) targets)
      targets).getD key 0 = targets.getD key 0 + left (nodes.map Node.nexts) key := by
  induction nodes generalizing targets with
  | nil => simp [left]
  | cons node nodes ih =>
    rw [foldl_cons, ih _ ?_, getD_countEdges _ _ _ (hnodes node mem_cons_self)]
    · simp only [left, map_cons, sum_cons]
      omega
    · intro v hv next hnext
      rw [length_countEdges]
      exact hnodes v (mem_cons_of_mem _ hv) next hnext

lemma length_countTargets_foldl (nodes : List Node) (targets : List Int) :
    (nodes.foldl (fun targets node =>
      node.nexts.foldl (fun targets key => targets.modify key (· + 1)) targets)
      targets).length = targets.length := by
  induction nodes generalizing targets with
  | nil => rfl
  | cons node nodes ih => rw [foldl_cons, ih, length_countEdges]

lemma popEdges_spec (edges : List Nat) (targets : List Int) (keys : List Nat)
    (hedges : ∀ next ∈ edges, next < targets.length) :
    (popEdges edges targets keys).1.length = targets.length ∧
    (∀ key, (popEdges edges targets keys).1.getD key 0 = targets.getD key 0 - edges.count key) ∧
    (∀ key ∈ keys, key ∈ (popEdges edges targets keys).2) ∧
    (∀ key ∈ edges, (popEdges edges targets keys).1.getD key 0 = 0 →
      key ∈ (popEdges edges targets keys).2) := by
  induction edges generalizing targets keys with
  | nil =>
    refine ⟨rfl, ?_, fun _ h => h, fun _ h => (nomatch h)⟩
    simp [popEdges]
  | cons next edges ih =>
    have hnext := hedges next mem_cons_self
    rw [popEdges]
    obtain ⟨hlen, hget, hkeep, hfound⟩ := ih (targets.modify next (· - 1))
      (if (targets.modify next (· - 1)).getD next 0 = 0 then next :: keys else keys) (by
        intro k hk
        rw [length_modify]
        exact hedges k (mem_cons_of_mem _ hk))
    refine ⟨by rw [hlen, length_modify], ?_, ?_, ?_⟩
    · intro key
      rw [hget, getD_modify _ _ _ _ _ hnext, count_cons]
      split
      · rename_i heq
        simp
        omega
      · rename_i hne
        rw [if_neg (fun h => hne (beq_iff_eq.mp h)), Nat.add_zero]
    · intro key hkey
      refine hkeep key ?_
      split
      · exact mem_cons_of_mem _ hkey
      · exact hkey
    intro key hkey hzero
    by_cases hmem : key ∈ edges
    · exact hfound key hmem hzero
    have hkn : key = next := (mem_cons.mp hkey).resolve_right hmem
    rw [hget, count_eq_zero.mpr hmem] at hzero
    refine hkeep key ?_
    rw [hkn] at hzero ⊢
    rw [if_pos (by simpa using hzero)]
    exact mem_cons_self

structure Peeling (d : DAG) (nexts : List (List Nat)) (targets : List Int) (keys : List Nat) :
    Prop where
  length : targets.length = d.length
  edges : ∀ i, nexts.getD i [] = [] ∨ nexts.getD i [] = d.nexts i
  targets : ∀ key, targets.getD key 0 = left nexts key
  keys : ∀ key, left nexts key = 0 → nexts.getD key [] = [] ∨ key ∈ keys

lemma getD_set_nil (nexts : List (List Nat)) (key i : Nat) :
    (nexts.set key []).getD i [] = if key = i then [] else nexts.getD i [] := by
  rw [getD_eq_getElem?_getD, getElem?_set, getD_eq_getElem?_getD]
  split
  · split
    · rfl
    · rfl
  · rfl

variable {targets : List Int} {keys : List Nat}

lemma Peeling.closed (h : Peeling d nexts targets keys) (hd : d.Counted) (key : Nat) :
    ∀ next ∈ (nexts.getD key []).reverse, next < targets.length := by
  intro next hnext
  rw [mem_reverse] at hnext
  rw [h.length]
  rcases h.edges key with hnil | heq
  · rw [hnil] at hnext
    cases hnext
  · rw [heq] at hnext
    exact hd.closed key next hnext

lemma Peeling.step (hd : d.Counted) (h : Peeling d nexts targets (key :: keys)) :
    Peeling d (nexts.set key []) (popEdges (nexts.getD key []).reverse targets keys).1
      (popEdges (nexts.getD key []).reverse targets keys).2 := by
  obtain ⟨hlen, hget, hkeep, hfound⟩ :=
    popEdges_spec (nexts.getD key []).reverse targets keys (h.closed hd key)
  have htargets : ∀ k, (popEdges (nexts.getD key []).reverse targets keys).1.getD k 0 =
      left (nexts.set key []) k := by
    intro k
    have := left_set nexts key k
    rw [hget, count_reverse, h.targets]
    omega
  refine ⟨hlen.trans h.length, ?_, htargets, ?_⟩
  · intro i
    rw [getD_set_nil]
    split
    · exact .inl rfl
    · exact h.edges i
  intro k hk
  rw [getD_set_nil]
  by_cases hkey : key = k
  · exact .inl (if_pos hkey)
  rw [if_neg hkey]
  by_cases hmem : k ∈ (nexts.getD key []).reverse
  · refine .inr (hfound k hmem ?_)
    rw [htargets, hk]
    rfl
  have hsame := left_set nexts key k
  rw [mem_reverse] at hmem
  rw [hk, count_eq_zero.mpr hmem] at hsame
  rcases h.keys k hsame.symm with hnil | hin
  · exact .inl hnil
  · exact .inr (hkeep k ((mem_cons.mp hin).resolve_left (Ne.symm hkey)))

lemma Peeling.done (hd : d.Counted) (hacyclic : d.Acyclic)
    (h : Peeling d nexts targets []) (i : Nat) : nexts.getD i [] = [] := by
  induction i using (hacyclic.wellFounded hd).induction with
  | _ i ih =>
    by_contra hne
    have hleft : left nexts i ≠ 0 := by
      intro hzero
      rcases h.keys i hzero with hnil | hin
      · exact hne hnil
      · cases hin
    obtain ⟨j, hj⟩ := left_pos hleft
    rcases h.edges j with hnil | heq
    · rw [hnil] at hj
      cases hj
    · have hedge : d.Edge j i := by rwa [heq] at hj
      rw [ih j hedge] at hj
      cases hj

lemma removeEdges_eq_nil (hd : d.Counted) (hacyclic : d.Acyclic)
    (nexts : List (List Nat)) (targets : List Int) (keys : List Nat)
    (h : Peeling d nexts targets keys) (i : Nat) :
    (removeEdges nexts targets keys).getD i [] = [] := by
  fun_induction removeEdges nexts targets keys with
  | case1 nexts targets => exact h.done hd hacyclic i
  | case2 nexts targets key keys ih => exact ih (h.step hd)

lemma getD_map_nexts (d : DAG) (i : Nat) : (d.map Node.nexts).getD i [] = d.nexts i := by
  rw [nexts, getD_eq_getElem?_getD, getElem?_map, getD_eq_getElem?_getD]
  cases d[i]? with
  | none | some node => rfl

lemma peeling_start (hd : d.Counted) : Peeling d (d.map Node.nexts) d.countTargets
    ((List.range d.length).filter fun key => !hasPrev d key).reverse := by
  refine ⟨?_, fun i => .inr (getD_map_nexts d i), ?_, ?_⟩
  · simp [countTargets, length_countTargets_foldl]
  · intro key
    rw [countTargets, countTargets_foldl]
    · simp
    intro node hnode next hnext
    obtain ⟨i, hi, hget⟩ := mem_iff_getElem.mp hnode
    rw [length_replicate]
    refine hd.closed i next ?_
    rw [nexts, getD_eq_getElem _ _ hi, hget]
    exact hnext
  intro key hkey
  rcases Nat.lt_or_ge key d.length with hlt | hge
  · refine .inr ?_
    rw [mem_reverse, mem_filter, mem_range]
    refine ⟨hlt, ?_⟩
    rw [left_eq_incoming] at hkey
    have hprev := hd.hasPrev key
    rw [hkey] at hprev
    simpa using hprev
  · refine .inl ?_
    rw [getD_eq_default]
    rwa [length_map]

lemma hasCycle_eq_false (hd : d.Counted) (hacyclic : d.Acyclic) : d.hasCycle = false := by
  rw [hasCycle, any_eq_false]
  intro edges hedges
  obtain ⟨i, hi, hget⟩ := mem_iff_getElem.mp hedges
  have hnil := removeEdges_eq_nil hd hacyclic _ _ _ (peeling_start hd) i
  rw [getD_eq_getElem _ _ hi, hget] at hnil
  rw [hnil]
  decide

lemma edge_dependency (ha : a < d.length) (hb : b < d.length)
    (i key : Nat) : (d.dependency a b).Edge i key ↔ d.Edge i key ∨ (i = a ∧ key = b) := by
  rw [Edge, Edge, nexts_dependency ha hb]
  split
  · rename_i h
    subst h
    simp
  · rename_i h
    simp [Ne.symm h]

structure Extends (d d' : DAG) (a b : Nat) (p : Prop) : Prop where
  length : d'.length = d.length
  counted : d.Counted → d'.Counted
  edges : ∀ i key, d'.Edge i key ↔ d.Edge i key ∨ (i = a ∧ key = b ∧ p)
  nexts : ∀ i, i ≠ a → d'.nexts i = d.nexts i
  hasPrev : ∀ key, key ≠ b → d'.hasPrev key = d.hasPrev key

lemma extends_dependency {p : Prop} (ha : a < d.length)
    (hb : b < d.length) (hp : p) : Extends d (d.dependency a b) a b p := by
  refine ⟨length_dependency _ _ _, fun h => h.dependency ha hb, ?_, ?_, ?_⟩
  · intro i key
    rw [edge_dependency ha hb, and_iff_left hp]
  · intro i hne
    rw [nexts_dependency ha hb, if_neg (Ne.symm hne)]
  · intro key hne
    rw [hasPrev_dependency ha hb, if_neg (Ne.symm hne)]

lemma extends_self {p : Prop} (hp : ¬p) : Extends d d a b p :=
  ⟨rfl, id, fun _ _ => ⟨.inl, fun h => h.resolve_right fun h' => hp h'.2.2⟩, fun _ _ => rfl,
    fun _ _ => rfl⟩

lemma extends_linkSource (d : DAG) (sourceKey key : Nat) (hsource : sourceKey < d.length)
    (hkey : key < d.length) :
    Extends d (linkSource sourceKey d key) sourceKey key (d.hasPrev key = false) := by
  rw [linkSource]
  cases hp : d.hasPrev key with
  | true => exact extends_self (by decide)
  | false => exact extends_dependency hsource hkey rfl

lemma extends_linkSink (d : DAG) (sinkKey key : Nat) (hsink : sinkKey < d.length)
    (hkey : key < d.length) :
    Extends d (linkSink sinkKey d key) key sinkKey (d.nexts key = []) := by
  rw [linkSink]
  split
  · rename_i hempty
    exact extends_dependency hkey hsink (isEmpty_iff.mp hempty)
  · rename_i hempty
    exact extends_self fun hnil => hempty (isEmpty_iff.mpr hnil)

structure Linking (d : DAG) (m : Nat) (d' : DAG) : Prop where
  length : d'.length = d.length + 2
  counted : d'.Counted
  edges : ∀ i key, d'.Edge i key ↔ d.Edge i key ∨
    (i = d.length ∧ key < m ∧ d.hasPrev key = false) ∨
    (i < m ∧ d.nexts i = [] ∧ key = d.length + 1)
  ahead : ∀ key, m ≤ key → key < d.length →
    d'.hasPrev key = d.hasPrev key ∧ d'.nexts key = d.nexts key

lemma Linking.step {m : Nat} (h : Linking d m d') (hm : m < d.length) :
    Linking d (m + 1) (link d.length (d.length + 1) d' m) := by
  obtain ⟨hprev, hnexts⟩ := h.ahead m (le_refl m) hm
  have hlen := h.length
  obtain ⟨hlen₁, hcounted₁, hedges₁, hnexts₁, hprev₁⟩ :=
    extends_linkSource d' d.length m (by omega) (by omega)
  obtain ⟨hlen₂, hcounted₂, hedges₂, hnexts₂, hprev₂⟩ :=
    extends_linkSink (linkSource d.length d' m) (d.length + 1) m (by omega) (by omega)
  rw [hnexts₁ m (Nat.ne_of_lt hm), hnexts] at hedges₂
  rw [hprev] at hedges₁
  refine ⟨by rw [link, hlen₂, hlen₁, hlen], hcounted₂ (hcounted₁ h.counted), ?_, ?_⟩
  · intro i key
    rw [link, hedges₂, hedges₁, h.edges]
    constructor
    · rintro (((hd | ⟨hi, hk, hp⟩ | ⟨hi, hn, hk⟩) | ⟨hi, rfl, hp⟩) | ⟨rfl, hk, hn⟩)
      · exact .inl hd
      · exact .inr (.inl ⟨hi, Nat.lt_succ_of_lt hk, hp⟩)
      · exact .inr (.inr ⟨Nat.lt_succ_of_lt hi, hn, hk⟩)
      · exact .inr (.inl ⟨hi, Nat.lt_succ_self _, hp⟩)
      · exact .inr (.inr ⟨Nat.lt_succ_self _, hn, hk⟩)
    rintro (hd | ⟨hi, hk, hp⟩ | ⟨hi, hn, hk⟩)
    · exact .inl (.inl (.inl hd))
    · rcases Nat.lt_succ_iff_lt_or_eq.mp hk with hlt | rfl
      · exact .inl (.inl (.inr (.inl ⟨hi, hlt, hp⟩)))
      · exact .inl (.inr ⟨hi, rfl, hp⟩)
    · rcases Nat.lt_succ_iff_lt_or_eq.mp hi with hlt | rfl
      · exact .inl (.inl (.inr (.inr ⟨hlt, hn, hk⟩)))
      · exact .inr ⟨rfl, hk, hn⟩
  intro key hle hlt
  obtain ⟨hp, hn⟩ := h.ahead key (by omega) hlt
  rw [link, hprev₂ key (by omega), hprev₁ key (by omega), hnexts₂ key (by omega),
    hnexts₁ key (by omega)]
  exact ⟨hp, hn⟩

lemma linking_foldl (m : Nat) (hm : m ≤ d.length) (h : Linking d 0 d') :
    Linking d m ((List.range m).foldl (link d.length (d.length + 1)) d') := by
  induction m with
  | zero => exact h
  | succ m ih =>
    rw [range_succ, foldl_append]
    exact (ih (by omega)).step (by omega)

lemma linking_start (hd : d.Counted) : Linking d 0 d.add.2.add.2 := by
  refine ⟨by rw [length_add, length_add], hd.add.add, ?_, ?_⟩
  · intro i key
    rw [Edge, nexts_add, nexts_add]
    exact ⟨.inl, fun h => h.elim id fun h' => by omega⟩
  · intro key _ _
    rw [DAG.hasPrev, getD_add, getD_add, nexts_add, nexts_add]
    exact ⟨rfl, rfl⟩

lemma prepare_linking (hd : d.Counted) (hacyclic : d.Acyclic) :
    ∃ d', d.prepare = .ok (d.length, d') ∧ Linking d d.length d' := by
  have hlen : d.add.2.add.2.length - 2 = d.length := by
    rw [length_add, length_add]
    omega
  refine ⟨_, ?_, linking_foldl d.length (le_refl _) (linking_start hd)⟩
  rw [prepare, hasCycle_eq_false hd hacyclic, if_neg (by decide)]
  show Except.ok (d.length, (List.range (d.add.2.add.2.length - 2)).foldl
    (link d.length d.add.2.length) d.add.2.add.2) = _
  rw [hlen, length_add]

structure Runnable (d : DAG) (source : Nat) : Prop where
  counted : d.Counted
  source_lt : source < d.length
  wellFounded : WellFounded d.Edge
  not_to_source : ∀ i, ¬ d.Edge i source
  reached : ∀ key, key < d.length → key ≠ source → ∃ i, d.Edge i key

lemma Linking.runnable (hd : d.Counted) (hacyclic : d.Acyclic) (hne : d ≠ [])
    (h : Linking d d.length d') : Runnable d' d.length := by
  have hlen := h.length
  have hfrom : ∀ i, ¬ d'.Edge i d.length := by
    intro i hi
    rcases (h.edges i _).mp hi with hedge | ⟨_, hlt, _⟩ | ⟨_, _, heq⟩
    · exact absurd (hd.edge_lt hedge).2 (lt_irrefl _)
    · exact absurd hlt (lt_irrefl _)
    · omega
  have hsource : Acc d'.Edge d.length := ⟨_, fun i hi => absurd hi (hfrom i)⟩
  have hnode : ∀ key, key < d.length → Acc d'.Edge key := by
    intro key
    induction key using (hacyclic.wellFounded hd).induction with
    | _ key ih =>
      intro hkey
      refine ⟨_, fun i hi => ?_⟩
      rcases (h.edges i key).mp hi with hedge | ⟨rfl, -, -⟩ | ⟨_, _, heq⟩
      · exact ih i hedge (hd.edge_lt hedge).1
      · exact hsource
      · omega
  refine ⟨h.counted, by omega, ⟨fun key => ⟨_, fun i hi => ?_⟩⟩, hfrom, ?_⟩
  · rcases (h.edges i key).mp hi with hedge | ⟨rfl, -, -⟩ | ⟨hlt, -, -⟩
    · exact hnode i (hd.edge_lt hedge).1
    · exact hsource
    · exact hnode i hlt
  intro key hkey hnsource
  rcases Nat.lt_or_ge key d.length with hlt | hge
  · cases hp : d.hasPrev key with
    | true =>
      obtain ⟨i, hi⟩ := incoming_pos.mp ((hd.hasPrev key).mp hp)
      exact ⟨i, (h.edges i key).mpr (.inl hi)⟩
    | false => exact ⟨d.length, (h.edges _ key).mpr (.inr (.inl ⟨rfl, hlt, hp⟩))⟩
  have hpos : 0 < d.length := length_pos_of_ne_nil hne
  obtain ⟨i, hi, hmin⟩ := (hacyclic.wellFounded_swap hd).has_min
    {i | i < d.length} ⟨0, hpos⟩
  have hnil : d.nexts i = [] := by
    rw [eq_nil_iff_forall_not_mem]
    intro k hk
    exact hmin k (hd.closed i k hk) hk
  exact ⟨i, (h.edges i key).mpr (.inr (.inr ⟨hi, hnil, by omega⟩))⟩

end Acc.Scheduler.DAG
