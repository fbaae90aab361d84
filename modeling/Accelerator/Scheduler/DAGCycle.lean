import Accelerator.Scheduler.DAGGraph

namespace Acc.Scheduler.DAG

open List

variable {d : DAG} {key : Nat}

def OnCycle (d : DAG) (key : Nat) : Prop := Relation.TransGen d.Edge key key

lemma OnCycle.prev (h : d.OnCycle key) : ∃ i, d.Edge i key ∧ d.OnCycle i := by
  cases h with
  | single hedge => exact ⟨key, hedge, .single hedge⟩
  | tail hpath hedge => exact ⟨_, hedge, .head hedge hpath⟩

lemma popEdges_found (edges : List Nat) (targets : List Int) (keys : List Nat)
    (hedges : ∀ next ∈ edges, next < targets.length) (h : key ∈ (popEdges edges targets keys).2) :
    key ∈ keys ∨ (popEdges edges targets keys).1.getD key 0 ≤ 0 := by
  induction edges generalizing targets keys with
  | nil => exact .inl h
  | cons next edges ih =>
    have hrest : ∀ k ∈ edges, k < (targets.modify next (· - 1)).length := by
      intro k hk
      rw [length_modify]
      exact hedges k (mem_cons_of_mem _ hk)
    rw [popEdges] at h ⊢
    rcases ih _ _ hrest h with hin | hle
    · split at hin
      · rename_i hzero
        rcases mem_cons.mp hin with rfl | hin
        · refine .inr ?_
          rw [(popEdges_spec _ _ _ hrest).2.1, hzero]
          omega
        · exact .inl hin
      · exact .inl hin
    · exact .inr hle

variable {nexts : List (List Nat)} {targets : List Int} {keys : List Nat}

def Intact (d : DAG) (nexts : List (List Nat)) (keys : List Nat) : Prop :=
  ∀ key, d.OnCycle key → nexts.getD key [] = d.nexts key ∧ key ∉ keys

lemma Intact.step (hd : d.Counted) (hp : Peeling d nexts targets (key :: keys))
    (h : Intact d nexts (key :: keys)) :
    Intact d (nexts.set key []) (popEdges (nexts.getD key []).reverse targets keys).2 := by
  have hsame : ∀ i, d.OnCycle i → (nexts.set key []).getD i [] = d.nexts i := by
    intro i hi
    obtain ⟨hnexts, hnot⟩ := h i hi
    rw [getD_set_nil, if_neg (fun heq : key = i => hnot (heq ▸ mem_cons_self)), hnexts]
  intro k hk
  refine ⟨hsame k hk, fun hin => ?_⟩
  rcases popEdges_found _ _ _ (hp.closed hd key) hin with hold | hzero
  · exact (h k hk).2 (mem_cons_of_mem _ hold)
  obtain ⟨i, hedge, hi⟩ := hk.prev
  have hcount := left_set (nexts.set key []) i k
  have hmem : 0 < ((nexts.set key []).getD i []).count k := by
    rw [hsame i hi]
    exact count_pos_iff.mpr hedge
  rw [(hp.step hd).targets] at hzero
  omega

lemma removeEdges_intact (hd : d.Counted) (hp : Peeling d nexts targets keys)
    (h : Intact d nexts keys) (hkey : d.OnCycle key) :
    (removeEdges nexts targets keys).getD key [] = d.nexts key := by
  fun_induction removeEdges nexts targets keys with
  | case1 nexts targets => exact (h key hkey).1
  | case2 nexts targets k keys ih => exact ih (hp.step hd) (h.step hd hp)

lemma intact_start (hd : d.Counted) : Intact d (d.map Node.nexts)
    ((List.range d.length).filter fun key => !hasPrev d key).reverse := by
  intro key hkey
  obtain ⟨i, hedge, -⟩ := hkey.prev
  have hprev := (hd.hasPrev key).mpr (incoming_pos.mpr ⟨i, hedge⟩)
  refine ⟨getD_map_nexts d key, ?_⟩
  simp [hprev]

lemma hasCycle_iff (hd : d.Counted) : d.hasCycle = true ↔ ∃ key, d.OnCycle key := by
  constructor
  · intro h
    by_contra hno
    rw [hasCycle_eq_false hd fun key hkey => hno ⟨key, hkey⟩] at h
    cases h
  rintro ⟨key, hkey⟩
  obtain ⟨i, hedge, hi⟩ := hkey.prev
  have hleft := removeEdges_intact hd (peeling_start hd) (intact_start hd) hi
  rw [hasCycle, any_eq_true]
  rcases lt_or_ge i (removeEdges (d.map Node.nexts) d.countTargets
    ((List.range d.length).filter fun key => !hasPrev d key).reverse).length with hlt | hge
  · rw [getD_eq_getElem _ _ hlt] at hleft
    refine ⟨_, getElem_mem hlt, ?_⟩
    rw [hleft]
    simpa using ne_nil_of_mem hedge
  · rw [getD_eq_default _ _ hge] at hleft
    rw [Edge, ← hleft] at hedge
    cases hedge

def go (d : DAG) : DAG × Except String Running :=
  match prepare d with
  | .error what => (d, .error what)
  | .ok (sourceKey, d') => (d', .ok (start d' sourceKey))

theorem hasCycle_iff_go (d : DAG) (hbuilt : Built d) :
    (d.hasCycle = true ↔ ∃ key, d.OnCycle key) ∧
      ((∃ key, d.OnCycle key) → d.go = (d, .error "Cycle in DAG graph")) := by
  have hiff := hasCycle_iff hbuilt.counted
  refine ⟨hiff, fun hcycle => ?_⟩
  rw [go, prepare, if_pos (hiff.mpr hcycle)]

theorem hasCycle_iff_go_two :
    let d : DAG := dependency (dependency (dependency (add (add []).2).2 0 1) 0 1) 1 0
    (d.hasCycle = true ↔ ∃ key, d.OnCycle key) ∧
      ((∃ key, d.OnCycle key) → d.go = (d, .error "Cycle in DAG graph")) := by
  refine hasCycle_iff_go _ (.dependency (.dependency (.dependency (.add (.add .nil)) ?_ ?_) ?_ ?_) ?_ ?_)
  all_goals decide

end Acc.Scheduler.DAG
