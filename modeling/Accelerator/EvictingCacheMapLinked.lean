import Accelerator.EvictingCacheMap

namespace Acc

open List Option

namespace EvictingCacheMap

variable {σ E K V : Type*} {hash : K → Nat} {m : EvictingCacheMap σ E K V}

def entries (m : EvictingCacheMap σ E K V) : List (K × V) := m.lru.filterMap m.nodes

def view (m : EvictingCacheMap σ E K V) : Cache σ E K V :=
  ⟨m.entries, m.maxSize, m.clearSize, m.pruneHook⟩

structure Linked (hash : K → Nat) (m : EvictingCacheMap σ E K V) : Prop where
  nodup : m.lru.Nodup
  listed : ∀ n, n ∈ m.lru ↔ ∃ pr, m.nodes n = some pr
  chained : ∀ b, (m.index b).Nodup
  indexed : ∀ b n, n ∈ m.index b ↔ ∃ pr, m.nodes n = some pr ∧ m.bucket hash pr.1 = b
  distinct : ∀ i j p q, m.nodes i = some p → m.nodes j = some q → p.1 = q.1 → i = j
  counted : m.indexSize = m.lru.length
  unused : ∀ n, m.fresh ≤ n → m.nodes n = none

lemma linked_create (maxSize clearSize : Nat) :
    Linked hash (create maxSize clearSize : EvictingCacheMap σ E K V) where
  nodup := nodup_nil
  listed := by simp [create]
  chained := fun _ => nodup_nil
  indexed := by simp [create]
  distinct := by simp [create]
  counted := rfl
  unused := fun _ _ => rfl

lemma Linked.mem_entries (h : Linked hash m) {pr : K × V} :
    pr ∈ m.entries ↔ ∃ n, m.nodes n = some pr := by
  rw [entries, mem_filterMap]
  constructor
  · rintro ⟨n, -, hn⟩
    exact ⟨n, hn⟩
  · rintro ⟨n, hn⟩
    exact ⟨n, (h.listed n).mpr ⟨pr, hn⟩, hn⟩

lemma Linked.distinct_entries (h : Linked hash m) : Mru.Distinct m.entries := by
  rw [Mru.Distinct, entries, map_filterMap]
  refine h.nodup.filterMap ?_
  intro i j k hi hj
  obtain ⟨p, hp, rfl⟩ := map_eq_some_iff.mp hi
  obtain ⟨q, hq, hkey⟩ := map_eq_some_iff.mp hj
  exact h.distinct i j p q hp hq hkey.symm

variable [DecidableEq K]

variable {key : K} {n : Nat}

lemma Linked.findInIndex_eq_some (h : Linked hash m) :
    m.findInIndex hash key = some n ↔ ∃ v, m.nodes n = some (key, v) := by
  have hkey : ∀ i, m.hasKey key i = true ↔ ∃ v, m.nodes i = some (key, v) := by
    intro i
    unfold hasKey
    cases m.nodes i with
    | none => simp
    | some pr => simp [Prod.ext_iff, eq_comm]
  constructor
  · intro hf
    exact (hkey n).mp (find?_some hf)
  rintro ⟨v, hv⟩
  have hmem : n ∈ m.index (m.bucket hash key) := (h.indexed _ n).mpr ⟨(key, v), hv, rfl⟩
  cases hf : m.findInIndex hash key with
  | none =>
    exact absurd ((hkey n).mpr ⟨v, hv⟩) (find?_eq_none.mp hf n hmem)
  | some i =>
    obtain ⟨u, hu⟩ := (hkey i).mp (find?_some hf)
    rw [h.distinct i n _ _ hu hv rfl]

lemma Linked.lookup (h : Linked hash m) (key : K) :
    (∃ n v, m.findInIndex hash key = some n ∧ m.nodes n = some (key, v) ∧
      Mru.find key m.entries = some v) ∨
    (m.findInIndex hash key = none ∧ Mru.find key m.entries = none) := by
  cases hf : m.findInIndex hash key with
  | some n =>
    obtain ⟨v, hv⟩ := h.findInIndex_eq_some.mp hf
    have hfind := (Mru.find_eq_some h.distinct_entries).mpr (h.mem_entries.mpr ⟨n, hv⟩)
    exact .inl ⟨n, v, rfl, hv, hfind⟩
  | none =>
    refine .inr ⟨rfl, ?_⟩
    cases hv : Mru.find key m.entries with
    | none => rfl
    | some v =>
      obtain ⟨n, hn⟩ := h.mem_entries.mp (Mru.mem_of_find hv)
      rw [h.findInIndex_eq_some.mpr ⟨v, hn⟩] at hf
      cases hf

lemma Linked.isSome_findInIndex (h : Linked hash m) (key : K) :
    (m.findInIndex hash key).isSome = (Mru.find key m.entries).isSome := by
  rcases h.lookup key with ⟨n, v, hf, -, hv⟩ | ⟨hf, hv⟩
  · rw [hf, hv]
    rfl
  · rw [hf, hv]
    rfl

omit [DecidableEq K] in
lemma Linked.length_entries (h : Linked hash m) : m.entries.length = m.size := by
  rw [size, h.counted, entries]
  refine filterMap_length_eq_length.mpr ?_
  intro n hn
  obtain ⟨pr, hpr⟩ := (h.listed n).mp hn
  rw [hpr]
  rfl

lemma Linked.filterMap_erase (h : Linked hash m) {v : V} (hn : m.nodes n = some (key, v)) :
    (m.lru.erase n).filterMap m.nodes = Mru.remove key m.entries := by
  rw [h.nodup.erase_eq_filter, Mru.remove, entries, filterMap_filter, filter_filterMap]
  refine filterMap_congr ?_
  intro i hi
  obtain ⟨pr, hpr⟩ := (h.listed i).mp hi
  by_cases hkey : pr.1 = key
  · have hin : i = n := h.distinct i n pr _ hpr hn hkey
    subst hin
    simp [hn, Option.filter]
  have hin : i ≠ n := by
    rintro rfl
    rw [hn] at hpr
    cases hpr
    exact hkey rfl
  simp [hin, hpr, hkey, Option.filter]

lemma Linked.moveToFront (h : Linked hash m) {v : V} (hn : m.nodes n = some (key, v)) :
    Linked hash ((m.lruErase n).lruPushFront n) ∧
      ((m.lruErase n).lruPushFront n).entries = Mru.promote key v m.entries := by
  have hmem : n ∈ m.lru := (h.listed n).mpr ⟨_, hn⟩
  have hperm : (n :: m.lru.erase n).Perm m.lru := (perm_cons_erase hmem).symm
  refine ⟨{ h with nodup := ?_, listed := ?_, counted := ?_ }, ?_⟩
  · exact hperm.nodup_iff.mpr h.nodup
  · intro i
    exact hperm.mem_iff.trans (h.listed i)
  · exact h.counted.trans hperm.length_eq.symm
  · show (n :: m.lru.erase n).filterMap m.nodes = _
    rw [filterMap_cons_some hn, h.filterMap_erase hn]
    rfl

lemma Linked.storeValue (h : Linked hash m) {v : V} (hn : m.nodes n = some (key, v)) (value : V) :
    Linked hash (m.store n (some (key, value))) ∧
      (m.store n (some (key, value))).entries = Mru.assign key value m.entries := by
  have hold : ∀ i, (∃ pr, (m.store n (some (key, value))).nodes i = some pr) ↔
      ∃ pr, m.nodes i = some pr := by
    intro i
    by_cases hi : i = n
    · subst hi
      simp [store, hn]
    · simp [store, hi]
  have hkey : ∀ i p, (m.store n (some (key, value))).nodes i = some p →
      ∃ q, m.nodes i = some q ∧ q.1 = p.1 := by
    intro i p hp
    by_cases hi : i = n
    · subst hi
      simp only [store, if_true, Option.some.injEq] at hp
      exact ⟨_, hn, by rw [← hp]⟩
    · simp only [store, if_neg hi] at hp
      exact ⟨p, hp, rfl⟩
  refine ⟨{ h with listed := ?_, indexed := ?_, distinct := ?_, unused := ?_ }, ?_⟩
  · intro i
    exact (h.listed i).trans (hold i).symm
  · intro b i
    refine (h.indexed b i).trans ?_
    by_cases hi : i = n
    · subst hi
      simp [store, hn, bucket]
    · simp [store, hi, bucket]
  · intro i j p q hp hq heq
    obtain ⟨p', hp', hpk⟩ := hkey i p hp
    obtain ⟨q', hq', hqk⟩ := hkey j q hq
    exact h.distinct i j p' q' hp' hq' (by rw [hpk, hqk, heq])
  · intro i hi
    have hne : i ≠ n := by
      rintro rfl
      rw [h.unused i hi] at hn
      cases hn
    simp only [store, if_neg hne]
    exact h.unused i hi
  show m.lru.filterMap _ = _
  rw [Mru.assign, entries, map_filterMap]
  refine filterMap_congr ?_
  intro i hi
  obtain ⟨pr, hpr⟩ := (h.listed i).mp hi
  by_cases hin : i = n
  · subst hin
    simp [store, hn]
  · have hkey : pr.1 ≠ key := fun heq => hin (h.distinct i n pr _ hpr hn heq)
    simp [store, hin, hpr, hkey]

lemma Linked.discard (h : Linked hash m) {v : V} (hn : m.nodes n = some (key, v)) :
    Linked hash (((m.lruErase n).indexErase hash key n).store n none) ∧
      (((m.lruErase n).indexErase hash key n).store n none).entries = Mru.remove key m.entries := by
  have hmem : n ∈ m.lru := (h.listed n).mpr ⟨_, hn⟩
  refine ⟨⟨h.nodup.erase n, ?_, ?_, ?_, ?_, ?_, ?_⟩, ?_⟩
  · intro i
    show i ∈ m.lru.erase n ↔ ∃ pr, (if i = n then none else m.nodes i) = some pr
    rw [h.nodup.mem_erase_iff, h.listed]
    by_cases hi : i = n
    · simp [hi]
    · simp [hi]
  · intro b
    show (if b = m.bucket hash key then (m.index b).erase n else m.index b).Nodup
    split
    · exact (h.chained b).erase n
    · exact h.chained b
  · intro b i
    show i ∈ (if b = m.bucket hash key then (m.index b).erase n else m.index b) ↔
      ∃ pr, (if i = n then none else m.nodes i) = some pr ∧ m.bucket hash pr.1 = b
    by_cases hi : i = n
    · subst hi
      simp only [if_true, reduceCtorEq, false_and, exists_false, iff_false]
      split
      · exact fun hin => ((h.chained b).mem_erase_iff.mp hin).1 rfl
      rename_i hb
      intro hin
      obtain ⟨pr, hpr, hbucket⟩ := (h.indexed b i).mp hin
      rw [hn] at hpr
      cases hpr
      exact hb hbucket.symm
    rw [if_neg hi, ← h.indexed b i]
    split
    · rw [(h.chained b).mem_erase_iff]
      exact and_iff_right hi
    · exact Iff.rfl
  · intro i j p q hp hq heq
    have hkeep : ∀ i p, (if i = n then none else m.nodes i) = some p → m.nodes i = some p := by
      intro i p hip
      split at hip
      · cases hip
      · exact hip
    exact h.distinct i j p q (hkeep i p hp) (hkeep j q hq) heq
  · show m.indexSize - 1 = (m.lru.erase n).length
    rw [h.counted, length_erase_of_mem hmem]
  · intro i hi
    show (if i = n then none else m.nodes i) = none
    rw [h.unused i hi, ite_self]
  show (m.lru.erase n).filterMap (fun i => if i = n then none else m.nodes i) = _
  rw [← h.filterMap_erase hn]
  refine filterMap_congr ?_
  intro i hi
  exact if_neg ((h.nodup.mem_erase_iff).mp hi).1

lemma Linked.insertNew (h : Linked hash m)
    (hf : m.findInIndex hash key = none) (hv : Mru.find key m.entries = none) (value : V) :
    Linked hash (m.insertNew hash key value) ∧
      (m.insertNew hash key value).view = { m.view with entries := (key, value) :: m.entries } := by
  have hnone : m.nodes m.fresh = none := h.unused _ (Nat.le_refl _)
  have hfresh : m.fresh ∉ m.lru := by
    intro hin
    obtain ⟨pr, hpr⟩ := (h.listed _).mp hin
    rw [hnone] at hpr
    cases hpr
  have hchain : ∀ b, m.fresh ∉ m.index b := by
    intro b hin
    obtain ⟨pr, hpr, -⟩ := (h.indexed _ _).mp hin
    rw [hnone] at hpr
    cases hpr
  have hkey : ∀ i pr, m.nodes i = some pr → pr.1 ≠ key := by
    intro i pr hpr heq
    exact Mru.find_eq_none.mp hv (heq ▸ mem_map_of_mem (h.mem_entries.mpr ⟨i, hpr⟩))
  have hsearch : (m.index (hash key % m.nIndexBuckets)).find?
      (({ m.store m.fresh (some (key, value)) with fresh := m.fresh + 1 } :
        EvictingCacheMap σ E K V).hasKey key) = none := by
    refine find?_eq_none.mpr ?_
    intro i hi
    have hne : i ≠ m.fresh := fun heq => hchain _ (heq ▸ hi)
    have hold := find?_eq_none.mp hf i hi
    simp only [hasKey, store, if_neg hne] at hold ⊢
    exact hold
  have heq : m.insertNew hash key value =
      { m with
        index := fun b => if b = m.bucket hash key then m.fresh :: m.index b else m.index b
        indexSize := m.indexSize + 1
        lru := m.fresh :: m.lru
        nodes := fun i => if i = m.fresh then some (key, value) else m.nodes i
        fresh := m.fresh + 1 } := by
    unfold EvictingCacheMap.insertNew indexInsert findInIndex
    simp only [bucket, store] at hsearch ⊢
    rw [hsearch]
    rfl
  rw [heq]
  refine ⟨⟨nodup_cons.mpr ⟨hfresh, h.nodup⟩, ?_, ?_, ?_, ?_, ?_, ?_⟩, ?_⟩
  · intro i
    simp only [mem_cons, h.listed]
    by_cases hi : i = m.fresh
    · simp [hi]
    · simp [hi]
  · intro b
    dsimp only
    split
    · exact nodup_cons.mpr ⟨hchain b, h.chained b⟩
    · exact h.chained b
  · intro b i
    show i ∈ (if b = m.bucket hash key then m.fresh :: m.index b else m.index b) ↔
      ∃ pr, (if i = m.fresh then some (key, value) else m.nodes i) = some pr ∧
        m.bucket hash pr.1 = b
    by_cases hi : i = m.fresh
    · subst hi
      by_cases hb : b = m.bucket hash key
      · simp [hb]
      · simp [hb, hchain b, eq_comm]
    rw [if_neg hi, ← h.indexed b i]
    split
    · simp [hi]
    · exact Iff.rfl
  · intro i j p q hp hq hpq
    dsimp only at hp hq
    by_cases hi : i = m.fresh <;> by_cases hj : j = m.fresh
    · rw [hi, hj]
    · rw [if_pos hi, Option.some.injEq] at hp
      rw [if_neg hj] at hq
      exact absurd (by rw [← hpq, ← hp]) (hkey j q hq)
    · rw [if_neg hi] at hp
      rw [if_pos hj, Option.some.injEq] at hq
      exact absurd (by rw [hpq, ← hq]) (hkey i p hp)
    · rw [if_neg hi] at hp
      rw [if_neg hj] at hq
      exact h.distinct i j p q hp hq hpq
  · exact congrArg (· + 1) h.counted
  · intro i hi
    have hlt : m.fresh < i := hi
    show (if i = m.fresh then some (key, value) else m.nodes i) = none
    rw [if_neg (Nat.ne_of_gt hlt)]
    exact h.unused i (Nat.le_of_lt hlt)
  have hself : (fun i => if i = m.fresh then some (key, value) else m.nodes i) m.fresh =
      some (key, value) := if_pos rfl
  have hold : m.lru.filterMap (fun i => if i = m.fresh then some (key, value) else m.nodes i) =
      m.entries := by
    refine filterMap_congr ?_
    intro i hi
    refine if_neg ?_
    rintro rfl
    exact hfresh hi
  rw [← hold]
  exact congrArg (Cache.mk · m.maxSize m.clearSize m.pruneHook)
    (filterMap_cons_some (l := m.lru) (f := _) hself)

def told (ph : Option (PruneHookCall σ E K V)) : PruneHookCall σ E K V :=
  ph.getD fun _ _ w => (none, w)

lemma Linked.pruneLoop (h : Linked hash m) (ph : Option (PruneHookCall σ E K V))
    (failSafe : Bool) (i : Nat) (w : σ) : ∃ m', EvictingCacheMap.pruneLoop hash ph failSafe i m w =
        some (m', (Mru.evict (told ph) failSafe i m.entries w).2) ∧ Linked hash m' ∧
      m'.view = { m.view with entries := (Mru.evict (told ph) failSafe i m.entries w).1 } := by
  induction i generalizing m w with
  | zero => exact ⟨m, rfl, h, rfl⟩
  | succ i ih =>
    rw [EvictingCacheMap.pruneLoop, Mru.evict]
    cases hlast : m.lru.getLast? with
    | none =>
      have hnil : m.entries = [] := by
        rw [entries, getLast?_eq_none_iff.mp hlast]
        rfl
      rw [hnil]
      refine ⟨m, rfl, h, ?_⟩
      rw [view, hnil]
      rfl
    | some n =>
      obtain ⟨l, hl⟩ := getLast?_eq_some_iff.mp hlast
      have hmem : n ∈ m.lru := by
        rw [hl]
        simp
      obtain ⟨⟨key, value⟩, hn⟩ := (h.listed n).mp hmem
      have hentries : m.entries = l.filterMap m.nodes ++ [(key, value)] := by
        rw [entries, hl, filterMap_append, filterMap_cons_some hn]
        rfl
      obtain ⟨hlinked, hrest⟩ := h.discard hn
      have hdistinct := h.distinct_entries
      rw [hentries] at hdistinct hrest ⊢
      rw [hdistinct.remove_last] at hrest
      rw [getLast?_concat, dropLast_concat]
      dsimp only
      rw [hn]
      have hgo : ∀ w, _ := fun w => ih hlinked w
      rw [hrest] at hgo
      cases ph with
      | none => exact hgo w
      | some ph =>
        dsimp only [told, getD_some]
        cases hcall : ph key value w with
        | mk r w' =>
          cases r with
          | none => exact hgo w'
          | some e =>
            dsimp only
            split
            · exact hgo w'
            · refine ⟨_, rfl, hlinked, ?_⟩
              rw [← hrest]
              rfl

lemma Linked.prune (h : Linked hash m) (n : Nat) (ph : Option (PruneHookCall σ E K V)) (w : σ) :
    ∃ m', m.prune hash n ph w = some (m', (m.view.evict n ph w).2) ∧ Linked hash m' ∧
      m'.view = (m.view.evict n ph w).1 := by
  obtain ⟨m', hm', hlinked, hview⟩ := h.pruneLoop (ph.or m.pruneHook) false n w
  refine ⟨m', ?_, hlinked, hview⟩
  cases ph with
  | none | some ph => exact hm'

lemma Linked.destroy (h : Linked hash m) (w : σ) :
    ∃ m', m.destroy hash w = some (m', w, none) ∧ ∀ n, m'.nodes n = none := by
  obtain ⟨m', hm', hlinked, hview⟩ :=
    Linked.pruneLoop (m := { m with pruneHook := none }) { h with } none true m.size w
  rw [told, getD_none, Mru.evict_silent] at hm' hview
  refine ⟨m', hm', ?_⟩
  intro n
  cases hn : m'.nodes n with
  | none => rfl
  | some pr =>
    have hmem : pr ∈ m'.entries := hlinked.mem_entries.mpr ⟨n, hn⟩
    have hentries : m'.entries = m.entries.take (m.entries.length - m.size) :=
      congrArg Cache.entries hview
    rw [hentries, h.length_entries, Nat.sub_self] at hmem
    cases hmem

lemma Linked.valueAt (h : Linked hash m) (key : K) :
    m.valueAt (m.findInIndex hash key) = some (m.view.lookup key) := by
  rw [Cache.lookup]
  rcases h.lookup key with ⟨n, v, hf, hn, hv⟩ | ⟨hf, hv⟩
  · rw [hf, EvictingCacheMap.valueAt, hn]
    simp only [view, hv, map_some]
  · rw [hf, EvictingCacheMap.valueAt]
    simp only [view, hv]

lemma Linked.entryAt (h : Linked hash m) (key : K) :
    m.entryAt (m.findInIndex hash key) = some (m.view.position key) := by
  rw [Cache.position]
  rcases h.lookup key with ⟨n, v, hf, hn, hv⟩ | ⟨hf, hv⟩
  · rw [hf, EvictingCacheMap.entryAt, hn]
    simp only [view, hv, map_some]
  · rw [hf, EvictingCacheMap.entryAt]
    simp only [view, hv, map_none]

omit [DecidableEq K] in
lemma valueAt_congr {m' : EvictingCacheMap σ E K V} (h : m'.nodes = m.nodes)
    (it : Option Nat) : m'.valueAt it = m.valueAt it := by
  cases it with
  | none => rfl
  | some n => simp [EvictingCacheMap.valueAt, h]

omit [DecidableEq K] in
lemma entryAt_congr {m' : EvictingCacheMap σ E K V} (h : m'.nodes = m.nodes)
    (it : Option Nat) : m'.entryAt it = m.entryAt it := by
  cases it with
  | none => rfl
  | some n => simp [EvictingCacheMap.entryAt, h]

lemma find_snd (m : EvictingCacheMap σ E K V) (key : K) :
    (m.find hash key).2 = m.findInIndex hash key := by
  rw [EvictingCacheMap.find]
  cases m.findInIndex hash key with
  | none | some n => rfl

lemma nodes_find (m : EvictingCacheMap σ E K V) (key : K) :
    (m.find hash key).1.nodes = m.nodes := by
  rw [EvictingCacheMap.find]
  cases m.findInIndex hash key with
  | none | some n => rfl

lemma Linked.find (h : Linked hash m) (key : K) :
    Linked hash (m.find hash key).1 ∧ (m.find hash key).1.view = m.view.touch key := by
  rw [EvictingCacheMap.find, Cache.touch]
  rcases h.lookup key with ⟨n, v, hf, hn, hv⟩ | ⟨hf, hv⟩
  · obtain ⟨hlinked, hentries⟩ := h.moveToFront hn
    rw [hf]
    refine ⟨hlinked, ?_⟩
    rw [view, hentries]
    simp only [view, hv]
    rfl
  · rw [hf]
    refine ⟨h, ?_⟩
    simp only [view, hv]

lemma Linked.erase (h : Linked hash m) (key : K) : Linked hash (m.erase hash key).1 ∧
      (m.erase hash key).1.view = { m.view with entries := Mru.remove key m.entries } ∧
      (m.erase hash key).2 = (Mru.find key m.entries).isSome := by
  rcases h.lookup key with ⟨n, v, hf, hn, hv⟩ | ⟨hf, hv⟩
  · obtain ⟨hlinked, hentries⟩ := h.discard hn
    have herase : m.erase hash key = (((m.lruErase n).indexErase hash key n).store n none, true) := by
      rw [EvictingCacheMap.erase, hf]
    rw [herase, hv]
    refine ⟨hlinked, ?_, rfl⟩
    rw [← hentries]
    rfl
  · have herase : m.erase hash key = (m, false) := by rw [EvictingCacheMap.erase, hf]
    rw [herase, hv, Mru.remove_of_find_eq_none hv]
    exact ⟨h, rfl, rfl⟩

lemma Linked.set (h : Linked hash m) (key : K) (value : V) (promote : Bool)
    (ph : Option (PruneHookCall σ E K V)) (w : σ) :
    ∃ m', m.set hash key value promote ph w = some (m', (m.view.set key value promote ph w).2) ∧
      Linked hash m' ∧ m'.view = (m.view.set key value promote ph w).1 := by
  rcases h.lookup key with ⟨n, v, hf, hn, hv⟩ | ⟨hf, hv⟩
  · obtain ⟨hstored, hassign⟩ := h.storeValue hn value
    have hnode : (m.store n (some (key, value))).nodes n = some (key, value) := if_pos rfl
    obtain ⟨hmoved, hpromote⟩ := hstored.moveToFront hnode
    rw [hassign, Mru.promote_assign] at hpromote
    have hspec : m.view.set key value promote ph w =
        ({ m.view with
            entries := if promote then Mru.promote key value m.entries
              else Mru.assign key value m.entries }, w, none) := by
      rw [Cache.set]
      simp only [view, hv]
    rw [EvictingCacheMap.set, hf, hspec]
    refine ⟨_, rfl, ?_⟩
    cases promote with
    | true =>
      refine ⟨hmoved, ?_⟩
      simp only [if_true, ← hpromote]
      rfl
    | false =>
      refine ⟨hstored, ?_⟩
      simp only [Bool.false_eq_true, if_false, ← hassign]
      rfl
  obtain ⟨hlinked, hview⟩ := h.insertNew hf hv value
  have hentries : (m.insertNew hash key value).entries = (key, value) :: m.entries :=
    congrArg Cache.entries hview
  have hsize := hlinked.length_entries
  have hspec : m.view.set key value promote ph w =
      if 0 < m.maxSize ∧ m.maxSize < (m.insertNew hash key value).size then
        (m.insertNew hash key value).view.evict m.clearSize ph w
      else ((m.insertNew hash key value).view, w, none) := by
    rw [Cache.set, ← hsize, hentries, hview]
    simp only [view, hv]
    rfl
  have hmax : (m.insertNew hash key value).maxSize = m.maxSize := congrArg Cache.maxSize hview
  have hclear : (m.insertNew hash key value).clearSize = m.clearSize :=
    congrArg Cache.clearSize hview
  rw [EvictingCacheMap.set, hf, hspec]
  dsimp only
  rw [hmax, hclear]
  by_cases hfull : 0 < m.maxSize ∧ m.maxSize < (m.insertNew hash key value).size
  · rw [if_pos hfull, if_pos hfull]
    exact hlinked.prune m.clearSize ph w
  · rw [if_neg hfull, if_neg hfull]
    exact ⟨_, rfl, hlinked, rfl⟩

lemma Linked.setMaxSize (h : Linked hash m) (n : Nat) (ph : Option (PruneHookCall σ E K V))
    (w : σ) :
    ∃ m', m.setMaxSize hash n ph w = some (m', (m.view.setMaxSize n ph w).2) ∧ Linked hash m' ∧
      m'.view = (m.view.setMaxSize n ph w).1 := by
  have hsize : m.view.entries.length = m.size := h.length_entries
  rw [EvictingCacheMap.setMaxSize, Cache.setMaxSize, hsize]
  by_cases hfull : n ≠ 0 ∧ n < m.size
  · rw [if_pos hfull, if_pos hfull]
    obtain ⟨m', hm', hlinked, hview⟩ := h.prune (max (m.size - n) m.clearSize) ph w
    rw [hm']
    have hclear : m.view.clearSize = m.clearSize := rfl
    dsimp only
    rw [hclear]
    rcases hr : m.view.evict (max (m.size - n) m.clearSize) ph w with ⟨c, w', r⟩
    rw [hr] at hview
    cases r with
    | none =>
      refine ⟨{ m' with maxSize := n }, rfl, { hlinked with }, ?_⟩
      rw [← hview]
      rfl
    | some e => exact ⟨m', rfl, hlinked, hview⟩
  · rw [if_neg hfull, if_neg hfull]
    exact ⟨_, rfl, { h with }, rfl⟩

lemma Linked.step (h : Linked hash m) (w : σ) (op : Op σ E K V) :
    ∃ m', m.step hash w op = some (m', (m.view.step w op).2) ∧ Linked hash m' ∧
      m'.view = (m.view.step w op).1 := by
  cases op with
  | set key value promote ph =>
    obtain ⟨m', hm', hlinked, hview⟩ := h.set key value promote ph w
    rw [EvictingCacheMap.step, hm']
    exact ⟨m', rfl, hlinked, hview⟩
  | get key =>
    obtain ⟨hlinked, hview⟩ := h.find key
    have hvalue : (m.find hash key).1.valueAt (m.find hash key).2 =
        some (m.view.lookup key) := by
      rw [find_snd, valueAt_congr (nodes_find m key), h.valueAt]
    simp only [EvictingCacheMap.step, hvalue, map_some]
    exact ⟨_, rfl, hlinked, hview⟩
  | find key =>
    obtain ⟨hlinked, hview⟩ := h.find key
    have hentry : (m.find hash key).1.entryAt (m.find hash key).2 =
        some (m.view.position key) := by
      rw [find_snd, entryAt_congr (nodes_find m key), h.entryAt]
    simp only [EvictingCacheMap.step, hentry, map_some]
    exact ⟨_, rfl, hlinked, hview⟩
  | getWithoutPromotion key =>
    refine ⟨m, ?_, h, rfl⟩
    rw [EvictingCacheMap.step, findWithoutPromotion, h.valueAt]
    rfl
  | findWithoutPromotion key =>
    refine ⟨m, ?_, h, rfl⟩
    rw [EvictingCacheMap.step, findWithoutPromotion, h.entryAt]
    rfl
  | existsKey key =>
    refine ⟨m, ?_, h, rfl⟩
    rw [EvictingCacheMap.step, existsKey, h.isSome_findInIndex]
    rfl
  | erase key =>
    obtain ⟨hlinked, hview, hflag⟩ := h.erase key
    refine ⟨_, ?_, hlinked, hview⟩
    simp only [EvictingCacheMap.step, hflag]
    rfl
  | prune n ph =>
    obtain ⟨m', hm', hlinked, hview⟩ := h.prune n ph w
    rw [EvictingCacheMap.step, hm']
    exact ⟨m', rfl, hlinked, hview⟩
  | setMaxSize n ph =>
    obtain ⟨m', hm', hlinked, hview⟩ := h.setMaxSize n ph w
    rw [EvictingCacheMap.step, hm']
    exact ⟨m', rfl, hlinked, hview⟩
  | setClearSize n | setPruneHook ph => exact ⟨_, rfl, { h with }, rfl⟩
  | clear ph =>
    obtain ⟨m', hm', hlinked, hview⟩ := h.prune m.size ph w
    rw [EvictingCacheMap.step, EvictingCacheMap.clear, hm']
    have hsize : m.view.entries.length = m.size := h.length_entries
    simp only [Cache.step, hsize]
    exact ⟨m', rfl, hlinked, hview⟩

lemma Linked.run (h : Linked hash m) (w : σ) (ops : List (Op σ E K V)) :
    ∃ m', m.run hash w ops = some (m', (m.view.run w ops).2) ∧ Linked hash m' ∧
      m'.view = (m.view.run w ops).1 := by
  induction ops generalizing m w with
  | nil => exact ⟨m, rfl, h, rfl⟩
  | cons op ops ih =>
    obtain ⟨m₁, hm₁, hlinked₁, hview₁⟩ := h.step w op
    obtain ⟨m', hm', hlinked, hview⟩ := ih hlinked₁ (m.view.step w op).2.1
    rw [EvictingCacheMap.run, hm₁]
    dsimp only
    rw [hm', hview₁]
    rw [hview₁] at hview
    exact ⟨m', rfl, hlinked, hview⟩

theorem refines_mru (hash : K → Nat) (maxSize clearSize : Nat) (w : σ) (ops : List (Op σ E K V)) :
    ∃ m w' rs, (create maxSize clearSize).run hash w ops = some (m, w', rs) ∧
      Linked hash m ∧ Mru.Distinct m.entries ∧
      (Cache.create maxSize clearSize).run w ops = (m.view, w', rs) ∧
      ∀ key value, Mru.find key m.entries = some value → Cache.lastSet ops key = some value := by
  obtain ⟨m, hm, hlinked, hview⟩ := (linked_create maxSize clearSize : Linked hash _).run w ops
  have hstart : Cache.UpToDate (fun _ => none)
      (Cache.create maxSize clearSize : Cache σ E K V) := by
    intro e he
    cases he
  have hlast : Cache.UpToDate (Cache.lastSet ops)
      ((Cache.create maxSize clearSize : Cache σ E K V).run w ops).1 := hstart.run w ops
  refine ⟨m, _, _, hm, hlinked, hlinked.distinct_entries, ?_, ?_⟩
  · rw [hview]
    rfl
  · intro key value hfind
    have hmem : (key, value) ∈ m.view.entries := Mru.mem_of_find hfind
    rw [hview] at hmem
    exact hlast _ hmem

/-- After any operations, the destructor frees every node, calls no hook and reads no freed node. -/
theorem destroy_releases (hash : K → Nat) (maxSize clearSize : Nat) (w : σ)
    (ops : List (Op σ E K V)) :
    ∃ m w' rs m', (create maxSize clearSize).run hash w ops = some (m, w', rs) ∧
      m.destroy hash w' = some (m', w', none) ∧ ∀ n, m'.nodes n = none := by
  obtain ⟨m, hm, hlinked, _⟩ := (linked_create maxSize clearSize : Linked hash _).run w ops
  obtain ⟨m', hm', hnodes⟩ := hlinked.destroy _
  exact ⟨m, _, _, m', hm, hm', hnodes⟩

end EvictingCacheMap
end Acc
