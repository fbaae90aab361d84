import Accelerator.EvictingCacheMapLinked

namespace Acc

variable {σ E K V : Type*}

open EvictingCacheMap (Op)

open List

namespace Cache

structure Bounded (c : Cache σ E K V) : Prop where
  clears : 1 ≤ c.clearSize
  fits : 0 < c.maxSize → c.entries.length ≤ c.maxSize

def ClearsSome : Op σ E K V → Prop
  | .setClearSize n => 1 ≤ n
  | _ => True

variable {c : Cache σ E K V}

lemma Bounded.shrink (h : Bounded c) {entries : List (K × V)}
    (hle : entries.length ≤ c.entries.length) : Bounded { c with entries } :=
  ⟨h.clears, fun hmax => hle.trans (h.fits hmax)⟩

lemma Bounded.evict (h : Bounded c) (n : Nat) (ph : Option (PruneHookCall σ E K V)) (w : σ) :
    Bounded (c.evict n ph w).1 := by
  obtain ⟨m, -, heq⟩ := Mru.evict_eq_take (c.tell ph) false n c.entries w
  refine h.shrink ?_
  rw [heq, length_take]
  exact Nat.min_le_right _ _

lemma Bounded.setMaxSize (h : Bounded c) (n : Nat) (ph : Option (PruneHookCall σ E K V)) (w : σ) :
    Bounded (c.setMaxSize n ph w).1 := by
  rw [Cache.setMaxSize]
  split
  · rename_i hfull
    dsimp only
    split
    · rename_i hnone
      refine ⟨h.clears, fun _ => ?_⟩
      simp only [Cache.evict] at hnone ⊢
      rw [Mru.evict_of_none hnone, length_take]
      omega
    · exact h.evict _ ph w
  rename_i hfull
  refine ⟨h.clears, fun hpos => ?_⟩
  dsimp only at hpos ⊢
  omega

variable [DecidableEq K]

lemma Bounded.touch (h : Bounded c) (key : K) : Bounded (c.touch key) := by
  rw [Cache.touch]
  split
  · exact h
  · rename_i v hv
    exact h.shrink (Mru.length_promote_le hv v)

lemma Bounded.set (h : Bounded c) (key : K) (value : V) (promote : Bool)
    (ph : Option (PruneHookCall σ E K V)) (w : σ) : Bounded (c.set key value promote ph w).1 := by
  rw [Cache.set]
  split
  · rename_i v hv
    refine h.shrink ?_
    split
    · exact Mru.length_promote_le hv value
    · rw [Mru.assign, length_map]
  dsimp only
  split
  · -- one entry more, and at least one less, also when the hook of that one throws
    obtain ⟨n, hn⟩ := Nat.exists_eq_add_of_le' h.clears
    refine ⟨h.clears, fun hpos => ?_⟩
    simp only [Cache.evict, hn]
    exact (Mru.length_evict_succ_le _ false n _ w).trans (h.fits hpos)
  · rename_i hroom
    refine ⟨h.clears, fun hpos => ?_⟩
    exact not_lt.mp fun hlt => hroom ⟨hpos, hlt⟩

lemma Bounded.step (h : Bounded c) (w : σ) {op : Op σ E K V} (hop : ClearsSome op) :
    Bounded (c.step w op).1 := by
  cases op with
  | set key value promote ph => exact h.set key value promote ph w
  | get key | find key => exact h.touch key
  | getWithoutPromotion key | findWithoutPromotion key | existsKey key => exact h
  | erase key => exact h.shrink (length_filter_le _ _)
  | prune n ph => exact h.evict n ph w
  | setMaxSize n ph => exact h.setMaxSize n ph w
  | setClearSize n => exact ⟨hop, h.fits⟩
  | setPruneHook ph => exact ⟨h.clears, h.fits⟩
  | clear ph => exact h.evict _ ph w

lemma Bounded.run (h : Bounded c) (w : σ) {ops : List (Op σ E K V)}
    (hops : ∀ op ∈ ops, ClearsSome op) : Bounded (c.run w ops).1 := by
  induction ops generalizing c w with
  | nil => exact h
  | cons op ops ih =>
    exact ih (h.step w (hops op mem_cons_self)) _ fun o ho => hops o (mem_cons_of_mem _ ho)

end Cache

namespace EvictingCacheMap

variable [DecidableEq K] {hash : K → Nat}

theorem size_le_maxSize (hash : K → Nat) (maxSize clearSize : Nat) (hclear : 1 ≤ clearSize) (w : σ)
    (ops : List (Op σ E K V)) (hops : ∀ op ∈ ops, Cache.ClearsSome op) (n : Nat) :
    ∃ m w' rs, (create maxSize clearSize).run hash w (ops.take n) = some (m, w', rs) ∧
      (0 < m.maxSize → m.size ≤ m.maxSize) := by
  obtain ⟨m, hm, hlinked, hview⟩ :=
    (linked_create maxSize clearSize : Linked hash _).run w (ops.take n)
  have hstart : Cache.Bounded (create maxSize clearSize : EvictingCacheMap σ E K V).view :=
    ⟨hclear, fun _ => Nat.zero_le _⟩
  have hbounded : Cache.Bounded m.view := by
    rw [hview]
    exact hstart.run w fun op hop => hops op (mem_of_mem_take hop)
  refine ⟨m, _, _, hm, fun hpos => ?_⟩
  rw [← hlinked.length_entries]
  exact hbounded.fits hpos

theorem size_le_maxSize_throwing :
    let hook : PruneHookCall Unit Unit Nat Nat := fun _ _ w => (some (), w)
    ∃ m w' rs, (create 1 1).run id () ([.set 0 7 true none, .set 1 8 true (some hook)].take 2) =
      some (m, w', rs) ∧ (0 < m.maxSize → m.size ≤ m.maxSize) :=
  size_le_maxSize id 1 1 (le_refl 1) () _ (by simp [Cache.ClearsSome]) 2

def Survives (hash : K → Nat) (m : EvictingCacheMap σ E K V) (key : K) : Prop :=
  m.existsKey hash key = true ∨ m.maxSize = 0 ∨ m.size < m.maxSize ∨ m.clearSize ≤ m.size

lemma find_take_cons (key : K) (value : V) (entries : List (K × V)) (n : Nat) :
    Mru.find key (((key, value) :: entries).take n) = some value ↔ 0 < n := by
  cases n with
  | zero => simp
  | succ n => simp [Mru.find_cons]

lemma find_set_known {m : EvictingCacheMap σ E K V} (h : Linked hash m) {key : K} {v : V}
    (hv : Mru.find key m.entries = some v) (value : V) (promote : Bool) :
    Mru.find key (if promote then Mru.promote key value m.entries
      else Mru.assign key value m.entries) = some value := by
  cases promote with
  | true => simp [Mru.promote, Mru.find_cons]
  | false =>
    refine (Mru.find_eq_some (h.distinct_entries.assign key value)).mpr ?_
    exact mem_map.mpr ⟨_, Mru.mem_of_find hv, if_pos rfl⟩

lemma find_view_set {m : EvictingCacheMap σ E K V} (h : Linked hash m)
    {key : K} {value : V} {promote : Bool} {ph : Option (PruneHookCall σ E K V)} {w : σ}
    (hret : (m.view.set key value promote ph w).2.2 = none) :
    Mru.find key (m.view.set key value promote ph w).1.entries = some value ↔
      m.Survives hash key := by
  have hsize : m.entries.length = m.size := h.length_entries
  rw [Survives, existsKey, h.isSome_findInIndex]
  rw [Cache.set] at hret ⊢
  cases hv : Mru.find key m.entries with
  | some v =>
    have hview : Mru.find key m.view.entries = some v := hv
    simp only [hview]
    exact iff_of_true (find_set_known h hv value promote) (.inl rfl)
  | none =>
    have hview : Mru.find key m.view.entries = none := hv
    simp only [hview] at hret ⊢
    split at hret
    · rename_i hfull
      rw [if_pos hfull]
      simp only [Cache.evict] at hret ⊢
      rw [Mru.evict_of_none hret, find_take_cons]
      simp only [view, length_cons, hsize] at hfull ⊢
      simp
      omega
    rename_i hroom
    rw [if_neg hroom]
    simp only [view, length_cons, hsize] at hroom ⊢
    simp [Mru.find_cons]
    omega

theorem set_present_iff (hash : K → Nat) (maxSize clearSize : Nat) (w₀ : σ) (ops : List (Op σ E K V))
    (m : EvictingCacheMap σ E K V) (w : σ) (rs : List (Result E K V))
    (hrun : (create maxSize clearSize).run hash w₀ ops = some (m, w, rs))
    (key : K) (value : V) (promote : Bool) (ph : Option (PruneHookCall σ E K V))
    (m' : EvictingCacheMap σ E K V) (w' : σ)
    (hset : m.set hash key value promote ph w = some (m', w', none)) :
    m'.valueAt (m'.findWithoutPromotion hash key) = some (.value value : Result E K V) ↔
      m.Survives hash key := by
  obtain ⟨m₁, hm₁, hlinked, -⟩ := (linked_create maxSize clearSize : Linked hash _).run w₀ ops
  obtain rfl : m₁ = m := congrArg Prod.fst (Option.some.inj (hm₁.symm.trans hrun))
  obtain ⟨m₂, hm₂, hlinked', hview⟩ := hlinked.set key value promote ph w
  obtain ⟨rfl, hresult⟩ := Prod.mk.inj (Option.some.inj (hm₂.symm.trans hset))
  rw [findWithoutPromotion, hlinked'.valueAt, ← find_view_set hlinked (congrArg Prod.snd hresult),
    ← hview, Option.some.injEq, Cache.lookup]
  cases Mru.find key m₂.view.entries with
  | none => simp
  | some v => simp

theorem set_present_iff_one :
    ∃ (m : EvictingCacheMap Unit Unit Nat Nat) (w : Unit) (rs : List (Result Unit Nat Nat))
      (m' : EvictingCacheMap Unit Unit Nat Nat) (w' : Unit),
      (create 1 1).run id () [.set 0 7 true none] = some (m, w, rs) ∧
      m.set id 1 8 true none w = some (m', w', none) ∧
      (m'.valueAt (m'.findWithoutPromotion id 1) = some (.value 8 : Result Unit Nat Nat) ↔
        m.Survives id 1) :=
  ⟨_, _, _, _, _, rfl, rfl, set_present_iff id 1 1 () [.set 0 7 true none] _ _ _ rfl 1 8 true none _ _ rfl⟩

theorem set_evicts_itself :
    ∃ m : EvictingCacheMap Unit Unit Nat Nat, ∃ rs : List (Result Unit Nat Nat),
      (create 1 2).run id () [.set 0 7 true none, .set 1 8 true none] = some (m, (), rs) ∧
      rs = [.done, .done] ∧ m.existsKey id 1 = false :=
  ⟨_, _, rfl, rfl, rfl⟩

end EvictingCacheMap
end Acc
