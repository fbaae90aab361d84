import Accelerator.Mru

namespace Acc

abbrev PruneHookCall (σ E K V : Type*) := K → V → σ → Option E × σ

structure EvictingCacheMap (σ E K V : Type*) where
  pruneHook : Option (PruneHookCall σ E K V)
  nIndexBuckets : Nat
  index : Nat → List Nat
  indexSize : Nat
  lru : List Nat
  maxSize : Nat
  clearSize : Nat
  nodes : Nat → Option (K × V)
  fresh : Nat

namespace EvictingCacheMap

variable {σ E K V : Type*} [DecidableEq K]

def kMinNumIndexBuckets : Nat := 100

omit [DecidableEq K] in
def create (maxSize clearSize : Nat) : EvictingCacheMap σ E K V where
  pruneHook := none
  nIndexBuckets := max (maxSize / 2) kMinNumIndexBuckets
  index := fun _ => []
  indexSize := 0
  lru := []
  maxSize := maxSize
  clearSize := clearSize
  nodes := fun _ => none
  fresh := 0

section Model

variable (hash : K → Nat) (m : EvictingCacheMap σ E K V)

def bucket (key : K) : Nat := hash key % m.nIndexBuckets

def hasKey (key : K) (n : Nat) : Bool :=
  match m.nodes n with
  | some pr => decide (key = pr.1)
  | none => false

def findInIndex (key : K) : Option Nat := (m.index (m.bucket hash key)).find? (m.hasKey key)

def size : Nat := m.indexSize

def indexInsert (key : K) (n : Nat) : EvictingCacheMap σ E K V :=
  match m.findInIndex hash key with
  | some _ => m
  | none =>
    { m with
      index := fun b => if b = m.bucket hash key then n :: m.index b else m.index b
      indexSize := m.indexSize + 1 }

def indexErase (key : K) (n : Nat) : EvictingCacheMap σ E K V :=
  { m with
    index := fun b => if b = m.bucket hash key then (m.index b).erase n else m.index b
    indexSize := m.indexSize - 1 }

def lruErase (n : Nat) : EvictingCacheMap σ E K V := { m with lru := m.lru.erase n }

def lruPushFront (n : Nat) : EvictingCacheMap σ E K V := { m with lru := n :: m.lru }

def store (n : Nat) (pr : Option (K × V)) : EvictingCacheMap σ E K V :=
  { m with nodes := fun i => if i = n then pr else m.nodes i }

inductive Result (E K V : Type*)
  | done
  | flag (b : Bool)
  | value (v : V)
  | iterator (it : Option (K × V))
  | outOfRange (what : String)
  | threw (e : E)
  deriving DecidableEq, Repr

def existsKey (key : K) : Bool := (m.findInIndex hash key).isSome

def find (key : K) : EvictingCacheMap σ E K V × Option Nat :=
  match m.findInIndex hash key with
  | none => (m, none)
  | some n => ((m.lruErase n).lruPushFront n, some n)

def findWithoutPromotion (key : K) : Option Nat := m.findInIndex hash key

def valueAt : Option Nat → Option (Result E K V)
  | none => some (.outOfRange "Key does not exist")
  | some n => (m.nodes n).map fun pr => .value pr.2

def entryAt : Option Nat → Option (Result E K V)
  | none => some (.iterator none)
  | some n => (m.nodes n).map fun pr => .iterator (some pr)

def erase (key : K) : EvictingCacheMap σ E K V × Bool :=
  match m.findInIndex hash key with
  | none => (m, false)
  | some n => (((m.lruErase n).indexErase hash key n).store n none, true)

def pruneLoop (ph : Option (PruneHookCall σ E K V)) (failSafe : Bool) :
    Nat → EvictingCacheMap σ E K V → σ → Option (EvictingCacheMap σ E K V × σ × Option E)
  | 0, m, w => some (m, w, none)
  | i + 1, m, w =>
    match m.lru.getLast? with
    | none => some (m, w, none)
    | some n =>
      match m.nodes n with
      | none => none
      | some (key, value) =>
        let m := (m.lruErase n).indexErase hash key n
        match ph with
        | none => pruneLoop ph failSafe i (m.store n none) w
        | some ph' =>
          match ph' key value w with
          | (none, w) => pruneLoop ph failSafe i (m.store n none) w
          | (some e, w) =>
            if failSafe then pruneLoop ph failSafe i (m.store n none) w
            else some (m.store n none, w, some e)

def pruneWithFailSafeOption (pruneSize : Nat) (pruneHook : Option (PruneHookCall σ E K V))
    (failSafe : Bool) (w : σ) : Option (EvictingCacheMap σ E K V × σ × Option E) :=
  pruneLoop hash (match pruneHook with | none => m.pruneHook | some ph => some ph) failSafe
    pruneSize m w

def prune (pruneSize : Nat) (pruneHook : Option (PruneHookCall σ E K V)) (w : σ) :
    Option (EvictingCacheMap σ E K V × σ × Option E) :=
  m.pruneWithFailSafeOption hash pruneSize pruneHook false w

def insertNew (key : K) (value : V) : EvictingCacheMap σ E K V :=
  let n := m.fresh
  let m : EvictingCacheMap σ E K V := { m.store n (some (key, value)) with fresh := n + 1 }
  (m.indexInsert hash key n).lruPushFront n

def set (key : K) (value : V) (promote : Bool) (pruneHook : Option (PruneHookCall σ E K V))
    (w : σ) : Option (EvictingCacheMap σ E K V × σ × Option E) :=
  match m.findInIndex hash key with
  | some n =>
    let m := m.store n (some (key, value))
    some (if promote then (m.lruErase n).lruPushFront n else m, w, none)
  | none =>
    let m := m.insertNew hash key value
    if m.maxSize > 0 ∧ m.size > m.maxSize then m.prune hash m.clearSize pruneHook w
    else some (m, w, none)

def setMaxSize (maxSize : Nat) (pruneHook : Option (PruneHookCall σ E K V)) (w : σ) :
    Option (EvictingCacheMap σ E K V × σ × Option E) :=
  if maxSize ≠ 0 ∧ maxSize < m.size then
    match m.prune hash (max (m.size - maxSize) m.clearSize) pruneHook w with
    | some (m, w, none) => some ({ m with maxSize := maxSize }, w, none)
    | r => r
  else some ({ m with maxSize := maxSize }, w, none)

def clear (pruneHook : Option (PruneHookCall σ E K V)) (w : σ) :
    Option (EvictingCacheMap σ E K V × σ × Option E) :=
  m.prune hash m.size pruneHook w

def destroy (w : σ) : Option (EvictingCacheMap σ E K V × σ × Option E) :=
  { m with pruneHook := none }.pruneWithFailSafeOption hash m.size none true w

end Model

inductive Op (σ E K V : Type*)
  | set (key : K) (value : V) (promote : Bool) (pruneHook : Option (PruneHookCall σ E K V))
  | get (key : K)
  | find (key : K)
  | getWithoutPromotion (key : K)
  | findWithoutPromotion (key : K)
  | existsKey (key : K)
  | erase (key : K)
  | prune (pruneSize : Nat) (pruneHook : Option (PruneHookCall σ E K V))
  | setMaxSize (maxSize : Nat) (pruneHook : Option (PruneHookCall σ E K V))
  | setClearSize (clearSize : Nat)
  | setPruneHook (pruneHook : Option (PruneHookCall σ E K V))
  | clear (pruneHook : Option (PruneHookCall σ E K V))

def Result.ofHook : Option E → Result E K V
  | none => .done
  | some e => .threw e

def step (hash : K → Nat) (m : EvictingCacheMap σ E K V) (w : σ) :
    Op σ E K V → Option (EvictingCacheMap σ E K V × σ × Result E K V)
  | .set key value promote ph =>
    (m.set hash key value promote ph w).map fun r => (r.1, r.2.1, .ofHook r.2.2)
  | .get key =>
    let r := m.find hash key
    (r.1.valueAt r.2).map fun v => (r.1, w, v)
  | .find key =>
    let r := m.find hash key
    (r.1.entryAt r.2).map fun v => (r.1, w, v)
  | .getWithoutPromotion key =>
    (m.valueAt (m.findWithoutPromotion hash key)).map fun v => (m, w, v)
  | .findWithoutPromotion key =>
    (m.entryAt (m.findWithoutPromotion hash key)).map fun v => (m, w, v)
  | .existsKey key => some (m, w, .flag (m.existsKey hash key))
  | .erase key =>
    let r := m.erase hash key
    some (r.1, w, .flag r.2)
  | .prune n ph => (m.prune hash n ph w).map fun r => (r.1, r.2.1, .ofHook r.2.2)
  | .setMaxSize n ph => (m.setMaxSize hash n ph w).map fun r => (r.1, r.2.1, .ofHook r.2.2)
  | .setClearSize n => some ({ m with clearSize := n }, w, .done)
  | .setPruneHook ph => some ({ m with pruneHook := ph }, w, .done)
  | .clear ph => (m.clear hash ph w).map fun r => (r.1, r.2.1, .ofHook r.2.2)

def run (hash : K → Nat) (m : EvictingCacheMap σ E K V) (w : σ) :
    List (Op σ E K V) → Option (EvictingCacheMap σ E K V × σ × List (Result E K V))
  | [] => some (m, w, [])
  | op :: ops =>
    match m.step hash w op with
    | none => none
    | some (m, w, r) => (run hash m w ops).map fun x => (x.1, x.2.1, r :: x.2.2)

end EvictingCacheMap

open EvictingCacheMap (Op Result)

structure Cache (σ E K V : Type*) where
  entries : List (K × V)
  maxSize : Nat
  clearSize : Nat
  pruneHook : Option (PruneHookCall σ E K V)

namespace Cache

variable {σ E K V : Type*} [DecidableEq K]

def create (maxSize clearSize : Nat) : Cache σ E K V := ⟨[], maxSize, clearSize, none⟩

def tell (c : Cache σ E K V) (ph : Option (PruneHookCall σ E K V)) : PruneHookCall σ E K V :=
  (ph.or c.pruneHook).getD fun _ _ w => (none, w)

def evict (c : Cache σ E K V) (n : Nat) (ph : Option (PruneHookCall σ E K V)) (w : σ) :
    Cache σ E K V × σ × Option E :=
  let r := Mru.evict (c.tell ph) false n c.entries w
  ({ c with entries := r.1 }, r.2)

def touch (c : Cache σ E K V) (key : K) : Cache σ E K V :=
  match Mru.find key c.entries with
  | none => c
  | some v => { c with entries := Mru.promote key v c.entries }

def lookup (c : Cache σ E K V) (key : K) : Result E K V :=
  match Mru.find key c.entries with
  | none => .outOfRange "Key does not exist"
  | some v => .value v

def position (c : Cache σ E K V) (key : K) : Result E K V :=
  .iterator ((Mru.find key c.entries).map fun v => (key, v))

def set (c : Cache σ E K V) (key : K) (value : V) (promote : Bool)
    (ph : Option (PruneHookCall σ E K V)) (w : σ) : Cache σ E K V × σ × Option E :=
  match Mru.find key c.entries with
  | some _ =>
    let entries :=
      if promote then Mru.promote key value c.entries else Mru.assign key value c.entries
    ({ c with entries }, w, none)
  | none =>
    let c := { c with entries := (key, value) :: c.entries }
    if 0 < c.maxSize ∧ c.maxSize < c.entries.length then c.evict c.clearSize ph w
    else (c, w, none)

def setMaxSize (c : Cache σ E K V) (n : Nat) (ph : Option (PruneHookCall σ E K V)) (w : σ) :
    Cache σ E K V × σ × Option E :=
  if n ≠ 0 ∧ n < c.entries.length then
    let r := c.evict (max (c.entries.length - n) c.clearSize) ph w
    match r.2.2 with
    | none => ({ r.1 with maxSize := n }, r.2)
    | some _ => r
  else ({ c with maxSize := n }, w, none)

def step (c : Cache σ E K V) (w : σ) : Op σ E K V → Cache σ E K V × σ × Result E K V
  | .set key value promote ph =>
    let r := c.set key value promote ph w
    (r.1, r.2.1, .ofHook r.2.2)
  | .get key => (c.touch key, w, c.lookup key)
  | .find key => (c.touch key, w, c.position key)
  | .getWithoutPromotion key => (c, w, c.lookup key)
  | .findWithoutPromotion key => (c, w, c.position key)
  | .existsKey key => (c, w, .flag (Mru.find key c.entries).isSome)
  | .erase key =>
    ({ c with entries := Mru.remove key c.entries }, w, .flag (Mru.find key c.entries).isSome)
  | .prune n ph =>
    let r := c.evict n ph w
    (r.1, r.2.1, .ofHook r.2.2)
  | .setMaxSize n ph =>
    let r := c.setMaxSize n ph w
    (r.1, r.2.1, .ofHook r.2.2)
  | .setClearSize n => ({ c with clearSize := n }, w, .done)
  | .setPruneHook ph => ({ c with pruneHook := ph }, w, .done)
  | .clear ph =>
    let r := c.evict c.entries.length ph w
    (r.1, r.2.1, .ofHook r.2.2)

def run (c : Cache σ E K V) (w : σ) :
    List (Op σ E K V) → Cache σ E K V × σ × List (Result E K V)
  | [] => (c, w, [])
  | op :: ops =>
    let r := c.step w op
    let x := run r.1 r.2.1 ops
    (x.1, x.2.1, r.2.2 :: x.2.2)

end Cache

namespace Cache

variable {σ E K V : Type*} [DecidableEq K]

def noted (last : K → Option V) : Op σ E K V → K → Option V
  | .set key value _ _ => fun k => if k = key then some value else last k
  | _ => last

def lastSet (ops : List (Op σ E K V)) : K → Option V := ops.foldl noted fun _ => none

def UpToDate (last : K → Option V) (c : Cache σ E K V) : Prop :=
  ∀ e ∈ c.entries, last e.1 = some e.2

variable {last : K → Option V} {c : Cache σ E K V}

omit [DecidableEq K] in
lemma UpToDate.evict (h : UpToDate last c) (n : Nat)
    (ph : Option (PruneHookCall σ E K V)) (w : σ) : UpToDate last (c.evict n ph w).1 := by
  intro e he
  obtain ⟨m, -, htake⟩ := Mru.evict_eq_take (c.tell ph) false n c.entries w
  have hmem : e ∈ (Mru.evict (c.tell ph) false n c.entries w).1 := he
  rw [htake] at hmem
  exact h e (List.mem_of_mem_take hmem)

lemma UpToDate.touch (h : UpToDate last c) (key : K) : UpToDate last (c.touch key) := by
  rw [Cache.touch]
  split
  · exact h
  rename_i v hv
  intro e he
  rcases Mru.mem_promote.mp he with rfl | ⟨he, -⟩
  · exact h _ (Mru.mem_of_find hv)
  · exact h e he

lemma UpToDate.set (h : UpToDate last c) (key : K)
    (value : V) (promote : Bool) (ph : Option (PruneHookCall σ E K V)) (w : σ) :
    UpToDate (noted last (.set key value promote ph)) (c.set key value promote ph w).1 := by
  have hentry : ∀ e, e = (key, value) ∨ e ∈ c.entries ∧ e.1 ≠ key →
      noted last (Op.set key value promote ph) e.1 = some e.2 := by
    rintro e (rfl | ⟨he, hkey⟩)
    · exact if_pos rfl
    · exact (if_neg hkey).trans (h e he)
  rw [Cache.set]
  split
  · intro e he
    split at he
    · exact hentry e (Mru.mem_promote.mp he)
    · exact hentry e (Mru.mem_assign he)
  rename_i hnone
  have hnew : UpToDate (noted last (.set key value promote ph))
      { c with entries := (key, value) :: c.entries } := by
    intro e he
    refine hentry e ((List.mem_cons.mp he).imp_right ?_)
    intro hin
    exact ⟨hin, fun heq => Mru.find_eq_none.mp hnone (heq ▸ List.mem_map_of_mem hin)⟩
  dsimp only
  split
  · exact hnew.evict _ ph w
  · exact hnew

omit [DecidableEq K] in
lemma UpToDate.setMaxSize (h : UpToDate last c)
    (n : Nat) (ph : Option (PruneHookCall σ E K V)) (w : σ) :
    UpToDate last (c.setMaxSize n ph w).1 := by
  rw [Cache.setMaxSize]
  split
  · dsimp only
    split
    · exact h.evict _ ph w
    · exact h.evict _ ph w
  · exact h

lemma UpToDate.step (h : UpToDate last c) (w : σ)
    (op : Op σ E K V) : UpToDate (noted last op) (c.step w op).1 := by
  cases op with
  | set key value promote ph => exact h.set key value promote ph w
  | get key | find key => exact h.touch key
  | getWithoutPromotion key | findWithoutPromotion key | existsKey key | setClearSize n
  | setPruneHook ph => exact h
  | erase key => exact fun e he => h e (Mru.mem_remove.mp he).1
  | prune n ph => exact h.evict n ph w
  | setMaxSize n ph => exact h.setMaxSize n ph w
  | clear ph => exact h.evict _ ph w

lemma UpToDate.run (h : UpToDate last c) (w : σ)
    (ops : List (Op σ E K V)) : UpToDate (ops.foldl noted last) (c.run w ops).1 := by
  induction ops generalizing last c w with
  | nil => exact h
  | cons op ops ih => exact ih (h.step w op) _

end Cache

end Acc
