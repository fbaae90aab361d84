import Accelerator.Conv.Integral

namespace Acc

open List

open Conv

inductive DtoaMode
  | shortest | shortestSingle | fixed | precision
  deriving DecidableEq, Repr

class Double (F : Type) where
  fromText : List UInt8 → Except RangeError F
  toText : DtoaMode → UInt32 → F → List UInt8
  infinity : F
  negInfinity : F
  quietNaN : F
  isNaN : F → Bool
  isInf : F → Bool
  eq : F → F → Bool
  lt : F → F → Bool
  hash : F → UInt64
  ofInt : Int64 → F
  checked : Int64 → Except RangeError Int64

instance : Double Unit where
  fromText _ := .ok ()
  toText _ _ _ := [48]
  infinity := ()
  negInfinity := ()
  quietNaN := ()
  isNaN _ := false
  isInf _ := false
  eq _ _ := true
  lt _ _ := false
  hash _ := 0
  ofInt _ := ()
  checked i := .ok i

inductive Dynamic (F : Type) where
  | null
  | bool (b : Bool)
  | int64 (i : Int64)
  | double (d : F)
  | string (s : List UInt8)
  | array (xs : List (Dynamic F))
  | object (items : List (Dynamic F × Dynamic F))

inductive DynamicType
  | nullT | array | bool | double | int64 | object | string
  deriving DecidableEq, Repr

structure TypeError where
  expected : String
  actual : DynamicType
  deriving DecidableEq, Repr

namespace Dynamic

variable {F : Type}

def type : Dynamic F → DynamicType
  | null => .nullT
  | array _ => .array
  | bool _ => .bool
  | double _ => .double
  | int64 _ => .int64
  | object _ => .object
  | string _ => .string

def bytesLt : List UInt8 → List UInt8 → Bool
  | _, [] => false
  | [], _ :: _ => true
  | a :: s, b :: t => a < b || (a == b && bytesLt s t)

lemma eq_of_not_bytesLt {s t : List UInt8} (h : bytesLt s t = false)
    (h' : bytesLt t s = false) : s = t := by
  induction s generalizing t with
  | nil =>
    cases t with
    | nil => rfl
    | cons b t => cases h
  | cons a s ih =>
    cases t with
    | nil => cases h'
    | cons b t =>
      simp only [bytesLt, Bool.or_eq_false_iff, decide_eq_false_iff_not, UInt8.not_lt] at h h'
      have hab : a = b := UInt8.le_antisymm h'.1 h.1
      subst hab
      rw [ih (by simpa using h.2) (by simpa using h'.2)]

section Equality

variable [Double F]

def sameKey : Dynamic F → Dynamic F → Bool
  | bool a, bool b => a == b
  | int64 a, int64 b => a == b
  | double a, double b => Double.hash a == Double.hash b && Double.eq a b
  | int64 a, double b => a.toUInt64 == Double.hash b && Double.eq (Double.ofInt a) b
  | double a, int64 b => Double.hash a == b.toUInt64 && Double.eq (Double.ofInt b) a
  | string a, string b => a == b
  | _, _ => false

mutual

def beq : Dynamic F → Dynamic F → Bool
  | null, null => true
  | bool a, bool b => a == b
  | int64 a, int64 b => a == b
  | double a, double b => Double.eq a b
  | int64 a, double b => Double.eq (Double.ofInt a) b
  | double a, int64 b => Double.eq (Double.ofInt b) a
  | string a, string b => a == b
  | array xs, array ys => beqList xs ys
  | object xs, object ys => xs.length == ys.length && beqItems xs ys
  | _, _ => false

def beqList : List (Dynamic F) → List (Dynamic F) → Bool
  | [], [] => true
  | x :: xs, y :: ys => beq x y && beqList xs ys
  | _, _ => false

def beqItem : Dynamic F × Dynamic F → List (Dynamic F × Dynamic F) → Bool
  | (k, v), ys =>
    match ys.find? fun q => sameKey k q.1 with
    | some q => beq v q.2
    | none => false

def beqItems : List (Dynamic F × Dynamic F) → List (Dynamic F × Dynamic F) → Bool
  | [], _ => true
  | p :: ps, ys => beqItem p ys && beqItems ps ys

end

def insert (items : List (Dynamic F × Dynamic F)) (key val : Dynamic F) :
    Except TypeError (List (Dynamic F × Dynamic F)) :=
  match key with
  | null | array _ | object _ => .error ⟨"not null/object/array", key.type⟩
  | _ =>
    if items.any fun p => sameKey key p.1 then
      .ok (items.map fun p => if sameKey key p.1 then (p.1, val) else p)
    else .ok (items ++ [(key, val)])

end Equality

section Order

variable [Double F]

mutual

def lt : Dynamic F → Dynamic F → Except TypeError Bool
  | object a, _ => .error ⟨"object", (object a).type⟩
  | a, object _ => .error ⟨"object", a.type⟩
  | null, null => .ok false
  | bool a, bool b => .ok (!a && b)
  | int64 a, int64 b => .ok (a < b)
  | double a, double b => .ok (Double.lt a b)
  | string a, string b => .ok (bytesLt a b)
  | array xs, array ys => ltList xs ys
  | a, b => .ok (a.type.ctorIdx < b.type.ctorIdx)
termination_by a b => sizeOf a + sizeOf b

def ltList : List (Dynamic F) → List (Dynamic F) → Except TypeError Bool
  | _, [] => .ok false
  | [], _ :: _ => .ok true
  | x :: xs, y :: ys => do
      if ← lt x y then pure true
      else if ← lt y x then pure false
      else ltList xs ys
termination_by xs ys => sizeOf xs + sizeOf ys

end

end Order

mutual

def depth : Dynamic F → Nat
  | array xs => depthList xs + 1
  | object items => depthItems items + 1
  | _ => 1

def depthList : List (Dynamic F) → Nat
  | [] => 0
  | x :: xs => max (depth x) (depthList xs)

def depthItem : Dynamic F × Dynamic F → Nat
  | (_, v) => depth v

def depthItems : List (Dynamic F × Dynamic F) → Nat
  | [] => 0
  | p :: ps => max (depthItem p) (depthItems ps)

end

lemma depth_le_depthList {x : Dynamic F} {xs : List (Dynamic F)} (h : x ∈ xs) :
    depth x ≤ depthList xs := by
  induction xs with
  | nil => exact absurd h not_mem_nil
  | cons y ys ih =>
    rcases mem_cons.mp h with rfl | h
    · exact le_max_left _ _
    · exact le_trans (ih h) (le_max_right _ _)

lemma depth_le_depthItems {k v : Dynamic F} {items : List (Dynamic F × Dynamic F)}
    (h : (k, v) ∈ items) : depth v ≤ depthItems items := by
  induction items with
  | nil => exact absurd h not_mem_nil
  | cons p ps ih =>
    rcases mem_cons.mp h with rfl | h
    · exact le_max_left _ _
    · exact le_trans (ih h) (le_max_right _ _)

lemma depth_pos (v : Dynamic F) : 1 ≤ depth v := by
  cases v <;> simp [depth]

section Named

def toItems (xs : List (List UInt8 × Dynamic F)) : List (Dynamic F × Dynamic F) :=
  xs.map fun p => (string p.1, p.2)

def lastOf {α : Type} : List (List UInt8 × α) → List UInt8 → Option α
  | [], _ => none
  | (k, v) :: ms, name =>
    match lastOf ms name with
    | some x => some x
    | none => if k = name then some v else none

variable {α : Type} {ms xs : List (List UInt8 × α)} {name : List UInt8}

lemma lastOf_eq_some_iff (h : (ms.map Prod.fst).Nodup) {v : α} : lastOf ms name = some v ↔ (name, v) ∈ ms := by
  induction ms generalizing v with
  | nil => simp [lastOf]
  | cons m ms ih =>
    obtain ⟨k, x⟩ := m
    rw [map_cons, nodup_cons] at h
    rw [lastOf, mem_cons, ← ih h.2, Prod.mk.injEq]
    cases hlast : lastOf ms name with
    | some y =>
      have hmem := (ih h.2).mp hlast
      have hne : k ≠ name := by
        rintro rfl
        exact h.1 (mem_map.mpr ⟨(k, y), hmem, rfl⟩)
      simp [Ne.symm hne]
    | none =>
      by_cases hk : k = name
      · simp [hk, eq_comm]
      · simp [hk, Ne.symm hk]

def insertNamed {α : Type} (xs : List (List UInt8 × α)) (k : List UInt8) (v : α) :
    List (List UInt8 × α) :=
  if xs.any fun p => k == p.1 then xs.map fun p => if k == p.1 then (p.1, v) else p
  else xs ++ [(k, v)]

lemma mem_insertNamed {k : List UInt8} {v x : α} :
    (name, x) ∈ insertNamed xs k v ↔ (name = k ∧ x = v) ∨ (name ≠ k ∧ (name, x) ∈ xs) := by
  rw [insertNamed]
  split
  · rename_i hany
    obtain ⟨p, hp, hk⟩ := any_eq_true.mp hany
    have hpk : k = p.1 := by simpa using hk
    rw [mem_map]
    constructor
    · rintro ⟨q, hq, heq⟩
      by_cases hkq : k = q.1
      · simp only [hkq, beq_self_eq_true, if_true, Prod.mk.injEq] at heq
        exact Or.inl ⟨heq.1.symm.trans hkq.symm, heq.2.symm⟩
      · rw [if_neg (by simpa using hkq)] at heq
        subst heq
        exact Or.inr ⟨fun h => hkq h.symm, hq⟩
    · rintro (⟨rfl, rfl⟩ | ⟨hne, hmem⟩)
      · exact ⟨p, hp, by simp [hpk]⟩
      · exact ⟨(name, x), hmem, by simp [Ne.symm hne]⟩
  rename_i hany
  have hfresh : ∀ q ∈ xs, k ≠ q.1 := by
    intro q hq hkq
    exact hany (any_eq_true.mpr ⟨q, hq, by simpa using hkq⟩)
  rw [mem_append, mem_singleton, Prod.mk.injEq]
  constructor
  · rintro (hmem | h)
    · exact Or.inr ⟨fun h => hfresh _ hmem h.symm, hmem⟩
    · exact Or.inl h
  · rintro (h | ⟨_, hmem⟩)
    · exact Or.inr h
    · exact Or.inl hmem

lemma nodup_insertNamed (h : (xs.map Prod.fst).Nodup)
    (k : List UInt8) (v : α) : ((insertNamed xs k v).map Prod.fst).Nodup := by
  rw [insertNamed]
  split
  · have hmap : (xs.map fun p => if k == p.1 then (p.1, v) else p).map Prod.fst =
        xs.map Prod.fst := by
      rw [map_map]
      apply map_congr_left
      intro p _
      simp only [Function.comp]
      split <;> rfl
    rwa [hmap]
  rename_i hany
  rw [map_append, map_singleton]
  refine List.Nodup.append h (nodup_singleton _) ?_
  intro a ha hk
  obtain ⟨q, hq, rfl⟩ := mem_map.mp ha
  exact hany (any_eq_true.mpr ⟨q, hq, by simpa using (mem_singleton.mp hk).symm⟩)

def insertAll {α : Type} (xs ms : List (List UInt8 × α)) : List (List UInt8 × α) :=
  ms.foldl (fun xs m => insertNamed xs m.1 m.2) xs

lemma nodup_insertAll (h : (xs.map Prod.fst).Nodup)
    (ms : List (List UInt8 × α)) : ((insertAll xs ms).map Prod.fst).Nodup := by
  induction ms generalizing xs with
  | nil => exact h
  | cons m ms ih => exact ih (nodup_insertNamed h m.1 m.2)

lemma mem_insertAll {x : α} : (name, x) ∈ insertAll xs ms ↔
      lastOf ms name = some x ∨ (lastOf ms name = none ∧ (name, x) ∈ xs) := by
  induction ms generalizing xs with
  | nil => simp [insertAll, lastOf]
  | cons m ms ih =>
    obtain ⟨k, v⟩ := m
    have hcons : insertAll xs ((k, v) :: ms) = insertAll (insertNamed xs k v) ms := rfl
    rw [hcons, ih, mem_insertNamed, lastOf]
    cases lastOf ms name with
    | some y => simp
    | none =>
      by_cases hk : k = name
      · simp [hk, eq_comm]
      · simp [hk, Ne.symm hk]

end Named

section NamedEquality

variable [Double F]

@[simp] lemma sameKey_string (a b : List UInt8) :
    sameKey (string a : Dynamic F) (string b) = (a == b) := rfl

lemma insert_string (xs : List (List UInt8 × Dynamic F)) (k : List UInt8) (v : Dynamic F) :
    insert (toItems xs) (string k) v = .ok (toItems (insertNamed xs k v)) := by
  have hany : (toItems xs).any (fun p => sameKey (string k) p.1) = xs.any fun p => k == p.1 := by
    rw [toItems, any_map]
    rfl
  have hdef : insert (toItems xs) (string k) v =
      if (toItems xs).any fun p => sameKey (string k) p.1 then
        .ok ((toItems xs).map fun p => if sameKey (string k) p.1 then (p.1, v) else p)
      else .ok (toItems xs ++ [(string k, v)]) := rfl
  rw [hdef, insertNamed, hany]
  split
  · rw [toItems, toItems, map_map, map_map]
    congr 1
    apply map_congr_left
    intro p _
    simp only [Function.comp, sameKey_string]
    by_cases hk : k == p.1 <;> simp [hk]
  · rw [toItems, toItems, map_append]
    rfl

lemma find_toItems {xs : List (List UInt8 × Dynamic F)} (h : (xs.map Prod.fst).Nodup)
    {k : List UInt8} {v : Dynamic F} (hmem : (k, v) ∈ xs) :
    (toItems xs).find? (fun q => sameKey (string k) q.1) = some (string k, v) := by
  induction xs with
  | nil => exact absurd hmem not_mem_nil
  | cons p xs ih =>
    rw [map_cons, nodup_cons] at h
    have hcons : toItems (p :: xs) = (string p.1, p.2) :: toItems xs := rfl
    rw [hcons, find?_cons]
    rcases mem_cons.mp hmem with rfl | hmem
    · simp
    have hne : (k == p.1) = false := by
      rw [beq_eq_false_iff_ne]
      rintro rfl
      exact h.1 (mem_map.mpr ⟨(p.1, v), hmem, rfl⟩)
    simp [hne, ih h.2 hmem]

lemma beqItems_iff {ps ys : List (Dynamic F × Dynamic F)} :
    beqItems ps ys = true ↔ ∀ p ∈ ps, beqItem p ys = true := by
  induction ps with
  | nil => simp [beqItems]
  | cons p ps ih => simp [beqItems, ih]

lemma beq_object {xs ys : List (List UInt8 × Dynamic F)} (hx : (xs.map Prod.fst).Nodup)
    (hy : (ys.map Prod.fst).Nodup)
    (hval : ∀ k v, (k, v) ∈ xs → ∃ v', (k, v') ∈ ys ∧ beq v v' = true)
    (hname : ∀ k v', (k, v') ∈ ys → ∃ v, (k, v) ∈ xs) :
    beq (object (toItems xs)) (object (toItems ys)) = true := by
  have hperm : (xs.map Prod.fst).Perm (ys.map Prod.fst) := by
    rw [perm_ext_iff_of_nodup hx hy]
    intro k
    constructor
    · intro hk
      obtain ⟨⟨k, v⟩, hp, rfl⟩ := mem_map.mp hk
      obtain ⟨v', hv', _⟩ := hval k v hp
      exact mem_map.mpr ⟨(k, v'), hv', rfl⟩
    intro hk
    obtain ⟨⟨k, v⟩, hp, rfl⟩ := mem_map.mp hk
    obtain ⟨v', hv'⟩ := hname k v hp
    exact mem_map.mpr ⟨(k, v'), hv', rfl⟩
  have hlen : xs.length = ys.length := by simpa using hperm.length_eq
  rw [beq, Bool.and_eq_true]
  refine ⟨by simp [toItems, hlen], beqItems_iff.mpr ?_⟩
  intro p hp
  obtain ⟨⟨k, v⟩, hmem, rfl⟩ := mem_map.mp hp
  obtain ⟨v', hv', hbeq⟩ := hval k v hmem
  rw [beqItem, find_toItems hy hv']
  exact hbeq

inductive Same : Dynamic F → Dynamic F → Prop
  | null : Same null null
  | bool (b : Bool) : Same (bool b) (bool b)
  | int64 (i : Int64) : Same (int64 i) (int64 i)
  | string (s : List UInt8) : Same (string s) (string s)
  | array (ps : List (Dynamic F × Dynamic F)) (h : ∀ p ∈ ps, Same p.1 p.2) :
      Same (array (ps.map Prod.fst)) (array (ps.map Prod.snd))
  | object (xs ys : List (List UInt8 × Dynamic F)) (hx : (xs.map Prod.fst).Nodup)
      (hy : (ys.map Prod.fst).Nodup)
      (hnames : ∀ k, k ∈ xs.map Prod.fst ↔ k ∈ ys.map Prod.fst)
      (h : ∀ k v w, (k, v) ∈ xs → (k, w) ∈ ys → Same v w) :
      Same (object (toItems xs)) (object (toItems ys))

lemma Same.beq {v w : Dynamic F} (h : Same v w) : v.beq w = true := by
  induction h with
  | null | bool b | int64 i | string s => simp [Dynamic.beq]
  | array ps _ ih =>
    rw [Dynamic.beq]
    induction ps with
    | nil => simp [beqList]
    | cons p ps ihs =>
      obtain ⟨hp, hps⟩ := forall_mem_cons.mp ih
      rename_i hsame
      rw [map_cons, map_cons, beqList, hp,
        ihs (forall_mem_cons.mp hsame).2 hps]
      rfl
  | object xs ys hx hy hnames _ ih =>
    refine beq_object hx hy ?_ ?_
    · intro k v hk
      obtain ⟨⟨k', w⟩, hw, rfl⟩ :=
        mem_map.mp ((hnames k).mp (mem_map.mpr ⟨(k, v), hk, rfl⟩))
      exact ⟨w, hw, ih k' v w hk hw⟩
    intro k w hk
    obtain ⟨⟨k', v⟩, hv, rfl⟩ :=
      mem_map.mp ((hnames k).mpr (mem_map.mpr ⟨(k, w), hk, rfl⟩))
    exact ⟨v, hv⟩

omit [Double F] in
lemma same_array {xs ys : List (Dynamic F)} (h : List.Forall₂ Same xs ys) :
    Same (array xs) (array ys) := by
  have hzip := Same.array (xs.zip ys) (by
    intro p hp
    exact forall₂_zip h hp)
  rwa [map_fst_zip h.length_eq.le, map_snd_zip h.length_eq.ge] at hzip

omit [Double F] in
lemma same_emptyObject : Same (object [] : Dynamic F) (object []) :=
  .object [] [] nodup_nil nodup_nil (fun _ => Iff.rfl)
    fun _ _ _ h _ => absurd h not_mem_nil

end NamedEquality

end Dynamic

end Acc
