import Accelerator.Thread.ConcurrentSkipList

namespace Acc.Thread.ConcurrentSkipList

open Function List Nat

variable {T : Type*}

lemma findNodeDownRight_eq {P : Params T} (hlt : StrictWeakOrder P.lt) {fuel : Nat} (hfuel : 0 < fuel)
    (s : SkipList T) (x : T) : findNodeDownRight P fuel s x = findNodeRightDown P fuel s x := by
  obtain ⟨fuel, rfl⟩ := exists_eq_succ_of_ne_zero hfuel.ne'
  suffices h : ∀ layers pred node, downRight P s.nodes x (fuel + 1) layers pred node
      = rightDown P s.nodes x (fuel + 1) layers pred node from h _ _ _
  intro layers
  induction layers with
  | zero => exact fun _ _ => rfl
  | succ layer ih =>
    intro pred node
    rw [downRight, rightDown]
    split
    · rename_i hless
      have hgreater : greater P s.nodes x ((s.nodes pred).skip layer) = false := by
        rw [greater, Bool.and_eq_false_iff, decide_eq_false_iff_not, not_not]
        rw [less, Bool.or_eq_true, decide_eq_true_eq] at hless
        exact hless.imp_right fun h => hlt.asymm h
      have hwalk : walk P s.nodes x layer (fuel + 1) pred ((s.nodes pred).skip layer)
          = some (pred, (s.nodes pred).skip layer) := by
        rw [walk, hgreater]
        rfl
      simp only [hwalk, hless, if_true]
      exact ih _ _
    split
    · rfl
    · split
      · exact ih _ _
      · rfl

def values (s : SkipList T) (l : List Ptr) : List T := l.map fun n => (s.nodes n).data

structure Shape (P : Params T) (s : SkipList T) (l : List Ptr) : Prop where
  sorted : SortedSet.Sorted P.lt (values s l)
  layers : ∀ k < s.height, Chain (fun n => (s.nodes n).skip k) null s.head
    (s.head :: l.filter fun n => k < (s.nodes n).height)
  heights : ∀ n ∈ l, 0 < (s.nodes n).height ∧ (s.nodes n).height ≤ s.height
  height : 0 < s.height ∧ s.height ≤ P.maxHeight
  live : ∀ n ∈ l, (s.nodes n).marked = false ∧ (s.nodes n).fullyLinked = true ∧
    (s.nodes n).isHead = false
  head : (s.nodes s.head).marked = false ∧ (s.nodes s.head).isHead = true
  places : s.head < s.fresh ∧ ∀ n ∈ l, n < s.fresh
  dead : ∀ n, n ≠ null → n < s.fresh → n ≠ s.head → n ∉ l → (s.nodes n).marked = true
  size : s.size = l.length

section Shape

variable {P : Params T} {s : SkipList T} {l : List Ptr} (h : Shape P s l)
include h

lemma Shape.bottom : Chain (fun n => (s.nodes n).skip 0) null s.head (s.head :: l) := by
  have hchain := h.layers 0 h.height.1
  have hall : l.filter (fun n => 0 < (s.nodes n).height) = l :=
    filter_eq_self.mpr fun n hn => decide_eq_true (h.heights n hn).1
  rwa [hall] at hchain

lemma Shape.nodup : (s.head :: l).Nodup := h.bottom.nodup

lemma Shape.ne_null : ∀ n ∈ l, n ≠ null :=
  fun n hn => h.bottom.ne_nil n (mem_cons_of_mem _ hn)

lemma Shape.head_notMem : s.head ∉ l := (nodup_cons.mp h.nodup).1

end Shape

section Split

variable (P : Params T) (s : SkipList T) (l : List Ptr) (x : T)

def lower : List Ptr := l.takeWhile fun n => P.lt (s.nodes n).data x

def upper : List Ptr := l.dropWhile fun n => P.lt (s.nodes n).data x

def lowerOn (k : Nat) : List Ptr := (lower P s l x).filter fun n => k < (s.nodes n).height

def upperOn (k : Nat) : List Ptr := (upper P s l x).filter fun n => k < (s.nodes n).height

def pred (k : Nat) : Ptr := (lowerOn P s l x k).getLastD s.head

def succ (k : Nat) : Ptr := (upperOn P s l x k).headD null

def target : Option Ptr := (upper P s l x).head?.filter fun n => !P.lt x (s.nodes n).data

variable {P s l x}

lemma lower_append_upper : lower P s l x ++ upper P s l x = l := takeWhile_append_dropWhile

lemma lowerOn_append_upperOn (k : Nat) : lowerOn P s l x k ++ upperOn P s l x k
    = l.filter fun n => k < (s.nodes n).height := by
  rw [lowerOn, upperOn, ← filter_append, lower_append_upper]

variable {n : Ptr}

lemma mem_lower (hn : n ∈ lower P s l x) : n ∈ l :=
  (takeWhile_sublist _).subset hn

lemma mem_upper (hn : n ∈ upper P s l x) : n ∈ l :=
  (dropWhile_sublist _).subset hn

lemma lt_of_mem_lower (hn : n ∈ lower P s l x) : P.lt (s.nodes n).data x = true :=
  mem_takeWhile_imp (p := fun n => P.lt (s.nodes n).data x) hn

lemma mem_lowerOn {k : Nat} :
    n ∈ lowerOn P s l x k ↔ n ∈ lower P s l x ∧ k < (s.nodes n).height := by
  simp [lowerOn]

lemma mem_upperOn {k : Nat} :
    n ∈ upperOn P s l x k ↔ n ∈ upper P s l x ∧ k < (s.nodes n).height := by
  simp [upperOn]

lemma pred_mem (k : Nat) :
    pred P s l x k = s.head ∨ pred P s l x k ∈ lower P s l x ∧ k < (s.nodes (pred P s l x k)).height := by
  rw [pred]
  cases hlist : lowerOn P s l x k with
  | nil => exact .inl rfl
  | cons n rest =>
    refine .inr (mem_lowerOn.mp ?_)
    rw [hlist, getLastD_cons]
    exact getLastD_mem_cons

lemma values_lower : values s (lower P s l x) = (values s l).takeWhile fun y => P.lt y x := by
  rw [values, values, takeWhile_map]
  rfl

lemma values_upper : values s (upper P s l x) = (values s l).dropWhile fun y => P.lt y x := by
  rw [values, values, dropWhile_map]
  rfl

end Split

lemma walk_eq {P : Params T} {nodes : Ptr → Node T} {x : T} {k : Nat} {c d : List Ptr} :
    ∀ {fuel : Nat} {pred node : Ptr}, Chain (fun n => (nodes n).skip k) null node (c ++ d) →
      (∀ n ∈ c, P.lt (nodes n).data x = true) → (∀ n ∈ d.head?, P.lt (nodes n).data x = false) →
      c.length < fuel → walk P nodes x k fuel pred node = some (c.getLastD pred, d.headD null) := by
  induction c with
  | nil =>
    intro fuel pred node hchain _ hd hfuel
    obtain ⟨fuel, rfl⟩ := exists_eq_succ_of_ne_zero hfuel.ne'
    have hgreater : greater P nodes x node = false := by
      cases hchain with
      | nil => rfl
      | @cons n rest hn _ => simp [greater, hd node rfl]
    rw [walk, hgreater]
    exact congrArg (fun n => some (pred, n)) hchain.eq_headD
  | cons n c ih =>
    intro fuel pred node hchain hc hd hfuel
    obtain ⟨fuel, rfl⟩ := exists_eq_succ_of_ne_zero (Nat.ne_zero_of_lt hfuel)
    cases hchain with
    | cons hn rest =>
      have hgreater : greater P nodes x n = true := by
        rw [greater, hc n mem_cons_self, Bool.and_true]
        exact decide_eq_true hn
      rw [walk, hgreater, if_pos rfl, getLastD_cons]
      exact ih rest (fun n hn => hc n (mem_cons_of_mem _ hn)) hd (lt_of_succ_lt_succ hfuel)

section Search

variable {P : Params T} {s : SkipList T} {l : List Ptr} {x : T} {k : Nat}

lemma Shape.layer (h : Shape P s l) (hk : k < s.height) : Chain (fun n => (s.nodes n).skip k) null
    s.head (s.head :: (lowerOn P s l x k ++ upperOn P s l x k)) := by
  rw [lowerOn_append_upperOn]
  exact h.layers k hk

lemma Shape.not_lt_upper (h : Shape P s l) (hlt : StrictWeakOrder P.lt) :
    ∀ n ∈ upper P s l x, P.lt (s.nodes n).data x = false := by
  intro n hn
  refine SortedSet.not_lt_of_mem_dropWhile hlt h.sorted _ ?_
  rw [← values_upper]
  exact mem_map_of_mem hn

variable {fuel : Nat}

lemma Shape.walk (h : Shape P s l) (hlt : StrictWeakOrder P.lt)
    (hfuel : l.length < fuel) (hk : k < s.height) {p : Ptr}
    (hp : p = s.head ∨ p ∈ lower P s l x ∧ k < (s.nodes p).height) :
    walk P s.nodes x k fuel p ((s.nodes p).skip k) = some (pred P s l x k, succ P s l x k) := by
  obtain ⟨c, hchain, hsuffix, hlast⟩ :=
    (h.layer hk).after_mem (mem_cons.mpr (hp.imp_right mem_lowerOn.mpr))
  have hlength : c.length ≤ l.length := calc
    c.length ≤ (lowerOn P s l x k).length := hsuffix.length_le
    _ ≤ (lower P s l x).length := length_filter_le ..
    _ ≤ l.length := (takeWhile_sublist _).length_le
  have hlower : ∀ n ∈ c, P.lt (s.nodes n).data x = true := fun n hn =>
    lt_of_mem_lower (mem_lowerOn.mp (hsuffix.subset hn)).1
  have hupper : ∀ n ∈ (upperOn P s l x k).head?, P.lt (s.nodes n).data x = false := fun n hn =>
    h.not_lt_upper hlt n (mem_upperOn.mp (mem_of_mem_head? hn)).1
  rw [walk_eq hchain hlower hupper (by omega), hlast]
  rfl

lemma Shape.skip_pred (h : Shape P s l) (hk : k < s.height) :
    (s.nodes (pred P s l x k)).skip k = succ P s l x k :=
  (h.layer hk).after_last.eq_headD

variable {d : Ptr}

lemma target_eq_some : target P s l x = some d ↔
    (upper P s l x).head? = some d ∧ P.lt x (s.nodes d).data = false := by
  rw [target, Option.filter_eq_some_iff]
  simp

lemma Shape.less_succ (h : Shape P s l) (hlt : StrictWeakOrder P.lt) :
    less P s.nodes x (succ P s l x k) = false ↔
      target P s l x = some (succ P s l x k) ∧ k < (s.nodes (succ P s l x k)).height := by
  constructor
  · intro hless
    rw [less, Bool.or_eq_false_iff, decide_eq_false_iff_not] at hless
    obtain ⟨hnull, hx⟩ := hless
    cases hlist : upperOn P s l x k with
    | nil => exact absurd (by rw [succ, hlist]; rfl) hnull
    | cons d rest =>
      have hsucc : succ P s l x k = d := by
        rw [succ, hlist]
        rfl
      rw [hsucc] at hx ⊢
      have hd : d ∈ upper P s l x ∧ k < (s.nodes d).height :=
        mem_upperOn.mp (hlist ▸ mem_cons_self)
      refine ⟨target_eq_some.mpr ⟨?_, hx⟩, hd.2⟩
      cases hup : upper P s l x with
      | nil =>
        rw [hup] at hd
        cases hd.1
      | cons b rest' =>
        have hsorted : SortedSet.Sorted P.lt (values s (b :: rest')) := by
          rw [← hup, values_upper]
          exact h.sorted.sublist (dropWhile_sublist _)
        rcases mem_cons.mp (hup ▸ hd.1) with rfl | hlater
        · rfl
        have hbd := rel_of_pairwise_cons hsorted (mem_map_of_mem hlater)
        have hb := h.not_lt_upper hlt (x := x) b (hup ▸ mem_cons_self)
        rcases hlt.cotrans x hbd with hbx | hxd
        · rw [hb] at hbx
          cases hbx
        · rw [hx] at hxd
          cases hxd
  rintro ⟨htarget, -⟩
  obtain ⟨hhead, hx⟩ := target_eq_some.mp htarget
  have hne := h.ne_null _ (mem_upper (mem_of_mem_head? hhead))
  rw [less, hx, Bool.or_false]
  exact decide_eq_false hne

lemma succ_of_target (ht : target P s l x = some d) (hk : k < (s.nodes d).height) :
    succ P s l x k = d := by
  obtain ⟨hhead, -⟩ := target_eq_some.mp ht
  obtain ⟨rest, hup⟩ := head?_eq_some_iff.mp hhead
  have hpos : decide (k < (s.nodes d).height) = true := decide_eq_true hk
  rw [succ, upperOn, hup, filter_cons, hpos]
  rfl

lemma Shape.succ_zero (h : Shape P s l) : succ P s l x 0 = (upper P s l x).headD null := by
  have hall : upperOn P s l x 0 = upper P s l x :=
    filter_eq_self.mpr fun n hn => decide_eq_true (h.heights n (mem_upper hn)).1
  rw [succ, hall]

lemma Shape.target_height (h : Shape P s l) (ht : target P s l x = some d) :
    d ∈ l ∧ 0 < (s.nodes d).height ∧ (s.nodes d).height ≤ s.height := by
  have hd := mem_upper (mem_of_mem_head? (target_eq_some.mp ht).1)
  exact ⟨hd, h.heights d hd⟩

lemma Shape.rightDown (h : Shape P s l) (hlt : StrictWeakOrder P.lt)
    (hfuel : l.length < fuel) : ∀ {layer : Nat} {p : Ptr} (node : Ptr), layer < s.height →
      (p = s.head ∨ p ∈ lower P s l x ∧ layer < (s.nodes p).height) →
      rightDown P s.nodes x fuel (layer + 1) p node
        = some ((upper P s l x).headD null, (target P s l x).isSome) := by
  intro layer
  induction layer with
  | zero =>
    intro p node hk hp
    rw [ConcurrentSkipList.rightDown, h.walk hlt hfuel hk hp]
    show (if less P s.nodes x (succ P s l x 0) then some (succ P s l x 0, false)
      else some (succ P s l x 0, true)) = _
    rw [← h.succ_zero]
    cases hless : less P s.nodes x (succ P s l x 0) with
    | false =>
      rw [((h.less_succ hlt).mp hless).1]
      rfl
    | true =>
      cases ht : target P s l x with
      | none => rfl
      | some d =>
        have hsucc := succ_of_target ht (h.target_height ht).2.1
        have := (h.less_succ hlt (k := 0)).mpr
          ⟨hsucc ▸ ht, hsucc ▸ (h.target_height ht).2.1⟩
        rw [hless] at this
        cases this
  | succ layer ih =>
    intro p node hk hp
    rw [ConcurrentSkipList.rightDown, h.walk hlt hfuel hk hp]
    show (if less P s.nodes x (succ P s l x (layer + 1)) then
        ConcurrentSkipList.rightDown P s.nodes x fuel (layer + 1) (pred P s l x (layer + 1)) _
      else some (succ P s l x (layer + 1), true)) = _
    cases hless : less P s.nodes x (succ P s l x (layer + 1)) with
    | true =>
      exact ih (succ P s l x (layer + 1)) (lt_of_succ_lt hk)
        ((pred_mem (layer + 1)).imp_right fun hp => ⟨hp.1, lt_of_succ_lt hp.2⟩)
    | false =>
      have ht := ((h.less_succ hlt).mp hless).1
      have hhead := (target_eq_some.mp ht).1
      rw [ht, headD_eq_head?_getD, hhead]
      rfl

lemma Shape.findNode (h : Shape P s l) (hlt : StrictWeakOrder P.lt)
    (hfuel : l.length < fuel) : findNode P fuel s x
      = some ((upper P s l x).headD null, (target P s l x).isSome) := by
  obtain ⟨layer, hlayer⟩ := exists_eq_succ_of_ne_zero h.height.1.ne'
  rw [ConcurrentSkipList.findNode, findNodeDownRight_eq hlt (by omega), findNodeRightDown, hlayer]
  exact h.rightDown hlt hfuel null (by omega) (.inl rfl)

def foundFrom (P : Params T) (s : SkipList T) (l : List Ptr) (x : T) (k : Nat) : Option (Nat × Ptr) :=
  (target P s l x).bind fun d =>
    if k < (s.nodes d).height then some ((s.nodes d).height - 1, d) else none

lemma Shape.foundFrom_step (h : Shape P s l) (hlt : StrictWeakOrder P.lt) :
    (if foundFrom P s l x (k + 1) = none ∧ less P s.nodes x (succ P s l x k) = false
      then some (k, succ P s l x k) else foundFrom P s l x (k + 1)) = foundFrom P s l x k := by
  simp only [h.less_succ hlt]
  cases ht : target P s l x with
  | none =>
    have hnone : ∀ j, foundFrom P s l x j = none := by
      intro j
      rw [foundFrom, ht]
      rfl
    rw [hnone, hnone, if_neg]
    exact fun h => nomatch h.2.1
  | some d =>
    have hfound : ∀ j, foundFrom P s l x j
        = if j < (s.nodes d).height then some ((s.nodes d).height - 1, d) else none := by
      intro j
      rw [foundFrom, ht]
      rfl
    rw [hfound, hfound]
    by_cases hk : k < (s.nodes d).height
    · have hsucc := succ_of_target ht hk
      rw [hsucc, if_pos hk]
      by_cases hk' : k + 1 < (s.nodes d).height
      · rw [if_pos hk', if_neg]
        exact fun h => nomatch h.1
      · have htop : (s.nodes d).height - 1 = k := by omega
        rw [if_neg hk', if_pos ⟨rfl, rfl, hk⟩, htop]
    rw [if_neg hk, if_neg (fun h => hk (lt_of_succ_lt h)), if_neg]
    rintro ⟨-, hd, hlt'⟩
    cases hd
    exact hk hlt'

lemma foundFrom_succ : (match foundFrom P s l x k with
    | some (_, foundNode) => foundNode
    | none => succ P s l x k) = succ P s l x k := by
  cases ht : target P s l x with
  | none => rw [foundFrom, ht]; rfl
  | some d =>
    rw [foundFrom, ht]
    show (match (if k < (s.nodes d).height then some ((s.nodes d).height - 1, d) else none) with
      | some (_, foundNode) => foundNode
      | none => succ P s l x k) = succ P s l x k
    split
    · rename_i heq
      split at heq
      · rename_i hk
        cases heq
        exact (succ_of_target ht hk).symm
      · cases heq
    · rfl

lemma if_lt_update (f g : Nat → Ptr) (layer k : Nat) :
    (if k < layer then f k else update g layer (f layer) k)
      = if k < layer + 1 then f k else g k := by
  rcases lt_trichotomy k layer with hk | rfl | hk
  · rw [if_pos hk, if_pos (lt_succ_of_lt hk)]
  · simp
  · rw [if_neg (Nat.not_lt.mpr hk.le), if_neg (Nat.not_lt.mpr hk), update_of_ne hk.ne']

lemma Shape.findInsertionPointLoop (h : Shape P s l) (hlt : StrictWeakOrder P.lt)
    (hfuel : l.length < fuel) : ∀ {layers : Nat} {p : Ptr} {r : Found}, layers ≤ s.height →
      (p = s.head ∨ p ∈ lower P s l x ∧ layers ≤ (s.nodes p).height) →
      r.found = foundFrom P s l x layers →
      ∃ r', findInsertionPointLoop P s.nodes x fuel layers p r = some r' ∧
        r'.found = foundFrom P s l x 0 ∧
        (∀ k, r'.preds k = if k < layers then pred P s l x k else r.preds k) ∧
        ∀ k, r'.succs k = if k < layers then succ P s l x k else r.succs k := by
  intro layers
  induction layers with
  | zero =>
    intro p r _ _ hfound
    exact ⟨r, rfl, hfound, fun k => (if_neg (Nat.not_lt_zero k)).symm,
      fun k => (if_neg (Nat.not_lt_zero k)).symm⟩
  | succ layer ih =>
    intro p r hlayers hp hfound
    have hstep : ConcurrentSkipList.findInsertionPointLoop P s.nodes x fuel (layer + 1) p r
        = ConcurrentSkipList.findInsertionPointLoop P s.nodes x fuel layer (pred P s l x layer)
            ⟨foundFrom P s l x layer, update r.preds layer (pred P s l x layer),
              update r.succs layer (succ P s l x layer)⟩ := by
      rw [ConcurrentSkipList.findInsertionPointLoop, h.walk hlt hfuel hlayers hp]
      simp only [hfound, h.foundFrom_step hlt]
      exact congrArg (fun n => ConcurrentSkipList.findInsertionPointLoop P s.nodes x fuel layer _
        ⟨_, _, update r.succs layer n⟩) foundFrom_succ
    obtain ⟨r', hr', hfound', hpreds, hsuccs⟩ := ih (p := pred P s l x layer)
      (r := ⟨foundFrom P s l x layer, update r.preds layer (pred P s l x layer),
        update r.succs layer (succ P s l x layer)⟩) (le_of_succ_le hlayers)
      ((pred_mem layer).imp_right fun hp => ⟨hp.1, hp.2.le⟩) rfl
    exact ⟨r', hstep.trans hr', hfound', fun k => (hpreds k).trans (if_lt_update ..),
      fun k => (hsuccs k).trans (if_lt_update ..)⟩

lemma Shape.findInsertionPoint (h : Shape P s l) (hlt : StrictWeakOrder P.lt)
    (hfuel : l.length < fuel) : ∃ preds succs, findInsertionPoint P fuel s x
        = some ⟨(target P s l x).map fun d => ((s.nodes d).height - 1, d), preds, succs⟩ ∧
      (∀ k < s.height, preds k = pred P s l x k) ∧ ∀ k < s.height, succs k = succ P s l x k := by
  have hnone : foundFrom P s l x s.height = none := by
    cases ht : target P s l x with
    | none => rw [foundFrom, ht]; rfl
    | some d =>
      rw [foundFrom, ht]
      exact if_neg (Nat.not_lt.mpr (h.target_height ht).2.2)
  have hall : foundFrom P s l x 0 = (target P s l x).map fun d => ((s.nodes d).height - 1, d) := by
    cases ht : target P s l x with
    | none => rw [foundFrom, ht]; rfl
    | some d =>
      rw [foundFrom, ht]
      exact if_pos (h.target_height ht).2.1
  obtain ⟨⟨found, preds, succs⟩, hr, hfound, hpreds, hsuccs⟩ := h.findInsertionPointLoop hlt hfuel
    (p := s.head) (r := ⟨none, fun _ => null, fun _ => null⟩) le_rfl (.inl rfl) hnone.symm
  obtain rfl : found = _ := hfound.trans hall
  exact ⟨preds, succs, hr, fun k hk => (hpreds k).trans (if_pos hk),
    fun k hk => (hsuccs k).trans (if_pos hk)⟩

lemma Shape.succs_target (h : Shape P s l) {succs : Nat → Ptr}
    (hsuccs : ∀ k < s.height, succs k = succ P s l x k) (hd : target P s l x = some d) :
    succs ((s.nodes d).height - 1) = d := by
  obtain ⟨-, hpos, hle⟩ := h.target_height hd
  rw [hsuccs _ (by omega), succ_of_target hd (sub_lt hpos Nat.one_pos)]

end Search

end Acc.Thread.ConcurrentSkipList
