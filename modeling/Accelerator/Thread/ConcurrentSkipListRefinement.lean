import Accelerator.Thread.ConcurrentSkipListSearch

namespace Acc.Thread.ConcurrentSkipList

open Function List Option Nat

variable {T : Type*}

section Writes

variable (nodes : Ptr → Node T)

lemma setSkip_apply (n p next : Ptr) (k : Nat) : setSkip nodes n k next p
    = { nodes p with skip := fun j => if p = n ∧ j = k then next else (nodes p).skip j } := by
  by_cases hp : p = n
  · subst hp
    rw [setSkip, modify, update_self]
    congr 1
    funext j
    simp [update_apply]
  · rw [setSkip, modify, update_of_ne hp]
    simp [hp]

lemma setMarkedForRemoval_apply (n p : Ptr) : setMarkedForRemoval nodes n p
    = { nodes p with marked := decide (p = n) || (nodes p).marked } := by
  by_cases hp : p = n
  · subst hp
    rw [setMarkedForRemoval, modify, update_self]
    simp
  · rw [setMarkedForRemoval, modify, update_of_ne hp]
    simp [hp]

lemma setFullyLinked_apply (n p : Ptr) : setFullyLinked nodes n p
    = { nodes p with fullyLinked := decide (p = n) || (nodes p).fullyLinked } := by
  by_cases hp : p = n
  · subst hp
    rw [setFullyLinked, modify, update_self]
    simp
  · rw [setFullyLinked, modify, update_of_ne hp]
    simp [hp]

lemma link_apply {n : Ptr} {preds : Nat → Ptr} (succs : Nat → Ptr) (p : Ptr) :
    ∀ {k : Nat}, (∀ j < k, preds j ≠ n) → link n preds succs nodes k p
      = { nodes p with skip := fun j => if j < k then
            if p = preds j then n else if p = n then succs j else (nodes p).skip j
          else (nodes p).skip j } := by
  intro k
  induction k with
  | zero => intro _; rfl
  | succ k ih =>
    intro hne
    rw [link, setSkip_apply, setSkip_apply, ih fun j hj => hne j (lt_succ_of_lt hj)]
    grind

lemma unlink_apply {d : Ptr} {preds : Nat → Ptr} (p : Ptr) :
    ∀ {k : Nat} (nodes : Ptr → Node T), (∀ j < k, preds j ≠ d) → unlink d preds k nodes p
      = { nodes p with skip := fun j =>
            if j < k ∧ p = preds j then (nodes d).skip j else (nodes p).skip j } := by
  intro k
  induction k with
  | zero =>
    simp [unlink]
  | succ k ih =>
    intro nodes hne
    rw [unlink, ih _ fun j hj => hne j (lt_succ_of_lt hj), setSkip_apply, setSkip_apply]
    grind

end Writes

variable {preds succs : Nat → Ptr}

lemma lockNodesForChange_eq {nodes : Ptr → Node T} {adding : Bool} (others : List Ptr) {m : Nat}
    (valid : ∀ k < m, (nodes (preds k)).marked = false ∧ (nodes (preds k)).skip k = succs k ∧
      (adding = true → succs k = null ∨ (nodes (succs k)).marked = false))
    (between : ∀ i j k, i ≤ j → j ≤ k → k < m → preds i = preds k → preds j = preds k)
    (apart : ∀ k < m, preds k ∉ others) :
    ∀ {n layer : Nat} {prevPred : Option Ptr} {held : List Ptr}, layer + n = m →
      (∀ p ∈ held, p ∈ others ∨ ∃ j < layer, preds j = p) →
      (∀ j, layer = j + 1 → prevPred = some (preds j)) →
      lockNodesForChange nodes preds succs adding n layer prevPred held = some true := by
  intro n
  induction n with
  | zero => intros; rfl
  | succ n ih =>
    intro layer prevPred held hm hheld hprev
    have hlayer : layer < m := by omega
    have hgo : ∀ held', (∀ p ∈ held', p ∈ others ∨ ∃ j < layer + 1, preds j = p) →
        lockNodesForChange nodes preds succs adding n (layer + 1) (some (preds layer)) held'
          = some true := by
      intro held' hheld'
      refine ih (by omega) hheld' fun j hj => ?_
      obtain rfl : layer = j := Nat.succ.inj hj
      rfl
    have hmore : ∀ p ∈ held, p ∈ others ∨ ∃ j < layer + 1, preds j = p := fun p hp =>
      (hheld p hp).imp_right fun ⟨j, hj, h⟩ => ⟨j, lt_succ_of_lt hj, h⟩
    rw [lockNodesForChange]
    simp only [if_pos (valid layer hlayer)]
    by_cases hsame : some (preds layer) = prevPred
    · rw [if_pos hsame]
      exact hgo held hmore
    have hnew : preds layer ∉ held := by
      intro hin
      rcases hheld _ hin with hother | ⟨j, hj, heq⟩
      · exact apart layer hlayer hother
      · obtain ⟨i, rfl⟩ := exists_eq_succ_of_ne_zero (Nat.ne_zero_of_lt hj)
        have := between j i (i + 1) (le_of_lt_succ hj) (le_succ i) hlayer heq
        exact hsame (by rw [hprev i rfl, this])
    rw [if_neg hsame, if_neg hnew]
    refine hgo _ fun p hp => ?_
    rcases mem_cons.mp hp with rfl | hp
    · exact .inr ⟨layer, lt_succ_self layer, rfl⟩
    · exact hmore p hp

section Layers

variable {P : Params T} {s : SkipList T} {l : List Ptr} {x : T} {k : Nat}

lemma Shape.pred_between (h : Shape P s l) {i j : Nat} (hij : i ≤ j) (hjk : j ≤ k)
    (heq : pred P s l x i = pred P s l x k) : pred P s l x j = pred P s l x k := by
  have hfilter : lowerOn P s l x j
      = (lowerOn P s l x i).filter fun n => j < (s.nodes n).height := by
    rw [lowerOn, lowerOn, List.filter_filter]
    refine List.filter_congr fun n _ => ?_
    rw [← Bool.decide_and]
    exact decide_eq_decide.mpr ⟨fun hj => ⟨hj, hij.trans_lt hj⟩, fun hj => hj.1⟩
  rcases eq_nil_or_concat (lowerOn P s l x i) with hnil | ⟨a, p, hconcat⟩
  · rw [← heq, pred, pred, hfilter, hnil]
    rfl
  rw [concat_eq_append] at hconcat
  have hp : pred P s l x i = p := by rw [pred, hconcat, getLastD_concat]
  have hmem : p ∈ l := mem_lower (mem_lowerOn.mp (hconcat ▸ mem_concat_self)).1
  rw [hp] at heq
  have hk : j < (s.nodes p).height := by
    rcases pred_mem (P := P) (s := s) (l := l) (x := x) k with hhead | ⟨-, hk⟩
    · exact absurd (heq.trans hhead ▸ hmem) h.head_notMem
    · exact hjk.trans_lt (heq ▸ hk)
  rw [← heq, pred, hfilter, hconcat, filter_append, filter_singleton, decide_eq_true hk,
    cond_true, getLastD_concat]

lemma Shape.pred_live (h : Shape P s l) : (s.nodes (pred P s l x k)).marked = false ∧
    pred P s l x k < s.fresh ∧ pred P s l x k ∉ upper P s l x := by
  rcases pred_mem (P := P) (s := s) (l := l) (x := x) k with hhead | ⟨hlower, -⟩
  · rw [hhead]
    exact ⟨h.head.1, h.places.1, fun hup => h.head_notMem (mem_upper hup)⟩
  refine ⟨(h.live _ (mem_lower hlower)).1, h.places.2 _ (mem_lower hlower), fun hup => ?_⟩
  have hnodup : (lower P s l x ++ upper P s l x).Nodup :=
    lower_append_upper (P := P) ▸ (nodup_cons.mp h.nodup).2
  exact (nodup_append.mp hnodup).2.2 _ hlower _ hup rfl

lemma succ_mem : succ P s l x k = null ∨ succ P s l x k ∈ upper P s l x := by
  rw [succ]
  cases hlist : upperOn P s l x k with
  | nil => exact .inl rfl
  | cons n rest => exact .inr (mem_upperOn.mp (hlist ▸ mem_cons_self)).1

lemma Shape.find_values (h : Shape P s l) (hlt : StrictWeakOrder P.lt) :
    SortedSet.find P.lt x (values s l) = (target P s l x).map fun n => (s.nodes n).data := by
  rw [SortedSet.find_eq hlt h.sorted, ← values_upper, values, List.head?_map, Option.filter_map]
  rfl

end Layers

variable {s s' : SkipList T} {l : List Ptr}

lemma values_congr
    (h : ∀ p ∈ l, (s'.nodes p).data = (s.nodes p).data) : values s' l = values s l :=
  map_congr_left h

variable {P : Params T}

lemma values_insert {x : T}
    (hnew : (s'.nodes s.fresh).data = x) (hold : ∀ p ∈ l, (s'.nodes p).data = (s.nodes p).data) :
    values s' (lower P s l x ++ s.fresh :: upper P s l x) = SortedSet.insert P.lt x (values s l) := by
  have hsame : ∀ m : List Ptr, (∀ p ∈ m, p ∈ l) → values s' m = values s m := fun m hm =>
    values_congr fun p hp => hold p (hm p hp)
  rw [SortedSet.insert, ← values_lower, ← values_upper, ← hsame _ fun _ => mem_lower,
    ← hsame _ fun _ => mem_upper, ← hnew]
  exact map_append

section Insert

variable {P : Params T} {s : SkipList T} {l : List Ptr} {x : T} (h : Shape P s l)
  {nodeHeight : Nat} {nodes : Ptr → Node T}
  (new : nodes s.fresh =
    { data := x, height := nodeHeight, fullyLinked := true
      skip := fun j => if j < nodeHeight then succ P s l x j else null })
  (old : ∀ p, p ≠ s.fresh → nodes p =
    { s.nodes p with
      skip := fun j => if j < nodeHeight ∧ p = pred P s l x j then s.fresh else (s.nodes p).skip j })
include h new old

lemma Shape.insert_layer {k : Nat} (hk : k < s.height) :
    Chain (fun n => (nodes n).skip k) null s.head
      (s.head :: (lower P s l x ++ s.fresh :: upper P s l x).filter fun n => k < (nodes n).height) := by
  have hne : ∀ p ∈ l, p ≠ s.fresh := fun p hp => (h.places.2 p hp).ne
  have hhead : s.head ≠ s.fresh := h.places.1.ne
  have hon : ∀ m : List Ptr, (∀ p ∈ m, p ∈ l) →
      m.filter (fun n => k < (nodes n).height) = m.filter fun n => k < (s.nodes n).height :=
    fun m hm => List.filter_congr fun p hp => by rw [old p (hne p (hm p hp))]
  have hsame : ∀ p, p ≠ s.fresh → (k < nodeHeight → p ≠ pred P s l x k) →
      (nodes p).skip k = (s.nodes p).skip k := by
    intro p hp hpred
    rw [old p hp]
    exact if_neg fun hk => hpred hk.1 hk.2
  have hlower : ∀ c ∈ s.head :: lowerOn P s l x k, c ≠ s.fresh := by
    intro c hc
    rcases mem_cons.mp hc with rfl | hc
    · exact hhead
    · exact hne c (mem_lower (mem_lowerOn.mp hc).1)
  have hupper : ∀ c ∈ upperOn P s l x k, c ≠ s.fresh := fun c hc =>
    hne c (mem_upper (mem_upperOn.mp hc).1)
  rw [filter_append, filter_cons, hon _ fun _ => mem_lower, hon _ fun _ => mem_upper, new]
  by_cases hlow : k < nodeHeight
  · rw [if_pos (decide_eq_true hlow)]
    refine (h.layer hk).replace_last (fun c hc hne' => hsame c (hlower c hc) fun _ => hne') ?_
    have hpred : (nodes (pred P s l x k)).skip k = s.fresh := by
      rw [old _ h.pred_live.2.1.ne]
      exact if_pos ⟨hlow, rfl⟩
    have hnew : (nodes s.fresh).skip k = succ P s l x k := by
      rw [new]
      exact if_pos hlow
    show Chain _ null ((nodes (pred P s l x k)).skip k) _
    rw [hpred]
    refine .cons (Nat.ne_zero_of_lt h.places.1) ?_
    rw [hnew, ← h.skip_pred hk]
    refine (h.layer hk).after_last.congr fun c hc => hsame c (hupper c hc) fun _ => ?_
    rintro rfl
    exact h.pred_live.2.2 (mem_upperOn.mp hc).1
  · rw [if_neg (by simpa using hlow)]
    refine (h.layer hk).congr fun c hc => hsame c ?_ fun hk => absurd hk hlow
    exact (mem_append.mp hc).elim (hlower c) (hupper c)

lemma Shape.insert (hlt : StrictWeakOrder P.lt) (hx : target P s l x = none) (hpos : 0 < nodeHeight)
    (hle : nodeHeight ≤ s.height) :
    Shape P { s with nodes, fresh := s.fresh + 1, size := s.size + 1 }
      (lower P s l x ++ s.fresh :: upper P s l x) := by
  have hne : ∀ p ∈ l, p ≠ s.fresh := fun p hp => (h.places.2 p hp).ne
  have hhead : s.head ≠ s.fresh := h.places.1.ne
  have hheight : (nodes s.head).height = s.height := by rw [old _ hhead]; rfl
  have hmem : ∀ p ∈ lower P s l x ++ s.fresh :: upper P s l x, p = s.fresh ∨ p ∈ l := by
    intro p hp
    rcases mem_append.mp hp with hp | hp
    · exact .inr (mem_lower hp)
    · exact (mem_cons.mp hp).imp_right mem_upper
  have hnew : (nodes s.fresh).data = x := by rw [new]
  have hold : ∀ p ∈ l, (nodes p).data = (s.nodes p).data := fun p hp => by rw [old p (hne p hp)]
  refine ⟨?_, fun k hk => h.insert_layer new old (hheight ▸ hk), fun p hp => ?_, ?_, fun p hp => ?_,
    ?_, ⟨lt_succ_of_lt h.places.1, fun p hp => ?_⟩, ?_, ?_⟩
  · rw [values_insert hnew hold]
    exact h.sorted.insert hlt (by rw [h.find_values hlt, hx]; rfl)
  · show 0 < (nodes p).height ∧ (nodes p).height ≤ (nodes s.head).height
    rw [hheight]
    rcases hmem p hp with rfl | hp
    · rw [new]
      exact ⟨hpos, hle⟩
    · rw [old p (hne p hp)]
      exact h.heights p hp
  · show 0 < (nodes s.head).height ∧ (nodes s.head).height ≤ P.maxHeight
    rw [hheight]
    exact h.height
  · show (nodes p).marked = false ∧ (nodes p).fullyLinked = true ∧ (nodes p).isHead = false
    rcases hmem p hp with rfl | hp
    · rw [new]
      exact ⟨rfl, rfl, rfl⟩
    · rw [old p (hne p hp)]
      exact h.live p hp
  · show (nodes s.head).marked = false ∧ (nodes s.head).isHead = true
    rw [old _ hhead]
    exact h.head
  · rcases hmem p hp with rfl | hp
    · exact lt_succ_self _
    · exact lt_succ_of_lt (h.places.2 p hp)
  · intro p hnull hlt' hp hnot
    have hfresh : p ≠ s.fresh := by
      rintro rfl
      exact hnot (mem_append_right _ mem_cons_self)
    have hl : p ∉ l := by
      intro hl
      rw [← lower_append_upper (P := P) (s := s) (l := l) (x := x)] at hl
      exact hnot (mem_append.mpr ((mem_append.mp hl).imp_right (mem_cons_of_mem _)))
    show (nodes p).marked = true
    rw [old p hfresh]
    exact h.dead p hnull (lt_of_le_of_ne (le_of_lt_succ hlt') hfresh) hp hl
  · show s.size + 1 = _
    rw [length_append, length_cons, h.size, ← Nat.add_assoc, ← length_append,
      lower_append_upper]

end Insert

section Erase

variable {P : Params T} {s : SkipList T} {l : List Ptr} {x : T} (h : Shape P s l) {d : Ptr}
  (hd : target P s l x = some d) {nodes : Ptr → Node T}
  (each : ∀ p, nodes p =
    { s.nodes p with
      marked := decide (p = d) || (s.nodes p).marked
      skip := fun j =>
        if j < (s.nodes d).height ∧ p = pred P s l x j then (s.nodes d).skip j else (s.nodes p).skip j })
include h hd each

lemma Shape.erase_layer {k : Nat} (hk : k < s.height) :
    Chain (fun n => (nodes n).skip k) null s.head
      (s.head :: (lower P s l x ++ (upper P s l x).tail).filter fun n => k < (nodes n).height) := by
  obtain ⟨rest, hup⟩ := head?_eq_some_iff.mp (target_eq_some.mp hd).1
  have hon : ∀ m : List Ptr, m.filter (fun n => k < (nodes n).height)
      = m.filter fun n => k < (s.nodes n).height :=
    fun m => List.filter_congr fun p _ => by rw [each p]
  have hsame : ∀ p, (k < (s.nodes d).height → p ≠ pred P s l x k) →
      (nodes p).skip k = (s.nodes p).skip k := by
    intro p hpred
    rw [each p]
    exact if_neg fun hk => hpred hk.1 hk.2
  have hchain := h.layer (x := x) hk
  have hupper : upperOn P s l x k = (if k < (s.nodes d).height then [d] else [])
      ++ rest.filter fun n => k < (s.nodes n).height := by
    rw [upperOn, hup, filter_cons]
    by_cases hlow : k < (s.nodes d).height <;> simp [hlow]
  rw [hon, filter_append, hup, tail_cons]
  rw [hupper] at hchain
  by_cases hlow : k < (s.nodes d).height
  · rw [if_pos hlow] at hchain
    refine hchain.replace_last (fun c _ hne => hsame c fun _ => hne) ?_
    have hpred : (nodes (pred P s l x k)).skip k = (s.nodes d).skip k := by
      rw [each]
      exact if_pos ⟨hlow, rfl⟩
    show Chain _ null ((nodes (pred P s l x k)).skip k) _
    rw [hpred]
    refine (Chain.after (l := []) hchain.after_last).congr fun c hc => hsame c fun _ => ?_
    rintro rfl
    exact h.pred_live.2.2 (hup ▸ mem_cons_of_mem d (mem_filter.mp hc).1)
  · rw [if_neg hlow] at hchain
    exact hchain.congr fun c _ => hsame c fun hk => absurd hk hlow

lemma Shape.erase : Shape P { s with nodes, size := s.size - 1 }
    (lower P s l x ++ (upper P s l x).tail) := by
  obtain ⟨rest, hup⟩ := head?_eq_some_iff.mp (target_eq_some.mp hd).1
  have hl : lower P s l x ++ d :: rest = l := hup ▸ lower_append_upper
  have hsub : (lower P s l x ++ rest).Sublist l := by
    conv_rhs => rw [← hl]
    exact (List.Sublist.refl _).append (sublist_cons_self d rest)
  have hnot : d ∉ lower P s l x ++ rest := by
    have hnodup := (nodup_cons.mp h.nodup).2
    rw [← hl] at hnodup
    exact (nodup_cons.mp (nodup_middle.mp hnodup)).1
  have hheight : (nodes s.head).height = s.height := by rw [each]; rfl
  have hhead : s.head ≠ d := by
    rintro rfl
    exact h.head_notMem (h.target_height hd).1
  have hdata : ∀ p, (nodes p).data = (s.nodes p).data := fun p => by rw [each p]
  have hlayer := fun k hk => h.erase_layer hd each (k := k) hk
  rw [hup, tail_cons] at hlayer ⊢
  refine ⟨?_, fun k hk => hlayer k (hheight ▸ hk), fun p hp => ?_, ?_, fun p hp => ?_, ?_,
    ⟨h.places.1, fun p hp => h.places.2 p (hsub.subset hp)⟩, ?_, ?_⟩
  · rw [values_congr fun p _ => hdata p]
    exact h.sorted.sublist (hsub.map _)
  · show 0 < (nodes p).height ∧ (nodes p).height ≤ (nodes s.head).height
    rw [hheight, each p]
    exact h.heights p (hsub.subset hp)
  · show 0 < (nodes s.head).height ∧ (nodes s.head).height ≤ P.maxHeight
    rw [hheight]
    exact h.height
  · show (nodes p).marked = false ∧ (nodes p).fullyLinked = true ∧ (nodes p).isHead = false
    have hp' : p ≠ d := by
      rintro rfl
      exact hnot hp
    obtain ⟨hmarked, hrest⟩ := h.live p (hsub.subset hp)
    rw [each p]
    exact ⟨by simp [hp', hmarked], hrest⟩
  · show (nodes s.head).marked = false ∧ (nodes s.head).isHead = true
    rw [each]
    exact ⟨by simp [hhead, h.head.1], h.head.2⟩
  · intro p hnull hlt' hp hout
    show (nodes p).marked = true
    rw [each p]
    by_cases hp' : p = d
    · rw [decide_eq_true hp', Bool.true_or]
    rw [h.dead p hnull hlt' hp ?_, Bool.or_true]
    rw [← hl, mem_append, mem_cons]
    rw [mem_append] at hout
    tauto
  · show s.size - 1 = _
    rw [h.size, ← congrArg List.length hl, length_append, length_append, length_cons]
    rfl

end Erase

lemma Shape.growHeight [Inhabited T] (h : Shape P s l)
    (hmax : s.height < P.maxHeight) : Shape P (growHeight s (s.height + 1)) l := by
  have hgrow : ConcurrentSkipList.growHeight s (s.height + 1)
      = { s with
          nodes := setMarkedForRemoval (update s.nodes s.fresh
            { data := default, height := s.height + 1, isHead := (s.nodes s.head).isHead
              marked := (s.nodes s.head).marked, fullyLinked := (s.nodes s.head).fullyLinked
              skip := fun k => if k < s.height then (s.nodes s.head).skip k else null }) s.head
          fresh := s.fresh + 1, head := s.fresh } :=
    if_neg (Nat.not_le.mpr (lt_succ_self s.height))
  rw [hgrow]
  generalize hnodes : setMarkedForRemoval (update s.nodes s.fresh _) s.head = nodes
  have hne : ∀ p ∈ l, p ≠ s.fresh := fun p hp => (h.places.2 p hp).ne
  have hnehead : ∀ p ∈ l, p ≠ s.head := fun p hp heq => h.head_notMem (heq ▸ hp)
  have hhead : s.fresh ≠ s.head := h.places.1.ne'
  have new : (nodes s.fresh).height = s.height + 1 ∧ (nodes s.fresh).marked = false ∧
      (nodes s.fresh).isHead = true ∧ ∀ k, (nodes s.fresh).skip k
        = if k < s.height then (s.nodes s.head).skip k else null := by
    rw [← hnodes, setMarkedForRemoval_apply, update_self]
    exact ⟨rfl, by simp [hhead, h.head.1], h.head.2, fun _ => rfl⟩
  have old : ∀ p, p ≠ s.fresh →
      nodes p = { s.nodes p with marked := decide (p = s.head) || (s.nodes p).marked } := by
    intro p hp
    rw [← hnodes, setMarkedForRemoval_apply, update_of_ne hp]
  have same : ∀ p ∈ l, nodes p = s.nodes p := by
    intro p hp
    rw [old p (hne p hp), decide_eq_false (hnehead p hp), Bool.false_or]
  refine ⟨?_, fun k hk => ?_, fun p hp => ?_, ?_, fun p hp => ?_, ⟨new.2.1, new.2.2.1⟩,
    ⟨lt_succ_self _, fun p hp => lt_succ_of_lt (h.places.2 p hp)⟩, ?_, h.size⟩
  · rw [values_congr fun p hp => congrArg Node.data (same p hp)]
    exact h.sorted
  · have hon : l.filter (fun n => k < (nodes n).height) = l.filter fun n => k < (s.nodes n).height :=
      List.filter_congr fun p hp => by rw [same p hp]
    show Chain (fun n => (nodes n).skip k) null s.fresh (s.fresh :: l.filter _)
    rw [hon]
    refine .cons (Nat.ne_zero_of_lt h.places.1) ?_
    replace hk : k < s.height + 1 := new.1 ▸ hk
    rw [new.2.2.2 k]
    rcases Nat.lt_succ_iff_lt_or_eq.mp hk with hk | rfl
    · rw [if_pos hk]
      refine (Chain.after (l := []) (h.layers k hk)).congr fun c hc => ?_
      rw [same c (mem_filter.mp hc).1]
    have hempty : l.filter (fun n => s.height < (s.nodes n).height) = [] :=
      filter_eq_nil_iff.mpr fun p hp => by simpa using (h.heights p hp).2
    rw [if_neg (lt_irrefl _), hempty]
    exact .nil
  · show 0 < (nodes p).height ∧ (nodes p).height ≤ (nodes s.fresh).height
    rw [same p hp, new.1]
    exact ⟨(h.heights p hp).1, le_succ_of_le (h.heights p hp).2⟩
  · show 0 < (nodes s.fresh).height ∧ (nodes s.fresh).height ≤ P.maxHeight
    rw [new.1]
    exact ⟨succ_pos _, hmax⟩
  · show (nodes p).marked = false ∧ (nodes p).fullyLinked = true ∧ (nodes p).isHead = false
    rw [same p hp]
    exact h.live p hp
  intro p hnull hlt' hp hout
  show (nodes p).marked = true
  rw [old p hp]
  by_cases hp' : p = s.head
  · rw [decide_eq_true hp', Bool.true_or]
  · rw [h.dead p hnull (lt_of_le_of_ne (le_of_lt_succ hlt') hp) hp' hout, Bool.or_true]

lemma growHeight_data [Inhabited T] (s : SkipList T) (height : Nat) {p : Ptr} (hp : p ≠ s.fresh) :
    ((growHeight s height).nodes p).data = (s.nodes p).data := by
  rw [growHeight]
  split
  · rfl
  · show (setMarkedForRemoval _ _ p).data = _
    rw [setMarkedForRemoval_apply, update_of_ne hp]

lemma getHeight_le {maxHeight : Nat} (draw : Nat) (hpos : 0 < maxHeight) :
    0 < getHeight maxHeight draw ∧ getHeight maxHeight draw ≤ maxHeight := by
  unfold getHeight
  split <;> omega

lemma removeMarked_eq {fuel : Nat} {x : T} {d : Ptr} {nodeHeight : Nat} (tries : Nat) {found : Option (Nat × Ptr)}
    (hlock : lockNodesForChange s.nodes preds succs false nodeHeight 0 none [d] = some true) :
    removeMarked P fuel s x d nodeHeight tries ⟨found, preds, succs⟩
      = some { s with nodes := unlink d preds nodeHeight s.nodes, size := s.size - 1 } := by
  unfold removeMarked
  simp only [hlock]

section Operations

variable {P : Params T} {s : SkipList T} {l : List Ptr} {fuel : Nat} (h : Shape P s l)
  (hlt : StrictWeakOrder P.lt) (hfuel : l.length < fuel) (x : T)
include h

section Splice

variable {x} {preds succs : Nat → Ptr} (hpreds : ∀ k < s.height, preds k = pred P s l x k)
  (hsuccs : ∀ k < s.height, succs k = succ P s l x k) {nodeHeight : Nat} (hle : nodeHeight ≤ s.height)
include hpreds hle

lemma Shape.preds_between (i j k : Nat) (hij : i ≤ j) (hjk : j ≤ k) (hk : k < nodeHeight) :
    preds i = preds k → preds j = preds k := by
  have hk : k < s.height := hk.trans_le hle
  rw [hpreds i ((hij.trans hjk).trans_lt hk), hpreds j (hjk.trans_lt hk), hpreds k hk]
  exact h.pred_between hij hjk

lemma Shape.preds_ne_fresh : ∀ j < nodeHeight, preds j ≠ s.fresh := by
  intro j hj
  rw [hpreds j (hj.trans_le hle)]
  exact h.pred_live.2.1.ne

lemma Shape.linked_old (after : Nat → Ptr) (p : Ptr) (hp : p ≠ s.fresh) :
    setFullyLinked (link s.fresh preds after
      (update s.nodes s.fresh { data := x, height := nodeHeight }) nodeHeight) s.fresh p =
    { s.nodes p with
      skip := fun j => if j < nodeHeight ∧ p = pred P s l x j then s.fresh else (s.nodes p).skip j } := by
  rw [setFullyLinked_apply, link_apply _ _ _ (h.preds_ne_fresh hpreds hle), update_of_ne hp,
    decide_eq_false hp, Bool.false_or]
  refine congrArg (fun skip => ({ s.nodes p with skip } : Node T)) (funext fun j => ?_)
  dsimp only
  by_cases hj : j < nodeHeight
  · rw [if_pos hj, if_neg hp, hpreds j (hj.trans_le hle)]
    simp only [hj, true_and]
  · rw [if_neg hj, if_neg fun h => hj h.1]

include hsuccs

lemma Shape.lock_add :
    lockNodesForChange s.nodes preds succs true nodeHeight 0 none [] = some true := by
  refine lockNodesForChange_eq [] (fun k hk => ?_) (h.preds_between hpreds hle)
    (fun _ _ => not_mem_nil) (Nat.zero_add _) nofun nofun
  rw [hpreds k (hk.trans_le hle), hsuccs k (hk.trans_le hle)]
  exact ⟨h.pred_live.1, h.skip_pred (hk.trans_le hle),
    fun _ => succ_mem.imp_right fun hup => (h.live _ (mem_upper hup)).1⟩

lemma Shape.linked_new : setFullyLinked (link s.fresh preds succs
      (update s.nodes s.fresh { data := x, height := nodeHeight }) nodeHeight) s.fresh s.fresh =
    { data := x, height := nodeHeight, fullyLinked := true
      skip := fun j => if j < nodeHeight then succ P s l x j else null } := by
  have hne := h.preds_ne_fresh hpreds hle
  rw [setFullyLinked_apply, link_apply _ _ _ hne, update_self, decide_eq_true rfl, Bool.true_or]
  refine congrArg (fun skip => ({ data := x, height := nodeHeight, fullyLinked := true, skip } : Node T))
    (funext fun j => ?_)
  dsimp only
  by_cases hj : j < nodeHeight
  · simp [if_neg (hne j hj).symm, hsuccs j (hj.trans_le hle)]
  · rw [if_neg hj, if_neg hj]

end Splice

include hlt hfuel

lemma Shape.add [Inhabited T] (draw tries : Nat) (hx : target P s l x = none) :
    ∃ s', addOrGetData P fuel s x draw (tries + 1) = some (s', s.fresh, s.size + 1) ∧
      Shape P s' (lower P s l x ++ s.fresh :: upper P s l x) ∧ (s'.nodes s.fresh).data = x ∧
      values s' (lower P s l x ++ s.fresh :: upper P s l x) = SortedSet.insert P.lt x (values s l) := by
  obtain ⟨preds, succs, hr, hpreds, hsuccs⟩ := h.findInsertionPoint hlt (x := x) hfuel
  rw [hx] at hr
  obtain ⟨hpos, hle⟩ := getHeight_le draw h.height.1
  have hresult : addOrGetData P fuel s x draw (tries + 1) = some
      (let nodes := setFullyLinked (link s.fresh preds succs (update s.nodes s.fresh
          { data := x, height := getHeight s.height draw }) (getHeight s.height draw)) s.fresh
        if (nodes s.head).height < P.maxHeight ∧ s.size + 1 > P.sizeLimit (nodes s.head).height
          then ConcurrentSkipList.growHeight { s with nodes, fresh := s.fresh + 1, size := s.size + 1 }
            ((nodes s.head).height + 1)
          else { s with nodes, fresh := s.fresh + 1, size := s.size + 1 }, s.fresh, s.size + 1) := by
    simp only [addOrGetData, hr, map_none, h.lock_add hpreds hsuccs hle]
    rfl
  have new := h.linked_new hpreds hsuccs hle
  have old := h.linked_old hpreds hle succs
  generalize setFullyLinked (link s.fresh preds succs (update s.nodes s.fresh _) _) s.fresh = nodes
    at new old hresult
  dsimp only at hresult
  have hadded := h.insert new old hlt hx hpos hle
  have hnew : (nodes s.fresh).data = x := by rw [new]
  have hold : ∀ p ∈ l, (nodes p).data = (s.nodes p).data := fun p hp => by
    rw [old p (h.places.2 p hp).ne]
  split at hresult
  · rename_i hgrow
    have hnew' := (growHeight_data { s with nodes, fresh := s.fresh + 1, size := s.size + 1 }
      ((nodes s.head).height + 1) (lt_succ_self s.fresh).ne).trans hnew
    refine ⟨_, hresult, hadded.growHeight hgrow.1, hnew', values_insert hnew' fun p hp => ?_⟩
    exact (growHeight_data _ _ (lt_succ_of_lt (h.places.2 p hp)).ne).trans (hold p hp)
  · exact ⟨_, hresult, hadded, hnew, values_insert hnew hold⟩

lemma Shape.get [Inhabited T] (draw tries : Nat) {d : Ptr} (hd : target P s l x = some d) :
    addOrGetData P fuel s x draw (tries + 1) = some (s, d, 0) := by
  obtain ⟨preds, succs, hr, -, hsuccs⟩ := h.findInsertionPoint hlt (x := x) hfuel
  have hmem := (h.target_height hd).1
  rw [hd] at hr
  rw [addOrGetData, hr]
  show (if (s.nodes (succs _)).marked = true then _ else if _ then _ else _) = _
  rw [h.succs_target hsuccs hd, (h.live d hmem).1, (h.live d hmem).2.1]
  rfl

lemma Shape.remove_none (tries : Nat) (hx : target P s l x = none) :
    remove P fuel s x tries = some (s, false) := by
  obtain ⟨preds, succs, hr, -, -⟩ := h.findInsertionPoint hlt (x := x) hfuel
  rw [hx] at hr
  rw [remove, hr]
  rfl

lemma Shape.remove_some (tries : Nat) {d : Ptr} (hd : target P s l x = some d) :
    ∃ s', remove P fuel s x tries = some (s', true) ∧
      Shape P s' (lower P s l x ++ (upper P s l x).tail) ∧
      values s' (lower P s l x ++ (upper P s l x).tail) = SortedSet.erase P.lt x (values s l) := by
  obtain ⟨preds, succs, hr, hpreds, hsuccs⟩ := h.findInsertionPoint hlt (x := x) hfuel
  obtain ⟨hmem, hpos, hle⟩ := h.target_height hd
  rw [hd] at hr
  have hok : okToDelete s d ((s.nodes d).height - 1) = true := by
    simp [okToDelete, h.live d hmem]
  have hne : ∀ k, pred P s l x k ≠ d := by
    intro k heq
    exact h.pred_live.2.2 (heq ▸ mem_of_mem_head? (target_eq_some.mp hd).1)
  have hlock : lockNodesForChange (setMarkedForRemoval s.nodes d) preds succs false
      (s.nodes d).height 0 none [d] = some true := by
    refine lockNodesForChange_eq [d] (fun k hk => ?_) (h.preds_between hpreds hle)
      (fun k hk => ?_) (Nat.zero_add _) (fun p hp => .inl hp) nofun
    · rw [hpreds k (hk.trans_le hle), hsuccs k (hk.trans_le hle), setMarkedForRemoval_apply,
        decide_eq_false (hne k)]
      exact ⟨h.pred_live.1, h.skip_pred (hk.trans_le hle), nofun⟩
    · rw [hpreds k (hk.trans_le hle), mem_singleton]
      exact hne k
  generalize hnodes : unlink d preds (s.nodes d).height (setMarkedForRemoval s.nodes d) = nodes
  have each : ∀ p, nodes p =
      { s.nodes p with
        marked := decide (p = d) || (s.nodes p).marked
        skip := fun j => if j < (s.nodes d).height ∧ p = pred P s l x j then (s.nodes d).skip j
          else (s.nodes p).skip j } := by
    intro p
    rw [← hnodes, unlink_apply p _ fun j hj => hpreds j (hj.trans_le hle) ▸ hne j,
      setMarkedForRemoval_apply, setMarkedForRemoval_apply]
    refine congrArg (fun skip => ({ s.nodes p with
      marked := decide (p = d) || (s.nodes p).marked, skip } : Node T)) (funext fun j => ?_)
    by_cases hj : j < (s.nodes d).height
    · rw [hpreds j (hj.trans_le hle)]
    · rw [if_neg fun h => hj h.1, if_neg fun h => hj h.1]
  have hsame : ∀ p, (nodes p).data = (s.nodes p).data := fun p => by rw [each p]
  refine ⟨_, ?_, h.erase hd each, ?_⟩
  · simp only [remove, hr, map_some, h.succs_target hsuccs hd, hok, if_true]
    rw [removeMarked_eq _ hlock, ← hnodes]
    rfl
  have hfound : SortedSet.find P.lt x (values s l) = some (s.nodes d).data := by
    rw [h.find_values hlt, hd]
    rfl
  rw [SortedSet.erase_of_find_eq_some hlt h.sorted hfound, ← values_lower, ← values_upper]
  simp [values, hsame]

lemma Shape.find : find P fuel s x = some ((target P s l x).getD null) := by
  rw [ConcurrentSkipList.find, h.findNode hlt hfuel, map_some]
  cases hd : target P s l x with
  | none => rfl
  | some d =>
    have hhead : (upper P s l x).headD null = d := by
      rw [headD_eq_head?_getD, (target_eq_some.mp hd).1]
      rfl
    rw [hhead, (h.live d (h.target_height hd).1).1]
    rfl

lemma Shape.lower_bound : lower_bound P fuel s x = some ((upper P s l x).headD null) := by
  rw [ConcurrentSkipList.lower_bound, h.findNode hlt hfuel, bind_some]
  obtain ⟨fuel, rfl⟩ := exists_eq_succ_of_ne_zero (Nat.ne_zero_of_lt hfuel)
  rw [skipMarked, if_neg]
  rintro ⟨hnull, hmarked⟩
  cases hup : upper P s l x with
  | nil => exact hnull (by rw [hup]; rfl)
  | cons d rest =>
    rw [hup, headD_cons, (h.live d (mem_upper (hup ▸ mem_cons_self))).1] at hmarked
    cases hmarked

omit hlt hfuel in
lemma Shape.first : first s = l.headD null := (Chain.after (l := []) h.bottom).eq_headD

omit h hlt hfuel in
lemma rightmost_eq {nodes : Ptr → Node T} {k : Nat} {c : List Ptr} : ∀ {fuel : Nat} {p : Ptr},
    Chain (fun n => (nodes n).skip k) null ((nodes p).skip k) c → c.length < fuel →
      rightmost nodes k fuel p = some (c.getLastD p) := by
  induction c with
  | nil =>
    intro fuel p hchain hfuel
    obtain ⟨fuel, rfl⟩ := exists_eq_succ_of_ne_zero (Nat.ne_zero_of_lt hfuel)
    have hnull : (nodes p).skip k = null := hchain.eq_headD
    rw [rightmost, hnull]
    rfl
  | cons n c ih =>
    intro fuel p hchain hfuel
    obtain ⟨fuel, rfl⟩ := exists_eq_succ_of_ne_zero (Nat.ne_zero_of_lt hfuel)
    have hn : (nodes p).skip k = n := hchain.eq_headD
    have hne : n ≠ null := hchain.ne_nil n mem_cons_self
    rw [rightmost, hn, if_pos hne, getLastD_cons]
    exact ih (Chain.after (l := []) hchain) (lt_of_succ_lt_succ hfuel)

omit hlt in
lemma Shape.lastLoop : ∀ {layers : Nat} {p : Ptr}, layers ≤ s.height →
    (p ∈ s.head :: l.filter fun n => layers ≤ (s.nodes n).height) →
    (layers = 0 → p = l.getLastD s.head) → lastLoop s.nodes fuel layers p = some (l.getLastD s.head) := by
  intro layers
  induction layers with
  | zero =>
    intro p _ _ hlast
    rw [ConcurrentSkipList.lastLoop, hlast rfl]
  | succ k ih =>
    intro p hk hp _
    have hchain := h.layers k hk
    rw [← append_nil (l.filter _)] at hchain
    obtain ⟨c, hc, hsuffix, hlast⟩ := hchain.after_mem hp
    rw [append_nil] at hc
    have hlength : c.length ≤ l.length := hsuffix.length_le.trans (length_filter_le ..)
    rw [ConcurrentSkipList.lastLoop, rightmost_eq hc (hlength.trans_lt hfuel), bind_some, hlast]
    refine ih (le_of_succ_le hk) ?_ ?_
    · have hmem : (l.filter fun n => k < (s.nodes n).height).getLastD s.head
          ∈ s.head :: l.filter fun n => k < (s.nodes n).height := getLastD_mem_cons
      rcases mem_cons.mp hmem with heq | hmem
      · rw [heq]
        exact mem_cons_self
      · obtain ⟨hin, hhigh⟩ := mem_filter.mp hmem
        exact mem_cons_of_mem _
          (mem_filter.mpr ⟨hin, decide_eq_true (of_decide_eq_true hhigh).le⟩)
    rintro rfl
    have hall : l.filter (fun n => 0 < (s.nodes n).height) = l :=
      filter_eq_self.mpr fun n hn => decide_eq_true (h.heights n hn).1
    rw [hall]

omit hlt in
lemma Shape.last : last fuel s = some (l.getLast?.getD null) := by
  have hloop := h.lastLoop hfuel (p := s.head) le_rfl mem_cons_self
    fun hzero => absurd hzero h.height.1.ne'
  rw [ConcurrentSkipList.last, hloop, map_some, getLastD_eq_getLast?]
  cases hlast : l.getLast? with
  | none => rw [getD_none, if_pos rfl]; rfl
  | some p =>
    have hne : p ≠ s.head := by
      rintro rfl
      exact h.head_notMem (mem_of_getLast? hlast)
    simp [hne]

end Operations

section Refines

variable {P : Params T} {s : SkipList T} {l : List Ptr} {fuel : Nat}

lemma Shape.dataAt_getD (h : Shape P s l) {n : Option Ptr} (hn : ∀ p ∈ n, p ∈ l) :
    dataAt s (n.getD null) = n.map fun p => (s.nodes p).data := by
  cases n with
  | none => rfl
  | some p => exact if_neg (h.ne_null p (hn p rfl))

lemma Shape.step [Inhabited T] (h : Shape P s l) (hlt : StrictWeakOrder P.lt)
    (hfuel : l.length < fuel) (op : Op T) :
    ∃ s' l', step P fuel s op = some (s', (specStep P.lt (values s l) op).2) ∧ Shape P s' l' ∧
      values s' l' = (specStep P.lt (values s l) op).1 ∧ l'.length ≤ l.length + 1 := by
  obtain ⟨tries, rfl⟩ := exists_eq_succ_of_ne_zero (Nat.ne_zero_of_lt hfuel)
  have hfind := fun x => h.find_values (x := x) hlt
  have hlonger : ∀ x, (lower P s l x ++ s.fresh :: upper P s l x).length ≤ l.length + 1 := by
    intro x
    rw [length_append, length_cons, ← Nat.add_assoc, ← length_append, lower_append_upper]
  cases op with
  | add x draw =>
    cases hx : target P s l x with
    | none =>
      obtain ⟨s', hadd, hshape, -, hvalues⟩ := h.add hlt hfuel x draw tries hx
      refine ⟨s', _, ?_, hshape, ?_, hlonger x⟩
      · simp [ConcurrentSkipList.step, hadd, specStep, hfind, hx]
      · simp [specStep, hfind, hx, hvalues]
    | some d =>
      refine ⟨s, l, ?_, h, ?_, le_succ _⟩
      · simp [ConcurrentSkipList.step, h.get hlt hfuel x draw tries hx, specStep, hfind, hx]
      · simp [specStep, hfind, hx]
  | addOrGetData x draw =>
    cases hx : target P s l x with
    | none =>
      obtain ⟨s', hadd, hshape, hdata, hvalues⟩ := h.add hlt hfuel x draw tries hx
      refine ⟨s', _, ?_, hshape, ?_, hlonger x⟩
      · simp [ConcurrentSkipList.step, hadd, specStep, hfind, hx, hdata]
      · simp [specStep, hfind, hx, hvalues]
    | some d =>
      refine ⟨s, l, ?_, h, ?_, le_succ _⟩
      · simp [ConcurrentSkipList.step, h.get hlt hfuel x draw tries hx, specStep, hfind, hx]
      · simp [specStep, hfind, hx]
  | remove x =>
    cases hx : target P s l x with
    | none =>
      have hnone : SortedSet.find P.lt x (values s l) = none := by rw [hfind, hx]; rfl
      refine ⟨s, l, ?_, h, ?_, le_succ _⟩
      · simp [ConcurrentSkipList.step, h.remove_none hlt hfuel x _ hx, specStep, hnone]
      · exact (SortedSet.erase_of_find_eq_none hnone).symm
    | some d =>
      obtain ⟨s', hremove, hshape, hvalues⟩ := h.remove_some hlt hfuel x (tries + 1) hx
      refine ⟨s', _, ?_, hshape, hvalues, ?_⟩
      · simp [ConcurrentSkipList.step, hremove, specStep, hfind, hx]
      · have hsub := (List.Sublist.refl (lower P s l x)).append (upper P s l x).tail_sublist
        rw [lower_append_upper] at hsub
        exact le_succ_of_le hsub.length_le
  | find x =>
    refine ⟨s, l, ?_, h, rfl, le_succ _⟩
    have hdata := h.dataAt_getD (n := target P s l x) fun d hd => (h.target_height hd).1
    simp [ConcurrentSkipList.step, h.find hlt hfuel, specStep, hfind, hdata]
  | lower_bound x =>
    refine ⟨s, l, ?_, h, rfl, le_succ _⟩
    have hdata := h.dataAt_getD (n := (upper P s l x).head?) fun d hd =>
      mem_upper (mem_of_mem_head? hd)
    rw [← headD_eq_head?_getD] at hdata
    show (ConcurrentSkipList.lower_bound P _ s x).map _
      = some (s, Result.data (SortedSet.lowerBound P.lt x (values s l)))
    rw [h.lower_bound hlt hfuel, map_some, hdata, SortedSet.lowerBound_eq, ← values_upper,
      values, List.head?_map]
  | first =>
    refine ⟨s, l, ?_, h, rfl, le_succ _⟩
    have hdata := h.dataAt_getD (n := l.head?) fun d hd => mem_of_mem_head? hd
    rw [← headD_eq_head?_getD] at hdata
    show some (s, Result.data (dataAt s (ConcurrentSkipList.first s)))
      = some (s, .data (values s l).head?)
    rw [h.first, hdata, values, List.head?_map]
  | last =>
    refine ⟨s, l, ?_, h, rfl, le_succ _⟩
    have hdata := h.dataAt_getD (n := l.getLast?) fun d hd => mem_of_getLast? hd
    show (ConcurrentSkipList.last _ s).map _ = some (s, Result.data (values s l).getLast?)
    simp [h.last hfuel, hdata, values]
  | size => exact ⟨s, l, by simp [ConcurrentSkipList.step, specStep, values, h.size], h, rfl, le_succ _⟩

lemma Shape.run [Inhabited T] (hlt : StrictWeakOrder P.lt) (ops : List (Op T)) :
    ∀ {s : SkipList T} {l : List Ptr}, Shape P s l → l.length + ops.length < fuel →
      ∃ s' l', run P fuel s ops = some (s', (specRun P.lt (values s l) ops).2) ∧ Shape P s' l' ∧
        values s' l' = (specRun P.lt (values s l) ops).1 ∧ l'.length ≤ l.length + ops.length := by
  induction ops with
  | nil => exact fun h _ => ⟨_, _, rfl, h, rfl, le_rfl⟩
  | cons op ops ih =>
    intro s l h hfuel
    rw [length_cons] at hfuel
    obtain ⟨s', l', hstep, h', hvalues, hlength⟩ := h.step hlt (hfuel.trans_le' (by omega)) op
    obtain ⟨s'', l'', hrun, h'', hvalues', hlength'⟩ := ih h' (by omega)
    rw [hvalues] at hrun hvalues'
    refine ⟨s'', l'', ?_, h'', hvalues', by rw [length_cons]; omega⟩
    simp only [ConcurrentSkipList.run, hstep, hrun, map_some, specRun]

lemma Shape.create [Inhabited T] {height : Nat} (hpos : 0 < height) (hle : height ≤ P.maxHeight) :
    Shape P (create height) [] where
  sorted := .nil
  layers := fun _ _ => .cons Nat.one_ne_zero .nil
  heights := nofun
  height := ⟨hpos, hle⟩
  live := nofun
  head := ⟨rfl, rfl⟩
  places := ⟨Nat.one_lt_two, nofun⟩
  dead := by
    intro n hnull hlt hhead
    exact absurd (Nat.le_antisymm (le_of_lt_succ hlt) (one_le_iff_ne_zero.mpr hnull)) hhead
  size := rfl

end Refines

structure Layered (lt : T → T → Bool) (s : SkipList T) (layers : Nat → List Ptr) : Prop where
  chain : ∀ k < s.height, Chain (fun n => (s.nodes n).skip k) null s.head (s.head :: layers k)
  sorted : ∀ k < s.height, SortedSet.Sorted lt (values s (layers k))
  sublist : ∀ k, k + 1 < s.height → (layers (k + 1)).Sublist (layers k)

def unmarked (s : SkipList T) : List Ptr :=
  (List.range s.fresh).filter fun n => n ≠ null ∧ (s.nodes n).isHead = false ∧ (s.nodes n).marked = false

section

variable {P : Params T} {s : SkipList T} {l : List Ptr} (h : Shape P s l)
include h

lemma Shape.layered : Layered P.lt s fun k => l.filter fun n => k < (s.nodes n).height where
  chain := h.layers
  sorted := fun _ _ => h.sorted.sublist (filter_sublist.map _)
  sublist := by
    intro k _
    refine monotone_filter_right l fun n hn => ?_
    exact decide_eq_true (lt_of_succ_lt (of_decide_eq_true hn))

lemma Shape.size_eq : s.size = (unmarked s).length := by
  have hmem : ∀ n, n ∈ unmarked s ↔ n ∈ l := by
    intro n
    rw [unmarked, mem_filter, mem_range, decide_eq_true_eq]
    constructor
    · rintro ⟨hfresh, hnull, hhead, hmarked⟩
      by_contra hn
      rw [h.dead n hnull hfresh (fun heq => ?_) hn] at hmarked
      · cases hmarked
      · rw [heq, h.head.2] at hhead
        cases hhead
    · intro hn
      exact ⟨h.places.2 n hn, h.ne_null n hn, (h.live n hn).2.2, (h.live n hn).1⟩
  have hnodup : (unmarked s).Nodup := nodup_range.filter _
  have hperm := (perm_ext_iff_of_nodup hnodup (nodup_cons.mp h.nodup).2).mpr hmem
  rw [h.size, hperm.length_eq]

end

theorem refines_sortedSet [Inhabited T] (P : Params T) (hlt : StrictWeakOrder P.lt) (height : Nat)
    (hpos : 0 < height) (hle : height ≤ P.maxHeight) (ops : List (Op T)) (fuel : Nat)
    (hfuel : ops.length < fuel) :
    ∃ s layers, run P fuel (create height) ops = some (s, (specRun P.lt [] ops).2) ∧
      Layered P.lt s layers ∧ values s (layers 0) = (specRun P.lt [] ops).1 ∧
      s.size = (unmarked s).length ∧
      ∀ x, ∃ node found, findNodeDownRight P fuel s x = some (node, found) ∧
        findNodeRightDown P fuel s x = some (node, found) := by
  obtain ⟨s, l, hrun, h, hvalues, hlength⟩ := Shape.run hlt ops
    (Shape.create (P := P) hpos hle) (by rwa [length_nil, Nat.zero_add])
  rw [length_nil, Nat.zero_add] at hlength
  refine ⟨s, _, hrun, h.layered, ?_, h.size_eq, fun x => ?_⟩
  · have hall : l.filter (fun n => 0 < (s.nodes n).height) = l :=
      filter_eq_self.mpr fun n hn => decide_eq_true (h.heights n hn).1
    rw [hall, hvalues]
    rfl
  · have hfind : findNodeDownRight P fuel s x = _ := h.findNode hlt (by omega)
    refine ⟨_, _, hfind, ?_⟩
    rw [← findNodeDownRight_eq hlt (zero_lt_of_lt hfuel), hfind]

lemma strictWeakOrder_nat : StrictWeakOrder fun a b : Nat => decide (a < b) where
  asymm := by
    intro a b h
    exact decide_eq_false (Nat.not_lt.mpr (of_decide_eq_true h).le)
  cotrans := by
    intro a c b h
    rcases Nat.lt_or_ge a b with hab | hba
    · exact .inl (decide_eq_true hab)
    · exact .inr (decide_eq_true (hba.trans_lt (of_decide_eq_true h)))

theorem refines_sortedSet_nat : ∃ s layers,
    run ⟨fun a b : Nat => decide (a < b), 24, fun height => height⟩ 9 (create 1)
        [.add 3 0, .add 1 5, .addOrGetData 3 2, .lower_bound 2, .remove 1, .remove 1, .first, .size]
      = some (s, [.flag true, .flag true, .added 3 false, .data (some 3), .flag true, .flag false,
          .data (some 3), .number 1]) ∧
    Layered (fun a b : Nat => decide (a < b)) s layers ∧ values s (layers 0) = [3] ∧
    s.size = (unmarked s).length := by
  obtain ⟨s, layers, hrun, hlayered, hvalues, hsize, -⟩ := refines_sortedSet
    ⟨fun a b : Nat => decide (a < b), 24, fun height => height⟩ strictWeakOrder_nat 1 (by decide)
    (by decide) [.add 3 0, .add 1 5, .addOrGetData 3 2, .lower_bound 2, .remove 1, .remove 1, .first, .size]
    9 (by decide)
  exact ⟨s, layers, hrun, hlayered, hvalues, hsize⟩

end Acc.Thread.ConcurrentSkipList
