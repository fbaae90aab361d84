import Accelerator.Thread.AtomicLinkedList

namespace Acc.Thread.AtomicLinkedList

open Function List Option

section Steps

variable {ι : Type*} [DecidableEq ι] {m m' : Mem} {pc : ι → Pc} {shared : List Ptr}
  {owned : ι → List Ptr} {c : ι} {p p' : Pc} {ps : List Ptr} {t : Ptr}

lemma Keeps.refl : Keeps m m p ps :=
  ⟨fun _ _ => rfl, fun _ _ => rfl, fun _ _ _ _ h => h, fun _ _ _ h => h, fun _ _ => rfl⟩

variable {next head : Ptr}

lemma Keeps.setNext (ht : t ∉ ps) : Keeps m (setNext m t next) p ps := by
  refine ⟨fun q hq => ?_, fun _ _ => rfl, fun _ _ _ _ h => h, fun _ _ _ h => h, fun _ _ => rfl⟩
  have hne : q ≠ t := fun heq => ht (heq ▸ hq)
  exact update_of_ne hne ..

lemma Shape.same (h : Shape m pc shared owned) (hholds : Holds m p' (owned c)) :
    Shape m (Function.update pc c p') shared owned :=
  h.stay h.chain (fun _ _ => rfl) rfl rfl hholds fun _ _ => .refl

lemma Shape.setNext (h : Shape m pc shared owned) (ht : t ∈ owned c)
    (hholds : Holds (setNext m t next) p' (owned c)) :
    Shape (setNext m t next) (Function.update pc c p') shared owned := by
  refine h.stay (h.chain.congr fun q hq => ?_) (fun _ _ => rfl) rfl rfl hholds fun d hd => ?_
  · have hne : q ≠ t := fun heq => h.apart c t ht (heq ▸ hq)
    exact update_of_ne hne ..
  · exact .setNext (h.others c d hd.symm t ht)

lemma chain_setNext {a : Ptr} {l : List Ptr} (h : Chain m.next null a l) (ht : t ∉ l) :
    Chain (setNext m t next).next null a l := by
  refine h.congr fun q hq => ?_
  have hne : q ≠ t := fun heq => ht (heq ▸ hq)
  exact update_of_ne hne ..

def Inv (s : State ι) : Prop :=
  ∃ shared owned, Shape s.mem s.pc shared owned ∧ History s.mem s.pc

omit [DecidableEq ι] in
lemma Inv.start : Inv (start ι) := by
  refine ⟨[], fun _ => [], ⟨.nil, rfl, fun _ => rfl, fun _ => nodup_nil, nofun, nofun⟩, ?_⟩
  exact ⟨nofun, nofun, nofun, nodup_nil, le_rfl, rfl, nofun, nofun, nofun, nofun⟩

lemma Inv.same (h : Shape m pc shared owned) (hist : History m pc) (hholds : Holds m p' (owned c))
    (hbatch : p'.batch = (pc c).batch) : Inv ⟨m, Function.update pc c p'⟩ :=
  ⟨shared, owned, h.same hholds, hist.stay (fun _ _ h => h) rfl rfl rfl rfl rfl rfl hbatch⟩

lemma Inv.setNext (h : Shape m pc shared owned) (hist : History m pc)
    (ht : t ∈ owned c) (hholds : Holds (setNext m t next) p' (owned c))
    (hbatch : p'.batch = (pc c).batch) :
    Inv ⟨AtomicLinkedList.setNext m t next, Function.update pc c p'⟩ :=
  ⟨shared, owned, h.setNext ht hholds, hist.stay (fun _ _ h => h) rfl rfl rfl rfl rfl rfl hbatch⟩

lemma Inv.allocate (h : Shape m pc shared owned) (hist : History m pc) (hc : pc c = .idle)
    (hnull : t ≠ null) (ht : m.data t = none) : Inv ⟨{ AtomicLinkedList.setNext m t null with
        data := Function.update m.data t (some m.calls), calls := m.calls + 1 },
      Function.update pc c (.insertLoad t)⟩ := by
  have hnobody : ∀ {qs : List Ptr}, (∀ q ∈ qs, m.data q ≠ none) → t ∉ qs :=
    fun hqs hin => hqs t hin ht
  have hshared := hnobody h.data_ne_none
  have hdata : ∀ {q}, q ≠ t → Function.update m.data t (some m.calls) q = m.data q :=
    fun hq => update_of_ne hq ..
  have hnext : ∀ {q}, q ≠ t → Function.update m.next t null q = m.next q :=
    fun hq => update_of_ne hq ..
  refine ⟨shared, Function.update owned c [t], ?_, hist.allocate (by rw [hc]; rfl) rfl⟩
  refine h.client ?_ ?_ ⟨rfl, hnull, m.calls, update_self .., ?_⟩ (nodup_singleton t)
    ?_ ?_ fun d hd => ?_
  · exact h.chain.congr fun q hq => hnext fun heq => hshared (heq ▸ hq)
  · refine Eq.trans ?_ h.elements
    exact map_congr_left fun q hq => hdata fun heq => hshared (heq ▸ hq)
  · exact fun hin => absurd (hist.called m.calls hin) (lt_irrefl _)
  · intro q hq
    rw [mem_singleton.mp hq]
    exact hshared
  · rintro q (hq | hq)
    · rw [mem_singleton.mp hq]
      exact .inr (.inr ht)
    · exact .inr (.inl hq)
  · have hown := hnobody (h.holds d).data_ne_none
    exact ⟨fun q hq => hnext fun heq => hown (heq ▸ hq), fun q hq => hdata fun heq => hown (heq ▸ hq),
      fun _ _ _ _ h => h, fun _ _ _ h => h, fun _ _ => rfl⟩

omit [DecidableEq ι] in
lemma drop_eq_nil_iff_head (h : Shape m pc shared owned) :
    m.head = null ↔ m.inserted.drop m.detached = [] := by
  have hlist := h.elements
  constructor
  · intro hhead
    have hchain := h.chain
    rw [hhead] at hchain
    rw [hchain.unique .nil] at hlist
    exact reverse_eq_nil_iff.mp (map_eq_nil_iff.mp hlist.symm)
  intro hempty
  rw [hempty] at hlist
  have hchain := h.chain
  rw [map_eq_nil_iff.mp hlist] at hchain
  generalize m.head = head at hchain
  cases hchain
  rfl

lemma Inv.insert (h : Shape m pc shared owned) (hist : History m pc) {oldHead : Ptr}
    (hc : pc c = .insertCas t oldHead) (hhead : m.head = oldHead) :
    Inv ⟨{ m with head := t, inserted := m.inserted ++ (m.data t).toList,
                  returned := m.returned ++
                    [(decide (oldHead = null), decide (m.detached = m.inserted.length))] },
      Function.update pc c .idle⟩ := by
  have hholds := h.holds c
  rw [hc] at hholds
  obtain ⟨hown, ⟨hnull, e, he, hnot⟩, hnext⟩ := hholds
  have hin : t ∈ owned c := hown ▸ mem_cons_self
  have htoList : (m.data t).toList = [e] := by rw [he, toList_some]
  have hempty : decide (oldHead = null) = decide (m.detached = m.inserted.length) := by
    have hle := hist.detached
    rw [decide_eq_decide, ← hhead, drop_eq_nil_iff_head h, drop_eq_nil_iff]
    omega
  refine ⟨t :: shared, Function.update owned c [], ?_,
    hist.insert he hnot hempty (by rw [hc]; rfl) rfl⟩
  refine h.client ?_ ?_ rfl nodup_nil nofun ?_ fun d hd => ?_
  · refine .cons hnull ?_
    rw [hnext, ← hhead]
    exact h.chain
  · show m.data t :: shared.map m.data
      = (((m.inserted ++ (m.data t).toList).drop m.detached).reverse).map some
    rw [h.elements, htoList, drop_append_of_le_length hist.detached, reverse_append, he]
    rfl
  · rintro q (hq | hq)
    · cases hq
    · rcases mem_cons.mp hq with rfl | hq
      · exact .inl hin
      · exact .inr (.inl hq)
  refine ⟨fun _ _ => rfl, fun _ _ => rfl, fun q hq e' he' hnot' hin' => ?_, fun _ _ _ h => h,
    fun _ _ => rfl⟩
  rw [htoList] at hin'
  refine (mem_append.mp hin').elim hnot' fun hnew => ?_
  rw [mem_singleton.mp hnew] at he'
  exact h.others c d hd.symm t hin (hist.injective q t e he' he ▸ hq)

variable {mode : Mode}

lemma Inv.exchange (h : Shape m pc shared owned) (hist : History m pc)
    (hc : (pc c).batch = none) (hps : ∀ q ∈ ps, q ∈ shared) (hnodup : ps.Nodup)
    (hholds : Holds { m with
      head := null, detached := m.inserted.length,
      batches := m.batches ++ [(mode, m.inserted.drop m.detached)] } p' ps)
    (hp' : p'.batch = some m.batches.length ∨ p'.batch = none ∧ m.inserted.drop m.detached = []) :
    Inv ⟨{ m with head := null, detached := m.inserted.length,
                  batches := m.batches ++ [(mode, m.inserted.drop m.detached)] },
      Function.update pc c p'⟩ := by
  have hholders : ∀ d b, (pc d).batch = some b → b < m.batches.length := by
    intro d b hb
    obtain ⟨mode', qs, batch, hbatch, -⟩ := (h.holds d).carries hb
    exact (List.getElem?_eq_some_iff.mp hbatch).1
  refine ⟨[], Function.update owned c ps, ?_, hist.exchange hc hholders hp'⟩
  refine h.client .nil ?_ hholds hnodup (fun _ _ => List.not_mem_nil) ?_ fun d hd => ?_
  · show [] = ((m.inserted.drop m.inserted.length).reverse).map some
    rw [drop_length]
    rfl
  · rintro q (hq | hq)
    · exact .inr (.inl (hps q hq))
    · cases hq
  · refine ⟨fun _ _ => rfl, fun _ _ => rfl, fun _ _ _ _ h => h, fun b hb x hx => ?_, fun _ _ => rfl⟩
    rw [getElem?_append_left (hholders d b hb)]
    exact hx

omit [DecidableEq ι] in
lemma carries_new (hist : History m pc)
    (hdata : ps.map m.data = (mode.order (m.inserted.drop m.detached)).map some) : Carries { m with
      head := null, detached := m.inserted.length,
      batches := m.batches ++ [(mode, m.inserted.drop m.detached)] } mode m.batches.length ps := by
  refine ⟨m.inserted.drop m.detached, getElem?_concat_length, ?_⟩
  show (m.deliveredOf m.batches.length).map some ++ ps.map m.data = _
  rw [hist.deliveredOf_new]
  exact hdata

lemma Inv.deliver (h : Shape m pc shared owned) (hist : History m pc) {b : Nat} (hc : pc c = .callback mode b t head) :
    Inv ⟨{ m with delivered := m.delivered ++ (m.data t).toList.map fun e => (b, e) },
      Function.update pc c (.delete mode b t head)⟩ := by
  have hholds := h.holds c
  rw [hc] at hholds
  obtain ⟨l, hown, hl, hcarries⟩ := hholds
  have hsome := hcarries.data_ne_none t (hown ▸ mem_cons_self)
  obtain ⟨e, he⟩ := ne_none_iff_exists'.mp hsome
  rw [hown] at hcarries
  have hb : b < m.batches.length := by
    obtain ⟨batch, hbatch, -⟩ := hcarries
    exact (List.getElem?_eq_some_iff.mp hbatch).1
  rw [he]
  refine ⟨shared, owned, ?_, hist.deliver hb (by rw [hc]; rfl) rfl⟩
  refine h.stay h.chain (fun _ _ => rfl) rfl rfl ⟨l, hown, hl, hsome, hcarries.deliver he⟩
    fun d hd => ?_
  refine ⟨fun _ _ => rfl, fun _ _ => rfl, fun _ _ _ _ h => h, fun _ _ _ h => h, fun b' hb' => ?_⟩
  have hne : b ≠ b' := by
    rintro rfl
    exact hist.unique d c b hd hb' (by rw [hc]; rfl)
  show Mem.deliveredOf { m with delivered := m.delivered ++ [(b, e)] } b' = _
  simp [deliveredOf_append, hne]

lemma Inv.delete (h : Shape m pc shared owned) (hist : History m pc) {b : Nat} (hc : pc c = .delete mode b t head) :
    Inv ⟨{ m with data := Function.update m.data t none },
      Function.update pc c (.unlink mode b head)⟩ := by
  have hholds := h.holds c
  rw [hc] at hholds
  obtain ⟨l, hown, hl, -, hcarries⟩ := hholds
  have hin : t ∈ owned c := hown ▸ mem_cons_self
  have hdistinct := h.nodup c
  rw [hown, nodup_cons] at hdistinct
  have hdata : ∀ {q}, q ≠ t → Function.update m.data t none q = m.data q :=
    fun hq => update_of_ne hq ..
  refine ⟨shared, Function.update owned c l, ?_, hist.stay (fun q e hq => ?_) rfl rfl rfl rfl rfl rfl
    (by rw [hc]; rfl)⟩
  · refine h.client h.chain ?_ ⟨hl, hcarries.delete hdistinct.1⟩ hdistinct.2 ?_ ?_ fun d hd => ?_
    · rw [← h.elements]
      exact map_congr_left fun q hq => hdata fun heq => h.apart c t hin (heq ▸ hq)
    · exact fun q hq => h.apart c q (hown ▸ mem_cons_of_mem _ hq)
    · rintro q (hq | hq)
      · exact .inl (hown ▸ mem_cons_of_mem _ hq)
      · exact .inr (.inl hq)
    · exact ⟨fun _ _ => rfl, fun q hq => hdata fun heq => h.others c d hd.symm t hin (heq ▸ hq),
        fun _ _ _ _ h => h, fun _ _ _ h => h, fun _ _ => rfl⟩
  by_cases hqt : q = t
  · rw [hqt] at hq
    exact absurd ((update_self ..).symm.trans hq) nofun
  · exact (hdata hqt).symm.trans hq

lemma Inv.client {s : State ι} {ch : Choice} (h : Inv s)
    (hs : step ch s.mem (s.pc c) = some (m', p')) : Inv ⟨m', Function.update s.pc c p'⟩ := by
  obtain ⟨shared, owned, hshape, hist⟩ := h
  have hholds := hshape.holds c
  have hnodup := hshape.nodup c
  cases hc : s.pc c with
  | idle =>
    rw [hc] at hs hholds
    simp only [step] at hs
    split at hs
    · cases hs
      exact .same hshape hist hholds (by rw [hc]; rfl)
    split at hs
    · rename_i hplace
      cases hs
      exact .allocate hshape hist hc hplace.1 hplace.2
    · cases hs
  | insertLoad t =>
    rw [hc] at hs hholds
    cases hs
    exact .same hshape hist hholds (by rw [hc]; rfl)
  | insertLink t oldHead =>
    rw [hc] at hs hholds
    obtain ⟨hown, hfresh⟩ := hholds
    cases hs
    refine .setNext hshape hist (hown ▸ mem_cons_self) ⟨hown, hfresh, ?_⟩ (by rw [hc]; rfl)
    exact update_self ..
  | insertCas t oldHead =>
    rw [hc] at hs
    simp only [step] at hs
    split at hs
    · rename_i hhead
      cases hs
      exact .insert hshape hist hc hhead.1
    · cases hs
      rw [hc] at hholds
      exact .same hshape hist ⟨hholds.1, hholds.2.1⟩ (by rw [hc]; rfl)
  | exchange mode =>
    rw [hc] at hs
    have hbatch : (s.pc c).batch = none := by rw [hc]; rfl
    cases mode with
    | sweep =>
      simp only [step] at hs
      split at hs
      · rename_i hnull
        cases hs
        have hnone : ∀ q ∈ ([] : List Ptr), q ∈ shared := nofun
        exact .exchange hshape hist hbatch hnone nodup_nil rfl
          (.inr ⟨rfl, (drop_eq_nil_iff_head hshape).mp hnull⟩)
      cases hs
      refine .exchange hshape hist hbatch (fun q hq => mem_reverse.mp hq)
        (nodup_reverse.mpr hshape.chain.nodup)
        ⟨shared, [], (append_nil _).symm, hshape.chain, .nil, carries_new hist ?_⟩ (.inl rfl)
      rw [map_reverse, hshape.elements, map_reverse, reverse_reverse]
      rfl
    | reverseSweep =>
      cases hs
      exact .exchange hshape hist hbatch (fun _ hq => hq) hshape.chain.nodup
        ⟨hshape.chain, carries_new hist hshape.elements⟩ (.inl rfl)
  | reverse b head rhead =>
    rw [hc] at hs hholds
    obtain ⟨l, r, hown, hl, hr, hcarries⟩ := hholds
    simp only [step] at hs
    split at hs
    · rename_i hnull
      cases hs
      rw [hnull] at hl
      rw [hl.unique .nil, reverse_nil, nil_append] at hown
      refine .same hshape hist ⟨?_, hcarries⟩ (by rw [hc]; rfl)
      rw [hown]
      exact hr
    rename_i hnull
    cases hs
    cases hl with
    | nil => exact absurd rfl hnull
    | @cons _ l _ hrest =>
      refine .same hshape hist ⟨l, r, ?_, hnull, hrest, hr, hcarries⟩ (by rw [hc]; rfl)
      simp [hown]
  | reverseLink b t head rhead =>
    rw [hc] at hs hholds
    obtain ⟨l, r, hown, hnull, hl, hr, hcarries⟩ := hholds
    cases hs
    rw [hown] at hnodup
    have htl : t ∉ l := by
      intro hin
      exact (disjoint_of_nodup_append hnodup) (mem_reverse.mpr hin) mem_cons_self
    have htr : t ∉ r := (nodup_cons.mp hnodup.of_append_right).1
    refine .setNext hshape hist (hown ▸ mem_append_right _ mem_cons_self)
      ⟨l, t :: r, hown, chain_setNext hl htl, .cons hnull ?_, hcarries⟩ (by rw [hc]; rfl)
    have hnext : (AtomicLinkedList.setNext s.mem t rhead).next t = rhead := update_self ..
    rw [hnext]
    exact chain_setNext hr htr
  | unlink mode b head =>
    rw [hc] at hs hholds
    obtain ⟨hchain, hcarries⟩ := hholds
    simp only [step] at hs
    split at hs
    · rename_i hnull
      rw [hnull] at hchain
      have hown := hchain.unique .nil
      rw [hown] at hcarries
      have hb : (s.pc c).batch = some b := by rw [hc]; rfl
      split at hs
      · cases hs
        exact ⟨shared, owned, hshape.same hown, hist.leave hb rfl hcarries.done⟩
      · cases hs
        exact ⟨shared, owned, hshape.same hown, hist.leave hb rfl hcarries.done⟩
    rename_i hnull
    cases hs
    generalize hown : owned c = ps at hchain hcarries
    cases hchain with
    | nil => exact absurd rfl hnull
    | @cons _ l _ hrest =>
      refine .same hshape hist ?_ (by rw [hc]; rfl)
      rw [hown]
      exact ⟨l, rfl, hrest, hcarries⟩
  | unlinkLink mode b t head =>
    rw [hc] at hs hholds
    obtain ⟨l, hown, hl, hcarries⟩ := hholds
    cases hs
    rw [hown] at hnodup
    exact .setNext hshape hist (hown ▸ mem_cons_self)
      ⟨l, hown, chain_setNext hl (nodup_cons.mp hnodup).1, hcarries⟩ (by rw [hc]; rfl)
  | callback mode b t head =>
    rw [hc] at hs
    cases hs
    exact .deliver hshape hist hc
  | delete mode b t head =>
    rw [hc] at hs
    cases hs
    exact .delete hshape hist hc

lemma inv_of_runs {s : State ι} (h : Interleaving.Runs Moves Outside (start ι) s) : Inv s := by
  induction h with
  | refl => exact .start
  | tail _ hstep ih =>
    cases hstep with
    | client c hmove =>
      obtain ⟨ch, hs⟩ := hmove
      exact ih.client hs
    | outside hout => exact hout.elim

end Steps

section Finishing

open Interleaving (Acts)

variable {m : Mem} {mode : Mode} {b : Nat}

def Finishes (m : Mem) (p : Pc) (b : Nat) : Prop :=
  ∃ m' p', Acts Moves m p m' p' ∧ p'.batch = none ∧
    ∀ mode batch, m'.batches[b]? = some (mode, batch) → m'.deliveredOf b = mode.order batch

lemma Finishes.step {m₁ : Mem} {p p₁ : Pc} (hs : AtomicLinkedList.step {} m p = some (m₁, p₁))
    (h : Finishes m₁ p₁ b) : Finishes m p b := by
  obtain ⟨m', p', hacts, hp', hdone⟩ := h
  exact ⟨m', p', .head ⟨{}, hs⟩ hacts, hp', hdone⟩

lemma finishes_unlink {ps : List Ptr} : ∀ {m : Mem} {head : Ptr}, Chain m.next null head ps →
    Carries m mode b ps → Finishes m (.unlink mode b head) b := by
  induction ps with
  | nil =>
    intro m head hchain hcarries
    cases hchain
    cases mode with
    | sweep => exact ⟨m, .exchange .sweep, .head ⟨{}, rfl⟩ .refl, rfl, hcarries.done⟩
    | reverseSweep => exact ⟨m, .idle, .head ⟨{}, rfl⟩ .refl, rfl, hcarries.done⟩
  | cons t l ih =>
    intro m head hchain hcarries
    have hnodup := (nodup_cons.mp hchain.nodup).1
    obtain ⟨e, he⟩ := ne_none_iff_exists'.mp (hcarries.data_ne_none t mem_cons_self)
    cases hchain with
    | cons hnull hrest =>
      refine .step (if_neg hnull) (.step rfl (.step rfl (.step rfl ?_)))
      refine ih (chain_setNext hrest hnodup) (Carries.delete ?_ hnodup)
      show Carries { setNext m t null with
        delivered := m.delivered ++ (m.data t).toList.map fun e => (b, e) } mode b l
      rw [he]
      exact Carries.deliver (m := setNext m t null) hcarries he

lemma finishes_reverse {l : List Ptr} : ∀ {m : Mem} {r : List Ptr} {head rhead : Ptr},
    Chain m.next null head l → Chain m.next null rhead r → (l.reverse ++ r).Nodup →
    Carries m .sweep b (l.reverse ++ r) → Finishes m (.reverse b head rhead) b := by
  induction l with
  | nil =>
    intro m r head rhead hl hr _ hcarries
    cases hl
    exact .step rfl (finishes_unlink hr hcarries)
  | cons t l ih =>
    intro m r head rhead hl hr hnodup hcarries
    have hsplit : (t :: l).reverse ++ r = l.reverse ++ t :: r := by
      simp
    rw [hsplit] at hnodup hcarries
    have htl := (nodup_cons.mp hl.nodup).1
    have htr := (nodup_cons.mp hnodup.of_append_right).1
    cases hl with
    | cons hnull hrest =>
      have hstep : step {} m (.reverse b t rhead) = some (m, .reverseLink b t (m.next t) rhead) :=
        congrArg (fun p => some (m, p)) (if_neg hnull)
      refine .step hstep (.step rfl (ih (chain_setNext hrest htl) (.cons hnull ?_) hnodup hcarries))
      have hnext : (setNext m t rhead).next t = rhead := update_self ..
      rw [hnext]
      exact chain_setNext hr htr

lemma Holds.finishes {p : Pc} {ps : List Ptr} (h : Holds m p ps) (hnodup : ps.Nodup)
    (hb : p.batch = some b) : Finishes m p b := by
  cases p with
  | reverse =>
    obtain ⟨l, r, rfl, hl, hr, hcarries⟩ := h
    cases hb
    exact finishes_reverse hl hr hnodup hcarries
  | reverseLink b t head rhead =>
    obtain ⟨l, r, rfl, hnull, hl, hr, hcarries⟩ := h
    cases hb
    have htl : t ∉ l := fun hin =>
      (disjoint_of_nodup_append hnodup) (mem_reverse.mpr hin) mem_cons_self
    have htr := (nodup_cons.mp hnodup.of_append_right).1
    refine .step rfl (finishes_reverse (chain_setNext hl htl) (.cons hnull ?_) hnodup hcarries)
    have hnext : (setNext m t rhead).next t = rhead := update_self ..
    rw [hnext]
    exact chain_setNext hr htr
  | unlink =>
    cases hb
    exact finishes_unlink h.1 h.2
  | unlinkLink mode b t head =>
    obtain ⟨l, rfl, hl, hcarries⟩ := h
    cases hb
    have ht := (nodup_cons.mp hnodup).1
    obtain ⟨e, he⟩ := ne_none_iff_exists'.mp (hcarries.data_ne_none t mem_cons_self)
    refine .step rfl (.step rfl (.step rfl ?_))
    refine finishes_unlink (chain_setNext hl ht) (Carries.delete ?_ ht)
    show Carries { setNext m t null with
      delivered := m.delivered ++ (m.data t).toList.map fun e => (b, e) } mode b l
    rw [he]
    exact Carries.deliver (m := setNext m t null) hcarries he
  | callback mode b t head =>
    obtain ⟨l, rfl, hl, hcarries⟩ := h
    cases hb
    have ht := (nodup_cons.mp hnodup).1
    obtain ⟨e, he⟩ := ne_none_iff_exists'.mp (hcarries.data_ne_none t mem_cons_self)
    refine .step rfl (.step rfl ?_)
    refine finishes_unlink hl (Carries.delete ?_ ht)
    rw [he]
    exact hcarries.deliver he
  | delete mode b t head =>
    obtain ⟨l, rfl, hl, -, hcarries⟩ := h
    cases hb
    have ht := (nodup_cons.mp hnodup).1
    exact .step rfl (finishes_unlink hl (hcarries.delete ht))
  | _ => cases hb

end Finishing

section Once

variable {ι : Type*} {s : State ι}

structure Swept (s : State ι) : Prop where
  all : ∃ l, Chain s.mem.next null s.mem.head l ∧
    (s.mem.batches.map Prod.snd).flatten.map some ++ (l.map s.mem.data).reverse
      = s.mem.inserted.map some
  once : ∀ e ∈ s.mem.inserted, (s.mem.delivered.map Prod.snd).count e = 1 ∨
    (s.mem.delivered.map Prod.snd).count e = 0 ∧
      ((∃ l, Chain s.mem.next null s.mem.head l ∧ some e ∈ l.map s.mem.data) ∨
        ∃! c, ∃ b mode batch, (s.pc c).batch = some b ∧
          s.mem.batches[b]? = some (mode, batch) ∧ e ∈ batch)
  only : ∀ d ∈ s.mem.delivered, d.2 ∈ s.mem.inserted
  order : ∀ b mode batch, s.mem.batches[b]? = some (mode, batch) →
    s.mem.deliveredOf b <+: mode.order batch
  complete : ∀ b mode batch, s.mem.batches[b]? = some (mode, batch) →
    (∀ c, (s.pc c).batch ≠ some b) → s.mem.deliveredOf b = mode.order batch
  finishes : ∀ c b, (s.pc c).batch = some b → Finishes s.mem (s.pc c) b
  returned : ∀ r ∈ s.mem.returned, r.1 = r.2

lemma Mode.mem_order {mode : Mode} {l : List Nat} {e : Nat} : e ∈ mode.order l ↔ e ∈ l := by
  cases mode with
  | sweep => exact Iff.rfl
  | reverseSweep => exact mem_reverse

lemma Mode.nodup_order {mode : Mode} {l : List Nat} (h : l.Nodup) : (mode.order l).Nodup := by
  cases mode with
  | sweep => exact h
  | reverseSweep => exact nodup_reverse.mpr h

section Batches

variable {m : Mem} {pc : ι → Pc} {b b' : Nat} {mode mode' : Mode} {batch batch' : List Nat} {e : Nat}

lemma mem_batches (hb : m.batches[b]? = some (mode, batch)) : batch ∈ m.batches.map Prod.snd :=
  mem_map_of_mem (mem_of_getElem? hb)

lemma History.nodup_batches (h : History m pc) : (m.batches.map Prod.snd).flatten.Nodup := by
  rw [h.batches]
  exact h.nodup.sublist (take_sublist _ _)

lemma History.mem_inserted (h : History m pc) (hb : m.batches[b]? = some (mode, batch))
    (he : e ∈ batch) : e ∈ m.inserted.take m.detached := by
  rw [← h.batches]
  exact mem_flatten.mpr ⟨batch, mem_batches hb, he⟩

lemma History.batch_unique (h : History m pc) (hb : m.batches[b]? = some (mode, batch))
    (hb' : m.batches[b']? = some (mode', batch')) (he : e ∈ batch) (he' : e ∈ batch') : b = b' := by
  have hpairs := pairwise_iff_getElem.mp
    (List.pairwise_map.mp (List.nodup_flatten.mp h.nodup_batches).2)
  obtain ⟨hlt, hget⟩ := List.getElem?_eq_some_iff.mp hb
  obtain ⟨hlt', hget'⟩ := List.getElem?_eq_some_iff.mp hb'
  rcases lt_trichotomy b b' with hbb' | hbb' | hbb'
  · have hdisjoint := hpairs b b' hlt hlt' hbb'
    rw [hget, hget'] at hdisjoint
    exact absurd he' (hdisjoint he)
  · exact hbb'
  · have hdisjoint := hpairs b' b hlt' hlt hbb'
    rw [hget, hget'] at hdisjoint
    exact absurd he (hdisjoint he')

variable {shared : List Ptr} {owned : ι → List Ptr}

lemma delivered_initial (h : Shape m pc shared owned) (hist : History m pc)
    (hb : m.batches[b]? = some (mode, batch)) : m.deliveredOf b <+: mode.order batch := by
  by_cases hheld : ∃ c, (pc c).batch = some b
  · obtain ⟨c, hc⟩ := hheld
    obtain ⟨mode', qs, batch', hb', heq⟩ := (h.holds c).carries hc
    cases hb'.symm.trans hb
    have htake := congrArg (List.take (m.deliveredOf b).length) heq
    rw [take_left' (length_map _), ← map_take] at htake
    have hinj : Injective (List.map (some : Nat → Option Nat)) :=
      map_injective_iff.mpr fun _ _ h => Option.some.inj h
    rw [hinj htake]
    exact take_prefix _ _
  · rw [hist.complete b mode batch hb fun c hc => hheld ⟨c, hc⟩]

lemma mem_batch_of_delivered (h : Shape m pc shared owned) (hist : History m pc)
    (hd : (b, e) ∈ m.delivered) : ∃ mode batch, m.batches[b]? = some (mode, batch) ∧ e ∈ batch := by
  have hb := getElem?_eq_getElem (hist.numbered _ hd)
  refine ⟨_, _, hb, Mode.mem_order.mp ((delivered_initial h hist hb).subset ?_)⟩
  exact mem_map.mpr ⟨(b, e), mem_filter.mpr ⟨hd, decide_eq_true rfl⟩, rfl⟩

lemma count_delivered (h : Shape m pc shared owned) (hist : History m pc)
    (hb : m.batches[b]? = some (mode, batch)) (he : e ∈ batch) :
    (m.delivered.map Prod.snd).count e = (m.deliveredOf b).count e := by
  rw [Mem.deliveredOf, count_eq_countP, count_eq_countP, countP_map, countP_map, countP_filter]
  refine countP_congr fun d hd => ?_
  simp only [comp_apply, beq_iff_eq, Bool.and_eq_true, decide_eq_true_eq]
  refine ⟨fun hde => ⟨hde, ?_⟩, And.left⟩
  obtain ⟨mode', batch', hb', he'⟩ := mem_batch_of_delivered h hist (b := d.1) (e := d.2) hd
  exact hist.batch_unique hb' hb (hde ▸ he') he

end Batches

lemma once_of_detached {m : Mem} {pc : ι → Pc} {shared : List Ptr} {owned : ι → List Ptr} {e : Nat}
    (h : Shape m pc shared owned) (hist : History m pc) (he : e ∈ m.inserted.take m.detached) :
    (m.delivered.map Prod.snd).count e = 1 ∨ (m.delivered.map Prod.snd).count e = 0 ∧
      ∃! c, ∃ b mode batch, (pc c).batch = some b ∧ m.batches[b]? = some (mode, batch) ∧
        e ∈ batch := by
  rw [← hist.batches] at he
  obtain ⟨batch, hbatch, hein⟩ := mem_flatten.mp he
  obtain ⟨⟨mode, _⟩, hmem, rfl⟩ := mem_map.mp hbatch
  obtain ⟨b, hb⟩ := mem_iff_getElem?.mp hmem
  rw [count_delivered h hist hb hein]
  have hnodup : (m.deliveredOf b).Nodup := by
    refine (Mode.nodup_order ?_).sublist (delivered_initial h hist hb).sublist
    exact (List.nodup_flatten.mp hist.nodup_batches).1 _ hbatch
  by_cases hdelivered : e ∈ m.deliveredOf b
  · exact .inl (count_eq_one_of_mem hnodup hdelivered)
  refine .inr ⟨count_eq_zero.mpr hdelivered, ?_⟩
  have hheld : ∃ c, (pc c).batch = some b := by
    by_contra hnobody
    refine hdelivered ?_
    rw [hist.complete b mode _ hb fun c hc => hnobody ⟨c, hc⟩]
    exact Mode.mem_order.mpr hein
  obtain ⟨c, hc⟩ := hheld
  refine ⟨c, ⟨b, mode, _, hc, hb, hein⟩, ?_⟩
  rintro d ⟨b', mode', batch', hd, hb', he'⟩
  by_contra hne
  rw [hist.batch_unique hb' hb he' hein] at hd
  exact hist.unique d c b hne hd hc

end Once

theorem swept_of_runs {ι : Type*} [DecidableEq ι] {s : State ι}
    (h : Interleaving.Runs Moves Outside (start ι) s) : Swept s := by
  obtain ⟨shared, owned, hshape, hist⟩ := inv_of_runs h
  have hsplit := take_append_drop s.mem.detached s.mem.inserted
  refine ⟨⟨shared, hshape.chain, ?_⟩, fun e he => ?_, fun d hd => ?_,
    fun b mode batch hb => delivered_initial hshape hist hb, hist.complete,
    fun c b hb => (hshape.holds c).finishes (hshape.nodup c) hb, hist.returned⟩
  · simp [hshape.elements, hist.batches]
  · rw [← hsplit] at he
    rcases mem_append.mp he with hdetached | hlist
    · exact (once_of_detached hshape hist hdetached).imp_right fun h => ⟨h.1, .inr h.2⟩
    · refine .inr ⟨count_eq_zero.mpr fun hdelivered => ?_, .inl ⟨shared, hshape.chain, ?_⟩⟩
      · obtain ⟨d, hd, rfl⟩ := mem_map.mp hdelivered
        obtain ⟨mode, batch, hb, hin⟩ := mem_batch_of_delivered hshape hist (b := d.1) (e := d.2) hd
        have hnodup := hist.nodup
        rw [← hsplit] at hnodup
        exact disjoint_of_nodup_append hnodup (hist.mem_inserted hb hin) hlist
      · rw [hshape.elements]
        exact mem_map_of_mem (mem_reverse.mpr hlist)
  · obtain ⟨mode, batch, hb, hin⟩ := mem_batch_of_delivered hshape hist (b := d.1) (e := d.2) hd
    exact mem_of_mem_take (hist.mem_inserted hb hin)

def play {ι : Type*} [DecidableEq ι] : List (ι × Choice) → State ι → Option (State ι)
  | [], s => some s
  | (c, ch) :: events, s =>
    match step ch s.mem (s.pc c) with
    | some (m, p) => play events ⟨m, Function.update s.pc c p⟩
    | none => none

lemma runs_of_play {ι : Type*} [DecidableEq ι] {events : List (ι × Choice)} :
    ∀ {s s' : State ι}, play events s = some s' → Interleaving.Runs Moves Outside s s' := by
  induction events with
  | nil =>
    intro s s' h
    cases h
    exact .refl
  | cons e events ih =>
    intro s s' h
    rw [play] at h
    split at h
    · rename_i m p hs
      exact .head (.client e.1 ⟨e.2, hs⟩) (ih h)
    · cases h

theorem swept_in_the_middle : ∃ s : State Bool,
    Interleaving.Runs Moves Outside (start Bool) s ∧ s.mem.inserted = [0, 1, 2] ∧
      s.mem.delivered = [(0, 0)] ∧ s.mem.returned = [(true, true), (false, false), (true, true)] ∧
      Swept s := by
  have hplay : (play (List.replicate 4 (false, { place := 1 })
      ++ List.replicate 3 (false, { place := 2 }) ++ [(false, { spurious := true })]
      ++ List.replicate 2 (false, { place := 2 })
      ++ List.replicate 10 (true, { op := some .sweep })
      ++ List.replicate 4 (false, { place := 5 })) (start Bool)).map
        (fun s => (s.mem.inserted, s.mem.delivered, s.mem.returned))
      = some ([0, 1, 2], [(0, 0)], [(true, true), (false, false), (true, true)]) := by
    decide
  obtain ⟨s, hs, hfacts⟩ := map_eq_some_iff.mp hplay
  have hruns := runs_of_play hs
  simp only [Prod.mk.injEq] at hfacts
  obtain ⟨hinserted, hdelivered, hreturned⟩ := hfacts
  exact ⟨s, hruns, hinserted, hdelivered, hreturned, swept_of_runs hruns⟩

end Acc.Thread.AtomicLinkedList
