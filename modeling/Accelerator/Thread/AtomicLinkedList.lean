import Accelerator.Chain
import Accelerator.Interleaving

namespace Acc.Thread.AtomicLinkedList

open Function List

abbrev Ptr := Nat

abbrev null : Ptr := 0

inductive Mode
  | sweep
  | reverseSweep
  deriving DecidableEq

inductive Pc
  | idle
  | insertLoad (t : Ptr)
  | insertLink (t oldHead : Ptr)
  | insertCas (t oldHead : Ptr)
  | exchange (mode : Mode)
  | reverse (b : Nat) (head rhead : Ptr)
  | reverseLink (b : Nat) (t head rhead : Ptr)
  | unlink (mode : Mode) (b : Nat) (head : Ptr)
  | unlinkLink (mode : Mode) (b : Nat) (t head : Ptr)
  | callback (mode : Mode) (b : Nat) (t head : Ptr)
  | delete (mode : Mode) (b : Nat) (t head : Ptr)

structure Mem where
  head : Ptr := null
  next : Ptr → Ptr := fun _ => null
  data : Ptr → Option Nat := fun _ => none
  calls : Nat := 0
  inserted : List Nat := []
  detached : Nat := 0
  batches : List (Mode × List Nat) := []
  delivered : List (Nat × Nat) := []
  returned : List (Bool × Bool) := []

structure Choice where
  op : Option Mode := none
  place : Ptr := null
  spurious : Bool := false

def setNext (m : Mem) (t next : Ptr) : Mem := { m with next := Function.update m.next t next }

def step (ch : Choice) (m : Mem) : Pc → Option (Mem × Pc)
  | .idle =>
    match ch.op with
    | some mode => some (m, .exchange mode)
    | none =>
      if ch.place ≠ null ∧ m.data ch.place = none then
        some ({ setNext m ch.place null with
            data := Function.update m.data ch.place (some m.calls), calls := m.calls + 1 },
          .insertLoad ch.place)
      else none
  | .insertLoad t => some (m, .insertLink t m.head)
  | .insertLink t oldHead => some (setNext m t oldHead, .insertCas t oldHead)
  | .insertCas t oldHead =>
    if m.head = oldHead ∧ ch.spurious = false then
      some ({ m with
          head := t
          inserted := m.inserted ++ (m.data t).toList
          returned := m.returned ++
            [(decide (oldHead = null), decide (m.detached = m.inserted.length))] }, .idle)
    else some (m, .insertLink t m.head)
  | .exchange mode =>
    let m' := { m with
      head := null
      detached := m.inserted.length
      batches := m.batches ++ [(mode, m.inserted.drop m.detached)] }
    let b := m.batches.length
    match mode with
    | .sweep => some (m', if m.head = null then .idle else .reverse b m.head null)
    | .reverseSweep => some (m', .unlink .reverseSweep b m.head)
  | .reverse b head rhead =>
    some (m, if head = null then .unlink .sweep b rhead
      else .reverseLink b head (m.next head) rhead)
  | .reverseLink b t head rhead => some (setNext m t rhead, .reverse b head t)
  | .unlink mode b head =>
    if head = null then
      match mode with
      | .sweep => some (m, .exchange .sweep)
      | .reverseSweep => some (m, .idle)
    else some (m, .unlinkLink mode b head (m.next head))
  | .unlinkLink mode b t head => some (setNext m t null, .callback mode b t head)
  | .callback mode b t head =>
    some ({ m with delivered := m.delivered ++ (m.data t).toList.map fun e => (b, e) },
      .delete mode b t head)
  | .delete mode b t head =>
    some ({ m with data := Function.update m.data t none }, .unlink mode b head)

def Moves (m : Mem) (p : Pc) (m' : Mem) (p' : Pc) : Prop := ∃ ch, step ch m p = some (m', p')

def Outside (_ _ : Mem) : Prop := False

abbrev State (ι : Type*) := Interleaving.State Mem Pc ι

def start (ι : Type*) : State ι := .all ι {} .idle

def Pc.batch : Pc → Option Nat
  | .reverse b _ _ => some b
  | .reverseLink b _ _ _ => some b
  | .unlink _ b _ => some b
  | .unlinkLink _ b _ _ => some b
  | .callback _ b _ _ => some b
  | .delete _ b _ _ => some b
  | _ => none

def Mem.deliveredOf (m : Mem) (b : Nat) : List Nat :=
  (m.delivered.filter fun d => d.1 = b).map Prod.snd

def Mode.order : Mode → List Nat → List Nat
  | .sweep, l => l
  | .reverseSweep, l => l.reverse

def Fresh (m : Mem) (t : Ptr) : Prop := t ≠ null ∧ ∃ e, m.data t = some e ∧ e ∉ m.inserted

def Carries (m : Mem) (mode : Mode) (b : Nat) (ps : List Ptr) : Prop :=
  ∃ batch, m.batches[b]? = some (mode, batch) ∧
    (m.deliveredOf b).map some ++ ps.map m.data = (mode.order batch).map some

def Holds (m : Mem) : Pc → List Ptr → Prop
  | .idle, ps => ps = []
  | .exchange _, ps => ps = []
  | .insertLoad t, ps => ps = [t] ∧ Fresh m t
  | .insertLink t _, ps => ps = [t] ∧ Fresh m t
  | .insertCas t oldHead, ps => ps = [t] ∧ Fresh m t ∧ m.next t = oldHead
  | .reverse b head rhead, ps => ∃ l r, ps = l.reverse ++ r ∧ Chain m.next null head l ∧
      Chain m.next null rhead r ∧ Carries m .sweep b ps
  | .reverseLink b t head rhead, ps => ∃ l r, ps = l.reverse ++ t :: r ∧ t ≠ null ∧
      Chain m.next null head l ∧ Chain m.next null rhead r ∧ Carries m .sweep b ps
  | .unlink mode b head, ps => Chain m.next null head ps ∧ Carries m mode b ps
  | .unlinkLink mode b t head, ps =>
    ∃ l, ps = t :: l ∧ Chain m.next null head l ∧ Carries m mode b ps
  | .callback mode b t head, ps =>
    ∃ l, ps = t :: l ∧ Chain m.next null head l ∧ Carries m mode b ps
  | .delete mode b t head, ps =>
    ∃ l, ps = t :: l ∧ Chain m.next null head l ∧ m.data t ≠ none ∧ Carries m mode b l

section Holds

variable {m m' : Mem} {p : Pc} {ps : List Ptr} {mode : Mode} {b : Nat}

lemma Carries.data_ne_none (h : Carries m mode b ps) : ∀ t ∈ ps, m.data t ≠ none := by
  obtain ⟨batch, -, heq⟩ := h
  intro t ht hnone
  have hmem : m.data t ∈ (mode.order batch).map some :=
    heq ▸ mem_append_right _ (mem_map_of_mem ht)
  rw [hnone] at hmem
  obtain ⟨e, -, he⟩ := mem_map.mp hmem
  cases he

lemma Holds.data_ne_none (h : Holds m p ps) : ∀ t ∈ ps, m.data t ≠ none := by
  have hfresh : ∀ {t}, ps = [t] → Fresh m t → ∀ q ∈ ps, m.data q ≠ none := by
    rintro t rfl ⟨-, e, he, -⟩ q hq
    rw [mem_singleton.mp hq, he]
    nofun
  cases p with
  | idle | exchange => rw [show ps = [] from h]; nofun
  | insertLoad | insertLink => exact hfresh h.1 h.2
  | insertCas => exact hfresh h.1 h.2.1
  | reverse =>
    obtain ⟨l, r, -, -, -, hc⟩ := h
    exact hc.data_ne_none
  | reverseLink =>
    obtain ⟨l, r, -, -, -, -, hc⟩ := h
    exact hc.data_ne_none
  | unlink => exact h.2.data_ne_none
  | unlinkLink | callback =>
    obtain ⟨l, -, -, hc⟩ := h
    exact hc.data_ne_none
  | delete =>
    obtain ⟨l, rfl, -, ht, hc⟩ := h
    intro q hq
    rcases mem_cons.mp hq with rfl | hq
    · exact ht
    · exact hc.data_ne_none q hq

lemma deliveredOf_append {b' e : Nat} :
    Mem.deliveredOf { m with delivered := m.delivered ++ [(b, e)] } b'
      = m.deliveredOf b' ++ if b = b' then [e] else [] := by
  rw [Mem.deliveredOf, filter_append, map_append, ← Mem.deliveredOf]
  by_cases hb : b = b' <;> simp [hb]

lemma Carries.deliver {t : Ptr} {e : Nat} (h : Carries m mode b (t :: ps)) (he : m.data t = some e) :
    Carries { m with delivered := m.delivered ++ [(b, e)] } mode b ps := by
  obtain ⟨batch, hbatch, heq⟩ := h
  refine ⟨batch, hbatch, ?_⟩
  have hmap : (t :: ps).map m.data = some e :: ps.map m.data := by rw [map_cons, he]
  rw [deliveredOf_append, if_pos rfl, ← heq, hmap, map_append, append_assoc]
  rfl

lemma Carries.delete {t : Ptr} (h : Carries m mode b ps) (ht : t ∉ ps) :
    Carries { m with data := update m.data t none } mode b ps := by
  obtain ⟨batch, hbatch, heq⟩ := h
  refine ⟨batch, hbatch, ?_⟩
  rw [← heq]
  congr 1
  refine map_congr_left fun q hq => ?_
  have hne : q ≠ t := fun heq => ht (heq ▸ hq)
  exact update_of_ne hne ..

lemma Carries.done (h : Carries m mode b []) : ∀ mode' batch, m.batches[b]? = some (mode', batch) →
    m.deliveredOf b = mode'.order batch := by
  intro mode' batch' hbatch'
  obtain ⟨batch, hbatch, heq⟩ := h
  cases hbatch.symm.trans hbatch'
  rw [map_nil, append_nil] at heq
  exact (map_injective_iff.mpr fun _ _ h => Option.some.inj h) heq

lemma Holds.carries (h : Holds m p ps) (hb : p.batch = some b) : ∃ mode qs, Carries m mode b qs := by
  cases p with
  | reverse =>
    obtain ⟨l, r, -, -, -, hc⟩ := h
    cases hb
    exact ⟨_, _, hc⟩
  | reverseLink =>
    obtain ⟨l, r, -, -, -, -, hc⟩ := h
    cases hb
    exact ⟨_, _, hc⟩
  | unlink =>
    cases hb
    exact ⟨_, _, h.2⟩
  | unlinkLink | callback =>
    obtain ⟨l, -, -, hc⟩ := h
    cases hb
    exact ⟨_, _, hc⟩
  | delete =>
    obtain ⟨l, -, -, -, hc⟩ := h
    cases hb
    exact ⟨_, _, hc⟩
  | _ => cases hb

structure Keeps (m m' : Mem) (p : Pc) (ps : List Ptr) : Prop where
  next : ∀ t ∈ ps, m'.next t = m.next t
  data : ∀ t ∈ ps, m'.data t = m.data t
  inserted : ∀ t ∈ ps, ∀ e, m.data t = some e → e ∉ m.inserted → e ∉ m'.inserted
  batches : ∀ b, p.batch = some b → ∀ x, m.batches[b]? = some x → m'.batches[b]? = some x
  delivered : ∀ b, p.batch = some b → m'.deliveredOf b = m.deliveredOf b

lemma Keeps.carries {qs : List Ptr} (hk : Keeps m m' p ps) (hb : p.batch = some b)
    (hqs : ∀ t ∈ qs, t ∈ ps) (h : Carries m mode b qs) : Carries m' mode b qs := by
  obtain ⟨batch, hbatch, heq⟩ := h
  refine ⟨batch, hk.batches b hb _ hbatch, ?_⟩
  rw [hk.delivered b hb, ← heq]
  congr 1
  exact map_congr_left fun t ht => hk.data t (hqs t ht)

lemma Keeps.chain {a : Ptr} {qs : List Ptr} (hk : Keeps m m' p ps) (hqs : ∀ t ∈ qs, t ∈ ps)
    (h : Chain m.next null a qs) : Chain m'.next null a qs :=
  h.congr fun t ht => hk.next t (hqs t ht)

lemma Keeps.fresh {t : Ptr} (hk : Keeps m m' p ps) (ht : t ∈ ps) (h : Fresh m t) : Fresh m' t := by
  obtain ⟨hnull, e, he, hnot⟩ := h
  exact ⟨hnull, e, (hk.data t ht).trans he, hk.inserted t ht e he hnot⟩

lemma Holds.frame (h : Holds m p ps) (hk : Keeps m m' p ps) : Holds m' p ps := by
  cases p with
  | idle | exchange => exact h
  | insertLoad | insertLink =>
    obtain ⟨rfl, hf⟩ := h
    exact ⟨rfl, hk.fresh mem_cons_self hf⟩
  | insertCas =>
    obtain ⟨rfl, hf, hnext⟩ := h
    exact ⟨rfl, hk.fresh mem_cons_self hf, (hk.next _ mem_cons_self).trans hnext⟩
  | reverse =>
    obtain ⟨l, r, rfl, hl, hr, hc⟩ := h
    exact ⟨l, r, rfl, hk.chain (fun t ht => mem_append_left _ (mem_reverse.mpr ht)) hl,
      hk.chain (fun t ht => mem_append_right _ ht) hr, hk.carries rfl (fun _ => id) hc⟩
  | reverseLink =>
    obtain ⟨l, r, rfl, ht, hl, hr, hc⟩ := h
    exact ⟨l, r, rfl, ht,
      hk.chain (fun t ht => mem_append_left _ (mem_reverse.mpr ht)) hl,
      hk.chain (fun t ht => mem_append_right _ (mem_cons_of_mem _ ht)) hr,
      hk.carries rfl (fun _ => id) hc⟩
  | unlink => exact ⟨hk.chain (fun _ => id) h.1, hk.carries rfl (fun _ => id) h.2⟩
  | unlinkLink | callback =>
    obtain ⟨l, rfl, hl, hc⟩ := h
    exact ⟨l, rfl, hk.chain (fun _ => mem_cons_of_mem _) hl, hk.carries rfl (fun _ => id) hc⟩
  | delete =>
    obtain ⟨l, rfl, hl, ht, hc⟩ := h
    refine ⟨l, rfl, hk.chain (fun _ => mem_cons_of_mem _) hl, ?_,
      hk.carries rfl (fun _ => mem_cons_of_mem _) hc⟩
    rw [hk.data _ mem_cons_self]
    exact ht

end Holds

section Shape

variable {ι : Type*} [DecidableEq ι]

structure Shape (m : Mem) (pc : ι → Pc) (shared : List Ptr) (owned : ι → List Ptr) : Prop where
  chain : Chain m.next null m.head shared
  elements : shared.map m.data = (m.inserted.drop m.detached).reverse.map some
  holds : ∀ c, Holds m (pc c) (owned c)
  nodup : ∀ c, (owned c).Nodup
  apart : ∀ c, ∀ t ∈ owned c, t ∉ shared
  others : ∀ c d, c ≠ d → ∀ t ∈ owned c, t ∉ owned d

variable {m m' : Mem} {pc : ι → Pc} {shared shared' : List Ptr} {owned : ι → List Ptr} {c : ι}
  {p' : Pc} {ps' : List Ptr}

omit [DecidableEq ι] in
lemma Shape.data_ne_none (h : Shape m pc shared owned) : ∀ t ∈ shared, m.data t ≠ none := by
  intro t ht hnone
  have hmem : m.data t ∈ (m.inserted.drop m.detached).reverse.map some :=
    h.elements ▸ mem_map_of_mem ht
  rw [hnone] at hmem
  obtain ⟨e, -, he⟩ := mem_map.mp hmem
  cases he

lemma Shape.client (h : Shape m pc shared owned) (hchain : Chain m'.next null m'.head shared')
    (helements : shared'.map m'.data = (m'.inserted.drop m'.detached).reverse.map some)
    (hholds : Holds m' p' ps') (hnodup : ps'.Nodup) (hapart : ∀ t ∈ ps', t ∉ shared')
    (hfrom : ∀ t, t ∈ ps' ∨ t ∈ shared' → t ∈ owned c ∨ t ∈ shared ∨ m.data t = none)
    (hkeeps : ∀ d, d ≠ c → Keeps m m' (pc d) (owned d)) :
    Shape m' (update pc c p') shared' (update owned c ps') := by
  have hother : ∀ d, d ≠ c → ∀ t ∈ owned d, ¬ (t ∈ ps' ∨ t ∈ shared') := by
    intro d hd t ht hin
    rcases hfrom t hin with hown | hshared | hnone
    · exact h.others d c hd t ht hown
    · exact h.apart d t ht hshared
    · exact (h.holds d).data_ne_none t ht hnone
  refine ⟨hchain, helements, fun d => ?_, fun d => ?_, fun d => ?_, fun d d' hdd' => ?_⟩
  · by_cases hd : d = c
    · rw [hd, update_self, update_self]
      exact hholds
    · rw [update_of_ne hd, update_of_ne hd]
      exact (h.holds d).frame (hkeeps d hd)
  · by_cases hd : d = c
    · rw [hd, update_self]
      exact hnodup
    · rw [update_of_ne hd]
      exact h.nodup d
  · by_cases hd : d = c
    · rw [hd, update_self]
      exact hapart
    · rw [update_of_ne hd]
      exact fun t ht hin => hother d hd t ht (.inr hin)
  by_cases hd : d = c
  · have hd' : d' ≠ c := fun heq => hdd' (hd.trans heq.symm)
    rw [hd, update_self, update_of_ne hd']
    exact fun t ht hin => hother d' hd' t hin (.inl ht)
  rw [update_of_ne hd]
  by_cases hd' : d' = c
  · rw [hd', update_self]
    exact fun t ht hin => hother d hd t ht (.inl hin)
  · rw [update_of_ne hd']
    exact h.others d d' hdd'

lemma Shape.stay (h : Shape m pc shared owned) (hchain : Chain m'.next null m'.head shared)
    (hdata : ∀ t ∈ shared, m'.data t = m.data t) (hinserted : m'.inserted = m.inserted)
    (hdetached : m'.detached = m.detached) (hholds : Holds m' p' (owned c))
    (hkeeps : ∀ d, d ≠ c → Keeps m m' (pc d) (owned d)) :
    Shape m' (update pc c p') shared owned := by
  have helements : shared.map m'.data = (m'.inserted.drop m'.detached).reverse.map some := by
    rw [hinserted, hdetached, ← h.elements]
    exact map_congr_left hdata
  have hshape := h.client hchain helements hholds (h.nodup c) (h.apart c)
    (fun t ht => ht.imp_right .inl) hkeeps
  rwa [update_eq_self] at hshape

end Shape

section History

variable {ι : Type*} [DecidableEq ι]

structure History (m : Mem) (pc : ι → Pc) : Prop where
  injective : ∀ t t' e, m.data t = some e → m.data t' = some e → t = t'
  known : ∀ t e, m.data t = some e → e < m.calls
  called : ∀ e ∈ m.inserted, e < m.calls
  nodup : m.inserted.Nodup
  detached : m.detached ≤ m.inserted.length
  batches : (m.batches.map Prod.snd).flatten = m.inserted.take m.detached
  numbered : ∀ d ∈ m.delivered, d.1 < m.batches.length
  unique : ∀ c d b, c ≠ d → (pc c).batch = some b → (pc d).batch ≠ some b
  complete : ∀ b mode batch, m.batches[b]? = some (mode, batch) → (∀ c, (pc c).batch ≠ some b) →
    m.deliveredOf b = mode.order batch
  returned : ∀ r ∈ m.returned, r.1 = r.2

variable {m m' : Mem} {pc : ι → Pc} {c : ι} {p' : Pc}

lemma batch_update (h : p'.batch = (pc c).batch) (d : ι) :
    (update pc c p' d).batch = (pc d).batch := by
  by_cases hd : d = c
  · rw [hd, update_self]
    exact h
  · rw [update_of_ne hd]

lemma History.stay (h : History m pc) (hdata : ∀ t e, m'.data t = some e → m.data t = some e)
    (hcalls : m'.calls = m.calls) (hinserted : m'.inserted = m.inserted)
    (hdetached : m'.detached = m.detached) (hbatches : m'.batches = m.batches)
    (hdelivered : m'.delivered = m.delivered) (hreturned : m'.returned = m.returned)
    (hbatch : p'.batch = (pc c).batch) : History m' (update pc c p') := by
  have hsame := batch_update hbatch
  refine ⟨fun t t' e ht ht' => h.injective t t' e (hdata t e ht) (hdata t' e ht'), ?_, ?_, ?_, ?_, ?_,
    ?_, ?_, ?_, ?_⟩
  · rw [hcalls]
    exact fun t e ht => h.known t e (hdata t e ht)
  · rw [hcalls, hinserted]
    exact h.called
  · rw [hinserted]
    exact h.nodup
  · rw [hdetached, hinserted]
    exact h.detached
  · rw [hbatches, hinserted, hdetached]
    exact h.batches
  · rw [hdelivered, hbatches]
    exact h.numbered
  · simp only [hsame]
    exact h.unique
  · simp only [hsame, hbatches, Mem.deliveredOf, hdelivered]
    exact h.complete
  · rw [hreturned]
    exact h.returned

lemma History.leave (h : History m pc) {b : Nat} (hb : (pc c).batch = some b)
    (hp' : p'.batch = none)
    (hdone : ∀ mode batch, m.batches[b]? = some (mode, batch) → m.deliveredOf b = mode.order batch) :
    History m (update pc c p') := by
  have hsub : ∀ d k, (update pc c p' d).batch = some k → (pc d).batch = some k := by
    intro d k hk
    by_cases hd : d = c
    · rw [hd, update_self, hp'] at hk
      cases hk
    · rwa [update_of_ne hd] at hk
  refine ⟨h.injective, h.known, h.called, h.nodup, h.detached, h.batches, h.numbered, ?_, ?_,
    h.returned⟩
  · exact fun d d' k hne hd hd' => h.unique d d' k hne (hsub d k hd) (hsub d' k hd')
  intro k mode batch hk hnobody
  by_cases hkb : k = b
  · rw [hkb] at hk ⊢
    exact hdone mode batch hk
  refine h.complete k mode batch hk fun d hd => ?_
  by_cases hdc : d = c
  · rw [hdc, hb] at hd
    exact hkb (Option.some.inj hd).symm
  · exact hnobody d (by rwa [update_of_ne hdc])

lemma History.insert (h : History m pc) {t e : Nat} {r : Bool × Bool} (he : m.data t = some e)
    (hnot : e ∉ m.inserted) (hr : r.1 = r.2) (hc : (pc c).batch = none) (hp' : p'.batch = none) :
    History { m with head := t, inserted := m.inserted ++ (m.data t).toList,
                     returned := m.returned ++ [r] } (update pc c p') := by
  have hsame := batch_update (hp'.trans hc.symm)
  have htoList : (m.data t).toList = [e] := by rw [he, Option.toList_some]
  refine ⟨h.injective, h.known, fun e' he' => ?_, ?_, ?_, ?_, h.numbered, ?_, ?_, fun r' hr' => ?_⟩
  · replace he' : e' ∈ m.inserted ++ (m.data t).toList := he'
    rw [htoList] at he'
    rcases mem_append.mp he' with hold | hnew
    · exact h.called e' hold
    · rw [mem_singleton.mp hnew]
      exact h.known t e he
  · show (m.inserted ++ (m.data t).toList).Nodup
    rw [htoList]
    rw [← concat_eq_append]
    exact h.nodup.concat hnot
  · show m.detached ≤ (m.inserted ++ (m.data t).toList).length
    rw [length_append]
    exact h.detached.trans (Nat.le_add_right _ _)
  · show _ = (m.inserted ++ (m.data t).toList).take m.detached
    rw [take_append_of_le_length h.detached]
    exact h.batches
  · simp only [hsame]
    exact h.unique
  · simp only [hsame]
    exact h.complete
  rcases mem_append.mp hr' with hold | hnew
  · exact h.returned r' hold
  · rw [mem_singleton.mp hnew]
    exact hr

omit [DecidableEq ι] in
lemma History.deliveredOf_new (h : History m pc) : m.deliveredOf m.batches.length = [] := by
  have hfilter : m.delivered.filter (fun d => d.1 = m.batches.length) = [] := by
    refine filter_eq_nil_iff.mpr fun d hd heq => ?_
    exact absurd (of_decide_eq_true heq) (h.numbered d hd).ne
  rw [Mem.deliveredOf, hfilter]
  rfl

lemma History.exchange (h : History m pc) {mode : Mode} (hc : (pc c).batch = none)
    (hholders : ∀ d b, (pc d).batch = some b → b < m.batches.length)
    (hp' : p'.batch = some m.batches.length ∨ p'.batch = none ∧ m.inserted.drop m.detached = []) :
    History { m with head := null, detached := m.inserted.length,
                     batches := m.batches ++ [(mode, m.inserted.drop m.detached)] }
      (update pc c p') := by
  have hold : ∀ d b, (update pc c p' d).batch = some b →
      (pc d).batch = some b ∨ d = c ∧ b = m.batches.length := by
    intro d b hb
    by_cases hd : d = c
    · rw [hd, update_self] at hb
      rcases hp' with hp' | ⟨hp', -⟩
      · exact .inr ⟨hd, Option.some.inj (hb.symm.trans hp')⟩
      · rw [hp'] at hb
        cases hb
    · rw [update_of_ne hd] at hb
      exact .inl hb
  refine ⟨h.injective, h.known, h.called, h.nodup, le_rfl, ?_, fun d hd => ?_, ?_, ?_, h.returned⟩
  · show ((m.batches ++ [(mode, m.inserted.drop m.detached)]).map Prod.snd).flatten
      = m.inserted.take m.inserted.length
    rw [map_append, flatten_append, h.batches, take_length]
    exact (congrArg _ (append_nil _)).trans (take_append_drop _ _)
  · show d.1 < (m.batches ++ [(mode, m.inserted.drop m.detached)]).length
    rw [length_append]
    exact (h.numbered d hd).trans (Nat.lt_succ_self _)
  · intro d d' b hne hd hd'
    rcases hold d b hd with hd | ⟨hd, hb⟩
    · rcases hold d' b hd' with hd' | ⟨-, hb⟩
      · exact h.unique d d' b hne hd hd'
      · exact absurd hb (hholders d b hd).ne
    · rcases hold d' b hd' with hd' | ⟨hd', -⟩
      · exact absurd hb (hholders d' b hd').ne
      · exact hne (hd.trans hd'.symm)
  intro b mode' batch hb hnobody
  show m.deliveredOf b = mode'.order batch
  rcases lt_trichotomy b m.batches.length with hlt | heq | hgt
  · rw [getElem?_append_left hlt] at hb
    refine h.complete b mode' batch hb fun d hd => ?_
    by_cases hdc : d = c
    · rw [hdc, hc] at hd
      cases hd
    · exact hnobody d (by rwa [update_of_ne hdc])
  · rw [heq, getElem?_concat_length] at hb
    rcases hp' with hp' | ⟨-, hempty⟩
    · exact absurd (heq ▸ hp') (by simpa using hnobody c)
    rw [hempty] at hb
    cases hb
    rw [heq, h.deliveredOf_new]
    cases mode <;> rfl
  · rw [getElem?_eq_none (by simpa using hgt)] at hb
    cases hb

lemma History.deliver (h : History m pc) {b e : Nat} (hb : b < m.batches.length)
    (hc : (pc c).batch = some b) (hp' : p'.batch = some b) :
    History { m with delivered := m.delivered ++ [(b, e)] } (update pc c p') := by
  have hsame := batch_update (hp'.trans hc.symm)
  refine ⟨h.injective, h.known, h.called, h.nodup, h.detached, h.batches, fun d hd => ?_, ?_, ?_,
    h.returned⟩
  · rcases mem_append.mp hd with hold | hnew
    · exact h.numbered d hold
    · rw [mem_singleton.mp hnew]
      exact hb
  · simp only [hsame]
    exact h.unique
  simp only [hsame]
  intro b' mode batch hb' hnobody
  have hne : b ≠ b' := fun heq => hnobody c (heq ▸ hc)
  rw [deliveredOf_append, if_neg hne, append_nil]
  exact h.complete b' mode batch hb' hnobody

lemma History.allocate (h : History m pc) {t : Ptr} {next : Ptr → Ptr}
    (hc : (pc c).batch = none) (hp' : p'.batch = none) :
    History { m with next, data := update m.data t (some m.calls), calls := m.calls + 1 }
      (update pc c p') := by
  have hsame := batch_update (hp'.trans hc.symm)
  have hdata : ∀ q e, update m.data t (some m.calls) q = some e →
      q = t ∧ e = m.calls ∨ q ≠ t ∧ m.data q = some e := by
    intro q e hq
    by_cases hqt : q = t
    · rw [hqt, update_self] at hq
      exact .inl ⟨hqt, (Option.some.inj hq).symm⟩
    · rw [update_of_ne hqt] at hq
      exact .inr ⟨hqt, hq⟩
  refine ⟨fun q q' e hq hq' => ?_, fun q e hq => ?_, fun e he => ?_, h.nodup, h.detached, h.batches,
    h.numbered, ?_, ?_, h.returned⟩
  · rcases hdata q e hq with ⟨hqt, he⟩ | ⟨-, hold⟩
    · rcases hdata q' e hq' with ⟨hqt', -⟩ | ⟨-, hold'⟩
      · exact hqt.trans hqt'.symm
      · exact absurd he (h.known q' e hold').ne
    · rcases hdata q' e hq' with ⟨-, he⟩ | ⟨-, hold'⟩
      · exact absurd he (h.known q e hold).ne
      · exact h.injective q q' e hold hold'
  · rcases hdata q e hq with ⟨-, he⟩ | ⟨-, hold⟩
    · rw [he]
      exact Nat.lt_succ_self _
    · exact (h.known q e hold).trans (Nat.lt_succ_self _)
  · exact (h.called e he).trans (Nat.lt_succ_self _)
  · simp only [hsame]
    exact h.unique
  · simp only [hsame]
    exact h.complete

end History

end Acc.Thread.AtomicLinkedList
