import Accelerator.FBString.Members

namespace Acc.FBString

open Function List Option Acc.FBString.Core

open Counted

inductive Arg (ι : Type)
  | chars (l : List Byte)
  | str (j : ι)
  | sub (j : ι) (pos n : Nat)
  deriving DecidableEq

inductive Op (ι : Type)
  | construct (i : ι)
  | ofChars (i : ι) (l : List Byte)
  | fill (i : ι) (n : Nat) (b : Byte)
  | copy (i j : ι)
  | move (i j : ι)
  | ofSub (i j : ι) (pos n : Nat)
  | destroy (i : ι)
  | assign (i : ι) (a : Arg ι)
  | moveAssign (i j : ι)
  | assignChar (i : ι) (b : Byte)
  | append (i : ι) (a : Arg ι)
  | appendFill (i : ι) (n : Nat) (b : Byte)
  | pushBack (i : ι) (b : Byte)
  | resize (i : ι) (n : Nat) (b : Byte)
  | reserve (i : ι) (n : Nat)
  | set (i : ι) (pos : Nat) (b : Byte)

structure State (ι : Type) where
  strs : ι → Option Core
  heap : Heap

variable {ι : Type} [DecidableEq ι]

def Arg.source (strs : ι → Option Core) : Arg ι → Option Source
  | chars l => some (.chars l)
  | str j => (strs j).map fun c => .piece c 0 c.getSize
  | sub j pos n => (strs j).bind fun c =>
    if pos ≤ c.getSize then some (.piece c pos (min n (c.getSize - pos))) else none

namespace State

def build (s : State ι) (i : ι) (f : Heap → Core × Heap) : State ι :=
  match s.strs i with
  | some _ => s
  | none => ⟨Function.update s.strs i (some (f s.heap).1), (f s.heap).2⟩

def modify (s : State ι) (i : ι) (f : Core → Heap → Core × Heap) : State ι :=
  match s.strs i with
  | some c => ⟨Function.update s.strs i (some (f c s.heap).1), (f c s.heap).2⟩
  | none => s

def take (s : State ι) (i j : ι) : State ι :=
  match s.strs i, s.strs j with
  | none, some d => { s with strs := Function.update (Function.update s.strs i (some d)) j (some d.reset) }
  | _, _ => s

def drop (s : State ι) (i : ι) : State ι :=
  match s.strs i with
  | some c => ⟨Function.update s.strs i none, FBString.destroy c s.heap⟩
  | none => s

end State

def step (good : Nat → Nat) (sup : Supply) (s : State ι) : Op ι → State ι
  | .construct i => s.build i fun h => (sup.uninit.reset, h)
  | .ofChars i l => s.build i (init good sup l)
  | .fill i n b => s.build i (fill good sup n b)
  | .copy i j =>
    match s.strs j with
    | some d => s.build i (copy good sup d)
    | none => s
  | .move i j => s.take i j
  | .ofSub i j pos n =>
    match (Arg.sub j pos n).source s.strs with
    | some src => s.build i fun h => assign good sup sup.uninit.reset h src
    | none => s
  | .destroy i => s.drop i
  | .assign i a =>
    if a = .str i then s
    else
      match a.source s.strs with
      | some src => s.modify i fun c h => assign good sup c h src
      | none => s
  | .moveAssign i j =>
    if i = j then s
    else if (s.strs i).isSome ∧ (s.strs j).isSome then (s.drop i).take i j
    else s
  | .assignChar i b => s.modify i fun c h => assignChar good sup c h b
  | .append i a =>
    match a.source s.strs with
    | some src => s.modify i fun c h => append good sup c h src
    | none => s
  | .appendFill i n b => s.modify i fun c h => appendFill good sup c h n b
  | .pushBack i b => s.modify i fun c h => pushBack good sup c h b
  | .resize i n b => s.modify i fun c h => resize good sup c h n b
  | .reserve i n => s.modify i fun c h => reserve good sup c h n
  | .set i pos b => s.modify i fun c h => if pos < c.getSize then set good sup c h pos b else (c, h)

abbrev Contents (ι : Type) := ι → Option (List Byte)

def Arg.read (f : Contents ι) : Arg ι → Option (List Byte)
  | chars l => some l
  | str j => f j
  | sub j pos n => (f j).bind fun l => if pos ≤ l.length then some ((l.drop pos).take n) else none

def Contents.build (f : Contents ι) (i : ι) (l : List Byte) : Contents ι :=
  match f i with
  | some _ => f
  | none => Function.update f i (some l)

def Contents.modify (f : Contents ι) (i : ι) (t : List Byte → List Byte) : Contents ι :=
  match f i with
  | some l => Function.update f i (some (t l))
  | none => f

def Contents.take (f : Contents ι) (i j : ι) : Contents ι :=
  match f i, f j with
  | none, some l => Function.update (Function.update f i (some l)) j (some [])
  | _, _ => f

def Op.spec (f : Contents ι) : Op ι → Contents ι
  | construct i => f.build i []
  | ofChars i l => f.build i l
  | fill i n b => f.build i (List.replicate n b)
  | copy i j =>
    match f j with
    | some l => f.build i l
    | none => f
  | move i j => f.take i j
  | ofSub i j pos n =>
    match (Arg.sub j pos n).read f with
    | some l => f.build i l
    | none => f
  | destroy i => Function.update f i none
  | assign i a =>
    match a.read f with
    | some l => f.modify i fun _ => l
    | none => f
  | moveAssign i j =>
    if i = j then f
    else if (f i).isSome ∧ (f j).isSome then Contents.take (Function.update f i none) i j
    else f
  | assignChar i b => f.modify i fun _ => [b]
  | append i a =>
    match a.read f with
    | some m => f.modify i fun l => l ++ m
    | none => f
  | appendFill i n b => f.modify i fun l => l ++ List.replicate n b
  | pushBack i b => f.modify i fun l => l ++ [b]
  | resize i n b => f.modify i fun l => resized l n b
  | reserve i _ => f.modify i fun l => l
  | set i pos b => f.modify i fun l => l.set pos b

def Op.targets : Op ι → List ι
  | construct i | ofChars i _ | fill i _ _ | copy i _ | ofSub i _ _ _ | destroy i | assign i _
  | assignChar i _ | append i _ | appendFill i _ _ | pushBack i _ | resize i _ _ | reserve i _
  | set i _ _ => [i]
  | move i j | moveAssign i j => [i, j]

def Arg.size (strs : ι → Option Core) (a : Arg ι) : Nat := ((a.source strs).map Source.size).getD 0

def Op.amount (strs : ι → Option Core) : Op ι → Nat
  | ofChars _ l => l.length
  | fill _ n _ | appendFill _ n _ | resize _ n _ | reserve _ n => n
  | copy _ j => Arg.size strs (.str j)
  | ofSub _ j pos n => Arg.size strs (.sub j pos n)
  | assign _ a | append _ a => a.size strs
  | assignChar _ _ | pushBack _ _ => 1
  | construct _ | move _ _ | destroy _ | moveAssign _ _ | set _ _ _ => 0

def demand (s : State ι) (op : Op ι) : Nat :=
  match op.targets.head?.bind s.strs with
  | some c => need c (c.getSize + op.amount s.strs)
  | none => 64 + op.amount s.strs

def Op.Apart : Op ι → Prop
  | assign i (.sub j _ _) => j ≠ i
  | append i (.str j) => j ≠ i
  | append i (.sub j _ _) => j ≠ i
  | _ => True

structure StepOk (good : Nat → Nat) (s : State ι) (op : Op ι) (sup : Supply) : Prop where
  fresh : s.heap sup.addr = none
  room : Room good (demand s op)
  apart : op.Apart

section StepOk

variable {good : Nat → Nat} {sup : Supply} {s : State ι} {op : Op ι} (hok : StepOk good s op sup)
include hok

omit [DecidableEq ι] in
lemma StepOk.room_build {i : ι} (hi : op.targets.head? = some i) (hs : s.strs i = none) :
    Room good (64 + op.amount s.strs) := by
  have hroom := hok.room
  rwa [demand, hi, bind_some, hs] at hroom

omit [DecidableEq ι] in
lemma StepOk.room_modify {i : ι} (hi : op.targets.head? = some i) {c : Core} {l : List Byte} {g : Heap}
    (hs : s.strs i = some c) (hh : Holds g c s.heap l) : Room good (need c (l.length + op.amount s.strs)) := by
  have hroom := hok.room
  rw [demand, hi, bind_some, hs] at hroom
  rwa [← hh.getSize_eq]

end StepOk

inductive Run (good : Nat → Nat) : State ι → List (Op ι) → Prop
  | start : Run good ⟨fun _ => none, fun _ => none⟩ []
  | step {s : State ι} {ops : List (Op ι)} (op : Op ι) (sup : Supply) (h : Run good s ops)
      (hok : StepOk good s op sup) : Run good (FBString.step good sup s op) (ops ++ [op])

def State.contents (s : State ι) : Contents ι := fun i => (s.strs i).map fun c => content c s.heap

def State.uses (s : State ι) (a : Addr) (i : ι) : Bool :=
  match s.strs i with
  | some c => c.category = some .isLarge && c.data = a
  | none => false

inductive Slot : Option Core → Hold Addr (List Byte) → Option (List Byte) → Prop
  | empty : Slot none .nothing none
  | full {c : Core} {x : Hold Addr (List Byte)} {l : List Byte} (h : Form c x l) : Slot (some c) x (some l)

structure Inv [Fintype ι] (s : State ι) (f : Contents ι) (holds : ι → Hold Addr (List Byte)) : Prop where
  slot : ∀ i, Slot (s.strs i) (holds i) (f i)
  backed : ∀ i, Backed s.heap (holds i)
  counts : Counts s.heap holds
  same : ∀ i j p v w, holds i = .share p v → holds j = .share p w → s.strs i = s.strs j

section Inv

variable [Fintype ι] {good : Nat → Nat} {sup : Supply} {s : State ι} {f : Contents ι} {holds : ι → Hold Addr (List Byte)}
  (hinv : Inv s f holds)
include hinv

omit [DecidableEq ι] in
lemma Inv.cases (i : ι) : (s.strs i = none ∧ holds i = .nothing ∧ f i = none) ∨
    ∃ c l, s.strs i = some c ∧ f i = some l ∧ Form c (holds i) l := by
  have hslot := hinv.slot i
  generalize s.strs i = o at hslot ⊢
  generalize holds i = x at hslot ⊢
  generalize f i = l at hslot ⊢
  cases hslot with
  | empty => exact .inl ⟨rfl, rfl, rfl⟩
  | full h => exact .inr ⟨_, _, rfl, rfl, h⟩

omit [DecidableEq ι] in
lemma Inv.contents_eq : s.contents = f := by
  funext i
  obtain ⟨hs, -, hf⟩ | ⟨c, l, hs, hf, hform⟩ := hinv.cases i
  · rw [State.contents, hs, hf]
    rfl
  · rw [State.contents, hs, hf, map_some, hform.content_eq (hinv.backed i)]

omit [DecidableEq ι] in
lemma Inv.takes (i : ι) : Takes (release s.heap (holds i)) (holds i) s.heap := (hinv.backed i).takes

variable {i j : ι}

lemma Inv.backed_release (hne : j ≠ i) : Backed (release s.heap (holds i)) (holds j) :=
  hinv.counts.backed_release hne (hinv.takes i) (hinv.backed j)

lemma Inv.replace (i : ι) {o : Option Core} {x : Hold Addr (List Byte)} {l : Option (List Byte)} {h : Heap}
    (hslot : Slot o x l) (hx : Takes (release s.heap (holds i)) x h)
    (hsame : ∀ j ≠ i, ∀ p v w, x = .share p v → holds j = .share p w → o = s.strs j) :
    Inv ⟨update s.strs i o, h⟩ (update f i l) (update holds i x) where
  slot j := by
    by_cases hj : j = i
    · subst hj
      simpa only [update_self] using hslot
    · simpa only [update_of_ne hj] using hinv.slot j
  backed j := by
    by_cases hj : j = i
    · subst hj
      simpa only [update_self] using hx.backed
    · simpa only [update_of_ne hj] using (hinv.backed_release hj).of_takes hx
  counts := hinv.counts.update (hinv.takes i) hx
  same j k p v w hj hk := by
    by_cases hji : j = i
    · subst hji
      rw [update_self] at hj
      by_cases hkj : k = j
      · rw [hkj]
      · rw [update_of_ne hkj] at hk
        simpa only [update_self, update_of_ne hkj] using hsame k hkj p v w hj hk
    rw [update_of_ne hji] at hj
    by_cases hki : k = i
    · subst hki
      rw [update_self] at hk
      simpa only [update_self, update_of_ne hji] using (hsame j hji p w v hk hj).symm
    · rw [update_of_ne hki] at hk
      simpa only [update_of_ne hji, update_of_ne hki] using hinv.same j k p v w hj hk

variable {l m : List Byte} {c d : Core}

lemma Inv.writable (i : ι) {h : Heap} (hw : Writable (release s.heap (holds i)) c h l) :
    ∃ holds', Inv ⟨update s.strs i (some c), h⟩ (update f i (some l)) holds' := by
  obtain ⟨hform, rfl⟩ | ⟨v, he⟩ := hw
  · exact ⟨_, hinv.replace i (.full hform) .nothing fun _ _ _ _ _ hx => by cases hx⟩
  cases he with
  | medium hg hcap hlength htext =>
    exact ⟨_, hinv.replace i (.full (.medium hcap hlength htext)) (.own hg) fun _ _ _ _ _ hx => by cases hx⟩
  | large hg hcap hlength htext =>
    refine ⟨_, hinv.replace i (.full (.large hcap hlength htext)) (.first hg) ?_⟩
    intro j hj p v w hx hhold
    cases hx
    have hbacked := hinv.backed_release hj
    rw [hhold] at hbacked
    obtain ⟨n, hp⟩ := hbacked
    rw [hg] at hp
    cases hp

lemma Inv.becomes (i : ι) {r : Core × Heap} (hc : s.strs i = some c)
    (hb : Becomes (release s.heap (holds i)) c s.heap r l) :
    ∃ holds', Inv ⟨update s.strs i (some r.1), r.2⟩ (update f i (some l)) holds' := by
  obtain hw | ⟨rfl, x, hform, htakes⟩ := hb
  · exact hinv.writable i hw
  have hl : f i = some l := by
    rw [← hinv.contents_eq, State.contents, hc, map_some, hform.content_eq htakes.backed]
  refine ⟨holds, ?_⟩
  rwa [← hc, ← hl, update_eq_self, update_eq_self]

lemma Inv.build (i : ι) {mk : Heap → Core × Heap}
    (hw : s.strs i = none → Writable s.heap (mk s.heap).1 (mk s.heap).2 l) :
    ∃ holds', Inv (s.build i mk) (f.build i l) holds' := by
  obtain ⟨hs, hx, hf⟩ | ⟨c, l', hs, hf, -⟩ := hinv.cases i
  · have hnew := hinv.writable i (c := (mk s.heap).1) (h := (mk s.heap).2) (l := l) (by
      rw [hx]
      exact hw hs)
    simpa only [State.build, hs, Contents.build, hf] using hnew
  · simpa only [State.build, hs, Contents.build, hf] using ⟨holds, hinv⟩

lemma Inv.modify (i : ι) {op : Core → Heap → Core × Heap} {t : List Byte → List Byte}
    (hb : ∀ c l, s.strs i = some c → f i = some l → Holds (release s.heap (holds i)) c s.heap l →
      Becomes (release s.heap (holds i)) c s.heap (op c s.heap) (t l)) :
    ∃ holds', Inv (s.modify i op) (f.modify i t) holds' := by
  obtain ⟨hs, hx, hf⟩ | ⟨c, l, hs, hf, hform⟩ := hinv.cases i
  · simpa only [State.modify, hs, Contents.modify, hf] using ⟨holds, hinv⟩
  · simpa only [State.modify, hs, Contents.modify, hf]
      using hinv.becomes i hs (hb c l hs hf ⟨_, hform, hinv.takes i⟩)

lemma Inv.drop (i : ι) : ∃ holds', Inv (s.drop i) (update f i none) holds' := by
  obtain ⟨hs, hx, hf⟩ | ⟨c, l, hs, hf, hform⟩ := hinv.cases i
  · refine ⟨holds, ?_⟩
    rw [← hf, update_eq_self]
    simpa only [State.drop, hs] using hinv
  · have hnew := hinv.replace i .empty .nothing fun _ _ _ _ _ hx => by cases hx
    refine ⟨update holds i .nothing, ?_⟩
    simpa only [State.drop, hs, hform.destroy_eq] using hnew

lemma Inv.take (i j : ι) : ∃ holds', Inv (s.take i j) (f.take i j) holds' := by
  obtain ⟨hs, hx, hf⟩ | ⟨c, l, hs, hf, -⟩ := hinv.cases i
  swap
  · simpa only [State.take, hs, Contents.take, hf] using ⟨holds, hinv⟩
  obtain ⟨hs', -, hf'⟩ | ⟨d, m, hs', hf', hform⟩ := hinv.cases j
  · simpa only [State.take, hs, hs', Contents.take, hf, hf'] using ⟨holds, hinv⟩
  refine ⟨holds ∘ Equiv.swap i j, ?_⟩
  simp only [State.take, hs, hs', Contents.take, hf, hf']
  have hmoved : ∀ {α : Type} (F : ι → Option α) (y z : Option α), F j = y → ∀ k ≠ j,
      update (update F i y) j z k = F (Equiv.swap i j k) := by
    intro α F y z hy k hk
    rw [update_of_ne hk]
    by_cases hki : k = i
    · simp [hki, hy]
    · rw [update_of_ne hki, Equiv.swap_apply_of_ne_of_ne hki hk]
  have hempty : (holds ∘ Equiv.swap i j) j = .nothing := by
    simp [hx]
  refine ⟨fun k => ?_, fun k => hinv.backed _, hinv.counts.swap i j, fun a b p v w ha hb => ?_⟩
  · by_cases hk : k = j
    · subst hk
      simp only [hempty, update_self]
      exact .full (form_setSmallSize d (Nat.zero_le _))
    · simp only [hmoved s.strs _ _ hs' k hk, hmoved f _ _ hf' k hk]
      exact hinv.slot _
  have haj : a ≠ j := fun e => by rw [e, hempty] at ha; cases ha
  have hbj : b ≠ j := fun e => by rw [e, hempty] at hb; cases hb
  simp only [hmoved s.strs _ _ hs' a haj, hmoved s.strs _ _ hs' b hbj]
  exact hinv.same _ _ p v w ha hb

lemma Inv.copy (hgood : ∀ n, n ≤ good n) (hs : s.strs i = none)
    (hs' : s.strs j = some d) (hf' : f j = some l) (hfresh : s.heap sup.addr = none)
    (hroom : Room good (1 + l.length)) :
    ∃ holds', Inv (s.build i (FBString.copy good sup d)) (f.build i l) holds' := by
  obtain ⟨-, hx, hf⟩ | ⟨c, -, hc, -⟩ := hinv.cases i
  swap
  · rw [hs] at hc
    cases hc
  obtain ⟨hnone, -⟩ | ⟨d', l', hd, hl, hform⟩ := hinv.cases j
  · rw [hs'] at hnone
    cases hnone
  cases hs'.symm.trans hd
  cases hf'.symm.trans hl
  obtain hw | ⟨hcore, htakes⟩ := writable_copy hgood hfresh hform (hinv.backed j) hroom
  · exact hinv.build i fun _ => hw
  have hnew := hinv.replace i (h := (FBString.copy good sup d s.heap).2) (.full hform) (by rwa [hx]) (by
    intro k _ p v w hjp hkp
    rw [← hs']
    exact hinv.same j k p v w hjp hkp)
  refine ⟨update holds i (holds j), ?_⟩
  simp only [State.build, hs, Contents.build, hf, hcore]
  exact hnew

lemma Inv.denotes_piece (hne : j ≠ i) (hform : Form d (holds j) m)
    {pos n : Nat} (hn : pos + n ≤ m.length) :
    (Source.piece d pos n).Denotes (release s.heap (holds i)) ((m.drop pos).take n) := by
  refine ⟨?_, fun x h htakes => ?_⟩
  · rw [length_take, length_drop, Source.size]
    omega
  · exact (hform.text ((hinv.backed_release hne).of_takes htakes)).drop_take hn

lemma Inv.eq_of_data (hne : j ≠ i) (hc : s.strs i = some c)
    (hd : s.strs j = some d) (hform : Form c (holds i) l) (hform' : Form d (holds j) m)
    (hcat : c.category ≠ some .isSmall) (hcat' : d.category ≠ some .isSmall) (hdata : d.data = c.data) :
    c = d := by
  have hplace : ∀ {c' : Core} {x : Hold Addr (List Byte)} {l' : List Byte}, Form c' x l' →
      c'.category ≠ some .isSmall → (∃ v, x = .own c'.data v) ∨ ∃ v, x = .share c'.data v := by
    intro c' x l' hform hcat
    cases hform with
    | small hlen hlast _ => exact absurd (category_small hlen hlast) hcat
    | medium _ _ _ => exact .inl ⟨_, rfl⟩
    | large _ _ _ => exact .inr ⟨_, rfl⟩
  have howned : ∀ k v, (∀ k' ∈ [i, j], (holds k').place = some c.data) → holds k = .own c.data v → False := by
    intro k v hplaces hown
    have htwo := hinv.counts.two_le hne (hplaces i (by simp)) (hplaces j (by simp))
    have hbacked := hinv.backed k
    rw [hown] at hbacked
    have hcell : s.heap c.data = some (.owned v) := hbacked
    have hrefs : refs s.heap c.data = 1 := by rw [refs, hcell]
    omega
  have hi := hplace hform hcat
  have hj := hplace hform' hcat'
  rw [hdata] at hj
  have hplaces : ∀ k ∈ [i, j], (holds k).place = some c.data := by
    intro k hk
    obtain rfl | rfl : k = i ∨ k = j := by simpa using hk
    · obtain ⟨v, h⟩ | ⟨v, h⟩ := hi <;> rw [h] <;> rfl
    · obtain ⟨v, h⟩ | ⟨v, h⟩ := hj <;> rw [h] <;> rfl
  obtain ⟨v, hi⟩ | ⟨v, hi⟩ := hi
  · exact (howned i v hplaces hi).elim
  obtain ⟨w, hj⟩ | ⟨w, hj⟩ := hj
  · exact (howned j w hplaces hj).elim
  have heq := hinv.same i j _ v w hi hj
  rw [hc, hd] at heq
  exact Option.some.inj heq

omit [DecidableEq ι] in
lemma Inv.source_cases (a : Arg ι) : (a.source s.strs = none ∧ a.read f = none) ∨
    (∃ l, a = .chars l) ∨ ∃ j d m pos n, s.strs j = some d ∧ f j = some m ∧ Form d (holds j) m ∧
      pos + n ≤ m.length ∧ a.source s.strs = some (.piece d pos n) ∧
      a.read f = some ((m.drop pos).take n) ∧ (a = .str j ∨ ∃ n', a = .sub j pos n') := by
  cases a with
  | chars l => exact .inr (.inl ⟨l, rfl⟩)
  | str j =>
    obtain ⟨hs, -, hf⟩ | ⟨d, m, hs, hf, hform⟩ := hinv.cases j
    · exact .inl ⟨by rw [Arg.source, hs]; rfl, hf⟩
    · refine .inr (.inr ⟨j, d, m, 0, m.length, hs, hf, hform, by omega, ?_, ?_, .inl rfl⟩)
      · rw [Arg.source, hs, map_some, hform.getSize_eq]
      · simp [Arg.read, hf]
  | sub j pos n =>
    obtain ⟨hs, -, hf⟩ | ⟨d, m, hs, hf, hform⟩ := hinv.cases j
    · exact .inl ⟨by rw [Arg.source, hs]; rfl, by rw [Arg.read, hf]; rfl⟩
    simp only [Arg.source, Arg.read, hs, hf, bind_some, hform.getSize_eq]
    by_cases hpos : pos ≤ m.length
    · refine .inr (.inr ⟨j, d, m, pos, min n (m.length - pos), hs, hf, hform, by omega, if_pos hpos, ?_,
        .inr ⟨n, rfl⟩⟩)
      simp [hpos]
    · exact .inl ⟨if_neg hpos, if_neg hpos⟩

lemma Inv.denotes {a : Arg ι}
    (hne : ∀ j, (s.strs j).isSome → (a = .str j ∨ ∃ pos n, a = .sub j pos n) → j ≠ i) :
    (a.source s.strs = none ∧ a.read f = none) ∨
    ∃ src m, a.source s.strs = some src ∧ a.read f = some m ∧ a.size s.strs = src.size ∧
      src.Denotes (release s.heap (holds i)) m ∧
      ∀ c l, s.strs i = some c → f i = some l → ∀ off, src.offsetIn c = some off →
        off + src.size ≤ l.length ∧ (l.drop off).take src.size = m := by
  have hsize : ∀ {src}, a.source s.strs = some src → a.size s.strs = src.size := by
    intro src hsrc
    simp [Arg.size, hsrc]
  obtain hnone | ⟨l, rfl⟩ | ⟨j, d, m, pos, n, hs, hf, hform, hn, hsrc, hread, hj⟩ := hinv.source_cases a
  · exact .inl hnone
  · exact .inr ⟨.chars l, l, rfl, rfl, rfl, ⟨rfl, fun _ _ _ => rfl⟩, fun _ _ _ _ _ hoff => nomatch hoff⟩
  have hji : j ≠ i := hne j (by rw [hs]; rfl) (hj.imp_right fun ⟨n', h⟩ => ⟨pos, n', h⟩)
  refine .inr ⟨_, _, hsrc, hread, hsize hsrc, hinv.denotes_piece hji hform hn, ?_⟩
  intro c l hc hl off hoff
  rw [Source.offsetIn] at hoff
  split at hoff
  · next hcond =>
      obtain ⟨hcat, hcat', hdata, -⟩ := hcond
      obtain ⟨hnone, -⟩ | ⟨c', l', hc', hl', hform'⟩ := hinv.cases i
      · rw [hc] at hnone
        cases hnone
      cases hc.symm.trans hc'
      cases hl.symm.trans hl'
      have hcd := hinv.eq_of_data hji hc hs hform' hform hcat hcat' hdata
      have hlm : l = m := by
        rw [← hform'.content_eq (hinv.backed i), hcd, hform.content_eq (hinv.backed j)]
      cases hoff
      rw [hlm]
      exact ⟨hn, rfl⟩
  · cases hoff

variable {op : Op ι} (hgood : ∀ n, n ≤ good n) (hok : StepOk good s op sup)
include hgood hok

lemma inv_step : ∃ holds', Inv (step good sup s op) (op.spec f) holds' := by
  have hfresh := hok.fresh
  cases op with
  | construct i =>
    exact hinv.build i fun _ => .inl ⟨form_setSmallSize sup.uninit (Nat.zero_le _), rfl⟩
  | ofChars i l =>
    exact hinv.build i fun hs => writable_init hgood hfresh l
      ((hok.room_build rfl hs).mono (by rw [dataOffset, Op.amount]; omega))
  | fill i n b => exact hinv.build i fun hs => writable_fill hgood b (hok.room_build rfl hs) hfresh
  | copy i j =>
    rw [step, Op.spec]
    obtain ⟨hd, -, hl⟩ | ⟨d, l, hd, hl, hform⟩ := hinv.cases j
    · simp only [hd, hl]
      exact ⟨holds, hinv⟩
    simp only [hd, hl]
    obtain ⟨hs, -, -⟩ | ⟨c, l', hs, hf, -⟩ := hinv.cases i
    · refine hinv.copy hgood hs hd hl hfresh ((hok.room_build rfl hs).mono ?_)
      simp only [Op.amount, Arg.size, Arg.source, hd, map_some, getD_some, Source.size,
        hform.getSize_eq]
      omega
    · simp only [State.build, hs, Contents.build, hf]
      exact ⟨holds, hinv⟩
  | move i j => exact hinv.take i j
  | ofSub i j pos n =>
    rw [step, Op.spec]
    obtain ⟨hs, hx, -⟩ | ⟨c, l', hs, hf, -⟩ := hinv.cases i
    · -- an empty slot is not the slot of the argument
      have hne : ∀ k, (s.strs k).isSome → (Arg.sub j pos n = .str k ∨ ∃ pos' n', Arg.sub j pos n = .sub k pos' n') →
          k ≠ i := by
        intro k hk _ hki
        rw [hki, hs] at hk
        cases hk
      obtain ⟨hsrc, hread⟩ | ⟨src, m, hsrc, hread, hsize, hdenotes, -⟩ := hinv.denotes hne
      · simp only [hsrc, hread]
        exact ⟨holds, hinv⟩
      simp only [hsrc, hread]
      have hform : Form sup.uninit.reset .nothing [] := form_setSmallSize sup.uninit (Nat.zero_le _)
      have hroom := hok.room_build rfl hs
      rw [Op.amount, hsize] at hroom
      rw [hx] at hdenotes
      refine hinv.build i fun _ => ?_
      refine Becomes.writable_of_small (becomes_assign hgood ?_ hfresh ⟨_, hform, .nothing⟩ hdenotes)
        hform.category_nothing
      rwa [need, blockCapacity, if_pos hform.category_nothing, length_nil, Nat.zero_add]
    have hkeep : ∀ mk l, Inv (s.build i mk) (f.build i l) holds := by
      intro mk l
      simpa only [State.build, hs, Contents.build, hf] using hinv
    obtain ⟨hsrc, hread⟩ | ⟨l, ha⟩ | ⟨j', d, m, pos', n', -, -, -, -, hsrc, hread, -⟩ :=
      hinv.source_cases (.sub j pos n)
    · simp only [hsrc, hread]
      exact ⟨holds, hinv⟩
    · cases ha
    · simp only [hsrc, hread]
      exact ⟨holds, hkeep _ _⟩
  | destroy i =>
    exact hinv.drop i
  | assign i a =>
    rw [step, Op.spec]
    by_cases hself : a = .str i
    · rw [if_pos hself, hself, Arg.read]
      refine ⟨holds, ?_⟩
      obtain ⟨-, -, hf⟩ | ⟨c, l, -, hf, -⟩ := hinv.cases i
      · simp only [hf]
        exact hinv
      · simp only [hf, Contents.modify]
        rwa [← hf, update_eq_self]
    rw [if_neg hself]
    have hne : ∀ k, (s.strs k).isSome → (a = .str k ∨ ∃ pos n, a = .sub k pos n) → k ≠ i := by
      rintro k - (rfl | ⟨pos, n, rfl⟩) hki
      · exact hself (by rw [hki])
      · exact hok.apart hki
    obtain ⟨hsrc, hread⟩ | ⟨src, m, hsrc, hread, hsize, hdenotes, -⟩ := hinv.denotes hne
    · simp only [hsrc, hread]
      exact ⟨holds, hinv⟩
    simp only [hsrc, hread]
    refine hinv.modify i fun c l hs _ hh => becomes_assign hgood ?_ hfresh hh hdenotes
    rw [← hsize]
    exact hok.room_modify rfl hs hh
  | moveAssign i j =>
    rw [step, Op.spec]
    split
    · exact ⟨holds, hinv⟩
    have hsome : ∀ k, (f k).isSome = (s.strs k).isSome := by
      intro k
      obtain ⟨hs, -, hf⟩ | ⟨c, l, hs, hf, -⟩ := hinv.cases k <;> rw [hs, hf] <;> rfl
    rw [hsome i, hsome j]
    split
    · obtain ⟨holds', hnew⟩ := hinv.drop i
      exact hnew.take i j
    · exact ⟨holds, hinv⟩
  | assignChar i b =>
    rw [step, Op.spec]
    exact hinv.modify i fun c l hs _ hh => .inl (writable_assignChar hgood b (hok.room_modify rfl hs hh) hfresh hh)
  | append i a =>
    rw [step, Op.spec]
    have hne : ∀ k, (s.strs k).isSome → (a = .str k ∨ ∃ pos n, a = .sub k pos n) → k ≠ i := by
      rintro k - (rfl | ⟨pos, n, rfl⟩) hki
      · exact hok.apart hki
      · exact hok.apart hki
    obtain ⟨hsrc, hread⟩ | ⟨src, m, hsrc, hread, hsize, hdenotes, hinside⟩ := hinv.denotes hne
    · simp only [hsrc, hread]
      exact ⟨holds, hinv⟩
    simp only [hsrc, hread]
    refine hinv.modify i fun c l hs hf hh => becomes_append hgood ?_ hfresh hh hdenotes (hinside c l hs hf)
    rw [← hsize]
    exact hok.room_modify rfl hs hh
  | appendFill i n b =>
    rw [step, Op.spec]
    exact hinv.modify i fun c l hs _ hh => becomes_expandFill hgood b true (hok.room_modify rfl hs hh) hfresh hh
  | pushBack i b =>
    rw [step, Op.spec]
    exact hinv.modify i fun c l hs _ hh => becomes_pushBack hgood b (hok.room_modify rfl hs hh) hfresh hh
  | resize i n b =>
    rw [step, Op.spec]
    exact hinv.modify i fun c l hs _ hh => becomes_resize hgood b (hok.room_modify rfl hs hh) hfresh hh
  | reserve i n =>
    rw [step, Op.spec]
    exact hinv.modify i fun c l hs _ hh => .inl (writable_reserve hgood n (hok.room_modify rfl hs hh) hfresh hh)
  | set i pos b =>
    rw [step, Op.spec]
    refine hinv.modify i fun c l hs _ hh => ?_
    rw [hh.getSize_eq]
    by_cases hpos : pos < l.length
    · rw [if_pos hpos]
      exact .inl (writable_set hgood b hpos (hok.room_modify rfl hs hh) hfresh hh)
    · rw [if_neg hpos, set_eq_of_length_le (by omega)]
      exact .inr ⟨rfl, hh⟩

end Inv

section Frame

variable {f : Contents ι} {i k : ι}

lemma Contents.build_of_ne (hk : k ≠ i) (l : List Byte) : f.build i l k = f k := by
  cases hf : f i with
  | some _ => simp only [Contents.build, hf]
  | none => simp only [Contents.build, hf, update_of_ne hk]

lemma Contents.modify_of_ne (hk : k ≠ i) (t : List Byte → List Byte) : f.modify i t k = f k := by
  cases hf : f i with
  | some _ => simp only [Contents.modify, hf, update_of_ne hk]
  | none => simp only [Contents.modify, hf]

lemma Contents.take_of_ne {j : ι} (hi : k ≠ i) (hj : k ≠ j) : f.take i j k = f k := by
  cases hf : f i with
  | some _ => simp only [Contents.take, hf]
  | none =>
    cases hf' : f j with
    | some _ => simp only [Contents.take, hf, hf', update_of_ne hj, update_of_ne hi]
    | none => simp only [Contents.take, hf, hf']

lemma Op.spec_of_notMem {op : Op ι} (hk : k ∉ op.targets) : op.spec f k = f k := by
  cases op with
  | move i j =>
    simp only [targets, mem_cons, not_mem_nil, or_false, not_or] at hk
    exact Contents.take_of_ne hk.1 hk.2
  | moveAssign i j =>
    simp only [targets, mem_cons, not_mem_nil, or_false, not_or] at hk
    rw [spec]
    split
    · rfl
    split
    · rw [Contents.take_of_ne hk.1 hk.2, update_of_ne hk.1]
    · rfl
  | construct | ofChars | fill => exact Contents.build_of_ne (ne_of_not_mem_cons hk) _
  | assignChar | appendFill | pushBack | resize | reserve | set =>
    exact Contents.modify_of_ne (ne_of_not_mem_cons hk) _
  | destroy => exact update_of_ne (ne_of_not_mem_cons hk) _ _
  | copy i j =>
    cases hf : f j with
    | some l => simpa only [spec, hf] using Contents.build_of_ne (ne_of_not_mem_cons hk) l
    | none => simp only [spec, hf]
  | ofSub i j pos n =>
    cases hf : (Arg.sub j pos n).read f with
    | some l => simpa only [spec, hf] using Contents.build_of_ne (ne_of_not_mem_cons hk) l
    | none => simp only [spec, hf]
  | assign i a =>
    cases hf : a.read f with
    | some m => simpa only [spec, hf] using Contents.modify_of_ne (ne_of_not_mem_cons hk) fun _ => m
    | none => simp only [spec, hf]
  | append i a =>
    cases hf : a.read f with
    | some m => simpa only [spec, hf] using Contents.modify_of_ne (ne_of_not_mem_cons hk) fun l => l ++ m
    | none => simp only [spec, hf]

end Frame

section Runs

variable [Fintype ι] {good : Nat → Nat} (hgood : ∀ n, n ≤ good n) {s : State ι} {ops : List (Op ι)}

variable {f : Contents ι} {holds : ι → Hold Addr (List Byte)}

omit [DecidableEq ι] in
lemma Inv.uses_iff (hinv : Inv s f holds) {a : Addr}
    {n : Nat} {v : List Byte} (ha : s.heap a = some (.counted n v)) (i : ι) :
    s.uses a i = true ↔ (holds i).place = some a := by
  have hbacked := hinv.backed i
  rw [State.uses]
  obtain ⟨hs, hx, -⟩ | ⟨c, l, hs, -, hform⟩ := hinv.cases i
  · rw [hs, hx]
    simp [Hold.place]
  rw [hs]
  generalize holds i = x at hform hbacked
  cases hform with
  | small hlen hlast _ => simp [category_small hlen hlast, Hold.place]
  | @medium p cap w l hcap _ _ =>
    have hne : p ≠ a := by
      rintro rfl
      have hcell : s.heap p = some (.owned w) := hbacked
      rw [ha] at hcell
      cases hcell
    simp [category_encode hcap, Hold.place, hne]
  | large hcap _ _ => simp [category_encode hcap, Hold.place]

omit [DecidableEq ι] in
lemma Inv.count_eq (hinv : Inv s f holds) {a : Addr}
    {n : Nat} {v : List Byte} (ha : s.heap a = some (.counted n v)) :
    n = (Finset.univ.filter fun i => s.uses a i).card := by
  have hcount := hinv.counts a
  rw [refs, ha] at hcount
  rw [Finset.card_filter]
  refine hcount.trans (Finset.sum_congr rfl fun i _ => ?_)
  simp only [hinv.uses_iff ha i]

omit [DecidableEq ι] in
lemma Inv.counted_of_uses (hinv : Inv s f holds)
    {a : Addr} {i : ι} (hi : s.uses a i = true) : ∃ n v, s.heap a = some (.counted n v) := by
  have hbacked := hinv.backed i
  rw [State.uses] at hi
  obtain ⟨hs, -⟩ | ⟨c, l, hs, -, hform⟩ := hinv.cases i
  · rw [hs] at hi
    cases hi
  rw [hs] at hi
  generalize holds i = x at hform hbacked
  cases hform with
  | small hlen hlast _ => simp [category_small hlen hlast] at hi
  | medium hcap _ _ => simp [category_encode hcap] at hi
  | @large p cap w l hcap _ _ =>
    have hp : p = a := by simpa [category_encode hcap] using hi
    obtain ⟨n, hcell⟩ := hbacked
    exact ⟨n + 1, w, hp ▸ hcell⟩

include hgood in
lemma inv_run (hrun : Run good s ops) :
    ∃ holds, Inv s (ops.foldl (fun f op => op.spec f) fun _ => none) holds := by
  induction hrun with
  | start =>
    refine ⟨fun _ => .nothing, fun _ => .empty, fun _ => trivial, fun a => ?_, fun _ _ _ _ _ h => nomatch h⟩
    exact (Finset.sum_eq_zero fun _ _ => if_neg fun h => nomatch h).symm
  | step op sup hrun hok ih =>
    obtain ⟨holds, hinv⟩ := ih
    rw [foldl_append]
    exact inv_step hinv hgood hok

include hgood in
lemma contents_step (hrun : Run good s ops) {op : Op ι} {sup : Supply} (hok : StepOk good s op sup) {k : ι}
    (hk : k ∉ op.targets) : (step good sup s op).contents k = s.contents k := by
  obtain ⟨holds, hinv⟩ := inv_run hgood hrun
  obtain ⟨holds', hinv'⟩ := inv_step hinv hgood hok
  rw [hinv'.contents_eq, hinv.contents_eq, Op.spec_of_notMem hk]

theorem strings_refine (hgood : ∀ n, n ≤ good n) (hrun : Run good s ops) :
    s.contents = ops.foldl (fun f op => op.spec f) (fun _ => none) ∧
    (∀ (op : Op ι) (sup : Supply), StepOk good s op sup → ∀ k ∉ op.targets,
      (step good sup s op).contents k = s.contents k) ∧
    (∀ a n v, s.heap a = some (.counted n v) → n = (Finset.univ.filter fun i => s.uses a i).card) ∧
    ∀ a i, s.uses a i = true → ∃ n v, s.heap a = some (.counted n v) := by
  obtain ⟨holds, hinv⟩ := inv_run hgood hrun
  exact ⟨hinv.contents_eq, fun op sup hok k hk => contents_step hgood hrun hok hk,
    fun a n v ha => hinv.count_eq ha, fun a i hi => hinv.counted_of_uses hi⟩

end Runs

set_option maxRecDepth 8000 in
theorem strings_refine_copied : ∃ s : State (Fin 2),
    Run id s [.ofChars 0 (List.replicate 300 65), .copy 1 0, .set 1 0 66] ∧
    s.contents 0 = some (List.replicate 300 65) ∧ s.contents 1 = some (66 :: List.replicate 299 65) := by
  let sup (a : Addr) : Supply := ⟨a, true, false, fun _ => 0, ⟨0, 0, 0⟩⟩
  have hroom : ∀ n ≤ 2 ^ 62, Room id n := fun n hn k hk => le_trans hk hn
  have hstart : Run id (⟨fun _ => none, fun _ => none⟩ : State (Fin 2)) [] := .start
  have hmade := hstart.step (.ofChars 0 (List.replicate 300 65)) (sup 1)
    ⟨rfl, hroom _ (by decide), trivial⟩
  have hcopied := hmade.step (.copy 1 0) (sup 2)
    ⟨isNone_iff_eq_none.mp (by decide), hroom _ (by decide), trivial⟩
  have hwritten := hcopied.step (.set 1 0 66) (sup 2)
    ⟨isNone_iff_eq_none.mp (by decide), hroom _ (by decide), trivial⟩
  have hcontents := (strings_refine (fun n => le_refl n) hwritten).1
  refine ⟨_, hwritten, ?_, ?_⟩
  · rw [hcontents]
    decide
  · rw [hcontents]
    decide

end Acc.FBString
