import Accelerator.Io.Taking

namespace Acc.Io

open Function Option Multiset IOBufQueue

open Refs

variable {ι κ : Type} [DecidableEq ι] [DecidableEq κ]

structure World (ι κ : Type) where
  store : Store := []
  chains : ι → List IOBuf := fun _ => []
  queues : κ → IOBufQueue

namespace World

def heads (w : World ι κ) : ι ⊕ κ → List IOBuf := Sum.elim w.chains fun q => (w.queues q).head

def contents (w : World ι κ) (x : ι ⊕ κ) : List UInt8 := content w.store (w.heads x)

def live [Fintype ι] [Fintype κ] (w : World ι κ) : Multiset IOBuf := total w.heads

def setChain (w : World ι κ) (st : Store) (i : ι) (c : List IOBuf) : World ι κ :=
  { w with store := st, chains := Function.update w.chains i c }

def setQueue (w : World ι κ) (st : Store) (q : κ) (v : IOBufQueue) : World ι κ :=
  { w with store := st, queues := Function.update w.queues q v }

def setHead (w : World ι κ) (st : Store) (x : ι ⊕ κ) (c : List IOBuf) : World ι κ :=
  match x with
  | .inl i => w.setChain st i c
  | .inr q => w.setQueue st q { w.queues q with head := c }

@[simp] lemma heads_setChain (w : World ι κ) (st : Store) (i : ι) (c : List IOBuf) :
    (w.setChain st i c).heads = update w.heads (.inl i) c :=
  Sum.update_elim_inl.symm

@[simp] lemma heads_setQueue (w : World ι κ) (st : Store) (q : κ) (v : IOBufQueue) :
    (w.setQueue st q v).heads = update w.heads (.inr q) v.head := by
  rw [heads, heads, Sum.update_elim_inr]
  congr 1
  funext p
  by_cases hp : p = q
  · subst hp
    simp [setQueue]
  · simp [setQueue, hp]

@[simp] lemma heads_setHead (w : World ι κ) (st : Store) (x : ι ⊕ κ) (c : List IOBuf) :
    (w.setHead st x c).heads = update w.heads x c := by
  cases x with
  | inl i => exact heads_setChain w st i c
  | inr q => exact heads_setQueue w st q _

omit [DecidableEq κ] in
@[simp] lemma store_setChain (w : World ι κ) (st : Store) (i : ι) (c : List IOBuf) :
    (w.setChain st i c).store = st := rfl

omit [DecidableEq ι] in
@[simp] lemma store_setQueue (w : World ι κ) (st : Store) (q : κ) (v : IOBufQueue) :
    (w.setQueue st q v).store = st := rfl

@[simp] lemma store_setHead (w : World ι κ) (st : Store) (x : ι ⊕ κ) (c : List IOBuf) :
    (w.setHead st x c).store = st := by
  cases x with
  | inl i | inr q => rfl

end World

inductive Alloc
  | create (capacity : Nat)
  | copyBuffer (data : List UInt8) (headroom minTailroom : Nat)
  | takeOwnership (bytes : List UInt8) (length : Nat)
  | wrapBuffer (bytes : List UInt8)

def Alloc.run (st : Store) : Alloc → Option (Store × IOBuf)
  | .create capacity => Io.create st capacity
  | .copyBuffer data headroom minTailroom => Io.copyBuffer st data headroom minTailroom
  | .takeOwnership bytes length => Io.takeOwnership st bytes length
  | .wrapBuffer bytes => some (Io.wrapBuffer st bytes)

inductive Change
  | unshare
  | unshareOne (n : Nat)
  | coalesce
  | gather (maxLength : Nat)
  | markExternallyShared
  | trimStart (n amount : Nat)
  | trimEnd (n amount : Nat)

def atElement (chain : List IOBuf) (n : Nat) (f : IOBuf → Option (Store × IOBuf)) :
    Option (Store × List IOBuf) :=
  (chain[n]?).bind fun b => (f b).map fun (st, b) => (st, chain.set n b)

def Change.run (st : Store) (chain : List IOBuf) : Change → Option (Store × List IOBuf × Option Exn)
  | .unshare => (Io.unshare st chain).map fun (st, c) => (st, c, none)
  | .unshareOne n => (atElement chain n (Io.unshareOne st)).map fun (st, c) => (st, c, none)
  | .coalesce => (Io.coalesce st chain).map fun (st, c) => (st, c, none)
  | .gather maxLength => Io.gather st maxLength chain
  | .markExternallyShared =>
    if chain.isEmpty then none else some (Io.markExternallyShared st chain, chain, none)
  | .trimStart n amount =>
    (atElement chain n fun b =>
      if amount ≤ b.length then some (st, b.trimStart amount) else none).map
        fun (st, c) => (st, c, none)
  | .trimEnd n amount =>
    (atElement chain n fun b =>
      if amount ≤ b.length then some (st, b.trimEnd amount) else none).map
        fun (st, c) => (st, c, none)

inductive Op (ι κ : Type)
  | alloc (i : ι) (a : Alloc)
  | change (i : ι) (f : Change)
  | isSharedOne (x : ι ⊕ κ) (n : Nat)
  | clone (x : ι ⊕ κ) (i : ι)
  | cloneOne (x : ι ⊕ κ) (n : Nat) (i : ι)
  | moveValue (i j : ι)
  | moveTo (i j : ι)
  | reset (i : ι)
  | appendChain (i : ι) (n : Nat) (j : ι)
  | pop (i j : ι)
  | append (q : κ) (i : ι) (pack : Bool)
  | appendQueue (q p : κ) (pack : Bool)
  | appendBytes (q : κ) (src : List UInt8)
  | wrapBuffer (q : κ) (src : List UInt8) (blockSize : Nat)
  | fill (q : κ) (minSize newAllocationSize maxSize : Nat) (src : List UInt8) (n : Nat)
  | prepend (q : κ) (src : List UInt8)
  | split (q : κ) (n : Nat) (throwOnUnderflow : Bool) (i : ι)
  | trimStart (q : κ) (amount : Nat) (throwOnUnderflow : Bool)
  | trimEnd (q : κ) (amount : Nat) (throwOnUnderflow : Bool)
  | popFront (q : κ) (i : ι)
  | move (q : κ) (i : ι)
  | clear (q : κ)
  | gather (q : κ) (maxLength : Nat)
  | moveQueue (q p : κ)

def Op.Plain : Op ι κ → Prop
  | .prepend _ _ => False
  | .append _ _ pack => pack = false
  | .appendQueue _ _ pack => pack = false
  | _ => True

inductive Step : World ι κ → Op ι κ → World ι κ → Option Exn → Prop
  | alloc {w : World ι κ} {i : ι} {a : Alloc} {st : Store} {b : IOBuf} :
      w.chains i = [] → a.run w.store = some (st, b) →
      Step w (.alloc i a) (w.setChain st i [b]) none
  | change {w : World ι κ} {i : ι} {f : Change} {st : Store} {c : List IOBuf} {e : Option Exn} :
      f.run w.store (w.chains i) = some (st, c, e) →
      Step w (.change i f) (w.setChain st i c) e
  | isSharedOne {w : World ι κ} {x : ι ⊕ κ} {n : Nat} {b : IOBuf} :
      (w.heads x)[n]? = some b →
      Step w (.isSharedOne x n)
        (w.setHead w.store x ((w.heads x).set n (isSharedOne w.store b).2)) none
  | clone {w : World ι κ} {x : ι ⊕ κ} {i : ι} {st : Store} {c d : List IOBuf} :
      w.heads x ≠ [] → w.chains i = [] → cloneChain w.store (w.heads x) = (st, c, d) →
      Step w (.clone x i) ((w.setHead st x c).setChain st i d) none
  | cloneOne {w : World ι κ} {x : ι ⊕ κ} {n : Nat} {i : ι} {b b' c : IOBuf} {st : Store} :
      (w.heads x)[n]? = some b → w.chains i = [] → cloneOne w.store b = (st, b', c) →
      Step w (.cloneOne x n i) ((w.setHead st x ((w.heads x).set n b')).setChain st i [c]) none
  | moveValue {w : World ι κ} {i j : ι} :
      i ≠ j → w.chains i ≠ [] → w.chains j ≠ [] →
      Step w (.moveValue i j) ((w.setChain (destroy w.store (w.chains j)) i [{}]).setChain
        (destroy w.store (w.chains j)) j (w.chains i)) none
  | moveTo {w : World ι κ} {i j : ι} :
      i ≠ j → w.chains j = [] →
      Step w (.moveTo i j) ((w.setChain w.store i []).setChain w.store j (w.chains i)) none
  | reset {w : World ι κ} {i : ι} :
      Step w (.reset i) (w.setChain (destroy w.store (w.chains i)) i []) none
  | appendChain {w : World ι κ} {i : ι} {n : Nat} {j : ι} :
      i ≠ j → n < (w.chains i).length → w.chains j ≠ [] →
      Step w (.appendChain i n j) ((w.setChain w.store j []).setChain w.store i
        ((w.chains i).take (n + 1) ++ w.chains j ++ (w.chains i).drop (n + 1))) none
  | pop {w : World ι κ} {i j : ι} {b : IOBuf} {bs : List IOBuf} :
      i ≠ j → w.chains i = b :: bs → w.chains j = [] →
      Step w (.pop i j) ((w.setChain w.store i [b]).setChain w.store j bs) none
  | append {w : World ι κ} {q : κ} {i : ι} {pack : Bool} {st : Store} {v : IOBufQueue} :
      (w.queues q).append w.store (w.chains i) pack = (st, v) →
      Step w (.append q i pack) ((w.setChain st i []).setQueue st q v) none
  | appendQueue {w : World ι κ} {q p : κ} {pack : Bool} {st : Store} {v u : IOBufQueue} :
      q ≠ p → (w.queues q).appendQueue w.store (w.queues p) pack = (st, v, u) →
      Step w (.appendQueue q p pack) ((w.setQueue st p u).setQueue st q v) none
  | appendBytes {w : World ι κ} {q : κ} {src : List UInt8} {st : Store} {v : IOBufQueue} :
      appendBytes src.length w.store (w.queues q) src = some (st, v) →
      Step w (.appendBytes q src) (w.setQueue st q v) none
  | wrapBuffer {w : World ι κ} {q : κ} {src : List UInt8} {blockSize : Nat} {st : Store}
      {v : IOBufQueue} :
      IOBufQueue.wrapBuffer blockSize src.length w.store (w.queues q) src = some (st, v) →
      Step w (.wrapBuffer q src blockSize) (w.setQueue st q v) none
  | fill {w : World ι κ} {q : κ} {minSize newAllocationSize maxSize : Nat} {src : List UInt8}
      {n : Nat} {st : Store} {v : IOBufQueue} :
      (w.queues q).fill w.store minSize newAllocationSize maxSize src n = some (st, v) →
      Step w (.fill q minSize newAllocationSize maxSize src n) (w.setQueue st q v) none
  | prepend {w : World ι κ} {q : κ} {src : List UInt8} {st : Store} {v : IOBufQueue}
      {e : Option Exn} :
      (w.queues q).prepend w.store src = (st, v, e) →
      Step w (.prepend q src) (w.setQueue st q v) e
  | split {w : World ι κ} {q : κ} {n : Nat} {throwOnUnderflow : Bool} {i : ι} {st : Store}
      {v : IOBufQueue} {c : List IOBuf} {e : Option Exn} :
      w.chains i = [] → (w.queues q).split w.store n throwOnUnderflow = some (st, v, c, e) →
      Step w (.split q n throwOnUnderflow i) ((w.setQueue st q v).setChain st i c) e
  | trimStart {w : World ι κ} {q : κ} {amount : Nat} {throwOnUnderflow : Bool} {st : Store}
      {v : IOBufQueue} {e : Option Exn} :
      (w.queues q).trimStart w.store amount throwOnUnderflow = (st, v, e) →
      Step w (.trimStart q amount throwOnUnderflow) (w.setQueue st q v) e
  | trimEnd {w : World ι κ} {q : κ} {amount : Nat} {throwOnUnderflow : Bool} {st : Store}
      {v : IOBufQueue} {e : Option Exn} :
      (w.queues q).trimEnd w.store amount throwOnUnderflow = (st, v, e) →
      Step w (.trimEnd q amount throwOnUnderflow) (w.setQueue st q v) e
  | popFront {w : World ι κ} {q : κ} {i : ι} {v : IOBufQueue} {c : List IOBuf} :
      w.chains i = [] → (w.queues q).popFront = (v, c) →
      Step w (.popFront q i) ((w.setQueue w.store q v).setChain w.store i c) none
  | move {w : World ι κ} {q : κ} {i : ι} {v : IOBufQueue} {c : List IOBuf} :
      w.chains i = [] → (w.queues q).move = (v, c) →
      Step w (.move q i) ((w.setQueue w.store q v).setChain w.store i c) none
  | clear {w : World ι κ} {q : κ} :
      Step w (.clear q) (w.setQueue w.store q (w.queues q).clear) none
  | gather {w : World ι κ} {q : κ} {maxLength : Nat} {st : Store} {c : List IOBuf}
      {e : Option Exn} :
      gather w.store maxLength (w.queues q).head = some (st, c, e) →
      Step w (.gather q maxLength) (w.setQueue st q { w.queues q with head := c }) e
  | gatherNone {w : World ι κ} {q : κ} {maxLength : Nat} :
      (w.queues q).head = [] → Step w (.gather q maxLength) w none
  | moveQueue {w : World ι κ} {q p : κ} :
      q ≠ p →
      Step w (.moveQueue q p)
        ((w.setQueue (destroy w.store (w.queues q).head) p
          { w.queues p with chainLength := 0, head := [] }).setQueue
            (destroy w.store (w.queues q).head) q (w.queues p)) none

section Sound

variable [Fintype ι] [Fintype κ]

structure Sound (w w' : World ι κ) : Prop where
  bounded : Bounded w.store w.live → Bounded w'.store w'.live
  counted : Bounded w.store w.live → Counted w.store w.live → Few w'.live →
    Counted w'.store w'.live

variable {w w' : World ι κ} {c chain chain' : List IOBuf}

lemma sound_one {x : ι ⊕ κ} (hheads : w'.heads = update w.heads x c)
    (h : Alters w.store ↑(w.heads x) w'.store ↑c) : Sound w w' := by
  obtain ⟨M, htotal, hupdate, _⟩ := exists_rest w.heads x
  have hnew : w'.live = ↑c + M := by rw [World.live, hheads, hupdate]
  have hold : w.live = ↑(w.heads x) + M := htotal
  exact ⟨by rw [hnew, hold]; exact h.bounded M, by rw [hnew, hold]; exact h.counted M⟩

lemma sound_two {x y : ι ⊕ κ} (hxy : x ≠ y) {d : List IOBuf}
    (hheads : w'.heads = update (update w.heads x c) y d)
    (h : Alters w.store (↑(w.heads x) + ↑(w.heads y)) w'.store (↑c + ↑d)) : Sound w w' := by
  obtain ⟨M, htotal, hupdate, _⟩ := exists_rest₂ w.heads hxy
  have hnew : w'.live = ↑c + ↑d + M := by rw [World.live, hheads, hupdate]
  have hold : w.live = ↑(w.heads x) + ↑(w.heads y) + M := htotal
  exact ⟨by rw [hnew, hold]; exact h.bounded M, by rw [hnew, hold]; exact h.counted M⟩

variable {st st' : Store}

omit [DecidableEq ι] [DecidableEq κ] [Fintype ι] [Fintype κ] in
lemma moves_alloc {a : Alloc} {b : IOBuf} (h : a.run st = some (st', b)) : Moves st 0 st' {b} := by
  cases a with
  | create capacity => exact moves_create h
  | copyBuffer data headroom minTailroom => exact moves_copyBuffer h
  | takeOwnership bytes length => exact moves_takeOwnership h
  | wrapBuffer bytes =>
    cases h
    exact moves_wrapBuffer st bytes

lemma exists_element {n : Nat} {b : IOBuf} (h : chain[n]? = some b) :
    ∃ M : Multiset IOBuf, (↑chain : Multiset IOBuf) = {b} + M ∧
      ∀ c, (↑(chain.set n c) : Multiset IOBuf) = {c} + M := by
  obtain ⟨hn, hb⟩ := List.getElem?_eq_some_iff.mp h
  refine ⟨↑(chain.eraseIdx n), ?_, fun c => ?_⟩
  · rw [singleton_add, cons_coe, ← hb]
    exact coe_eq_coe.mpr (List.getElem_cons_eraseIdx_perm hn).symm
  · rw [singleton_add, cons_coe]
    exact coe_eq_coe.mpr (List.set_perm_cons_eraseIdx hn c)

lemma moves_set {n : Nat} {b b' : IOBuf}
    (h : chain[n]? = some b) (hmoves : Moves st {b} st' {b'}) :
    Moves st ↑chain st' ↑(chain.set n b') := by
  obtain ⟨M, hchain, hset⟩ := exists_element h
  rw [hchain, hset]
  exact hmoves.frame M

lemma moves_atElement {n : Nat}
    {f : IOBuf → Option (Store × IOBuf)} (hf : ∀ b st' b', f b = some (st', b') →
      Moves st {b} st' {b'})
    (h : atElement chain n f = some (st', chain')) : Moves st ↑chain st' ↑chain' := by
  obtain ⟨b, hb, hmap⟩ := bind_eq_some_iff.mp h
  obtain ⟨⟨st₁, b'⟩, hfb, heq⟩ := map_eq_some_iff.mp hmap
  cases heq
  exact moves_set hb (hf b st' b' hfb)

lemma moves_change {f : Change} {e : Option Exn}
    (h : f.run st chain = some (st', chain', e)) : Moves st ↑chain st' ↑chain' := by
  cases f with
  | unshare =>
    obtain ⟨⟨st₁, c⟩, hrun, heq⟩ := map_eq_some_iff.mp h
    cases heq
    exact moves_unshare hrun
  | unshareOne n =>
    obtain ⟨⟨st₁, c⟩, hrun, heq⟩ := map_eq_some_iff.mp h
    cases heq
    exact moves_atElement (fun b st' b' hb => moves_unshareOne hb) hrun
  | coalesce =>
    obtain ⟨⟨st₁, c⟩, hrun, heq⟩ := map_eq_some_iff.mp h
    cases heq
    exact moves_coalesce hrun
  | gather maxLength => exact moves_gather h
  | markExternallyShared =>
    rw [Change.run] at h
    split at h
    · cases h
    · cases h
      exact moves_markExternallyShared st _
  | trimStart n amount =>
    obtain ⟨⟨st₁, c⟩, hrun, heq⟩ := map_eq_some_iff.mp h
    cases heq
    refine moves_atElement (fun b st' b' hb => ?_) hrun
    split at hb
    · rename_i hle
      cases hb
      exact moves_trimStartOne st hle
    · cases hb
  | trimEnd n amount =>
    obtain ⟨⟨st₁, c⟩, hrun, heq⟩ := map_eq_some_iff.mp h
    cases heq
    refine moves_atElement (fun b st' b' hb => ?_) hrun
    split at hb
    · cases hb
      exact moves_trimEndOne st b amount
    · cases hb

lemma Step.sound {op : Op ι κ} {e : Option Exn} (h : Step w op w' e) : Sound w w' := by
  cases h with
  | alloc hi ha =>
    refine sound_one (World.heads_setChain ..) ?_
    rw [show w.heads (.inl _) = [] from hi]
    exact (moves_alloc ha).alters
  | change hf => exact sound_one (World.heads_setChain ..) (moves_change hf).alters
  | isSharedOne hb =>
    refine sound_one (World.heads_setHead ..) ?_
    rw [World.store_setHead]
    exact (moves_set hb (moves_isSharedOne w.store _)).alters
  | @clone x i st c d hx hi hclone =>
    have hne : x ≠ .inl i := by
      rintro rfl
      exact hx hi
    refine sound_two hne (by rw [World.heads_setChain, World.heads_setHead]) ?_
    have hclones := clones_cloneChain w.store (w.heads x)
    rw [hclone] at hclones
    rw [show w.heads (.inl i) = [] from hi, coe_nil, add_zero]
    exact hclones.alters
  | @cloneOne x n i b b' c st hb hi hclone =>
    have hne : x ≠ .inl i := by
      rintro rfl
      rw [show w.heads (.inl i) = [] from hi] at hb
      cases hb
    refine sound_two hne (by rw [World.heads_setChain, World.heads_setHead]) ?_
    have hclones := clones_cloneOne w.store b
    obtain ⟨M, hchain, hset⟩ := exists_element hb
    rw [hclone] at hclones
    rw [show w.heads (.inl i) = [] from hi, coe_nil, add_zero, hset, hchain,
      add_right_comm]
    exact (hclones.frame M).alters
  | @moveValue i j hij hi hj =>
    refine sound_two (fun heq => hij (Sum.inl.inj heq))
      (by rw [World.heads_setChain, World.heads_setChain]) ?_
    have hdestroy := (moves_destroy w.store (w.chains j)).frame ↑(w.chains i)
    have hnull := (moves_null (destroy w.store (w.chains j))).frame ↑(w.chains i)
    rw [add_comm] at hdestroy
    exact (hdestroy.trans hnull).alters
  | @moveTo i j hij hj =>
    refine sound_two (fun heq => hij (Sum.inl.inj heq))
      (by rw [World.heads_setChain, World.heads_setChain]) ?_
    rw [show w.heads (.inl j) = [] from hj, add_comm]
    exact (Moves.refl w.store _).alters
  | reset => exact sound_one (World.heads_setChain ..) (moves_destroy w.store _).alters
  | @appendChain i n j hij hn hj =>
    refine sound_two (fun heq => hij (Sum.inl.inj heq.symm))
      (by rw [World.heads_setChain, World.heads_setChain]) ?_
    have hparts : (↑((w.chains i).take (n + 1)) + ↑((w.chains i).drop (n + 1)) :
        Multiset IOBuf) = ↑(w.chains i) := by
      rw [coe_add, List.take_append_drop]
    rw [coe_nil, zero_add, ← coe_add, ← coe_add,
      add_comm (↑((w.chains i).take (n + 1)) : Multiset IOBuf), add_assoc, hparts]
    exact (Moves.refl w.store _).alters
  | @pop i j b bs hij hi hj =>
    refine sound_two (fun heq => hij (Sum.inl.inj heq))
      (by rw [World.heads_setChain, World.heads_setChain]) ?_
    rw [show w.heads (.inl i) = b :: bs from hi, show w.heads (.inl j) = [] from hj,
      coe_nil, add_zero]
    exact (Moves.refl w.store _).alters
  | @append q i pack st v happend =>
    refine sound_two Sum.inl_ne_inr (by rw [World.heads_setQueue, World.heads_setChain]) ?_
    have hwrites := writes_appendToChain w.store (w.queues q).head (w.chains i) pack
    obtain ⟨hst, hv⟩ := append_eq w.store (w.queues q) (w.chains i) pack
    rw [happend] at hst hv
    rw [← hst, ← hv, ← coe_add, add_comm] at hwrites
    exact hwrites.alters
  | @appendQueue q p pack st v u hqp happend =>
    refine sound_two (fun heq => hqp (Sum.inr.inj heq).symm)
      (by rw [World.heads_setQueue, World.heads_setQueue]) ?_
    have hwrites := writes_appendToChain w.store (w.queues q).head (w.queues p).head pack
    obtain ⟨hst, hv, hu⟩ := appendQueue_eq w.store (w.queues q) (w.queues p) pack
    rw [happend] at hst hv hu
    rw [← hst, ← hv, ← coe_add, add_comm] at hwrites
    rw [hu, coe_nil, zero_add]
    exact hwrites.alters
  | appendBytes happend =>
    refine sound_one (World.heads_setQueue ..) ?_
    obtain ⟨st', q', heq, happended⟩ := appendBytes_spec w.store _ (le_refl _)
    rw [happend] at heq
    cases heq
    exact happended.writes.alters
  | wrapBuffer hwrap =>
    exact sound_one (World.heads_setQueue ..)
      (wrapBuffer_appended hwrap).writes.alters
  | fill hfill =>
    exact sound_one (World.heads_setQueue ..) (fill_spec hfill).writes.alters
  | @prepend q src st v e hprepend =>
    refine sound_one (World.heads_setQueue ..) ?_
    have hwrites := writes_prepend w.store (w.queues q) src
    rw [hprepend] at hwrites
    exact hwrites.alters
  | @split q n throwOnUnderflow i st v c e hi hsplit =>
    refine sound_two Sum.inr_ne_inl (by rw [World.heads_setChain, World.heads_setQueue]) ?_
    rw [show w.heads (.inl i) = [] from hi, coe_nil, add_zero]
    exact (clones_split hsplit).alters
  | @trimStart q amount throwOnUnderflow st v e htrim =>
    refine sound_one (World.heads_setQueue ..) ?_
    have hmoves := moves_trimStart w.store (w.queues q) amount throwOnUnderflow
    rw [htrim] at hmoves
    exact hmoves.alters
  | @trimEnd q amount throwOnUnderflow st v e htrim =>
    refine sound_one (World.heads_setQueue ..) ?_
    have hmoves := moves_trimEnd w.store (w.queues q) amount throwOnUnderflow
    rw [htrim] at hmoves
    exact hmoves.alters
  | @popFront q i v c hi hpop =>
    refine sound_two Sum.inr_ne_inl (by rw [World.heads_setChain, World.heads_setQueue]) ?_
    have hhead := popFront_head (w.queues q)
    rw [hpop] at hhead
    rw [show w.heads (.inl i) = [] from hi, show w.heads (.inr q) = c ++ v.head from hhead,
      coe_nil, add_zero, ← coe_add, add_comm]
    exact (Moves.refl w.store _).alters
  | @move q i v c hi hmove =>
    refine sound_two Sum.inr_ne_inl (by rw [World.heads_setChain, World.heads_setQueue]) ?_
    cases hmove
    rw [show w.heads (.inl i) = [] from hi, add_comm]
    exact (Moves.refl w.store _).alters
  | clear =>
    exact sound_one (World.heads_setQueue ..) (moves_clear w.store _).alters
  | gather hgather => exact sound_one (World.heads_setQueue ..) (moves_gather hgather).alters
  | gatherNone _ => exact ⟨id, fun _ hc _ => hc⟩
  | @moveQueue q p hqp =>
    refine sound_two (fun heq => hqp (Sum.inr.inj heq).symm)
      (by rw [World.heads_setQueue, World.heads_setQueue]) ?_
    have hdestroy := (moves_destroy w.store (w.queues q).head).frame ↑(w.queues p).head
    rw [add_comm] at hdestroy
    exact hdestroy.alters

def start (cache : κ → Bool) : World ι κ :=
  { queues := fun q => { cacheChainLength := cache q } }

inductive Run (ok : World ι κ → Op ι κ → World ι κ → Option Exn → Prop) (w₀ : World ι κ) :
    List (Op ι κ) → World ι κ → Prop
  | nil : Run ok w₀ [] w₀
  | snoc {w w' : World ι κ} {ops : List (Op ι κ)} {op : Op ι κ} {e : Option Exn} :
      Run ok w₀ ops w → Step w op w' e → ok w op w' e → Run ok w₀ (ops ++ [op]) w'

def Counting (_ : World ι κ) (_ : Op ι κ) (w' : World ι κ) (_ : Option Exn) : Prop := Few w'.live

omit [DecidableEq ι] [DecidableEq κ] in
lemma live_start (cache : κ → Bool) : (start cache : World ι κ).live = 0 :=
  Finset.sum_eq_zero fun x _ => by
    cases x with
    | inl i | inr q => rfl

variable {ok : World ι κ → Op ι κ → World ι κ → Option Exn → Prop} {ops : List (Op ι κ)}

lemma Run.bounded {cache : κ → Bool} (h : Run ok (start cache) ops w) :
    Bounded w.store w.live := by
  induction h with
  | nil =>
    rw [live_start]
    exact fun b hb => absurd hb (notMem_zero b)
  | snoc _ hstep _ ih => exact hstep.sound.bounded ih

lemma Run.counted {cache : κ → Bool}
    (hok : ∀ w op w' e, ok w op w' e → Few w'.live) (h : Run ok (start cache) ops w) :
    Counted w.store w.live := by
  induction h with
  | nil =>
    rw [live_start]
    refine ⟨fun k => ?_, (fun k blk hk => nomatch hk), flagSound_zero, fun k _ => refs_zero ..⟩
    rw [refs_zero]
    decide
  | snoc hrun hstep hfew ih => exact hstep.sound.counted hrun.bounded ih (hok _ _ _ _ hfew)

end Sound

end Acc.Io
