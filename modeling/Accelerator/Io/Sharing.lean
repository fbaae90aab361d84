import Accelerator.Io.World

namespace Acc.Io

open Function Multiset UInt32 List IOBufQueue

open Refs

def pairWorld (st : Store) (c₀ c₁ : List IOBuf) (q₀ q₁ : IOBufQueue) : World Bool Bool where
  store := st
  chains := fun i => bif i then c₁ else c₀
  queues := fun q => bif q then q₁ else q₀

section PairWorld

variable (st st' : Store) (c₀ c₁ c : List IOBuf) (q₀ q₁ v : IOBufQueue)

@[simp] lemma setChain_false : (pairWorld st c₀ c₁ q₀ q₁).setChain st' false c =
    pairWorld st' c c₁ q₀ q₁ := by
  rw [World.setChain, pairWorld, pairWorld, World.mk.injEq]
  refine ⟨rfl, ?_, rfl⟩
  funext i
  cases i with
  | false | true => rfl

@[simp] lemma setChain_true : (pairWorld st c₀ c₁ q₀ q₁).setChain st' true c =
    pairWorld st' c₀ c q₀ q₁ := by
  rw [World.setChain, pairWorld, pairWorld, World.mk.injEq]
  refine ⟨rfl, ?_, rfl⟩
  funext i
  cases i with
  | false | true => rfl

@[simp] lemma setQueue_false : (pairWorld st c₀ c₁ q₀ q₁).setQueue st' false v =
    pairWorld st' c₀ c₁ v q₁ := by
  rw [World.setQueue, pairWorld, pairWorld, World.mk.injEq]
  refine ⟨rfl, rfl, ?_⟩
  funext q
  cases q with
  | false | true => rfl

@[simp] lemma setQueue_true : (pairWorld st c₀ c₁ q₀ q₁).setQueue st' true v =
    pairWorld st' c₀ c₁ q₀ v := by
  rw [World.setQueue, pairWorld, pairWorld, World.mk.injEq]
  refine ⟨rfl, rfl, ?_⟩
  funext q
  cases q with
  | false | true => rfl

lemma start_pair : start (fun _ : Bool => false) = pairWorld [] [] [] {} {} := by
  rw [start, pairWorld, World.mk.injEq]
  refine ⟨rfl, ?_, ?_⟩
  · funext i
    cases i with
    | false | true => rfl
  · funext q
    cases q with
    | false | true => rfl

lemma live_pair : (pairWorld st c₀ c₁ q₀ q₁).live = ↑(c₁ ++ c₀ ++ (q₁.head ++ q₀.head)) := by
  rw [World.live, total, Fintype.sum_sum_type, Fintype.sum_bool, Fintype.sum_bool]
  rfl

lemma few_pair (h : (c₁ ++ c₀ ++ (q₁.head ++ q₀.head)).length < 2 ^ 32) :
    Few (pairWorld st c₀ c₁ q₀ q₁).live := by
  intro k
  refine lt_of_le_of_lt (refs_le_card IOBuf.key k _) ?_
  rw [live_pair, coe_card]
  exact h

end PairWorld

def view : IOBuf :=
  { buf := some 0, managed := true, length := 2, capacity := 3, maybeShared := true }

def owned : World Bool Bool :=
  pairWorld [{ bytes := [97, 98, 0] }] [{ view with maybeShared := false }] [] {} {}

def cloned : World Bool Bool :=
  pairWorld [{ bytes := [97, 98, 0], refcount := 2 }] [view] [view] {} {}

lemma step_owned : Step (start fun _ => false) (.alloc false (.takeOwnership [97, 98, 0] 2))
    owned none := by
  have h : Step (pairWorld [] [] [] {} {}) (.alloc false (.takeOwnership [97, 98, 0] 2)) _
    none := .alloc rfl rfl
  rw [setChain_false] at h
  rw [start_pair]
  exact h

lemma step_cloned : Step owned (.cloneOne (.inl false) 0 true) cloned none := by
  have h : Step owned (.cloneOne (.inl false) 0 true) _ none := .cloneOne rfl rfl rfl
  rw [World.setHead, owned, setChain_false, setChain_true] at h
  exact h

lemma run_cloned : Run Counting (start fun _ => false)
    ([] ++ [.alloc false (.takeOwnership [97, 98, 0] 2)] ++ [.cloneOne (.inl false) 0 true])
    cloned :=
  .snoc (.snoc .nil step_owned (few_pair _ _ _ _ _ (by decide))) step_cloned
    (few_pair _ _ _ _ _ (by decide))

section Counts

variable {ι κ : Type} [DecidableEq ι] [DecidableEq κ] [Fintype ι] [Fintype κ]

def World.holders (w : World ι κ) (k : Nat) : Nat := w.live.countP fun b => b.buf = some k

omit [DecidableEq ι] [DecidableEq κ] in
lemma holders_eq {w : World ι κ} (hb : Bounded w.store w.live) {k : Nat} {blk : Block}
    (hblk : w.store[k]? = some blk) (hmanaged : blk.managed = true) :
    w.holders k = refs IOBuf.key k w.live := by
  refine countP_congr rfl fun b hbw => ?_
  rw [eq_iff_iff, key_eq_some]
  constructor
  · intro hbuf
    obtain ⟨blk', hblk', heq, _⟩ := (hb b hbw).block k hbuf
    rw [hblk] at hblk'
    cases hblk'
    exact ⟨heq.symm.trans hmanaged, hbuf⟩
  · exact fun h => h.2

omit [DecidableEq ι] [DecidableEq κ] in
lemma mem_live {w : World ι κ} {x : ι ⊕ κ} {b : IOBuf} (h : b ∈ w.heads x) : b ∈ w.live :=
  mem_sum.mpr ⟨x, Finset.mem_univ x, h⟩

theorem sharing_exact (cache : κ → Bool) (ops : List (Op ι κ)) (w : World ι κ)
    (h : Run Counting (start cache) ops w) :
    (∀ (k : Nat) (blk : Block), w.store[k]? = some blk → blk.managed = true →
      blk.refcount.toNat = w.holders k ∧ blk.released = if w.holders k = 0 then 1 else 0) ∧
    ∀ x, ∀ b ∈ w.heads x, (isSharedOne w.store b).1 = false →
      ∃ k, b.buf = some k ∧ w.holders k = 1 := by
  have hb := h.bounded
  have hc := h.counted fun _ _ _ _ hfew => hfew
  refine ⟨?_, ?_⟩
  · intro k blk hblk hmanaged
    rw [holders_eq hb hblk hmanaged]
    exact hc.count k blk hblk hmanaged
  · intro x b hbx hshared
    obtain ⟨M, hM⟩ := exists_cons_of_mem (mem_live hbx)
    have hv := hb b (mem_live hbx)
    rw [hM] at hc
    obtain ⟨k, hk, hzero⟩ := isSharedOne_alone hc hv hshared
    obtain ⟨blk, hblk, hmanaged⟩ := hv.info hk
    refine ⟨k, (key_eq_some.mp hk).2, ?_⟩
    rw [holders_eq hb hblk hmanaged, hM, refs_cons, hzero, if_pos hk]

end Counts

theorem sharing_exact_cloned : (2 : UInt32).toNat = cloned.holders 0 :=
  ((sharing_exact _ _ cloned run_cloned).1 0 { bytes := [97, 98, 0], refcount := 2 } rfl rfl).1

def crowd (n : Nat) : World Bool Bool :=
  pairWorld [{ bytes := [97, 98, 0], refcount := ofNat (n + 2) }]
    (List.replicate (n + 1) view) [] {} { head := [view.trimEnd 1] }

section Crowd

variable {ok : World Bool Bool → Op Bool Bool → World Bool Bool → Option Exn → Prop}
  (hok : ∀ w op w', op.Plain → ok w op w' none)

include hok

lemma run_crowd_zero : ∃ ops, Run ok (start fun _ => false) ops (crowd 0) := by
  have htrim : Step cloned (.change true (.trimEnd 0 1))
      (pairWorld [{ bytes := [97, 98, 0], refcount := 2 }] [view] [view.trimEnd 1] {} {})
      none := by
    have h : Step cloned (.change true (.trimEnd 0 1)) _ none := .change rfl
    rw [cloned, setChain_true] at h
    exact h
  have happend : Step
      (pairWorld [{ bytes := [97, 98, 0], refcount := 2 }] [view] [view.trimEnd 1] {} {})
      (.append true true false) (crowd 0) none := by
    have h : Step (pairWorld [{ bytes := [97, 98, 0], refcount := 2 }] [view]
      [view.trimEnd 1] {} {}) (.append true true false) _ none := .append rfl
    rwa [setChain_true, setQueue_true] at h
  refine ⟨_, Run.snoc (.snoc (.snoc (.snoc .nil step_owned ?_) step_cloned ?_) htrim ?_)
    happend ?_⟩
  · exact hok _ _ _ trivial
  · exact hok _ _ _ trivial
  · exact hok _ _ _ trivial
  · exact hok _ _ _ rfl

lemma run_crowd_succ {ops : List (Op Bool Bool)} {n : Nat}
    (h : Run ok (start fun _ => false) ops (crowd n)) :
    ∃ ops, Run ok (start fun _ => false) ops (crowd (n + 1)) := by
  have hclone : Step (crowd n) (.cloneOne (.inl false) 0 true)
      (pairWorld [{ bytes := [97, 98, 0], refcount := ofNat (n + 3) }]
        (List.replicate (n + 1) view) [view] {} { head := [view.trimEnd 1] })
      none := by
    have hcount : ofNat (n + 3) = ofNat (n + 2) + 1 := ofNat_add (n + 2) 1
    have h : Step (crowd n) (.cloneOne (.inl false) 0 true) _ none := .cloneOne rfl rfl rfl
    rw [hcount]
    rwa [World.setHead, crowd, setChain_false, setChain_true] at h
  have happend : Step
      (pairWorld [{ bytes := [97, 98, 0], refcount := ofNat (n + 3) }]
        (List.replicate (n + 1) view) [view] {} { head := [view.trimEnd 1] })
      (.appendChain false 0 true) (crowd (n + 1)) none := by
    have h : Step (pairWorld [{ bytes := [97, 98, 0], refcount := ofNat (n + 3) }]
        (List.replicate (n + 1) view) [view] {} { head := [view.trimEnd 1] })
        (.appendChain false 0 true) _ none :=
      .appendChain Bool.false_ne_true (by exact Nat.succ_pos _) (cons_ne_nil _ _)
    rwa [setChain_true, setChain_false] at h
  exact ⟨_, (h.snoc hclone (hok _ _ _ trivial)).snoc happend (hok _ _ _ trivial)⟩

lemma run_crowd (n : Nat) : ∃ ops, Run ok (start fun _ => false) ops (crowd n) := by
  induction n with
  | zero => exact run_crowd_zero hok
  | succ n ih =>
    obtain ⟨ops, h⟩ := ih
    exact run_crowd_succ hok h

end Crowd

lemma holders_crowd (n : Nat) : (crowd n).holders 0 = n + 2 := by
  rw [World.holders, crowd, live_pair, coe_countP, nil_append, append_nil,
    countP_append, countP_replicate]
  rfl

theorem refcount_wraps : ∃ ops w, Run (fun _ _ _ _ => True) (start fun _ => false) ops w ∧
    ∃ k blk, (w : World Bool Bool).store[k]? = some blk ∧ blk.managed = true ∧
      blk.refcount.toNat ≠ w.holders k := by
  obtain ⟨ops, h⟩ : ∃ ops, Run (fun _ _ _ _ => True) (start fun _ => false) ops
      (crowd (2 ^ 32 - 2)) := run_crowd (fun _ _ _ _ => trivial) _
  refine ⟨ops, _, h, 0, _, rfl, rfl, ?_⟩
  rw [holders_crowd]
  decide

section Unseen

variable {ι κ : Type} [DecidableEq ι] [DecidableEq κ] [Fintype ι] [Fintype κ]

def Same (w w' : World ι κ) (x : ι ⊕ κ) : Prop :=
  w'.heads x = w.heads x ∧ ∀ b ∈ w.heads x, read w'.store b = read w.store b

omit [DecidableEq ι] [DecidableEq κ] [Fintype ι] [Fintype κ] in
lemma Same.contents {w w' : World ι κ} {x : ι ⊕ κ} (h : Same w w' x) :
    w'.contents x = w.contents x := by
  rw [World.contents, World.contents, h.1]
  exact flatMap_congr h.2

lemma appended_same {w : World ι κ} (hb : Bounded w.store w.live)
    (hc : Counted w.store w.live) {q : κ} {st : Store} {v : IOBufQueue} {bytes : List UInt8}
    (h : (w.queues q).Appended w.store st v bytes) :
    (∀ x, x ≠ .inr q → Same w (w.setQueue st q v) x) ∧
      (w.setQueue st q v).contents (.inr q) = w.contents (.inr q) ++ bytes := by
  obtain ⟨M, htotal, _, hmem⟩ := exists_rest w.heads (.inr q)
  have hlive : w.live = ↑(w.queues q).head + M := htotal
  rw [hlive] at hb hc
  refine ⟨fun x hx => ⟨?_, fun b hbx => h.others M hb hc b (hmem x hx b hbx)⟩, ?_⟩
  · simp [update_of_ne hx]
  · rw [World.contents, World.heads_setQueue, update_self]
    exact h.shown M hb hc

theorem append_unseen (cache : κ → Bool) (ops : List (Op ι κ)) (w : World ι κ)
    (h : Run Counting (start cache) ops w) (q : κ) :
    (∀ src, ∃ w', Step w (.appendBytes q src) w' none ∧ ∀ x, x ≠ .inr q → Same w w' x) ∧
    ∀ minSize newAllocationSize maxSize src n w' e,
      Step w (.fill q minSize newAllocationSize maxSize src n) w' e →
        ∀ x, x ≠ .inr q → Same w w' x := by
  have hb := h.bounded
  have hc := h.counted fun _ _ _ _ hfew => hfew
  refine ⟨fun src => ?_, ?_⟩
  · obtain ⟨st, v, heq, happended⟩ :=
      appendBytes_spec w.store (w.queues q) (le_refl src.length)
    exact ⟨_, .appendBytes heq, (appended_same hb hc happended).1⟩
  · intro minSize newAllocationSize maxSize src n w' e hstep
    cases hstep with
    | fill hfill => exact (appended_same hb hc (fill_spec hfill)).1

end Unseen

theorem append_unseen_cloned : ∃ w', Step cloned (.appendBytes true [120]) w' none ∧
    Same cloned w' (.inl false) := by
  obtain ⟨w', hstep, hsame⟩ := (append_unseen _ _ cloned run_cloned true).1 [120]
  exact ⟨w', hstep, hsame _ Sum.inl_ne_inr⟩

theorem append_seen : ∃ ops w w', Run (fun _ _ _ _ => True) (start fun _ => false) ops w ∧
    Step w (.appendBytes true [120]) w' none ∧
    ∃ x, x ≠ .inr true ∧ ∃ b ∈ (w : World Bool Bool).heads x,
      read (w' : World Bool Bool).store b ≠ read w.store b := by
  obtain ⟨ops, h⟩ : ∃ ops, Run (fun _ _ _ _ => True) (start fun _ => false) ops
      (crowd (2 ^ 32 - 2)) := run_crowd (fun _ _ _ _ => trivial) _
  refine ⟨ops, _, _, h, .appendBytes rfl, .inl false, Sum.inl_ne_inr, view, ?_, ?_⟩
  · exact List.mem_replicate.mpr ⟨Nat.succ_ne_zero _, rfl⟩
  · decide

section Unasked

variable {ι κ : Type} [DecidableEq ι] [DecidableEq κ] [Fintype ι] [Fintype κ]

def Careful (w : World ι κ) : Op ι κ → Prop
  | .prepend q src => ∀ c ∈ w.live, IOBufQueue.PrependFree (w.queues q).head src.length c
  | .append q i true => ∀ c ∈ w.live, PackFree (w.queues q).head (w.chains i) c
  | .appendQueue q p true => ∀ c ∈ w.live, PackFree (w.queues q).head (w.queues p).head c
  | _ => True

def Unseen (w : World ι κ) (op : Op ι κ) (w' : World ι κ) (e : Option Exn) : Prop :=
  match op with
  | .prepend q src =>
    (∀ x, x ≠ .inr q → Same w w' x) ∧
      w'.contents (.inr q) = (if e = none then src else []) ++ w.contents (.inr q)
  | .append q i true =>
    (∀ x, x ≠ .inr q → x ≠ .inl i → Same w w' x) ∧
      w'.contents (.inr q) = w.contents (.inr q) ++ w.contents (.inl i)
  | .appendQueue q p true =>
    (∀ x, x ≠ .inr q → x ≠ .inr p → Same w w' x) ∧
      w'.contents (.inr q) = w.contents (.inr q) ++ w.contents (.inr p)
  | _ => True

variable {w w' : World ι κ}

lemma prepend_unseen (hb : Bounded w.store w.live) {q : κ} {src : List UInt8}
    {st : Store} {v : IOBufQueue} {e : Option Exn} (hcareful : Careful w (.prepend q src))
    (h : (w.queues q).prepend w.store src = (st, v, e)) :
    Unseen w (.prepend q src) (w.setQueue st q v) e := by
  have hqueue : ∀ b ∈ (w.queues q).head, b ∈ w.live := fun b hbq => mem_live (x := .inr q) hbq
  obtain ⟨hcontent, hframe⟩ := prepend_spec (fun b hbq => hb b (hqueue b hbq))
    (fun b hbq => hcareful b (hqueue b hbq))
  rw [h] at hcontent hframe
  refine ⟨fun x hx => ⟨?_, fun b hbx => hframe b (hcareful b (mem_live hbx))⟩, ?_⟩
  · simp [update_of_ne hx]
  rw [World.contents, World.heads_setQueue, update_self]
  split
  · rename_i hnone
    exact hcontent hnone
  rename_i hthrown
  rcases prepend_cases w.store (w.queues q) src with
    ⟨hst, hv, _⟩ | ⟨b, bs, _, _, heq⟩
  · rw [h] at hst hv
    cases hst
    cases hv
    rfl
  · rw [h] at heq
    cases heq
    exact absurd rfl hthrown

lemma pack_unseen (hb : Bounded w.store w.live) {q : κ} {y : ι ⊕ κ}
    {chain : List IOBuf} (hfree : ∀ c ∈ w.live, PackFree (w.queues q).head (w.heads y) c)
    (hstore : w'.store = (appendToChain w.store (w.queues q).head (w.heads y) true).1)
    (hchain : chain = (appendToChain w.store (w.queues q).head (w.heads y) true).2)
    (hheads : w'.heads = update (update w.heads y []) (.inr q) chain) :
    (∀ x, x ≠ .inr q → x ≠ y → Same w w' x) ∧
      w'.contents (.inr q) = w.contents (.inr q) ++ w.contents y := by
  have hboth : ∀ b ∈ (w.queues q).head ++ w.heads y, b ∈ w.live := by
    intro b hbq
    rcases mem_append.mp hbq with hbq | hbq
    · exact mem_live (x := .inr q) hbq
    · exact mem_live hbq
  obtain ⟨hcontent, hframe⟩ := appendToChain_spec (fun b hbq => hb b (hboth b hbq))
    (fun (_ : true = true) b hbq => hfree b (hboth b hbq))
  refine ⟨fun x hxq hxy => ⟨?_, fun b hbx => ?_⟩, ?_⟩
  · rw [hheads, update_of_ne hxq, update_of_ne hxy]
  · rw [hstore]
    exact hframe b (fun _ => hfree b (mem_live hbx)) (hb b (mem_live hbx))
  · rw [World.contents, hheads, update_self, hstore, hchain]
    exact hcontent

lemma Step.unseen {op : Op ι κ} {e : Option Exn}
    (hb : Bounded w.store w.live) (h : Step w op w' e) (hcareful : Careful w op) :
    Unseen w op w' e := by
  cases h with
  | prepend hprepend => exact prepend_unseen hb hcareful hprepend
  | @append q i pack st v happend =>
    cases pack with
    | false => trivial
    | true =>
      obtain ⟨hst, hv⟩ := append_eq w.store (w.queues q) (w.chains i) true
      rw [happend] at hst hv
      exact pack_unseen hb hcareful hst hv
        (by simp)
  | @appendQueue q p pack st v u hqp happend =>
    cases pack with
    | false => trivial
    | true =>
      obtain ⟨hst, hv, hu⟩ :=
        appendQueue_eq w.store (w.queues q) (w.queues p) true
      rw [happend] at hst hv hu
      exact pack_unseen hb hcareful hst hv
        (by rw [World.heads_setQueue, World.heads_setQueue, hu])
  | _ => trivial

theorem unasked_unseen (cache : κ → Bool) (ops : List (Op ι κ)) (w : World ι κ)
    (h : Run (fun w op _ _ => Careful w op) (start cache) ops w) :
    Run Unseen (start cache) ops w ∧
      ∀ op w' e, Step w op w' e → Careful w op → Unseen w op w' e := by
  refine ⟨?_, fun op w' e hstep hcareful => hstep.unseen h.bounded hcareful⟩
  induction h with
  | nil => exact .nil
  | snoc hrun hstep hcareful ih =>
    exact ih.snoc hstep (hstep.unseen hrun.bounded hcareful)

end Unasked

def queued : World Bool Bool :=
  pairWorld [{ bytes := [97, 98, 0] }] [] [] { head := [{ view with maybeShared := false }] } {}

def halves : World Bool Bool :=
  pairWorld [{ bytes := [97, 98, 0], refcount := 2 }] [] [view.trimEnd 1]
    { chainLength := 0 - 1, head := [view.trimStart 1] } {}

lemma step_queued : Step owned (.append false false false) queued none := by
  have h : Step owned (.append false false false) _ none := .append rfl
  rw [owned, setChain_false, setQueue_false] at h
  exact h

lemma step_halves : Step queued (.split false 1 true true) halves none := by
  have h : Step queued (.split false 1 true true) _ none := .split rfl rfl
  rw [queued, setQueue_false, setChain_true] at h
  exact h

theorem unasked_seen :
    (∃ ops w w', Run (fun _ _ _ _ => True) (start fun _ => false) ops w ∧
      Step w (.prepend false [122]) w' none ∧
        ¬ Unseen (w : World Bool Bool) (.prepend false [122]) w' none) ∧
    ∃ ops w w', Run (fun _ _ _ _ => True) (start fun _ => false) ops w ∧
      Step w (.append true false true) w' none ∧
        ¬ Unseen (w : World Bool Bool) (.append true false true) w' none := by
  have hrun : Run (fun _ _ _ _ => True) (start fun _ => false) _ halves :=
    .snoc (.snoc (.snoc .nil step_owned trivial) step_queued trivial) step_halves trivial
  refine ⟨⟨_, halves, _, hrun, .prepend rfl, ?_⟩, ?_⟩
  · rintro ⟨hothers, _⟩
    exact absurd ((hothers (.inl true) Sum.inl_ne_inr).2 (view.trimEnd 1) (by decide)) (by decide)
  · have happend : Step halves (.append true true false)
        (pairWorld halves.store [] [] { chainLength := 0 - 1, head := [view.trimStart 1] }
          { head := [view.trimEnd 1] }) none := by
      have h : Step halves (.append true true false) _ none := .append rfl
      rw [halves, setChain_true, setQueue_true] at h
      exact h
    have hown : Step (pairWorld halves.store [] []
        { chainLength := 0 - 1, head := [view.trimStart 1] } { head := [view.trimEnd 1] })
        (.alloc false (.takeOwnership [122] 1))
        (pairWorld (halves.store ++ [{ bytes := [122] }])
          [{ buf := some 1, managed := true, length := 1, capacity := 1 }] []
          { chainLength := 0 - 1, head := [view.trimStart 1] } { head := [view.trimEnd 1] })
        none := by
      have h : Step (pairWorld halves.store [] []
          { chainLength := 0 - 1, head := [view.trimStart 1] } { head := [view.trimEnd 1] })
          (.alloc false (.takeOwnership [122] 1)) _ none := .alloc rfl rfl
      rwa [setChain_false] at h
    refine ⟨_, _, _, (hrun.snoc happend trivial).snoc hown trivial, .append rfl, ?_⟩
    rintro ⟨hothers, _⟩
    exact absurd ((hothers (.inr false) (by decide) (by decide)).2 (view.trimStart 1) (by decide))
      (by decide)

def trimmed : World Bool Bool :=
  pairWorld owned.store [] []
    { head := [{ buf := some 0, managed := true, data := 1, length := 1, capacity := 3 }] } {}

theorem unasked_unseen_trimmed : ∃ ops w, Run Unseen (start fun _ => false) ops w ∧
    (w : World Bool Bool).contents (.inr false) = [122, 98] := by
  have htrim : Step owned (.change false (.trimStart 0 1)) (pairWorld owned.store
      [{ buf := some 0, managed := true, data := 1, length := 1, capacity := 3 }] [] {} {})
      none := by
    have h : Step owned (.change false (.trimStart 0 1)) _ none := .change rfl
    rw [owned, setChain_false] at h
    exact h
  have happend : Step (pairWorld owned.store
      [{ buf := some 0, managed := true, data := 1, length := 1, capacity := 3 }] [] {} {})
      (.append false false false) trimmed none := by
    have h : Step (pairWorld owned.store
      [{ buf := some 0, managed := true, data := 1, length := 1, capacity := 3 }] [] {} {})
      (.append false false false) _ none := .append rfl
    rw [setChain_false, setQueue_false] at h
    exact h
  have hcareful : Careful trimmed (.prepend false [122]) := by
    intro c hc b hb
    rw [trimmed, live_pair] at hc
    rw [List.mem_singleton.mp (Multiset.mem_coe.mp hc)]
    cases hb
    decide
  have hprepend : Step trimmed (.prepend false [122]) _ none := .prepend rfl
  have hbefore : Run (fun w op _ _ => Careful w op) (start fun _ => false) _ trimmed :=
    .snoc (.snoc (.snoc .nil step_owned trivial) htrim trivial) happend trivial
  exact ⟨_, _, (unasked_unseen _ _ _ (hbefore.snoc hprepend hcareful)).1, by decide⟩

end Acc.Io
