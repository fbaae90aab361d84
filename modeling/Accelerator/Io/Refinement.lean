import Accelerator.Io.Sharing

namespace Acc.Io

open Function List World IOBufQueue

open Refs

variable {ι κ : Type} [DecidableEq ι] [DecidableEq κ]

def Alloc.bytes : Alloc → List UInt8
  | .create _ => []
  | .copyBuffer data _ _ => data
  | .takeOwnership bytes length => bytes.take length
  | .wrapBuffer bytes => bytes

open Function in
def Spec : Op ι κ → (ι ⊕ κ → List UInt8) → (ι ⊕ κ → List UInt8) → Prop
  | .alloc i s, a, a' => a' = update a (.inl i) s.bytes
  | .change i (.trimStart _ _), a, a' => ∃ bytes, a' = update a (.inl i) bytes
  | .change i (.trimEnd _ _), a, a' => ∃ bytes, a' = update a (.inl i) bytes
  | .change _ _, a, a' => a' = a
  | .isSharedOne _ _, a, a' => a' = a
  | .clone x i, a, a' => a' = update a (.inl i) (a x)
  | .cloneOne x _ i, a, a' =>
    ∃ before bytes after, a x = before ++ bytes ++ after ∧ a' = update a (.inl i) bytes
  | .moveValue i j, a, a' => a' = update (update a (.inl i) []) (.inl j) (a (.inl i))
  | .moveTo i j, a, a' => a' = update (update a (.inl i) []) (.inl j) (a (.inl i))
  | .reset i, a, a' => a' = update a (.inl i) []
  | .appendChain i _ j, a, a' =>
    ∃ before after, a (.inl i) = before ++ after ∧
      a' = update (update a (.inl j) []) (.inl i) (before ++ a (.inl j) ++ after)
  | .pop i j, a, a' =>
    ∃ before after, a (.inl i) = before ++ after ∧
      a' = update (update a (.inl i) before) (.inl j) after
  | .append q i _, a, a' =>
    a' = update (update a (.inl i) []) (.inr q) (a (.inr q) ++ a (.inl i))
  | .appendQueue q p _, a, a' =>
    a' = update (update a (.inr p) []) (.inr q) (a (.inr q) ++ a (.inr p))
  | .appendBytes q src, a, a' => a' = update a (.inr q) (a (.inr q) ++ src)
  | .wrapBuffer q src _, a, a' => a' = update a (.inr q) (a (.inr q) ++ src)
  | .fill q _ _ _ src n, a, a' => a' = update a (.inr q) (a (.inr q) ++ src.take n)
  | .prepend q src, a, a' => a' = update a (.inr q) (src ++ a (.inr q))
  | .split q n _ i, a, a' =>
    a' = update (update a (.inr q) ((a (.inr q)).drop n)) (.inl i) ((a (.inr q)).take n)
  | .trimStart q amount _, a, a' => a' = update a (.inr q) ((a (.inr q)).drop amount)
  | .trimEnd q amount _, a, a' =>
    a' = update a (.inr q) ((a (.inr q)).take ((a (.inr q)).length - amount))
  | .popFront q i, a, a' =>
    ∃ n, a' = update (update a (.inr q) ((a (.inr q)).drop n)) (.inl i) ((a (.inr q)).take n)
  | .move q i, a, a' => a' = update (update a (.inr q) []) (.inl i) (a (.inr q))
  | .clear q, a, a' => a' = update a (.inr q) []
  | .gather _ _, a, a' => a' = a
  | .moveQueue q p, a, a' => a' = update (update a (.inr p) []) (.inr q) (a (.inr p))

inductive SpecRun (a₀ : ι ⊕ κ → List UInt8) : List (Op ι κ) → (ι ⊕ κ → List UInt8) → Prop
  | nil : SpecRun a₀ [] a₀
  | snoc {a a' : ι ⊕ κ → List UInt8} {ops : List (Op ι κ)} {op : Op ι κ} :
      SpecRun a₀ ops a → Spec op a a' → SpecRun a₀ (ops ++ [op]) a'

section Refines

variable [Fintype ι] [Fintype κ] {w w' : World ι κ}

variable {x : ι ⊕ κ} {c d chain : List IOBuf}

lemma contents_one (hb : Bounded w.store w.live)
    (hkeeps : Keeps w.store w'.store) (hheads : w'.heads = update w.heads x c) :
    w'.contents = update w.contents x (content w'.store c) := by
  funext z
  by_cases hz : z = x
  · subst hz
    simp [contents, hheads]
  · rw [update_of_ne hz, contents, contents, hheads, update_of_ne hz]
    exact content_of_keeps (fun b hbz => hb b (mem_live hbz)) hkeeps

lemma contents_two (hb : Bounded w.store w.live) {y : ι ⊕ κ} (hkeeps : Keeps w.store w'.store)
    (hheads : w'.heads = update (update w.heads x c) y d) :
    w'.contents = update (update w.contents x (content w'.store c)) y (content w'.store d) := by
  funext z
  by_cases hzy : z = y
  · subst hzy
    simp [contents, hheads]
  by_cases hzx : z = x
  · subst hzx
    simp [update_of_ne hzy, contents, hheads]
  · rw [update_of_ne hzy, update_of_ne hzx, contents, contents,
      hheads, update_of_ne hzy, update_of_ne hzx]
    exact content_of_keeps (fun b hbz => hb b (mem_live hbz)) hkeeps

variable {st st' : Store}

lemma contents_appended (hb : Bounded w.store w.live) (hc : Counted w.store w.live) {q : κ} {v : IOBufQueue} {bytes : List UInt8}
    (h : (w.queues q).Appended w.store st v bytes) : (w.setQueue st q v).contents =
      update w.contents (.inr q) (w.contents (.inr q) ++ bytes) := by
  obtain ⟨hsame, hcontent⟩ := appended_same hb hc h
  funext z
  by_cases hz : z = .inr q
  · subst hz
    rw [update_self, hcontent]
  · rw [update_of_ne hz, (hsame z hz).contents]

omit [DecidableEq ι] [DecidableEq κ] [Fintype ι] [Fintype κ] in
lemma content_alloc {s : Alloc} {b : IOBuf} (h : s.run st = some (st', b)) :
    content st' [b] = s.bytes := by
  cases s with
  | create capacity => exact content_create h
  | copyBuffer data headroom minTailroom => exact content_copyBuffer h
  | takeOwnership bytes length => exact content_takeOwnership h
  | wrapBuffer bytes =>
    cases h
    exact content_wrapBuffer st bytes

lemma content_set {n : Nat} {b b' : IOBuf}
    (hvalid : ∀ c ∈ chain, Valid st c) (hkeeps : Keeps st st') (hb : chain[n]? = some b)
    (hread : read st' b' = read st b) : content st' (chain.set n b') = content st chain := by
  induction chain generalizing n with
  | nil => cases hb
  | cons c chain ih =>
    have hrest : ∀ d ∈ chain, Valid st d := fun d hd => hvalid d (mem_cons_of_mem c hd)
    cases n with
    | zero =>
      cases hb
      simp only [set_cons_zero, content, List.flatMap_cons, hread]
      congr 1
      exact content_of_keeps hrest hkeeps
    | succ n =>
      have htail := ih hrest hb
      simp only [content] at htail
      simp only [set_cons_succ, content, List.flatMap_cons, htail]
      rw [read_of_keeps (hvalid c mem_cons_self) hkeeps]

lemma content_change {f : Change} {chain' : List IOBuf}
    {e : Option Exn} (hvalid : ∀ c ∈ chain, Valid st c)
    (h : f.run st chain = some (st', chain', e)) :
    content st' chain' = content st chain ∨ (∃ n amount, f = .trimStart n amount) ∨
      ∃ n amount, f = .trimEnd n amount := by
  cases f with
  | unshare =>
    obtain ⟨⟨st₁, c⟩, hrun, heq⟩ := Option.map_eq_some_iff.mp h
    cases heq
    exact Or.inl (content_unshare hvalid hrun)
  | unshareOne n =>
    obtain ⟨⟨st₁, c⟩, hrun, heq⟩ := Option.map_eq_some_iff.mp h
    cases heq
    obtain ⟨b, hb, hmap⟩ := Option.bind_eq_some_iff.mp hrun
    obtain ⟨⟨st₁, b'⟩, hone, heq⟩ := Option.map_eq_some_iff.mp hmap
    cases heq
    have hv := hvalid b (mem_of_getElem? hb)
    exact Or.inl (content_set hvalid (moves_unshareOne hone).keeps hb (read_unshareOne hv hone))
  | coalesce =>
    obtain ⟨⟨st₁, c⟩, hrun, heq⟩ := Option.map_eq_some_iff.mp h
    cases heq
    exact Or.inl (content_coalesce hvalid hrun)
  | gather maxLength => exact Or.inl (content_gather hvalid h)
  | markExternallyShared =>
    rw [Change.run] at h
    split at h
    · cases h
    · cases h
      exact Or.inl (content_of_keeps hvalid (moves_markExternallyShared st _).keeps)
  | trimStart n amount => exact Or.inr (Or.inl ⟨n, amount, rfl⟩)
  | trimEnd n amount => exact Or.inr (Or.inr ⟨n, amount, rfl⟩)

omit [Fintype ι] [Fintype κ] in
lemma spec_change {i : ι} {f : Change} {a a' : ι ⊕ κ → List UInt8} {bytes : List UInt8}
    (h : a' = update a (.inl i) bytes)
    (hf : bytes = a (.inl i) ∨ (∃ n amount, f = .trimStart n amount) ∨
      ∃ n amount, f = .trimEnd n amount) : Spec (.change i f) a a' := by
  rcases hf with rfl | ⟨n, amount, rfl⟩ | ⟨n, amount, rfl⟩
  · rw [update_eq_self] at h
    subst h
    cases f with
    | trimStart n amount | trimEnd n amount =>
      exact ⟨a' (.inl i), (update_eq_self _ _).symm⟩
    | _ => rfl
  · exact ⟨bytes, h⟩
  · exact ⟨bytes, h⟩

lemma contents_same (hb : Bounded w.store w.live)
    (hkeeps : Keeps w.store w'.store) (hheads : w'.heads = update w.heads x c)
    (hsame : content w'.store c = w.contents x) : w'.contents = w.contents := by
  simp [contents_one hb hkeeps hheads, hsame]

lemma contents_cloned (hb : Bounded w.store w.live) {i : ι} (hkeeps : Keeps w.store w'.store)
    (hheads : w'.heads = update (update w.heads x c) (.inl i) d)
    (hsame : content w'.store c = w.contents x) :
    w'.contents = update w.contents (.inl i) (content w'.store d) := by
  simp [contents_two hb hkeeps hheads, hsame]

lemma Step.refines {op : Op ι κ} (hb : Bounded w.store w.live) (hc : Counted w.store w.live)
    (hplain : op.Plain) (h : Step w op w' none) : Spec op w.contents w'.contents := by
  have hvalid : ∀ x, ∀ b ∈ w.heads x, Valid w.store b := fun x b hbx => hb b (mem_live hbx)
  cases h with
  | alloc hi ha =>
    refine (contents_one hb (moves_alloc ha).keeps (heads_setChain ..)).trans ?_
    simp [content_alloc ha]
  | @change i f st c e hf =>
    exact spec_change (contents_one hb (moves_change hf).keeps (heads_setChain ..))
      (content_change (hvalid (.inl i)) hf)
  | @isSharedOne x n b hbx =>
    refine contents_same hb (by rw [store_setHead]; exact Keeps.refl _)
      (heads_setHead ..) ?_
    rw [store_setHead]
    exact content_set (hvalid x) (Keeps.refl _) hbx (read_isSharedOne w.store b w.store)
  | @clone x i st c d hx hi hclone =>
    have hkeeps := (clones_cloneChain w.store (w.heads x)).keeps
    obtain ⟨hkept, hcloned⟩ := content_cloneChain w.store (w.heads x) st
    rw [hclone] at hkeeps hkept hcloned
    have hsame : content st (w.heads x) = w.contents x := content_of_keeps (hvalid x) hkeeps
    refine (contents_cloned hb hkeeps (by rw [heads_setChain, heads_setHead])
      (hkept.trans hsame)).trans ?_
    rw [store_setChain, hcloned, hsame]
  | @cloneOne x n i b b' c st hbx hi hclone =>
    have hkeeps := (clones_cloneOne w.store b).keeps
    obtain ⟨hkept, hcloned⟩ := read_cloneOne w.store b st
    rw [hclone] at hkeeps hkept hcloned
    have hread := read_of_keeps (hvalid x b (mem_of_getElem? hbx)) hkeeps
    obtain ⟨before, after, hsplit⟩ := append_of_mem (mem_of_getElem? hbx)
    refine ⟨content w.store before, read w.store b, content w.store after, ?_, ?_⟩
    · rw [contents, hsplit]
      simp [content]
    · refine (contents_cloned hb hkeeps (by rw [heads_setChain, heads_setHead])
        (content_set (hvalid x) hkeeps hbx (hkept.trans hread))).trans ?_
      simp [content, hcloned, hread]
  | @moveValue i j hij hi hj =>
    refine (contents_two hb (keeps_destroy w.store (w.chains j))
      (by rw [heads_setChain, heads_setChain])).trans ?_
    rw [store_setChain, show content (destroy w.store (w.chains j)) (w.chains i) =
      w.contents (.inl i) from content_of_keeps (hvalid (.inl i)) (keeps_destroy _ _)]
    rfl
  | moveTo hij hj =>
    exact (contents_two hb (by exact Keeps.refl _)
      (by rw [heads_setChain, heads_setChain])).trans rfl
  | reset => exact contents_one hb (keeps_destroy w.store _) (heads_setChain ..)
  | @appendChain i n j hij hn hj =>
    refine ⟨content w.store ((w.chains i).take (n + 1)),
      content w.store ((w.chains i).drop (n + 1)), ?_, ?_⟩
    · rw [← content_append, take_append_drop]
      rfl
    refine (contents_two hb (by exact Keeps.refl _)
      (by rw [heads_setChain, heads_setChain])).trans ?_
    simp only [store_setChain, content, flatMap_append]
    rfl
  | @pop i j b bs hij hi hj =>
    refine ⟨content w.store [b], content w.store bs, ?_, ?_⟩
    · rw [contents, show w.heads (.inl i) = b :: bs from hi]
      simp [content]
    · exact contents_two hb (by exact Keeps.refl _) (by rw [heads_setChain, heads_setChain])
  | @append q i pack st v happend =>
    cases hplain
    obtain ⟨hst, hv⟩ := IOBufQueue.append_eq w.store (w.queues q) (w.chains i) false
    rw [happend, appendToChain_false] at hst hv
    cases hst
    refine (contents_two hb (by exact Keeps.refl _)
      (by rw [heads_setQueue, heads_setChain])).trans ?_
    rw [hv, store_setQueue, content_append]
    rfl
  | @appendQueue q p pack st v u hqp happend =>
    cases hplain
    obtain ⟨hst, hv, hu⟩ := appendQueue_eq w.store (w.queues q) (w.queues p) false
    rw [happend, appendToChain_false] at hst hv
    rw [happend] at hu
    cases hst
    refine (contents_two hb (by exact Keeps.refl _)
      (by rw [heads_setQueue, heads_setQueue])).trans ?_
    rw [hv, hu, store_setQueue, content_append]
    rfl
  | appendBytes happend =>
    obtain ⟨st', q', heq, happended⟩ := appendBytes_spec w.store _ (le_refl _)
    rw [happend] at heq
    cases heq
    exact contents_appended hb hc happended
  | wrapBuffer hwrap => exact contents_appended hb hc (wrapBuffer_appended hwrap)
  | fill hfill => exact contents_appended hb hc (fill_spec hfill)
  | prepend _ => exact absurd hplain id
  | @split q n throwOnUnderflow i st v c _ hi hsplit =>
    obtain ⟨htaken, hleft⟩ := split_spec (hvalid (.inr q)) hsplit
    refine (contents_two hb (clones_split hsplit).keeps
      (by rw [heads_setChain, heads_setQueue])).trans ?_
    rw [store_setChain, htaken, hleft]
    rfl
  | @trimStart q amount throwOnUnderflow st v _ htrim =>
    have hkeeps := (moves_trimStart w.store (w.queues q) amount
      throwOnUnderflow).keeps
    have hcontent := trimStart_spec (hvalid (.inr q)) amount throwOnUnderflow
    rw [htrim] at hkeeps hcontent
    refine (contents_one hb hkeeps (heads_setQueue ..)).trans ?_
    rw [store_setQueue, hcontent]
    rfl
  | @trimEnd q amount throwOnUnderflow st v _ htrim =>
    have hkeeps := (moves_trimEnd w.store (w.queues q) amount throwOnUnderflow).keeps
    have hcontent := trimEnd_spec (hvalid (.inr q)) amount throwOnUnderflow
    rw [htrim] at hkeeps hcontent
    refine (contents_one hb hkeeps (heads_setQueue ..)).trans ?_
    rw [store_setQueue, hcontent]
    rfl
  | @popFront q i v c hi hpop =>
    have hhead := popFront_head (w.queues q)
    rw [hpop] at hhead
    have hcontent : w.contents (.inr q) = content w.store c ++ content w.store v.head := by
      rw [contents, show w.heads (.inr q) = c ++ v.head from hhead, content_append]
    refine ⟨(content w.store c).length, ?_⟩
    rw [hcontent, take_left, drop_left]
    exact contents_two hb (by exact Keeps.refl _) (by rw [heads_setChain, heads_setQueue])
  | move hi hmove =>
    cases hmove
    exact (contents_two hb (by exact Keeps.refl _)
      (by rw [heads_setChain, heads_setQueue])).trans rfl
  | clear =>
    refine (contents_one hb (by exact Keeps.refl _) (heads_setQueue ..)).trans ?_
    rw [store_setQueue, content_clear]
  | @gather q maxLength st c _ hgather =>
    exact contents_same hb (moves_gather hgather).keeps (heads_setQueue ..)
      (content_gather (hvalid (.inr q)) hgather)
  | gatherNone _ => rfl
  | @moveQueue q p hqp =>
    refine (contents_two hb (keeps_destroy w.store (w.queues q).head)
      (by rw [heads_setQueue, heads_setQueue])).trans ?_
    rw [store_setQueue, show content (destroy w.store (w.queues q).head)
      (w.queues p).head = w.contents (.inr p) from
        content_of_keeps (hvalid (.inr p)) (keeps_destroy _ _)]
    rfl

omit [DecidableEq ι] [DecidableEq κ] [Fintype ι] [Fintype κ] in
lemma computeChainDataLength_eq (h : ∀ b ∈ chain, Valid st b) :
    computeChainDataLength chain = UInt64.ofNat (content st chain).length := by
  rw [length_content h, computeChainDataLength]

omit [DecidableEq ι] [Fintype ι] [Fintype κ] in
lemma cached_setQueue (st : Store) (h : ∀ p, (w.queues p).Cached) {q : κ} {v : IOBufQueue}
    (hv : v.Cached) (p : κ) : ((w.setQueue st q v).queues p).Cached := by
  by_cases hp : p = q
  · subst hp
    simpa [setQueue] using hv
  · simpa [setQueue, hp] using h p

lemma cached_same (hb : Bounded w.store w.live) (h : ∀ p, (w.queues p).Cached) (hmoves : ∀ b ∈ c, Valid st b)
    (hsame : content st c = w.contents x) (p : κ) : ((w.setHead st x c).queues p).Cached := by
  cases x with
  | inl i => exact h p
  | inr q =>
    have hold : ∀ b ∈ (w.queues q).head, Valid w.store b := fun b hbq =>
      hb b (mem_live (x := .inr q) hbq)
    refine cached_setQueue st h (fun hcache => ?_) p
    have hlen := h q hcache
    rw [computeChainDataLength_eq hold] at hlen
    exact hlen.trans (by rw [computeChainDataLength_eq hmoves, hsame]; rfl)

lemma Step.cached {op : Op ι κ} {e : Option Exn} (hb : Bounded w.store w.live)
    (hq : ∀ q, (w.queues q).Cached) (h : Step w op w' e) : ∀ q, (w'.queues q).Cached := by
  have hvalid : ∀ x, ∀ b ∈ w.heads x, Valid w.store b := fun x b hbx => hb b (mem_live hbx)
  cases h with
  | @isSharedOne x n b hbx =>
    have hmoves := moves_set hbx (moves_isSharedOne w.store b)
    exact cached_same hb hq (hmoves.bounded fun c hc => hvalid x c hc)
      (content_set (hvalid x) (Keeps.refl _) hbx (read_isSharedOne w.store b w.store))
  | @clone x i st c d hx hi hclone =>
    have hclones := clones_cloneChain w.store (w.heads x)
    have hkept := (content_cloneChain w.store (w.heads x) st).1
    rw [hclone] at hclones hkept
    have hvalid' := hclones.bounded fun b hbx => hvalid x b hbx
    exact cached_same hb hq (fun b hbc => hvalid' b (Multiset.mem_add.mpr (Or.inl hbc)))
      (hkept.trans (content_of_keeps (hvalid x) hclones.keeps))
  | @cloneOne x n i b b' c st hbx hi hclone =>
    have hclones := clones_cloneOne w.store b
    have hkept := (read_cloneOne w.store b st).1
    obtain ⟨M, hchain, hset⟩ := exists_element hbx
    rw [hclone] at hclones hkept
    have hread := read_of_keeps (hvalid x b (mem_of_getElem? hbx)) hclones.keeps
    have hvalid' := (hclones.frame M).bounded (by
      rw [← hchain]
      exact fun b hbx => hvalid x b hbx)
    refine cached_same hb hq (fun d hd => hvalid' d ?_)
      (content_set (hvalid x) hclones.keeps hbx (hkept.trans hread))
    rw [pair_add]
    rcases Multiset.mem_add.mp (hset b' ▸ Multiset.mem_coe.mpr hd) with hd | hd
    · rw [Multiset.mem_singleton.mp hd]
      exact Multiset.mem_cons_self b' _
    · exact Multiset.mem_cons_of_mem (Multiset.mem_cons_of_mem hd)
  | @append q i pack st v happend =>
    have hv := cached_append w.store (w.chains i) pack (hq q)
    rw [happend] at hv
    exact cached_setQueue st (w := w.setChain st i []) hq hv
  | @appendQueue q p pack st v u hqp happend =>
    have hboth := cached_appendQueue w.store pack (hq q) (hq p)
    rw [happend] at hboth
    exact cached_setQueue _ (cached_setQueue _ hq hboth.2) hboth.1
  | @appendBytes q src st v happend =>
    obtain ⟨st', q', heq, happended⟩ :=
      appendBytes_spec w.store (w.queues q) (le_refl src.length)
    rw [happend] at heq
    cases heq
    exact cached_setQueue _ hq (happended.cached (hq q))
  | @wrapBuffer q src blockSize st v hwrap =>
    exact cached_setQueue _ hq ((wrapBuffer_appended hwrap).cached (hq q))
  | @fill q minSize newAllocationSize maxSize src n st v hfill =>
    exact cached_setQueue _ hq ((fill_spec hfill).cached (hq q))
  | @prepend q src st v e hprepend =>
    have hv := cached_prepend w.store (hq q) src
    rw [hprepend] at hv
    exact cached_setQueue _ hq hv
  | @split q n throwOnUnderflow i st v c e hi hsplit =>
    exact cached_setQueue st hq (cached_split (hq q) hsplit)
  | @trimStart q amount throwOnUnderflow st v e htrim =>
    have hv := cached_trimStart w.store (hq q) amount throwOnUnderflow
    rw [htrim] at hv
    exact cached_setQueue _ hq hv
  | @trimEnd q amount throwOnUnderflow st v e htrim =>
    have hv := cached_trimEnd w.store (hq q) amount throwOnUnderflow
    rw [htrim] at hv
    exact cached_setQueue _ hq hv
  | @popFront q i v c hi hpop =>
    have hv := cached_popFront (hq q)
    rw [hpop] at hv
    exact cached_setQueue w.store hq hv
  | move hi hmove =>
    cases hmove
    exact cached_setQueue w.store hq fun _ => rfl
  | @clear q => exact cached_setQueue _ hq (cached_clear (hq q))
  | @gather q maxLength st c e hgather =>
    exact cached_same (x := .inr q) hb hq
      ((moves_gather hgather).bounded fun b hbq => hvalid (.inr q) b hbq)
      (content_gather (hvalid (.inr q)) hgather)
  | gatherNone _ => exact hq
  | @moveQueue q p hqp => exact cached_setQueue _ (cached_setQueue _ hq fun _ => rfl) (hq p)
  | _ => exact hq

def Gentle (_ : World ι κ) (op : Op ι κ) (w' : World ι κ) (e : Option Exn) : Prop :=
  op.Plain ∧ e = none ∧ Few w'.live

theorem queue_refines_bytes (cache : κ → Bool) (ops : List (Op ι κ)) (w : World ι κ)
    (h : Run Gentle (start cache) ops w) :
    SpecRun (fun _ => []) ops w.contents ∧
    (∀ q, (w.queues q).cacheChainLength = true →
      (w.queues q).chainLength = UInt64.ofNat (w.contents (.inr q)).length) ∧
    (∀ q src, ∃ w', Step w (.appendBytes q src) w' none) ∧
    ∀ q src blockSize, 1 ≤ blockSize → ∃ w', Step w (.wrapBuffer q src blockSize) w' none := by
  have hcached : ∀ q, (w.queues q).Cached := by
    induction h with
    | nil => exact fun q _ => rfl
    | snoc hrun hstep hgentle ih => exact hstep.cached hrun.bounded ih
  refine ⟨?_, ?_, ?_, ?_⟩
  · clear hcached
    induction h with
    | nil =>
      have hempty : (fun _ => []) = (start cache : World ι κ).contents := by
        funext x
        cases x with
        | inl i | inr q => rfl
      rw [hempty]
      exact .nil
    | snoc hrun hstep hgentle ih =>
      obtain ⟨hplain, rfl, _⟩ := hgentle
      have hcounted := hrun.counted fun _ _ _ _ hok => hok.2.2
      exact ih.snoc (hstep.refines hrun.bounded hcounted hplain)
  · intro q hcache
    rw [hcached q hcache]
    exact computeChainDataLength_eq fun b hbq => h.bounded b (mem_live (x := .inr q) hbq)
  · intro q src
    obtain ⟨st, v, heq, _⟩ :=
      appendBytes_spec w.store (w.queues q) (le_refl src.length)
    exact ⟨_, .appendBytes heq⟩
  · intro q src blockSize hblock
    obtain ⟨st, v, heq⟩ :=
      wrapBuffer_defined hblock w.store (w.queues q) (le_refl src.length)
    exact ⟨_, .wrapBuffer heq⟩

end Refines

theorem queue_refines_bytes_halves : ∃ ops w, Run Gentle (start fun _ => false) ops w ∧
    (w : World Bool Bool).contents (.inr false) = [98, 97] ∧
    SpecRun (fun _ => []) ops w.contents := by
  have happend : Step halves (.append false true false)
      (pairWorld halves.store [] []
        { chainLength := 0 - 1, head := [view.trimStart 1, view.trimEnd 1] } {}) none := by
    have h : Step halves (.append false true false) _ none := .append rfl
    rw [halves, setChain_true, setQueue_false] at h
    exact h
  have hrun : Run Gentle (start fun _ => false) _ _ :=
    .snoc (.snoc (.snoc (.snoc .nil step_owned ⟨trivial, rfl, few_pair _ _ _ _ _ (by decide)⟩)
      step_queued ⟨rfl, rfl, few_pair _ _ _ _ _ (by decide)⟩)
      step_halves ⟨trivial, rfl, few_pair _ _ _ _ _ (by decide)⟩)
      happend ⟨rfl, rfl, few_pair _ _ _ _ _ (by decide)⟩
  exact ⟨_, _, hrun, by decide, (queue_refines_bytes _ _ _ hrun).1⟩

def crowdQueued (n : Nat) : World Bool Bool :=
  pairWorld (crowd n).store [] [] { head := List.replicate (n + 1) view }
    { head := [view.trimEnd 1] }

lemma step_crowdQueued (n : Nat) :
    Step (crowd n) (.append false false false) (crowdQueued n) none := by
  have h : Step (crowd n) (.append false false false) _ none := .append rfl
  rw [crowd, setChain_false, setQueue_false] at h
  exact h

theorem append_changes_other_queue : ∃ ops w w',
    Run (fun _ op _ e => op.Plain ∧ e = none) (start fun _ => false) ops w ∧
      Step w (.appendBytes true [120]) w' none ∧
        (w' : World Bool Bool).contents (.inr false) ≠
          (w : World Bool Bool).contents (.inr false) := by
  obtain ⟨ops, hrun⟩ : ∃ ops, Run (fun _ op _ e => op.Plain ∧ e = none) (start fun _ => false) ops
      (crowd (2 ^ 32 - 2)) := run_crowd (fun _ _ _ hplain => ⟨hplain, rfl⟩) _
  have hfirst : ∀ (st st' : Store) (n : Nat), read st view = [97, 120] → read st' view = [97, 98] →
      content st (List.replicate (n + 1) view) ≠ content st' (List.replicate (n + 1) view) := by
    intro st st' n hread hread' heq
    rw [List.replicate_succ, content, content, List.flatMap_cons, List.flatMap_cons, hread,
      hread'] at heq
    cases heq
  refine ⟨_, _, _, hrun.snoc (step_crowdQueued _) ⟨rfl, rfl⟩, .appendBytes rfl, ?_⟩
  exact hfirst _ _ _ rfl rfl

end Acc.Io
