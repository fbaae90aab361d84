import Accelerator.Io.Writing

namespace Acc.Io

open List Option Multiset UInt64 Nat

open Refs

@[simp] lemma computeChainDataLength_nil : computeChainDataLength [] = 0 := rfl

@[simp] lemma computeChainDataLength_cons (b : IOBuf) (bs : List IOBuf) :
    computeChainDataLength (b :: bs) = ofNat b.length + computeChainDataLength bs := by
  rw [computeChainDataLength, List.map_cons, List.sum_cons, ofNat_add]
  rfl

@[simp] lemma computeChainDataLength_append (bs cs : List IOBuf) :
    computeChainDataLength (bs ++ cs) = computeChainDataLength bs + computeChainDataLength cs := by
  rw [computeChainDataLength, map_append, List.sum_append_nat, ofNat_add]
  rfl

lemma computeChainDataLength_packLoop (st : Store) (tail : IOBuf) (copyRemaining : Nat)
    (src : List IOBuf) : computeChainDataLength ((packLoop st tail copyRemaining src).2.1 ::
        (packLoop st tail copyRemaining src).2.2) = computeChainDataLength (tail :: src) := by
  induction src generalizing st tail copyRemaining with
  | nil => rfl
  | cons b src ih =>
    rw [packLoop]
    split
    · simp [ih, IOBuf.append, UInt64.add_assoc]
    · rfl

lemma computeChainDataLength_appendToChain (st : Store) (dst src : List IOBuf) (pack : Bool) :
    computeChainDataLength (appendToChain st dst src pack).2 =
      computeChainDataLength dst + computeChainDataLength src := by
  cases pack with
  | false => simp [appendToChain_false]
  | true =>
    rcases eq_nil_or_concat dst with rfl | ⟨init, tail, rfl⟩
    · exact (UInt64.zero_add _).symm
    · rw [concat_eq_append, appendToChain_true, computeChainDataLength_append,
        computeChainDataLength_packLoop, ← computeChainDataLength_append,
        ← computeChainDataLength_append, append_assoc, singleton_append]

namespace IOBufQueue

lemma append_eq (st : Store) (q : IOBufQueue) (buf : List IOBuf) (pack : Bool) :
    (append st q buf pack).1 = (appendToChain st q.head buf pack).1 ∧
      (append st q buf pack).2.head = (appendToChain st q.head buf pack).2 := by
  cases buf with
  | nil =>
    have hnil : appendToChain st q.head [] pack = (st, q.head) := by
      cases pack with
      | false => rw [appendToChain_false, append_nil]
      | true =>
        rcases eq_nil_or_concat q.head with hq | ⟨init, tail, hq⟩
        · rw [hq]
          rfl
        · rw [hq, concat_eq_append, appendToChain_true]
          rfl
    rw [hnil]
    exact ⟨rfl, rfl⟩
  | cons b bs =>
    by_cases hq : q.cacheChainLength = true
    · simp [append, hq]
    · simp [append, hq]

lemma appendQueue_eq (st : Store) (q other : IOBufQueue) (pack : Bool) :
    (appendQueue st q other pack).1 = (appendToChain st q.head other.head pack).1 ∧
      (appendQueue st q other pack).2.1.head = (appendToChain st q.head other.head pack).2 ∧
      (appendQueue st q other pack).2.2.head = [] := by
  cases hother : other.head with
  | nil =>
    have hnil := append_eq st q [] pack
    simp only [appendQueue, hother]
    exact ⟨hnil.1, hnil.2, hother⟩
  | cons b bs =>
    by_cases hq : q.cacheChainLength = true
    · simp [appendQueue, hq, hother]
    · simp [appendQueue, hq, hother]

def Cached (q : IOBufQueue) : Prop :=
  q.cacheChainLength = true → q.chainLength = computeChainDataLength q.head

lemma cached_append (st : Store) {q : IOBufQueue} (buf : List IOBuf) (pack : Bool)
    (h : q.Cached) : (append st q buf pack).2.Cached := by
  rw [append]
  split
  · exact h
  intro hcache
  by_cases hq : q.cacheChainLength = true
  · simp only [if_pos hq, computeChainDataLength_appendToChain, h hq]
  · simp only [if_neg hq] at hcache
    exact absurd hcache hq

lemma cached_appendQueue (st : Store) {q other : IOBufQueue} (pack : Bool) (h : q.Cached)
    (hother : other.Cached) :
    (appendQueue st q other pack).2.1.Cached ∧ (appendQueue st q other pack).2.2.Cached := by
  rw [appendQueue]
  split
  · exact ⟨h, hother⟩
  refine ⟨?_, fun _ => rfl⟩
  intro hcache
  by_cases hq : q.cacheChainLength = true
  · have hlen : (if other.cacheChainLength then other.chainLength
        else computeChainDataLength other.head) = computeChainDataLength other.head := by
      split
      · rename_i hcached
        exact hother hcached
      · rfl
    simp only [if_pos hq, computeChainDataLength_appendToChain, h hq, hlen]
  · simp only [if_neg hq] at hcache
    exact absurd hcache hq

end IOBufQueue

lemma and_not_seven {m : Nat} (h : m < 2 ^ 64) : m &&& 18446744073709551608 = m / 8 * 8 := by
  have hmask : 18446744073709551608 = (2 ^ 61 - 1) <<< 3 := by decide
  have hdiv : m / 8 * 8 = (m >>> 3) <<< 3 := by
    rw [shiftLeft_eq, shiftRight_eq_div_pow]
  refine eq_of_testBit_eq fun i => ?_
  rw [hmask, hdiv, testBit_and, testBit_shiftLeft, testBit_shiftLeft,
    testBit_two_pow_sub_one, testBit_shiftRight]
  by_cases hlow : 3 ≤ i
  · by_cases hhigh : i < 64
    · have hlt : i - 3 < 61 := by omega
      simp [hlow, hlt]
    · have hbit : m.testBit i = false := testBit_lt_two_pow
        (lt_of_lt_of_le h (Nat.pow_le_pow_right (by decide) (by omega)))
      simp [hlow, hbit]
  · simp [hlow]

lemma allocExtBuffer_small {n : Nat} (h : n ≤ 2 ^ 32) :
    allocExtBuffer n = some ((n + 31) / 8 * 8 - 24) := by
  have hgood : (goodExtBufferSize (ofNat n)).toNat = (n + 31) / 8 * 8 := by
    have hmask : (~~~ (7 : UInt64)).toNat = 18446744073709551608 := by decide
    have h24 : (24 : UInt64).toNat = 24 := rfl
    have h7 : (7 : UInt64).toNat = 7 := rfl
    rw [goodExtBufferSize, UInt64.toNat_and, UInt64.toNat_add, UInt64.toNat_add,
      toNat_ofNat', hmask, h24, h7, and_not_seven (mod_lt _ (by decide))]
    omega
  rw [allocExtBuffer]
  simp only [hgood]
  exact if_pos ⟨by omega, by omega⟩

lemma create_eq {st st' : Store} {capacity : Nat} {b : IOBuf}
    (h : create st capacity = some (st', b)) : ∃ actual, b = newIOBuf st true actual 0 0 := by
  obtain ⟨actual, _, heq⟩ := map_eq_some_iff.mp h
  cases heq
  exact ⟨actual, rfl⟩

lemma create_small (st : Store) {capacity : Nat} (h : capacity ≤ 2 ^ 32) :
    ∃ st' b, create st capacity = some (st', b) ∧ capacity ≤ b.tailroom := by
  rw [create]
  split
  · exact ⟨_, _, rfl, le_refl _⟩
  rw [allocExtBuffer_small h]
  refine ⟨_, _, rfl, ?_⟩
  simp only [IOBuf.tailroom, newIOBuf]
  omega

lemma key_isSharedOne (st : Store) (b : IOBuf) : (isSharedOne st b).2.key = b.key := by
  rcases isSharedOne_snd st b with heq | ⟨heq, _⟩
  · rw [heq]
  · rw [heq]
    rfl

lemma length_isSharedOne (st : Store) (b : IOBuf) : (isSharedOne st b).2.length = b.length := by
  rcases isSharedOne_snd st b with heq | ⟨heq, _⟩
  · rw [heq]
  · rw [heq]

namespace IOBufQueue

structure TailReady (st : Store) (q : IOBufQueue) (st' : Store) (q' : IOBufQueue)
    (init : List IOBuf) (last : IOBuf) : Prop where
  head : q'.head = init ++ [last]
  cacheChainLength : q'.cacheChainLength = q.cacheChainLength
  chainLength : q'.chainLength = q.chainLength
  computed : computeChainDataLength q'.head = computeChainDataLength q.head
  moves : Moves st ↑q.head st' ↑q'.head
  same : (∀ b ∈ q.head, Valid st b) → content st' q'.head = content st q.head
  alone : ∀ M, Bounded st ↑q.head → Counted st (↑q.head + M) →
    ∃ k, last.key = some k ∧ refs IOBuf.key k (↑init + M) = 0

variable {st st' st₁ : Store} {q q₁ q' : IOBufQueue}
    {capacity need n fuel minSize newAllocationSize maxSize blockSize : Nat} {b last : IOBuf}

lemma tailReady_create
    (hcache : q₁.cacheChainLength = q.cacheChainLength) (hlen : q₁.chainLength = q.chainLength)
    (hcomputed : computeChainDataLength q₁.head = computeChainDataLength q.head)
    (hmoves : Moves st ↑q.head st ↑q₁.head) (hsame : content st q₁.head = content st q.head)
    (h : create st capacity = some (st', b)) :
    TailReady st q st' { q₁ with head := q₁.head ++ [b] } q₁.head b := by
  obtain ⟨actual, rfl⟩ := create_eq h
  have hnew := moves_create h
  have hall : Moves st ↑q.head st' ↑(q₁.head ++ [newIOBuf st true actual 0 0]) := by
    have hframe := hnew.frame ↑q₁.head
    rw [zero_add, add_comm] at hframe
    exact hmoves.trans hframe
  refine ⟨rfl, hcache, hlen, ?_, hall, ?_, ?_⟩
  · rw [computeChainDataLength_append, hcomputed]
    exact UInt64.add_zero _
  · intro hvalid
    have hvalid₁ : ∀ c ∈ q₁.head, Valid st c := fun c hc =>
      hmoves.bounded (fun b hb => hvalid b hb) c hc
    have hempty : content st' [newIOBuf st true actual 0 0] = [] := by
      simp [content, read, newIOBuf]
    rw [content, flatMap_append, ← content, ← content, hempty, append_nil,
      content_of_keeps hvalid₁ hnew.keeps, hsame]
  · intro M hb hc
    exact ⟨st.length, rfl, (hmoves.counted M hb hc).known st.length (le_refl _)⟩

def asked (st : Store) (q : IOBufQueue) : IOBufQueue :=
  match q.head.getLast? with
  | none => q
  | some last => { q with head := q.head.dropLast ++ [(isSharedOne st last).2] }

variable {init : List IOBuf}

lemma asked_concat (st : Store) (hq : q.head = init ++ [last]) :
    asked st q = { q with head := init ++ [(isSharedOne st last).2] } := by
  rw [asked, hq, getLast?_concat]
  simp only [dropLast_concat]

lemma asked_same (st : Store) (q : IOBufQueue) :
    (asked st q).cacheChainLength = q.cacheChainLength ∧ (asked st q).chainLength = q.chainLength ∧
      computeChainDataLength (asked st q).head = computeChainDataLength q.head ∧
      Moves st ↑q.head st ↑(asked st q).head ∧
      content st (asked st q).head = content st q.head := by
  rcases eq_nil_or_concat q.head with hq | ⟨init, last, hq⟩
  · have hasked : asked st q = q := by rw [asked, hq, getLast?_nil]
    rw [hasked]
    exact ⟨rfl, rfl, rfl, Moves.refl st _, rfl⟩
  rw [concat_eq_append] at hq
  have hmoves := (moves_isSharedOne st last).frame ↑init
  rw [add_comm, add_comm _ (init : Multiset IOBuf)] at hmoves
  rw [asked_concat st hq, hq]
  refine ⟨rfl, rfl, ?_, hmoves, ?_⟩
  · simp [length_isSharedOne]
  · simp [content, read_isSharedOne]

lemma reserveTail_cases (h : reserveTail st q need capacity = some (st', q')) :
    (∃ b, create st capacity = some (st', b) ∧
        q' = { asked st q with head := (asked st q).head ++ [b] }) ∨
      (st' = st ∧ q' = asked st q ∧ need ≤ q'.tailroom ∧
        ∃ init last, q.head = init ++ [last] ∧ (isSharedOne st last).1 = false) := by
  rcases eq_nil_or_concat q.head with hq | ⟨init, last, hq⟩
  · have hasked : asked st q = q := by rw [asked, hq, getLast?_nil]
    simp only [reserveTail, hq, getLast?_nil] at h
    obtain ⟨⟨st₁, b⟩, hcreate, heq⟩ := map_eq_some_iff.mp h
    cases heq
    refine Or.inl ⟨b, hcreate, ?_⟩
    rw [hasked, appendToChain_false, hq]
  rw [concat_eq_append] at hq
  have hasked := asked_concat st hq
  simp only [reserveTail, hq, getLast?_concat, dropLast_concat] at h
  split at h
  · obtain ⟨⟨st₁, b⟩, hcreate, heq⟩ := map_eq_some_iff.mp h
    cases heq
    refine Or.inl ⟨b, hcreate, ?_⟩
    rw [hasked, appendToChain_false]
  rename_i hready
  cases h
  have hroom : need ≤ (isSharedOne st last).2.tailroom := by
    by_contra hlt
    exact hready (Or.inr (by omega))
  refine Or.inr ⟨rfl, hasked.symm, ?_, init, last, hq, ?_⟩
  · rw [tailroom, getLast?_concat]
    exact hroom
  · cases hshared : (isSharedOne st last).1 with
    | false => rfl
    | true => exact absurd (Or.inl hshared) hready

lemma reserveTail_ready (h : reserveTail st q need capacity = some (st', q')) :
    ∃ init last, TailReady st q st' q' init last := by
  obtain ⟨hcache, hlen, hcomputed, hmoves, hsame⟩ := asked_same st q
  rcases reserveTail_cases h with ⟨b, hcreate, rfl⟩ | ⟨rfl, rfl, _, init, last, hq, hshared⟩
  · exact ⟨_, b, tailReady_create hcache hlen hcomputed hmoves hsame hcreate⟩
  refine ⟨init, (isSharedOne st' last).2, ?_, hcache, hlen, hcomputed, hmoves, fun _ => hsame, ?_⟩
  · rw [asked_concat st' hq]
  intro M hb hc
  have hperm : (↑q.head + M : Multiset IOBuf) = last ::ₘ (↑init + M) := by
    rw [hq, ← coe_add, add_comm (init : Multiset IOBuf), add_assoc]
    exact singleton_add last _
  rw [hperm] at hc
  have hv := hb last (by rw [hq]; simp)
  obtain ⟨k, hk, hzero⟩ := isSharedOne_alone hc hv hshared
  exact ⟨k, (key_isSharedOne st' last).trans hk, hzero⟩

lemma reserveTail_small (st : Store) (q : IOBufQueue)
    (hneed : need ≤ capacity) (hcap : capacity ≤ 2 ^ 32) :
    ∃ st' q', reserveTail st q need capacity = some (st', q') ∧ need ≤ q'.tailroom := by
  obtain ⟨st₁, b, hcreate, hroom⟩ := create_small st hcap
  have hsome : ∃ st' q', reserveTail st q need capacity = some (st', q') := by
    simp only [reserveTail]
    split
    · rw [hcreate]
      exact ⟨_, _, rfl⟩
    split
    · rw [hcreate]
      exact ⟨_, _, rfl⟩
    · exact ⟨_, _, rfl⟩
  obtain ⟨st', q', h⟩ := hsome
  refine ⟨st', q', h, ?_⟩
  rcases reserveTail_cases h with ⟨c, hc, rfl⟩ | ⟨_, _, hroom, _⟩
  · rw [hcreate] at hc
    cases hc
    rw [tailroom, getLast?_concat]
    exact hneed.trans hroom
  · exact hroom

structure Appended (st : Store) (q : IOBufQueue) (st' : Store) (q' : IOBufQueue)
    (bytes : List UInt8) : Prop where
  cached : q.Cached → q'.Cached
  writes : Writes st ↑q.head st' ↑q'.head
  shown : ∀ M, Bounded st (↑q.head + M) → Counted st (↑q.head + M) →
    content st' q'.head = content st q.head ++ bytes
  others : ∀ M, Bounded st (↑q.head + M) → Counted st (↑q.head + M) →
    ∀ c ∈ M, read st' c = read st c

lemma Appended.refl (st : Store) (q : IOBufQueue) : Appended st q st q [] :=
  ⟨id, (Moves.refl st _).writes, fun _ _ _ => (append_nil _).symm, fun _ _ _ _ _ => rfl⟩

lemma Appended.trans {st₂ : Store} {q₂ : IOBufQueue} {bytes bytes₁ : List UInt8}
    (h : Appended st q st₁ q₁ bytes) (h' : Appended st₁ q₁ st₂ q₂ bytes₁) :
    Appended st q st₂ q₂ (bytes ++ bytes₁) := by
  refine ⟨fun hq => h'.cached (h.cached hq), h.writes.trans h'.writes, ?_, ?_⟩
  · intro M hb hc
    simp [h'.shown M (h.writes.bounded M hb) (h.writes.counted M hb hc), h.shown M hb hc]
  · intro M hb hc c hcM
    rw [h'.others M (h.writes.bounded M hb) (h.writes.counted M hb hc) c hcM,
      h.others M hb hc c hcM]

lemma not_shows_of_refs {c : IOBuf} {M : Multiset IOBuf} {k offset : Nat}
    (hb : Valid st b) (hc : Valid st c) (hk : b.key = some k) (hcM : c ∈ M)
    (hzero : refs IOBuf.key k M = 0) : ¬ c.Shows b offset n := by
  rintro ⟨hbuf, _⟩
  obtain ⟨hmanaged, hbk⟩ := key_eq_some.mp hk
  obtain ⟨blk, hblk, hblkb, _⟩ := hb.block k hbk
  obtain ⟨blk', hblk', hblkc, _⟩ := hc.block k (hbuf.trans hbk)
  rw [hblk] at hblk'
  cases hblk'
  have hkey : c.key = some k :=
    key_eq_some.mpr ⟨hblkc.symm.trans (hblkb.trans hmanaged), hbuf.trans hbk⟩
  exact (refs_eq_zero IOBuf.key).mp hzero c hcM hkey

lemma extendTail_concat (st : Store) (hq : q.head = init ++ [last]) (src : List UInt8) (n : Nat) :
    extendTail st q src n = some (write st last (last.data + last.length) src, { q with
        head := init ++ [last.append n]
        chainLength := q.chainLength + ofNat n }) := by
  rw [extendTail, hq, getLast?_concat]
  simp only [dropLast_concat]

variable {src : List UInt8}

lemma TailReady.appended (h : TailReady st q st₁ q₁ init last)
    (hroom : src.length ≤ last.tailroom) (hn : n ≤ src.length) :
    Appended st q (write st₁ last (last.data + last.length) src) { q₁ with
        head := init ++ [last.append n]
        chainLength := q₁.chainLength + ofNat n } (src.take n) := by
  have hwrite : Writes st₁ ↑(init ++ [last]) (write st₁ last (last.data + last.length) src)
      ↑(init ++ [last.append n]) := by
    have hone : Writes st₁ {last} (write st₁ last (last.data + last.length) src)
        {last.append n} := by
      rw [IOBuf.tailroom] at hroom
      refine writes_write rfl rfl rfl rfl ?_ ?_
      · intro hwindow
        simp only [IOBuf.append]
        omega
      · intro hv
        have hwindow := hv.window
        omega
    rw [← coe_add, ← coe_add, add_comm, add_comm (init : Multiset IOBuf)]
    exact hone.frame ↑init
  have hready : ∀ M, Bounded st (↑q.head + M) → Counted st (↑q.head + M) →
      Valid st₁ last ∧ ∀ c ∈ (↑init + M : Multiset IOBuf), Valid st₁ c ∧
        read (write st₁ last (last.data + last.length) src) c = read st₁ c := by
    intro M hb hc
    have hb₁ := (h.moves.frame M).bounded hb
    rw [h.head] at hb₁
    have hlast : Valid st₁ last := hb₁ last (by simp)
    obtain ⟨k, hk, hzero⟩ := h.alone M (bounded_add.mp hb).1 hc
    refine ⟨hlast, fun c hcM => ?_⟩
    have hvc : Valid st₁ c := by
      refine hb₁ c ?_
      rcases mem_add.mp hcM with hin | hin
      · simp [mem_coe.mp hin]
      · simp [hin]
    refine ⟨hvc, read_write hlast ?_ (not_shows_of_refs hlast hvc hk hcM hzero)⟩
    have hwindow := hlast.window
    simp only [IOBuf.tailroom] at hroom
    omega
  refine ⟨?_, ?_, ?_, ?_⟩
  · intro hcached hcache
    have hlen := hcached (h.cacheChainLength.symm.trans hcache)
    have hcomputed := h.computed
    rw [h.head] at hcomputed
    simp only [computeChainDataLength_append, computeChainDataLength_cons,
      computeChainDataLength_nil, IOBuf.append, ofNat_add] at hcomputed ⊢
    rw [h.chainLength, hlen, ← hcomputed]
    simp [UInt64.add_assoc]
  · have hmoves := h.moves.writes
    rw [h.head] at hmoves
    exact hmoves.trans hwrite
  · intro M hb hc
    obtain ⟨hlast, hothers⟩ := hready M hb hc
    have hsame := h.same fun b hbq => hb b (mem_add.mpr (Or.inl hbq))
    rw [h.head] at hsame
    rw [← hsame]
    simp only [content, flatMap_append, flatMap_singleton,
      read_write_append hlast hroom hn, ← append_assoc]
    congr 2
    exact flatMap_congr fun c hcin =>
      (hothers c (mem_add.mpr (Or.inl hcin))).2
  intro M hb hc c hcM
  obtain ⟨_, hothers⟩ := hready M hb hc
  rw [(hothers c (mem_add.mpr (Or.inr hcM))).2]
  exact read_of_keeps (hb c (mem_add.mpr (Or.inr hcM))) h.moves.keeps

lemma appendBytes_spec (st : Store) (q : IOBufQueue) (hfuel : src.length ≤ fuel) :
    ∃ st' q', appendBytes fuel st q src = some (st', q') ∧ Appended st q st' q' src := by
  induction fuel generalizing st q src with
  | zero =>
    rw [length_eq_zero_iff.mp (Nat.le_zero.mp hfuel), appendBytes]
    exact ⟨st, q, rfl, Appended.refl st q⟩
  | succ fuel ih =>
    cases src with
    | nil =>
      exact ⟨st, q, rfl, Appended.refl st q⟩
    | cons a src =>
      have hcap : max MIN_ALLOC_SIZE (min (a :: src).length MAX_ALLOC_SIZE) ≤ 2 ^ 32 := by
        simp only [MIN_ALLOC_SIZE, MAX_ALLOC_SIZE]
        omega
      have hone : 1 ≤ max MIN_ALLOC_SIZE (min (a :: src).length MAX_ALLOC_SIZE) := by
        simp only [MIN_ALLOC_SIZE]
        omega
      obtain ⟨st₁, q₁, hreserve, hroom⟩ := reserveTail_small st q hone hcap
      obtain ⟨init, last, hready⟩ := reserveTail_ready hreserve
      have htailroom : q₁.tailroom = last.tailroom := by
        simp [tailroom, hready.head]
      have hcopied : ((a :: src).take (min (a :: src).length last.tailroom)).length =
          min (a :: src).length last.tailroom := by
        rw [length_take]
        omega
      have hpass := hready.appended (hcopied.trans_le (Nat.min_le_right _ _)) hcopied.ge
      have hfuel' : ((a :: src).drop (min (a :: src).length last.tailroom)).length ≤ fuel := by
        rw [length_drop]
        omega
      obtain ⟨st', q', hrest, happended⟩ := ih
        (write st₁ last (last.data + last.length)
          ((a :: src).take (min (a :: src).length last.tailroom)))
        { q₁ with
          head := init ++ [last.append (min (a :: src).length last.tailroom)]
          chainLength := q₁.chainLength +
            ofNat (min (a :: src).length last.tailroom) } hfuel'
      refine ⟨st', q', ?_, ?_⟩
      · rw [← hrest]
        simp only [appendBytes, hreserve, htailroom, extendTail_concat st₁ hready.head]
      · have hboth := hpass.trans happended
        rwa [take_take, min_self, take_append_drop] at hboth

lemma preallocate_reserve {size : Nat}
    (h : preallocate st q minSize newAllocationSize maxSize = some (st', q', size)) :
    reserveTail st q minSize (max minSize newAllocationSize) = some (st', q') ∧
      size ≤ q'.tailroom := by
  obtain ⟨⟨st₁, q₁⟩, hreserve, heq⟩ := map_eq_some_iff.mp h
  cases heq
  exact ⟨hreserve, Nat.min_le_right _ _⟩

lemma fill_spec (h : fill st q minSize newAllocationSize maxSize src n = some (st', q')) :
    Appended st q st' q' (src.take n) := by
  rw [fill] at h
  split at h
  · cases h
  rename_i st₁ q₁ size hpre
  split at h
  · rename_i hfits
    obtain ⟨hreserve, hsize⟩ := preallocate_reserve hpre
    obtain ⟨init, last, hready⟩ := reserveTail_ready hreserve
    rw [tailroom, hready.head, getLast?_concat, getD_some] at hsize
    rw [extendTail_concat st₁ hready.head] at h
    cases h
    exact hready.appended (hfits.1.trans hsize) hfits.2
  · cases h

lemma appended_wrap (st : Store) (q : IOBufQueue) (src : List UInt8) :
    Appended st q (append (Io.wrapBuffer st src).1 q [(Io.wrapBuffer st src).2] false).1
      (append (Io.wrapBuffer st src).1 q [(Io.wrapBuffer st src).2] false).2 src := by
  have happend : (append (Io.wrapBuffer st src).1 q [(Io.wrapBuffer st src).2] false).1 =
        (Io.wrapBuffer st src).1 ∧
      (append (Io.wrapBuffer st src).1 q [(Io.wrapBuffer st src).2] false).2.head =
        q.head ++ [(Io.wrapBuffer st src).2] := by
    have heq := append_eq (Io.wrapBuffer st src).1 q [(Io.wrapBuffer st src).2] false
    rwa [appendToChain_false] at heq
  have hmoves := (moves_wrapBuffer st src).frame ↑q.head
  have hread : read (Io.wrapBuffer st src).1 (Io.wrapBuffer st src).2 = src := by
    simp [Io.wrapBuffer, read, newIOBuf, newBlock, bytesAt]
  rw [zero_add, add_comm] at hmoves
  refine ⟨cached_append _ _ _, ?_, ?_, ?_⟩
  · rw [happend.1, happend.2]
    exact hmoves.writes
  · intro M hb _
    rw [happend.1, happend.2, content, flatMap_append, ← content, flatMap_singleton,
      hread, content_of_keeps (fun b hbq => hb b (mem_add.mpr (Or.inl hbq))) hmoves.keeps]
  · intro M hb _ c hcM
    rw [happend.1]
    exact read_of_keeps (hb c (mem_add.mpr (Or.inr hcM))) hmoves.keeps

lemma wrapBuffer_appended (h : wrapBuffer blockSize fuel st q src = some (st', q')) :
    Appended st q st' q' src := by
  induction fuel generalizing st q src with
  | zero =>
    cases src with
    | nil =>
      cases h
      exact Appended.refl st' q'
    | cons a src => cases h
  | succ fuel ih =>
    cases src with
    | nil =>
      cases h
      exact Appended.refl st' q'
    | cons a src =>
      have hpiece := appended_wrap st q
        ((a :: src).take (min (a :: src).length blockSize))
      have hboth := hpiece.trans (ih h)
      rwa [take_append_drop] at hboth

lemma wrapBuffer_defined (hblock : 1 ≤ blockSize) (st : Store)
    (q : IOBufQueue) (hfuel : src.length ≤ fuel) :
    ∃ st' q', wrapBuffer blockSize fuel st q src = some (st', q') := by
  induction fuel generalizing st q src with
  | zero =>
    rw [length_eq_zero_iff.mp (Nat.le_zero.mp hfuel)]
    exact ⟨st, q, rfl⟩
  | succ fuel ih =>
    cases src with
    | nil => exact ⟨st, q, rfl⟩
    | cons a src =>
      refine ih _ _ ?_
      rw [length_drop]
      omega

lemma prepend_cases (st : Store) (q : IOBufQueue) (src : List UInt8) :
    ((prepend st q src).1 = st ∧ (prepend st q src).2.1 = q ∧
        ((prepend st q src).2.2 = none → src = [])) ∨
      ∃ b bs, q.head = b :: bs ∧ src.length ≤ b.headroom ∧
        prepend st q src = (write st b (b.headroom - src.length) src, { q with
            head := b.prepend src.length :: bs
            chainLength := q.chainLength + ofNat src.length }, none) := by
  cases hq : q.head with
  | nil =>
    refine Or.inl ?_
    simp only [prepend, headroom, hq]
    split
    · exact ⟨rfl, rfl, fun h => nomatch h⟩
    · rename_i hlt
      exact ⟨rfl, rfl, fun _ => length_eq_zero_iff.mp (by omega)⟩
  | cons b bs =>
    simp only [prepend, headroom, hq]
    split
    · exact Or.inl ⟨rfl, rfl, fun h => nomatch h⟩
    rename_i hlt
    refine Or.inr ⟨b, bs, rfl, not_lt.mp hlt, ?_⟩
    split
    · rename_i hempty
      have hsame : q = { q with head := b :: bs, chainLength := q.chainLength + 0 } := by
        rw [UInt64.add_zero, ← hq]
      rw [isEmpty_iff.mp hempty]
      exact congrArg (fun q => (_, q, none)) hsame
    · rfl

lemma writes_prepend (st : Store) (q : IOBufQueue) (src : List UInt8) :
    Writes st ↑q.head (prepend st q src).1 ↑(prepend st q src).2.1.head := by
  rcases prepend_cases st q src with ⟨hst, hq, _⟩ | ⟨b, bs, hq, hroom, heq⟩
  · rw [hst, hq]
    exact (Moves.refl st _).writes
  have hone : Writes st {b} (write st b (b.headroom - src.length) src)
      {b.prepend src.length} := by
    rw [IOBuf.headroom] at hroom
    refine writes_write rfl rfl rfl rfl ?_ ?_
    · intro hwindow
      simp only [IOBuf.prepend]
      omega
    intro hv
    have hwindow := hv.window
    rw [IOBuf.headroom]
    omega
  rw [heq, hq]
  exact hone.frame ↑bs

lemma cached_prepend (st : Store) (h : q.Cached) (src : List UInt8) :
    (prepend st q src).2.1.Cached := by
  rcases prepend_cases st q src with ⟨_, hq, _⟩ | ⟨b, bs, hq, _, heq⟩
  · rwa [hq]
  rw [heq]
  intro hcache
  have hlen := h hcache
  rw [hq, computeChainDataLength_cons] at hlen
  simp only [hlen, computeChainDataLength_cons, IOBuf.prepend, ofNat_add]
  simp [UInt64.add_assoc, UInt64.add_comm (computeChainDataLength bs)]

def PrependFree (chain : List IOBuf) (n : Nat) (c : IOBuf) : Prop :=
  ∀ b ∈ chain.head?, ¬ c.Shows b (b.headroom - n) n

lemma prepend_spec
    (hvalid : ∀ b ∈ q.head, Valid st b) (hfree : ∀ b ∈ q.head, PrependFree q.head src.length b) :
    ((prepend st q src).2.2 = none →
        content (prepend st q src).1 (prepend st q src).2.1.head = src ++ content st q.head) ∧
      ∀ c, PrependFree q.head src.length c → read (prepend st q src).1 c = read st c := by
  rcases prepend_cases st q src with ⟨hst, hq, hnone⟩ | ⟨b, bs, hq, hroom, heq⟩
  · rw [hst, hq]
    refine ⟨fun he => ?_, fun _ _ => rfl⟩
    rw [hnone he, nil_append]
  rw [heq]
  rw [hq] at hvalid hfree ⊢
  have hb := hvalid b mem_cons_self
  have hfits : b.headroom - src.length + src.length ≤ b.capacity := by
    have hwindow := hb.window
    simp only [IOBuf.headroom] at hroom ⊢
    omega
  have hframe : ∀ c, PrependFree (b :: bs) src.length c →
      read (write st b (b.headroom - src.length) src) c = read st c := fun c hc =>
    read_write hb hfits (hc b rfl)
  refine ⟨fun _ => ?_, hframe⟩
  simp only [content, flatMap_cons, read_write_prepend hb hroom, append_assoc]
  congr 2
  exact flatMap_congr fun c hc => hframe c (hfree c (mem_cons_of_mem b hc))

end IOBufQueue

end Acc.Io
