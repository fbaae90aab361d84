import Accelerator.Io.Appending

namespace Acc.Io

open List Multiset UInt64

open Refs

lemma read_trimEnd (st : Store) (b : IOBuf) (n : Nat) :
    read st (b.trimEnd n) = (read st b).take (b.length - n) := by
  rw [read, read, IOBuf.trimEnd]
  cases b.buf with
  | none => exact take_nil.symm
  | some k => simp [take_take]

lemma read_trimStart (st : Store) (b : IOBuf) (n : Nat) :
    read st (b.trimStart n) = (read st b).drop n := by
  rw [read, read, IOBuf.trimStart]
  cases b.buf with
  | none => exact drop_nil.symm
  | some k => simp only [drop_take, drop_drop]

lemma moves_trimStartOne (st : Store) {b : IOBuf} {n : Nat} (h : n ≤ b.length) :
    Moves st {b} st {b.trimStart n} := by
  refine moves_window st rfl rfl rfl rfl fun hwindow => ?_
  simp only [IOBuf.trimStart]
  omega

lemma moves_trimEndOne (st : Store) (b : IOBuf) (n : Nat) : Moves st {b} st {b.trimEnd n} := by
  refine moves_window st rfl rfl rfl rfl fun hwindow => ?_
  simp only [IOBuf.trimEnd]
  omega

lemma Moves.pair {st st₁ st₂ : Store} {b c b' c' : IOBuf} (hb : Moves st {b} st₁ {b'})
    (hc : Moves st₁ {c} st₂ {c'}) : Moves st {b, c} st₂ {b', c'} := by
  have hfirst := hb.frame {c}
  have hsecond := hc.frame {b'}
  rw [add_comm ({c} : Multiset IOBuf), add_comm ({c'} : Multiset IOBuf)] at hsecond
  exact hfirst.trans hsecond

lemma length_cloneOne (st : Store) (b : IOBuf) :
    (cloneOne st b).2.1.length = b.length ∧ (cloneOne st b).2.2.length = b.length := by
  cases hmanaged : b.managed with
  | false =>
    rw [cloneOne_unmanaged st hmanaged]
    exact ⟨rfl, rfl⟩
  | true =>
    rw [cloneOne_managed st hmanaged]
    exact ⟨rfl, rfl⟩

lemma computeChainDataLength_tail (b : IOBuf) (bs : List IOBuf) :
    computeChainDataLength (b :: bs) - ofNat b.length = computeChainDataLength bs := by
  simp

lemma computeChainDataLength_cut {b b' : IOBuf} {n : Nat} (h : b.length = n + b'.length)
    (bs : List IOBuf) :
    computeChainDataLength (b :: bs) - ofNat n = computeChainDataLength (b' :: bs) := by
  simp [h, UInt64.add_assoc]

namespace IOBufQueue

lemma clones_cut (st : Store) {b : IOBuf} {n : Nat} (h : n ≤ b.length) :
    Clones st {b} (cloneOne st b).1 {(cloneOne st b).2.1.trimStart n,
        (cloneOne st b).2.2.trimEnd ((cloneOne st b).2.2.length - n)} := by
  have hkeep : Moves (cloneOne st b).1 {(cloneOne st b).2.1} (cloneOne st b).1
      {(cloneOne st b).2.1.trimStart n} :=
    moves_trimStartOne _ (by rw [(length_cloneOne st b).1]; exact h)
  have hcut := moves_trimEndOne (cloneOne st b).1 (cloneOne st b).2.2
    ((cloneOne st b).2.2.length - n)
  refine (clones_cloneOne st b).trans (hkeep.pair hcut).clones fun k => ?_
  exact le_refl _

lemma clones_splitLoop (st : Store) (c : UInt64) (n : Nat) (result bs : List IOBuf) :
    Clones st ↑(result ++ bs) (splitLoop st c n result bs).1
      ↑((splitLoop st c n result bs).2.2.2.1 ++ (splitLoop st c n result bs).2.2.2.2) := by
  induction bs generalizing st c n result with
  | nil => exact (Moves.refl st _).clones
  | cons b bs ih =>
    rw [splitLoop]
    split
    · exact (Moves.refl st _).clones
    split
    · rw [append_cons]
      exact ih st _ _ _
    rename_i hlt
    have hcut := (clones_cut st (b := b) (n := n) (by omega)).frame ↑(result ++ bs)
    have hold : ({b} + ↑(result ++ bs) : Multiset IOBuf) = ↑(result ++ b :: bs) := by
      rw [singleton_add, cons_coe]
      exact coe_eq_coe.mpr perm_middle.symm
    have hnew : ∀ x y : IOBuf, ({x, y} + ↑(result ++ bs) : Multiset IOBuf) =
        ↑(result ++ [y] ++ x :: bs) := by
      intro x y
      rw [pair_add, cons_coe, cons_coe]
      refine coe_eq_coe.mpr (List.Perm.trans ?_ perm_middle.symm)
      refine List.Perm.cons x ?_
      rw [append_assoc, singleton_append]
      exact perm_middle.symm
    rw [hold, hnew] at hcut
    exact hcut

variable {st st' : Store}

lemma splitLoop_spec {c : UInt64} {n : Nat} {result bs : List IOBuf}
    (hresult : ∀ b ∈ result, Valid st b) (hbs : ∀ b ∈ bs, Valid st b) :
    content (splitLoop st c n result bs).1 (splitLoop st c n result bs).2.2.2.1 =
        content st result ++ (content st bs).take n ∧
      content (splitLoop st c n result bs).1 (splitLoop st c n result bs).2.2.2.2 =
        (content st bs).drop n ∧
      (splitLoop st c n result bs).2.2.1 = n - (content st bs).length := by
  induction bs generalizing c n result with
  | nil => simp [splitLoop, content]
  | cons b bs ih =>
    have hb := hbs b mem_cons_self
    have hrest : ∀ b ∈ bs, Valid st b := fun c hc => hbs c (mem_cons_of_mem b hc)
    have hlen := length_read hb
    have hcons : content st (b :: bs) = read st b ++ content st bs := flatMap_cons
    rw [splitLoop]
    split
    · rename_i hzero
      simp [hzero]
    split
    · rename_i hle
      obtain ⟨htake, hdrop, hleft⟩ := @ih (c - ofNat b.length) (n - b.length)
        (result ++ [b]) (by
          intro d hd
          rcases mem_append.mp hd with hd | hd
          · exact hresult d hd
          · rw [List.mem_singleton.mp hd]
            exact hb) hrest
      have htakeAll : (read st b).take n = read st b := List.take_of_length_le (by omega)
      have hdropAll : (read st b).drop n = [] := drop_of_length_le (by omega)
      refine ⟨?_, ?_, ?_⟩
      · rw [htake, hcons, take_append, hlen, htakeAll]
        simp [content]
      · rw [hdrop, hcons, drop_append, hlen, hdropAll, nil_append]
      · rw [hleft, hcons, length_append, hlen]
        omega
    rename_i hlt
    have hkeeps := (clones_cloneOne st b).keeps
    have hclone := (read_cloneOne st b (cloneOne st b).1)
    have hread := read_of_keeps hb hkeeps
    refine ⟨?_, ?_, ?_⟩
    · rw [hcons, take_append_of_le_length (by omega), content, flatMap_append,
        ← content, content_of_keeps hresult hkeeps, flatMap_singleton, read_trimEnd,
        hclone.2, hread, (length_cloneOne st b).2]
      congr 2
      omega
    · rw [hcons, drop_append_of_le_length (by omega), content, flatMap_cons,
        ← content, content_of_keeps hrest hkeeps, read_trimStart, hclone.1, hread]
    · show 0 = _
      rw [hcons, length_append, hlen]
      omega

lemma computeChainDataLength_splitLoop (st : Store) (n : Nat) (result bs : List IOBuf) :
    (splitLoop st (computeChainDataLength bs) n result bs).2.1 =
      computeChainDataLength (splitLoop st (computeChainDataLength bs) n result bs).2.2.2.2 := by
  induction bs generalizing n result with
  | nil => rfl
  | cons b bs ih =>
    rw [splitLoop]
    split
    · rfl
    split
    · rw [computeChainDataLength_tail]
      exact ih _ _
    rename_i hlt
    refine computeChainDataLength_cut ?_ bs
    simp only [IOBuf.trimStart, (length_cloneOne st b).1]
    omega

lemma splitLoop_left {c : UInt64} {n : Nat} {result bs : List IOBuf}
    (h : (splitLoop st c n result bs).2.2.1 ≠ 0) :
    (splitLoop st c n result bs).1 = st ∧ (splitLoop st c n result bs).2.2.2 = (result ++ bs, []) := by
  induction bs generalizing c n result with
  | nil => exact ⟨rfl, by rw [append_nil]; rfl⟩
  | cons b bs ih =>
    rw [splitLoop] at h ⊢
    split at h
    · exact absurd ‹n = 0› h
    rename_i hn
    rw [if_neg hn]
    split at h
    · rename_i hle
      rw [if_pos hle, append_cons result b bs]
      exact ih h
    · exact absurd rfl h

variable {q q' : IOBufQueue} {throwOnUnderflow : Bool} {e : Option Exn}

lemma split_cases {n : Nat} {result : List IOBuf}
    (h : split st q n throwOnUnderflow = some (st', q', result, e)) : q' = { q with
        chainLength := (splitLoop st q.chainLength n [] q.head).2.1
        head := (splitLoop st q.chainLength n [] q.head).2.2.2.2 } ∧
      ((e ≠ none ∧ result = [] ∧ (splitLoop st q.chainLength n [] q.head).2.2.1 ≠ 0 ∧
          st' = destroy (splitLoop st q.chainLength n [] q.head).1
            (splitLoop st q.chainLength n [] q.head).2.2.2.1) ∨
        (e = none ∧ st' = (splitLoop st q.chainLength n [] q.head).1 ∧
          result = (splitLoop st q.chainLength n [] q.head).2.2.2.1) ∨
        (e = none ∧ (splitLoop st q.chainLength n [] q.head).2.2.2.1 = [] ∧
          ∃ b, result = [b] ∧ create (splitLoop st q.chainLength n [] q.head).1 0 = some (st', b))) := by
  simp only [split] at h
  split at h
  · rename_i hthrow
    cases h
    exact ⟨rfl, Or.inl ⟨Option.some_ne_none _, rfl, hthrow.1, rfl⟩⟩
  split at h
  · rename_i hempty
    obtain ⟨⟨st₁, b⟩, hcreate, heq⟩ := Option.map_eq_some_iff.mp h
    cases heq
    exact ⟨rfl, Or.inr (Or.inr ⟨rfl, hempty, b, rfl, hcreate⟩)⟩
  · cases h
    exact ⟨rfl, Or.inr (Or.inl ⟨rfl, rfl, rfl⟩)⟩

lemma clones_split {n : Nat} {result : List IOBuf}
    (h : split st q n throwOnUnderflow = some (st', q', result, e)) :
    Clones st ↑q.head st' (↑q'.head + ↑result) := by
  have hloop := clones_splitLoop st q.chainLength n [] q.head
  obtain ⟨rfl, hcases⟩ := split_cases h
  rcases hcases with ⟨_, rfl, hleft, rfl⟩ | ⟨_, rfl, rfl⟩ | ⟨_, hempty, b, rfl, hcreate⟩
  · obtain ⟨hst, hboth⟩ := splitLoop_left hleft
    rw [hst, hboth, nil_append]
    exact (moves_destroy st q.head).clones
  · rw [add_comm]
    exact hloop
  rw [hempty, nil_append] at hloop
  have hnew := (moves_create hcreate).frame
    ↑(splitLoop st q.chainLength n [] q.head).2.2.2.2
  rw [zero_add, add_comm] at hnew
  refine hloop.trans hnew.clones fun k => ?_
  rw [refs_add]
  exact Nat.le_add_right _ _

lemma split_spec {n : Nat} {result : List IOBuf} (hvalid : ∀ b ∈ q.head, Valid st b)
    (h : split st q n throwOnUnderflow = some (st', q', result, none)) :
    content st' result = (content st q.head).take n ∧
      content st' q'.head = (content st q.head).drop n := by
  have hnone : ∀ b ∈ ([] : List IOBuf), Valid st b := fun _ hb => nomatch hb
  obtain ⟨htake, hdrop, _⟩ := splitLoop_spec (c := q.chainLength) (n := n) hnone hvalid
  obtain ⟨rfl, hcases⟩ := split_cases h
  rcases hcases with ⟨he, _⟩ | ⟨_, rfl, rfl⟩ | ⟨_, hempty, b, rfl, hcreate⟩
  · exact absurd rfl he
  · exact ⟨htake, hdrop⟩
  have hloop := (clones_splitLoop st q.chainLength n [] q.head).bounded fun b hb => hvalid b hb
  have hhead : ∀ b ∈ (splitLoop st q.chainLength n [] q.head).2.2.2.2, Valid _ b := fun b hb =>
    hloop b (mem_append_right _ hb)
  obtain ⟨actual, rfl⟩ := create_eq hcreate
  rw [hempty] at htake
  refine ⟨?_, ?_⟩
  · have hnew : content st'
        [newIOBuf (splitLoop st q.chainLength n [] q.head).1 true actual 0 0] = [] := by
      simp [content, read, newIOBuf]
    exact htake
  · rw [content_of_keeps hhead (moves_create hcreate).keeps, hdrop]

lemma cached_split {n : Nat} {result : List IOBuf} (hq : q.Cached)
    (h : split st q n throwOnUnderflow = some (st', q', result, e)) : q'.Cached := by
  obtain ⟨rfl, _⟩ := split_cases h
  intro hcache
  have hlen := hq hcache
  simp only [hlen]
  exact computeChainDataLength_splitLoop st n [] q.head

def trimLoop (cut : IOBuf → Nat → IOBuf) (st : Store) (chainLength : UInt64) (amount : Nat) :
    List IOBuf → Store × UInt64 × Nat × List IOBuf
  | [] => (st, chainLength, amount, [])
  | b :: bs =>
    if amount = 0 then (st, chainLength, 0, b :: bs)
    else if b.length > amount then
      (st, chainLength - ofNat amount, 0, cut b amount :: bs)
    else
      trimLoop cut (destroy st [b]) (chainLength - ofNat b.length) (amount - b.length) bs

lemma trimStartLoop_eq (st : Store) (c : UInt64) (amount : Nat) (bs : List IOBuf) :
    trimStartLoop st c amount bs = trimLoop IOBuf.trimStart st c amount bs := by
  induction bs generalizing st c amount with
  | nil => rfl
  | cons b bs ih => rw [trimStartLoop, trimLoop, ih]

lemma trimEndLoop_eq (st : Store) (c : UInt64) (amount : Nat) (bs : List IOBuf) :
    trimEndLoop st c amount bs = trimLoop IOBuf.trimEnd st c amount bs := by
  induction bs generalizing st c amount with
  | nil => rfl
  | cons b bs ih => rw [trimEndLoop, trimLoop, ih]

section

variable {cut : IOBuf → Nat → IOBuf}

lemma moves_trimLoop (hcut : ∀ st b n, n ≤ b.length → Moves st {b} st {cut b n}) (st : Store)
    (c : UInt64) (amount : Nat) (bs : List IOBuf) :
    Moves st ↑bs (trimLoop cut st c amount bs).1 ↑(trimLoop cut st c amount bs).2.2.2 := by
  induction bs generalizing st c amount with
  | nil => exact Moves.refl st _
  | cons b bs ih =>
    rw [trimLoop]
    split
    · exact Moves.refl st _
    split
    · rename_i hlt
      exact (hcut st b amount hlt.le).head bs
    · have hhead := (moves_destroy st [b]).frame ↑bs
      exact hhead.trans (ih _ _ _)

lemma computeChainDataLength_trimLoop (hcut : ∀ b n, (cut b n).length = b.length - n) (st : Store)
    (amount : Nat) (bs : List IOBuf) : (trimLoop cut st (computeChainDataLength bs) amount bs).2.1 =
      computeChainDataLength (trimLoop cut st (computeChainDataLength bs) amount bs).2.2.2 := by
  induction bs generalizing st amount with
  | nil => rfl
  | cons b bs ih =>
    rw [trimLoop]
    split
    · rfl
    split
    · rename_i hlt
      refine computeChainDataLength_cut ?_ bs
      rw [hcut]
      omega
    · rw [computeChainDataLength_tail]
      exact ih _ _

end

lemma trimStartLoop_spec {c : UInt64} {amount : Nat} {bs : List IOBuf}
    (hbs : ∀ b ∈ bs, Valid st b) :
    content (trimStartLoop st c amount bs).1 (trimStartLoop st c amount bs).2.2.2 =
        (content st bs).drop amount ∧
      (trimStartLoop st c amount bs).2.2.1 = amount - (content st bs).length := by
  induction bs generalizing st c amount with
  | nil => simp [trimStartLoop, content]
  | cons b bs ih =>
    have hb := hbs b mem_cons_self
    have hrest : ∀ b ∈ bs, Valid st b := fun c hc => hbs c (mem_cons_of_mem b hc)
    have hlen := length_read hb
    have hcons : content st (b :: bs) = read st b ++ content st bs := flatMap_cons
    rw [trimStartLoop]
    split
    · rename_i hzero
      simp [hzero]
    split
    · rename_i hlt
      refine ⟨?_, ?_⟩
      · rw [hcons, drop_append_of_le_length (by omega), ← read_trimStart]
        exact flatMap_cons
      · show 0 = _
        rw [hcons, length_append, hlen]
        omega
    have hkeeps := keeps_destroy st [b]
    have hsame := content_of_keeps hrest hkeeps
    have hdropAll : (read st b).drop amount = [] := drop_of_length_le (by omega)
    obtain ⟨hdrop, hleft⟩ := @ih (destroy st [b]) (c - ofNat b.length)
      (amount - b.length) fun d hd => (hrest d hd).mono hkeeps
    refine ⟨?_, ?_⟩
    · rw [hdrop, hsame, hcons, drop_append, hlen, hdropAll, nil_append]
    · rw [hleft, hsame, hcons, length_append, hlen]
      omega

lemma trimEndLoop_spec {c : UInt64} {amount : Nat} {bs : List IOBuf}
    (hbs : ∀ b ∈ bs, Valid st b) :
    content (trimEndLoop st c amount bs).1 (trimEndLoop st c amount bs).2.2.2.reverse =
        (content st bs.reverse).take ((content st bs.reverse).length - amount) ∧
      (trimEndLoop st c amount bs).2.2.1 = amount - (content st bs.reverse).length := by
  induction bs generalizing st c amount with
  | nil => simp [trimEndLoop, content]
  | cons b bs ih =>
    have hb := hbs b mem_cons_self
    have hrest : ∀ b ∈ bs, Valid st b := fun c hc => hbs c (mem_cons_of_mem b hc)
    have hrev : ∀ b ∈ bs.reverse, Valid st b := fun c hc => hrest c (mem_reverse.mp hc)
    have hlen := length_read hb
    have hcons : content st (b :: bs).reverse = content st bs.reverse ++ read st b := by
      simp [content]
    rw [trimEndLoop]
    split
    · rename_i hzero
      simp [hzero]
    split
    · rename_i hlt
      refine ⟨?_, ?_⟩
      · rw [hcons, length_append, hlen, take_append, List.take_of_length_le (by omega)]
        simp only [content, reverse_cons, flatMap_append, flatMap_singleton,
          read_trimEnd]
        congr 2
        omega
      · show 0 = _
        rw [hcons, length_append, hlen]
        omega
    rename_i hle
    have hkeeps := keeps_destroy st [b]
    have hsame := content_of_keeps hrev hkeeps
    obtain ⟨htake, hleft⟩ := @ih (destroy st [b]) (c - ofNat b.length)
      (amount - b.length) fun d hd => (hrest d hd).mono hkeeps
    refine ⟨?_, ?_⟩
    · rw [htake, hsame, hcons, length_append, hlen,
        take_append_of_le_length (by omega)]
      congr 1
      omega
    · rw [hleft, hsame, hcons, length_append, hlen]
      omega

lemma moves_trimStart (st : Store) (q : IOBufQueue) (amount : Nat) (throwOnUnderflow : Bool) :
    Moves st ↑q.head (trimStart st q amount throwOnUnderflow).1
      ↑(trimStart st q amount throwOnUnderflow).2.1.head := by
  simp only [trimStart, trimStartLoop_eq]
  exact moves_trimLoop (fun st _ _ h => moves_trimStartOne st h) _ _ _ _

lemma moves_trimEnd (st : Store) (q : IOBufQueue) (amount : Nat) (throwOnUnderflow : Bool) :
    Moves st ↑q.head (trimEnd st q amount throwOnUnderflow).1
      ↑(trimEnd st q amount throwOnUnderflow).2.1.head := by
  rw [← coe_reverse q.head, ← coe_reverse (trimEnd st q _ _).2.1.head]
  simp only [trimEnd, reverse_reverse, trimEndLoop_eq]
  exact moves_trimLoop (fun st b n _ => moves_trimEndOne st b n) _ _ _ _

lemma trimStart_spec (hvalid : ∀ b ∈ q.head, Valid st b)
    (amount : Nat) (throwOnUnderflow : Bool) : content (trimStart st q amount throwOnUnderflow).1
      (trimStart st q amount throwOnUnderflow).2.1.head = (content st q.head).drop amount :=
  (trimStartLoop_spec hvalid).1

lemma trimEnd_spec (hvalid : ∀ b ∈ q.head, Valid st b) (amount : Nat) (throwOnUnderflow : Bool) :
    content (trimEnd st q amount throwOnUnderflow).1
        (trimEnd st q amount throwOnUnderflow).2.1.head =
      (content st q.head).take ((content st q.head).length - amount) := by
  have hreverse : ∀ b ∈ q.head.reverse, Valid st b := fun b hb =>
    hvalid b (mem_reverse.mp hb)
  rw [← reverse_reverse q.head]
  exact (trimEndLoop_spec hreverse).1

lemma cached_trimStart (st : Store) (h : q.Cached) (amount : Nat)
    (throwOnUnderflow : Bool) : (trimStart st q amount throwOnUnderflow).2.1.Cached := by
  intro hcache
  simp only [trimStart, h hcache, trimStartLoop_eq]
  exact computeChainDataLength_trimLoop (fun _ _ => rfl) st amount q.head

lemma computeChainDataLength_reverse (bs : List IOBuf) :
    computeChainDataLength bs.reverse = computeChainDataLength bs := by
  rw [computeChainDataLength, map_reverse, sum_reverse]
  rfl

lemma cached_trimEnd (st : Store) (h : q.Cached) (amount : Nat)
    (throwOnUnderflow : Bool) : (trimEnd st q amount throwOnUnderflow).2.1.Cached := by
  intro hcache
  simp only [trimEnd, h hcache, trimEndLoop_eq]
  rw [computeChainDataLength_reverse, ← computeChainDataLength_reverse q.head]
  exact computeChainDataLength_trimLoop (fun _ _ => rfl) st amount q.head.reverse

lemma cached_popFront (h : q.Cached) : q.popFront.1.Cached := by
  intro hcache
  rw [popFront] at hcache ⊢
  split at hcache
  · exact h hcache
  rename_i b bs hq
  have hlen := h hcache
  rw [hq] at hlen
  simp only [hlen]
  exact computeChainDataLength_tail b bs

lemma popFront_head (q : IOBufQueue) : q.head = q.popFront.2 ++ q.popFront.1.head := by
  rw [popFront]
  split
  · rename_i hq
    rfl
  · assumption

lemma computeChainDataLength_clear (bs : List IOBuf) :
    computeChainDataLength (bs.map IOBuf.clear) = 0 := by
  induction bs with
  | nil => rfl
  | cons b bs ih =>
    rw [List.map_cons, computeChainDataLength_cons, ih]
    rfl

lemma cached_clear (h : q.Cached) : q.clear.Cached := by
  rw [clear]
  split
  · exact h
  · exact fun _ => (computeChainDataLength_clear q.head).symm

lemma content_clear (st : Store) (q : IOBufQueue) : content st q.clear.head = [] := by
  rw [clear]
  split
  · rename_i hq
    rw [isEmpty_iff.mp hq]
    rfl
  rw [content, flatMap_map, flatMap_eq_nil_iff]
  intro b _
  rw [read]
  split
  · rfl
  · exact take_zero

lemma moves_clear (st : Store) (q : IOBufQueue) : Moves st ↑q.head st ↑q.clear.head := by
  rw [clear]
  split
  · exact Moves.refl st _
  show Moves st ↑q.head st ↑(q.head.map IOBuf.clear)
  induction q.head with
  | nil => exact Moves.refl st _
  | cons b bs ih =>
    have hone : Moves st {b} st {b.clear} :=
      moves_window st rfl rfl rfl rfl fun _ => Nat.zero_le _
    exact (hone.head bs).trans (ih.tail b.clear)

def Unchanged (st : Store) (q : IOBufQueue) (st' : Store) (q' : IOBufQueue) : Prop :=
  content st' q'.head = content st q.head ∧
    (q.cacheChainLength = true → q'.chainLength = q.chainLength)

lemma unchanged_iff_of_drained (hvalid : ∀ b ∈ q.head, Valid st b) (hq : q.Cached)
    (hvalid' : ∀ b ∈ q'.head, Valid st' b) (hq' : q'.Cached)
    (hcache : q'.cacheChainLength = q.cacheChainLength) (hdrained : content st' q'.head = []) :
    Unchanged st q st' q' ↔ content st q.head = [] := by
  constructor
  · intro h
    rw [← h.1, hdrained]
  intro h
  refine ⟨hdrained.trans h.symm, ?_⟩
  intro hc
  rw [hq hc, hq' (hcache.trans hc), computeChainDataLength, computeChainDataLength,
    ← length_content hvalid, ← length_content hvalid', h, hdrained]

theorem underflow_unchanged_iff (hvalid : ∀ b ∈ q.head, Valid st b) (hq : q.Cached) {n : Nat}
    (hn : (content st q.head).length < n) :
    (∃ st' q' e, split st q n true = some (st', q', [], some e) ∧
        (Unchanged st q st' q' ↔ content st q.head = [])) ∧
      (∃ st' q' e, trimStart st q n true = (st', q', some e) ∧
        (Unchanged st q st' q' ↔ content st q.head = [])) ∧
      ∃ st' q' e, trimEnd st q n true = (st', q', some e) ∧
        (Unchanged st q st' q' ↔ content st q.head = []) := by
  have htrimmed : ∀ left, left = n - (content st q.head).length →
      ∃ e, trimmed left true = some e := by
    intro left hleft
    rw [trimmed, if_pos ⟨by omega, rfl⟩]
    exact ⟨_, rfl⟩
  refine ⟨?_, ?_, ?_⟩
  · have hnone : ∀ b ∈ ([] : List IOBuf), Valid st b := fun _ hb => nomatch hb
    have hleft := (splitLoop_spec (c := q.chainLength) (n := n) hnone hvalid).2.2
    have hthrows : ∃ st' q' e, split st q n true = some (st', q', [], some e) := by
      simp only [split]
      rw [if_pos ⟨by rw [hleft]; omega, trivial⟩]
      exact ⟨_, _, _, rfl⟩
    obtain ⟨st', q', e, h⟩ := hthrows
    refine ⟨st', q', e, h, ?_⟩
    have hq' := cached_split hq h
    obtain ⟨rfl, _⟩ := split_cases h
    have hhead := congrArg Prod.snd (splitLoop_left
      (show (splitLoop st q.chainLength n [] q.head).2.2.1 ≠ 0 by rw [hleft]; omega)).2
    refine unchanged_iff_of_drained hvalid hq ?_ hq' rfl ?_
    · simp only [hhead]
      exact fun _ hb => nomatch hb
    · simp only [hhead]
      rfl
  · obtain ⟨e, he⟩ := htrimmed _ (trimStartLoop_spec (c := q.chainLength) hvalid).2
    refine ⟨_, _, e, Prod.ext rfl (Prod.ext rfl he), ?_⟩
    refine unchanged_iff_of_drained hvalid hq
      ((moves_trimStart st q n true).bounded hvalid) (cached_trimStart st hq n true) rfl ?_
    exact (trimStart_spec hvalid n true).trans (drop_of_length_le hn.le)
  · have hreverse : ∀ b ∈ q.head.reverse, Valid st b := fun b hb =>
      hvalid b (mem_reverse.mp hb)
    have hleft : (trimEndLoop st q.chainLength n q.head.reverse).2.2.1 = _ :=
      (trimEndLoop_spec hreverse).2
    rw [reverse_reverse] at hleft
    obtain ⟨e, he⟩ := htrimmed _ hleft
    refine ⟨_, _, e, Prod.ext rfl (Prod.ext rfl he), ?_⟩
    refine unchanged_iff_of_drained hvalid hq
      ((moves_trimEnd st q n true).bounded hvalid) (cached_trimEnd st hq n true) rfl ?_
    rw [trimEnd_spec hvalid, Nat.sub_eq_zero_of_le hn.le, take_zero]

def oneByte : Store × IOBufQueue :=
  let (st, b) := Io.wrapBuffer [] [97]
  (st, { cacheChainLength := true, chainLength := 1, head := [b] })

theorem underflow_consumes :
    (split oneByte.1 oneByte.2 2 true).map (fun r => (r.2.1, r.2.2.2.isSome)) =
        some ({ cacheChainLength := true }, true) ∧
      (trimStart oneByte.1 oneByte.2 2 true).2.1 = { cacheChainLength := true } ∧
      (trimEnd oneByte.1 oneByte.2 2 true).2.1 = { cacheChainLength := true } := by
  decide

theorem underflow_unchanged_iff_oneByte : (trimStart oneByte.1 oneByte.2 2 true).2.2.isSome ∧
    ¬ Unchanged oneByte.1 oneByte.2 (trimStart oneByte.1 oneByte.2 2 true).1
      (trimStart oneByte.1 oneByte.2 2 true).2.1 := by
  have hvalid : ∀ b ∈ oneByte.2.head, Valid oneByte.1 b := by
    intro b hb
    rw [List.mem_singleton.mp hb]
    refine ⟨by decide, by decide, ?_⟩
    intro k hk
    cases hk
    exact ⟨_, rfl, rfl, Nat.le_refl 1⟩
  obtain ⟨-, ⟨st', q', e, h, hiff⟩, -⟩ :=
    underflow_unchanged_iff hvalid (fun _ => by decide) (show _ < 2 by decide)
  rw [h]
  exact ⟨rfl, fun hsame => absurd (hiff.mp hsame) (by decide)⟩

end IOBufQueue

end Acc.Io
