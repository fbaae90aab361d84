import Accelerator.Io.Counting

namespace Acc.Io

open List

lemma content_append (st : Store) (bs cs : List IOBuf) :
    content st (bs ++ cs) = content st bs ++ content st cs :=
  flatMap_append

lemma read_newIOBuf (st : Store) (managed : Bool) (capacity data : Nat) (bytes pad : List UInt8) :
    read (newBlock st (List.replicate data 0 ++ bytes ++ pad) managed)
      (newIOBuf st managed capacity data bytes.length) = bytes := by
  have hbytes : bytesAt (newBlock st (List.replicate data 0 ++ bytes ++ pad) managed) st.length =
      List.replicate data 0 ++ bytes ++ pad := by
    simp [bytesAt, newBlock]
  simp only [read, newIOBuf, hbytes]
  rw [append_assoc, drop_left' (length_replicate ..), take_left' rfl]

variable {st st' : Store} {b b' : IOBuf}

lemma content_create {capacity : Nat}
    (h : create st capacity = some (st', b)) : content st' [b] = [] := by
  obtain ⟨actual, _, heq⟩ := Option.map_eq_some_iff.mp h
  cases heq
  simp [content, read, newIOBuf]

lemma content_copyBuffer {data : List UInt8} {headroom minTailroom : Nat} (h : copyBuffer st data headroom minTailroom = some (st', b)) :
    content st' [b] = data := by
  simp only [copyBuffer] at h
  split at h
  · cases h
  split at h
  · cases h
    rw [content, flatMap_singleton]
    exact read_newIOBuf ..
  · cases h

lemma content_takeOwnership {bytes : List UInt8} {length : Nat}
    (h : takeOwnership st bytes length = some (st', b)) : content st' [b] = bytes.take length := by
  rw [takeOwnership] at h
  split at h
  · cases h
    simp [content, read, newIOBuf, newBlock, bytesAt]
  · cases h

lemma content_wrapBuffer (st : Store) (bytes : List UInt8) :
    content (wrapBuffer st bytes).1 [(wrapBuffer st bytes).2] = bytes := by
  simp [wrapBuffer, content, read, newIOBuf, newBlock, bytesAt]

lemma read_isSharedOne (st : Store) (b : IOBuf) (st' : Store) :
    read st' (isSharedOne st b).2 = read st' b := by
  rcases isSharedOne_snd st b with heq | ⟨heq, _⟩
  · rw [heq]
  · rw [heq]
    rfl

lemma content_isShared (st : Store) (chain : List IOBuf) (st' : Store) :
    content st' (isShared st chain).2 = content st' chain := by
  induction chain with
  | nil => rfl
  | cons b bs ih =>
    have hone := read_isSharedOne st b st'
    rw [isShared]
    split
    · rename_i c hc
      rw [hc] at hone
      simp only [content, flatMap_cons, hone]
    rename_i c hc
    rw [hc] at hone
    simp only [content, flatMap_cons, hone] at ih ⊢
    rw [ih]

lemma read_cloneOne (st : Store) (b : IOBuf) (st' : Store) :
    read st' (cloneOne st b).2.1 = read st' b ∧ read st' (cloneOne st b).2.2 = read st' b := by
  cases hmanaged : b.managed with
  | false =>
    rw [cloneOne_unmanaged st hmanaged]
    exact ⟨rfl, rfl⟩
  | true =>
    rw [cloneOne_managed st hmanaged]
    exact ⟨rfl, rfl⟩

lemma content_cloneChain (st : Store) (chain : List IOBuf) (st' : Store) :
    content st' (cloneChain st chain).2.1 = content st' chain ∧
      content st' (cloneChain st chain).2.2 = content st' chain := by
  induction chain generalizing st with
  | nil => exact ⟨rfl, rfl⟩
  | cons b bs ih =>
    obtain ⟨hkept, hcloned⟩ := ih (cloneOne st b).1
    obtain ⟨hb, hc⟩ := read_cloneOne st b st'
    simp only [content] at hkept hcloned
    simp only [cloneChain, content, flatMap_cons, hkept, hcloned, hb, hc, and_self]

lemma read_replaced (capacity : Nat) {data : Nat} {bytes pad : List UInt8}
    (hkeeps : Keeps (newBlock st (List.replicate data 0 ++ bytes ++ pad) true) st')
    (hwindow : data + bytes.length ≤ capacity)
    (hcap : capacity ≤ data + bytes.length + pad.length) :
    read st' (newIOBuf st true capacity data bytes.length) = bytes := by
  have hmoves := moves_new st (List.replicate data 0 ++ bytes ++ pad) true hwindow (by
    simp only [length_append, length_replicate]
    exact hcap)
  have hvalid := hmoves.bounded (fun _ hb => absurd hb (Multiset.notMem_zero _)) _
    (Multiset.mem_singleton_self _)
  rw [read_of_keeps hvalid hkeeps, read_newIOBuf]

lemma read_unshareOneSlow (hb : Valid st b)
    (h : unshareOneSlow st b = some (st', b')) : read st' b' = read st b := by
  have hlen := length_read hb
  have hwindow := hb.window
  rw [unshareOneSlow] at h
  split at h
  · cases h
  split at h
  · rename_i actual _ hcap
    cases h
    have hread := read_replaced b.capacity
      (keeps_decrementRefcount (newBlock st (List.replicate b.headroom 0 ++ read st b ++
        List.replicate (actual - (b.headroom + b.length)) 0) true) b)
      (by rw [hlen]; exact hwindow)
      (by
        rw [hlen, length_replicate]
        omega)
    rw [hlen] at hread
    exact hread
  · cases h

lemma read_unshareOne (hb : Valid st b)
    (h : unshareOne st b = some (st', b')) : read st' b' = read st b := by
  have hread := read_isSharedOne st b st
  have hvalid := (moves_isSharedOne st b).bounded
    (fun c hc => by rw [Multiset.mem_singleton.mp hc]; exact hb) _ (Multiset.mem_singleton_self _)
  rw [unshareOne] at h
  split at h
  · rename_i c hc
    rw [hc] at hread hvalid
    rw [read_unshareOneSlow hvalid h, hread]
  rename_i c hc
  rw [hc] at hread
  cases h
  exact hread

variable {chain chain' : List IOBuf}

lemma content_coalesceAndReallocate {newHeadroom newTailroom : Nat} {mid rest : List IOBuf} (hvalid : ∀ c ∈ b :: (mid ++ rest), Valid st c)
    (h : coalesceAndReallocate st newHeadroom newTailroom b mid rest = some (st', chain)) :
    content st' chain = content st (b :: (mid ++ rest)) := by
  have hkeeps := (moves_coalesceAndReallocate h).keeps
  have htaken : ∀ c ∈ b :: mid, Valid st c := fun c hc =>
    hvalid c (by rw [← cons_append]; exact mem_append_left rest hc)
  have hrest : ∀ c ∈ rest, Valid st c := fun c hc =>
    hvalid c (mem_cons_of_mem b (mem_append_right mid hc))
  have hlen := length_content htaken
  rw [map_cons, sum_cons] at hlen
  simp only [coalesceAndReallocate] at h
  split at h
  · cases h
  split at h
  · rename_i actual _ hfits
    cases h
    have hread := read_replaced actual
      ((keeps_decrementRefcount (newBlock st (List.replicate newHeadroom 0 ++
        content st (b :: mid) ++ List.replicate
          (actual - (newHeadroom + (b.length + (mid.map IOBuf.length).sum))) 0) true) b).trans
            (keeps_destroy _ mid))
      (by rw [hlen]; exact hfits)
      (by rw [hlen, length_replicate]; omega)
    rw [hlen] at hread
    rw [← cons_append, content, flatMap_cons, hread, ← content,
      content_of_keeps hrest hkeeps, content, content, content, flatMap_append]
  · cases h

lemma content_coalesce
    (hvalid : ∀ c ∈ chain, Valid st c) (h : coalesce st chain = some (st', chain')) :
    content st' chain' = content st chain := by
  rw [coalesce.eq_def] at h
  split at h
  · cases h
  · cases h
    rfl
  rename_i b bs _
  rw [← append_nil bs] at hvalid
  have hall := content_coalesceAndReallocate hvalid h
  rwa [append_nil] at hall

lemma content_gather {maxLength : Nat} {e : Option Exn} (hvalid : ∀ c ∈ chain, Valid st c)
    (h : gather st maxLength chain = some (st', chain', e)) :
    content st' chain' = content st chain := by
  rw [gather.eq_def] at h
  split at h
  · cases h
  split at h
  · cases h
    rfl
  split at h
  · cases h
    rfl
  rename_i hspan
  obtain ⟨⟨st₁, chain₁⟩, hcoalesce, heq⟩ := Option.map_eq_some_iff.mp h
  cases heq
  rw [gatherSpan_eq hspan] at hvalid ⊢
  exact content_coalesceAndReallocate hvalid hcoalesce

lemma content_unshare
    (hvalid : ∀ c ∈ chain, Valid st c) (h : unshare st chain = some (st', chain')) :
    content st' chain' = content st chain := by
  rw [unshare.eq_def] at h
  split at h
  · cases h
  · obtain ⟨⟨st₁, b₁⟩, hone, heq⟩ := Option.map_eq_some_iff.mp h
    cases heq
    simp only [content, flatMap_singleton]
    exact read_unshareOne (hvalid _ mem_cons_self) hone
  rename_i b bs _
  have hsame := content_isShared st (b :: bs) st
  have hvalid₁ := (moves_isShared st (b :: bs)).bounded fun c hc => hvalid c hc
  split at h
  · rename_i chain₁ hchain
    cases h
    rw [hchain] at hsame
    exact hsame
  · rename_i chain₁ hchain
    rw [hchain] at hsame hvalid₁
    rw [content_coalesce (fun c hc => hvalid₁ c hc) h, hsame]

end Acc.Io
