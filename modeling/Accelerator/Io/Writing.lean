import Accelerator.Io.Content
import Accelerator.Io.IOBufQueue

namespace Acc.Io

open List Multiset IOBuf

open Refs

variable {offset data length n k m : Nat}

lemma length_overwrite {bytes : List UInt8} {src : List UInt8}
    (h : offset + src.length ≤ bytes.length) :
    (overwrite bytes offset src).length = bytes.length := by
  simp only [overwrite, length_append, length_take, length_drop]
  omega

lemma overwrite_after (bytes : List UInt8) (src : List UInt8)
    (hn : n ≤ src.length) (h : data + length ≤ bytes.length) :
    ((overwrite bytes (data + length) src).drop data).take (length + n) =
      (bytes.drop data).take length ++ src.take n := by
  have htake : (bytes.take (data + length)).length = data + length := by
    rw [length_take]
    omega
  have hpre : (bytes.take (data + length)).drop data = (bytes.drop data).take length := by
    simp [drop_take]
  have hlen : ((bytes.drop data).take length).length = length := by
    rw [length_take, length_drop]
    omega
  rw [overwrite, append_assoc, drop_append_of_le_length (by omega), hpre,
    take_append, hlen, take_of_length_le (by omega), Nat.add_sub_cancel_left,
    take_append_of_le_length hn]

lemma overwrite_before (bytes : List UInt8) (src : List UInt8)
    (hsrc : src.length ≤ data) (h : data + length ≤ bytes.length) :
    ((overwrite bytes (data - src.length) src).drop (data - src.length)).take
        (length + src.length) = src ++ (bytes.drop data).take length := by
  have htake : (bytes.take (data - src.length)).length = data - src.length := by
    rw [length_take]
    omega
  rw [overwrite, append_assoc, drop_left' htake, Nat.sub_add_cancel hsrc,
    Nat.add_comm length, take_length_add_append]

lemma getElem?_overwrite {bytes : List UInt8} {src : List UInt8}
    (h : offset + src.length ≤ bytes.length) {p : Nat}
    (hp : p < offset ∨ offset + src.length ≤ p) : (overwrite bytes offset src)[p]? = bytes[p]? := by
  have htake : (bytes.take offset).length = offset := by
    rw [length_take]
    omega
  rw [overwrite, append_assoc]
  rcases hp with hp | hp
  · rw [getElem?_append_left (by omega), getElem?_take_of_lt hp]
  rw [getElem?_append_right (by omega), htake, getElem?_append_right (by omega),
    getElem?_drop]
  congr 1
  omega

variable {st st' : Store} {b c : IOBuf}

lemma bytesAt_write_of_ne {src : List UInt8}
    (h : b.buf ≠ some k) : bytesAt (write st b offset src) k = bytesAt st k := by
  rw [write]
  split
  · rfl
  rename_i j hj
  have hjk : j ≠ k := fun heq => h (by rw [hj, heq])
  rw [bytesAt, bytesAt, getElem?_modify]
  simp [hjk]

lemma bytesAt_write_self {src : List UInt8} (h : b.buf = some k) (hk : k < st.length) :
    bytesAt (write st b offset src) k = overwrite (bytesAt st k) offset src := by
  rw [write, h]
  simp [bytesAt, getElem?_eq_getElem hk]

lemma Valid.bytes (h : Valid st b) (hk : b.buf = some k) :
    k < st.length ∧ b.data + b.length ≤ (bytesAt st k).length ∧
      b.capacity ≤ (bytesAt st k).length := by
  obtain ⟨blk, hblk, _, hcap⟩ := h.block k hk
  have hwindow := h.window
  have hbytes : bytesAt st k = blk.bytes := by simp [bytesAt, hblk]
  rw [hbytes]
  exact ⟨(List.getElem?_eq_some_iff.mp hblk).1, by omega, hcap⟩

def IOBuf.Shows (c b : IOBuf) (offset n : Nat) : Prop :=
  c.buf = b.buf ∧ 0 < n ∧ 0 < c.length ∧ offset < c.data + c.length ∧ c.data < offset + n

instance (c b : IOBuf) (offset n : Nat) : Decidable (c.Shows b offset n) :=
  inferInstanceAs (Decidable (_ ∧ _))

lemma read_write {src : List UInt8} (hb : Valid st b)
    (hroom : offset + src.length ≤ b.capacity) (h : ¬ c.Shows b offset src.length) :
    read (write st b offset src) c = read st c := by
  rw [read, read]
  cases hc : c.buf with
  | none => rfl
  | some k =>
    by_cases hk : b.buf = some k
    · obtain ⟨hlt, _, hcap⟩ := hb.bytes hk
      simp only [bytesAt_write_self hk hlt]
      refine ext_getElem? fun p => ?_
      rw [getElem?_take, getElem?_take, getElem?_drop, getElem?_drop]
      by_cases hp : p < c.length
      · rw [if_pos hp, if_pos hp]
        by_cases hempty : src.length = 0
        · simp [length_eq_zero_iff.mp hempty, overwrite]
        · refine getElem?_overwrite (by omega) ?_
          by_contra hin
          exact h ⟨hc.trans hk.symm, by omega, by omega, by omega, by omega⟩
      · rw [if_neg hp, if_neg hp]
    · simp only [bytesAt_write_of_ne hk]

lemma read_write_append (h : Valid st b) {src : List UInt8}
    (hroom : src.length ≤ b.tailroom) (hn : n ≤ src.length) :
    read (write st b (b.data + b.length) src) (b.append n) = read st b ++ src.take n := by
  cases hbuf : b.buf with
  | none =>
    have hnull := (h.null hbuf).1
    rw [tailroom, hnull] at hroom
    have hsrc : src = [] := length_eq_zero_iff.mp (by omega)
    simp [read, IOBuf.append, hbuf, hsrc]
  | some k =>
    obtain ⟨hk, hwindow, _⟩ := h.bytes hbuf
    have hread : read (write st b (b.data + b.length) src) (b.append n) =
        ((bytesAt (write st b (b.data + b.length) src) k).drop b.data).take (b.length + n) := by
      simp only [read, IOBuf.append, hbuf]
    have hold : read st b = ((bytesAt st k).drop b.data).take b.length := by
      simp only [read, hbuf]
    rw [hread, hold, bytesAt_write_self hbuf hk, overwrite_after _ src hn hwindow]

lemma read_write_prepend (h : Valid st b) {src : List UInt8} (hroom : src.length ≤ b.headroom) :
    read (write st b (b.headroom - src.length) src) (b.prepend src.length) = src ++ read st b := by
  cases hbuf : b.buf with
  | none =>
    have hnull := (h.null hbuf).1
    have hwindow := h.window
    rw [headroom] at hroom
    have hsrc : src = [] := length_eq_zero_iff.mp (by omega)
    simp [read, prepend, hbuf, hsrc]
  | some k =>
    obtain ⟨hk, hwindow, _⟩ := h.bytes hbuf
    have hread : read (write st b (b.headroom - src.length) src) (b.prepend src.length) =
        ((bytesAt (write st b (b.headroom - src.length) src) k).drop
          (b.data - src.length)).take (b.length + src.length) := by
      simp only [read, prepend, hbuf]
    have hold : read st b = ((bytesAt st k).drop b.data).take b.length := by
      simp only [read, hbuf]
    rw [hread, hold, bytesAt_write_self hbuf hk]
    exact overwrite_before _ src hroom hwindow

lemma Valid.write (hb : Valid st b) (hc : Valid st c)
    {src : List UInt8} (hroom : offset + src.length ≤ b.capacity) :
    Valid (write st b offset src) c := by
  refine ⟨hc.window, hc.null, fun k hk => ?_⟩
  obtain ⟨blk, hblk, hmanaged, hcap⟩ := hc.block k hk
  rw [Io.write]
  split
  · exact ⟨blk, hblk, hmanaged, hcap⟩
  rename_i j hj
  rw [getElem?_modify, hblk]
  by_cases hjk : j = k
  · subst hjk
    have hlen := (hb.bytes hj).2.2
    rw [show bytesAt st j = blk.bytes by simp [bytesAt, hblk]] at hlen
    refine ⟨{ blk with bytes := overwrite blk.bytes offset src }, by simp, hmanaged, ?_⟩
    rw [length_overwrite (by omega)]
    exact hcap
  · exact ⟨blk, by simp [hjk], hmanaged, hcap⟩

lemma Counted.write {M : Multiset IOBuf} (h : Counted st M) (b : IOBuf)
    (offset : Nat) (src : List UInt8) : Counted (write st b offset src) M := by
  rw [Io.write]
  split
  · exact h
  · rename_i k _
    exact h.change h.few h.flags (fun _ _ => rfl) (fun _ => rfl)
      (fun blk hblk hmanaged => h.count k blk hblk hmanaged) (h.known k)

structure Writes (st : Store) (L : Multiset IOBuf) (st' : Store) (L' : Multiset IOBuf) :
    Prop where
  bounded : ∀ M, Bounded st (L + M) → Bounded st' (L' + M)
  counted : ∀ M, Bounded st (L + M) → Counted st (L + M) → Counted st' (L' + M)

structure Alters (st : Store) (L : Multiset IOBuf) (st' : Store) (L' : Multiset IOBuf) :
    Prop where
  bounded : ∀ M, Bounded st (L + M) → Bounded st' (L' + M)
  counted : ∀ M, Bounded st (L + M) → Counted st (L + M) → Few (L' + M) → Counted st' (L' + M)

variable {L L' : Multiset IOBuf}

lemma Moves.writes (h : Moves st L st' L') : Writes st L st' L' :=
  ⟨fun M => (h.frame M).bounded, fun M hb => h.counted M (bounded_add.mp hb).1⟩

lemma Clones.alters (h : Clones st L st' L') : Alters st L st' L' :=
  ⟨fun M => (h.frame M).bounded, fun M hb => h.counted M (bounded_add.mp hb).1⟩

lemma Writes.alters (h : Writes st L st' L') : Alters st L st' L' :=
  ⟨h.bounded, fun M hb hc _ => h.counted M hb hc⟩

lemma Moves.alters (h : Moves st L st' L') : Alters st L st' L' :=
  h.writes.alters

lemma Writes.trans {st₁ st₂ : Store} {L₁ L₂ : Multiset IOBuf} (h : Writes st L st₁ L₁)
    (h' : Writes st₁ L₁ st₂ L₂) : Writes st L st₂ L₂ :=
  ⟨fun M hb => h'.bounded M (h.bounded M hb),
    fun M hb hc => h'.counted M (h.bounded M hb) (h.counted M hb hc)⟩

lemma Writes.frame (h : Writes st L st' L')
    (X : Multiset IOBuf) : Writes st (L + X) st' (L' + X) := by
  refine ⟨fun M => ?_, fun M => ?_⟩
  · rw [add_assoc, add_assoc]
    exact h.bounded (X + M)
  · rw [add_assoc, add_assoc]
    exact h.counted (X + M)

lemma writes_write {b' : IOBuf} {src : List UInt8}
    (hbuf : b'.buf = b.buf) (hmanaged : b'.managed = b.managed)
    (hcap : b'.capacity = b.capacity) (hflag : b'.maybeShared = b.maybeShared)
    (hwindow : b.data + b.length ≤ b.capacity → b'.data + b'.length ≤ b'.capacity)
    (hroom : Valid st b → offset + src.length ≤ b.capacity) :
    Writes st {b} (write st b offset src) {b'} := by
  have hmove : ∀ st, Writes st {b} st {b'} := fun st =>
    (moves_window st hbuf hmanaged hcap hflag hwindow).writes
  have hbounded : ∀ M, Bounded st ({b} + M) → Bounded (write st b offset src) ({b} + M) := by
    intro M h c hc
    have hv := h b (Multiset.mem_add.mpr (Or.inl (Multiset.mem_singleton_self b)))
    exact hv.write (h c hc) (hroom hv)
  exact ⟨fun M h => (hmove _).bounded M (hbounded M h),
    fun M h hc => (hmove _).counted M (hbounded M h) (hc.write b offset src)⟩

def packSize (room copyRemaining : Nat) : List Nat → Nat
  | [] => 0
  | n :: ns =>
    if n < copyRemaining ∧ n < room then n + packSize (room - n) (copyRemaining - n) ns else 0

lemma tailroom_append (b : IOBuf) (n : Nat) : (b.append n).tailroom = b.tailroom - n := by
  simp only [tailroom, IOBuf.append]
  omega

lemma length_read_le (st : Store) (b : IOBuf) : (read st b).length ≤ b.length := by
  rw [read]
  split
  · exact Nat.zero_le _
  · exact length_take_le ..

lemma writes_packLoop (st : Store) (tail : IOBuf) (copyRemaining : Nat) (src : List IOBuf) :
    Writes st ↑(tail :: src) (packLoop st tail copyRemaining src).1
      ↑((packLoop st tail copyRemaining src).2.1 :: (packLoop st tail copyRemaining src).2.2) := by
  induction src generalizing st tail copyRemaining with
  | nil => exact (Moves.refl st _).writes
  | cons b src ih =>
    rw [packLoop]
    split
    · rename_i hfits
      have hlen := length_read_le st b
      have hwrite : Writes st {tail} (write st tail (tail.data + tail.length) (read st b))
          {tail.append b.length} := by
        refine writes_write rfl rfl rfl rfl ?_ ?_
        · intro _
          have hroom := hfits.2
          simp only [tailroom] at hroom
          simp only [IOBuf.append]
          omega
        intro _
        have hroom := hfits.2
        simp only [tailroom] at hroom
        omega
      have hdrop := ((moves_decrementRefcount
        (write st tail (tail.data + tail.length) (read st b)) b).frame
          ↑(tail.append b.length :: src)).writes
      have hperm : ({tail.append b.length} + ↑(b :: src) : Multiset IOBuf) =
          {b} + ↑(tail.append b.length :: src) := by
        rw [singleton_add, singleton_add, ← cons_coe,
          ← cons_coe]
        exact cons_swap _ _ _
      have hfirst := hwrite.frame ↑(b :: src)
      rw [hperm] at hfirst
      exact (hfirst.trans hdrop).trans (ih _ _ _)
    · exact (Moves.refl st _).writes

lemma IOBuf.Shows.of_append
    (h : c.Shows (b.append m) ((b.append m).data + (b.append m).length) n) :
    c.Shows b (b.data + b.length) (m + n) := by
  obtain ⟨hbuf, hn, hc, hlo, hhi⟩ := h
  simp only [IOBuf.append] at hlo hhi
  exact ⟨hbuf, by omega, hc, by omega, by omega⟩

lemma IOBuf.Shows.mono (h : c.Shows b offset m) (hmn : m ≤ n) : c.Shows b offset n := by
  obtain ⟨hbuf, hm, hc, hlo, hhi⟩ := h
  exact ⟨hbuf, by omega, hc, hlo, by omega⟩

lemma packLoop_spec {tail : IOBuf} (copyRemaining : Nat) {src : List IOBuf}
    (htail : Valid st tail) (hsrc : ∀ b ∈ src, Valid st b)
    (hfree : ∀ b ∈ src, ¬ b.Shows tail (tail.data + tail.length)
      (packSize tail.tailroom copyRemaining (src.map IOBuf.length))) :
    (content (packLoop st tail copyRemaining src).1 ((packLoop st tail copyRemaining src).2.1 ::
        (packLoop st tail copyRemaining src).2.2) = content st (tail :: src)) ∧
      ∀ c, ¬ c.Shows tail (tail.data + tail.length)
          (packSize tail.tailroom copyRemaining (src.map IOBuf.length)) → Valid st c →
        read (packLoop st tail copyRemaining src).1 c = read st c := by
  induction src generalizing st tail copyRemaining with
  | nil => exact ⟨rfl, fun _ _ _ => rfl⟩
  | cons b src ih =>
    rw [packLoop]
    split
    · rename_i hfits
      rw [List.map_cons, packSize, if_pos hfits] at hfree ⊢
      have hb := hsrc b List.mem_cons_self
      have hroom : tail.data + tail.length + (read st b).length ≤ tail.capacity := by
        have hlt := hfits.2
        rw [length_read hb]
        simp only [tailroom] at hlt
        omega
      have hread : ∀ c, ¬ c.Shows tail (tail.data + tail.length) (b.length + packSize
            (tail.tailroom - b.length) (copyRemaining - b.length) (src.map IOBuf.length)) →
          Valid st c → read (decrementRefcount
            (write st tail (tail.data + tail.length) (read st b)) b) c = read st c := by
        intro c hc hv
        rw [read_of_keeps (htail.write hv hroom) (keeps_decrementRefcount _ b)]
        refine read_write htail hroom fun hshows => hc ?_
        rw [length_read hb] at hshows
        exact hshows.mono (Nat.le_add_right _ _)
      have hvalid : ∀ c, Valid st c → Valid (decrementRefcount
          (write st tail (tail.data + tail.length) (read st b)) b) c := fun c hv =>
        (htail.write hv hroom).mono (keeps_decrementRefcount _ b)
      have hwritten : Valid (write st tail (tail.data + tail.length) (read st b))
          (tail.append b.length) := by
        have hv := htail.write htail hroom
        refine ⟨?_, hv.null, hv.block⟩
        rw [length_read hb] at hroom
        simp only [IOBuf.append]
        omega
      have hreadTail : read (decrementRefcount
          (write st tail (tail.data + tail.length) (read st b)) b) (tail.append b.length) =
            read st tail ++ read st b := by
        have hlen := length_read hb
        simp [read_of_keeps hwritten (keeps_decrementRefcount _ b), read_write_append htail (by rw [hlen]; exact hfits.2.le) hlen.ge, take_of_length_le hlen.le]
      obtain ⟨hcontent, hframe⟩ := @ih _ _ (copyRemaining - b.length)
        (hwritten.mono (keeps_decrementRefcount _ b))
        (fun c hc => hvalid c (hsrc c (mem_cons_of_mem b hc))) (by
          intro c hc hshows
          rw [tailroom_append] at hshows
          exact hfree c (mem_cons_of_mem b hc) hshows.of_append)
      refine ⟨?_, ?_⟩
      · rw [hcontent, content, flatMap_cons, hreadTail, content, flatMap_cons,
          flatMap_cons, append_assoc]
        congr 2
        exact flatMap_congr fun c hc =>
          hread c (hfree c (mem_cons_of_mem b hc)) (hsrc c (mem_cons_of_mem b hc))
      intro c hc hv
      rw [hframe c (fun hshows => hc (by
        rw [tailroom_append] at hshows
        exact hshows.of_append)) (hvalid c hv), hread c hc hv]
    · exact ⟨rfl, fun _ _ _ => rfl⟩

lemma appendToChain_false (st : Store) (dst src : List IOBuf) :
    appendToChain st dst src false = (st, dst ++ src) := by
  rw [appendToChain]
  cases hlast : dst.getLast? with
  | none => rw [getLast?_eq_none_iff.mp hlast, nil_append]
  | some tail => rfl

lemma appendToChain_true (st : Store) (init : List IOBuf) (tail : IOBuf) (src : List IOBuf) :
    appendToChain st (init ++ [tail]) src true = ((packLoop st tail MAX_PACK_COPY src).1,
        init ++ (packLoop st tail MAX_PACK_COPY src).2.1 ::
          (packLoop st tail MAX_PACK_COPY src).2.2) := by
  rw [appendToChain, getLast?_concat]
  simp

lemma writes_appendToChain (st : Store) (dst src : List IOBuf) (pack : Bool) :
    Writes st ↑(dst ++ src) (appendToChain st dst src pack).1
      ↑(appendToChain st dst src pack).2 := by
  cases pack with
  | false =>
    rw [appendToChain_false]
    exact (Moves.refl st _).writes
  | true =>
    rcases eq_nil_or_concat dst with rfl | ⟨init, tail, rfl⟩
    · exact (Moves.refl st _).writes
    have hloop := (writes_packLoop st tail MAX_PACK_COPY src).frame ↑init
    rw [concat_eq_append, appendToChain_true, append_assoc, singleton_append,
      ← coe_add, ← coe_add, add_comm, add_comm (init : Multiset IOBuf)]
    exact hloop

def PackFree (dst src : List IOBuf) (c : IOBuf) : Prop :=
  ∀ tail ∈ dst.getLast?, ¬ c.Shows tail (tail.data + tail.length)
    (packSize tail.tailroom MAX_PACK_COPY (src.map IOBuf.length))

lemma appendToChain_spec {dst src : List IOBuf} {pack : Bool}
    (hvalid : ∀ b ∈ dst ++ src, Valid st b)
    (hfree : pack = true → ∀ b ∈ dst ++ src, PackFree dst src b) :
    content (appendToChain st dst src pack).1 (appendToChain st dst src pack).2 =
        content st dst ++ content st src ∧ ∀ c, (pack = true → PackFree dst src c) → Valid st c →
        read (appendToChain st dst src pack).1 c = read st c := by
  cases pack with
  | false =>
    rw [appendToChain_false]
    exact ⟨flatMap_append, fun _ _ _ => rfl⟩
  | true =>
    rcases eq_nil_or_concat dst with rfl | ⟨init, tail, rfl⟩
    · exact ⟨rfl, fun _ _ _ => rfl⟩
    rw [concat_eq_append] at hvalid hfree ⊢
    have hlast : (init ++ [tail]).getLast? = some tail := getLast?_concat
    have hfree' : ∀ c, PackFree (init ++ [tail]) src c → ¬ c.Shows tail
        (tail.data + tail.length)
        (packSize tail.tailroom MAX_PACK_COPY (src.map IOBuf.length)) :=
      fun c hc => hc tail hlast
    have hinit : ∀ c ∈ init, c ∈ init ++ [tail] ++ src := fun c hc =>
      mem_append_left src (mem_append_left [tail] hc)
    obtain ⟨hcontent, hframe⟩ := packLoop_spec MAX_PACK_COPY
      (hvalid tail (by simp)) (fun b hb => hvalid b (mem_append_right _ hb))
      (fun b hb => hfree' b (hfree rfl b (mem_append_right _ hb)))
    rw [appendToChain_true]
    refine ⟨?_, fun c hc hv => hframe c (hfree' c (hc rfl)) hv⟩
    rw [content, flatMap_append, ← content, ← content, hcontent, content, content,
      content, flatMap_append, flatMap_cons, flatMap_singleton,
      append_assoc]
    congr 1
    exact flatMap_congr fun c hc =>
      hframe c (hfree' c (hfree rfl c (hinit c hc))) (hvalid c (hinit c hc))

end Acc.Io
