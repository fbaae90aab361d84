import Accelerator.Io.IOBuf

namespace Acc.Io

open Refs List

def Keeps (st st' : Store) : Prop :=
  ∀ (k : Nat) (blk : Block), st[k]? = some blk →
    ∃ blk', st'[k]? = some blk' ∧ blk'.bytes = blk.bytes ∧ blk'.managed = blk.managed

lemma Keeps.refl (st : Store) : Keeps st st := fun _ blk h => ⟨blk, h, rfl, rfl⟩

variable {st st₁ st₂ st' : Store}

lemma Keeps.trans (h : Keeps st st₁) (h' : Keeps st₁ st₂) : Keeps st st₂ := by
  intro k blk hk
  obtain ⟨blk₁, hk₁, hbytes₁, hmanaged₁⟩ := h k blk hk
  obtain ⟨blk₂, hk₂, hbytes₂, hmanaged₂⟩ := h' k blk₁ hk₁
  exact ⟨blk₂, hk₂, hbytes₂.trans hbytes₁, hmanaged₂.trans hmanaged₁⟩

lemma keeps_newBlock (st : Store) (bytes : List UInt8) (managed : Bool) :
    Keeps st (newBlock st bytes managed) := by
  intro k blk hk
  refine ⟨blk, ?_, rfl, rfl⟩
  rw [newBlock, getElem?_append_left (List.getElem?_eq_some_iff.mp hk).1, hk]

lemma keeps_modifyInfo (st : Store) (b : IOBuf) {f : Block → Block}
    (hf : ∀ blk, (f blk).bytes = blk.bytes ∧ (f blk).managed = blk.managed) :
    Keeps st (modifyInfo st b f) := by
  rw [modifyInfo]
  split
  · exact Keeps.refl st
  rename_i j _
  intro k blk hk
  rw [getElem?_modify, hk]
  by_cases hjk : j = k
  · exact ⟨f blk, by simp [hjk], (hf blk).1, (hf blk).2⟩
  · exact ⟨blk, by simp [hjk], rfl, rfl⟩

lemma keeps_decrementRefcount (st : Store) (b : IOBuf) : Keeps st (decrementRefcount st b) :=
  keeps_modifyInfo st b fun _ => ⟨rfl, rfl⟩

structure Valid (st : Store) (b : IOBuf) : Prop where
  window : b.data + b.length ≤ b.capacity
  null : b.buf = none → b.capacity = 0 ∧ b.managed = false
  block : ∀ k, b.buf = some k →
    ∃ blk, st[k]? = some blk ∧ blk.managed = b.managed ∧ b.capacity ≤ blk.bytes.length

def Bounded (st : Store) (M : Multiset IOBuf) : Prop := ∀ b ∈ M, Valid st b

variable {b b' : IOBuf}

lemma Valid.mono (h : Valid st b) (hkeeps : Keeps st st') : Valid st' b := by
  refine ⟨h.window, h.null, fun k hk => ?_⟩
  obtain ⟨blk, hblk, hmanaged, hcap⟩ := h.block k hk
  obtain ⟨blk', hblk', hbytes, hmanaged'⟩ := hkeeps k blk hblk
  exact ⟨blk', hblk', hmanaged'.trans hmanaged, by rwa [hbytes]⟩

variable {M L L' L₁ L₂ : Multiset IOBuf}

lemma Bounded.mono (h : Bounded st M) (hkeeps : Keeps st st') : Bounded st' M :=
  fun b hb => (h b hb).mono hkeeps

lemma read_of_keeps (h : Valid st b) (hkeeps : Keeps st st') : read st' b = read st b := by
  rw [read, read]
  cases hbuf : b.buf with
  | none => rfl
  | some k =>
    obtain ⟨blk, hblk, _, _⟩ := h.block k hbuf
    obtain ⟨blk', hblk', hbytes, _⟩ := hkeeps k blk hblk
    simp only [bytesAt, hblk, hblk', Option.map_some, Option.getD_some, hbytes]

variable {chain bs mid rest chain' : List IOBuf}

lemma content_of_keeps (h : ∀ b ∈ chain, Valid st b)
    (hkeeps : Keeps st st') : content st' chain = content st chain :=
  flatMap_congr fun b hb => read_of_keeps (h b hb) hkeeps

lemma length_read (h : Valid st b) : (read st b).length = b.length := by
  rw [read]
  have hwindow := h.window
  cases hbuf : b.buf with
  | none =>
    have hnull := h.null hbuf
    simp only [length_nil]
    omega
  | some k =>
    obtain ⟨blk, hblk, _, hcap⟩ := h.block k hbuf
    simp only [bytesAt, hblk, Option.map_some, Option.getD_some, length_take,
      length_drop]
    omega

def Few (M : Multiset IOBuf) : Prop := ∀ k, refs IOBuf.key k M < 2 ^ 32

structure Counted (st : Store) (M : Multiset IOBuf) : Prop where
  few : Few M
  count : ∀ (k : Nat) (blk : Block), st[k]? = some blk → blk.managed = true →
    blk.refcount.toNat = refs IOBuf.key k M ∧
      blk.released = if refs IOBuf.key k M = 0 then 1 else 0
  flags : FlagSound IOBuf.key IOBuf.maybeShared M
  known : ∀ k, st.length ≤ k → refs IOBuf.key k M = 0

structure Moves (st : Store) (L : Multiset IOBuf) (st' : Store) (L' : Multiset IOBuf) :
    Prop where
  keeps : Keeps st st'
  bounded : Bounded st L → Bounded st' L'
  counted : ∀ M, Bounded st L → Counted st (L + M) → Counted st' (L' + M)

structure Clones (st : Store) (L : Multiset IOBuf) (st' : Store) (L' : Multiset IOBuf) :
    Prop where
  keeps : Keeps st st'
  bounded : Bounded st L → Bounded st' L'
  counted : ∀ M, Bounded st L → Counted st (L + M) → Few (L' + M) → Counted st' (L' + M)

lemma Moves.clones (h : Moves st L st' L') : Clones st L st' L' :=
  ⟨h.keeps, h.bounded, fun M hb hc _ => h.counted M hb hc⟩

lemma Moves.refl (st : Store) (L : Multiset IOBuf) : Moves st L st L :=
  ⟨Keeps.refl st, id, fun _ _ h => h⟩

lemma Moves.trans (h : Moves st L st₁ L₁) (h' : Moves st₁ L₁ st₂ L₂) : Moves st L st₂ L₂ :=
  ⟨h.keeps.trans h'.keeps, fun hb => h'.bounded (h.bounded hb),
    fun M hb hc => h'.counted M (h.bounded hb) (h.counted M hb hc)⟩

lemma bounded_add : Bounded st (L + M) ↔ Bounded st L ∧ Bounded st M := by
  constructor
  · intro h
    exact ⟨fun b hb => h b (Multiset.mem_add.mpr (Or.inl hb)),
      fun b hb => h b (Multiset.mem_add.mpr (Or.inr hb))⟩
  rintro ⟨hL, hM⟩ b hb
  rcases Multiset.mem_add.mp hb with hb | hb
  · exact hL b hb
  · exact hM b hb

lemma Moves.frame (h : Moves st L st' L')
    (X : Multiset IOBuf) : Moves st (L + X) st' (L' + X) := by
  refine ⟨h.keeps, ?_, ?_⟩
  · intro hb
    obtain ⟨hL, hX⟩ := bounded_add.mp hb
    exact bounded_add.mpr ⟨h.bounded hL, hX.mono h.keeps⟩
  · intro M hb hc
    rw [add_assoc] at hc ⊢
    exact h.counted (X + M) (bounded_add.mp hb).1 hc

lemma Clones.frame (h : Clones st L st' L')
    (X : Multiset IOBuf) : Clones st (L + X) st' (L' + X) := by
  refine ⟨h.keeps, ?_, ?_⟩
  · intro hb
    obtain ⟨hL, hX⟩ := bounded_add.mp hb
    exact bounded_add.mpr ⟨h.bounded hL, hX.mono h.keeps⟩
  · intro M hb hc hfew
    rw [add_assoc] at hc hfew ⊢
    exact h.counted (X + M) (bounded_add.mp hb).1 hc hfew

variable {k data length capacity : Nat}

lemma key_eq_some : b.key = some k ↔ b.managed = true ∧ b.buf = some k := by
  rw [IOBuf.key]
  cases b.managed <;> simp

lemma Counted.fresh (h : Counted st M)
    (bytes : List UInt8) (managed : Bool) (capacity data length : Nat) :
    Counted (newBlock st bytes managed) (newIOBuf st managed capacity data length ::ₘ M) := by
  have hnone := h.known st.length (le_refl _)
  have hkey : ∀ k, (newIOBuf st managed capacity data length).key = some k ↔
      managed = true ∧ st.length = k := by
    intro k
    rw [key_eq_some]
    simp [newIOBuf]
  constructor
  · intro k
    rw [refs_cons]
    split
    · rename_i hk
      rw [← ((hkey k).mp hk).2, hnone]
      decide
    · exact h.few k
  · intro k blk hblk hmanaged
    rw [refs_cons]
    rw [newBlock] at hblk
    by_cases hk : k < st.length
    · rw [getElem?_append_left hk] at hblk
      rw [if_neg fun heq => hk.ne' ((hkey k).mp heq).2]
      exact h.count k blk hblk hmanaged
    have hlen := (List.getElem?_eq_some_iff.mp hblk).1
    rw [length_append, length_singleton] at hlen
    obtain rfl : k = st.length := by omega
    rw [getElem?_append_right (le_refl _), Nat.sub_self] at hblk
    cases hblk
    rw [if_pos ((hkey _).mpr ⟨hmanaged, rfl⟩), hnone]
    exact ⟨rfl, rfl⟩
  · cases managed with
    | true => exact h.flags.fresh ((hkey st.length).mpr ⟨rfl, rfl⟩) hnone
    | false => exact h.flags.uncounted rfl
  intro k hk
  rw [newBlock, length_append, length_singleton] at hk
  rw [refs_cons, if_neg fun heq => by have := ((hkey k).mp heq).2; omega]
  exact h.known k (by omega)

lemma moves_new (st : Store) (bytes : List UInt8) (managed : Bool) (hwindow : data + length ≤ capacity) (hbytes : capacity ≤ bytes.length) :
    Moves st 0 (newBlock st bytes managed) {newIOBuf st managed capacity data length} := by
  refine ⟨keeps_newBlock st bytes managed, ?_, ?_⟩
  · intro _ b hb
    rw [Multiset.mem_singleton.mp hb]
    refine ⟨hwindow, (fun hnull => by cases hnull), fun k hk => ?_⟩
    cases hk
    exact ⟨{ bytes := bytes, managed := managed }, by simp [newBlock], rfl, hbytes⟩
  · intro M _ hc
    rw [zero_add] at hc
    exact hc.fresh bytes managed capacity data length

lemma moves_create (h : create st capacity = some (st', b)) : Moves st 0 st' {b} := by
  obtain ⟨actual, _, heq⟩ := Option.map_eq_some_iff.mp h
  cases heq
  exact moves_new st _ true (Nat.zero_le _) (by rw [length_replicate])

lemma moves_copyBuffer {data : List UInt8} {headroom minTailroom : Nat} (h : copyBuffer st data headroom minTailroom = some (st', b)) :
    Moves st 0 st' {b} := by
  simp only [copyBuffer] at h
  split at h
  · cases h
  split at h
  · rename_i actual _ hfits
    cases h
    exact moves_new st _ true hfits (by simp; omega)
  · cases h

lemma moves_takeOwnership {bytes : List UInt8}
    (h : takeOwnership st bytes length = some (st', b)) : Moves st 0 st' {b} := by
  rw [takeOwnership] at h
  split at h
  · rename_i hlen
    cases h
    exact moves_new st bytes true (by omega) (le_refl _)
  · cases h

lemma moves_wrapBuffer (st : Store) (bytes : List UInt8) :
    Moves st 0 (wrapBuffer st bytes).1 {(wrapBuffer st bytes).2} :=
  moves_new st bytes false (by omega) (le_refl _)

lemma moves_null (st : Store) : Moves st 0 st {({} : IOBuf)} := by
  refine ⟨Keeps.refl st, ?_, ?_⟩
  · intro _ b hb
    rw [Multiset.mem_singleton.mp hb]
    exact ⟨le_refl 0, fun _ => ⟨rfl, rfl⟩, fun k hk => by cases hk⟩
  intro M _ hc
  rw [zero_add] at hc
  rw [Multiset.singleton_add]
  have hrefs : ∀ k, refs IOBuf.key k (({} : IOBuf) ::ₘ M) = refs IOBuf.key k M := by
    intro k
    rw [refs_cons]
    rfl
  refine ⟨fun k => by rw [hrefs]; exact hc.few k, fun k => by rw [hrefs]; exact hc.count k,
    hc.flags.uncounted rfl, fun k => by rw [hrefs]; exact hc.known k⟩

lemma Valid.info (h : Valid st b) (hk : b.key = some k) :
    ∃ blk, st[k]? = some blk ∧ blk.managed = true := by
  obtain ⟨hmanaged, hbuf⟩ := key_eq_some.mp hk
  obtain ⟨blk, hblk, heq, _⟩ := h.block k hbuf
  exact ⟨blk, hblk, heq.trans hmanaged⟩

lemma Counted.change {M' : Multiset IOBuf} (h : Counted st M)
    {f : Block → Block} (hfew : Few M') (hflags : FlagSound IOBuf.key IOBuf.maybeShared M')
    (hother : ∀ j, j ≠ k → refs IOBuf.key j M' = refs IOBuf.key j M)
    (hf : ∀ blk, (f blk).managed = blk.managed)
    (hcount : ∀ blk, st[k]? = some blk → blk.managed = true →
      (f blk).refcount.toNat = refs IOBuf.key k M' ∧
        (f blk).released = if refs IOBuf.key k M' = 0 then 1 else 0)
    (hk : st.length ≤ k → refs IOBuf.key k M' = 0) : Counted (st.modify k f) M' := by
  refine ⟨hfew, ?_, hflags, ?_⟩
  · intro j blk hblk hmanaged
    by_cases hjk : k = j
    · subst hjk
      obtain ⟨old, hold, rfl⟩ : ∃ old, st[k]? = some old ∧ f old = blk := by
        simpa using hblk
      exact hcount old hold ((hf old).symm.trans hmanaged)
    · rw [hother j (Ne.symm hjk)]
      exact h.count j blk (by simpa [hjk] using hblk) hmanaged
  intro j hj
  rw [length_modify] at hj
  by_cases hjk : j = k
  · rw [hjk] at hj ⊢
    exact hk hj
  · rw [hother j hjk]
    exact h.known j hj

lemma moves_decrementRefcount (st : Store) (b : IOBuf) :
    Moves st {b} (decrementRefcount st b) 0 := by
  refine ⟨keeps_decrementRefcount st b, fun _ _ hb => absurd hb (Multiset.notMem_zero _), ?_⟩
  intro M hb hc
  rw [Multiset.singleton_add] at hc
  rw [zero_add, decrementRefcount, modifyInfo]
  cases hkey : b.key with
  | none =>
    have hrefs : ∀ k, refs IOBuf.key k (b ::ₘ M) = refs IOBuf.key k M := by
      intro k
      rw [refs_cons, hkey]
      rfl
    exact ⟨fun k => by rw [← hrefs]; exact hc.few k, fun k => by rw [← hrefs]; exact hc.count k,
      hc.flags.of_cons, fun k => by rw [← hrefs]; exact hc.known k⟩
  | some k =>
    obtain ⟨blk, hblk, hmanaged⟩ := (hb b (Multiset.mem_singleton_self b)).info hkey
    have hself : refs IOBuf.key k (b ::ₘ M) = refs IOBuf.key k M + 1 := by
      rw [refs_cons, if_pos hkey]
    have hother : ∀ j, j ≠ k → refs IOBuf.key j M = refs IOBuf.key j (b ::ₘ M) := by
      intro j hj
      rw [refs_cons, if_neg fun heq => hj (Option.some.inj (heq.symm.trans hkey)), Nat.add_zero]
    have hfew : Few M := fun j => by
      have := hc.few j
      rw [refs_cons] at this
      omega
    refine hc.change hfew hc.flags.of_cons hother (fun _ => rfl) ?_
      fun hle => absurd (List.getElem?_eq_some_iff.mp hblk).1 (not_lt.mpr hle)
    intro info hinfo hinfoManaged
    obtain ⟨hcount, hreleased⟩ := hc.count k info hinfo hinfoManaged
    rw [hself] at hcount hreleased
    have hone : 1 < info.refcount ↔ 1 < info.refcount.toNat := UInt32.lt_iff_toNat_lt
    have hsub : (info.refcount - 1).toNat = refs IOBuf.key k M := by
      rw [UInt32.toNat_sub_of_le _ _ (UInt32.le_iff_toNat_le.mpr (by rw [hcount]; simp)), hcount]
      simp
    refine ⟨hsub, ?_⟩
    simp only [Block.decrement, hone, hcount, hreleased]
    by_cases hzero : refs IOBuf.key k M = 0
    · simp [hzero]
    · simp [hzero]

lemma moves_swap (hbuf : b'.buf = b.buf)
    (hmanaged : b'.managed = b.managed) (hcap : b'.capacity = b.capacity)
    (hwindow : b.data + b.length ≤ b.capacity → b'.data + b'.length ≤ b'.capacity)
    (hflag : ∀ M, Counted st (b ::ₘ M) → Valid st b → b.maybeShared = true →
      b'.maybeShared = false → ∀ k, b.key = some k → refs IOBuf.key k M = 0) :
    Moves st {b} st {b'} := by
  have hkey : b'.key = b.key := by rw [IOBuf.key, IOBuf.key, hbuf, hmanaged]
  refine ⟨Keeps.refl st, ?_, ?_⟩
  · intro hb c hc
    rw [Multiset.mem_singleton.mp hc]
    have hvalid := hb b (Multiset.mem_singleton_self b)
    exact ⟨hwindow hvalid.window, by rw [hbuf, hcap, hmanaged]; exact hvalid.null,
      by rw [hbuf, hcap, hmanaged]; exact hvalid.block⟩
  intro M hb hc
  rw [Multiset.singleton_add] at hc ⊢
  have hrefs : ∀ k, refs IOBuf.key k (b' ::ₘ M) = refs IOBuf.key k (b ::ₘ M) := by
    intro k
    rw [refs_cons, refs_cons, hkey]
  refine ⟨fun k => by rw [hrefs]; exact hc.few k, fun k => by rw [hrefs]; exact hc.count k,
    hc.flags.swap hkey (hflag M hc (hb b (Multiset.mem_singleton_self b))),
    fun k => by rw [hrefs]; exact hc.known k⟩

lemma moves_window (st : Store) (hbuf : b'.buf = b.buf)
    (hmanaged : b'.managed = b.managed) (hcap : b'.capacity = b.capacity)
    (hflag : b'.maybeShared = b.maybeShared)
    (hwindow : b.data + b.length ≤ b.capacity → b'.data + b'.length ≤ b'.capacity) :
    Moves st {b} st {b'} :=
  moves_swap hbuf hmanaged hcap hwindow fun _ _ _ htrue hfalse => by
    rw [hflag, htrue] at hfalse
    cases hfalse

lemma isSharedOne_alone
    (hc : Counted st (b ::ₘ M)) (hv : Valid st b) (h : (isSharedOne st b).1 = false) :
    ∃ k, b.key = some k ∧ refs IOBuf.key k M = 0 := by
  rw [isSharedOne, sharedInfo] at h
  cases hkey : b.key with
  | none =>
    rw [hkey] at h
    cases h
  | some k =>
    refine ⟨k, rfl, ?_⟩
    obtain ⟨blk, hblk, hmanaged⟩ := hv.info hkey
    rw [hkey, Option.bind_some, hblk] at h
    simp only at h
    obtain ⟨hcount, _⟩ := hc.count k blk hblk hmanaged
    rw [refs_cons, if_pos hkey] at hcount
    split at h
    · cases h
    split at h
    · rename_i hflag
      exact hc.flags.alone hkey (by simpa using hflag)
    split at h
    · cases h
    · rename_i hle
      have hle' : ¬ 1 < blk.refcount.toNat := fun hlt => hle (UInt32.lt_iff_toNat_lt.mpr hlt)
      omega

lemma isSharedOne_snd (st : Store) (b : IOBuf) : (isSharedOne st b).2 = b ∨
    ((isSharedOne st b).2 = { b with maybeShared := false } ∧ (isSharedOne st b).1 = false) := by
  rw [isSharedOne]
  split
  · exact Or.inl rfl
  split_ifs
  · exact Or.inl rfl
  · exact Or.inl rfl
  · exact Or.inl rfl
  · exact Or.inr ⟨rfl, rfl⟩

lemma moves_isSharedOne (st : Store) (b : IOBuf) : Moves st {b} st {(isSharedOne st b).2} := by
  rcases isSharedOne_snd st b with heq | ⟨heq, hfalse⟩
  · rw [heq]
    exact Moves.refl st _
  rw [heq]
  refine moves_swap rfl rfl rfl id ?_
  intro M hc hv _ _ k hk
  obtain ⟨j, hj, hzero⟩ := isSharedOne_alone hc hv hfalse
  rwa [Option.some.inj (hk.symm.trans hj)]

lemma cloneOne_unmanaged (st : Store) (h : b.managed = false) : cloneOne st b = (st, b, b) := by
  rw [cloneOne, h]
  rfl

lemma cloneOne_managed (st : Store) (h : b.managed = true) :
    cloneOne st b = (modifyInfo st b fun info => { info with refcount := info.refcount + 1 },
      { b with maybeShared := true }, { b with maybeShared := true }) := by
  rw [cloneOne, if_pos h]
  rfl

lemma Counted.copy (h : Counted st (b ::ₘ M)) (hv : Valid st b) (hmanaged : b.managed = true)
    (hfew : Few ({ b with maybeShared := true } ::ₘ { b with maybeShared := true } ::ₘ M)) :
    Counted (modifyInfo st b fun info => { info with refcount := info.refcount + 1 })
      ({ b with maybeShared := true } ::ₘ { b with maybeShared := true } ::ₘ M) := by
  have hkeyFlag : ({ b with maybeShared := true } : IOBuf).key = b.key := rfl
  cases hkey : b.key with
  | none =>
    have hnull := hv.null (by simpa [IOBuf.key, hmanaged] using hkey)
    rw [hmanaged] at hnull
    exact absurd hnull.2 (by decide)
  | some k =>
    obtain ⟨blk, hblk, _⟩ := hv.info hkey
    have hself : ∀ j, refs IOBuf.key j
        ({ b with maybeShared := true } ::ₘ { b with maybeShared := true } ::ₘ M) =
          refs IOBuf.key j (b ::ₘ M) + if b.key = some j then 1 else 0 := by
      intro j
      simp [hkeyFlag]
    rw [modifyInfo, hkey]
    refine h.change hfew (h.flags.copy rfl rfl rfl rfl) ?_ (fun _ => rfl) ?_
      fun hle => absurd (List.getElem?_eq_some_iff.mp hblk).1 (not_lt.mpr hle)
    · intro j hj
      rw [hself, if_neg fun heq => hj (Option.some.inj (heq.symm.trans hkey)), Nat.add_zero]
    intro info hinfo hinfoManaged
    obtain ⟨hcount, hreleased⟩ := h.count k info hinfo hinfoManaged
    have hlt := hfew k
    rw [hself, if_pos hkey] at hlt ⊢
    have hpos : 0 < refs IOBuf.key k (b ::ₘ M) :=
      refs_pos IOBuf.key (Multiset.mem_cons_self b M) hkey
    refine ⟨?_, ?_⟩
    · rw [UInt32.toNat_add, hcount]
      exact Nat.mod_eq_of_lt hlt
    · rw [hreleased, if_neg hpos.ne', if_neg (Nat.succ_ne_zero _)]

lemma pair_add (b c : IOBuf) (M : Multiset IOBuf) : {b, c} + M = b ::ₘ c ::ₘ M := by
  simp

lemma clones_cloneOne (st : Store) (b : IOBuf) :
    Clones st {b} (cloneOne st b).1 {(cloneOne st b).2.1, (cloneOne st b).2.2} := by
  cases hmanaged : b.managed with
  | false =>
    have hkey : b.key = none := by simp [IOBuf.key, hmanaged]
    have hrefs : ∀ M k, refs IOBuf.key k (b ::ₘ b ::ₘ M) = refs IOBuf.key k (b ::ₘ M) := by
      intro M k
      rw [refs_cons, hkey]
      rfl
    rw [cloneOne_unmanaged st hmanaged]
    refine ⟨Keeps.refl st, ?_, ?_⟩
    · intro hb c hc
      have hcb : c = b := by simpa using hc
      rw [hcb]
      exact hb b (Multiset.mem_singleton_self b)
    intro M _ hc hfew
    rw [pair_add] at hfew ⊢
    exact ⟨hfew, fun k => by rw [hrefs]; exact hc.count k, hc.flags.uncounted hkey,
      fun k => by rw [hrefs]; exact hc.known k⟩
  | true =>
    have hkeeps : Keeps st
        (modifyInfo st b fun info => { info with refcount := info.refcount + 1 }) :=
      keeps_modifyInfo st b fun _ => ⟨rfl, rfl⟩
    rw [cloneOne_managed st hmanaged]
    refine ⟨hkeeps, ?_, ?_⟩
    · intro hb c hc
      have hcb : c = { b with maybeShared := true } := by
        simpa only [Multiset.insert_eq_cons, Multiset.mem_cons, Multiset.mem_singleton,
          or_self] using hc
      have hv := (hb b (Multiset.mem_singleton_self b)).mono hkeeps
      rw [hcb]
      exact ⟨hv.window, hv.null, hv.block⟩
    · intro M hb hc hfew
      rw [pair_add] at hfew ⊢
      exact hc.copy (hb b (Multiset.mem_singleton_self b)) hmanaged hfew

lemma Moves.head (h : Moves st {b} st' {b'}) (bs : List IOBuf) :
    Moves st ↑(b :: bs) st' ↑(b' :: bs) :=
  h.frame ↑bs

lemma Moves.tail {bs' : List IOBuf} (h : Moves st ↑bs st' ↑bs') (b : IOBuf) :
    Moves st ↑(b :: bs) st' ↑(b :: bs') := by
  have := h.frame {b}
  rwa [add_comm, Multiset.singleton_add, add_comm, Multiset.singleton_add] at this

lemma moves_foldl_decrement (st : Store) (bs : List IOBuf) :
    Moves st ↑bs (bs.foldl decrementRefcount st) 0 := by
  induction bs generalizing st with
  | nil => exact Moves.refl st 0
  | cons b bs ih =>
    have hhead := (moves_decrementRefcount st b).frame ↑bs
    exact hhead.trans (ih (decrementRefcount st b))

lemma moves_destroy (st : Store) (chain : List IOBuf) : Moves st ↑chain (destroy st chain) 0 := by
  cases chain with
  | nil => exact Moves.refl st 0
  | cons b bs =>
    have htail := (moves_foldl_decrement st bs).frame {b}
    rw [add_comm, zero_add] at htail
    exact htail.trans (moves_decrementRefcount _ b)

lemma moves_isShared (st : Store) (chain : List IOBuf) :
    Moves st ↑chain st ↑(isShared st chain).2 := by
  induction chain with
  | nil => exact Moves.refl st 0
  | cons b bs ih =>
    have hone := (moves_isSharedOne st b).head bs
    rw [isShared]
    split
    · rename_i c hc
      rw [hc] at hone
      exact hone
    · rename_i c hc
      rw [hc] at hone
      exact hone.trans (ih.tail c)

lemma Clones.trans (h : Clones st L st₁ L₁)
    (h' : Clones st₁ L₁ st₂ L₂) (hle : ∀ k, refs IOBuf.key k L₁ ≤ refs IOBuf.key k L₂) :
    Clones st L st₂ L₂ := by
  refine ⟨h.keeps.trans h'.keeps, fun hb => h'.bounded (h.bounded hb), ?_⟩
  intro M hb hc hfew
  have hfew₁ : Few (L₁ + M) := by
    intro k
    have hlt := hfew k
    have := hle k
    rw [refs_add] at hlt ⊢
    omega
  exact h'.counted M (h.bounded hb) (h.counted M hb hc hfew₁) hfew

lemma cloneOne_keys (st : Store) (b : IOBuf) :
    (cloneOne st b).2.1.key = b.key ∧ (cloneOne st b).2.2.key = b.key := by
  cases hmanaged : b.managed with
  | false =>
    rw [cloneOne_unmanaged st hmanaged]
    exact ⟨rfl, rfl⟩
  | true =>
    rw [cloneOne_managed st hmanaged]
    exact ⟨rfl, rfl⟩

lemma refs_cloneChain (st : Store) (chain : List IOBuf) (k : Nat) :
    refs IOBuf.key k ↑(cloneChain st chain).2.1 = refs IOBuf.key k ↑chain := by
  induction chain generalizing st with
  | nil => rfl
  | cons b bs ih =>
    simp only [cloneChain, ← Multiset.cons_coe, refs_cons, ih, (cloneOne_keys st b).1]

lemma clones_cloneChain (st : Store) (chain : List IOBuf) :
    Clones st ↑chain (cloneChain st chain).1
      (↑(cloneChain st chain).2.1 + ↑(cloneChain st chain).2.2) := by
  induction chain generalizing st with
  | nil => exact (Moves.refl st 0).clones
  | cons b bs ih =>
    have hone := (clones_cloneOne st b).frame ↑bs
    have hrest := (ih (cloneOne st b).1).frame {(cloneOne st b).2.1, (cloneOne st b).2.2}
    rw [add_comm ({_, _} : Multiset IOBuf)] at hone
    have hboth := hone.trans hrest (fun k => by
      rw [refs_add, refs_add, refs_add, refs_cloneChain]
      omega)
    have hsum : (↑(cloneChain st (b :: bs)).2.1 + ↑(cloneChain st (b :: bs)).2.2 :
        Multiset IOBuf) =
          ↑(cloneChain (cloneOne st b).1 bs).2.1 + ↑(cloneChain (cloneOne st b).1 bs).2.2 +
            {(cloneOne st b).2.1, (cloneOne st b).2.2} := by
      simp only [cloneChain, ← Multiset.cons_coe, Multiset.insert_eq_cons,
        ← Multiset.singleton_add]
      ac_rfl
    rw [hsum]
    exact hboth

lemma moves_mark (st : Store) (b : IOBuf) (L : Multiset IOBuf) :
    Moves st L (modifyInfo st b fun info => { info with externallyShared := true }) L := by
  have hkeeps : Keeps st (modifyInfo st b fun info => { info with externallyShared := true }) :=
    keeps_modifyInfo st b fun _ => ⟨rfl, rfl⟩
  refine ⟨hkeeps, fun hb => hb.mono hkeeps, fun M _ hc => ?_⟩
  rw [modifyInfo]
  split
  · exact hc
  · rename_i k _
    exact hc.change hc.few hc.flags (fun _ _ => rfl) (fun _ => rfl)
      (fun blk hblk hmanaged => hc.count k blk hblk hmanaged) (hc.known k)

lemma moves_markExternallyShared (st : Store) (chain : List IOBuf) :
    Moves st ↑chain (markExternallyShared st chain) ↑chain := by
  have h : ∀ (bs : List IOBuf) (st : Store), Moves st ↑chain (markExternallyShared st bs) ↑chain := by
    intro bs
    induction bs with
    | nil => exact fun st => Moves.refl st _
    | cons b bs ih => exact fun st => (moves_mark st b ↑chain).trans (ih _)
  exact h chain st

lemma moves_replace {bytes : List UInt8}
    (hwindow : data + length ≤ capacity) (hbytes : capacity ≤ bytes.length) :
    Moves st {b} (decrementRefcount (newBlock st bytes true) b)
      {newIOBuf st true capacity data length} := by
  have hnew := (moves_new st bytes true hwindow hbytes).frame {b}
  have hold := (moves_decrementRefcount (newBlock st bytes true) b).frame
    {newIOBuf st true capacity data length}
  rw [zero_add] at hnew hold
  rw [add_comm] at hnew
  exact hnew.trans hold

lemma Moves.of_bounded (hkeeps : Keeps st st')
    (h : Bounded st L → Moves st L st' L') : Moves st L st' L' :=
  ⟨hkeeps, fun hb => (h hb).bounded hb, fun M hb => (h hb).counted M hb⟩

lemma moves_unshareOneSlow (h : unshareOneSlow st b = some (st', b')) : Moves st {b} st' {b'} := by
  rw [unshareOneSlow] at h
  split at h
  · cases h
  split at h
  · rename_i actual _ hcap
    cases h
    refine Moves.of_bounded
      ((keeps_newBlock st _ true).trans (keeps_decrementRefcount _ b)) fun hb => ?_
    have hv := hb b (Multiset.mem_singleton_self b)
    have hwindow := hv.window
    refine moves_replace hwindow ?_
    simp only [length_append, length_replicate, length_read hv, IOBuf.headroom]
    omega
  · cases h

lemma moves_unshareOne (h : unshareOne st b = some (st', b')) : Moves st {b} st' {b'} := by
  have hone := moves_isSharedOne st b
  rw [unshareOne] at h
  split at h
  · rename_i c hc
    rw [hc] at hone
    exact hone.trans (moves_unshareOneSlow h)
  rename_i c hc
  rw [hc] at hone
  cases h
  exact hone

lemma length_content (h : ∀ b ∈ chain, Valid st b) :
    (content st chain).length = (chain.map IOBuf.length).sum := by
  rw [content, length_flatMap]
  congr 1
  exact map_congr_left fun b hb => length_read (h b hb)

lemma keeps_destroy (st : Store) (chain : List IOBuf) : Keeps st (destroy st chain) :=
  (moves_destroy st chain).keeps

lemma Moves.absorb (h : Moves st {b} st₁ {b'}) (mid rest : List IOBuf) :
    Moves st ↑(b :: (mid ++ rest)) (destroy st₁ mid) ↑(b' :: rest) := by
  have hhead := h.head (mid ++ rest)
  have hmid := (moves_destroy st₁ mid).frame ↑(b' :: rest)
  have hperm : (↑(b' :: (mid ++ rest)) : Multiset IOBuf) = ↑mid + ↑(b' :: rest) := by
    exact Multiset.coe_eq_coe.mpr perm_middle.symm
  rw [hperm] at hhead
  exact hhead.trans hmid

lemma moves_coalesceAndReallocate {newHeadroom newTailroom : Nat}
    (h : coalesceAndReallocate st newHeadroom newTailroom b mid rest = some (st', chain)) :
    Moves st ↑(b :: (mid ++ rest)) st' ↑chain := by
  simp only [coalesceAndReallocate] at h
  split at h
  · cases h
  split at h
  · rename_i actual _ hfits
    cases h
    refine Moves.of_bounded (((keeps_newBlock st _ true).trans
      (keeps_decrementRefcount _ b)).trans (keeps_destroy _ mid)) fun hb => ?_
    have hvalid : ∀ c ∈ b :: mid, Valid st c := by
      intro c hc
      refine hb c (Multiset.mem_coe.mpr ?_)
      exact mem_append_left rest hc
    have hlen := length_content hvalid
    refine (moves_replace hfits ?_).absorb mid rest
    simp only [length_append, length_replicate, hlen, map_cons, sum_cons]
    omega
  · cases h

lemma moves_coalesce
    (h : coalesce st chain = some (st', chain')) : Moves st ↑chain st' ↑chain' := by
  rw [coalesce.eq_def] at h
  split at h
  · cases h
  · cases h
    exact Moves.refl st _
  · rename_i b bs _
    have := moves_coalesceAndReallocate h
    rwa [append_nil] at this

lemma gatherSpan_eq {missing : Nat}
    (h : gatherSpan missing bs = some (mid, rest)) : bs = mid ++ rest := by
  induction bs generalizing missing mid rest with
  | nil => cases h
  | cons b bs ih =>
    rw [gatherSpan] at h
    split at h
    · cases h
      rfl
    obtain ⟨⟨mid', rest'⟩, hspan, heq⟩ := Option.map_eq_some_iff.mp h
    cases heq
    rw [ih hspan]
    rfl

lemma moves_gather {maxLength : Nat}
    {e : Option Exn} (h : gather st maxLength chain = some (st', chain', e)) :
    Moves st ↑chain st' ↑chain' := by
  rw [gather.eq_def] at h
  split at h
  · cases h
  split at h
  · cases h
    exact Moves.refl st _
  split at h
  · cases h
    exact Moves.refl st _
  rename_i hspan
  obtain ⟨⟨st₁, chain₁⟩, hcoalesce, heq⟩ := Option.map_eq_some_iff.mp h
  cases heq
  rw [gatherSpan_eq hspan]
  exact moves_coalesceAndReallocate hcoalesce

lemma moves_unshare (h : unshare st chain = some (st', chain')) : Moves st ↑chain st' ↑chain' := by
  rw [unshare.eq_def] at h
  split at h
  · cases h
  · obtain ⟨⟨st₁, b₁⟩, hone, heq⟩ := Option.map_eq_some_iff.mp h
    cases heq
    exact moves_unshareOne hone
  rename_i b bs _
  have hshared := moves_isShared st (b :: bs)
  split at h
  · rename_i chain₁ hchain
    cases h
    rw [hchain] at hshared
    exact hshared
  · rename_i chain₁ hchain
    rw [hchain] at hshared
    exact hshared.trans (moves_coalesce h)

end Acc.Io
