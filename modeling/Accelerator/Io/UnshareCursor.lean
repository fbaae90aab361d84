import Accelerator.Io.Taking

namespace Acc.Io

open List Multiset Refs

structure RWUnshareCursor where
  store : Store
  before : List IOBuf := []
  crtBuf : IOBuf
  after : List IOBuf
  offset : Nat := 0
  maybeShared : Bool := true
  others : List (List IOBuf)
  deriving DecidableEq

namespace RWUnshareCursor

def length (s : RWUnshareCursor) : Nat := s.crtBuf.length - s.offset

def chain (s : RWUnshareCursor) : List IOBuf := s.before.reverse ++ s.crtBuf :: s.after

def advanceTo (s : RWUnshareCursor) (next : IOBuf) (after : List IOBuf) : RWUnshareCursor :=
  { s with before := s.crtBuf :: s.before, crtBuf := next, after, offset := 0, maybeShared := true }

def retreatTo (s : RWUnshareCursor) (prev : IOBuf) (before : List IOBuf) : RWUnshareCursor :=
  { s with before, crtBuf := prev, after := s.crtBuf :: s.after, offset := prev.length,
           maybeShared := true }

def tryAdvanceBuffer (s : RWUnshareCursor) : RWUnshareCursor :=
  match s.after with
  | [] => { s with offset := s.crtBuf.length }
  | next :: after => s.advanceTo next after

def skip (s : RWUnshareCursor) (len : Nat) : RWUnshareCursor :=
  if s.length < len then
    match _ : s.after with
    | [] => { s with offset := s.crtBuf.length }
    | next :: after => skip (s.advanceTo next after) (len - s.length)
  else
    let s := { s with offset := s.offset + len }
    if s.length = 0 then s.tryAdvanceBuffer else s
termination_by s.after.length
decreasing_by simp only [advanceTo, *, length_cons]; omega

def retreat (s : RWUnshareCursor) (len : Nat) : RWUnshareCursor :=
  if s.offset < len then
    match _ : s.before with
    | [] => { s with offset := 0 }
    | prev :: before => retreat (s.retreatTo prev before) (len - s.offset)
  else { s with offset := s.offset - len }
termination_by s.before.length
decreasing_by simp only [retreatTo, *, length_cons]; omega

def maybeUnshare (s : RWUnshareCursor) : Option RWUnshareCursor :=
  if s.maybeShared then
    (unshareOne s.store s.crtBuf).map fun r =>
      { s with store := r.1, crtBuf := r.2, maybeShared := false }
  else some s

def copyIn (s : RWUnshareCursor) (src : List UInt8) : RWUnshareCursor :=
  { s with store := write s.store s.crtBuf (s.crtBuf.data + s.offset) src }

def pushLoop (s : RWUnshareCursor) (src : List UInt8) : Option RWUnshareCursor :=
  match s.maybeUnshare with
  | none => none
  | some t =>
    if src.length ≤ s.length then some { t.copyIn src with offset := s.offset + src.length }
    else
      match _ : s.after with
      | [] => some { t.copyIn (src.take s.length) with offset := t.crtBuf.length }
      | next :: after =>
        pushLoop ((t.copyIn (src.take s.length)).advanceTo next after) (src.drop s.length)
termination_by s.after.length
decreasing_by simp only [advanceTo, *, length_cons]; omega

def pushAtMost (s : RWUnshareCursor) (src : List UInt8) : Option RWUnshareCursor :=
  if src = [] then some s else s.pushLoop src

def insert (s : RWUnshareCursor) (buf : List IOBuf) : RWUnshareCursor :=
  if s.offset = 0 then
    match s.before with
    | [] => { s with after := s.after ++ buf }
    | _ => { s with before := buf.reverse ++ s.before }
  else if s.crtBuf.length - s.offset > 0 then
    let r := cloneOne s.store s.crtBuf
    { s with
      store := r.1
      before := buf.reverse ++ r.2.1.trimEnd (r.2.1.length - s.offset) :: s.before
      crtBuf := r.2.2.trimStart s.offset
      offset := 0 }
  else
    match s.after with
    | next :: after =>
      { s with before := buf.reverse ++ s.crtBuf :: s.before, crtBuf := next, after, offset := 0 }
    | [] =>
      match s.before.reverse with
      | [] => { s with after := buf, offset := 0 }
      | head :: rest =>
        { s with before := [], crtBuf := head, after := rest ++ s.crtBuf :: buf, offset := 0 }

inductive Op
  | write (src : List UInt8)
  | skip (len : Nat)
  | retreat (len : Nat)
  | insert (buf : List IOBuf)
  | reset (head : IOBuf)

inductive Step (s : RWUnshareCursor) : Op → RWUnshareCursor → Prop
  | write {src : List UInt8} {s' : RWUnshareCursor} (h : s.pushAtMost src = some s') :
    Step s (.write src) s'
  | skip (len : Nat) : Step s (.skip len) (s.skip len)
  | retreat (len : Nat) : Step s (.retreat len) (s.retreat len)
  | insert {pre post : List (List IOBuf)} {buf : List IOBuf} (h : s.others = pre ++ buf :: post) :
    Step s (.insert buf) { s.insert buf with others := pre ++ post }
  | reset {pre post : List (List IOBuf)} {b : IOBuf} {bs : List IOBuf}
    (h : s.others = pre ++ (b :: bs) :: post) :
    Step s (.reset b) { s with
      before := [], crtBuf := b, after := bs, offset := 0, others := s.chain :: (pre ++ post) }

def live (s : RWUnshareCursor) : Multiset IOBuf :=
  {s.crtBuf} + (↑s.before + ↑s.after + ↑s.others.flatten)

def Careful (s : RWUnshareCursor) (op : Op) (s' : RWUnshareCursor) : Prop :=
  Few s'.live ∧
    match op with
    | .insert _ => 0 < s.offset → s.offset = s.crtBuf.length → s.maybeShared = true
    | .reset _ => s.maybeShared = true
    | _ => True

inductive Reach (s : RWUnshareCursor) : RWUnshareCursor → Prop
  | refl : Reach s s
  | snoc {op : Op} {t u : RWUnshareCursor} (h : Reach s t) (hstep : Step t op u)
    (hcareful : Careful t op u) : Reach s u

structure Inv (s : RWUnshareCursor) : Prop where
  inside : s.offset ≤ s.crtBuf.length
  bounded : Bounded s.store s.live
  counted : Counted s.store s.live
  alone : s.maybeShared = false → ∀ k, s.crtBuf.buf = some k →
    ∀ c ∈ s.others.flatten, c.buf ≠ some k

structure Quiet (s s' : RWUnshareCursor) : Prop where
  inv : s.Inv → s'.Inv
  others : s'.others = s.others
  reads : s.Inv → ∀ c ∈ s.others.flatten, read s'.store c = read s.store c

variable {s t u : RWUnshareCursor}

lemma Quiet.refl (s : RWUnshareCursor) : Quiet s s := ⟨id, rfl, fun _ _ _ => rfl⟩

lemma Quiet.trans (h : Quiet s t) (h' : Quiet t u) : Quiet s u := by
  refine ⟨fun hs => h'.inv (h.inv hs), h'.others.trans h.others, ?_⟩
  intro hs c hc
  rw [h'.reads (h.inv hs) c (h.others ▸ hc), h.reads hs c hc]

lemma Inv.crtBuf (h : s.Inv) : Valid s.store s.crtBuf :=
  h.bounded _ (mem_add.mpr (Or.inl (Multiset.mem_singleton_self _)))

lemma Inv.outside (h : s.Inv) {c : IOBuf} (hc : c ∈ s.others.flatten) : Valid s.store c :=
  h.bounded c (mem_add.mpr (Or.inr (mem_add.mpr (Or.inr hc))))

end RWUnshareCursor

lemma unshareOne_alone {st st' : Store} {b b' : IOBuf} {M : Multiset IOBuf}
    (hb : Bounded st ({b} + M)) (hc : Counted st ({b} + M))
    (h : unshareOne st b = some (st', b')) {k : Nat} (hk : b'.buf = some k) {c : IOBuf} (hcM : c ∈ M) :
    c.buf ≠ some k := by
  have hv := hb b (mem_add.mpr (Or.inl (Multiset.mem_singleton_self b)))
  have hcv := hb c (mem_add.mpr (Or.inr hcM))
  intro hck
  obtain ⟨blk, hblk, hmanaged, _⟩ := hcv.block k hck
  rw [unshareOne] at h
  split at h
  · rw [unshareOneSlow] at h
    split at h
    · cases h
    split at h
    · cases h
      cases hk
      rw [getElem?_eq_none (Nat.le_refl _)] at hblk
      cases hblk
    · cases h
  next b₁ hshared =>
  cases h
  obtain ⟨j, hj, hrefs⟩ := isSharedOne_alone hc hv (by rw [hshared])
  obtain ⟨hbm, hbj⟩ := key_eq_some.mp hj
  have hsame : b'.buf = b.buf := by
    have hsnd := isSharedOne_snd st b
    rw [hshared] at hsnd
    rcases hsnd with hsnd | ⟨hsnd, _⟩
    · rw [show b' = b from hsnd]
    · rw [show b' = _ from hsnd]
  rw [hsame, hbj] at hk
  cases hk
  obtain ⟨blk', hblk', hmanaged', _⟩ := hv.block k hbj
  rw [hblk] at hblk'
  cases hblk'
  have hkey : c.key = some k := key_eq_some.mpr ⟨by rw [← hmanaged, hmanaged', hbm], hck⟩
  exact absurd hrefs (refs_pos IOBuf.key hcM hkey).ne'

lemma length_unshareOne {st st' : Store} {b b' : IOBuf} (h : unshareOne st b = some (st', b')) :
    b'.length = b.length := by
  have hsnd := isSharedOne_snd st b
  have hone : (isSharedOne st b).2.length = b.length := by
    rcases hsnd with hsnd | ⟨hsnd, _⟩
    · rw [hsnd]
    · rw [hsnd]
  rw [unshareOne] at h
  split at h
  · next b₁ hshared =>
    rw [hshared] at hone
    rw [unshareOneSlow] at h
    split at h
    · cases h
    · split at h
      · cases h; exact hone
      · cases h
  · next b₁ hshared => rw [hshared] at hone; cases h; exact hone

namespace RWUnshareCursor

variable {s t u : RWUnshareCursor} {src : List UInt8}

lemma Inv.rearrange (h : s.Inv) (hstore : t.store = s.store) (hlive : t.live = s.live)
    (hin : t.offset ≤ t.crtBuf.length)
    (halone : t.maybeShared = false → ∀ k, t.crtBuf.buf = some k →
      ∀ c ∈ t.others.flatten, c.buf ≠ some k) : t.Inv :=
  ⟨hin, by rw [hstore, hlive]; exact h.bounded, by rw [hstore, hlive]; exact h.counted, halone⟩

lemma quiet_offset {n : Nat} (h : s.Inv → n ≤ s.crtBuf.length) : Quiet s { s with offset := n } :=
  ⟨fun hs => hs.rearrange rfl rfl (h hs) hs.alone, rfl, fun _ _ _ => rfl⟩

lemma quiet_advanceTo {next : IOBuf} {after : List IOBuf} (h : s.after = next :: after) :
    Quiet s (s.advanceTo next after) := by
  refine ⟨fun hs => hs.rearrange rfl ?_ (Nat.zero_le _) (fun hflag => nomatch hflag), rfl,
    fun _ _ _ => rfl⟩
  simp only [live, advanceTo, h, ← cons_coe, ← singleton_add]
  abel

lemma quiet_retreatTo {prev : IOBuf} {before : List IOBuf} (h : s.before = prev :: before) :
    Quiet s (s.retreatTo prev before) := by
  refine ⟨fun hs => hs.rearrange rfl ?_ (Nat.le_refl _) (fun hflag => nomatch hflag), rfl,
    fun _ _ _ => rfl⟩
  simp only [live, retreatTo, h, ← cons_coe, ← singleton_add]
  abel

lemma quiet_maybeUnshare (h : s.maybeUnshare = some t) : Quiet s t := by
  rw [maybeUnshare] at h
  split at h
  · obtain ⟨⟨store, b⟩, hun, rfl⟩ := Option.map_eq_some_iff.mp h
    have hmoves := moves_unshareOne hun
    refine ⟨fun hs => ⟨?_, ?_, ?_, ?_⟩, rfl, ?_⟩
    · exact hs.inside.trans_eq (length_unshareOne hun).symm
    · exact (hmoves.frame _).bounded hs.bounded
    · exact hmoves.counted _ (bounded_add.mp hs.bounded).1 hs.counted
    · intro _ k hk c hc
      exact unshareOne_alone hs.bounded hs.counted hun hk
        (mem_add.mpr (Or.inr hc))
    · intro hs c hc
      exact read_of_keeps (hs.outside hc) hmoves.keeps
  · cases h
    exact .refl s

lemma maybeUnshare_eq (h : s.maybeUnshare = some t) : t.maybeShared = false ∧
    t.offset = s.offset ∧ t.after = s.after ∧ t.crtBuf.length = s.crtBuf.length := by
  rw [maybeUnshare] at h
  split at h
  · obtain ⟨⟨store, b⟩, hun, rfl⟩ := Option.map_eq_some_iff.mp h
    exact ⟨rfl, rfl, rfl, length_unshareOne hun⟩
  · next hflag =>
    cases h
    exact ⟨by simpa using hflag, rfl, rfl, rfl⟩

lemma quiet_copyIn (hflag : s.maybeShared = false) (hlen : src.length ≤ s.length) :
    Quiet s (s.copyIn src) := by
  have hroom : s.Inv → s.crtBuf.data + s.offset + src.length ≤ s.crtBuf.capacity := by
    intro hs
    have hin := hs.inside
    have hwindow := hs.crtBuf.window
    rw [length] at hlen
    omega
  refine ⟨fun hs => ⟨hs.inside, ?_, hs.counted.write _ _ _, hs.alone⟩, rfl, ?_⟩
  · intro c hc
    exact hs.crtBuf.write (hs.bounded c hc) (hroom hs)
  intro hs c hc
  cases hbuf : s.crtBuf.buf with
  | none => rw [copyIn, write, hbuf]
  | some k =>
    refine read_write hs.crtBuf (hroom hs) fun hshows => ?_
    exact hs.alone hflag k hbuf c hc (hshows.1.trans hbuf)

lemma quiet_unshared_copyIn (hun : s.maybeUnshare = some t) (h : src.length ≤ s.length) :
    Quiet s (t.copyIn src) := by
  obtain ⟨hflag, hoffset, _, hlen⟩ := maybeUnshare_eq hun
  have hsame : t.length = s.length := by rw [length, length, hoffset, hlen]
  exact (quiet_maybeUnshare hun).trans (quiet_copyIn hflag (hsame ▸ h))

lemma quiet_pushLoop (h : s.pushLoop src = some t) : Quiet s t := by
  fun_induction pushLoop s src with
  | case1 s src hun => cases h
  | case2 s src t' hun hle =>
    cases h
    refine (quiet_unshared_copyIn hun hle).trans (quiet_offset ?_)
    intro hs
    obtain ⟨_, hoffset, _, hlen⟩ := maybeUnshare_eq hun
    have hin : t'.offset ≤ t'.crtBuf.length := hs.inside
    show _ ≤ t'.crtBuf.length
    rw [length] at hle
    omega
  | case3 s src t' hun hlt hafter =>
    cases h
    exact (quiet_unshared_copyIn hun (length_take_le _ _)).trans (quiet_offset fun _ => Nat.le_refl _)
  | case4 s src t' hun hlt next after hafter ih =>
    have hafter' : (t'.copyIn (src.take s.length)).after = next :: after :=
      (maybeUnshare_eq hun).2.2.1.trans hafter
    exact ((quiet_unshared_copyIn hun (length_take_le _ _)).trans (quiet_advanceTo hafter')).trans
      (ih h)

lemma quiet_pushAtMost (h : s.pushAtMost src = some t) : Quiet s t := by
  rw [pushAtMost] at h
  split at h
  · cases h; exact .refl s
  · exact quiet_pushLoop h

lemma quiet_tryAdvanceBuffer (s : RWUnshareCursor) : Quiet s s.tryAdvanceBuffer := by
  rw [tryAdvanceBuffer]
  split
  · exact quiet_offset fun _ => Nat.le_refl _
  · next hafter => exact quiet_advanceTo hafter

lemma quiet_skip (s : RWUnshareCursor) (len : Nat) : Quiet s (s.skip len) := by
  fun_induction skip s len with
  | case1 s len hlt hafter => exact quiet_offset fun _ => Nat.le_refl _
  | case2 s len hlt next after hafter ih => exact (quiet_advanceTo hafter).trans ih
  | case3 s len hge t hzero =>
    refine Quiet.trans (quiet_offset fun hs => ?_) (quiet_tryAdvanceBuffer t)
    have hin := hs.inside
    rw [length] at hge
    omega
  | case4 s len hge t hpos =>
    refine quiet_offset fun hs => ?_
    have hin := hs.inside
    rw [length] at hge
    omega

lemma quiet_retreat (s : RWUnshareCursor) (len : Nat) : Quiet s (s.retreat len) := by
  fun_induction retreat s len with
  | case1 s len hlt hbefore => exact quiet_offset fun _ => Nat.zero_le _
  | case2 s len hlt prev before hbefore ih => exact (quiet_retreatTo hbefore).trans ih
  | case3 s len hge => exact quiet_offset fun hs => (Nat.sub_le _ _).trans hs.inside

variable {pre post : List (List IOBuf)} {buf : List IOBuf}

lemma cloneOne_same (st : Store) (b : IOBuf) :
    (cloneOne st b).2.1 = (cloneOne st b).2.2 ∧ (cloneOne st b).2.2.buf = b.buf := by
  rw [cloneOne]
  split <;> exact ⟨rfl, rfl⟩

lemma inv_insert (hs : s.Inv) (h : s.others = pre ++ buf :: post)
    (hcareful : Careful s (.insert buf) { s.insert buf with others := pre ++ post }) :
    Inv { s.insert buf with others := pre ++ post } := by
  have hfewer : ∀ c ∈ (pre ++ post).flatten, c ∈ s.others.flatten := by
    intro c hc
    rw [h]
    simp only [flatten_append, flatten_cons, List.mem_append] at hc ⊢
    tauto
  have halone : s.maybeShared = false → ∀ k, s.crtBuf.buf = some k →
      ∀ c ∈ (pre ++ post).flatten, c.buf ≠ some k :=
    fun hflag k hk c hc => hs.alone hflag k hk c (hfewer c hc)
  obtain ⟨hfew, hflag⟩ := hcareful
  unfold insert at hfew ⊢
  by_cases hzero : s.offset = 0
  · rw [if_pos hzero] at hfew ⊢
    cases hbefore : s.before with
    | nil =>
      refine hs.rearrange rfl ?_ hs.inside halone
      simp only [live, h, hbefore, flatten_append, flatten_cons, ← coe_add, coe_nil]
      abel
    | cons prev before =>
      refine hs.rearrange rfl ?_ hs.inside halone
      simp only [live, h, hbefore, flatten_append, flatten_cons, ← coe_add, coe_reverse]
      abel
  rw [if_neg hzero] at hfew ⊢
  by_cases hmore : s.crtBuf.length - s.offset > 0
  · -- both halves of the current buffer have its storage, and nobody outside has it
    rw [if_pos hmore] at hfew ⊢
    have hcut := IOBufQueue.clones_cut s.store hs.inside
    obtain ⟨hsame, hbuf⟩ := cloneOne_same s.store s.crtBuf
    have hlive : live { s with
        store := (cloneOne s.store s.crtBuf).1
        before := buf.reverse ++ (cloneOne s.store s.crtBuf).2.1.trimEnd
          ((cloneOne s.store s.crtBuf).2.1.length - s.offset) :: s.before
        crtBuf := (cloneOne s.store s.crtBuf).2.2.trimStart s.offset
        offset := 0
        others := pre ++ post } = {(cloneOne s.store s.crtBuf).2.1.trimStart s.offset,
          (cloneOne s.store s.crtBuf).2.2.trimEnd
            ((cloneOne s.store s.crtBuf).2.2.length - s.offset)} +
        (↑s.before + ↑s.after + ↑s.others.flatten) := by
      simp only [live, h, hsame, flatten_append, flatten_cons, ← coe_add, coe_reverse, ← cons_coe,
        insert_eq_cons, ← singleton_add]
      abel
    refine ⟨Nat.zero_le _, ?_, ?_, fun hcleared k hk => halone hcleared k (hbuf ▸ hk)⟩
    · rw [hlive]
      exact (hcut.frame _).bounded hs.bounded
    · rw [hlive] at hfew ⊢
      exact hcut.counted _ (bounded_add.mp hs.bounded).1 hs.counted hfew
  rw [if_neg hmore] at hfew ⊢
  have hset : s.maybeShared = true := hflag (by omega) (by have := hs.inside; omega)
  have hnever : s.maybeShared = false → ∀ k, ∀ b : IOBuf, b.buf = some k →
      ∀ c ∈ (pre ++ post).flatten, c.buf ≠ some k := by
    intro hcleared
    rw [hset] at hcleared
    cases hcleared
  cases hafter : s.after with
  | cons next after =>
    refine hs.rearrange rfl ?_ (Nat.zero_le _) fun hcleared k => hnever hcleared k _
    simp only [live, h, hafter, flatten_append, flatten_cons, ← coe_add, coe_reverse, ← cons_coe,
      ← singleton_add]
    abel
  | nil =>
    cases hbefore : s.before.reverse with
    | nil =>
      refine hs.rearrange rfl ?_ (Nat.zero_le _) fun hcleared k => hnever hcleared k _
      simp only [live, h, hafter, flatten_append, flatten_cons, ← coe_add, coe_nil]
      abel
    | cons head rest =>
      refine hs.rearrange rfl ?_ (Nat.zero_le _) fun hcleared k => hnever hcleared k _
      have hback : (↑s.before : Multiset IOBuf) = {head} + ↑rest := by
        rw [← coe_reverse, hbefore, ← cons_coe, singleton_add]
      simp only [live, h, hafter, hback, flatten_append, flatten_cons, ← coe_add, coe_nil,
        ← cons_coe, ← singleton_add]
      abel

lemma inv_reset {b : IOBuf} {bs : List IOBuf} (hs : s.Inv) (h : s.others = pre ++ (b :: bs) :: post)
    (hflag : s.maybeShared = true) : Inv { s with
      before := [], crtBuf := b, after := bs, offset := 0, others := s.chain :: (pre ++ post) } := by
  refine hs.rearrange rfl ?_ (Nat.zero_le _) ?_
  · simp only [live, h, chain, flatten_append, flatten_cons, ← coe_add, ← cons_coe, ← singleton_add,
      coe_reverse, coe_nil]
    abel
  · intro hcleared
    rw [hflag] at hcleared
    cases hcleared

lemma Step.inv {op : Op} (h : Step s op t) (hcareful : Careful s op t) (hs : s.Inv) : t.Inv := by
  cases h with
  | write h => exact (quiet_pushAtMost h).inv hs
  | skip len => exact (quiet_skip s len).inv hs
  | retreat len => exact (quiet_retreat s len).inv hs
  | insert h => exact inv_insert hs h hcareful
  | reset h => exact inv_reset hs h hcareful.2

lemma Reach.inv (h : Reach s t) (hs : s.Inv) : t.Inv := by
  induction h with
  | refl => exact hs
  | snoc h hstep hcareful ih => exact hstep.inv hcareful ih

def own : IOBuf := { buf := some 0, managed := true, length := 1, capacity := 1 }

def shared : IOBuf :=
  { buf := some 1, managed := true, length := 1, capacity := 1, maybeShared := true }

def start : RWUnshareCursor where
  store := [{ bytes := [97] }, { bytes := [98], refcount := 2 }]
  crtBuf := own
  after := []
  others := [[shared], [shared]]

lemma live_start : start.live = own ::ₘ shared ::ₘ shared ::ₘ 0 := rfl

lemma bounded_start : Bounded start.store start.live := by
  have hone : ∀ (b : IOBuf) (blk : Block) (k : Nat), b.data + b.length ≤ b.capacity →
      b.buf = some k → start.store[k]? = some blk → blk.managed = b.managed →
      b.capacity ≤ blk.bytes.length → Valid start.store b := by
    intro b blk k hwindow hbuf hblk hmanaged hcap
    refine ⟨hwindow, ?_, ?_⟩
    · intro hnull
      rw [hbuf] at hnull
      cases hnull
    intro j hj
    rw [hbuf] at hj
    cases hj
    exact ⟨blk, hblk, hmanaged, hcap⟩
  intro b hb
  rw [live_start] at hb
  have hcases : b = own ∨ b = shared := by simpa using hb
  rcases hcases with rfl | rfl
  · exact hone own _ 0 (Nat.le_refl 1) rfl rfl rfl (Nat.le_refl 1)
  · exact hone shared _ 1 (Nat.le_refl 1) rfl rfl rfl (Nat.le_refl 1)

lemma counted_start : Counted start.store start.live := by
  have hrefs : ∀ k, refs IOBuf.key k start.live =
      (if k = 1 then 2 else 0) + if k = 0 then 1 else 0 := by
    intro k
    have hown : (own.key = some k) = (k = 0) := by simp [own, IOBuf.key, eq_comm]
    have hshared : (shared.key = some k) = (k = 1) := by simp [shared, IOBuf.key, eq_comm]
    simp only [live_start, refs_cons, refs_zero, hown, hshared]
    split <;> rfl
  refine ⟨?_, ?_, ?_, ?_⟩
  · intro k
    rw [hrefs]
    split <;> split <;> omega
  · rintro (_ | _ | k) blk hblk _
    · cases hblk; rw [hrefs]; decide
    · cases hblk; rw [hrefs]; decide
    · cases hblk
  · intro b hb k hk hflag
    rw [live_start] at hb
    have hcases : b = own ∨ b = shared := by simpa using hb
    rcases hcases with rfl | rfl
    · cases hk; rw [hrefs]; rfl
    · cases hflag
  · intro k (hk : 2 ≤ k)
    rw [hrefs, if_neg (by omega), if_neg (by omega)]

end RWUnshareCursor

end Acc.Io
