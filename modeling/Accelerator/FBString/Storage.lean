import Accelerator.FBString.Layout

namespace Acc.FBString

open Function List Acc.FBString.Core

open Counted

def Holds (g : Heap) (c : Core) (h : Heap) (l : List Byte) : Prop := ∃ x, Form c x l ∧ Takes g x h

inductive Exclusive (g : Heap) : Core → Heap → List Byte → List Byte → Prop
  | medium {p : Addr} {cap : Nat} {v l : List Byte} (hg : g p = none) (hcap : cap < 2 ^ 62)
      (hlength : v.length = cap + 1) (htext : Text v l) :
      Exclusive g ⟨p, BitVec.ofNat 64 l.length, encode cap .isMedium⟩
        (Function.update g p (some (.owned v))) l v
  | large {p : Addr} {cap : Nat} {v l : List Byte} (hg : g p = none) (hcap : cap < 2 ^ 62)
      (hlength : v.length = cap + 1) (htext : Text v l) :
      Exclusive g ⟨p, BitVec.ofNat 64 l.length, encode cap .isLarge⟩
        (Function.update g p (some (.counted 1 v))) l v

def Writable (g : Heap) (c : Core) (h : Heap) (l : List Byte) : Prop :=
  (Form c .nothing l ∧ h = g) ∨ ∃ v, Exclusive g c h l v

def Becomes (g : Heap) (c : Core) (h : Heap) (r : Core × Heap) (l : List Byte) : Prop :=
  Writable g r.1 r.2 l ∨ r = (c, h) ∧ Holds g c h l

section Basic

variable {g : Heap} {c : Core} {h : Heap} {l v : List Byte}

lemma Exclusive.holds (he : Exclusive g c h l v) : Holds g c h l := by
  cases he with
  | medium hg hcap hlength htext => exact ⟨_, .medium hcap hlength htext, .own hg⟩
  | large hg hcap hlength htext => exact ⟨_, .large hcap hlength htext, .first hg⟩

lemma Exclusive.text (he : Exclusive g c h l v) : Text v l := by
  cases he <;> assumption

lemma Writable.holds (hw : Writable g c h l) : Holds g c h l := by
  obtain ⟨hform, rfl⟩ | ⟨v, he⟩ := hw
  · exact ⟨_, hform, .nothing⟩
  · exact he.holds

lemma Holds.cases (hh : Holds g c h l) : (Form c .nothing l ∧ h = g) ∨ (∃ v, Exclusive g c h l v) ∨
    ∃ p v n, Form c (.share p v) l ∧ g p = some (.counted (n + 1) v) ∧
      h = update g p (some (.counted (n + 2) v)) := by
  obtain ⟨x, hform, htakes⟩ := hh
  cases htakes with
  | nothing => exact .inl ⟨hform, rfl⟩
  | own hg =>
    cases hform with
    | medium hcap hlength htext => exact .inr (.inl ⟨_, .medium hg hcap hlength htext⟩)
  | first hg =>
    cases hform with
    | large hcap hlength htext => exact .inr (.inl ⟨_, .large hg hcap hlength htext⟩)
  | again hg => exact .inr (.inr ⟨_, _, _, hform, hg, rfl⟩)

lemma Holds.writable_or (hh : Holds g c h l) : Writable g c h l ∨
    ∃ p v n, Form c (.share p v) l ∧ g p = some (.counted (n + 1) v) ∧
      h = update g p (some (.counted (n + 2) v)) := by
  obtain hsmall | halone | hshared := hh.cases
  · exact .inl (.inl hsmall)
  · exact .inl (.inr halone)
  · exact .inr hshared

lemma Form.category_nothing (hform : Form c .nothing l) : c.category = some .isSmall := by
  cases hform with
  | small hlen hlast _ => exact category_small hlen hlast

lemma Becomes.holds {r : Core × Heap} {l' : List Byte} (hb : Becomes g c h r l') : Holds g r.1 r.2 l' := by
  obtain hw | ⟨rfl, hh⟩ := hb
  · exact hw.holds
  · exact hh

lemma Form.category_share {p : Addr} (hform : Form c (.share p v) l) : c.category = some .isLarge := by
  cases hform with
  | large hcap _ _ => exact category_encode hcap .isLarge

lemma Exclusive.category_ne (he : Exclusive g c h l v) : c.category ≠ some .isSmall := by
  cases he with
  | medium _ hcap _ _ | large _ hcap _ _ =>
    rw [category_encode hcap]
    decide

lemma Exclusive.alone (he : Exclusive g c h l v) :
    c.category = some .isMedium ∨ refs h c.data = 1 := by
  cases he with
  | medium _ hcap _ _ => exact .inl (category_encode hcap .isMedium)
  | large _ _ _ _ => exact .inr (by rw [refs, update_self])

lemma Becomes.writable_of_small {r : Core × Heap} {l' : List Byte} (hb : Becomes g c h r l')
    (hcat : c.category = some .isSmall) : Writable g r.1 r.2 l' := by
  obtain hw | ⟨rfl, hh⟩ := hb
  · exact hw
  obtain hw | ⟨p, v, n, hform, -⟩ := hh.writable_or
  · exact hw
  · rw [hform.category_share] at hcat
    cases hcat

variable {x : Hold Addr (List Byte)}

lemma Exclusive.exchange {g' : Heap} (he : Exclusive g' c h l v)
    (htakes : Takes g x g') : Exclusive g c (release h x) l v := by
  cases he with
  | medium hg hcap hlength htext =>
    rw [htakes.release_update hg]
    exact .medium (htakes.eq_none hg) hcap hlength htext
  | large hg hcap hlength htext =>
    rw [htakes.release_update hg]
    exact .large (htakes.eq_none hg) hcap hlength htext

lemma Writable.exchange {g' : Heap} (hw : Writable g' c h l)
    (htakes : Takes g x g') : Writable g c (release h x) l := by
  obtain ⟨hform, rfl⟩ | ⟨v, he⟩ := hw
  · exact .inl ⟨hform, htakes.release_eq⟩
  · exact .inr ⟨v, he.exchange htakes⟩

lemma peek_update_self (g : Heap) (p : Addr) (cell : Cell (List Byte)) :
    peek (update g p (some cell)) p = cell.value := by
  rw [peek, update_self]

lemma peek_update_of_ne {p q : Addr} (hne : q ≠ p) (o : Option (Cell (List Byte))) :
    peek (update g p o) q = peek g q := by
  rw [peek, peek, update_of_ne hne]

lemma poke_update (g : Heap) (p : Addr) (cell : Cell (List Byte)) (off : Nat) (m : List Byte) :
    poke (update g p (some cell)) p off m
      = update g p (some (cell.map fun v => overwrite v off m)) := by
  rw [poke, update_self]
  exact update_idem ..

lemma poke_eq_none {a : Addr} (ha : h a = none) (p : Addr) (off : Nat) (m : List Byte) :
    poke h p off m a = none := by
  cases hcell : h p with
  | some cell =>
    have hne : a ≠ p := fun e => by rw [← e, ha] at hcell; cases hcell
    simp only [poke, hcell]
    rw [update_of_ne hne, ha]
  | none =>
    simp only [poke, hcell]
    exact ha

lemma Exclusive.poke (he : Exclusive g c h l v) {off : Nat} {m l' : List Byte}
    (hm : off + m.length ≤ v.length) (htext : Text (overwrite v off m) l') :
    Exclusive g { c with size := BitVec.ofNat 64 l'.length } (poke h c.data off m) l' (overwrite v off m) := by
  have hv := length_overwrite hm
  cases he with
  | medium hg hcap hlength _ =>
    rw [poke_update]
    exact .medium hg hcap (hv.trans hlength) htext
  | large hg hcap hlength _ =>
    rw [poke_update]
    exact .large hg hcap (hv.trans hlength) htext

lemma Exclusive.peek_of_some (he : Exclusive g c h l v) {p : Addr} {cell : Cell (List Byte)}
    (hp : g p = some cell) : peek h p = cell.value := by
  cases he with
  | @medium q _ _ _ hg | @large q _ _ _ hg =>
    have hne : p ≠ q := fun e => by rw [e, hg] at hp; cases hp
    rw [peek_update_of_ne hne, peek, hp]

lemma Exclusive.setSize (he : Exclusive g c h l v) {n : Nat} (hn : n < v.length) :
    Exclusive g (setSize c h n).1 (setSize c h n).2 (v.take n) (overwrite v n [0]) := by
  have hset := he.poke (show n + [(0 : Byte)].length ≤ v.length from hn) (text_terminated v n)
  rwa [length_take, Nat.min_eq_left (le_of_lt hn)] at hset

end Basic

section Small

variable {c : Core} {l : List Byte} {g : Heap}

lemma form_setSmallSize (c : Core) {n : Nat} (hn : n ≤ maxSmallSize) :
    Form (c.setSmallSize n) .nothing (c.chars.take n) := by
  have h23 : maxSmallSize < 24 := by decide
  have hlength : (c.chars.take n).length = n := by
    rw [length_take, c.length_chars]
    omega
  have hchars : (c.setSmallSize n).chars
      = (c.chars.set maxSmallSize (BitVec.ofNat 8 (maxSmallSize - n))).set n 0 := by
    rw [setSmallSize, chars_setByte _ _ (by omega), chars_setByte _ _ h23]
  refine .small (by rw [hlength]; exact hn) ?_ ?_
  · rw [hlength, setSmallSize, byte_setByte _ _ (by omega) h23, byte_setByte _ _ h23 h23,
      if_pos rfl]
    by_cases h : maxSmallSize = n
    · rw [if_pos h, ← h]
      rfl
    · rw [if_neg h]
  · refine ⟨(c.chars.set maxSmallSize (BitVec.ofNat 8 (maxSmallSize - n))).drop (n + 1), ?_⟩
    rw [hchars, set_eq_take_append_cons_drop, if_pos (by rw [length_set, c.length_chars]; omega),
      take_set_of_le hn]

lemma byte_copyWords (c : Core) (bytes : Nat → Byte) {n i : Nat} (hi : i < n) (hn : n ≤ 23) :
    (c.copyWords bytes n).byte i = bytes i := by
  have hword : (c.copyWords bytes n).word (i / 8) = loadWord bytes (i / 8) := by
    have h1 : 1 ≤ (n + 7) / 8 := by omega
    obtain hk | hk | hk : i / 8 = 0 ∨ i / 8 = 1 ∨ i / 8 = 2 := by omega
    · rw [hk]
      simp only [copyWords, if_pos h1, word]
    · have h2 : 2 ≤ (n + 7) / 8 := by omega
      rw [hk]
      simp only [copyWords, if_pos h1, if_pos h2, word]
    have h2 : 2 ≤ (n + 7) / 8 := by omega
    have h3 : 3 ≤ (n + 7) / 8 := by omega
    rw [hk]
    simp only [copyWords, if_pos h1, if_pos h2, if_pos h3, word]
  have hdiv : 8 * (i / 8) + i % 8 = i := Nat.div_add_mod i 8
  rw [byte, hword, getByte_loadWord _ _ (Nat.mod_lt _ (by decide)), hdiv]

lemma form_initSmall (sup : Supply) {data : List Byte} (hn : data.length ≤ maxSmallSize) :
    Form (initSmall sup data) .nothing data := by
  have h23 : data.length ≤ 23 := hn
  have htake : ∀ c : Core, (∀ i (hi : i < data.length), c.byte i = data[i]) → c.chars.take data.length = data := by
    intro c hc
    refine ext_getElem (by rw [length_take, c.length_chars]; omega) fun i hi hi' => ?_
    have hget := c.getElem?_chars (show i < 24 by omega)
    rw [List.getElem_take]
    have hsome := List.getElem?_eq_some_iff.mp hget
    rw [hsome.2, hc i hi']
  rw [initSmall]
  cases haligned : sup.aligned with
  | true =>
    have hform := form_setSmallSize
      (sup.uninit.copyWords (fun i => data.getD i (sup.junk i)) data.length) hn
    rw [htake _ fun i hi => (byte_copyWords sup.uninit _ hi h23).trans (by simp [hi])] at hform
    exact hform
  | false =>
    have hform := form_setSmallSize (sup.uninit.write 0 data) hn
    rw [chars_write data sup.uninit 0 (by omega), overwrite_zero, take_left] at hform
    exact hform

lemma Form.write_small (hform : Form c .nothing l) {off : Nat} {m : List Byte}
    (hm : off + m.length ≤ l.length) : Form (c.write off m) .nothing (overwrite l off m) := by
  cases hform with
  | small hlen hlast htext =>
    have h23 : l.length ≤ 23 := hlen
    have hlength := length_overwrite hm
    have hchars := chars_write m c off (by omega)
    refine .small (by rw [hlength]; exact hlen) ?_ (by rw [hchars]; exact htext.overwrite hm)
    have hbyte : (c.write off m).chars[maxSmallSize]? = c.chars[maxSmallSize]? := by
      rw [hchars]
      exact getElem?_overwrite (by rw [c.length_chars]; omega) (by rw [maxSmallSize]; omega)
    rw [getElem?_chars _ (by decide), getElem?_chars _ (by decide)] at hbyte
    rw [hlength, Option.some.inj hbyte, hlast]

end Small

def Room (good : Nat → Nat) (n : Nat) : Prop := ∀ k ≤ n, good k ≤ 2 ^ 62

lemma Room.mono {good : Nat → Nat} {m n : Nat} (h : Room good n) (hle : m ≤ n) : Room good m :=
  fun k hk => h k (le_trans hk hle)

section Alloc

variable {good : Nat → Nat} (hgood : ∀ n, n ≤ good n) {sup : Supply} {g h : Heap} {c : Core}
  {l : List Byte}

lemma length_blank (sup : Supply) (n : Nat) : (blank sup n).length = n := by
  simp [blank]

variable {p : Addr} {w v : List Byte}

lemma exclusive_copy (hg : g p = none) {cap : Nat} (hcap : cap < 2 ^ 62)
    (hw : w.length = cap + 1) (hl : l.length ≤ cap) (htext : Text v l) :
    (∃ v', Exclusive g ⟨p, BitVec.ofNat 64 l.length, encode cap .isMedium⟩
      (poke (update g p (some (.owned w))) p 0 (v.take (l.length + 1))) l v' ∧
      v'.length = cap + 1) ∧ ∃ v', Exclusive g ⟨p, BitVec.ofNat 64 l.length, encode cap .isLarge⟩
      (poke (update g p (some (.counted 1 w))) p 0 (v.take (l.length + 1))) l v' ∧
      v'.length = cap + 1 := by
  have hlength : (v.take (l.length + 1)).length = l.length + 1 := by
    simp [htext.take_succ_eq]
  have hv : (overwrite w 0 (v.take (l.length + 1))).length = cap + 1 := by
    rw [length_overwrite (by omega), hw]
  rw [poke_update, poke_update]
  exact ⟨⟨_, .medium hg hcap hv (htext.copy w), hv⟩, ⟨_, .large hg hcap hv (htext.copy w), hv⟩⟩

include hgood

variable {n delta : Nat}

lemma exclusive_malloc (hfresh : g sup.addr = none) (hn : good (1 + n) ≤ 2 ^ 62)
    (hl : l.length ≤ n) (htext : Text w l) :
    ∃ v, Exclusive g ⟨sup.addr, BitVec.ofNat 64 l.length, encode (good (1 + n) - 1) .isMedium⟩
      (poke (mallocChars sup g (good (1 + n))) sup.addr 0 (w.take (l.length + 1))) l v ∧ n < v.length := by
  have hge := hgood (1 + n)
  have hblank : (blank sup (good (1 + n))).length = good (1 + n) - 1 + 1 := by
    rw [length_blank]
    omega
  obtain ⟨⟨v, he, hv⟩, -⟩ := exclusive_copy hfresh (by omega) hblank (by omega) htext
  exact ⟨v, he, by omega⟩

lemma exclusive_create (hfresh : g sup.addr = none) (hn : good (dataOffset + (n + 1)) ≤ 2 ^ 62)
    (hl : l.length ≤ n) (htext : Text w l) :
    ∃ v, Exclusive g ⟨sup.addr, BitVec.ofNat 64 l.length, encode (create good sup g n).1 .isLarge⟩
      (poke (create good sup g n).2 sup.addr 0 (w.take (l.length + 1))) l v ∧ n < v.length := by
  have hge := hgood (dataOffset + (n + 1))
  obtain ⟨-, v, he, hv⟩ := exclusive_copy hfresh
    (show good (dataOffset + (n + 1)) - dataOffset - 1 < 2 ^ 62 by omega)
    (length_blank sup (good (dataOffset + (n + 1)) - dataOffset - 1 + 1)) (by omega) htext
  exact ⟨v, he, by omega⟩

omit hgood in
lemma poke_terminated (g : Heap) (p : Addr) (cell : Cell (List Byte)) (data : List Byte) :
    poke (poke (update g p (some cell)) p 0 data) p data.length [0]
      = poke (update g p (some cell)) p 0 ((data ++ [0]).take (data.length + 1)) := by
  rw [poke_update, poke_update, poke_update]
  have hwrite : ∀ v, overwrite (overwrite v 0 data) data.length [0]
      = overwrite v 0 ((data ++ [0]).take (data.length + 1)) := by
    intro v
    rw [overwrite_zero, overwrite_zero, take_of_length_le (by simp), overwrite, take_left,
      length_append, drop_append, drop_of_length_le (by simp), length_singleton,
      Nat.add_sub_cancel_left, drop_drop, nil_append]
  have hcell : (cell.map fun v => overwrite v 0 data).map (fun v => overwrite v data.length [0])
      = cell.map fun v => overwrite v 0 ((data ++ [0]).take (data.length + 1)) := by
    cases cell <;> simp only [Cell.map, hwrite]
  rw [hcell]

lemma writable_init (hfresh : g sup.addr = none) (data : List Byte)
    (hroom : Room good (dataOffset + (data.length + 1))) :
    Writable g (init good sup data g).1 (init good sup data g).2 data := by
  have htext : Text (data ++ [0]) data := ⟨[], rfl⟩
  rw [init]
  split
  · next h => exact .inl ⟨form_initSmall sup h, rfl⟩
  split
  · obtain ⟨v, he, -⟩ := exclusive_malloc hgood hfresh (hroom (1 + data.length) (by rw [dataOffset]; omega))
      (le_refl _) htext
    rw [mallocChars, ← poke_terminated] at he
    exact .inr ⟨v, he⟩
  · obtain ⟨v, he, -⟩ := exclusive_create hgood hfresh (hroom _ (le_refl _)) (le_refl _) htext
    rw [create, ← poke_terminated] at he
    exact .inr ⟨v, he⟩

lemma writable_copy (hfresh : g sup.addr = none) {x : Hold Addr (List Byte)} (hform : Form c x l)
    (hbacked : Backed g x) (hroom : Room good (1 + l.length)) :
    Writable g (copy good sup c g).1 (copy good sup c g).2 l ∨
      (copy good sup c g).1 = c ∧ Takes g x (copy good sup c g).2 := by
  cases hform with
  | small hlen hlast htext =>
    rw [copy, category_small hlen hlast]
    exact .inl (.inl ⟨.small hlen hlast htext, rfl⟩)
  | @medium p cap v l hcap hlength htext =>
    have hp : g p = some (.owned v) := hbacked
    have hne : p ≠ sup.addr := fun e => by rw [e, hfresh] at hp; cases hp
    have hsize := toNat_length hcap hlength htext
    obtain ⟨w, he, -⟩ := exclusive_malloc hgood hfresh (hroom (1 + l.length) (le_refl _)) (le_refl _) htext
    have hpeek : peek (mallocChars sup g (good (1 + l.length))) p = v := by
      rw [mallocChars, peek_update_of_ne hne, peek, hp]
      rfl
    rw [copy, category_encode hcap]
    simp only [hsize, hpeek]
    exact .inl (.inr ⟨w, he⟩)
  | @large p cap v l hcap hlength htext =>
    obtain ⟨n, hp⟩ := hbacked
    rw [copy, category_encode hcap]
    simp only [increment, hp]
    exact .inr ⟨trivial, .again hp⟩

lemma exclusive_unshare (minCapacity : Nat) (hform : Form c (.share p v) l)
    (htakes : Takes g (.share p v) h) (hfresh : h sup.addr = none)
    (hroom : Room good (dataOffset + (max minCapacity c.mlCapacity + 1))) :
    ∃ v', Exclusive g (unshare good sup c h minCapacity).1 (unshare good sup c h minCapacity).2 l v' ∧
      minCapacity < v'.length := by
  obtain ⟨n, hp⟩ := htakes.backed
  have hne : p ≠ sup.addr := fun e => by rw [e, hfresh] at hp; cases hp
  cases hform with
  | @large _ cap _ _ hcap hlength htext =>
    rw [mlCapacity_encode hcap] at hroom
    have hlt := htext.length_lt
    have hsize := toNat_length hcap hlength htext
    obtain ⟨w, he, hw⟩ := exclusive_create hgood hfresh (hroom _ (le_refl _))
      (show l.length ≤ max minCapacity cap by omega) htext
    have hpeek : peek (create good sup h (max minCapacity cap)).2 p = v := by
      rw [create, peek_update_of_ne hne, peek, hp]
      rfl
    refine ⟨w, ?_, by omega⟩
    rw [unshare, mlCapacity_encode hcap]
    simp only [hsize, hpeek]
    exact he.exchange htakes

omit hgood in
lemma text_grow (htext : Text v l) (moved : Bool) (r : List Byte) :
    Text ((if moved then v.take (l.length + 1) else v) ++ r) l := by
  cases moved with
  | true => exact ⟨r, by rw [if_pos rfl, htext.take_succ_eq, append_assoc]; rfl⟩
  | false =>
    obtain ⟨q, rfl⟩ := htext
    exact ⟨q ++ r, by rw [if_neg Bool.false_ne_true, append_assoc]; rfl⟩

omit hgood in
lemma smartRealloc_eq (hg : g p = none) (hfresh : g sup.addr = none) (cell : Cell (List Byte))
    (htext : Text cell.value l) {offset currentSize newCapacity : Nat} (currentCapacity : Nat)
    (hsize : currentSize - offset = l.length + 1) (hcapacity : cell.value.length ≤ newCapacity - offset) :
    ∃ a v, smartRealloc sup (update g p (some cell)) p offset currentSize currentCapacity
        newCapacity = (a, update g a (some (cell.map fun _ => v))) ∧
      g a = none ∧ Text v l ∧ v.length = newCapacity - offset := by
  let moved := decide ((currentCapacity - currentSize) * 2 > currentSize)
  let a := if !moved && sup.inPlace then p else sup.addr
  let kept := if moved then cell.value.take (l.length + 1) else cell.value
  have hkept : kept.length ≤ newCapacity - offset := by
    refine le_trans ?_ hcapacity
    simp only [kept]
    split
    · exact length_take_le' ..
    · exact le_refl _
  refine ⟨a, kept ++ (blank sup (newCapacity - offset)).drop kept.length, ?_, ?_, text_grow htext moved _, ?_⟩
  · rw [smartRealloc, update_self]
    simp only [hsize, update_none_of_eq hg]
    cases cell <;> rfl
  · simp only [a]
    split
    · exact hg
    · exact hfresh
  · rw [length_append, length_drop, length_blank]
    omega

def blockCapacity (c : Core) : Nat := if c.category = some .isSmall then 0 else c.mlCapacity

section Reserve

variable {minCapacity : Nat}

lemma exclusive_reserveSmall (hfresh : h sup.addr = none) (hform : Form c .nothing l)
    (hmin : maxSmallSize < minCapacity) (hroom : Room good (dataOffset + (minCapacity + 1))) :
    ∃ v, Exclusive h (reserveSmall good sup c h minCapacity).1 (reserveSmall good sup c h minCapacity).2
      l v ∧ minCapacity < v.length := by
  cases hform with
  | small hlen hlast htext =>
    rw [reserveSmall, if_neg (by omega)]
    simp only [smallSize_eq hlen hlast]
    split
    · exact exclusive_malloc hgood hfresh (hroom (1 + minCapacity) (by rw [dataOffset]; omega)) (by omega) htext
    · exact exclusive_create hgood hfresh (hroom _ (le_refl _)) (by omega) htext

lemma exclusive_reserveMedium {p : Addr} {cap : Nat} {v : List Byte} (hg : g p = none)
    (hcap : cap < 2 ^ 62) (hlength : v.length = cap + 1) (htext : Text v l)
    (hfresh : update g p (some (.owned v)) sup.addr = none)
    (hroom : Room good (dataOffset + (minCapacity + 1)))
    (hc : c = ⟨p, BitVec.ofNat 64 l.length, encode cap .isMedium⟩)
    (hh : h = update g p (some (.owned v))) :
    ∃ v', Exclusive g (reserveMedium good sup c h minCapacity).1 (reserveMedium good sup c h minCapacity).2
      l v' ∧ minCapacity < v'.length := by
  have hsize := toNat_length hcap hlength htext
  have htakes : Takes g (.own p v) (update g p (some (.owned v))) := .own hg
  subst hc hh
  rw [reserveMedium, mlCapacity_encode hcap]
  simp only [hsize]
  split
  · exact ⟨v, .medium hg hcap hlength htext, by omega⟩
  split
  · have hge := hgood (1 + minCapacity)
    have hle := hroom (1 + minCapacity) (by rw [dataOffset]; omega)
    obtain ⟨a, v', heq, ha, htext', hlength'⟩ := smartRealloc_eq hg (htakes.eq_none hfresh)
      (.owned v) htext (cap + 1) (show l.length + 1 - 0 = l.length + 1 from rfl)
      (show v.length ≤ good (1 + minCapacity) - 0 by omega)
    rw [heq]
    exact ⟨v', .medium ha (by omega) (hlength'.trans (by omega)) htext', by omega⟩
  have hreset : Form sup.uninit.reset .nothing [] := form_setSmallSize sup.uninit (Nat.zero_le _)
  have h23 : maxSmallSize < minCapacity := by
    rw [maxMediumSize] at *
    rw [maxSmallSize]
    omega
  obtain ⟨w, he, hw⟩ := exclusive_reserveSmall hgood hfresh hreset h23 hroom
  have hform : Form ⟨p, BitVec.ofNat 64 l.length, encode cap .isMedium⟩ (.own p v) l :=
    .medium hcap hlength htext
  rw [he.peek_of_some (update_self ..), hform.destroy_eq]
  have hfits : 0 + (v.take (l.length + 1)).length ≤ w.length := by
    rw [length_take]
    omega
  refine ⟨_, (he.poke hfits (htext.copy w)).exchange htakes, ?_⟩
  rw [length_overwrite hfits]
  exact hw

lemma exclusive_reserveLarge {p : Addr} {cap : Nat} {v : List Byte} (hg : g p = none)
    (hcap : cap < 2 ^ 62) (hlength : v.length = cap + 1) (htext : Text v l)
    (hfresh : update g p (some (.counted 1 v)) sup.addr = none)
    (hroom : Room good (dataOffset + (minCapacity + 1)))
    (hc : c = ⟨p, BitVec.ofNat 64 l.length, encode cap .isLarge⟩)
    (hh : h = update g p (some (.counted 1 v))) :
    ∃ v', Exclusive g (reserveLarge good sup c h minCapacity).1 (reserveLarge good sup c h minCapacity).2
      l v' ∧ minCapacity < v'.length := by
  have hsize := toNat_length hcap hlength htext
  have htakes : Takes g (.share p v) (update g p (some (.counted 1 v))) := .first hg
  subst hc hh
  rw [reserveLarge, mlCapacity_encode hcap, refs, update_self, if_neg (lt_irrefl 1)]
  simp only [hsize]
  split
  · have hge := hgood (dataOffset + (minCapacity + 1))
    have hle := hroom _ (le_refl _)
    obtain ⟨a, v', heq, ha, htext', hlength'⟩ := smartRealloc_eq hg (htakes.eq_none hfresh)
      (.counted 1 v) htext (dataOffset + (cap + 1)) (Nat.add_sub_cancel_left dataOffset (l.length + 1))
      (show v.length ≤ good (dataOffset + (minCapacity + 1)) - dataOffset by omega)
    rw [heq]
    exact ⟨v', .large ha (by omega) (hlength'.trans (by omega)) htext', by omega⟩
  · exact ⟨v, .large hg hcap hlength htext, by omega⟩

variable (minCapacity) in
lemma exclusive_reserve (hh : Holds g c h l) (hfresh : h sup.addr = none)
    (hroom : Room good (dataOffset + (max minCapacity (blockCapacity c) + 1))) :
    (Form c .nothing l ∧ h = g ∧ minCapacity ≤ maxSmallSize ∧ reserve good sup c h minCapacity = (c, h)) ∨
    ∃ v, Exclusive g (reserve good sup c h minCapacity).1 (reserve good sup c h minCapacity).2 l v ∧
      minCapacity < v.length := by
  have hroom' : Room good (dataOffset + (minCapacity + 1)) := fun k hk => hroom k (by omega)
  obtain ⟨hform, rfl⟩ | ⟨v, he⟩ | ⟨p, v, n, hform, hg, rfl⟩ := hh.cases
  · rw [reserve, hform.category_nothing]
    by_cases hmin : minCapacity ≤ maxSmallSize
    · exact .inl ⟨hform, rfl, hmin, if_pos hmin⟩
    · exact .inr (exclusive_reserveSmall hgood hfresh hform (by omega) hroom')
  · refine .inr ?_
    cases he with
    | medium hg hcap hlength htext =>
      rw [reserve, category_encode hcap]
      exact exclusive_reserveMedium hgood hg hcap hlength htext hfresh hroom' rfl rfl
    | large hg hcap hlength htext =>
      rw [reserve, category_encode hcap]
      exact exclusive_reserveLarge hgood hg hcap hlength htext hfresh hroom' rfl rfl
  have htakes : Takes g (.share p v) (update g p (some (.counted (n + 2) v))) := .again hg
  have hmany : n + 2 > 1 := by omega
  cases hform with
  | @large _ cap _ _ hcap hlength htext =>
    have hcat : (mk p (BitVec.ofNat 64 l.length) (encode cap .isLarge)).category = some .isLarge :=
      category_encode hcap .isLarge
    rw [blockCapacity, if_neg (by rw [hcat]; decide)] at hroom
    rw [reserve, hcat]
    simp only [reserveLarge, refs, update_self, if_pos hmany]
    exact .inr (exclusive_unshare hgood minCapacity (.large hcap hlength htext) htakes hfresh hroom)

end Reserve

def need (c : Core) (n : Nat) : Nat := 64 + 2 * blockCapacity c + n

omit hgood in
lemma Exclusive.capacity_eq (he : Exclusive g c h l v) :
    capacity c h + 1 = v.length ∧ capacity c h = blockCapacity c ∧ c.size.toNat = l.length := by
  have hne := he.category_ne
  cases he with
  | medium _ hcap hlength htext =>
    rw [blockCapacity, if_neg hne, capacity, category_encode hcap]
    simp only [mlCapacity_encode hcap]
    exact ⟨hlength.symm, trivial, toNat_length hcap hlength htext⟩
  | large _ hcap hlength htext =>
    rw [blockCapacity, if_neg hne, capacity, category_encode hcap]
    simp only [refs, update_self, mlCapacity_encode hcap, gt_iff_lt, lt_irrefl, if_false]
    exact ⟨hlength.symm, trivial, toNat_length hcap hlength htext⟩

omit hgood in
lemma Exclusive.extend (he : Exclusive g c h l v)
    (hv : l.length + delta < v.length) : ∃ m, m.length = delta ∧
      Writable g (FBString.setSize c h (l.length + delta)).1 (FBString.setSize c h (l.length + delta)).2
        (l ++ m) := by
  obtain ⟨m, hm, htake⟩ := he.text.take_add hv
  exact ⟨m, hm, .inr ⟨_, htake ▸ he.setSize hv⟩⟩

omit hgood in
lemma Form.shared (hform : Form c (.share p v) l) :
    c.data = p ∧ c.size = BitVec.ofNat 64 l.length ∧ c.size.toNat = l.length ∧
      l.length ≤ blockCapacity c ∧ Text v l := by
  have hcat : c.category ≠ some .isSmall := by
    rw [hform.category_share]
    decide
  rw [blockCapacity, if_neg hcat]
  cases hform with
  | large hcap hlength htext =>
    have hlt := htext.length_lt
    rw [mlCapacity_encode hcap]
    exact ⟨rfl, rfl, toNat_length hcap hlength htext, by omega, htext⟩

omit hgood in
lemma setSize_shared (hform : Form c (.share p v) l) :
    setSize c (update g p (some (.counted n v))) l.length
      = (c, update g p (some (.counted n v))) := by
  obtain ⟨hdata, hsize, -, -, htext⟩ := hform.shared
  rw [setSize, hdata, poke_update, Cell.map, htext.overwrite_terminator, ← hsize, ← hdata]

section Expand

variable {delta : Nat} (expGrowth : Bool) (hroom : Room good (need c (l.length + delta)))
include hroom

lemma size_expandNoinit : (l.length + delta) % 2 ^ 64 = l.length + delta := by
  have hge := hgood (need c (l.length + delta))
  have hle := hroom _ (le_refl _)
  have hneed : l.length + delta < need c (l.length + delta) := by
    rw [need]
    omega
  exact Nat.mod_eq_of_lt (by omega)

variable (hfresh : h sup.addr = none)
include hfresh

lemma writable_expandSmall (hform : Form c .nothing l) :
    ∃ m, m.length = delta ∧ Writable h (expandNoinit good sup c h delta expGrowth).1
      (expandNoinit good sup c h delta expGrowth).2 (l ++ m) := by
  rw [expandNoinit, if_pos hform.category_nothing]
  cases hform with
  | small hlen hlast htext =>
    simp only [smallSize_eq hlen hlast, size_expandNoinit hgood hroom]
    by_cases hsmall : l.length + delta ≤ maxSmallSize
    · rw [if_pos hsmall]
      have h24 : l.length + delta < c.chars.length := by
        exact Nat.lt_succ_of_le hsmall
      obtain ⟨m, hm, htake⟩ := htext.take_add h24
      exact ⟨m, hm, .inl ⟨htake ▸ form_setSmallSize c hsmall, rfl⟩⟩
    rw [if_neg hsmall]
    have hmin : ∀ k, l.length + delta ≤ k → k ≤ max (l.length + delta) (2 * maxSmallSize) →
        ∃ v, Exclusive h (reserveSmall good sup c h k).1 (reserveSmall good sup c h k).2 l v ∧
          k < v.length := by
      intro k hk hk'
      refine exclusive_reserveSmall hgood hfresh (.small hlen hlast htext) (by omega) fun i hi => hroom i ?_
      rw [need]
      rw [dataOffset] at hi
      rw [maxSmallSize] at hk'
      omega
    obtain ⟨v, he, hv⟩ := hmin
      (if expGrowth then max (l.length + delta) (2 * maxSmallSize) else l.length + delta)
      (by split <;> omega) (by split <;> omega)
    exact he.extend (by split at hv <;> omega)

lemma writable_expandBlock (hh : Holds g c h l) (hcat : c.category ≠ some .isSmall)
    (hsize : c.size.toNat = l.length) (hblock : capacity c h ≤ blockCapacity c)
    (hgrow : l.length + delta > capacity c h) :
    ∃ m, m.length = delta ∧ Writable g (expandNoinit good sup c h delta expGrowth).1
      (expandNoinit good sup c h delta expGrowth).2 (l ++ m) := by
  rw [expandNoinit, if_neg hcat]
  simp only [hsize, size_expandNoinit hgood hroom, if_pos hgrow]
  have hmin : ∀ k, l.length + delta ≤ k → k ≤ max (l.length + delta) (1 + capacity c h * 3 / 2) →
      ∃ v, Exclusive g (reserve good sup c h k).1 (reserve good sup c h k).2 l v ∧ k < v.length := by
    intro k hk hk'
    obtain ⟨hform, -⟩ | he := exclusive_reserve hgood k hh hfresh (by
      refine fun i hi => hroom i ?_
      rw [need]
      rw [dataOffset] at hi
      omega)
    · exact absurd hform.category_nothing hcat
    · exact he
  obtain ⟨v, he, hv⟩ := hmin
    (if expGrowth then max (l.length + delta) (1 + capacity c h * 3 / 2) else l.length + delta)
    (by split <;> omega) (by split <;> omega)
  exact he.extend (by split at hv <;> omega)

lemma writable_expandNoinit (hh : Holds g c h l) :
    (delta = 0 ∧ expandNoinit good sup c h delta expGrowth = (c, h)) ∨
    ∃ m, m.length = delta ∧ Writable g (expandNoinit good sup c h delta expGrowth).1
      (expandNoinit good sup c h delta expGrowth).2 (l ++ m) := by
  obtain ⟨hform, rfl⟩ | ⟨v, he⟩ | ⟨p, v, n, hform, hg, rfl⟩ := hh.cases
  · exact .inr (writable_expandSmall hgood expGrowth hroom hfresh hform)
  · obtain ⟨hcapacity, hblock, hsize⟩ := he.capacity_eq
    by_cases hgrow : l.length + delta > capacity c h
    · exact .inr (writable_expandBlock hgood expGrowth hroom hfresh hh he.category_ne hsize
        (le_of_eq hblock) hgrow)
    · rw [expandNoinit, if_neg he.category_ne]
      simp only [hsize, size_expandNoinit hgood hroom, if_neg hgrow]
      exact .inr (he.extend (show l.length + delta < v.length by omega))
  have hcat : c.category ≠ some .isSmall := by
    rw [hform.category_share]
    decide
  obtain ⟨hdata, -, hsize, hlen, -⟩ := hform.shared
  have hcapacity : capacity c (update g p (some (.counted (n + 2) v))) = l.length := by
    rw [capacity, hform.category_share]
    simp only [refs, hdata, update_self, hsize]
    exact if_pos (by omega)
  by_cases hdelta : delta = 0
  · refine .inl ⟨hdelta, ?_⟩
    have hwrap := size_expandNoinit hgood hroom
    rw [hdelta, Nat.add_zero] at hwrap
    rw [hdelta, expandNoinit, if_neg hcat]
    simp only [hsize, Nat.add_zero, hwrap, hcapacity, gt_iff_lt, lt_irrefl, if_false, setSize_shared hform]
  · exact .inr (writable_expandBlock hgood expGrowth hroom hfresh hh hcat hsize
      (by rw [hcapacity]; exact hlen) (by omega))

end Expand

omit hgood in
variable (good sup) in
lemma Writable.shrink (hw : Writable g c h l) (hdelta : delta ≤ l.length) :
    Writable g (shrink good sup c h delta).1 (shrink good sup c h delta).2 (l.take (l.length - delta)) := by
  obtain ⟨hform, rfl⟩ | ⟨v, he⟩ := hw
  · rw [FBString.shrink, if_pos hform.category_nothing]
    cases hform with
    | small hlen hlast htext =>
      have hset := form_setSmallSize c (show l.length - delta ≤ maxSmallSize by omega)
      rw [htext.take_of_le (Nat.sub_le ..)] at hset
      rw [smallSize_eq hlen hlast]
      exact .inl ⟨hset, rfl⟩
  have hlt := he.text.length_lt
  have hset := he.setSize (show l.length - delta < v.length by omega)
  rw [FBString.shrink, if_neg he.category_ne, if_pos he.alone, he.capacity_eq.2.2]
  rw [he.text.take_of_le (Nat.sub_le ..)] at hset
  exact .inr ⟨_, hset⟩

omit hgood in
lemma shrink_shared (hform : Form c (.share p v) l) :
    shrink good sup c (update g p (some (.counted (n + 2) v))) delta
      = shrinkLarge good sup c (update g p (some (.counted (n + 2) v))) delta := by
  have hcat := hform.category_share
  rw [shrink, if_neg (by rw [hcat]; decide), if_neg]
  rw [hcat, hform.shared.1, refs, update_self]
  simp

lemma becomes_shrink (hh : Holds g c h l) (hfresh : h sup.addr = none)
    (hdelta : delta ≤ l.length) (hroom : Room good (need c l.length)) :
    Becomes g c h (shrink good sup c h delta) (l.take (l.length - delta)) := by
  obtain hw | ⟨p, v, n, hform, hg, rfl⟩ := hh.writable_or
  · exact .inl (hw.shrink good sup hdelta)
  obtain ⟨hdata, -, hsize, -, htext⟩ := hform.shared
  rw [shrink_shared hform, shrinkLarge]
  by_cases h0 : delta = 0
  · rw [if_neg (not_not.mpr h0), h0, Nat.sub_zero, take_length]
    exact .inr ⟨rfl, hh⟩
  have htake : (peek (update g p (some (.counted (n + 2) v))) c.data).take (c.size.toNat - delta)
      = l.take (l.length - delta) := by
    rw [hdata, hsize, peek_update_self]
    exact htext.take_of_le (Nat.sub_le ..)
  have hinit := writable_init hgood hfresh (l.take (l.length - delta)) fun k hk => hroom k (by
    rw [length_take] at hk
    rw [need]
    rw [dataOffset] at hk
    omega)
  rw [if_pos h0, htake]
  simp only [hform.destroy_eq]
  exact .inl (hinit.exchange (.again hg))

omit hgood in
lemma Writable.mutableData_eq (hw : Writable g c h l) : mutableData good sup c h = (c, h) := by
  obtain ⟨hform, rfl⟩ | ⟨v, he⟩ := hw
  · rw [mutableData, hform.category_nothing]
  cases he with
  | medium _ hcap _ _ => rw [mutableData, category_encode hcap]
  | large _ hcap _ _ =>
    rw [mutableData, category_encode hcap]
    simp [refs]

lemma writable_mutableData (hh : Holds g c h l) (hfresh : h sup.addr = none)
    (hroom : Room good (need c l.length)) :
    Writable g (mutableData good sup c h).1 (mutableData good sup c h).2 l := by
  obtain hw | ⟨p, v, n, hform, hg, rfl⟩ := hh.writable_or
  · rwa [hw.mutableData_eq]
  have hmany : n + 2 > 1 := by omega
  have hblock : blockCapacity c = c.mlCapacity := if_neg (by rw [hform.category_share]; decide)
  obtain ⟨w, he, -⟩ := exclusive_unshare hgood 0 hform (.again hg) hfresh fun k hk =>
    hroom k (by
      rw [need, hblock]
      rw [dataOffset] at hk
      omega)
  rw [mutableData, hform.category_share]
  simp only [refs, hform.shared.1, update_self, if_pos hmany]
  exact .inr ⟨w, he⟩

omit hgood in
lemma Writable.write (hw : Writable g c h l) {off : Nat} {m : List Byte} (hm : off + m.length ≤ l.length) :
    Writable g (writeData c h off m).1 (writeData c h off m).2 (overwrite l off m) := by
  obtain ⟨hform, rfl⟩ | ⟨v, he⟩ := hw
  · rw [writeData, if_pos hform.category_nothing]
    exact .inl ⟨hform.write_small hm, rfl⟩
  have hlt := he.text.length_lt
  rw [writeData, if_neg he.category_ne]
  have hsize : c.size = BitVec.ofNat 64 l.length := by cases he <;> rfl
  have hpoke := he.poke (by omega) (he.text.overwrite hm)
  rw [length_overwrite hm, ← hsize] at hpoke
  exact .inr ⟨_, hpoke⟩

end Alloc

end Acc.FBString
