import Accelerator.Io.Cursor

namespace Acc.Io.RecordIO

open List

open Cursor (littleValue)

structure Hashes where
  header : List UInt8 → UInt32
  data : List UInt8 → UInt64
  pieces : List (List UInt8) → UInt64

structure Header where
  magic : UInt32
  version : UInt8 := 0
  hashFunction : UInt8 := 0
  flags : UInt16 := 0
  fileId : UInt32
  dataLength : UInt32
  dataHash : UInt64
  headerHash : UInt32
  deriving DecidableEq, Repr

def kMagic : UInt32 := 0x9379e54d

def headerSize : Nat := 28

def toLittle : Nat → Nat → List UInt8
  | 0, _ => []
  | size + 1, n => UInt8.ofNat n :: toLittle size (n / 256)

def Header.toBytes (h : Header) : List UInt8 :=
  toLittle 4 h.magic.toNat ++ toLittle 1 h.version.toNat ++ toLittle 1 h.hashFunction.toNat ++
    toLittle 2 h.flags.toNat ++ toLittle 4 h.fileId.toNat ++ toLittle 4 h.dataLength.toNat ++
    toLittle 8 h.dataHash.toNat ++ toLittle 4 h.headerHash.toNat

def field (bytes : List UInt8) (offset size : Nat) : Nat :=
  littleValue ((bytes.drop offset).take size)

def Header.ofBytes (bytes : List UInt8) : Header where
  magic := UInt32.ofNat (field bytes 0 4)
  version := UInt8.ofNat (field bytes 4 1)
  hashFunction := UInt8.ofNat (field bytes 5 1)
  flags := UInt16.ofNat (field bytes 6 2)
  fileId := UInt32.ofNat (field bytes 8 4)
  dataLength := UInt32.ofNat (field bytes 12 4)
  dataHash := UInt64.ofNat (field bytes 16 8)
  headerHash := UInt32.ofNat (field bytes 24 4)

structure RecordInfo where
  fileId : UInt32 := 0
  begin : Nat := 0
  record : List UInt8 := []
  deriving DecidableEq, Repr

def validateRecord (hashes : Hashes) (range : List UInt8) (fileId : UInt32) : RecordInfo :=
  if range.length ≤ headerSize then {}
  else
    let header := Header.ofBytes range
    let data := range.drop headerSize
    if header.magic ≠ kMagic ∨ header.version ≠ 0 ∨ header.hashFunction ≠ 0 ∨ header.flags ≠ 0 ∨
        (fileId ≠ 0 ∧ header.fileId ≠ fileId) ∨ header.dataLength.toNat > data.length then {}
    else if hashes.header (range.take 24) ≠ header.headerHash then {}
    else
      let record := data.take header.dataLength.toNat
      if hashes.data record ≠ header.dataHash then {}
      else { fileId := header.fileId, begin := headerSize, record }

def find (needle : List UInt8) : List UInt8 → Option Nat
  | [] => if needle = [] then some 0 else none
  | x :: xs => if needle.isPrefixOf (x :: xs) then some 0 else (find needle xs).map (· + 1)

def magicRange : List UInt8 := toLittle 4 kMagic.toNat

def findLoop (hashes : Hashes) (whole : List UInt8) (fileId : UInt32) (stop start : Nat) :
    RecordInfo :=
  if start < stop then
    match find magicRange ((whole.drop start).take (stop + 4 - start)) with
    | none => {}
    | some p =>
      let r := validateRecord hashes (whole.drop (start + p)) fileId
      if r.record ≠ [] then { r with begin := start + p + r.begin }
      else findLoop hashes whole fileId stop (start + p + 4)
  else {}
termination_by stop - start

def findRecord (hashes : Hashes) (first last : Nat) (whole : List UInt8) (fileId : UInt32) :
    RecordInfo :=
  findLoop hashes whole fileId (min last (whole.length - headerSize)) first

structure Iterator where
  range : List UInt8
  fileId : UInt32
  record : List UInt8
  pos : Int
  deriving DecidableEq, Repr

namespace Iterator

def advanceToValid (hashes : Hashes) (it : Iterator) : Iterator :=
  let info := findRecord hashes 0 it.range.length it.range it.fileId
  if info.record = [] then { it with range := [], record := [], pos := -1 }
  else
    let skipped := info.begin - headerSize
    { it with range := it.range.drop skipped, record := info.record, pos := it.pos + skipped }

def seek (hashes : Hashes) (range : List UInt8) (fileId : UInt32) (pos : Int) : Iterator :=
  if pos < 0 ∨ (range.length : Int) ≤ pos then { range := [], fileId, record := [], pos := -1 }
  else advanceToValid hashes { range := range.drop pos.toNat, fileId, record := [], pos }

def increment (hashes : Hashes) (it : Iterator) : Iterator :=
  let skip := headerSize + it.record.length
  advanceToValid hashes { it with range := it.range.drop skip, pos := it.pos + skip }

lemma length_advanceToValid (hashes : Hashes) (it : Iterator) :
    (it.advanceToValid hashes).range.length ≤ it.range.length := by
  simp only [advanceToValid]
  split
  · exact Nat.zero_le _
  · rw [length_drop]
    exact Nat.sub_le _ _

lemma length_increment (hashes : Hashes) (it : Iterator) (h : it.range ≠ []) :
    (it.increment hashes).range.length < it.range.length := by
  refine lt_of_le_of_lt (length_advanceToValid _ _) ?_
  have hpos := length_pos_of_ne_nil h
  simp only [length_drop, headerSize]
  omega

def records (hashes : Hashes) (it : Iterator) : List (List UInt8 × Int) :=
  if _h : it.range = [] then []
  else (it.record, it.pos) :: records hashes (it.increment hashes)
termination_by it.range.length
decreasing_by exact length_increment hashes it _h

end Iterator

variable {needle l record : List UInt8}

lemma find_eq_none (h : find needle l = none) (q : Nat) : ¬ needle <+: l.drop q := by
  induction l generalizing q with
  | nil =>
    rw [find] at h
    split at h
    · cases h
    · rename_i hne
      rw [drop_nil, prefix_nil]
      exact hne
  | cons x xs ih =>
    rw [find] at h
    split at h
    · cases h
    · rename_i hprefix
      rw [Option.map_eq_none_iff] at h
      cases q with
      | zero => rwa [drop_zero, ← isPrefixOf_iff_prefix]
      | succ q => exact ih h q

variable {p q pos first last start stop : Nat}

lemma find_eq_some (h : find needle l = some p) :
    needle <+: l.drop p ∧ ∀ q < p, ¬ needle <+: l.drop q := by
  induction l generalizing p with
  | nil =>
    rw [find] at h
    split at h
    · rename_i hnil
      cases h
      rw [hnil]
      exact ⟨⟨_, rfl⟩, fun q hq => absurd hq (Nat.not_lt_zero q)⟩
    · cases h
  | cons x xs ih =>
    rw [find] at h
    split at h
    · rename_i hprefix
      cases h
      exact ⟨ isPrefixOf_iff_prefix.mp hprefix, fun q hq => absurd hq (Nat.not_lt_zero q)⟩
    · rename_i hprefix
      obtain ⟨p', hp', rfl⟩ := Option.map_eq_some_iff.mp h
      obtain ⟨hfound, hfirst⟩ := ih hp'
      refine ⟨hfound, fun q hq => ?_⟩
      cases q with
      | zero => rwa [drop_zero, ← isPrefixOf_iff_prefix]
      | succ q => exact hfirst q (Nat.lt_of_succ_lt_succ hq)

lemma magic_no_border (hp : magicRange <+: l.drop p)
    (hq : magicRange <+: l.drop q) (hlt : p < q) : p + 4 ≤ q := by
  by_contra hnear
  obtain ⟨k, rfl⟩ : ∃ k, q = p + k := ⟨q - p, by omega⟩
  obtain ⟨s, hs⟩ := hp
  rw [← drop_drop, ← hs] at hq
  have hk : k = 1 ∨ k = 2 ∨ k = 3 := by omega
  have hfirst : (List.drop k (magicRange ++ s)).head? = some 0x4d := by
    obtain ⟨s', hs'⟩ := hq
    rw [← hs']
    rfl
  rcases hk with rfl | rfl | rfl
  · cases hfirst
  · cases hfirst
  · cases hfirst

variable (hashes : Hashes)

def ValidAt (bytes : List UInt8) (fileId : UInt32) (pos : Nat) (record : List UInt8) : Prop :=
  (validateRecord hashes (bytes.drop pos) fileId).record = record ∧ record ≠ []

def NoneIn (bytes : List UInt8) (fileId : UInt32) (first last : Nat) : Prop :=
  ∀ q, first ≤ q → q < last → ∀ record, ¬ ValidAt hashes bytes fileId q record

inductive Greedy (bytes : List UInt8) (fileId : UInt32) : Nat → List (List UInt8 × Int) → Prop
  | done {first : Nat} (hnone : NoneIn hashes bytes fileId first bytes.length) :
      Greedy bytes fileId first []
  | next {first pos : Nat} {record : List UInt8} {rest : List (List UInt8 × Int)}
      (hle : first ≤ pos) (hvalid : ValidAt hashes bytes fileId pos record)
      (hleast : NoneIn hashes bytes fileId first pos)
      (hrest : Greedy bytes fileId (pos + headerSize + record.length) rest) :
      Greedy bytes fileId first ((record, (pos : Int)) :: rest)

variable {hashes} {bytes : List UInt8} {fileId : UInt32}

lemma magic_start {range : List UInt8} (hlen : 4 ≤ range.length)
    (h : (Header.ofBytes range).magic = kMagic) : magicRange <+: range := by
  match range, hlen with
  | a :: b :: c :: d :: rest, _ =>
    have hnat := congrArg UInt32.toNat h
    have hfield : field (a :: b :: c :: d :: rest) 0 4 =
        a.toNat + 256 * (b.toNat + 256 * (c.toNat + 256 * (d.toNat + 256 * 0))) := rfl
    have hmagic : kMagic.toNat = 0x9379e54d := rfl
    simp only [Header.ofBytes, hfield, UInt32.toNat_ofNat', hmagic] at hnat
    have ha := a.toNat_lt
    have hb := b.toNat_lt
    have hc := c.toNat_lt
    have hd := d.toNat_lt
    have ha' : a = 0x4d := by
      rw [← UInt8.toNat_inj]
      show a.toNat = 0x4d
      omega
    have hb' : b = 0xe5 := by
      rw [← UInt8.toNat_inj]
      show b.toNat = 0xe5
      omega
    have hc' : c = 0x79 := by
      rw [← UInt8.toNat_inj]
      show c.toNat = 0x79
      omega
    have hd' : d = 0x93 := by
      rw [← UInt8.toNat_inj]
      show d.toNat = 0x93
      omega
    rw [ha', hb', hc', hd']
    exact ⟨rest, rfl⟩

lemma ValidAt.inside (h : ValidAt hashes bytes fileId pos record) :
    magicRange <+: bytes.drop pos ∧ pos + headerSize + record.length ≤ bytes.length ∧
      (validateRecord hashes (bytes.drop pos) fileId).begin = headerSize := by
  obtain ⟨hrecord, hne⟩ := h
  rw [validateRecord] at hrecord ⊢
  split at hrecord
  · exact absurd hrecord.symm hne
  · rename_i hlen
    rw [if_neg hlen]
    simp only at hrecord ⊢
    split at hrecord
    · exact absurd hrecord.symm hne
    · rename_i hfields
      rw [if_neg hfields]
      split at hrecord
      · exact absurd hrecord.symm hne
      · rename_i hheader
        rw [if_neg hheader]
        split at hrecord
        · exact absurd hrecord.symm hne
        · rename_i hdata
          rw [if_neg hdata]
          simp only [not_or, not_not] at hfields
          rw [length_drop, headerSize] at hlen
          refine ⟨magic_start (by rw [length_drop]; omega) hfields.1, ?_, rfl⟩
          have hle : record.length ≤ ((bytes.drop pos).drop headerSize).length := by
            rw [← hrecord]
            exact (take_sublist _ _).length_le
          rw [length_drop, length_drop, headerSize] at hle
          rw [headerSize]
          omega

lemma noneIn_append {mid : Nat} (h : NoneIn hashes bytes fileId first mid)
    (h' : NoneIn hashes bytes fileId mid last) : NoneIn hashes bytes fileId first last := by
  intro q hfirst hlast
  rcases Nat.lt_or_ge q mid with hq | hq
  · exact h q hfirst hq
  · exact h' q hq hlast

def FoundFrom (hashes : Hashes) (bytes : List UInt8) (fileId : UInt32) (first : Nat)
    (r : RecordInfo) : Prop :=
  (r.record = [] ∧ NoneIn hashes bytes fileId first bytes.length) ∨
  ∃ pos, first ≤ pos ∧ r.begin = pos + headerSize ∧ ValidAt hashes bytes fileId pos r.record ∧
    NoneIn hashes bytes fileId first pos

lemma ValidAt.lt (h : ValidAt hashes bytes fileId pos record) :
    pos < bytes.length - headerSize := by
  have hpos := length_pos_of_ne_nil h.2
  have := h.inside.2.1
  omega

lemma magic_in_slice (hq : start ≤ q) (hstop : q ≤ stop) (h : magicRange <+: bytes.drop q) :
    magicRange <+: ((bytes.drop start).take (stop + 4 - start)).drop (q - start) := by
  rw [drop_take, drop_drop, Nat.add_sub_cancel' hq, prefix_take_iff]
  refine ⟨h, ?_⟩
  show 4 ≤ _
  omega

lemma noneIn_of_find (hashes : Hashes) (fileId : UInt32)
    (hstop : stop = bytes.length - headerSize)
    (h : find magicRange ((bytes.drop start).take (stop + 4 - start)) = some p) :
    magicRange <+: bytes.drop (start + p) ∧ NoneIn hashes bytes fileId start (start + p) := by
  obtain ⟨hfound, hfirst⟩ := find_eq_some h
  constructor
  · rw [drop_take, drop_drop] at hfound
    exact hfound.trans ( take_prefix _ _)
  · intro q hq hlast record hvalid
    have hlt := hvalid.lt
    exact hfirst (q - start) (by omega) (magic_in_slice hq (by omega) hvalid.inside.1)

lemma noneIn_magic (hmagic : magicRange <+: bytes.drop pos)
    (hnot : (validateRecord hashes (bytes.drop pos) fileId).record = []) :
    NoneIn hashes bytes fileId pos (pos + 4) := by
  intro q hq hlast record hvalid
  rcases Nat.eq_or_lt_of_le hq with rfl | hlt
  · rw [ValidAt, hnot] at hvalid
    exact hvalid.2 hvalid.1.symm
  · have := magic_no_border hmagic hvalid.inside.1 hlt
    omega

lemma findLoop_spec (stop start : Nat) (hstop : stop = bytes.length - headerSize) :
    FoundFrom hashes bytes fileId start (findLoop hashes bytes fileId stop start) := by
  fun_induction findLoop hashes bytes fileId stop start with
  | case1 start hlt hfind =>
    refine .inl ⟨rfl, fun q hq hlast record hvalid => ?_⟩
    have hlt := hvalid.lt
    exact find_eq_none hfind _ (magic_in_slice hq (by omega) hvalid.inside.1)
  | case2 start hlt p hfind r hr =>
    have hvalid : ValidAt hashes bytes fileId (start + p) r.record := ⟨rfl, hr⟩
    obtain ⟨hmagic, hnone⟩ := noneIn_of_find hashes fileId hstop hfind
    refine .inr ⟨start + p, Nat.le_add_right _ _, ?_, hvalid, hnone⟩
    exact congrArg (start + p + ·) hvalid.inside.2.2
  | case3 start hlt p hfind r hr ih =>
    obtain ⟨hmagic, hnone⟩ := noneIn_of_find hashes fileId hstop hfind
    have hpassed := noneIn_append hnone (noneIn_magic hmagic (not_not.mp hr))
    rcases ih with ⟨hnil, hrest⟩ | ⟨pos, hle, hbegin, hvalid, hrest⟩
    · exact .inl ⟨hnil, noneIn_append hpassed hrest⟩
    · exact .inr ⟨pos, by omega, hbegin, hvalid, noneIn_append hpassed hrest⟩
  | case4 start hge =>
    refine .inl ⟨rfl, fun q hq hlast record hvalid => ?_⟩
    have hlt := hvalid.lt
    omega

lemma findRecord_spec (hashes : Hashes) (bytes : List UInt8) (fileId : UInt32) :
    FoundFrom hashes bytes fileId 0 (findRecord hashes 0 bytes.length bytes fileId) :=
  findLoop_spec _ _ (Nat.min_eq_right (Nat.sub_le _ _))

lemma validAt_drop : ValidAt hashes (bytes.drop first) fileId pos record ↔
      ValidAt hashes bytes fileId (first + pos) record := by
  rw [ValidAt, ValidAt, drop_drop]

lemma noneIn_drop (h : NoneIn hashes (bytes.drop first) fileId 0 last) :
    NoneIn hashes bytes fileId first (first + last) := by
  intro q hq hlast record hvalid
  refine h (q - first) (Nat.zero_le _) (by omega) record (validAt_drop.mpr ?_)
  rwa [Nat.add_sub_cancel' hq]

lemma greedy_records (n first : Nat) (it : Iterator) (hn : it.range.length ≤ n)
    (hrange : it.range = bytes.drop first) (hid : it.fileId = fileId) (hpos : it.pos = first) :
    Greedy hashes bytes fileId first ((it.advanceToValid hashes).records hashes) := by
  induction n generalizing first it with
  | zero =>
    have hnil : it.range = [] := length_eq_zero_iff.mp (Nat.le_zero.mp hn)
    have hend : it.advanceToValid hashes = { it with range := [], record := [], pos := -1 } := by
      rcases findRecord_spec hashes it.range fileId with
        ⟨hrecord, -⟩ | ⟨pos, -, -, hvalid, -⟩
      · rw [Iterator.advanceToValid, hid, if_pos hrecord]
      · have := hvalid.lt
        omega
    rw [hend, Iterator.records, dif_pos rfl]
    refine .done fun q hq hlast record hvalid => ?_
    rw [hnil] at hrange
    have hle := drop_eq_nil_iff.mp hrange.symm
    omega
  | succ n ih =>
    have hfound := findRecord_spec hashes it.range fileId
    generalize hr : findRecord hashes 0 it.range.length it.range fileId = r at hfound
    rcases hfound with ⟨hrecord, hnone⟩ | ⟨pos, -, hbegin, hvalid, hnone⟩
    · rw [Iterator.advanceToValid, hid, hr, if_pos hrecord, Iterator.records, dif_pos rfl]
      rw [hrange, length_drop] at hnone
      refine .done fun q hq hlast => noneIn_drop hnone q hq (by omega)
    · rw [hrange] at hvalid hnone
      have hskipped : r.begin - headerSize = pos := by omega
      have hinside := hvalid.inside.2.1
      have hlt := hvalid.lt
      rw [length_drop] at hinside hlt
      have hne : it.range.drop pos ≠ [] := by
        rw [hrange, drop_drop, Ne, drop_eq_nil_iff]
        omega
      rw [Iterator.advanceToValid, hid, hr, if_neg hvalid.2, hskipped, Iterator.records, dif_neg hne]
      simp only [hpos]
      have hcast : ((first : Int) + (pos : Int)) = ((first + pos : Nat) : Int) := by omega
      refine .next (Nat.le_add_right _ _) (validAt_drop.mp hvalid) (noneIn_drop hnone) ?_
      refine ih (first + pos + headerSize + r.record.length) _ ?_ ?_ rfl ?_
      · simp only [length_drop, headerSize]
        omega
      · simp only [hrange, drop_drop]
        congr 1
        omega
      · simp only
        omega

lemma Greedy.positions {l : List (List UInt8 × Int)} (h : Greedy hashes bytes fileId first l) :
    (∀ x ∈ l, (first : Int) ≤ x.2) ∧ (l.map Prod.snd).Pairwise (· < ·) := by
  induction h with
  | done => exact ⟨fun _ hx => (nomatch hx), List.Pairwise.nil⟩
  | @next first pos record rest hle hvalid _ _ ih =>
    have hpos := length_pos_of_ne_nil hvalid.2
    constructor
    · intro x hx
      rcases mem_cons.mp hx with rfl | hx
      · exact Int.ofNat_le.mpr hle
      · have := ih.1 x hx
        omega
    · refine List.Pairwise.cons ?_ ih.2
      intro p hp
      obtain ⟨x, hx, rfl⟩ := mem_map.mp hp
      have := ih.1 x hx
      omega

lemma records_eq_iterate (n : Nat) (it : Iterator) (hn : it.range.length ≤ n) :
    ∃ m, ((Iterator.increment hashes)^[m] it).range = [] ∧
      it.records hashes = (List.range m).map fun k =>
        (((Iterator.increment hashes)^[k] it).record, ((Iterator.increment hashes)^[k] it).pos) := by
  induction n generalizing it with
  | zero =>
    have hnil : it.range = [] := length_eq_zero_iff.mp (Nat.le_zero.mp hn)
    refine ⟨0, hnil, ?_⟩
    rw [Iterator.records, dif_pos hnil]
    rfl
  | succ n ih =>
    by_cases hnil : it.range = []
    · refine ⟨0, hnil, ?_⟩
      rw [Iterator.records, dif_pos hnil]
      rfl
    · have hlt := Iterator.length_increment hashes it hnil
      obtain ⟨m, hend, hrecords⟩ := ih (it.increment hashes) (by omega)
      refine ⟨m + 1, hend, ?_⟩
      rw [Iterator.records, dif_neg hnil, hrecords, range_succ_eq_map, map_cons,
        map_map]
      rfl

lemma seek_greedy (hashes : Hashes) (bytes : List UInt8) (fileId : UInt32) :
    Greedy hashes bytes fileId 0 ((Iterator.seek hashes bytes fileId 0).records hashes) := by
  rw [Iterator.seek]
  split
  · rename_i hend
    rw [Iterator.records, dif_pos rfl]
    refine .done fun q _ hlast => ?_
    omega
  · exact greedy_records _ 0 ⟨bytes, fileId, [], 0⟩ (le_refl _) rfl rfl rfl

theorem reader_greedy (hashes : Hashes) (bytes : List UInt8) (fileId : UInt32) :
    Greedy hashes bytes fileId 0 ((Iterator.seek hashes bytes fileId 0).records hashes) ∧
    (((Iterator.seek hashes bytes fileId 0).records hashes).map Prod.snd).Pairwise (· < ·) ∧
    ∃ m, ((Iterator.increment hashes)^[m] (Iterator.seek hashes bytes fileId 0)).range = [] ∧
      (Iterator.seek hashes bytes fileId 0).records hashes = (List.range m).map fun k =>
        (((Iterator.increment hashes)^[k] (Iterator.seek hashes bytes fileId 0)).record,
          ((Iterator.increment hashes)^[k] (Iterator.seek hashes bytes fileId 0)).pos) :=
  ⟨seek_greedy hashes bytes fileId, (seek_greedy hashes bytes fileId).positions.2,
    records_eq_iterate _ _ (le_refl _)⟩

end Acc.Io.RecordIO
