import Accelerator.Io.RecordIO

namespace Acc.Io.RecordIO

open List UInt32

open Cursor (littleValue)

def dataLengthAndHash (hashes : Hashes) (buf : List (List UInt8)) : Except String (Nat × UInt64) :=
  let len := (buf.map List.length).sum
  if len + headerSize ≥ 4294967295 then .error "Record length must fit in 32 bits"
  else .ok (len, hashes.pieces buf)

def makeHeader (hashes : Hashes) (fileId : UInt32) (len : Nat) (hash : UInt64) : Header :=
  let header : Header :=
    { magic := kMagic, fileId, dataLength := ofNat len, dataHash := hash, headerHash := 0 }
  { header with headerHash := hashes.header (header.toBytes.take 24) }

def prependHeader (hashes : Hashes) (fileId : UInt32) (headroom : Nat) (buf : List (List UInt8)) :
    Except String (Nat × List (List UInt8)) :=
  if fileId = 0 then .error "invalid file id"
  else
    match dataLengthAndHash hashes buf with
    | .error e => .error e
    | .ok (len, hash) =>
      if len = 0 then .ok (0, buf)
      else
        let header := (makeHeader hashes fileId len hash).toBytes
        .ok (len + headerSize,
          if headroom ≥ headerSize then (header ++ buf.headD []) :: buf.tail else header :: buf)

def pwrite (file : List UInt8) (pos : Nat) (bytes : List UInt8) : List UInt8 :=
  let file := file ++ List.replicate (pos - file.length) 0
  file.take pos ++ bytes ++ file.drop (pos + bytes.length)

structure Reservation where
  pos : Nat
  bytes : List UInt8
  done : Nat := 0
  deriving DecidableEq, Repr

structure Writer where
  fileId : UInt32
  filePos : Nat := 0
  file : List UInt8 := []
  calls : List Reservation := []
  deriving DecidableEq, Repr

namespace Writer

def write (hashes : Hashes) (w : Writer) (headroom : Nat) (buf : List (List UInt8)) :
    Except String Writer :=
  match prependHeader hashes w.fileId headroom buf with
  | .error e => .error e
  | .ok (totalLength, iov) =>
    if totalLength = 0 then .ok w
    else
      .ok { w with
        filePos := w.filePos + totalLength
        calls := w.calls ++ [{ pos := w.filePos, bytes := iov.flatten }] }

def progress (w : Writer) (i : Nat) (r : Reservation) (n : Nat) : Writer :=
  { w with
    file := pwrite w.file (r.pos + r.done) ((r.bytes.drop r.done).take n)
    calls := w.calls.set i { r with done := r.done + n } }

inductive Run (hashes : Hashes) (fileId : UInt32) : List (List UInt8 × Nat) → Writer → Prop
  | start : Run hashes fileId [] { fileId }
  | reserve {log : List (List UInt8 × Nat)} {w w' : Writer} (h : Run hashes fileId log w)
      {headroom : Nat} {buf : List (List UInt8)} (hne : buf.flatten ≠ [])
      (hwrite : w.write hashes headroom buf = .ok w') :
      Run hashes fileId (log ++ [(buf.flatten, w.filePos)]) w'
  | progress {log : List (List UInt8 × Nat)} {w : Writer} (h : Run hashes fileId log w)
      {i : Nat} {r : Reservation} (hr : w.calls[i]? = some r) {n : Nat} (hpos : 0 < n)
      (hn : r.done + n ≤ r.bytes.length) : Run hashes fileId log (w.progress i r n)

end Writer

variable {n j pos : Nat}

lemma littleValue_toLittle {size : Nat} (h : n < 256 ^ size) :
    littleValue (toLittle size n) = n := by
  induction size generalizing n with
  | zero =>
    rw [Nat.pow_zero, Nat.lt_one_iff] at h
    rw [h]
    rfl
  | succ size ih =>
    have hdiv : n / 256 < 256 ^ size := by
      rw [Nat.div_lt_iff_lt_mul (by decide), ← Nat.pow_succ]
      exact h
    rw [toLittle, littleValue, ih hdiv, UInt8.toNat_ofNat']
    omega

lemma ofBytes_toBytes (h : Header) (rest : List UInt8) :
    Header.ofBytes (h.toBytes ++ rest) = h := by
  have hfields : Header.ofBytes (h.toBytes ++ rest) =
      { magic := ofNat (littleValue (toLittle 4 h.magic.toNat))
        version := UInt8.ofNat (littleValue (toLittle 1 h.version.toNat))
        hashFunction := UInt8.ofNat (littleValue (toLittle 1 h.hashFunction.toNat))
        flags := UInt16.ofNat (littleValue (toLittle 2 h.flags.toNat))
        fileId := ofNat (littleValue (toLittle 4 h.fileId.toNat))
        dataLength := ofNat (littleValue (toLittle 4 h.dataLength.toNat))
        dataHash := UInt64.ofNat (littleValue (toLittle 8 h.dataHash.toNat))
        headerHash := ofNat (littleValue (toLittle 4 h.headerHash.toNat)) } := rfl
  have h32 : ∀ x : UInt32, ofNat (littleValue (toLittle 4 x.toNat)) = x := by
    intro x
    rw [littleValue_toLittle (lt_of_lt_of_le x.toNat_lt (by decide)), UInt32.ofNat_toNat]
  have h8 : ∀ x : UInt8, UInt8.ofNat (littleValue (toLittle 1 x.toNat)) = x := by
    intro x
    rw [littleValue_toLittle (lt_of_lt_of_le x.toNat_lt (by decide)), UInt8.ofNat_toNat]
  have h16 : UInt16.ofNat (littleValue (toLittle 2 h.flags.toNat)) = h.flags := by
    rw [littleValue_toLittle (lt_of_lt_of_le h.flags.toNat_lt (by decide)), UInt16.ofNat_toNat]
  have h64 : UInt64.ofNat (littleValue (toLittle 8 h.dataHash.toNat)) = h.dataHash := by
    rw [littleValue_toLittle (lt_of_lt_of_le h.dataHash.toNat_lt (by decide)), UInt64.ofNat_toNat]
  rw [hfields, h32, h32, h32, h32, h8, h8, h16, h64]

def frame (hashes : Hashes) (fileId : UInt32) (data : List UInt8) : List UInt8 :=
  (makeHeader hashes fileId data.length (hashes.data data)).toBytes ++ data

lemma length_toBytes (h : Header) : h.toBytes.length = headerSize := rfl

lemma length_frame (hashes : Hashes) (fileId : UInt32) (data : List UInt8) :
    (frame hashes fileId data).length = headerSize + data.length := by
  rw [frame, length_append, length_toBytes]

lemma validateRecord_frame (hashes : Hashes) {fileId readerId : UInt32} {data : List UInt8}
    (hid : readerId = fileId ∨ readerId = 0) (hne : data ≠ [])
    (hsmall : data.length + headerSize < 4294967295) (rest : List UInt8) :
    (validateRecord hashes (frame hashes fileId data ++ rest) readerId).record = data := by
  have hpos := length_pos_of_ne_nil hne
  have hlen : ¬ (frame hashes fileId data ++ rest).length ≤ headerSize := by
    rw [length_append, length_frame]
    omega
  have hheader : Header.ofBytes (frame hashes fileId data ++ rest) =
      makeHeader hashes fileId data.length (hashes.data data) := by
    rw [frame, append_assoc, ofBytes_toBytes]
  have hdrop : (frame hashes fileId data ++ rest).drop headerSize = data ++ rest := by
    simp [frame, drop_append_of_le_length (length_toBytes _).ge, drop_of_length_le (length_toBytes _).le]
  have htake : (frame hashes fileId data ++ rest).take 24 =
      (makeHeader hashes fileId data.length (hashes.data data)).toBytes.take 24 := by
    rw [frame, append_assoc, take_append_of_le_length (by rw [length_toBytes]; decide)]
  have hdataLength : (makeHeader hashes fileId data.length (hashes.data data)).dataLength.toNat =
      data.length := by
    show (ofNat data.length).toNat = data.length
    rw [toNat_ofNat', Nat.mod_eq_of_lt]
    omega
  rw [validateRecord, if_neg hlen]
  simp only [hheader, hdrop, htake, hdataLength]
  rw [if_neg, if_neg, take_append_of_le_length (le_refl _), take_length, if_neg]
  · exact not_not.mpr rfl
  · exact not_not.mpr rfl
  rintro (h | h | h | h | h | h)
  · exact h rfl
  · exact h rfl
  · exact h rfl
  · exact h rfl
  · rcases hid with rfl | rfl
    · exact h.2 rfl
    · exact h.1 rfl
  · rw [length_append] at h
    omega

variable {buf : List (List UInt8)}

lemma write_eq {hashes : Hashes} (hpieces : ∀ buf, hashes.pieces buf = hashes.data buf.flatten)
    {w w' : Writer} {headroom : Nat} (hne : buf.flatten ≠ [])
    (h : w.write hashes headroom buf = .ok w') : buf.flatten.length + headerSize < 4294967295 ∧
    w' = { w with
      filePos := w.filePos + (frame hashes w.fileId buf.flatten).length
      calls := w.calls ++ [{ pos := w.filePos, bytes := frame hashes w.fileId buf.flatten }] } := by
  have hlen : (buf.map List.length).sum = buf.flatten.length := length_flatten.symm
  have hpos := length_pos_of_ne_nil hne
  rw [Writer.write, prependHeader] at h
  split at h
  · cases h
  rename_i totalLength iov hprepend
  split at hprepend
  · cases hprepend
  rw [dataLengthAndHash, hlen] at hprepend
  split at hprepend
  · cases hprepend
  rename_i len hash hdata
  split at hdata
  · cases hdata
  rename_i hsmall
  cases hdata
  rw [if_neg (by omega), hpieces] at hprepend
  cases hprepend
  cases h
  refine ⟨by omega, ?_⟩
  have hflatten : (if headroom ≥ headerSize then
      ((makeHeader hashes w.fileId buf.flatten.length (hashes.data buf.flatten)).toBytes ++
        buf.headD []) :: buf.tail
      else (makeHeader hashes w.fileId buf.flatten.length
        (hashes.data buf.flatten)).toBytes :: buf).flatten =
      frame hashes w.fileId buf.flatten := by
    split
    · cases buf with
      | nil => exact absurd rfl hne
      | cons first rest => rw [frame]; simp
    · rw [frame, flatten_cons]
  rw [hflatten, length_frame, Nat.add_comm headerSize]

lemma write_ok (hashes : Hashes) {w : Writer} (hid : w.fileId ≠ 0) (headroom : Nat) (hsmall : buf.flatten.length + headerSize < 4294967295) :
    ∃ w', w.write hashes headroom buf = .ok w' := by
  have hlen : (buf.map List.length).sum = buf.flatten.length := length_flatten.symm
  rw [Writer.write, prependHeader, if_neg hid, dataLengthAndHash, hlen, if_neg (by omega)]
  simp only
  split
  · rename_i e he
    split at he <;> cases he
  · split
    · exact ⟨_, rfl⟩
    · exact ⟨_, rfl⟩

lemma length_pwrite (file : List UInt8) (pos : Nat) (bytes : List UInt8) :
    (pwrite file pos bytes).length = max file.length (pos + bytes.length) := by
  simp only [pwrite, length_append, length_take, length_drop, length_replicate]
  omega

lemma getElem?_pwrite_in (file : List UInt8) (pos : Nat) (bytes : List UInt8)
    (hj : j < bytes.length) : (pwrite file pos bytes)[pos + j]? = bytes[j]? := by
  have hlen : ((file ++ List.replicate (pos - file.length) 0).take pos).length = pos := by
    simp only [length_take, length_append, length_replicate]
    omega
  rw [pwrite, append_assoc, getElem?_append_right (by omega), hlen,
    Nat.add_sub_cancel_left, getElem?_append_left hj]

variable {file bytes : List UInt8}

lemma getElem?_pwrite_out (hj : j < pos ∨ pos + bytes.length ≤ j) (hfile : j < file.length) :
    (pwrite file pos bytes)[j]? = file[j]? := by
  have hpad : (file ++ List.replicate (pos - file.length) 0)[j]? = file[j]? :=
    getElem?_append_left hfile
  have hlen : ((file ++ List.replicate (pos - file.length) 0).take pos).length = pos := by
    simp only [length_take, length_append, length_replicate]
    omega
  rw [pwrite]
  rcases hj with hj | hj
  · rw [append_assoc, getElem?_append_left (by omega), getElem?_take_of_lt hj, hpad]
  · rw [getElem?_append_right (by rw [length_append, hlen]; exact hj),
      length_append, hlen, getElem?_drop, Nat.add_sub_cancel' hj, hpad]

structure Filled (file : List UInt8) (r : Reservation) : Prop where
  done_le : r.done ≤ r.bytes.length
  written : ∀ k < r.done, file[r.pos + k]? = r.bytes[k]?

lemma Filled.pwrite_out {r : Reservation} (h : Filled file r)
    (hout : r.pos + r.bytes.length ≤ pos ∨ pos + bytes.length ≤ r.pos) :
    Filled (pwrite file pos bytes) r := by
  refine ⟨h.done_le, fun k hk => ?_⟩
  have hle := h.done_le
  have hwritten := h.written k hk
  have hfile : r.pos + k < file.length := by
    rw [List.getElem?_eq_getElem (by omega : k < r.bytes.length)] at hwritten
    exact (List.getElem?_eq_some_iff.mp hwritten).1
  rw [getElem?_pwrite_out (by omega) hfile]
  exact hwritten

lemma Filled.progress {r : Reservation} (h : Filled file r) (hn : r.done + n ≤ r.bytes.length) :
    Filled (pwrite file (r.pos + r.done) ((r.bytes.drop r.done).take n))
      { r with done := r.done + n } := by
  have hlen : ((r.bytes.drop r.done).take n).length = n := by
    rw [length_take, length_drop]
    omega
  refine ⟨hn, fun k hk => ?_⟩
  rcases Nat.lt_or_ge k r.done with hlt | hge
  · have hwritten := h.written k hlt
    have hfile : r.pos + k < file.length := by
      rw [List.getElem?_eq_getElem (by omega : k < r.bytes.length)] at hwritten
      exact (List.getElem?_eq_some_iff.mp hwritten).1
    rw [getElem?_pwrite_out (.inl (by omega)) hfile]
    exact hwritten
  obtain ⟨j, rfl⟩ : ∃ j, k = r.done + j := ⟨k - r.done, by omega⟩
  have hj : j < n := by
    simp only at hk
    omega
  rw [← Nat.add_assoc, getElem?_pwrite_in _ _ _ (by omega), getElem?_take_of_lt hj,
    getElem?_drop]

def places (first : Nat) : List (List UInt8) → List (List UInt8 × Nat)
  | [] => []
  | d :: ds => (d, first) :: places (first + (headerSize + d.length)) ds

def total (ds : List (List UInt8)) : Nat := (ds.map fun d => headerSize + d.length).sum

lemma places_append (first : Nat) (ds : List (List UInt8)) (d : List UInt8) :
    places first (ds ++ [d]) = places first ds ++ [(d, first + total ds)] := by
  induction ds generalizing first with
  | nil => rfl
  | cons d' ds ih =>
    rw [cons_append, places, ih, places, cons_append, total, total, map_cons,
      sum_cons, Nat.add_assoc first]

lemma mem_places {first : Nat} {ds : List (List UInt8)} {x : List UInt8 × Nat}
    (h : x ∈ places first ds) :
    first ≤ x.2 ∧ x.2 + (headerSize + x.1.length) ≤ first + total ds := by
  induction ds generalizing first with
  | nil => cases h
  | cons d ds ih =>
    have htotal : total (d :: ds) = headerSize + d.length + total ds := rfl
    rcases mem_cons.mp h with rfl | h
    · simp only
      omega
    · have := ih h
      omega

lemma pairwise_places (first : Nat) (ds : List (List UInt8)) :
    (places first ds).Pairwise fun x y => x.2 + (headerSize + x.1.length) ≤ y.2 := by
  induction ds generalizing first with
  | nil => exact List.Pairwise.nil
  | cons d ds ih =>
    refine List.Pairwise.cons ?_ (ih _)
    intro x hx
    exact (mem_places hx).1

section Frames

variable {hashes : Hashes} {fileId : UInt32}

lemma drop_eq_of_places {file : List UInt8} (ds : List (List UInt8)) (first : Nat)
    (hplaces : ∀ x ∈ places first ds, ∀ k < (frame hashes fileId x.1).length,
      file[x.2 + k]? = (frame hashes fileId x.1)[k]?) (hlen : file.length ≤ first + total ds) :
    file.drop first = (ds.map (frame hashes fileId)).flatten := by
  induction ds generalizing first with
  | nil => exact drop_of_length_le hlen
  | cons d ds ih =>
    have hhead := hplaces (d, first) mem_cons_self
    have hrest := ih (first + (headerSize + d.length))
      (fun x hx => hplaces x (mem_cons_of_mem _ hx))
      (by rw [Nat.add_assoc]; exact hlen)
    have htake : (file.drop first).take (headerSize + d.length) = frame hashes fileId d := by
      refine ext_getElem? fun k => ?_
      rcases Nat.lt_or_ge k (headerSize + d.length) with hk | hk
      · rw [getElem?_take_of_lt hk, getElem?_drop]
        exact hhead k (by rw [length_frame]; exact hk)
      · rw [getElem?_eq_none (by rw [length_take]; omega),
          getElem?_eq_none (by rw [length_frame]; exact hk)]
    rw [map_cons, flatten_cons, ← hrest, ← htake, ← drop_drop,
      take_append_drop]

variable {l : List (List UInt8 × Int)}

lemma Greedy.head {bytes : List UInt8} {first : Nat}
    {record : List UInt8} (h : Greedy hashes bytes fileId first l)
    (hvalid : ValidAt hashes bytes fileId first record) :
    ∃ rest, l = (record, (first : Int)) :: rest ∧
      Greedy hashes bytes fileId (first + (headerSize + record.length)) rest := by
  cases h with
  | done hnone =>
    have := hvalid.inside.2.1
    have := length_pos_of_ne_nil hvalid.2
    exact absurd hvalid (hnone first (le_refl _) (by omega) record)
  | @next _ pos record' rest hle hvalid' hleast hrest =>
    have hpos : pos = first := by
      by_contra hne
      exact hleast first (le_refl _) (by omega) record hvalid
    subst hpos
    have hrecord : record' = record := hvalid'.1.symm.trans hvalid.1
    subst hrecord
    rw [Nat.add_assoc] at hrest
    exact ⟨rest, rfl, hrest⟩

lemma Greedy.eq_places {bytes : List UInt8} {readerId : UInt32}
    (hid : readerId = fileId ∨ readerId = 0) (ds : List (List UInt8))
    (hds : ∀ d ∈ ds, d ≠ [] ∧ d.length + headerSize < 4294967295) (first : Nat) (h : Greedy hashes bytes readerId first l)
    (hbytes : bytes.drop first = (ds.map (frame hashes fileId)).flatten) :
    l = (places first ds).map fun x => (x.1, (x.2 : Int)) := by
  induction ds generalizing first l with
  | nil =>
    have hend : bytes.length ≤ first := drop_eq_nil_iff.mp hbytes
    cases h with
    | done => rfl
    | next hle hvalid _ _ =>
      have := hvalid.lt
      omega
  | cons d ds ih =>
    obtain ⟨hne, hsmall⟩ := hds d mem_cons_self
    rw [map_cons, flatten_cons] at hbytes
    have hvalid : ValidAt hashes bytes readerId first d := by
      refine ⟨?_, hne⟩
      rw [hbytes]
      exact validateRecord_frame hashes hid hne hsmall _
    obtain ⟨rest, rfl, hrest⟩ := h.head hvalid
    have htail : bytes.drop (first + (headerSize + d.length)) =
        (ds.map (frame hashes fileId)).flatten := by
      rw [← drop_drop, hbytes, ← length_frame hashes fileId d, drop_left]
    rw [ih (fun d' hd' => hds d' (mem_cons_of_mem _ hd')) _ hrest htail]
    rfl

def Reservation.place (r : Reservation) : Nat × List UInt8 := (r.pos, r.bytes)

structure Writer.Inv (hashes : Hashes) (fileId : UInt32) (log : List (List UInt8 × Nat))
    (w : Writer) : Prop where
  sameId : w.fileId = fileId
  places : log = places 0 (log.map Prod.fst)
  records : ∀ d ∈ log.map Prod.fst, d ≠ [] ∧ d.length + headerSize < 4294967295
  calls : w.calls.map Reservation.place = log.map fun x => (x.2, frame hashes fileId x.1)
  filePos : w.filePos = total (log.map Prod.fst)
  length_le : w.file.length ≤ w.filePos
  filled : ∀ r ∈ w.calls, Filled w.file r

variable {log : List (List UInt8 × Nat)} {w : Writer}

lemma Writer.Inv.call
    (h : w.Inv hashes fileId log) {i : Nat} {r : Reservation} (hr : w.calls[i]? = some r) :
    ∃ x, log[i]? = some x ∧ r.pos = x.2 ∧ r.bytes = frame hashes fileId x.1 := by
  have hi := congrArg (·[i]?) h.calls
  simp only [getElem?_map, hr, Option.map_some] at hi
  obtain ⟨x, hx, heq⟩ := Option.map_eq_some_iff.mp hi.symm
  rw [Reservation.place, Prod.mk.injEq] at heq
  exact ⟨x, hx, heq.1.symm, heq.2.symm⟩

lemma Writer.Inv.apart
    (h : w.Inv hashes fileId log) {i j : Nat} {r r' : Reservation} (hr : w.calls[i]? = some r)
    (hr' : w.calls[j]? = some r') (hij : i < j) : r.pos + r.bytes.length ≤ r'.pos := by
  obtain ⟨x, hx, hpos, hbytes⟩ := h.call hr
  obtain ⟨y, hy, hpos', -⟩ := h.call hr'
  have hpair := pairwise_places 0 (log.map Prod.fst)
  rw [← h.places] at hpair
  obtain ⟨hi, rfl⟩ := List.getElem?_eq_some_iff.mp hx
  obtain ⟨hj, rfl⟩ := List.getElem?_eq_some_iff.mp hy
  have := List.pairwise_iff_getElem.mp hpair i j hi hj hij
  rw [hpos, hpos', hbytes, length_frame]
  exact this

lemma Writer.Inv.reserve (hpieces : ∀ buf, hashes.pieces buf = hashes.data buf.flatten) {w' : Writer} (h : w.Inv hashes fileId log) {headroom : Nat}
    {buf : List (List UInt8)} (hne : buf.flatten ≠ [])
    (hwrite : w.write hashes headroom buf = .ok w') :
    w'.Inv hashes fileId (log ++ [(buf.flatten, w.filePos)]) := by
  obtain ⟨hsmall, rfl⟩ := write_eq hpieces hne hwrite
  refine ⟨h.sameId, ?_, ?_, ?_, ?_, ?_, ?_⟩
  · simp [places_append, ← h.places, ← h.filePos]
  · intro d hd
    rw [map_append] at hd
    rcases mem_append.mp hd with hd | hd
    · exact h.records d hd
    · rw [mem_singleton.mp hd]
      exact ⟨hne, hsmall⟩
  · rw [map_append, map_append, h.calls, h.sameId]
    rfl
  · rw [length_frame, h.filePos, map_append, total, total, map_append, sum_append]
    rfl
  · exact le_trans h.length_le (Nat.le_add_right _ _)
  intro r hr
  rcases mem_append.mp hr with hr | hr
  · exact h.filled r hr
  · rw [mem_singleton.mp hr]
    exact ⟨Nat.zero_le _, fun k hk => absurd hk (Nat.not_lt_zero k)⟩

lemma Writer.Inv.progress
    (h : w.Inv hashes fileId log) {i : Nat} {r : Reservation} (hr : w.calls[i]? = some r) {n : Nat}
    (hn : r.done + n ≤ r.bytes.length) : (w.progress i r n).Inv hashes fileId log := by
  have hmem := mem_of_getElem? hr
  have hlen : ((r.bytes.drop r.done).take n).length = n := by
    rw [length_take, length_drop]
    omega
  refine ⟨h.sameId, h.places, h.records, ?_, h.filePos, ?_, ?_⟩
  · show (w.calls.set i { r with done := r.done + n }).map Reservation.place = _
    rw [map_set, ← h.calls]
    refine ext_getElem? fun j => ?_
    rw [getElem?_set]
    split
    · rename_i hij
      subst hij
      split
      · rw [getElem?_map, hr]
        rfl
      · rename_i hlt
        rw [getElem?_eq_none (Nat.le_of_not_lt hlt)]
    · rfl
  · obtain ⟨x, hx, hpos, hbytes⟩ := h.call hr
    have hx' : x ∈ RecordIO.places 0 (log.map Prod.fst) := by
      rw [← h.places]
      exact mem_of_getElem? hx
    have hend := (mem_places hx').2
    rw [Writer.progress]
    simp only
    rw [length_pwrite, hlen]
    have hle := h.length_le
    have hfilePos := h.filePos
    rw [hbytes, length_frame] at hn
    omega
  intro r' hr'
  obtain ⟨j, hj⟩ := mem_iff_getElem?.mp hr'
  simp only [Writer.progress, getElem?_set] at hj
  split at hj
  · split at hj
    · cases hj
      exact (h.filled r hmem).progress hn
    · cases hj
  rename_i hij
  refine (h.filled r' (mem_of_getElem? hj)).pwrite_out ?_
  rcases Nat.lt_or_gt_of_ne hij with hlt | hgt
  · have := h.apart hr hj hlt
    exact .inr (by omega)
  · have := h.apart hj hr hgt
    exact .inl (by omega)

lemma Writer.Run.inv (hpieces : ∀ buf, hashes.pieces buf = hashes.data buf.flatten) (h : Writer.Run hashes fileId log w) :
    w.Inv hashes fileId log := by
  induction h with
  | start =>
    exact ⟨rfl, rfl, fun _ h => (nomatch h), rfl, rfl, Nat.zero_le _, fun _ h => (nomatch h)⟩
  | reserve _ hne hwrite ih => exact ih.reserve hpieces hne hwrite
  | progress _ hr _ hn ih => exact ih.progress hr hn

lemma Writer.Inv.file_eq
    (h : w.Inv hashes fileId log) (hdone : ∀ r ∈ w.calls, r.done = r.bytes.length) :
    w.file = ((log.map Prod.fst).map (frame hashes fileId)).flatten := by
  refine drop_eq_of_places (log.map Prod.fst) 0 ?_ ?_
  · intro x hx k hk
    rw [← h.places] at hx
    obtain ⟨i, hi⟩ := mem_iff_getElem?.mp hx
    have hcall := congrArg (·[i]?) h.calls
    simp only [getElem?_map, hi, Option.map_some] at hcall
    obtain ⟨r, hr, heq⟩ := Option.map_eq_some_iff.mp hcall
    rw [Reservation.place, Prod.mk.injEq] at heq
    have hmem := mem_of_getElem? hr
    rw [← heq.1, ← heq.2]
    exact (h.filled r hmem).written k (by rw [hdone r hmem, heq.2]; exact hk)
  · have := h.length_le
    rw [h.filePos] at this
    omega

theorem round_trip (hpieces : ∀ buf, hashes.pieces buf = hashes.data buf.flatten)
    (hid : fileId ≠ 0) {log : List (List UInt8 × Nat)} {w : Writer}
    (h : Writer.Run hashes fileId log w) :
    ((∀ r ∈ w.calls, r.done = r.bytes.length) → ∀ readerId, readerId = fileId ∨ readerId = 0 →
      (Iterator.seek hashes w.file readerId 0).records hashes =
        log.map fun x => (x.1, (x.2 : Int))) ∧
    ∀ headroom buf, buf.flatten ≠ [] → buf.flatten.length + headerSize < 4294967295 →
      ∃ w', w.write hashes headroom buf = .ok w' ∧
        Writer.Run hashes fileId (log ++ [(buf.flatten, w.filePos)]) w' := by
  have hinv := h.inv hpieces
  constructor
  · intro hdone readerId hreader
    have hfile := hinv.file_eq hdone
    have hgreedy :
        Greedy hashes w.file readerId 0 ((Iterator.seek hashes w.file readerId 0).records hashes) :=
      (seek_greedy hashes w.file readerId)
    rw [hgreedy.eq_places hreader (log.map Prod.fst) hinv.records 0 hfile, ← hinv.places]
  · intro headroom buf hne hsmall
    obtain ⟨w', hw'⟩ := write_ok hashes (by rw [hinv.sameId]; exact hid) headroom hsmall
    exact ⟨w', hw', h.reserve hne hw'⟩

end Frames

def lengthHashes : Hashes where
  header _ := 7
  data l := UInt64.ofNat l.length
  pieces l := UInt64.ofNat l.flatten.length

def outOfOrder : Writer :=
  let first := { pos := 0, bytes := frame lengthHashes 1 [1] : Reservation }
  let second := { pos := 29, bytes := frame lengthHashes 1 [2, 3] : Reservation }
  Writer.progress
    (Writer.progress { fileId := 1, filePos := 59, calls := [first, second] } 1 second 30)
    0 first 29

theorem round_trip_outOfOrder :
    (Iterator.seek lengthHashes outOfOrder.file 0 0).records lengthHashes =
      [([1], 0), ([2, 3], 29)] := by
  have h₁ : Writer.Run lengthHashes 1 [([1], 0)] _ :=
    Writer.Run.start.reserve (by decide)
      (show ({ fileId := 1 } : Writer).write lengthHashes 0 [[1]] = .ok _ from rfl)
  have h₂ : Writer.Run lengthHashes 1 [([1], 0), ([2, 3], 29)] _ :=
    h₁.reserve (by decide) (show Writer.write lengthHashes _ 28 [[2], [3]] = .ok _ from rfl)
  have h₃ := (h₂.progress (i := 1) rfl (n := 30) (by decide) (by decide)).progress (i := 0) rfl
    (n := 29) (by decide) (by decide)
  exact (round_trip (fun _ => rfl) (by decide) (show Writer.Run _ _ _ outOfOrder from h₃)).1
    (by decide) 0 (.inr rfl)

end Acc.Io.RecordIO
