import Accelerator.Json.Strings

namespace Acc.Json

open List Acc.Dynamic

open Conv Unicode Input

def hexDigit (c : Nat) : UInt8 :=
  if c < 10 then UInt8.ofNat (c + 48) else UInt8.ofNat (c - 10 + 97)

def escapeByte (c : UInt8) : List UInt8 :=
  if c == 92 || c == 34 then [92, c]
  else if c ≤ 0x1f then
    if c == 8 then [92, 98]
    else if c == 12 then [92, 102]
    else if c == 10 then [92, 110]
    else if c == 13 then [92, 114]
    else if c == 9 then [92, 116]
    else [92, 117, 48, 48, hexDigit ((c &&& 0xf0) >>> 4).toNat, hexDigit (c &&& 0xf).toNat]
  else [c]

def escapeCodePoint (v : UInt32) : List UInt8 :=
  [92, 117, hexDigit (v >>> 12).toNat, hexDigit ((v >>> 8) &&& 0x0f).toNat,
    hexDigit ((v >>> 4) &&& 0x0f).toNat, hexDigit (v &&& 0x0f).toNat]

def decodeUtf8 (opts : SerializationOpts) (p : List UInt8) :
    Except Error (UInt32 × List UInt8) :=
  match decode "acc::decodeUtf8" p opts.skipInvalidUtf8 with
  | .ok r => .ok r
  | .error e => .error (.decode e)

def validate (opts : SerializationOpts) (p : List UInt8) (ahead : Nat) :
    Except Error (List UInt8 ⊕ Nat) :=
  if (opts.validateUtf8 || opts.skipInvalidUtf8) && !opts.encodeNonAscii && ahead == 0 then
    match decodeUtf8 opts p with
    | .error e => .error e
    | .ok (v, q) =>
      if opts.skipInvalidUtf8 && v == 0xfffd then .ok (.inl q)
      else .ok (.inr (p.length - q.length))
  else .ok (.inr ahead)

def escapeLoop (opts : SerializationOpts) : Nat → List UInt8 → Nat → Except Error (List UInt8)
  | 0, _, _ => .error .fuel
  | _ + 1, [], _ => .ok []
  | fuel + 1, c :: p, ahead =>
    match validate opts (c :: p) ahead with
    | .error e => .error e
    | .ok (.inl q) => (escapeLoop opts fuel q 0).map ([239, 191, 189] ++ ·)
    | .ok (.inr ahead) =>
      if opts.encodeNonAscii && c &&& 0x80 != 0 then
        match decodeUtf8 opts (c :: p) with
        | .error e => .error e
        | .ok (v, q) => (escapeLoop opts fuel q ahead).map (escapeCodePoint v ++ ·)
      else (escapeLoop opts fuel p (ahead - 1)).map (escapeByte c ++ ·)

def escapeString (input : List UInt8) (opts : SerializationOpts) : Except Error (List UInt8) :=
  (escapeLoop opts (input.length + 1) input 0).map fun body => 34 :: (body ++ [34])

def newline : Option UInt32 → List UInt8
  | none => []
  | some level => 10 :: List.replicate (level * 2).toNat 32

def mapColon : Option UInt32 → List UInt8
  | none => [58]
  | some _ => [32, 58, 32]

def indent (level : Option UInt32) : Option UInt32 := level.map (· + 1)

def printRest {α : Type} (print : α → Except Error (List UInt8)) (level : Option UInt32) :
    List α → Except Error (List UInt8)
  | [] => .ok []
  | x :: xs =>
    match print x with
    | .error e => .error e
    | .ok text => (printRest print level xs).map (44 :: (newline level ++ text) ++ ·)

def printBlock {α : Type} (opening closing : UInt8) (print : α → Except Error (List UInt8))
    (level : Option UInt32) : List α → Except Error (List UInt8)
  | [] => .ok [opening, closing]
  | x :: xs =>
    match print x with
    | .error e => .error e
    | .ok text => (printRest print (indent level) xs).map fun rest =>
      opening :: (newline (indent level) ++ text ++ rest ++ newline level ++ [closing])

section Printer

variable {F : Type} [Double F]

def pairLt (p q : Dynamic F × Dynamic F) : Except TypeError Bool :=
  match p.1.lt q.1 with
  | .error e => .error e
  | .ok true => .ok true
  | .ok false =>
    match q.1.lt p.1 with
    | .error e => .error e
    | .ok true => .ok false
    | .ok false => p.2.lt q.2

def insertSorted (p : Dynamic F × Dynamic F) :
    List (Dynamic F × Dynamic F) → Except TypeError (List (Dynamic F × Dynamic F))
  | [] => .ok [p]
  | q :: qs =>
    match pairLt p q with
    | .error e => .error e
    | .ok true => .ok (p :: q :: qs)
    | .ok false => (insertSorted p qs).map (q :: ·)

def sortItems : List (Dynamic F × Dynamic F) →
    Except TypeError (List (Dynamic F × Dynamic F))
  | [] => .ok []
  | p :: ps =>
    match sortItems ps with
    | .error e => .error e
    | .ok ps => insertSorted p ps

def printKV (opts : SerializationOpts) (level : Option UInt32)
    (print : Dynamic F → Except Error (List UInt8)) (p : Dynamic F × Dynamic F) :
    Except Error (List UInt8) :=
  if !opts.allowNonStringKeys && p.1.type != .string then
    .error (.runtime "acc::toJson: JSON object key was not a string")
  else
    match print p.1 with
    | .error e => .error e
    | .ok key => (print p.2).map (key ++ mapColon level ++ ·)

def itemsToPrint (opts : SerializationOpts) (items : List (Dynamic F × Dynamic F)) :
    Except Error (List (Dynamic F × Dynamic F)) :=
  if opts.sortKeys then
    match sortItems items with
    | .ok items => .ok items
    | .error e => .error (.type e)
  else .ok items

def printedInt (F : Type) [Double F] (opts : SerializationOpts) (i : Int64) :
    Except Error Int64 :=
  if opts.javascriptSafe then liftRange (Double.checked F i) else .ok i

def print (opts : SerializationOpts) :
    Nat → Option UInt32 → Dynamic F → Except Error (List UInt8)
  | 0, _, _ => .error .fuel
  | _ + 1, _, .double d =>
    if !opts.allowNanInf && (Double.isNaN d || Double.isInf d) then
      .error (.runtime "acc::toJson: JSON object value was a NaN or INF")
    else .ok (Double.toText opts.doubleMode opts.doubleNumDigits d)
  | _ + 1, _, .int64 i =>
    (printedInt F opts i).map fun i => toAppendInt64 i (List.replicate 20 0)
  | _ + 1, _, .bool b => .ok (if b then [116, 114, 117, 101] else [102, 97, 108, 115, 101])
  | _ + 1, _, .null => .ok [110, 117, 108, 108]
  | _ + 1, _, .string s => escapeString s opts
  | fuel + 1, level, .object items =>
    match itemsToPrint opts items with
    | .error e => .error e
    | .ok items =>
      printBlock 123 125 (printKV opts level (print opts fuel (indent level))) level items
  | fuel + 1, level, .array xs =>
    printBlock 91 93 (print opts fuel (indent level)) level xs

def serialize (dyn : Dynamic F) (opts : SerializationOpts) : Except Error (List UInt8) :=
  print opts dyn.depth (if opts.prettyFormatting then some 0 else none) dyn

def printOpts (pretty sort : Bool) : SerializationOpts :=
  { prettyFormatting := pretty, sortKeys := sort }

variable {fuel d : Nat}

lemma escapeLoop_plain (pretty sort : Bool) {p : List UInt8} (ahead : Nat)
    (hfuel : p.length < fuel) :
    escapeLoop (printOpts pretty sort) fuel p ahead = .ok (p.flatMap escapeByte) := by
  induction p generalizing fuel ahead with
  | nil =>
    obtain ⟨fuel, rfl⟩ : ∃ n, fuel = n + 1 := ⟨fuel - 1, by omega⟩
    rfl
  | cons c p ih =>
    rw [length_cons] at hfuel
    obtain ⟨fuel, rfl⟩ : ∃ n, fuel = n + 1 := ⟨fuel - 1, by omega⟩
    have hvalid : validate (printOpts pretty sort) (c :: p) ahead = .ok (.inr ahead) := rfl
    have hrest := ih (ahead - 1) (show p.length < fuel by omega)
    simp only [escapeLoop, hvalid, hrest]
    rfl

lemma escapeString_plain (pretty sort : Bool) (s : List UInt8) :
    escapeString s (printOpts pretty sort) = .ok (34 :: (s.flatMap escapeByte ++ [34])) := by
  rw [escapeString, escapeLoop_plain pretty sort 0 (Nat.lt_succ_self _)]
  rfl

attribute [local instance] neZero_sixteen

def controlHex (c : UInt8) : Hex4 where
  digits := ![0, 0, Fin.ofNat 16 (c.toNat / 16), Fin.ofNat 16 c.toNat]
  upper := fun _ => false

set_option maxRecDepth 8000 in
lemma escapeByte_cases : ∀ c : UInt8, (escapeByte c = [c] ∧ c ≠ 34 ∧ c ≠ 92) ∨
      (∃ p ∈ shortEscapes, p.2 = c ∧ escapeByte c = [92, p.1]) ∨
      (escapeByte c = 92 :: 117 :: (controlHex c).text ∧ (controlHex c).val < 0xd800 ∧
        codePointToUtf8 (UInt32.ofNat (controlHex c).val) = [c]) := by
  decide

lemma readsBody_escapeByte (c : UInt8) {body s : List UInt8} (h : ReadsBody body s) :
    ReadsBody (escapeByte c ++ body) (c :: s) := by
  rcases escapeByte_cases c with ⟨heq, hq, hs⟩ | ⟨⟨e, b⟩, hmem, rfl, heq⟩ | ⟨heq, hlt, hcode⟩
  · rw [heq]
    exact readsBody_plain hq hs h
  · rw [heq]
    exact readsBody_escape (parseEscape_short hmem) h
  have hhigh : ¬ IsHighSurrogate (controlHex c).val := fun hn => absurd hn.1 (not_le.mpr hlt)
  have hlow : ¬ IsLowSurrogate (controlHex c).val := fun hn => absurd hn.1 (by omega)
  have hesc := parseEscape_unicode hhigh hlow
  rw [hcode] at hesc
  rw [heq]
  exact readsBody_escape hesc h

lemma readsString_escape (s : List UInt8) :
    ReadsString (34 :: (s.flatMap escapeByte ++ [34])) s := by
  refine readsString_of_body ?_
  induction s with
  | nil => exact readsBody_nil
  | cons c s ih => exact readsBody_escapeByte c ih

omit [Double F] in
lemma blank_newline (level : Option UInt32) : Blank (newline level) := by
  cases level with
  | none => exact blank_nil
  | some level =>
    rintro b hb
    rcases mem_cons.mp hb with rfl | hb
    · rfl
    · rw [eq_of_mem_replicate hb]
      rfl

section Blocks

variable {α β : Type} {print : α → Except Error (List UInt8)}

lemma printRest_eq (text : β → List UInt8) (elem : β → α) (Q : β → Prop)
    (level : Option UInt32) {xs : List α}
    (h : ∀ x ∈ xs, ∃ b, elem b = x ∧ Q b ∧ print x = .ok (text b)) :
    ∃ bs : List β, bs.map elem = xs ∧ (∀ b ∈ bs, Q b) ∧ printRest print level xs =
      .ok (bs.flatMap fun b => 44 :: (newline level ++ text b)) := by
  induction xs with
  | nil => exact ⟨[], rfl, fun _ hb => absurd hb not_mem_nil, rfl⟩
  | cons x xs ih =>
    obtain ⟨b, hx, hb, hprint⟩ := h x (mem_cons_self ..)
    obtain ⟨bs, hxs, hbs, hrest⟩ := ih fun y hy => h y (mem_cons_of_mem _ hy)
    refine ⟨b :: bs, by rw [map_cons, hx, hxs], forall_mem_cons.mpr ⟨hb, hbs⟩, ?_⟩
    rw [printRest, hprint]
    simp only [hrest]
    rfl

lemma printBlock_eq (opening closing : UInt8) (text : β → List UInt8) (elem : β → α)
    (Q : β → Prop) (level : Option UInt32) (x : α) (xs : List α)
    (h : ∀ y ∈ x :: xs, ∃ b, elem b = y ∧ Q b ∧ print y = .ok (text b)) :
    ∃ (b : β) (bs : List β), elem b = x ∧ bs.map elem = xs ∧ Q b ∧ (∀ b ∈ bs, Q b) ∧
      printBlock opening closing print level (x :: xs) =
        .ok (opening :: ((newline (indent level) ++ text b) ++
          ((bs.flatMap fun b => 44 :: (newline (indent level) ++ text b)) ++
            (newline level ++ [closing])))) := by
  obtain ⟨b, hx, hb, hprint⟩ := h x (mem_cons_self ..)
  obtain ⟨bs, hxs, hbs, hrest⟩ := printRest_eq text elem Q (indent level)
    fun y hy => h y (mem_cons_of_mem _ hy)
  refine ⟨b, bs, hx, hxs, hb, hbs, ?_⟩
  rw [printBlock, hprint]
  simp [hrest, Except.map]

end Blocks

lemma pairLt_string {k k' : List UInt8} (hne : k ≠ k') (v v' : Dynamic F) :
    ∃ b, pairLt (.string k, v) (.string k', v') = .ok b := by
  rw [pairLt]
  simp only [Dynamic.lt]
  cases hlt : bytesLt k k' with
  | true => exact ⟨true, rfl⟩
  | false =>
    cases hgt : bytesLt k' k with
    | true => exact ⟨false, rfl⟩
    | false => exact absurd (eq_of_not_bytesLt hlt hgt) hne

variable {xs ys : List (List UInt8 × Dynamic F)}

lemma insertSorted_toItems {k : List UInt8} (v : Dynamic F) (h : k ∉ xs.map Prod.fst) :
    ∃ ys, insertSorted (.string k, v) (toItems xs) = .ok (toItems ys) ∧
      ys.Perm ((k, v) :: xs) := by
  induction xs with
  | nil => exact ⟨[(k, v)], rfl, List.Perm.refl _⟩
  | cons p xs ih =>
    obtain ⟨k', v'⟩ := p
    rw [map_cons, mem_cons, not_or] at h
    obtain ⟨b, hlt⟩ := pairLt_string h.1 v v'
    obtain ⟨ys, hys, hperm⟩ := ih h.2
    have hcons : toItems ((k', v') :: xs) = (.string k', v') :: toItems xs := rfl
    rw [hcons, insertSorted, hlt]
    cases b with
    | true => exact ⟨(k, v) :: (k', v') :: xs, rfl, List.Perm.refl _⟩
    | false =>
      refine ⟨(k', v') :: ys, ?_, (hperm.cons _).trans (List.Perm.swap _ _ _)⟩
      simp only [hys]
      rfl

lemma sortItems_toItems (h : (xs.map Prod.fst).Nodup) :
    ∃ ys, sortItems (toItems xs) = .ok (toItems ys) ∧ ys.Perm xs := by
  induction xs with
  | nil => exact ⟨[], rfl, List.Perm.refl _⟩
  | cons p xs ih =>
    rw [map_cons, nodup_cons] at h
    obtain ⟨ys, hys, hperm⟩ := ih h.2
    have hfresh : p.1 ∉ ys.map Prod.fst := fun hmem =>
      h.1 ((hperm.map Prod.fst).mem_iff.mp hmem)
    obtain ⟨zs, hzs, hperm'⟩ := insertSorted_toItems p.2 hfresh
    have hcons : toItems (p :: xs) = (.string p.1, p.2) :: toItems xs := rfl
    refine ⟨zs, ?_, hperm'.trans (hperm.cons _)⟩
    rw [hcons, sortItems, hys]
    exact hzs

lemma itemsToPrint_toItems (pretty sort : Bool) (h : (xs.map Prod.fst).Nodup) :
    ∃ ys, itemsToPrint (printOpts pretty sort) (toItems xs) = .ok (toItems ys) ∧
      ys.Perm xs := by
  cases sort with
  | true =>
    obtain ⟨ys, hys, hperm⟩ := sortItems_toItems h
    refine ⟨ys, ?_, hperm⟩
    rw [itemsToPrint, hys]
    rfl
  | false => exact ⟨xs, rfl, List.Perm.refl _⟩

inductive Plain : Dynamic F → Prop
  | null : Plain .null
  | bool (b : Bool) : Plain (.bool b)
  | int64 (i : Int64) : Plain (.int64 i)
  | string (s : List UInt8) : Plain (.string s)
  | array (xs : List (Dynamic F)) (h : ∀ x ∈ xs, Plain x) : Plain (.array xs)
  | object (xs : List (List UInt8 × Dynamic F)) (hnames : (xs.map Prod.fst).Nodup)
      (h : ∀ p ∈ xs, Plain p.2) : Plain (.object (toItems xs))

lemma reads_printedInt (limit : UInt32) (i : Int64) :
    Reads limit 1 (toAppendInt64 i (List.replicate 20 0)) (.int64 i : Dynamic F) := by
  have hval := Decimal.value_text i.toInt.natAbs
  have h := reads_int (F := F) limit (decide (i.toInt < 0)) (i := i)
    (Decimal.text_digits i.toInt.natAbs) (Decimal.text_ne_nil _) (by
      rw [hval]
      by_cases hneg : i.toInt < 0
      · rw [if_pos (by simpa using hneg)]
        omega
      · rw [if_neg (by simpa using hneg)]
        omega)
  rw [toAppendInt64_eq i _ length_replicate]
  simpa only [decide_eq_true_eq] using h

def printedMember (level : Option UInt32) (name txt : List UInt8) (v : Dynamic F) : Member F where
  key := 34 :: (name.flatMap escapeByte ++ [34]) ++ (if level.isSome then [32] else [])
  name := name
  txt := (if level.isSome then [32] else []) ++ txt
  val := v

omit [Double F] in
lemma text_printedMember (level : Option UInt32) (name txt : List UInt8) (v : Dynamic F) :
    (printedMember level name txt v).text =
      34 :: (name.flatMap escapeByte ++ [34]) ++ mapColon level ++ txt := by
  cases level <;> simp [printedMember, Member.text, mapColon]

variable {limit : UInt32} {v : Dynamic F}

lemma readsMember_printed {txt : List UInt8}
    (h : Reads limit d txt v) (level : Option UInt32) (name : List UInt8) :
    ReadsMember limit d (printedMember level name txt v) := by
  have hblank : Blank (if level.isSome then [32] else []) := by
    cases level with
    | none => exact blank_nil
    | some level => simp [Blank, isWhitespace]
  refine ⟨⟨[], _, _, blank_nil, hblank, rfl, readsString_escape name⟩, ?_⟩
  have := h.pad hblank blank_nil
  rwa [append_nil] at this

lemma printKV_eq (pretty sort : Bool) (level : Option UInt32) {name txt : List UInt8}
    (h : print (printOpts pretty sort) fuel (indent level) v = .ok txt) :
    printKV (printOpts pretty sort) level (print (printOpts pretty sort) fuel (indent level))
      (.string name, v) = .ok (printedMember level name txt v).text := by
  cases fuel with
  | zero =>
    rw [print] at h
    cases h
  | succ fuel =>
    have hkey : print (printOpts pretty sort) (fuel + 1) (indent level)
        (.string name : Dynamic F) = escapeString name (printOpts pretty sort) := rfl
    rw [text_printedMember, printKV]
    simp only [hkey, escapeString_plain, h]
    rfl

lemma ReadsMember.padLeft {m : Member F}
    (h : ReadsMember limit d m) {w : List UInt8} (hw : Blank w) :
    ReadsMember limit d { m with key := w ++ m.key } := by
  obtain ⟨u, lit, u', hu, hu', hkey, hlit⟩ := h.key
  exact ⟨⟨w ++ u, lit, u', hw.append hu, hu', by rw [hkey]; simp, hlit⟩, h.val⟩

lemma reads_printedArray (hd : 1 ≤ d) (level : Option UInt32)
    {e : List UInt8 × Dynamic F} {es : List (List UInt8 × Dynamic F)}
    (he : Reads limit d e.1 e.2) (hes : ∀ x ∈ es, Reads limit d x.1 x.2) :
    Reads limit (d + 1) (91 :: ((newline (indent level) ++ e.1) ++
      ((es.flatMap fun b => 44 :: (newline (indent level) ++ b.1)) ++ (newline level ++ [93]))))
      (.array (e.2 :: es.map Prod.snd)) := by
  have hpad : ∀ {x : List UInt8 × Dynamic F}, Reads limit d x.1 x.2 →
      Reads limit d (newline (indent level) ++ x.1) x.2 := by
    intro x hx
    simpa using hx.pad (blank_newline (indent level)) blank_nil
  have h := reads_array hd (es.map fun x => (newline (indent level) ++ x.1, x.2))
    (newline (indent level) ++ e.1, e.2) (hpad he) (by
      intro x hx
      obtain ⟨y, hy, rfl⟩ := mem_map.mp hx
      exact hpad (hes y hy)) (blank_newline level)
  simpa [commaTexts, flatMap_map, map_map, Function.comp_def] using h

lemma reads_printedObject (hd : 1 ≤ d) (level : Option UInt32)
    {m : Member F} {ms : List (Member F)} (hm : ReadsMember limit d m)
    (hms : ∀ x ∈ ms, ReadsMember limit d x) (hmap : IsMapOf xs (m :: ms)) :
    Reads limit (d + 1) (123 :: ((newline (indent level) ++ m.text) ++
      ((ms.flatMap fun b => 44 :: (newline (indent level) ++ b.text)) ++
        (newline level ++ [125])))) (.object (toItems xs)) := by
  have hblank := blank_newline (indent level)
  have h := reads_object hd (ms.map fun x => { x with key := newline (indent level) ++ x.key })
    { m with key := newline (indent level) ++ m.key } (hm.padLeft hblank) (by
      intro x hx
      obtain ⟨y, hy, rfl⟩ := mem_map.mp hx
      exact (hms y hy).padLeft hblank)
    (show IsMapOf xs _ from ⟨hmap.nodup, by
      simpa [map_map, Function.comp_def] using hmap.mem⟩) (blank_newline level)
  simpa [commaMembers, Member.text, flatMap_map] using h

lemma printArray_reads {level : Option UInt32}
    {print : Dynamic F → Except Error (List UInt8)} {xs : List (Dynamic F)}
    (h : ∀ x ∈ xs, ∃ text, print x = .ok text ∧ Reads limit x.depth text x) :
    ∃ text, printBlock 91 93 print level xs = .ok text ∧
      Reads limit (array xs).depth text (.array xs) := by
  cases xs with
  | nil => exact ⟨_, rfl, reads_emptyArray limit blank_nil⟩
  | cons x xs =>
    obtain ⟨e, es, rfl, rfl, he, hes, hprint⟩ := printBlock_eq 91 93 Prod.fst Prod.snd
      (fun e => Reads limit (depthList (x :: xs)) e.1 e.2) level x xs (by
        intro y hy
        obtain ⟨text, hprint, hread⟩ := h y hy
        exact ⟨(text, y), rfl, hread.mono (depth_le_depthList hy), hprint⟩)
    have hone : 1 ≤ depthList (e.2 :: es.map Prod.snd) :=
      le_trans e.2.depth_pos (depth_le_depthList (mem_cons_self ..))
    exact ⟨_, hprint, reads_printedArray hone level he hes⟩

def Member.item (m : Member F) : Dynamic F × Dynamic F := (.string m.name, m.val)

omit [Double F] in
lemma map_item {ms : List (Member F)}
    (h : ms.map Member.item = toItems ys) : ms.map (fun m => (m.name, m.val)) = ys := by
  induction ms generalizing ys with
  | nil => exact (map_eq_nil_iff.mp h.symm).symm
  | cons m ms ih =>
    cases ys with
    | nil => cases h
    | cons y ys =>
      obtain ⟨hm, hms⟩ := List.cons.inj h
      obtain ⟨hname, hval⟩ := Prod.mk.inj hm
      rw [map_cons, ih hms, string.inj hname, hval]

lemma printObject_reads {level : Option UInt32} (pretty sort : Bool) (hnames : (xs.map Prod.fst).Nodup)
    (hperm : ys.Perm xs)
    (h : ∀ p ∈ xs, ∃ text, print (printOpts pretty sort) fuel (indent level) p.2 = .ok text ∧
      Reads limit p.2.depth text p.2) :
    ∃ text, printBlock 123 125 (printKV (printOpts pretty sort) level
        (print (printOpts pretty sort) fuel (indent level))) level (toItems ys) = .ok text ∧
      Reads limit (object (toItems xs)).depth text
        (.object (toItems xs)) := by
  cases ys with
  | nil =>
    rw [← hperm.nil_eq]
    exact ⟨_, rfl, reads_emptyObject limit blank_nil⟩
  | cons y ys =>
    have hdepth : ∀ p ∈ xs, p.2.depth ≤ depthItems (toItems xs) := fun p hp =>
      depth_le_depthItems (k := .string p.1) (mem_map.mpr ⟨p, hp, rfl⟩)
    obtain ⟨m, ms, hm, hms, hread, hreads, hprint⟩ := printBlock_eq 123 125 Member.text
      Member.item (ReadsMember limit (depthItems (toItems xs))) level
      (.string y.1, y.2) (toItems ys) (by
        intro p hp
        obtain ⟨q, hq, rfl⟩ := mem_map.mp (show p ∈ toItems (y :: ys) from hp)
        obtain ⟨text, hprint, hread⟩ := h q (hperm.mem_iff.mp hq)
        exact ⟨printedMember level q.1 text q.2, rfl,
          readsMember_printed (hread.mono (hdepth q (hperm.mem_iff.mp hq))) level q.1,
          printKV_eq pretty sort level hprint⟩)
    have hmembers : (m :: ms).map (fun m => (m.name, m.val)) = y :: ys :=
      map_item (by rw [map_cons, hm, hms]; rfl)
    have hone : 1 ≤ depthItems (toItems xs) :=
      le_trans y.2.depth_pos (hdepth y (hperm.mem_iff.mp (mem_cons_self ..)))
    refine ⟨_, hprint, reads_printedObject hone level hread hreads ⟨hnames, ?_⟩⟩
    intro name v
    have hnodup : ((y :: ys).map Prod.fst).Nodup := (hperm.map Prod.fst).nodup_iff.mpr hnames
    rw [hmembers, lastOf_eq_some_iff hnodup, hperm.mem_iff]

omit [Double F] in
lemma fuel_pos (h : v.depth ≤ fuel) : ∃ n, fuel = n + 1 :=
  Nat.exists_eq_add_of_le' (le_trans v.depth_pos h)

lemma print_reads (limit : UInt32) (pretty sort : Bool) (h : Plain v)
    (fuel : Nat) (level : Option UInt32) (hfuel : v.depth ≤ fuel) :
    ∃ text, print (printOpts pretty sort) fuel level v = .ok text ∧ Reads limit v.depth text v := by
  induction h generalizing fuel level with
  | null =>
    obtain ⟨fuel, rfl⟩ := fuel_pos hfuel
    exact ⟨_, rfl, reads_null limit⟩
  | bool b =>
    obtain ⟨fuel, rfl⟩ := fuel_pos hfuel
    exact ⟨_, rfl, reads_bool limit b⟩
  | int64 i =>
    obtain ⟨fuel, rfl⟩ := fuel_pos hfuel
    exact ⟨_, rfl, reads_printedInt limit i⟩
  | string s =>
    obtain ⟨fuel, rfl⟩ := fuel_pos hfuel
    exact ⟨_, escapeString_plain pretty sort s, reads_string (readsString_escape s)⟩
  | array xs _ ih =>
    obtain ⟨fuel, rfl⟩ := fuel_pos hfuel
    exact printArray_reads fun x hx => ih x hx fuel (indent level)
      (le_trans (depth_le_depthList hx) (Nat.le_of_succ_le_succ hfuel))
  | object xs hnames _ ih =>
    obtain ⟨fuel, rfl⟩ := fuel_pos hfuel
    obtain ⟨ys, hys, hperm⟩ := itemsToPrint_toItems pretty sort hnames
    rw [print, hys]
    exact printObject_reads pretty sort hnames hperm fun p hp => ih p hp fuel (indent level)
      (le_trans (depth_le_depthItems (mem_map.mpr ⟨p, hp, rfl⟩))
        (Nat.le_of_succ_le_succ hfuel))

theorem parseJson_serialize (limit : UInt32) (pretty sort : Bool) (v : Dynamic F) (h : Plain v)
    (hdepth : v.depth ≤ limit.toNat + 1) :
    ∃ text v', serialize v (printOpts pretty sort) = .ok text ∧
      parseJson text (parseOpts limit) = .ok v' ∧ v'.beq v = true := by
  obtain ⟨text, hprint, hread⟩ := print_reads limit pretty sort h v.depth
    (if pretty then some 0 else none) (le_refl _)
  obtain ⟨v', hparse, hsame⟩ := parseJson_of_reads hread hdepth
  exact ⟨text, v', hprint, hparse, hsame.beq⟩

end Printer

theorem parseJson_serialize_pretty :
    ∃ text, ∃ v' : Dynamic Unit, serialize (.object [(.string [255, 34], .array [.int64 (-1), .null])] :
        Dynamic Unit) (printOpts true true) = .ok text ∧
      parseJson text (parseOpts 100) = .ok v' ∧
      v'.beq (.object [(.string [255, 34], .array [.int64 (-1), .null])]) = true :=
  parseJson_serialize 100 true true _
    (.object [([255, 34], .array [.int64 (-1), .null])] (by simp)
      (by
        rintro p hp
        rw [mem_singleton.mp hp]
        refine .array _ ?_
        rintro x hx
        rcases mem_cons.mp hx with rfl | hx
        · exact .int64 _
        · rw [mem_singleton.mp hx]
          exact .null))
    (by decide)

end Acc.Json
