import Mathlib

namespace Acc.Base64

open List BitVec

inductive Base64EncodeMode
  | COMMON
  | URI
  deriving DecidableEq, Repr

abbrev Word := BitVec 32

structure Output where
  output : List UInt8
  j : Nat
  deriving DecidableEq, Repr

namespace Output

def resize (s : List UInt8) (n : Nat) : List UInt8 := s.take n ++ List.replicate (n - s.length) 0

def put (o : Output) (b : UInt8) : Output := ⟨o.output.set o.j b, o.j + 1⟩

end Output

def kBase64EncTable : List UInt8 :=
  "ABCDEFGHIJKLMNOPQRSTUVWXYZabcdefghijklmnopqrstuvwxyz0123456789".toList.map
    fun c => c.toNat.toUInt8

def kPad : UInt8 := 61

def encode (mode : Base64EncodeMode) (i : Nat) : UInt8 :=
  if i = 0x3e then (if mode = .URI then 45 else 43)
  else if i = 0x3f then (if mode = .URI then 95 else 47)
  else kBase64EncTable.getD i 0

def encodeReady (mode : Base64EncodeMode) (leftchar : Word) (leftbits : Nat) (o : Output) :
    Nat × Output :=
  if leftbits ≥ 6 then
    let leftbits := leftbits - 6
    encodeReady mode leftchar leftbits (o.put (encode mode ((leftchar >>> leftbits) &&& 0x3f).toNat))
  else (leftbits, o)
termination_by leftbits

def encodeLoop (mode : Base64EncodeMode) :
    List UInt8 → Word → Nat → Output → Word × Nat × Output
  | [], leftchar, leftbits, o => (leftchar, leftbits, o)
  | b :: input, leftchar, leftbits, o =>
    let leftchar := leftchar <<< 8 ||| b.toBitVec.setWidth 32
    let (leftbits, o) := encodeReady mode leftchar (leftbits + 8) o
    encodeLoop mode input leftchar leftbits o

def encodeRest (mode : Base64EncodeMode) (leftchar : Word) (leftbits : Nat) (o : Output) : Output :=
  if leftbits = 2 then
    ((o.put (encode mode ((leftchar &&& 0x3) <<< 4).toNat)).put kPad).put kPad
  else if leftbits = 4 then (o.put (encode mode ((leftchar &&& 0xf) <<< 2).toNat)).put kPad
  else o

def base64Encode (input output : List UInt8) (mode : Base64EncodeMode) : Bool × List UInt8 :=
  let n := input.length
  let (leftchar, leftbits, o) := encodeLoop mode input 0 0 ⟨Output.resize output ((n + 2) / 3 * 4), 0⟩
  (true, (encodeRest mode leftchar leftbits o).output)

def kBase64DecTable : List UInt8 := [
  255,255,255,255, 255,255,255,255, 255,255,255,255, 255,255,255,255,
  255,255,255,255, 255,255,255,255, 255,255,255,255, 255,255,255,255,
  255,255,255,255, 255,255,255,255, 255,255,255,62, 255,62,255,63,
  52,53,54,55, 56,57,58,59, 60,61,255,255, 255,0,255,255,
  255,0,1,2, 3,4,5,6, 7,8,9,10, 11,12,13,14,
  15,16,17,18, 19,20,21,22, 23,24,25,255, 255,255,255,63,
  255,26,27,28, 29,30,31,32, 33,34,35,36, 37,38,39,40,
  41,42,43,44, 45,46,47,48, 49,50,51,255, 255,255,255,255]

def decode (c : UInt8) : UInt8 := kBase64DecTable.getD c.toNat 255

def decodeReady (value : Word) (bits : Nat) (o : Output) : Nat × Output :=
  if bits ≥ 8 then
    let bits := bits - 8
    decodeReady value bits (o.put (UInt8.ofNat ((value >>> bits) &&& 0xff).toNat))
  else (bits, o)
termination_by bits

def decodeLoop : List UInt8 → Word → Nat → Output → Nat × Output
  | [], _, bits, o => (bits, o)
  | c :: input, value, bits, o =>
    if c > 0x7f then decodeLoop input value bits o
    else if c = kPad then (0, o)
    else if decode c = 255 then decodeLoop input value bits o
    else
      let value := value <<< 6 ||| (decode c).toBitVec.setWidth 32
      let (bits, o) := decodeReady value (bits + 6) o
      decodeLoop input value bits o

def base64Decode (input output : List UInt8) (_mode : Base64EncodeMode) : Bool × List UInt8 :=
  let n := input.length
  let (bits, o) := decodeLoop input 0 0 ⟨Output.resize output ((n + 3) / 4 * 3), 0⟩
  (bits = 0, Output.resize o.output o.j)

def encoded (mode : Base64EncodeMode) : List UInt8 → List UInt8
  | a :: b :: c :: rest =>
    encode mode (a.toNat / 4) :: encode mode (a.toNat % 4 * 16 + b.toNat / 16) ::
      encode mode (b.toNat % 16 * 4 + c.toNat / 64) :: encode mode (c.toNat % 64) ::
      encoded mode rest
  | [a, b] =>
    [encode mode (a.toNat / 4), encode mode (a.toNat % 4 * 16 + b.toNat / 16),
      encode mode (b.toNat % 16 * 4), kPad]
  | [a] => [encode mode (a.toNat / 4), encode mode (a.toNat % 4 * 16), kPad, kPad]
  | [] => []

def alphabet (mode : Base64EncodeMode) : List UInt8 := (List.range 64).map (encode mode)

def Foreign (c : UInt8) : Prop := c ∉ alphabet .COMMON ∧ c ∉ alphabet .URI ∧ c ≠ kPad

instance : DecidablePred Foreign := fun _ => inferInstanceAs (Decidable (_ ∧ _ ∧ _))

inductive Inserted : List UInt8 → List UInt8 → Prop
  | nil : Inserted [] []
  | keep (c : UInt8) {e t : List UInt8} (rest : Inserted e t) : Inserted (c :: e) (c :: t)
  | insert (c : UInt8) (foreign : Foreign c) {e t : List UInt8} (rest : Inserted e t) :
      Inserted e (c :: t)

variable {k room n i : Nat}

lemma toNat_shiftIn (acc x : Word) (hk : k ≤ 32) (hx : x.toNat < 2 ^ k) :
    (acc <<< k ||| x).toNat = acc.toNat % 2 ^ (32 - k) * 2 ^ k + x.toNat := by
  have hpow : 2 ^ 32 = 2 ^ (32 - k) * 2 ^ k := by
    rw [← Nat.pow_add, Nat.sub_add_cancel hk]
  rw [toNat_or, toNat_shiftLeft, Nat.shiftLeft_eq, hpow, Nat.mul_mod_mul_right,
    ← Nat.shiftLeft_eq, ← Nat.shiftLeft_add_eq_or_of_lt hx]

lemma toNat_setWidth_byte (b : UInt8) : (b.toBitVec.setWidth 32).toNat = b.toNat := by
  rw [toNat_setWidth, Nat.mod_eq_of_lt]
  · rfl
  · exact Nat.lt_trans b.toBitVec.isLt (by decide)

lemma toNat_shiftByte (acc : Word) (b : UInt8) :
    (acc <<< 8 ||| b.toBitVec.setWidth 32).toNat = acc.toNat % 2 ^ 24 * 256 + b.toNat := by
  have hb : (b.toBitVec.setWidth 32).toNat < 2 ^ 8 := by
    exact b.toNat_lt
  rw [toNat_shiftIn acc _ (by decide) hb, toNat_setWidth_byte]
  rfl

variable {b a : UInt8}

lemma toNat_shiftSix (acc : Word) (hb : b.toNat < 64) :
    (acc <<< 6 ||| b.toBitVec.setWidth 32).toNat = acc.toNat % 2 ^ 26 * 64 + b.toNat := by
  have hb' : (b.toBitVec.setWidth 32).toNat < 2 ^ 6 := by
    exact hb
  rw [toNat_shiftIn acc _ (by decide) hb', toNat_setWidth_byte]
  rfl

lemma toNat_group (acc : Word) (bits : Nat) (hk : k < 32) :
    ((acc >>> bits) &&& BitVec.ofNat 32 (2 ^ k - 1)).toNat = acc.toNat / 2 ^ bits % 2 ^ k := by
  have hlt : 2 ^ k - 1 < 2 ^ 32 := by
    have hpow : 2 ^ k < 2 ^ 32 := Nat.pow_lt_pow_right (by decide) hk
    omega
  rw [toNat_and, toNat_ushiftRight, toNat_ofNat, Nat.mod_eq_of_lt hlt,
    Nat.and_two_pow_sub_one_eq_mod, Nat.shiftRight_eq_div_pow]

def Filled (o : Output) (bytes : List UInt8) (room : Nat) : Prop :=
  ∃ junk : List UInt8, junk.length = room ∧ o = ⟨bytes ++ junk, bytes.length⟩

variable {bytes e t : List UInt8}

lemma Filled.put {o : Output} (h : Filled o bytes (room + 1))
    (b : UInt8) : Filled (o.put b) (bytes ++ [b]) room := by
  obtain ⟨junk, hlen, rfl⟩ := h
  obtain ⟨x, junk, rfl⟩ := exists_cons_of_length_eq_add_one hlen
  refine ⟨junk, by simpa using hlen, ?_⟩
  simp [Output.put]

lemma filled_resize (s : List UInt8) (n : Nat) : Filled ⟨Output.resize s n, 0⟩ [] n := by
  refine ⟨Output.resize s n, ?_, rfl⟩
  rw [Output.resize, length_append, length_take, length_replicate]
  omega

lemma Filled.resize {o : Output} (h : Filled o bytes room) :
    Output.resize o.output o.j = bytes := by
  obtain ⟨junk, -, rfl⟩ := h
  simp [Output.resize]

lemma encodeReady_step (mode : Base64EncodeMode) (acc : Word) (h : 6 ≤ n) (o : Output) :
    encodeReady mode acc n o =
      encodeReady mode acc (n - 6) (o.put (encode mode (acc.toNat / 2 ^ (n - 6) % 64))) := by
  have hgroup := toNat_group acc (n - 6) (k := 6) (by decide)
  rw [encodeReady, if_pos h]
  exact congrArg (fun i => encodeReady mode acc (n - 6) (o.put (encode mode i))) hgroup

lemma encodeReady_done (mode : Base64EncodeMode) (acc : Word) (h : n < 6) (o : Output) :
    encodeReady mode acc n o = (n, o) := by
  rw [encodeReady, if_neg (Nat.not_le.mpr h)]

lemma encodeLoop_first (mode : Base64EncodeMode) (a : UInt8) (rest : List UInt8) (acc : Word)
    (o : Output) : ∃ acc' : Word, acc'.toNat % 256 = a.toNat ∧ encodeLoop mode (a :: rest) acc 0 o =
        encodeLoop mode rest acc' 2 (o.put (encode mode (a.toNat / 4))) := by
  have hacc := toNat_shiftByte acc a
  have ha := a.toNat_lt
  have hgroup : (acc.toNat % 2 ^ 24 * 256 + a.toNat) / 2 ^ 2 % 64 = a.toNat / 4 := by omega
  refine ⟨_, by rw [hacc]; omega, ?_⟩
  rw [encodeLoop, encodeReady_step mode _ (by decide), encodeReady_done mode _ (by decide), hacc]
  exact congrArg (fun i => encodeLoop mode rest _ 2 (o.put (encode mode i))) hgroup

variable {acc : Word}

lemma encodeLoop_second (mode : Base64EncodeMode) (b : UInt8) (rest : List UInt8) (hacc : acc.toNat % 256 = a.toNat) (o : Output) :
    ∃ acc' : Word, acc'.toNat % 256 = b.toNat ∧ encodeLoop mode (b :: rest) acc 2 o =
        encodeLoop mode rest acc' 4 (o.put (encode mode (a.toNat % 4 * 16 + b.toNat / 16))) := by
  have hacc' := toNat_shiftByte acc b
  have hb := b.toNat_lt
  have hgroup : (acc.toNat % 2 ^ 24 * 256 + b.toNat) / 2 ^ 4 % 64 =
      a.toNat % 4 * 16 + b.toNat / 16 := by omega
  refine ⟨_, by rw [hacc']; omega, ?_⟩
  rw [encodeLoop, encodeReady_step mode _ (by decide), encodeReady_done mode _ (by decide), hacc']
  exact congrArg (fun i => encodeLoop mode rest _ 4 (o.put (encode mode i))) hgroup

lemma encodeLoop_third (mode : Base64EncodeMode) (c : UInt8) (rest : List UInt8) (hacc : acc.toNat % 256 = b.toNat) (o : Output) :
    ∃ acc' : Word, encodeLoop mode (c :: rest) acc 4 o = encodeLoop mode rest acc' 0
        ((o.put (encode mode (b.toNat % 16 * 4 + c.toNat / 64))).put (encode mode (c.toNat % 64))) := by
  have hacc' := toNat_shiftByte acc c
  have hc := c.toNat_lt
  have hgroup : (acc.toNat % 2 ^ 24 * 256 + c.toNat) / 2 ^ 6 % 64 =
      b.toNat % 16 * 4 + c.toNat / 64 := by omega
  have hlow : (acc.toNat % 2 ^ 24 * 256 + c.toNat) / 2 ^ 0 % 64 = c.toNat % 64 := by omega
  refine ⟨acc <<< 8 ||| c.toBitVec.setWidth 32, ?_⟩
  rw [encodeLoop, encodeReady_step mode _ (by decide), encodeReady_step mode _ (by decide),
    encodeReady_done mode _ (by decide), hacc']
  exact congrArg₂ (fun i j => encodeLoop mode rest _ 0
    ((o.put (encode mode i)).put (encode mode j))) hgroup hlow

lemma encodeRest_two (mode : Base64EncodeMode) (hacc : acc.toNat % 256 = a.toNat) (o : Output) :
    encodeRest mode acc 2 o = ((o.put (encode mode (a.toNat % 4 * 16))).put kPad).put kPad := by
  have hlow := toNat_group acc 0 (k := 2) (by decide)
  have hgroup : ((acc &&& 0x3) <<< 4).toNat = a.toNat % 4 * 16 := by
    rw [toNat_shiftLeft, Nat.shiftLeft_eq]
    have hmask : (acc &&& 0x3).toNat = acc.toNat / 2 ^ 0 % 2 ^ 2 := hlow
    omega
  rw [encodeRest, if_pos rfl, hgroup]

lemma encodeRest_four (mode : Base64EncodeMode) (hacc : acc.toNat % 256 = b.toNat) (o : Output) :
    encodeRest mode acc 4 o = (o.put (encode mode (b.toNat % 16 * 4))).put kPad := by
  have hlow := toNat_group acc 0 (k := 4) (by decide)
  have hgroup : ((acc &&& 0xf) <<< 2).toNat = b.toNat % 16 * 4 := by
    rw [toNat_shiftLeft, Nat.shiftLeft_eq]
    have hmask : (acc &&& 0xf).toNat = acc.toNat / 2 ^ 0 % 2 ^ 4 := hlow
    omega
  rw [encodeRest, if_neg (by decide), if_pos rfl, hgroup]

lemma encodeLoop_filled (mode : Base64EncodeMode) (input : List UInt8) (acc : Word) (o : Output)
    (before : List UInt8) (h : Filled o before (encoded mode input).length) :
    let r := encodeLoop mode input acc 0 o
    Filled (encodeRest mode r.1 r.2.1 r.2.2) (before ++ encoded mode input) 0 := by
  induction input using encoded.induct generalizing acc o before with
  | case1 a b c rest ih =>
    obtain ⟨acc₁, hacc₁, h₁⟩ := encodeLoop_first mode a (b :: c :: rest) acc o
    obtain ⟨acc₂, hacc₂, h₂⟩ := encodeLoop_second mode b (c :: rest) hacc₁ (o.put _)
    obtain ⟨acc₃, h₃⟩ := encodeLoop_third mode c rest hacc₂ ((o.put _).put _)
    rw [h₁, h₂, h₃]
    have hfour := (((h.put (encode mode (a.toNat / 4))).put
      (encode mode (a.toNat % 4 * 16 + b.toNat / 16))).put
      (encode mode (b.toNat % 16 * 4 + c.toNat / 64))).put (encode mode (c.toNat % 64))
    have hrest := ih acc₃ _ _ hfour
    simpa [encoded] using hrest
  | case2 a b =>
    obtain ⟨acc₁, hacc₁, h₁⟩ := encodeLoop_first mode a [b] acc o
    obtain ⟨acc₂, hacc₂, h₂⟩ := encodeLoop_second mode b [] hacc₁ (o.put _)
    rw [h₁, h₂]
    simp only [encodeLoop]
    rw [encodeRest_four mode hacc₂]
    have hfour := (((h.put (encode mode (a.toNat / 4))).put
      (encode mode (a.toNat % 4 * 16 + b.toNat / 16))).put
      (encode mode (b.toNat % 16 * 4))).put kPad
    simpa [encoded] using hfour
  | case3 a =>
    obtain ⟨acc₁, hacc₁, h₁⟩ := encodeLoop_first mode a [] acc o
    rw [h₁]
    simp only [encodeLoop]
    rw [encodeRest_two mode hacc₁]
    have hfour := (((h.put (encode mode (a.toNat / 4))).put
      (encode mode (a.toNat % 4 * 16))).put kPad).put kPad
    simpa [encoded] using hfour
  | case4 =>
    simpa [encoded, encodeLoop, encodeRest] using h

lemma length_encoded (mode : Base64EncodeMode) (s : List UInt8) :
    (encoded mode s).length = (s.length + 2) / 3 * 4 := by
  induction s using encoded.induct with
  | case1 a b c rest ih =>
    simp only [encoded, length_cons, ih]
    omega
  | case2 a b | case3 a | case4 => simp [encoded]

lemma base64Encode_eq (input output : List UInt8) (mode : Base64EncodeMode) :
    base64Encode input output mode = (true, encoded mode input) := by
  have hstart := filled_resize output ((input.length + 2) / 3 * 4)
  rw [← length_encoded mode input] at hstart
  obtain ⟨junk, hlen, heq⟩ := encodeLoop_filled mode input 0 _ [] hstart
  rw [eq_nil_of_length_eq_zero hlen, append_nil, nil_append] at heq
  rw [length_encoded] at heq
  show (true, (encodeRest mode _ _ _).output) = _
  rw [heq]

lemma decodeReady_step (acc : Word) (h : 8 ≤ n) (o : Output) : decodeReady acc n o =
      decodeReady acc (n - 8) (o.put (UInt8.ofNat (acc.toNat / 2 ^ (n - 8) % 256))) := by
  have hgroup := toNat_group acc (n - 8) (k := 8) (by decide)
  rw [decodeReady, if_pos h]
  exact congrArg (fun i => decodeReady acc (n - 8) (o.put (UInt8.ofNat i))) hgroup

lemma decodeReady_done (acc : Word) (h : n < 8) (o : Output) : decodeReady acc n o = (n, o) := by
  rw [decodeReady, if_neg (Nat.not_le.mpr h)]

set_option maxRecDepth 4000 in
lemma decode_encode_char (mode : Base64EncodeMode) : ∀ i < 64,
    ¬ encode mode i > 0x7f ∧ encode mode i ≠ kPad ∧ decode (encode mode i) = UInt8.ofNat i := by
  cases mode <;> decide

lemma decodeLoop_char (mode : Base64EncodeMode) (hi : i < 64) (rest : List UInt8)
    (acc : Word) (bits : Nat) (o : Output) :
    ∃ acc' : Word, acc'.toNat = acc.toNat % 2 ^ 26 * 64 + i ∧
      decodeLoop (encode mode i :: rest) acc bits o =
        decodeLoop rest acc' (decodeReady acc' (bits + 6) o).1 (decodeReady acc' (bits + 6) o).2 := by
  obtain ⟨hlow, hpad, hdecode⟩ := decode_encode_char mode i hi
  have hnat : (UInt8.ofNat i).toNat = i := by
    rw [UInt8.toNat_ofNat']
    omega
  have hvalid : UInt8.ofNat i ≠ 255 := by
    intro heq
    have h255 := congrArg UInt8.toNat heq
    exact absurd h255 (by simp; omega)
  have hacc := toNat_shiftSix acc (b := UInt8.ofNat i) (by omega)
  rw [hnat] at hacc
  refine ⟨_, hacc, ?_⟩
  rw [decodeLoop, if_neg hlow, if_neg hpad, hdecode, if_neg hvalid]

lemma decodeLoop_first (mode : Base64EncodeMode) (hi : i < 64) (rest : List UInt8)
    (acc : Word) (o : Output) : ∃ acc' : Word, acc'.toNat % 64 = i ∧
      decodeLoop (encode mode i :: rest) acc 0 o = decodeLoop rest acc' 6 o := by
  obtain ⟨acc', hacc', heq⟩ := decodeLoop_char mode hi rest acc 0 o
  rw [decodeReady_done acc' (by decide)] at heq
  exact ⟨acc', by omega, heq⟩

lemma decodeLoop_next (mode : Base64EncodeMode) (bits : Nat) (hlo : 2 ≤ bits) (hhi : bits ≤ 6) (hi : i < 64) {prev : Nat} (hacc : acc.toNat % 64 = prev)
    (hb : (prev * 64 + i) / 2 ^ (bits - 2) % 256 = b.toNat) (rest : List UInt8) (o : Output) :
    ∃ acc' : Word, acc'.toNat % 64 = i ∧
      decodeLoop (encode mode i :: rest) acc bits o = decodeLoop rest acc' (bits - 2) (o.put b) := by
  obtain ⟨acc', hacc', heq⟩ := decodeLoop_char mode hi rest acc bits o
  have hready : decodeReady acc' (bits + 6) o = (bits - 2, o.put b) := by
    have hgroup : acc'.toNat / 2 ^ (bits + 6 - 8) % 256 = b.toNat := by
      interval_cases bits <;> norm_num <;> omega
    rw [decodeReady_step acc' (by omega), decodeReady_done acc' (by omega), hgroup,
      UInt8.ofNat_toNat]
    rfl
  rw [hready] at heq
  exact ⟨acc', by omega, heq⟩

set_option maxRecDepth 4000 in
lemma encode_decode_char : ∀ n < 128, UInt8.ofNat n = kPad ∨ decode (UInt8.ofNat n) = 255 ∨
    (decode (UInt8.ofNat n)).toNat < 64 ∧
      (encode .COMMON (decode (UInt8.ofNat n)).toNat = UInt8.ofNat n ∨
        encode .URI (decode (UInt8.ofNat n)).toNat = UInt8.ofNat n) := by
  decide

lemma foreign_skipped {c : UInt8} (h : Foreign c) : c > 0x7f ∨ c ≠ kPad ∧ decode c = 255 := by
  obtain ⟨hcommon, huri, hpad⟩ := h
  by_cases hhigh : c > 0x7f
  · exact .inl hhigh
  have hlow : c.toNat < 128 := by
    have hle : c.toNat ≤ 127 := UInt8.not_lt.mp hhigh
    omega
  have hmem : ∀ mode, (decode c).toNat < 64 → encode mode (decode c).toNat = c →
      c ∈ alphabet mode := by
    intro mode hlt heq
    exact mem_map.mpr ⟨_, mem_range.mpr hlt, heq⟩
  have hread := encode_decode_char c.toNat hlow
  rw [UInt8.ofNat_toNat] at hread
  rcases hread with hc | hc | ⟨hlt, hc | hc⟩
  · exact absurd hc hpad
  · exact .inr ⟨hpad, hc⟩
  · exact absurd (hmem _ hlt hc) hcommon
  · exact absurd (hmem _ hlt hc) huri

lemma decodeLoop_inserted (h : Inserted e t) (acc : Word) (bits : Nat)
    (o : Output) : decodeLoop t acc bits o = decodeLoop e acc bits o := by
  induction h generalizing acc bits o with
  | nil => rfl
  | keep c rest ih =>
    simp only [decodeLoop, ih]
  | insert c foreign rest ih =>
    rw [decodeLoop]
    rcases foreign_skipped foreign with hhigh | ⟨hpad, hdecode⟩
    · rw [if_pos hhigh, ih]
    · simp [hpad, hdecode, ih]

lemma Inserted.length_le (h : Inserted e t) : e.length ≤ t.length := by
  induction h with
  | nil => exact Nat.le_refl 0
  | keep c rest ih => exact Nat.succ_le_succ ih
  | insert c foreign rest ih => exact Nat.le_succ_of_le ih

lemma decodeLoop_pad (rest : List UInt8) (acc : Word) (bits : Nat) (o : Output) :
    decodeLoop (kPad :: rest) acc bits o = (0, o) := by
  rw [decodeLoop, if_neg (by decide), if_pos rfl]

lemma decodeLoop_encoded (mode : Base64EncodeMode) (s : List UInt8) (acc : Word) (o : Output)
    (before : List UInt8) (room : Nat) (h : Filled o before (s.length + room)) :
    ∃ o', decodeLoop (encoded mode s) acc 0 o = (0, o') ∧ Filled o' (before ++ s) room := by
  induction s using encoded.induct generalizing acc o before with
  | case1 a b c rest ih =>
    have ha := a.toNat_lt
    have hb := b.toNat_lt
    have hc := c.toNat_lt
    rw [encoded]
    obtain ⟨acc₁, hacc₁, h₁⟩ := decodeLoop_first mode (i := a.toNat / 4) (by omega) _ acc o
    obtain ⟨acc₂, hacc₂, h₂⟩ := decodeLoop_next mode 6 (by decide) (by decide)
      (i := a.toNat % 4 * 16 + b.toNat / 16) (by omega) hacc₁ (b := a) (by omega) _ o
    obtain ⟨acc₃, hacc₃, h₃⟩ := decodeLoop_next mode 4 (by decide) (by decide)
      (i := b.toNat % 16 * 4 + c.toNat / 64) (by omega) hacc₂ (b := b) (by omega) _ (o.put a)
    obtain ⟨acc₄, hacc₄, h₄⟩ := decodeLoop_next mode 2 (by decide) (by decide)
      (i := c.toNat % 64) (by omega) hacc₃ (b := c) (by omega) _ ((o.put a).put b)
    rw [h₁, h₂, h₃, h₄]
    have hroom : Filled o before (rest.length + room + 1 + 1 + 1) := by
      have hlen : (a :: b :: c :: rest).length + room = rest.length + room + 1 + 1 + 1 := by
        simp only [length_cons]
        omega
      rwa [hlen] at h
    obtain ⟨o', ho', hfilled⟩ := ih acc₄ _ _ (((hroom.put a).put b).put c)
    exact ⟨o', ho', by simpa using hfilled⟩
  | case2 a b =>
    have ha := a.toNat_lt
    have hb := b.toNat_lt
    rw [encoded]
    obtain ⟨acc₁, hacc₁, h₁⟩ := decodeLoop_first mode (i := a.toNat / 4) (by omega) _ acc o
    obtain ⟨acc₂, hacc₂, h₂⟩ := decodeLoop_next mode 6 (by decide) (by decide)
      (i := a.toNat % 4 * 16 + b.toNat / 16) (by omega) hacc₁ (b := a) (by omega) _ o
    obtain ⟨acc₃, hacc₃, h₃⟩ := decodeLoop_next mode 4 (by decide) (by decide)
      (i := b.toNat % 16 * 4) (by omega) hacc₂ (b := b) (by omega) _ (o.put a)
    rw [h₁, h₂, h₃, decodeLoop_pad]
    have hroom : Filled o before (room + 1 + 1) := by
      rwa [show [a, b].length + room = room + 1 + 1 by simp; omega] at h
    exact ⟨_, rfl, by simpa using (hroom.put a).put b⟩
  | case3 a =>
    have ha := a.toNat_lt
    rw [encoded]
    obtain ⟨acc₁, hacc₁, h₁⟩ := decodeLoop_first mode (i := a.toNat / 4) (by omega) _ acc o
    obtain ⟨acc₂, hacc₂, h₂⟩ := decodeLoop_next mode 6 (by decide) (by decide)
      (i := a.toNat % 4 * 16) (by omega) hacc₁ (b := a) (by omega) _ o
    rw [h₁, h₂, decodeLoop_pad]
    have hroom : Filled o before (room + 1) := by
      rwa [show [a].length + room = room + 1 by simp; omega] at h
    exact ⟨_, rfl, hroom.put a⟩
  | case4 => exact ⟨o, by rw [encoded, decodeLoop], by simpa using h⟩

theorem base64Decode_inserted (s output output' : List UInt8) (mode mode' : Base64EncodeMode)
    (t : List UInt8) (h : Inserted (base64Encode s output mode).2 t) :
    base64Decode t output' mode' = (true, s) := by
  rw [base64Encode_eq] at h
  have hlen := h.length_le
  rw [length_encoded] at hlen
  have hstart := filled_resize output' ((t.length + 3) / 4 * 3)
  have hroom : (t.length + 3) / 4 * 3 = s.length + ((t.length + 3) / 4 * 3 - s.length) := by omega
  rw [hroom] at hstart
  obtain ⟨o', ho', hfilled⟩ := decodeLoop_encoded mode s 0 _ [] _ hstart
  rw [← decodeLoop_inserted h, ← hroom] at ho'
  rw [base64Decode, ho']
  simp [hfilled.resize]

theorem base64Decode_inserted_line :
    base64Encode [255, 239] [] .URI = (true, [95, 45, 56, 61]) ∧
      base64Decode [95, 10, 45, 200, 56, 61, 10] [] .COMMON = (true, [255, 239]) := by
  have henc : base64Encode [255, 239] [] .URI = (true, [95, 45, 56, 61]) := by
    rw [base64Encode_eq]
    decide
  refine ⟨henc, base64Decode_inserted [255, 239] [] [] .URI .COMMON _ ?_⟩
  rw [henc]
  exact .keep _ (.insert _ (by decide) (.keep _ (.insert _ (by decide)
    (.keep _ (.keep _ (.insert _ (by decide) .nil))))))

end Acc.Base64
