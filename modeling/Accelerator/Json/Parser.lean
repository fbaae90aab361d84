import Accelerator.Dynamic
import Accelerator.Unicode

namespace Acc.Json

open Conv Unicode

structure SerializationOpts where
  allowNonStringKeys : Bool := false
  javascriptSafe : Bool := false
  prettyFormatting : Bool := false
  encodeNonAscii : Bool := false
  validateUtf8 : Bool := false
  allowTrailingComma : Bool := false
  sortKeys : Bool := false
  skipInvalidUtf8 : Bool := false
  allowNanInf : Bool := false
  doubleMode : DtoaMode := .shortest
  doubleNumDigits : UInt32 := 0
  doubleFallback : Bool := false
  parseNumbersAsStrings : Bool := false
  recursionLimit : UInt32 := 100

inductive Error
  | parse (line : UInt32) (context : List UInt8) (expected : String)
  | range (e : RangeError)
  | type (e : TypeError)
  | decode (e : DecodeError)
  | runtime (what : String)
  | fuel
  deriving DecidableEq, Repr

structure Input where
  range : List UInt8
  lineNum : UInt32 := 0
  currentRecursionLevel : UInt32 := 0

namespace Input

def current (inp : Input) : Int :=
  match inp.range with
  | [] => -1
  | b :: _ => if b < 128 then b.toNat else b.toNat - 256

def is (inp : Input) (c : Char) : Bool := inp.current == (c.toNat : Int)

def next (inp : Input) : Input := { inp with range := inp.range.drop 1 }

def skipWhile (inp : Input) (p : UInt8 → Bool) : List UInt8 × Input :=
  let skipped := inp.range.takeWhile p
  (skipped, { inp with
    range := inp.range.drop skipped.length
    lineNum := inp.lineNum + UInt32.ofNat (skipped.count 10) })

def skipDigits (inp : Input) : List UInt8 × Input := inp.skipWhile Decimal.isDigit

def skipMinusAndDigits (inp : Input) : List UInt8 × Input :=
  match inp.range with
  | 45 :: _ =>
    let (digits, inp) := inp.next.skipDigits
    (45 :: digits, inp)
  | _ => inp.skipDigits

def isWhitespace (b : UInt8) : Bool := b == 32 || b == 10 || b == 9 || b == 13

def skipWhitespace (inp : Input) : Input :=
  { inp with range := inp.range.dropWhile isWhitespace }

def context (inp : Input) : List UInt8 := inp.range.take 16

def error {α : Type} (inp : Input) (what : String) : Except Error α :=
  .error (.parse inp.lineNum inp.context what)

def expect (inp : Input) (c : Char) : Except Error Input :=
  if inp.is c then .ok inp.next
  else inp.error ("expected '" ++ String.singleton c ++ "'")

def consume (inp : Input) (str : List UInt8) : Option Input :=
  if str.isPrefixOf inp.range then some { inp with range := inp.range.drop str.length }
  else none

def incrementRecursionLevel (opts : SerializationOpts) (inp : Input) : Except Error Input :=
  if inp.currentRecursionLevel > opts.recursionLimit then inp.error "recursion limit exceeded"
  else .ok { inp with currentRecursionLevel := inp.currentRecursionLevel + 1 }

def decrementRecursionLevel (inp : Input) : Input :=
  { inp with currentRecursionLevel := inp.currentRecursionLevel - 1 }

end Input

def hexVal (inp : Input) : Except Error Nat :=
  let c := inp.current
  if 48 ≤ c ∧ c ≤ 57 then .ok (c - 48).toNat
  else if 97 ≤ c ∧ c ≤ 102 then .ok (c - 97 + 10).toNat
  else if 65 ≤ c ∧ c ≤ 70 then .ok (c - 65 + 10).toNat
  else inp.error "invalid hex digit"

def readHex (inp : Input) : Except Error (Nat × Input) := do
  if inp.range.length < 4 then inp.error "expected 4 hex digits"
  else
    let h0 ← hexVal inp
    let inp := inp.next
    let h1 ← hexVal inp
    let inp := inp.next
    let h2 ← hexVal inp
    let inp := inp.next
    let h3 ← hexVal inp
    pure (h0 * 4096 + h1 * 256 + h2 * 16 + h3, inp.next)

def decodeUnicodeEscape (inp : Input) : Except Error (List UInt8 × Input) := do
  let (codePoint, inp) ← readHex inp
  if 0xd800 ≤ codePoint ∧ codePoint ≤ 0xdbff then
    match inp.consume [92, 117] with
    | none =>
      inp.error "expected another unicode escape for second half of surrogate pair"
    | some inp =>
      let (second, inp) ← readHex inp
      if 0xdc00 ≤ second ∧ second ≤ 0xdfff then
        let codePoint := 0x10000 + ((codePoint &&& 0x3ff) <<< 10) + (second &&& 0x3ff)
        pure (codePointToUtf8 (UInt32.ofNat codePoint), inp)
      else inp.error "second character in surrogate pair is invalid"
  else if 0xdc00 ≤ codePoint ∧ codePoint ≤ 0xdfff then
    inp.error "invalid unicode code point (in range [0xdc00,0xdfff])"
  else pure (codePointToUtf8 (UInt32.ofNat codePoint), inp)

def parseEscape (inp : Input) : Except Error (List UInt8 × Input) :=
  if inp.is '"' then .ok ([34], inp.next)
  else if inp.is '\\' then .ok ([92], inp.next)
  else if inp.is '/' then .ok ([47], inp.next)
  else if inp.is 'b' then .ok ([8], inp.next)
  else if inp.is 'f' then .ok ([12], inp.next)
  else if inp.is 'n' then .ok ([10], inp.next)
  else if inp.is 'r' then .ok ([13], inp.next)
  else if inp.is 't' then .ok ([9], inp.next)
  else if inp.is 'u' then decodeUnicodeEscape inp.next
  else inp.error ("unknown escape " ++ toString inp.current ++ " in string")

def parseStringLoop : Nat → List UInt8 → Input → Except Error (List UInt8 × Input)
  | 0, _, _ => .error .fuel
  | fuel + 1, ret, inp => do
      let (range, inp) := inp.skipWhile fun c => c != 34 && c != 92
      let ret := ret ++ range
      if inp.is '"' then pure (ret, inp.next)
      else if inp.is '\\' then
        let (escaped, inp) ← parseEscape inp.next
        parseStringLoop fuel (ret ++ escaped) inp
      else if inp.current = -1 then inp.error "unterminated string"
      else if inp.current = 0 then inp.error "null byte in string"
      else parseStringLoop fuel (ret ++ inp.range.take 1) inp.next

def parseString (inp : Input) : Except Error (List UInt8 × Input) :=
  parseStringLoop (inp.range.length + 1) [] inp.next

section Values

variable {F : Type} [Double F]

def liftRange {α : Type} : Except RangeError α → Except Error α
  | .ok a => .ok a
  | .error e => .error (.range e)

def maxInt : List UInt8 :=
  [57, 50, 50, 51, 51, 55, 50, 48, 51, 54, 56, 53, 52, 55, 55, 53, 56, 48, 55]

def minInt : List UInt8 :=
  [45, 57, 50, 50, 51, 51, 55, 50, 48, 51, 54, 56, 53, 52, 55, 55, 53, 56, 48, 56]

def pieceLe (a b : List UInt8) : Bool := !Dynamic.bytesLt b a

def integralValue (opts : SerializationOpts) (negative : Bool) (integral : List UInt8) :
    Except Error (Dynamic F) :=
  if !opts.doubleFallback || integral.length < maxInt.length ||
      (!negative && integral.length == maxInt.length && pieceLe integral maxInt) ||
      (negative && integral.length == minInt.length && pieceLe integral minInt) then do
    let val ← liftRange (toIntegral int64 integral)
    pure (.int64 (Int64.ofBitVec val))
  else do
    let val ← liftRange (Double.fromText integral)
    pure (.double val)

def parseNumber (opts : SerializationOpts) (inp : Input) : Except Error (Dynamic F × Input) := do
  let start := inp.range
  let negative := inp.is '-'
  match (if negative then inp.consume [45, 73, 110, 102, 105, 110, 105, 116, 121] else none) with
  | some inp =>
    if opts.parseNumbersAsStrings then
      pure (.string [45, 73, 110, 102, 105, 110, 105, 116, 121], inp)
    else pure (.double Double.negInfinity, inp)
  | none =>
    let (integral, inp) := inp.skipMinusAndDigits
    if negative && integral.length < 2 then inp.error "expected digits after `-'"
    else
      let wasE := inp.is 'e' || inp.is 'E'
      if !inp.is '.' && !wasE then
        if opts.parseNumbersAsStrings then pure (.string integral, inp)
        else
          let val ← integralValue opts negative integral
          pure (val, inp.skipWhitespace)
      else
        let inp := if wasE then inp else inp.next.skipDigits.2
        let inp :=
          if inp.is 'e' || inp.is 'E' then
            let inp := inp.next
            let inp := if inp.is '+' || inp.is '-' then inp.next else inp
            inp.skipDigits.2
          else inp
        let fullNum := start.take (start.length - inp.range.length)
        if opts.parseNumbersAsStrings then pure (.string fullNum, inp)
        else
          let val ← liftRange (Double.fromText fullNum)
          pure (.double val, inp)

def parseKeyword (opts : SerializationOpts) (inp : Input) : Except Error (Dynamic F × Input) :=
  match inp.consume [116, 114, 117, 101] with
  | some inp => .ok (.bool true, inp)
  | none =>
  match inp.consume [102, 97, 108, 115, 101] with
  | some inp => .ok (.bool false, inp)
  | none =>
  match inp.consume [110, 117, 108, 108] with
  | some inp => .ok (.null, inp)
  | none =>
  match inp.consume [73, 110, 102, 105, 110, 105, 116, 121] with
  | some inp =>
    .ok (if opts.parseNumbersAsStrings then .string [73, 110, 102, 105, 110, 105, 116, 121]
      else .double Double.infinity, inp)
  | none =>
  match inp.consume [78, 97, 78] with
  | some inp =>
    .ok (if opts.parseNumbersAsStrings then .string [78, 97, 78]
      else .double Double.quietNaN, inp)
  | none => inp.error "expected json value"

def parseScalar (opts : SerializationOpts) (inp : Input) : Except Error (Dynamic F × Input) :=
  if inp.is '"' then (parseString inp).map fun (s, inp) => (.string s, inp)
  else if inp.is '-' || (48 ≤ inp.current ∧ inp.current ≤ 57) then parseNumber opts inp
  else parseKeyword opts inp

def leaveGuard (r : Except Error (Dynamic F × Input)) : Except Error (Dynamic F × Input) :=
  r.map fun (val, inp) => (val, inp.decrementRecursionLevel)

def insertItem (items : List (Dynamic F × Dynamic F)) (key val : Dynamic F) :
    Except Error (List (Dynamic F × Dynamic F)) :=
  match Dynamic.insert items key val with
  | .ok items => .ok items
  | .error e => .error (.type e)

mutual

def parseValue (opts : SerializationOpts) : Nat → Input → Except Error (Dynamic F × Input)
  | 0, _ => .error .fuel
  | fuel + 1, inp =>
    match inp.incrementRecursionLevel opts with
    | .error e => .error e
    | .ok inp =>
      let inp := inp.skipWhitespace
      leaveGuard
        (if inp.is '[' then parseArray opts fuel inp
        else if inp.is '\x7b' then parseObject opts fuel inp
        else parseScalar opts inp)

def parseArray (opts : SerializationOpts) : Nat → Input → Except Error (Dynamic F × Input)
  | 0, _ => .error .fuel
  | fuel + 1, inp =>
    let inp := inp.next.skipWhitespace
    if inp.is ']' then .ok (.array [], inp.next)
    else do
      let (xs, inp) ← parseArrayLoop opts fuel [] inp
      let inp ← inp.expect ']'
      pure (.array xs, inp)

def parseArrayLoop (opts : SerializationOpts) :
    Nat → List (Dynamic F) → Input → Except Error (List (Dynamic F) × Input)
  | 0, _, _ => .error .fuel
  | fuel + 1, ret, inp =>
    if opts.allowTrailingComma && inp.is ']' then .ok (ret, inp)
    else do
      let (val, inp) ← parseValue opts fuel inp
      let ret := ret ++ [val]
      let inp := inp.skipWhitespace
      if !inp.is ',' then pure (ret, inp)
      else parseArrayLoop opts fuel ret inp.next.skipWhitespace

def parseObject (opts : SerializationOpts) : Nat → Input → Except Error (Dynamic F × Input)
  | 0, _ => .error .fuel
  | fuel + 1, inp =>
    let inp := inp.next.skipWhitespace
    if inp.is '\x7d' then .ok (.object [], inp.next)
    else do
      let (items, inp) ← parseObjectLoop opts fuel [] inp
      let inp ← inp.expect '\x7d'
      pure (.object items, inp)

def parseObjectLoop (opts : SerializationOpts) :
    Nat → List (Dynamic F × Dynamic F) → Input →
      Except Error (List (Dynamic F × Dynamic F) × Input)
  | 0, _, _ => .error .fuel
  | fuel + 1, ret, inp =>
    if opts.allowTrailingComma && inp.is '\x7d' then .ok (ret, inp)
    else do
      let (key, inp) ← parseKey opts fuel inp
      let inp ← inp.skipWhitespace.expect ':'
      let (val, inp) ← parseValue opts fuel inp.skipWhitespace
      let ret ← insertItem ret key val
      let inp := inp.skipWhitespace
      if !inp.is ',' then pure (ret, inp)
      else parseObjectLoop opts fuel ret inp.next.skipWhitespace

def parseKey (opts : SerializationOpts) : Nat → Input → Except Error (Dynamic F × Input)
  | 0, _ => .error .fuel
  | fuel + 1, inp =>
    if inp.is '"' then (parseString inp).map fun (s, inp) => (.string s, inp)
    else if !opts.allowNonStringKeys then inp.error "expected string for object key name"
    else parseValue opts fuel inp

end

def parseJson (range : List UInt8) (opts : SerializationOpts) : Except Error (Dynamic F) := do
  let inp : Input := { range := range }
  let (ret, inp) ← parseValue opts (4 * range.length + 4) inp
  let inp := inp.skipWhitespace
  if inp.range.length ≠ 0 ∧ inp.current ≠ 0 then inp.error "parsing didn't consume all input"
  else pure ret

end Values

end Acc.Json
