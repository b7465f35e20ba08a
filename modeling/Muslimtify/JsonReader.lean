import Muslimtify.CDouble

/-!
# The JSON reader and the string writer

The reader builds no tree. `jsonFindKey` walks the raw text with a depth
counter, steps over every string token whole and compares a string with the key
only at depth one before a colon. `jsonExtractValue` then finds the end of the
value by one of three rules and copies it out, strings unescaped. A pointer
into the text is the rest of the text from there on.

The scanning loop takes a bound on its number of steps. The length of the text
is enough, because each step consumes a byte. Allocation from the arena is
taken to succeed.
-/
namespace Muslimtify.JsonReader
open CText CDouble

def quote : UInt8 := 0x22
def backslash : UInt8 := 0x5c
def colon : UInt8 := 0x3a
def comma : UInt8 := 0x2c
def objectOpen : UInt8 := 0x7b
def objectClose : UInt8 := 0x7d
def arrayOpen : UInt8 := 0x5b
def arrayClose : UInt8 := 0x5d
def letterU : UInt8 := 0x75

def depthLimit : ℤ := 100

def jsonHexDigitValue (c : UInt8) : Option ℕ := hexDigitValue c

/-- Four hex digits at the front of `p`, most significant first. -/
def jsonReadHex4 : CString → Option ℕ
  | a :: b :: c :: d :: _ => do
      let a ← jsonHexDigitValue a
      let b ← jsonHexDigitValue b
      let c ← jsonHexDigitValue c
      let d ← jsonHexDigitValue d
      return ((a * 16 + b) * 16 + c) * 16 + d
  | _ => none

/-- The UTF-8 bytes of a code point. Surrogates and values past the last plane
have none. -/
def jsonUtf8Encode (cp : ℕ) : Option CString :=
  if cp ≤ 0x7f then some [cp.toUInt8]
  else if cp ≤ 0x7ff then some [(0xc0 ||| cp >>> 6).toUInt8, (0x80 ||| cp &&& 0x3f).toUInt8]
  else if 0xd800 ≤ cp ∧ cp ≤ 0xdfff then none
  else if cp ≤ 0xffff then
    some [(0xe0 ||| cp >>> 12).toUInt8, (0x80 ||| (cp >>> 6) &&& 0x3f).toUInt8,
      (0x80 ||| cp &&& 0x3f).toUInt8]
  else if 0x10ffff < cp then none
  else
    some [(0xf0 ||| cp >>> 18).toUInt8, (0x80 ||| (cp >>> 12) &&& 0x3f).toUInt8,
      (0x80 ||| (cp >>> 6) &&& 0x3f).toUInt8, (0x80 ||| cp &&& 0x3f).toUInt8]

/-- The byte of a two-byte escape, by the letter after the backslash. -/
def simpleEscape (e : UInt8) : Option UInt8 :=
  if e = 0x22 then some 0x22
  else if e = 0x5c then some 0x5c
  else if e = 0x2f then some 0x2f
  else if e = 0x62 then some 0x08
  else if e = 0x66 then some 0x0c
  else if e = 0x6e then some 0x0a
  else if e = 0x72 then some 0x0d
  else if e = 0x74 then some 0x09
  else none

/-- The rest of `key` after the bytes `bs`, the inner comparison loop of
`json_slice_equals`. -/
def stripBytes : CString → CString → Option CString
  | [], key => some key
  | _ :: _, [] => none
  | b :: bs, k :: key => if k = b then stripBytes bs key else none

/-- One turn of the comparison loop of `json_slice_equals`: the bytes to
compare, and how many further bytes of the raw text they were read from. -/
def compareUnit (c : UInt8) (cs : CString) : Option (CString × ℕ) :=
  if c = backslash then
    match cs with
    | [] => none
    | e :: es =>
        match simpleEscape e with
        | some b => some ([b], 1)
        | none =>
            if e = letterU then
              ((jsonReadHex4 es).bind jsonUtf8Encode).map fun bs => (bs, 5)
            else none
  else some ([c], 0)

def compareLoop : CString → ℕ → CString → Bool
  | [], _, key => key.isEmpty
  | _ :: cs, n + 1, key => compareLoop cs n key
  | _ :: _, 0, [] => false
  | c :: cs, 0, k :: key =>
      match compareUnit c cs with
      | none => false
      | some (bs, n) =>
          match stripBytes bs (k :: key) with
          | none => false
          | some key' => compareLoop cs n key'

/-- Compare the raw text of a string with a key, decoding escapes on the fly. -/
def jsonSliceEquals (lhs rhs : CString) : Bool := compareLoop lhs 0 rhs

/-- The raw text of a string token up to its closing quote, and what follows
the quote. A token that does not end gives nothing. -/
def scanString : CString → Option (CString × CString)
  | [] => none
  | c :: cs =>
      if c = backslash then
        match cs with
        | [] => none
        | e :: es => (scanString es).map fun p => (c :: e :: p.1, p.2)
      else if c = quote then some ([], cs)
      else (scanString cs).map fun p => (c :: p.1, p.2)

/-- The loop of `json_find_key`. The answer is the text from the value on. -/
def findKeyLoop (key : CString) : ℕ → CString → ℤ → Option CString
  | 0, _, _ => none
  | _ + 1, [], _ => none
  | n + 1, c :: cs, depth =>
      if c = quote then
        match scanString cs with
        | none => none
        | some (raw, rest) =>
            let after := skipWhitespace rest
            if depth = 1 ∧ after.head? = some colon ∧ jsonSliceEquals raw key = true then
              some (skipWhitespace after.tail)
            else findKeyLoop key n rest depth
      else if c = arrayOpen ∨ c = objectOpen then
        if depthLimit < depth + 1 then none else findKeyLoop key n cs (depth + 1)
      else if c = arrayClose ∨ c = objectClose then findKeyLoop key n cs (depth - 1)
      else findKeyLoop key n cs depth

def jsonFindKey (key json : CString) : Option CString := findKeyLoop key json.length json 0

/-- The loop of `find_matching_bracket`: the text up to and with the closing
bracket, and what follows it. -/
def matchLoop (op cl : UInt8) : CString → ℤ → Bool → Bool → Option (CString × CString)
  | [], _, _, _ => none
  | c :: cs, depth, inString, escaped =>
      let go (depth : ℤ) (inString escaped : Bool) :=
        (matchLoop op cl cs depth inString escaped).map fun p => (c :: p.1, p.2)
      if inString then
        if escaped then go depth true false
        else if c = backslash then go depth true true
        else if c = quote then go depth false false
        else go depth true false
      else if c = quote then go depth true false
      else if c = op then
        if depthLimit < depth + 1 then none else go (depth + 1) false false
      else if c = cl then
        if depth - 1 = 0 then some ([c], cs) else go (depth - 1) false false
      else go depth false false

def findMatchingBracket (start : CString) (op : UInt8) : Option (CString × CString) :=
  match start with
  | [] => none
  | c :: cs =>
      if c = op then
        let cl := if op = objectOpen then objectClose else arrayClose
        (matchLoop op cl cs 1 false false).map fun p => (c :: p.1, p.2)
      else none

/-- The raw text of a string value. Unlike `scanString` it takes a string that
the end of the text cuts off. -/
def rawValue : CString → CString
  | [] => []
  | c :: cs =>
      if c = quote then []
      else if c = backslash then
        match cs with
        | [] => [c]
        | e :: es => c :: e :: rawValue es
      else c :: rawValue cs

/-- U+FFFD in UTF-8. -/
def replacement : CString := [0xef, 0xbf, 0xbd]

/-- The UTF-8 bytes a `\uXXXX` escape decodes to when no low half follows. -/
def decodeUnit (cp : ℕ) : CString :=
  if 0xd800 ≤ cp ∧ cp ≤ 0xdfff ∨ cp = 0 then replacement
  else (jsonUtf8Encode cp).getD []

/-- The low half of a surrogate pair, when `src` goes on with an escape of one. -/
def lowHalf (src : CString) : Option ℕ :=
  match src with
  | b :: u :: t =>
      if b = backslash ∧ u = letterU then
        (jsonReadHex4 t).filter fun low => 0xdc00 ≤ low && low ≤ 0xdfff
      else none
  | _ => none

/-- One turn of the copy loop of `json_extract_value`: what it writes, and how
many further bytes of the source it takes. An escape that is not one is kept as
it stands. -/
def copyUnit (c : UInt8) (cs : CString) : CString × ℕ :=
  if c = backslash then
    match cs with
    | [] => ([c], 0)
    | e :: es =>
        match simpleEscape e with
        | some b => ([b], 1)
        | none =>
            if e = letterU then
              match jsonReadHex4 es with
              | none => ([c, e], 1)
              | some cp =>
                  if 0xd800 ≤ cp ∧ cp ≤ 0xdbff then
                    match lowHalf (es.drop 4) with
                    | some low =>
                        ((jsonUtf8Encode
                          (0x10000 + (cp - 0xd800) * 1024 + (low - 0xdc00))).getD [], 11)
                    | none => (decodeUnit cp, 5)
                  else (decodeUnit cp, 5)
            else ([c, e], 1)
  else ([c], 0)

def copyLoop : CString → ℕ → CString
  | [], _ => []
  | _ :: cs, n + 1 => copyLoop cs n
  | c :: cs, 0 => (copyUnit c cs).1 ++ copyLoop cs (copyUnit c cs).2

/-- The decoded bytes of the raw text of a string. -/
def unescape (raw : CString) : CString := copyLoop raw 0

/-- A number, `true`, `false` or `null` ends before any of these. -/
def endsToken (c : UInt8) : Bool :=
  isspace c || c = comma || c = objectClose || c = arrayClose

def jsonExtractValue (valueStart : CString) : Option CString :=
  match skipWhitespace valueStart with
  | [] => some []
  | c :: cs =>
      if c = quote then some (unescape (rawValue cs))
      else if c = objectOpen ∨ c = arrayOpen then
        (findMatchingBracket (c :: cs) c).map Prod.fst
      else some ((c :: cs).takeWhile fun d => !endsToken d)

def getValue (key json : CString) : Option CString :=
  (jsonFindKey key json).bind jsonExtractValue

section Writer

def hexByte (d : ℕ) : UInt8 := if d < 10 then (0x30 + d).toUInt8 else (0x61 + (d - 10)).toUInt8

/-- How one byte is written inside a string. -/
def escapeByte (c : UInt8) : CString :=
  if c = 0x22 then [backslash, 0x22]
  else if c = 0x5c then [backslash, 0x5c]
  else if c = 0x08 then [backslash, 0x62]
  else if c = 0x0c then [backslash, 0x66]
  else if c = 0x0a then [backslash, 0x6e]
  else if c = 0x0d then [backslash, 0x72]
  else if c = 0x09 then [backslash, 0x74]
  else if c < 0x20 then
    [backslash, letterU, 0x30, 0x30, hexByte (c.toNat / 16), hexByte (c.toNat % 16)]
  else [c]

def escapeBytes (s : CString) : CString := s.flatMap escapeByte

def jsonWriteEscaped (s : CString) : CString := quote :: (escapeBytes s ++ [quote])

end Writer

end Muslimtify.JsonReader
