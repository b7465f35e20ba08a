import Muslimtify.JsonReader

/-!
# The grammar of JSON texts

RFC 8259 as a syntax tree that keeps everything its text is made of: the white
space around every structural byte, the way each character of a string is
written and the parts of a number. A tree is well formed by construction, and
`text` spells it out, so the trees are exactly the texts of the grammar.

A string denotes UTF-16 code units. Each plain character gives its own one or
two, an escape gives one, and two escapes may together make a character of the
upper planes. `decodeUnits` puts U+FFFD for a half that stands alone and for
zero, which a C string cannot hold.
-/
namespace Muslimtify.JsonGrammar
open CText CDouble JsonReader

section Strings

/-- White space between tokens. -/
structure Ws where
  bytes : CString
  isWs : ∀ c ∈ bytes, c = 0x20 ∨ c = 0x09 ∨ c = 0x0a ∨ c = 0x0d

def Ws.none : Ws := ⟨[], List.forall_mem_nil _⟩

structure HexDigit where
  byte : UInt8
  isHex : isHexDigit byte = true

def HexDigit.value (d : HexDigit) : ℕ := (hexDigitValue d.byte).get d.isHex

/-- The two-byte escapes. -/
inductive Escape where
  | quotation | reverseSolidus | solidus | backspace | formFeed | lineFeed
  | carriageReturn | tab
  deriving DecidableEq, Repr

/-- The byte after the backslash. -/
def Escape.letter : Escape → UInt8
  | quotation => 0x22
  | reverseSolidus => 0x5c
  | solidus => 0x2f
  | backspace => 0x62
  | formFeed => 0x66
  | lineFeed => 0x6e
  | carriageReturn => 0x72
  | tab => 0x74

/-- The code point the escape stands for. -/
def Escape.codePoint : Escape → ℕ
  | quotation => 0x22
  | reverseSolidus => 0x5c
  | solidus => 0x2f
  | backspace => 0x08
  | formFeed => 0x0c
  | lineFeed => 0x0a
  | carriageReturn => 0x0d
  | tab => 0x09

/-- One character of a string as it is written. -/
inductive StringChar where
  | plain (c : Char) (unescaped : 0x20 ≤ c.toNat ∧ c.toNat ≠ 0x22 ∧ c.toNat ≠ 0x5c)
  | escape (e : Escape)
  | unicode (a b c d : HexDigit)

/-- The UTF-16 code units of a character. -/
def utf16 (n : ℕ) : List ℕ :=
  if n < 0x10000 then [n]
  else [0xd800 + (n - 0x10000) / 1024, 0xdc00 + (n - 0x10000) % 1024]

/-- The code unit of four hex digits. -/
def unitOf (a b c d : HexDigit) : ℕ :=
  ((a.value * 16 + b.value) * 16 + c.value) * 16 + d.value

namespace StringChar

def text : StringChar → CString
  | plain c _ => String.utf8EncodeChar c
  | escape e => [backslash, e.letter]
  | unicode a b c d => [backslash, letterU, a.byte, b.byte, c.byte, d.byte]

def units : StringChar → List ℕ
  | plain c _ => utf16 c.toNat
  | escape e => [e.codePoint]
  | unicode a b c d => [unitOf a b c d]

end StringChar

abbrev Chars := List StringChar

/-- What stands between the quotes. -/
def rawText (s : Chars) : CString := s.flatMap StringChar.text

def stringText (s : Chars) : CString := quote :: (rawText s ++ [quote])

def unitsOf (s : Chars) : List ℕ := s.flatMap StringChar.units

def IsHigh (u : ℕ) : Prop := 0xd800 ≤ u ∧ u ≤ 0xdbff

def IsLow (u : ℕ) : Prop := 0xdc00 ≤ u ∧ u ≤ 0xdfff

instance (u : ℕ) : Decidable (IsHigh u) := instDecidableAnd

instance (u : ℕ) : Decidable (IsLow u) := instDecidableAnd

/-- The character of a code unit that is no half of a pair. -/
def scalar (u : ℕ) : Char :=
  if u = 0 ∨ IsHigh u ∨ IsLow u then Char.ofNat 0xfffd else Char.ofNat u

/-- The code point of a surrogate pair. -/
def pairPoint (u v : ℕ) : ℕ := 0x10000 + (u - 0xd800) * 1024 + (v - 0xdc00)

def decodeUnits : List ℕ → List Char
  | [] => []
  | [u] => [scalar u]
  | u :: v :: us =>
      if IsHigh u ∧ IsLow v then Char.ofNat (pairPoint u v) :: decodeUnits us
      else scalar u :: decodeUnits (v :: us)

private theorem isHex_hexByte (n : ℕ) : isHexDigit (hexByte (n % 16)) = true := by
  have hall : ∀ d < 16, isHexDigit (hexByte d) = true := by decide
  exact hall _ (Nat.mod_lt _ (by decide))

def HexDigit.ofNat (n : ℕ) : HexDigit := ⟨hexByte (n % 16), isHex_hexByte n⟩

/-- The escape of a code unit. -/
def StringChar.ofUnit (u : ℕ) : StringChar :=
  .unicode (.ofNat (u / 4096)) (.ofNat (u / 256)) (.ofNat (u / 16)) (.ofNat u)

/-- A character of the Basic Multilingual Plane, plain where the grammar lets it be. -/
def StringChar.ofChar (c : Char) : StringChar :=
  if h : 0x20 ≤ c.toNat ∧ c.toNat ≠ 0x22 ∧ c.toNat ≠ 0x5c then .plain c h else .ofUnit c.toNat

def Chars.ofString (s : String) : Chars := s.toList.map .ofChar

/-- The characters a string denotes. -/
def decoded (s : Chars) : List Char := decodeUnits (unitsOf s)

def utf8 (cs : List Char) : CString := cs.flatMap String.utf8EncodeChar

end Strings

section Numbers

/-- A run of at least one digit. -/
structure Digits where
  bytes : CString
  ne_nil : bytes ≠ []
  isDigit : ∀ c ∈ bytes, isDigit c = true

structure Exponent where
  letter : UInt8
  isExp : letter = 0x65 ∨ letter = 0x45
  sign : CString
  isSign : sign = [] ∨ sign = [0x2b] ∨ sign = [0x2d]
  digits : Digits

structure Number where
  minus : Bool
  int : Digits
  noLeadingZero : int.bytes.head? = some 0x30 → int.bytes = [0x30]
  frac : Option Digits
  exp : Option Exponent

def fracText : Option Digits → CString
  | none => []
  | some ds => 0x2e :: ds.bytes

def expText : Option Exponent → CString
  | none => []
  | some e => e.letter :: (e.sign ++ e.digits.bytes)

def Number.text (n : Number) : CString :=
  (if n.minus then [0x2d] else []) ++ (n.int.bytes ++ (fracText n.frac ++ expText n.exp))

inductive Literal where
  | true | false | null
  deriving DecidableEq, Repr

def Literal.text : Literal → CString
  | true => ascii "true"
  | false => ascii "false"
  | null => ascii "null"

def Digits.ofNat (n : ℕ) : Digits := ⟨decimal n, decimal_ne_nil n, decimal_isDigit n⟩

private theorem decimal_noLeadingZero (n : ℕ) :
    (Digits.ofNat n).bytes.head? = some 0x30 → (Digits.ofNat n).bytes = [0x30] := by
  by_cases hn : n = 0
  · subst hn
    exact fun _ => rfl
  · intro h
    have hne : Nat.digits 10 n ≠ [] := Nat.digits_ne_nil_iff_ne_zero.mpr hn
    have hlast := Nat.getLast_digit_ne_zero 10 hn
    have hlt : (Nat.digits 10 n).getLast hne < 10 :=
      Nat.digits_lt_base (by decide) (List.getLast_mem hne)
    simp only [Digits.ofNat, decimal, if_neg hn, List.head?_map, List.head?_reverse,
      List.getLast?_eq_some_getLast hne, Option.map_some, Option.some.injEq] at h
    have hval := congrArg digitValue h
    rw [digitValue_digitByte hlt] at hval
    exact absurd hval hlast

/-- A natural number in decimal. -/
def Number.ofNat (n : ℕ) : Number where
  minus := false
  int := .ofNat n
  noLeadingZero := decimal_noLeadingZero n
  frac := none
  exp := none

end Numbers

section Trees

mutual

/-- A value. The white space of a block stands after its opening bracket. -/
inductive Json where
  | string (s : Chars)
  | number (n : Number)
  | literal (l : Literal)
  | array (ws : Ws) (elements : Elements)
  | object (ws : Ws) (members : Members)

inductive Elements where
  | nil
  | cons (before : Ws) (value : Json) (after : Ws) (rest : Elements)

inductive Members where
  | nil
  | cons (before : Ws) (name : Chars) (afterName beforeValue : Ws) (value : Json) (after : Ws)
      (rest : Members)

end

mutual

def Json.text : Json → CString
  | .string s => stringText s
  | .number n => n.text
  | .literal l => l.text
  | .array ws es => arrayOpen :: (ws.bytes ++ (es.text ++ [arrayClose]))
  | .object ws ms => objectOpen :: (ws.bytes ++ (ms.text ++ [objectClose]))

/-- The elements with the commas between them. -/
def Elements.text : Elements → CString
  | .nil => []
  | .cons before v after rest => before.bytes ++ (v.text ++ (after.bytes ++ rest.more))

/-- The elements with a comma before each. -/
def Elements.more : Elements → CString
  | .nil => []
  | .cons before v after rest =>
      comma :: (before.bytes ++ (v.text ++ (after.bytes ++ rest.more)))

def Members.text : Members → CString
  | .nil => []
  | .cons before name afterName beforeValue v after rest =>
      before.bytes ++ (stringText name ++ (afterName.bytes ++ colon :: (beforeValue.bytes ++
        (v.text ++ (after.bytes ++ rest.more)))))

def Members.more : Members → CString
  | .nil => []
  | .cons before name afterName beforeValue v after rest =>
      comma :: (before.bytes ++ (stringText name ++ (afterName.bytes ++ colon ::
        (beforeValue.bytes ++ (v.text ++ (after.bytes ++ rest.more))))))

end

mutual

/-- How deep the brackets of a value nest. -/
def Json.depth : Json → ℕ
  | .array _ es => es.depth + 1
  | .object _ ms => ms.depth + 1
  | _ => 0

def Elements.depth : Elements → ℕ
  | .nil => 0
  | .cons _ v _ rest => max v.depth rest.depth

def Members.depth : Members → ℕ
  | .nil => 0
  | .cons _ _ _ _ v _ rest => max v.depth rest.depth

end

/-- The values of an array, in order. -/
def Elements.list : Elements → List Json
  | .nil => []
  | .cons _ v _ rest => v :: rest.list

/-- The names and values of an object, in order. -/
def Members.list : Members → List (Chars × Json)
  | .nil => []
  | .cons _ name _ _ v _ rest => (name, v) :: rest.list

/-- A text whose root is an object. -/
structure Document where
  lead : Ws
  inner : Ws
  members : Members
  tail : Ws

namespace Document

def root (doc : Document) : Json := .object doc.inner doc.members

def text (doc : Document) : CString := doc.lead.bytes ++ (doc.root.text ++ doc.tail.bytes)

def depth (doc : Document) : ℕ := doc.root.depth

end Document

end Trees

end Muslimtify.JsonGrammar
