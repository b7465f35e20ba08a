import Muslimtify.JsonLookup

/-!
# Names and values

The escapes of a string are decoded twice in the reader. `json_slice_equals`
decodes a name one escape at a time and compares on the fly, and
`json_extract_value` decodes a value into a buffer and looks past a high half
for the low one. Both take the bytes between the quotes as they stand, UTF-8 or
not, so a literal is here a list of characters of the grammar and of such bytes.

Away from the halves of pairs and from zero the two agree piece by piece. A
name with one of these equals no key, and as a value it still decodes to one.
-/
namespace Muslimtify.KeyMatching
open CText JsonReader JsonDocument JsonGrammar JsonLookup

section Literals

/-- A piece of the raw text of a string. -/
inductive Piece where
  | char (ch : StringChar)
  | byte (b : UInt8) (unescaped : Unescaped b)

abbrev Literal := List Piece

namespace Piece

def text : Piece → CString
  | char ch => ch.text
  | byte b _ => [b]

/-- No escape of a surrogate and none of zero. -/
def IsWhole : Piece → Prop
  | char ch => JsonLookup.IsWhole ch
  | byte _ _ => True

/-- What a whole piece stands for. -/
def bytes : Piece → CString
  | char ch => String.utf8EncodeChar (wholeChar ch)
  | byte b _ => [b]

end Piece

/-- What stands between the quotes. -/
def literalText (s : Literal) : CString := s.flatMap Piece.text

def IsSpelledOut (s : Literal) : Prop := ∀ p ∈ s, p.IsWhole

theorem literalText_cons (p : Piece) (s : Literal) :
    literalText (p :: s) = p.text ++ literalText s := List.flatMap_cons

theorem literalText_raw (s : Literal) : Raw (literalText s) := by
  induction s with
  | nil => exact .nil
  | cons p s ih =>
      rw [literalText_cons]
      apply Raw.append _ ih
      cases p with
      | char ch => simpa [rawText, Piece.text] using rawText_raw [ch]
      | byte b hb => exact .plain hb.1 hb.2.1 .nil

theorem literalText_nulFree (s : Literal) : NulFree (literalText s) := by
  induction s with
  | nil => exact nulFree_nil
  | cons p s ih =>
      rw [literalText_cons]
      refine nulFree_append.mpr ⟨?_, ih⟩
      cases p with
      | char ch => simpa [rawText, Piece.text] using rawText_nulFree [ch]
      | byte b hb => exact nulFree_cons.mpr ⟨hb.2.2, nulFree_nil⟩

end Literals

section Pieces
variable {p : Piece}

/-- The value's loop writes the bytes of a whole piece. -/
theorem copyLoop_piece (h : p.IsWhole) (t : CString) :
    copyLoop (p.text ++ t) 0 = p.bytes ++ copyLoop t 0 := by
  cases p with
  | char ch => exact copyLoop_whole h t
  | byte b hb => exact copyLoop_byte hb.2.1 t

/-- The key's loop takes them off the key. -/
theorem compareLoop_piece (h : p.IsWhole) (t key : CString) :
    compareLoop (p.text ++ t) 0 key = true ↔
      ∃ rest, key = p.bytes ++ rest ∧ compareLoop t 0 rest = true := by
  cases p with
  | char ch => exact compareLoop_whole h t key
  | byte b hb =>
      refine compareLoop_bytes (fun d hd => ?_) t key
      rw [List.mem_singleton.mp hd]
      exact hb.2.1

theorem compareLoop_half (h : ¬p.IsWhole) (t : CString) {key : CString} (hkey : NulFree key) :
    compareLoop (p.text ++ t) 0 key = false := by
  cases p with
  | char ch => exact compareLoop_broken h t hkey
  | byte b hb => exact absurd trivial h

end Pieces

/-- A key matches a literal exactly when this is spelled out and decodes to the key. -/
theorem jsonSliceEquals_literal (s : Literal) {key : CString} (hkey : NulFree key) :
    jsonSliceEquals (literalText s) key = true ↔
      IsSpelledOut s ∧ unescape (literalText s) = key := by
  unfold jsonSliceEquals unescape
  induction s generalizing key with
  | nil => cases key <;> simp [literalText, compareLoop, copyLoop, IsSpelledOut]
  | cons p s ih =>
      rw [literalText_cons]
      by_cases hp : p.IsWhole
      · rw [compareLoop_piece hp, copyLoop_piece hp]
        constructor
        · rintro ⟨rest, rfl, hrest⟩
          obtain ⟨hs, rfl⟩ := (ih (nulFree_append.mp hkey).2).mp hrest
          exact ⟨List.forall_mem_cons.mpr ⟨hp, hs⟩, rfl⟩
        · rintro ⟨hs, rfl⟩
          exact ⟨_, rfl, (ih (nulFree_append.mp hkey).2).mpr ⟨(List.forall_mem_cons.mp hs).2, rfl⟩⟩
      · rw [compareLoop_half hp _ hkey]
        constructor
        · intro h
          cases h
        · rintro ⟨hs, -⟩
          exact absurd (List.forall_mem_cons.mp hs).1 hp

/-- The value of a literal is what it decodes to, whatever follows the closing quote. -/
theorem jsonExtractValue_literal (s : Literal) (rest : CString) :
    jsonExtractValue (quote :: (literalText s ++ quote :: rest)) =
      some (unescape (literalText s)) := by
  have hspace : isspace quote = false := by decide
  rw [jsonExtractValue, skipWhitespace_of_head hspace]
  dsimp only
  rw [if_pos rfl, rawValue_raw (literalText_raw s)]

/-- The same bytes are matched as a name and decoded as a value, for every key, exactly when no
escape of the literal is half of a pair or zero. -/
theorem key_matches_value_iff (s : Literal) (rest : CString) :
    (∀ key, NulFree key → (jsonSliceEquals (literalText s) key = true ↔
      jsonExtractValue (quote :: (literalText s ++ quote :: rest)) = some key)) ↔
      IsSpelledOut s := by
  constructor
  · intro h
    have hkey := unescape_nulFree (literalText_nulFree s)
    have hmatch := (h _ hkey).mpr (jsonExtractValue_literal s rest)
    exact ((jsonSliceEquals_literal s hkey).mp hmatch).1
  · intro hs key hkey
    rw [jsonSliceEquals_literal s hkey, jsonExtractValue_literal, Option.some_inj]
    exact and_iff_right hs

/-- U+1F600 in two escapes, as ASCII writers put it. -/
def pairLiteral : Literal := [.char (.ofUnit 0xd83d), .char (.ofUnit 0xde00)]

theorem pair_decoded_not_matched :
    literalText pairLiteral = ascii "\\ud83d\\ude00" ∧
      ¬(jsonSliceEquals (literalText pairLiteral) [0xf0, 0x9f, 0x98, 0x80] = true ↔
        jsonExtractValue (quote :: (literalText pairLiteral ++ [quote])) =
          some [0xf0, 0x9f, 0x98, 0x80]) := by
  decide +kernel

end Muslimtify.KeyMatching
