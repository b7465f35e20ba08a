import Muslimtify.JsonLayout
import Muslimtify.JsonWriter
import Muslimtify.StringWriters

/-!
# Trees for printed texts

A program that prints JSON line by line prints the text of a tree. The trees
here are built from plain data: strings as `jsonStr` spells them, numbers,
booleans, lists on one line, and objects and arrays with a line for each of
their parts. Their texts are given as the program would print them, and what
the reader makes of them by `readPath`, which looks up one name after another.
-/
namespace Muslimtify.JsonPrinting
open CText JsonReader JsonDocument JsonGrammar JsonLookup JsonLayout JsonWriter StringWriters

section Spelling

/-- One character as `jsonStr` writes it. -/
def spelled (c : Char) : StringChar :=
  if c.toNat = 0x22 then .escape .quotation
  else if c.toNat = 0x5c then .escape .reverseSolidus
  else .ofChar c

theorem spelled_whole {c : Char} (h : c.toNat ≠ 0) :
    IsWhole (spelled c) ∧ wholeChar (spelled c) = c := by
  unfold spelled
  split_ifs with hq hb
  · exact ⟨trivial, Char.toNat_inj.mp (by rw [hq]; rfl)⟩
  · exact ⟨trivial, Char.toNat_inj.mp (by rw [hb]; rfl)⟩
  · unfold StringChar.ofChar
    split_ifs with hplain
    · exact ⟨trivial, rfl⟩
    · -- a control character is written by its code unit
      have hlt : c.toNat < 0x20 := by omega
      have hunit : ∀ n < 0x20, unitOf (.ofNat (n / 4096)) (.ofNat (n / 256)) (.ofNat (n / 16))
          (.ofNat n) = n := by decide
      have hscalar : ¬(c.toNat = 0 ∨ IsHigh c.toNat ∨ IsLow c.toNat) := by
        simp only [IsHigh, IsLow]
        omega
      simp only [StringChar.ofUnit, IsWhole, wholeChar, hunit _ hlt, scalar, if_neg hscalar,
        Char.ofNat_toNat]
      exact ⟨hscalar, trivial⟩

/-- Only the quote, the reverse solidus and control bytes are escaped. -/
theorem jsonStrByte_self {b : UInt8} (hlow : 0x20 ≤ b.toNat) (hq : b.toNat ≠ 0x22)
    (hb : b.toNat ≠ 0x5c) : jsonStrByte b = [b] := by
  have hesc : ¬(b = 0x22 ∨ b = 0x5c) := by
    rintro (rfl | rfl)
    · exact hq rfl
    · exact hb rfl
  have hcontrol : ¬b < 0x20 := fun h => absurd (UInt8.lt_iff_toNat_lt.mp h) (Nat.not_lt.mpr hlow)
  rw [jsonStrByte, if_neg hesc, if_neg hcontrol]

theorem spelled_text (c : Char) :
    (spelled c).text = (String.utf8EncodeChar c).flatMap jsonStrByte := by
  by_cases hplain : 0x20 ≤ c.toNat ∧ c.toNat ≠ 0x22 ∧ c.toNat ≠ 0x5c
  · have hspelled : spelled c = .plain c hplain := by
      rw [spelled, if_neg hplain.2.1, if_neg hplain.2.2, StringChar.ofChar, dif_pos hplain]
    have hbytes : ∀ b ∈ String.utf8EncodeChar c, jsonStrByte b = [b] := by
      intro b hb
      rcases Nat.lt_or_ge c.toNat 0x80 with hlt | hge
      · rw [utf8_ascii hlt, List.mem_singleton] at hb
        have hnat : b.toNat = c.toNat := by
          rw [hb]
          exact Nat.mod_eq_of_lt (hlt.trans (by decide))
        exact jsonStrByte_self (hnat ▸ hplain.1) (hnat ▸ hplain.2.1) (hnat ▸ hplain.2.2)
      · have hhigh : 0x80 ≤ b.toNat := UInt8.le_iff_toNat_le.mp (utf8_high hge b hb)
        exact jsonStrByte_self (by omega) (by omega) (by omega)
    rw [hspelled, List.flatMap_congr hbytes, List.flatMap_singleton']
    rfl
  · -- what is escaped is a single byte
    have hall : ∀ n < 0x20, (spelled (Char.ofNat n)).text = jsonStrByte n.toUInt8 := by decide
    have hescaped : (spelled (Char.ofNat c.toNat)).text = jsonStrByte c.toNat.toUInt8 := by
      rcases Nat.lt_or_ge c.toNat 0x20 with hlow | hge
      · exact hall _ hlow
      · obtain h | h : c.toNat = 0x22 ∨ c.toNat = 0x5c := by omega
        · rw [h]
          decide
        · rw [h]
          decide
    rw [Char.ofNat_toNat] at hescaped
    rw [utf8_ascii (by omega), List.flatMap_singleton, hescaped]

/-- A text as `jsonStr` writes it. -/
def spell (cs : List Char) : Chars := cs.map spelled

theorem stringText_spell (cs : List Char) : stringText (spell cs) = jsonStr (utf8 cs) := by
  have hraw : rawText (spell cs) = (utf8 cs).flatMap jsonStrByte := by
    induction cs with
    | nil => rfl
    | cons c cs ih =>
        rw [spell, List.map_cons, rawText, List.flatMap_cons, ← rawText, ← spell, ih, spelled_text]
        simp [utf8]
  rw [stringText, hraw, jsonStr]

theorem decoded_spell {cs : List Char} (h : ∀ c ∈ cs, c.toNat ≠ 0) : decoded (spell cs) = cs := by
  induction cs with
  | nil => rfl
  | cons c cs ih =>
      obtain ⟨hwhole, hchar⟩ := spelled_whole (h c List.mem_cons_self)
      rw [spell, List.map_cons, decoded_cons hwhole, hchar, ← spell,
        ih fun d hd => h d (List.mem_cons_of_mem c hd)]

end Spelling

section Scalars

/-- A byte that a printer may put between quotes as it stands. -/
def isPlainText (b : UInt8) : Bool := 0x20 ≤ b && b < 0x80 && b ≠ quote && b ≠ backslash

def PlainText (s : CString) : Prop := ∀ b ∈ s, isPlainText b = true

instance (s : CString) : Decidable (PlainText s) := List.decidableBAll _ s

theorem PlainText.append {s t : CString} (hs : PlainText s) (ht : PlainText t) :
    PlainText (s ++ t) := List.forall_mem_append.mpr ⟨hs, ht⟩

theorem PlainText.cons {b : UInt8} {s : CString} (hb : isPlainText b = true) (hs : PlainText s) :
    PlainText (b :: s) := List.forall_mem_cons.mpr ⟨hb, hs⟩

theorem isPlainText_iff {b : UInt8} : isPlainText b = true ↔
    0x20 ≤ b.toNat ∧ b.toNat < 0x80 ∧ b.toNat ≠ 0x22 ∧ b.toNat ≠ 0x5c := by
  simp only [isPlainText, Bool.and_eq_true, decide_eq_true_eq, UInt8.le_iff_toNat_le,
    UInt8.lt_iff_toNat_lt, ne_eq, ← UInt8.toNat_inj, and_assoc]
  rfl

theorem digit_plain {b : UInt8} (h : isDigit b = true) : isPlainText b = true := by
  simp only [isDigit, Bool.and_eq_true, decide_eq_true_eq, UInt8.le_iff_toNat_le] at h
  obtain ⟨hlow, hhigh⟩ : 0x30 ≤ b.toNat ∧ b.toNat ≤ 0x39 := h
  exact isPlainText_iff.mpr ⟨by omega, by omega, by omega, by omega⟩

theorem plainText_digits {s : CString} (h : ∀ b ∈ s, isDigit b = true) : PlainText s :=
  fun b hb => digit_plain (h b hb)

theorem formatInt_plain (z : ℤ) : PlainText (formatInt z) := by
  have hdigits := plainText_digits (decimal_isDigit z.natAbs)
  unfold formatInt
  split_ifs
  · exact .cons (by decide) hdigits
  · exact hdigits

theorem formatIntPad_plain (w : ℕ) (z : ℤ) : PlainText (formatIntPad w z) := by
  have hpad : ∀ w, PlainText (zeroPad w (decimal z.natAbs)) := fun w =>
    .append (fun b hb => List.eq_of_mem_replicate hb ▸ by decide)
      (plainText_digits (decimal_isDigit z.natAbs))
  unfold formatIntPad
  split_ifs
  · exact .cons (by decide) (hpad _)
  · exact hpad _

theorem jsonStr_plain {s : CString} (h : PlainText s) : jsonStr s = quote :: (s ++ [quote]) := by
  have hall : ∀ b ∈ s, jsonStrByte b = [b] := fun b hb =>
    have hplain := isPlainText_iff.mp (h b hb)
    jsonStrByte_self hplain.1 hplain.2.2.1 hplain.2.2.2
  rw [jsonStr, List.flatMap_congr hall, List.flatMap_singleton']

/-- The characters of an ASCII text. -/
def asciiChars (s : CString) : List Char := s.map fun b => Char.ofNat b.toNat

theorem toNat_asciiChar (b : UInt8) : (Char.ofNat b.toNat).toNat = b.toNat :=
  char_toNat (.inl (b.toNat_lt.trans (by decide)))

theorem utf8_asciiChars {s : CString} (h : PlainText s) : utf8 (asciiChars s) = s := by
  have hall : ∀ b ∈ s, String.utf8EncodeChar (Char.ofNat b.toNat) = [b] := by
    intro b hb
    have hlt : (Char.ofNat b.toNat).toNat < 0x80 :=
      (toNat_asciiChar b).trans_lt (isPlainText_iff.mp (h b hb)).2.1
    rw [utf8_ascii hlt, toNat_asciiChar]
    exact congrArg (fun b => [b]) b.ofNat_toNat
  rw [utf8, asciiChars, List.flatMap_map, List.flatMap_congr hall, List.flatMap_singleton']

theorem asciiChars_ne_zero {s : CString} (h : PlainText s) : ∀ c ∈ asciiChars s, c.toNat ≠ 0 := by
  intro c hc
  obtain ⟨b, hb, rfl⟩ := List.mem_map.mp hc
  have hlow := (isPlainText_iff.mp (h b hb)).1
  rw [toNat_asciiChar]
  omega

def ofChars (cs : List Char) : Json := .string (spell cs)

theorem ofChars_text (cs : List Char) : (ofChars cs).text = jsonStr (utf8 cs) :=
  stringText_spell cs

theorem handed_ofChars {cs : List Char} (h : ∀ c ∈ cs, c.toNat ≠ 0) :
    handed (ofChars cs) = utf8 cs := by rw [ofChars, handed, decoded_spell h]

/-- A plain text as a string. -/
def ofText (s : CString) : Json := ofChars (asciiChars s)

theorem ofText_text {s : CString} (h : PlainText s) :
    (ofText s).text = quote :: (s ++ [quote]) := by
  rw [ofText, ofChars_text, utf8_asciiChars h, jsonStr_plain h]

theorem handed_ofText {s : CString} (h : PlainText s) : handed (ofText s) = s := by
  rw [ofText, handed_ofChars (asciiChars_ne_zero h), utf8_asciiChars h]

def ofInt (z : ℤ) : Json := .number { Number.ofNat z.natAbs with minus := decide (z < 0) }

theorem ofInt_text (z : ℤ) : (ofInt z).text = formatInt z := by
  rw [ofInt, formatInt]
  by_cases h : z < 0 <;>
    simp [Json.text, Number.text, Number.ofNat, Digits.ofNat, fracText, expText, h]

theorem ofInt_texts (zs : List ℤ) : (zs.map ofInt).map Json.text = zs.map formatInt := by
  rw [List.map_map]
  exact List.map_congr_left fun z _ => ofInt_text z

def ofBool (b : Bool) : Json := .literal (if b then .true else .false)

theorem ofBool_text (b : Bool) : (ofBool b).text = boolText b := by cases b <;> rfl

end Scalars

section Blocks

def lineWs (n : ℕ) : Ws where
  bytes := newline n
  isWs := by
    intro c hc
    rcases List.mem_cons.mp hc with rfl | hc
    · exact .inr (.inr (.inl rfl))
    · exact .inl (List.eq_of_mem_replicate hc)

def spaceWs : Ws := ⟨[0x20], List.forall_mem_singleton.mpr (.inl rfl)⟩

/-- Blanks before a line. -/
def blanks (n : ℕ) : CString := List.replicate n 0x20

/-- Parts one a line, with a comma behind all but the last. -/
def partLines (n : ℕ) : List CString → CString
  | [] => []
  | part :: rest =>
      blanks n ++ (part ++ ((if rest.isEmpty then [] else [comma]) ++ 0x0a :: partLines n rest))

/-- Two indents. -/
theorem blanks_add (n k : ℕ) : blanks (n + k) = blanks n ++ blanks k :=
  (List.replicate_append_replicate ..).symm

theorem partLines_one (n : ℕ) (part : CString) :
    partLines n [part] = blanks n ++ (part ++ [0x0a]) := rfl

theorem partLines_more (n : ℕ) (part next : CString) (rest : List CString) :
    partLines n (part :: next :: rest) =
      blanks n ++ (part ++ comma :: 0x0a :: partLines n (next :: rest)) := rfl

/-- Parts on one line. -/
def partList : List CString → CString
  | [] => []
  | part :: rest => part ++ ((if rest.isEmpty then [] else [comma, 0x20]) ++ partList rest)

/-- A name that is written as it stands. -/
def PlainName (name : String) : Prop :=
  ∀ c ∈ name.toList, Printable c.toNat ∧ c.toNat ≠ 0x22 ∧ c.toNat ≠ 0x5c

instance (name : String) : Decidable (PlainName name) := List.decidableBAll _ name.toList

theorem PlainName.printable {name : String} (h : PlainName name) : PrintableKey name :=
  fun c hc => (h c hc).1

theorem PlainName.text {name : String} (h : PlainName name) :
    stringText (spell name.toList) = quote :: (ascii name ++ [quote]) := by
  have hplain : PlainText (ascii name) := by
    intro b hb
    obtain ⟨c, hc, rfl⟩ := List.mem_map.mp hb
    obtain ⟨⟨hlow, hhigh⟩, hquote, hsolidus⟩ := h c hc
    have hnat : c.toNat.toUInt8.toNat = c.toNat :=
      Nat.mod_eq_of_lt (Nat.lt_of_le_of_lt hhigh (by decide))
    rw [isPlainText_iff, hnat]
    exact ⟨hlow, Nat.lt_of_le_of_lt hhigh (by decide), hquote, hsolidus⟩
  rw [stringText_spell, utf8_printable h.printable]
  exact jsonStr_plain hplain

theorem decoded_name {name : String} (h : PlainName name) :
    decoded (spell name.toList) = name.toList := by
  refine decoded_spell fun c hc hzero => ?_
  have hlow := (h c hc).1.1
  omega

abbrev Named := List (String × Json)

def PlainNames (ms : Named) : Prop := ∀ m ∈ ms, PlainName m.1

theorem plainNames_of {ms : Named} {names : List String} (h : ms.map Prod.fst = names)
    (hn : ∀ name ∈ names, PlainName name) : PlainNames ms :=
  fun m hm => hn m.1 (h ▸ List.mem_map_of_mem hm)

/-- A member without the white space around it. -/
def memberText (m : String × Json) : CString :=
  quote :: (ascii m.1 ++ quote :: colon :: 0x20 :: m.2.text)

def lineElements (n : ℕ) : List Json → Elements
  | [] => .nil
  | [v] => .cons (lineWs (n + 2)) v (lineWs n) .nil
  | v :: w :: vs => .cons (lineWs (n + 2)) v .none (lineElements n (w :: vs))

def lineMembers (n : ℕ) : Named → Members
  | [] => .nil
  | [m] => .cons (lineWs (n + 2)) (spell m.1.toList) .none spaceWs m.2 (lineWs n) .nil
  | m :: k :: ms =>
      .cons (lineWs (n + 2)) (spell m.1.toList) .none spaceWs m.2 .none (lineMembers n (k :: ms))

def listElements (before : Ws) : List Json → Elements
  | [] => .nil
  | v :: vs => .cons before v .none (listElements spaceWs vs)

def listMembers : Named → Members
  | [] => .nil
  | [m] => .cons spaceWs (spell m.1.toList) .none spaceWs m.2 spaceWs .nil
  | m :: k :: ms => .cons spaceWs (spell m.1.toList) .none spaceWs m.2 .none (listMembers (k :: ms))

/-- An array with a line for each element and one for the closing bracket, `n`
blanks in. -/
def arrayLines (n : ℕ) (vs : List Json) : Json :=
  .array (if vs.isEmpty then lineWs n else .none) (lineElements n vs)

def objectLines (n : ℕ) (ms : Named) : Json :=
  .object (if ms.isEmpty then lineWs n else .none) (lineMembers n ms)

/-- A printed object and the line break behind it. -/
def lineDocument (ms : Named) : Document where
  lead := .none
  inner := if ms.isEmpty then lineWs 0 else .none
  members := lineMembers 0 ms
  tail := lineWs 0

theorem lineDocument_text (ms : Named) :
    (lineDocument ms).text = (objectLines 0 ms).text ++ (lineWs 0).bytes := rfl

/-- An array on one line. -/
def arrayList (vs : List Json) : Json := .array .none (listElements .none vs)

def objectList (ms : Named) : Json := .object .none (listMembers ms)

private theorem lineElements_text (n : ℕ) : ∀ vs : List Json, vs ≠ [] →
    (lineElements n vs).text = 0x0a :: (partLines (n + 2) (vs.map Json.text) ++ blanks n)
  | [], h => absurd rfl h
  | [v], _ => by
      simp [lineElements, Elements.text, Elements.more, partLines, lineWs, newline, blanks]
  | v :: w :: vs, _ => by
      have ih := lineElements_text n (w :: vs) (List.cons_ne_nil w vs)
      have hmore : (lineElements n (w :: vs)).more = comma :: (lineElements n (w :: vs)).text := by
        cases vs <;> rfl
      rw [lineElements, Elements.text, hmore, ih]
      simp only [List.map_cons, partLines_more, lineWs, newline, blanks, Ws.none, List.nil_append,
        List.cons_append, List.append_assoc]

private theorem lineMembers_text (n : ℕ) : ∀ ms : Named, PlainNames ms → ms ≠ [] →
    (lineMembers n ms).text = 0x0a :: (partLines (n + 2) (ms.map memberText) ++ blanks n)
  | [], _, h => absurd rfl h
  | [m], hn, _ => by
      have hname := (hn m List.mem_cons_self).text
      rw [lineMembers, Members.text, hname]
      simp [Members.more, memberText, partLines, lineWs, spaceWs, Ws.none, newline, blanks]
  | m :: k :: ms, hn, _ => by
      have ih := lineMembers_text n (k :: ms) (fun m hm => hn m (List.mem_cons_of_mem _ hm))
        (List.cons_ne_nil k ms)
      have hname := (hn m List.mem_cons_self).text
      have hmore : (lineMembers n (k :: ms)).more = comma :: (lineMembers n (k :: ms)).text := by
        cases ms <;> rfl
      rw [lineMembers, Members.text, hmore, ih, hname]
      simp only [List.map_cons, partLines_more, memberText, lineWs, spaceWs, newline, blanks, Ws.none,
        List.nil_append, List.cons_append, List.append_assoc]

private theorem listElements_text : ∀ (before : Ws) (v : Json) (vs : List Json),
    (listElements before (v :: vs)).text = before.bytes ++ partList ((v :: vs).map Json.text)
  | before, v, [] => by simp [listElements, Elements.text, Elements.more, partList, Ws.none]
  | before, v, w :: vs => by
      have ih := listElements_text spaceWs w vs
      have hmore : (listElements spaceWs (w :: vs)).more =
          comma :: (listElements spaceWs (w :: vs)).text := rfl
      have hparts : partList ((v :: w :: vs).map Json.text) =
          v.text ++ comma :: 0x20 :: partList ((w :: vs).map Json.text) := rfl
      rw [listElements, Elements.text, hmore, ih, hparts]
      simp only [spaceWs, Ws.none, List.nil_append, List.cons_append]

private theorem listMembers_text : ∀ ms : Named, PlainNames ms → ms ≠ [] →
    (listMembers ms).text = 0x20 :: (partList (ms.map memberText) ++ [0x20])
  | [], _, h => absurd rfl h
  | [m], hn, _ => by
      have hname := (hn m List.mem_cons_self).text
      rw [listMembers, Members.text, hname]
      simp [Members.more, memberText, partList, spaceWs, Ws.none]
  | m :: k :: ms, hn, _ => by
      have ih := listMembers_text (k :: ms) (fun m hm => hn m (List.mem_cons_of_mem _ hm))
        (List.cons_ne_nil k ms)
      have hname := (hn m List.mem_cons_self).text
      have hmore : (listMembers (k :: ms)).more = comma :: (listMembers (k :: ms)).text := by
        cases ms <;> rfl
      have hparts : partList ((m :: k :: ms).map memberText) =
          memberText m ++ comma :: 0x20 :: partList ((k :: ms).map memberText) := rfl
      rw [listMembers, Members.text, hmore, ih, hname, hparts]
      simp only [memberText, spaceWs, Ws.none, List.nil_append, List.cons_append,
        List.append_assoc]

/-- The lines as a loop prints them, between the lines of the brackets. -/
theorem arrayLines_text (n : ℕ) (vs : List Json) :
    (arrayLines n vs).text =
      arrayOpen :: 0x0a :: (partLines (n + 2) (vs.map Json.text) ++ (blanks n ++ [arrayClose])) := by
  cases vs with
  | nil =>
      simp [arrayLines, lineElements, Json.text, Elements.text, partLines, lineWs, newline, blanks]
  | cons v vs =>
      have h := lineElements_text n (v :: vs) (List.cons_ne_nil v vs)
      simp [arrayLines, Json.text, h, Ws.none]

theorem objectLines_text (n : ℕ) {ms : Named} (hn : PlainNames ms) :
    (objectLines n ms).text =
      objectOpen :: 0x0a :: (partLines (n + 2) (ms.map memberText) ++ (blanks n ++ [objectClose])) := by
  cases ms with
  | nil =>
      simp [objectLines, lineMembers, Json.text, Members.text, partLines, lineWs, newline, blanks]
  | cons m ms =>
      have h := lineMembers_text n (m :: ms) hn (List.cons_ne_nil m ms)
      simp [objectLines, Json.text, h, Ws.none]

theorem arrayList_text (vs : List Json) :
    (arrayList vs).text = arrayOpen :: (partList (vs.map Json.text) ++ [arrayClose]) := by
  cases vs with
  | nil => rfl
  | cons v vs =>
      have h : (listElements .none (v :: vs)).text = partList ((v :: vs).map Json.text) :=
        listElements_text .none v vs
      rw [arrayList, Json.text, h]
      rfl

theorem objectList_text {ms : Named} (hn : PlainNames ms) (hne : ms ≠ []) :
    (objectList ms).text =
      objectOpen :: 0x20 :: (partList (ms.map memberText) ++ [0x20, objectClose]) := by
  have h := listMembers_text ms hn hne
  simp [objectList, Json.text, h, Ws.none]

end Blocks

section Shapes

theorem lineElements_list (n : ℕ) : ∀ vs : List Json, (lineElements n vs).list = vs
  | [] => rfl
  | [_] => rfl
  | v :: w :: vs => congrArg (v :: ·) (lineElements_list n (w :: vs))

theorem listElements_list (before : Ws) : ∀ vs : List Json, (listElements before vs).list = vs
  | [] => rfl
  | v :: vs => congrArg (v :: ·) (listElements_list spaceWs vs)

theorem lineMembers_list (n : ℕ) : ∀ ms : Named,
    (lineMembers n ms).list = ms.map fun m => (spell m.1.toList, m.2)
  | [] => rfl
  | [_] => rfl
  | m :: k :: ms => congrArg ((spell m.1.toList, m.2) :: ·) (lineMembers_list n (k :: ms))

theorem listMembers_list : ∀ ms : Named,
    (listMembers ms).list = ms.map fun m => (spell m.1.toList, m.2)
  | [] => rfl
  | [_] => rfl
  | m :: k :: ms => congrArg ((spell m.1.toList, m.2) :: ·) (listMembers_list (k :: ms))

theorem firstNamed_spelled {ms : Named} (hn : PlainNames ms) (key : String) :
    firstNamed key.toList (ms.map fun m => (spell m.1.toList, m.2)) = ms.lookup key := by
  induction ms with
  | nil => rfl
  | cons m ms ih =>
      have ih := ih fun k hk => hn k (List.mem_cons_of_mem m hk)
      have hname := decoded_name (hn m List.mem_cons_self)
      by_cases h : key = m.1
      · subst h
        rw [List.lookup_cons, beq_self_eq_true]
        simp [firstNamed, hname]
      · have hbeq : (key == m.1) = false := beq_false_of_ne h
        have hne : m.1.toList ≠ key.toList := fun hl => h (String.toList_inj.mp hl).symm
        rw [List.lookup_cons, hbeq, ← ih]
        simp [firstNamed, hname, hne]

theorem elements_depth {d : ℕ} : ∀ {es : Elements}, (∀ v ∈ es.list, v.depth ≤ d) → es.depth ≤ d
  | .nil, _ => Nat.zero_le d
  | .cons _ v _ _, h =>
      max_le (h v List.mem_cons_self) (elements_depth fun w hw => h w (List.mem_cons_of_mem v hw))

theorem members_depth {d : ℕ} : ∀ {ms : Members}, (∀ m ∈ ms.list, m.2.depth ≤ d) → ms.depth ≤ d
  | .nil, _ => Nat.zero_le d
  | .cons _ name _ _ v _ _, h =>
      max_le (h (name, v) List.mem_cons_self)
        (members_depth fun m hm => h m (List.mem_cons_of_mem _ hm))

/-- The first member of the name, whatever the layout. -/
theorem along_objectLines {n : ℕ} {ms : Named} (hn : PlainNames ms) (key : String)
    (path : List String) :
    along (key :: path) (objectLines n ms) = (ms.lookup key).bind (along path) := by
  rw [objectLines, along, lineMembers_list, firstNamed_spelled hn]

theorem along_objectList {ms : Named} (hn : PlainNames ms) (key : String) (path : List String) :
    along (key :: path) (objectList ms) = (ms.lookup key).bind (along path) := by
  rw [objectList, along, listMembers_list, firstNamed_spelled hn]

theorem objectLines_depth {n d : ℕ} {ms : Named} (h : ∀ m ∈ ms, m.2.depth ≤ d) :
    (objectLines n ms).depth ≤ d + 1 := by
  refine Nat.succ_le_succ (members_depth ?_)
  rw [lineMembers_list]
  exact List.forall_mem_map.mpr h

theorem objectList_depth {d : ℕ} {ms : Named} (h : ∀ m ∈ ms, m.2.depth ≤ d) :
    (objectList ms).depth ≤ d + 1 := by
  refine Nat.succ_le_succ (members_depth ?_)
  rw [listMembers_list]
  exact List.forall_mem_map.mpr h

theorem arrayLines_depth {n d : ℕ} {vs : List Json} (h : ∀ v ∈ vs, v.depth ≤ d) :
    (arrayLines n vs).depth ≤ d + 1 :=
  Nat.succ_le_succ (elements_depth ((lineElements_list n vs).symm ▸ h))

theorem arrayList_depth {d : ℕ} {vs : List Json} (h : ∀ v ∈ vs, v.depth ≤ d) :
    (arrayList vs).depth ≤ d + 1 :=
  Nat.succ_le_succ (elements_depth ((listElements_list .none vs).symm ▸ h))

end Shapes

section Paths

/-- One name looked up after another, each in the text found by the last. -/
def readPath : List String → CString → Option CString
  | [], s => some s
  | key :: path, s => (getValue (ascii key) s).bind (readPath path)

/-- The reader follows a path through the tree of a text. -/
theorem readPath_along {path : List String} (hp : ∀ key ∈ path, PrintableKey key)
    (hne : path ≠ []) {v w : Json} (hd : v.depth ≤ 100) (h : along path v = some w) (tail : Ws) :
    readPath path (v.text ++ tail.bytes) = some (handed w) := by
  induction path generalizing v tail with
  | nil => exact absurd rfl hne
  | cons key path ih =>
      cases v with
      | object ws ms =>
          obtain ⟨u, hu, hrest⟩ := Option.bind_eq_some_iff.mp h
          have hget := getValue_text ⟨.none, ws, ms, tail⟩ hd (hp key List.mem_cons_self)
          have htext : Document.text ⟨.none, ws, ms, tail⟩ =
              (Json.object ws ms).text ++ tail.bytes := rfl
          rw [readPath, ← htext, hget, hu, Option.map_some, Option.bind_some]
          cases path with
          | nil =>
              obtain rfl := Option.some.inj hrest
              rfl
          | cons next path =>
              -- what a further name is looked up in is an object, handed out as it stands
              have hobject : handed u = u.text ++ Ws.none.bytes := by
                cases u with
                | object => exact (List.append_nil _).symm
                | _ => cases hrest
              have hdu := depth_of_first hu
              have hdepth : u.depth ≤ 100 := by
                rw [Json.depth] at hd
                omega
              rw [hobject]
              exact ih (fun k hk => hp k (List.mem_cons_of_mem key hk)) (List.cons_ne_nil _ _)
                hdepth hrest .none
      | _ => cases h

/-- A member of a printed object. -/
theorem readPath_member {ms : Named} (hn : PlainNames ms) (hd : (lineDocument ms).depth ≤ 100)
    {key : String} (hk : PlainName key) {v : Json} (h : ms.lookup key = some v) :
    readPath [key] (lineDocument ms).text = some (handed v) := by
  have halong : along [key] (objectLines 0 ms) = some v := by
    rw [along_objectLines hn, h]
    rfl
  exact readPath_along (List.forall_mem_singleton.mpr hk.printable) (List.cons_ne_nil _ _) hd halong
    (lineWs 0)

end Paths

end Muslimtify.JsonPrinting
