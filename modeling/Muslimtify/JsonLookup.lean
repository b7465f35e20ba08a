import Muslimtify.JsonDocument
import Muslimtify.JsonGrammar

/-!
# Looking up a name in a JSON text

The reader against the grammar. The encoder agrees with UTF-8, the copy loop
with the decoding of code units, and the key comparison with the equality of
decoded names, for keys of printable ASCII. A tree spells out a text that the
scanners step over, so `getValue` hands out the first member of the root object
that has the name.
-/
namespace Muslimtify.JsonLookup
open CText CDouble JsonReader JsonDocument JsonGrammar

section Encoding

/-- A lead or trail mark is added above the bits of a byte. -/
private theorem mark_byte (i a x : ℕ) (h : x < 2 ^ i) :
    (2 ^ i * a ||| x).toUInt8 = UInt8.ofNat (x + 2 ^ i * a) := by
  rw [← Nat.two_pow_add_eq_or_of_lt h, Nat.add_comm]

private theorem trail_byte (n : ℕ) : (0x80 ||| n &&& 0x3f).toUInt8 = UInt8.ofNat (n % 64 + 0x80) := by
  have h : n &&& 0x3f = n % 64 := Nat.and_two_pow_sub_one_eq_mod n 6
  rw [h]
  exact mark_byte 6 2 (n % 64) (Nat.mod_lt _ (by decide))

/-- The encoder writes the UTF-8 bytes of every character. -/
theorem jsonUtf8Encode_char (c : Char) : jsonUtf8Encode c.toNat = some (String.utf8EncodeChar c) := by
  have hvalid : c.toNat < 0xd800 ∨ 0xdfff < c.toNat ∧ c.toNat < 0x110000 := c.valid
  have hval : c.val.toNat = c.toNat := rfl
  simp only [jsonUtf8Encode, String.utf8EncodeChar, hval, trail_byte, Nat.shiftRight_eq_div_pow]
  generalize c.toNat = n at hvalid
  by_cases h₁ : n ≤ 0x7f
  · simp only [if_pos h₁]
  by_cases h₂ : n ≤ 0x7ff
  · have h := mark_byte 6 3 (n / 2 ^ 6) (by omega)
    have hm : n / 64 % 0x20 = n / 2 ^ 6 := Nat.mod_eq_of_lt (by omega)
    simp only [if_neg h₁, if_pos h₂, hm]
    exact congrArg (fun b => some [b, _]) h
  have h₃ : ¬(0xd800 ≤ n ∧ n ≤ 0xdfff) := by omega
  by_cases h₄ : n ≤ 0xffff
  · have h := mark_byte 5 7 (n / 2 ^ 12) (by omega)
    have hm : n / 4096 % 0x10 = n / 2 ^ 12 := Nat.mod_eq_of_lt (by omega)
    simp only [if_neg h₁, if_neg h₂, if_neg h₃, if_pos h₄, hm]
    exact congrArg (fun b => some [b, _, _]) h
  · have h := mark_byte 4 15 (n / 2 ^ 18) (by omega)
    have hm : n / 262144 % 0x08 = n / 2 ^ 18 := Nat.mod_eq_of_lt (by omega)
    have h₅ : ¬0x10ffff < n := by omega
    simp only [if_neg h₁, if_neg h₂, if_neg h₃, if_neg h₄, if_neg h₅, hm]
    exact congrArg (fun b => some [b, _, _, _]) h

theorem char_toNat {n : ℕ} (h : n.isValidChar) : (Char.ofNat n).toNat = n := by
  rw [Char.ofNat, dif_pos h]
  rfl

theorem jsonUtf8Encode_of_valid {n : ℕ} (h : n.isValidChar) :
    jsonUtf8Encode n = some (String.utf8EncodeChar (Char.ofNat n)) := by
  rw [← jsonUtf8Encode_char, char_toNat h]

theorem utf8_ascii {c : Char} (h : c.toNat < 0x80) :
    String.utf8EncodeChar c = [c.toNat.toUInt8] := by
  have hle : c.val.toNat ≤ 0x7f := Nat.le_of_lt_succ h
  simp only [String.utf8EncodeChar, if_pos hle]
  rfl

private theorem marked_high {a x : ℕ} (ha : 0x80 ≤ a) (h : x + a < 0x100) :
    0x80 ≤ UInt8.ofNat (x + a) := by
  rw [UInt8.le_iff_toNat_le, UInt8.toNat_ofNat', Nat.mod_eq_of_lt (by omega)]
  exact Nat.le_trans ha (Nat.le_add_left a x)

/-- Beyond ASCII every byte has its top bit set. -/
theorem utf8_high {c : Char} (h : 0x80 ≤ c.toNat) : ∀ b ∈ String.utf8EncodeChar c, 0x80 ≤ b := by
  have hgt : ¬c.val.toNat ≤ 0x7f := Nat.not_le.mpr h
  simp only [String.utf8EncodeChar, if_neg hgt]
  split_ifs
  · intro b hb
    simp only [List.mem_cons, List.not_mem_nil, or_false] at hb
    rcases hb with rfl | rfl
    iterate 2 exact marked_high (by decide) (by omega)
  · intro b hb
    simp only [List.mem_cons, List.not_mem_nil, or_false] at hb
    rcases hb with rfl | rfl | rfl
    iterate 3 exact marked_high (by decide) (by omega)
  · intro b hb
    simp only [List.mem_cons, List.not_mem_nil, or_false] at hb
    rcases hb with rfl | rfl | rfl | rfl
    iterate 4 exact marked_high (by decide) (by omega)

end Encoding

section Strings

/-- A byte that stands for itself between quotes. -/
def Unescaped (b : UInt8) : Prop := b ≠ quote ∧ b ≠ backslash ∧ b ≠ 0

private theorem unescaped_of_high : ∀ b : UInt8, 0x80 ≤ b → Unescaped b :=
  forall_byte (by simp only [Unescaped]; decide +kernel)

theorem plain_unescaped {c : Char} (h : 0x20 ≤ c.toNat ∧ c.toNat ≠ 0x22 ∧ c.toNat ≠ 0x5c) :
    ∀ b ∈ String.utf8EncodeChar c, Unescaped b := by
  rcases Nat.lt_or_ge c.toNat 0x80 with hlt | hge
  · intro b hb
    rw [utf8_ascii hlt, List.mem_singleton] at hb
    have hval : b.toNat = c.toNat := by
      rw [hb, Nat.toUInt8_eq, UInt8.toNat_ofNat', Nat.mod_eq_of_lt (by omega)]
    refine ⟨?_, ?_, ?_⟩
    all_goals
      rintro rfl
      simp only [quote, backslash, UInt8.reduceToNat] at hval
      omega
  · exact fun b hb => unescaped_of_high b (utf8_high hge b hb)

private theorem hex_unescaped : ∀ b : UInt8, isHexDigit b = true → Unescaped b :=
  forall_byte (by simp only [Unescaped]; decide +kernel)

theorem raw_of_unescaped {s : CString} (h : ∀ b ∈ s, Unescaped b) : Raw s := by
  induction s with
  | nil => exact .nil
  | cons b s ih =>
      have hb := h b (by simp)
      exact .plain hb.1 hb.2.1 (ih fun d hd => h d (by simp [hd]))

theorem rawText_raw (s : Chars) : Raw (rawText s) := by
  induction s with
  | nil => exact .nil
  | cons ch s ih =>
      rw [rawText, List.flatMap_cons]
      apply Raw.append _ ih
      cases ch with
      | plain c h => exact raw_of_unescaped (plain_unescaped h)
      | escape e => exact .escape .nil
      | unicode a b c d =>
          apply Raw.escape
          apply raw_of_unescaped
          intro x hx
          simp only [List.mem_cons, List.not_mem_nil, or_false] at hx
          rcases hx with rfl | rfl | rfl | rfl
          · exact hex_unescaped _ a.isHex
          · exact hex_unescaped _ b.isHex
          · exact hex_unescaped _ c.isHex
          · exact hex_unescaped _ d.isHex

theorem rawText_nulFree (s : Chars) : NulFree (rawText s) := by
  induction s with
  | nil => exact nulFree_nil
  | cons ch s ih =>
      rw [rawText, List.flatMap_cons]
      refine nulFree_append.mpr ⟨?_, ih⟩
      cases ch with
      | plain c h => exact fun b hb => (plain_unescaped h b hb).2.2
      | escape e => cases e <;> decide
      | unicode a b c d =>
          have ha := (hex_unescaped _ a.isHex).2.2
          have hb := (hex_unescaped _ b.isHex).2.2
          have hc := (hex_unescaped _ c.isHex).2.2
          have hd := (hex_unescaped _ d.isHex).2.2
          simp [StringChar.text, ha, hb, hc, hd, backslash, letterU]

private theorem readHex4 (a b c d : HexDigit) (t : CString) :
    jsonReadHex4 (a.byte :: b.byte :: c.byte :: d.byte :: t) = some (unitOf a b c d) := by
  have hval : ∀ x : HexDigit, jsonHexDigitValue x.byte = some x.value :=
    fun x => (Option.some_get x.isHex).symm
  simp only [jsonReadHex4, hval]
  rfl

private theorem value_lt (d : HexDigit) : d.value < 16 := by
  have hall : ∀ b : UInt8, (hexDigitValue b).getD 0 < 16 := forall_byte (by decide +kernel)
  have h := hall d.byte
  rwa [← Option.get_eq_getD (h := d.isHex)] at h

theorem unitOf_lt (a b c d : HexDigit) : unitOf a b c d < 0x10000 := by
  have ha := value_lt a
  have hb := value_lt b
  have hc := value_lt c
  have hd := value_lt d
  simp only [unitOf]
  omega

private theorem copyLoop_plain {s : CString} (h : ∀ b ∈ s, b ≠ backslash) (t : CString) :
    copyLoop (s ++ t) 0 = s ++ copyLoop t 0 := by
  induction s with
  | nil => rfl
  | cons b s ih =>
      have hb := h b (by simp)
      simp only [List.cons_append, copyLoop, copyUnit, if_neg hb, List.nil_append]
      exact congrArg (b :: ·) (ih fun d hd => h d (by simp [hd]))

private theorem simpleEscape_letter (e : Escape) :
    simpleEscape e.letter = some e.codePoint.toUInt8 := by
  cases e <;> rfl

private theorem copyLoop_escape (e : Escape) (t : CString) :
    copyLoop (backslash :: e.letter :: t) 0 = e.codePoint.toUInt8 :: copyLoop t 0 := by
  simp [copyLoop, copyUnit, simpleEscape_letter]

/-- A code unit that is not joined to the next decodes on its own. -/
private theorem decodeUnit_scalar {u : ℕ} (hu : u < 0x10000) :
    decodeUnit u = String.utf8EncodeChar (scalar u) := by
  by_cases h : 0xd800 ≤ u ∧ u ≤ 0xdfff ∨ u = 0
  · have hs : u = 0 ∨ IsHigh u ∨ IsLow u := by
      simp only [IsHigh, IsLow]
      omega
    rw [decodeUnit, if_pos h, scalar, if_pos hs]
    decide
  · have hs : ¬(u = 0 ∨ IsHigh u ∨ IsLow u) := by
      simp only [IsHigh, IsLow]
      omega
    have hv : u.isValidChar := by
      simp only [Nat.isValidChar]
      omega
    rw [decodeUnit, if_neg h, scalar, if_neg hs, jsonUtf8Encode_of_valid hv]
    rfl

private theorem no_escape_u : simpleEscape letterU = none := by decide

private theorem copyLoop_lone {a b c d : HexDigit} {t : CString}
    (h : IsHigh (unitOf a b c d) → lowHalf t = none) :
    copyLoop (StringChar.text (.unicode a b c d) ++ t) 0 =
      String.utf8EncodeChar (scalar (unitOf a b c d)) ++ copyLoop t 0 := by
  have hd : (a.byte :: b.byte :: c.byte :: d.byte :: t).drop 4 = t := rfl
  have hunit : copyUnit backslash (letterU :: a.byte :: b.byte :: c.byte :: d.byte :: t) =
      (decodeUnit (unitOf a b c d), 5) := by
    simp only [copyUnit, if_true, no_escape_u, readHex4, hd]
    by_cases hu : 0xd800 ≤ unitOf a b c d ∧ unitOf a b c d ≤ 0xdbff
    · rw [if_pos hu, h hu]
    · rw [if_neg hu]
  simp only [StringChar.text, List.cons_append, List.nil_append, copyLoop, hunit,
    decodeUnit_scalar (unitOf_lt a b c d)]

theorem pairPoint_valid {u v : ℕ} (hu : IsHigh u) (hv : IsLow v) :
    (pairPoint u v).isValidChar := by
  obtain ⟨hu₁, hu₂⟩ := hu
  obtain ⟨hv₁, hv₂⟩ := hv
  refine Or.inr ⟨?_, ?_⟩
  all_goals
    unfold pairPoint
    omega

private theorem lowHalf_unicode (a b c d : HexDigit) (t : CString) :
    lowHalf (StringChar.text (.unicode a b c d) ++ t) =
      if IsLow (unitOf a b c d) then some (unitOf a b c d) else none := by
  simp only [StringChar.text, List.cons_append, List.nil_append, lowHalf, and_self, if_true,
    readHex4, Option.filter_some, IsLow, Bool.and_eq_true, decide_eq_true_eq]

private theorem copyUnit_pair {es : CString} {u v : ℕ} (hr : jsonReadHex4 es = some u)
    (hu : IsHigh u) (hl : lowHalf (es.drop 4) = some v) :
    copyUnit backslash (letterU :: es) = ((jsonUtf8Encode (pairPoint u v)).getD [], 11) := by
  have hu' : 0xd800 ≤ u ∧ u ≤ 0xdbff := hu
  simp only [copyUnit, if_true, no_escape_u, hr, hl, if_pos hu']
  rfl

private theorem copyLoop_pair {a b c d a' b' c' d' : HexDigit} (t : CString)
    (hu : IsHigh (unitOf a b c d)) (hv : IsLow (unitOf a' b' c' d')) :
    copyLoop (StringChar.text (.unicode a b c d) ++
        (StringChar.text (.unicode a' b' c' d') ++ t)) 0 =
      String.utf8EncodeChar (Char.ofNat (pairPoint (unitOf a b c d) (unitOf a' b' c' d'))) ++
        copyLoop t 0 := by
  have hlow := lowHalf_unicode a' b' c' d' t
  rw [if_pos hv] at hlow
  have hd : (a.byte :: b.byte :: c.byte :: d.byte ::
      (StringChar.text (.unicode a' b' c' d') ++ t)).drop 4 =
        StringChar.text (.unicode a' b' c' d') ++ t := rfl
  have hunit := copyUnit_pair (readHex4 a b c d _) hu (hd ▸ hlow)
  rw [jsonUtf8Encode_of_valid (pairPoint_valid hu hv), Option.getD_some] at hunit
  rw [StringChar.text, List.cons_append, List.cons_append, List.cons_append, List.cons_append,
    List.cons_append, List.cons_append, List.nil_append, copyLoop, hunit]
  simp only [StringChar.text, List.cons_append, List.nil_append, copyLoop]

private theorem decodeUnits_lone {u : ℕ} {us : List ℕ}
    (h : IsHigh u → ∀ v ∈ us.head?, ¬IsLow v) :
    decodeUnits (u :: us) = scalar u :: decodeUnits us := by
  cases us with
  | nil => rfl
  | cons v us => rw [decodeUnits, if_neg fun hp => h hp.1 v rfl hp.2]

private theorem decodeUnits_plain {c : Char} (hc : c.toNat ≠ 0) (us : List ℕ) :
    decodeUnits (utf16 c.toNat ++ us) = c :: decodeUnits us := by
  have hvalid : c.toNat < 0xd800 ∨ 0xdfff < c.toNat ∧ c.toNat < 0x110000 := c.valid
  unfold utf16
  split_ifs with h
  · have hs : ¬(c.toNat = 0 ∨ IsHigh c.toNat ∨ IsLow c.toNat) := by
      simp only [IsHigh, IsLow]
      omega
    have hhigh : ¬IsHigh c.toNat := fun hu => hs (Or.inr (Or.inl hu))
    rw [List.cons_append, List.nil_append, decodeUnits_lone fun hu => absurd hu hhigh, scalar,
      if_neg hs, Char.ofNat_toNat]
  · have hu : IsHigh (0xd800 + (c.toNat - 0x10000) / 1024) := by
      constructor <;> omega
    have hv : IsLow (0xdc00 + (c.toNat - 0x10000) % 1024) := by
      constructor <;> omega
    have hpair : pairPoint (0xd800 + (c.toNat - 0x10000) / 1024)
        (0xdc00 + (c.toNat - 0x10000) % 1024) = c.toNat := by
      unfold pairPoint
      omega
    rw [List.cons_append, List.cons_append, List.nil_append, decodeUnits, if_pos ⟨hu, hv⟩, hpair,
      Char.ofNat_toNat]

private theorem escape_scalar (e : Escape) :
    String.utf8EncodeChar (scalar e.codePoint) = [e.codePoint.toUInt8] ∧ ¬IsHigh e.codePoint ∧
      ¬IsLow e.codePoint := by
  cases e <;> decide

/-- The units of what follows begin with no low half unless an escape wrote it. -/
private theorem follow_not_low (s : Chars)
    (h : ∀ a b c d t, s = .unicode a b c d :: t → ¬IsLow (unitOf a b c d)) :
    (∀ v ∈ (unitsOf s).head?, ¬IsLow v) ∧ lowHalf (rawText s) = none := by
  cases s with
  | nil => exact ⟨by simp [unitsOf], rfl⟩
  | cons ch t =>
      cases ch with
      | plain c hc =>
          have hvalid : c.toNat < 0xd800 ∨ 0xdfff < c.toNat ∧ c.toNat < 0x110000 := c.valid
          constructor
          · simp only [unitsOf, List.flatMap_cons, StringChar.units, utf16]
            split_ifs
            all_goals
              simp [IsLow]
              omega
          · obtain ⟨b, bs, hb⟩ := List.exists_cons_of_ne_nil (String.utf8EncodeChar_ne_nil (c := c))
            have hne : b ≠ backslash := (plain_unescaped hc b (by simp [hb])).2.1
            simp only [rawText, List.flatMap_cons, StringChar.text, hb, List.cons_append]
            cases hbs : bs ++ List.flatMap StringChar.text t with
            | nil => rfl
            | cons b' bs' => simp [lowHalf, hne]
      | escape e =>
          constructor
          · simpa [unitsOf, StringChar.units] using (escape_scalar e).2.2
          · have hne : e.letter ≠ letterU := by cases e <;> decide
            simp [rawText, StringChar.text, lowHalf, hne]
      | unicode a b c d =>
          have hlow := h a b c d t rfl
          constructor
          · simpa [unitsOf, StringChar.units] using hlow
          · rw [rawText, List.flatMap_cons, lowHalf_unicode, if_neg hlow]

/-- The copy loop writes the UTF-8 bytes of the characters a string denotes. -/
theorem unescape_rawText : ∀ s : Chars, unescape (rawText s) = utf8 (decoded s)
  | [] => rfl
  | .plain c hc :: s => by
      have ih := unescape_rawText s
      have hb : ∀ b ∈ String.utf8EncodeChar c, b ≠ backslash :=
        fun b hb => (plain_unescaped hc b hb).2.1
      simp only [unescape, rawText, List.flatMap_cons, decoded, unitsOf, utf8, StringChar.text,
        StringChar.units] at ih ⊢
      rw [copyLoop_plain hb, ih, decodeUnits_plain (by omega), List.flatMap_cons]
  | .escape e :: s => by
      have ih := unescape_rawText s
      obtain ⟨hbyte, hhigh, -⟩ := escape_scalar e
      simp only [unescape, rawText, List.flatMap_cons, decoded, unitsOf, utf8, StringChar.text,
        StringChar.units, List.cons_append, List.nil_append] at ih ⊢
      rw [copyLoop_escape, ih, decodeUnits_lone fun hu => absurd hu hhigh, List.flatMap_cons,
        hbyte]
      rfl
  | .unicode a b c d :: s => by
      by_cases hpair : IsHigh (unitOf a b c d) ∧
          ∃ a' b' c' d' t, s = .unicode a' b' c' d' :: t ∧ IsLow (unitOf a' b' c' d')
      · obtain ⟨hu, a', b', c', d', t, rfl, hv⟩ := hpair
        have ih := unescape_rawText t
        simp only [unescape, rawText, List.flatMap_cons, decoded, unitsOf, utf8,
          StringChar.units, List.cons_append, List.nil_append] at ih ⊢
        rw [copyLoop_pair _ hu hv, ih, decodeUnits, if_pos ⟨hu, hv⟩, List.flatMap_cons]
      · have hfollow : IsHigh (unitOf a b c d) →
            (∀ v ∈ (unitsOf s).head?, ¬IsLow v) ∧ lowHalf (rawText s) = none :=
          fun hu => follow_not_low s fun a' b' c' d' t hs hv =>
            hpair ⟨hu, a', b', c', d', t, hs, hv⟩
        have ih := unescape_rawText s
        simp only [unescape, decoded, utf8, unitsOf, rawText, List.flatMap_cons, StringChar.units,
          List.cons_append, List.nil_append] at ih hfollow ⊢
        rw [copyLoop_lone fun hu => (hfollow hu).2, ih, decodeUnits_lone fun hu => (hfollow hu).1,
          List.flatMap_cons]
  termination_by s => s.length

private theorem utf8_nulFree {c : Char} (hc : c.toNat ≠ 0) : NulFree (String.utf8EncodeChar c) := by
  intro b hb
  rcases Nat.lt_or_ge c.toNat 0x80 with hlt | hge
  · rw [utf8_ascii hlt, List.mem_singleton] at hb
    rintro rfl
    have hval := congrArg UInt8.toNat hb
    simp only [Nat.toUInt8_eq, UInt8.toNat_ofNat', UInt8.toNat_zero] at hval
    omega
  · rintro rfl
    exact absurd (utf8_high hge 0 hb) (by decide)

private theorem encode_nulFree {n : ℕ} (hn : n ≠ 0) : NulFree ((jsonUtf8Encode n).getD []) := by
  by_cases hv : n.isValidChar
  · rw [jsonUtf8Encode_of_valid hv]
    exact utf8_nulFree (by rwa [char_toNat hv])
  · have hnone : jsonUtf8Encode n = none := by
      simp only [Nat.isValidChar] at hv
      unfold jsonUtf8Encode
      split_ifs
      all_goals first
        | rfl
        | omega
    rw [hnone]
    exact nulFree_nil

private theorem decodeUnit_nulFree (n : ℕ) : NulFree (decodeUnit n) := by
  unfold decodeUnit
  split_ifs with h
  · decide
  · exact encode_nulFree fun hn => h (Or.inr hn)

private theorem simpleEscape_ne_zero : ∀ e b : UInt8, simpleEscape e = some b → b ≠ 0 := by
  have hall : ∀ e : UInt8, simpleEscape e ≠ some 0 := forall_byte (by decide +kernel)
  rintro e b he rfl
  exact hall e he

theorem copyUnit_nulFree {c : UInt8} {cs : CString} (h : NulFree (c :: cs)) :
    NulFree (copyUnit c cs).1 := by
  have hone : ∀ {b : UInt8}, b ≠ 0 → NulFree [b] := fun hb => nulFree_cons.mpr ⟨hb, nulFree_nil⟩
  have hc := (nulFree_cons.mp h).1
  cases cs with
  | nil =>
      unfold copyUnit
      split_ifs <;> exact hone hc
  | cons e es =>
      have he := (nulFree_cons.mp (nulFree_cons.mp h).2).1
      have hkept : NulFree [c, e] := nulFree_cons.mpr ⟨hc, hone he⟩
      by_cases hb : c = backslash
      · rw [copyUnit, if_pos hb]
        cases hs : simpleEscape e with
        | some b => exact hone (simpleEscape_ne_zero e b hs)
        | none =>
            by_cases hu : e = letterU
            · simp only [if_pos hu]
              cases jsonReadHex4 es with
              | none => exact hkept
              | some cp =>
                  by_cases hhigh : 0xd800 ≤ cp ∧ cp ≤ 0xdbff
                  · simp only [if_pos hhigh]
                    cases lowHalf (es.drop 4) with
                    | none => exact decodeUnit_nulFree cp
                    | some low =>
                        dsimp only
                        apply encode_nulFree
                        omega
                  · simp only [if_neg hhigh]
                    exact decodeUnit_nulFree cp
            · simp only [if_neg hu]
              exact hkept
      · rw [copyUnit, if_neg hb]
        exact hone hc

/-- What is decoded holds no zero byte, as the escape of zero is not decoded to one. -/
theorem unescape_nulFree {raw : CString} (h : NulFree raw) : NulFree (unescape raw) := by
  have hloop : ∀ n, NulFree (copyLoop raw n) := by
    induction raw with
    | nil => exact fun _ => nulFree_nil
    | cons c cs ih =>
        have ih := ih (nulFree_cons.mp h).2
        intro n
        cases n with
        | zero => exact nulFree_append.mpr ⟨copyUnit_nulFree h, ih _⟩
        | succ n => exact ih n
  exact hloop 0

end Strings

section Names

private theorem compareUnit_unicode (a b c d : HexDigit) (t : CString) :
    compareUnit backslash (letterU :: a.byte :: b.byte :: c.byte :: d.byte :: t) =
      (jsonUtf8Encode (unitOf a b c d)).map fun bs => (bs, 5) := by
  simp [compareUnit, no_escape_u, readHex4]

/-- No escape of a surrogate and none of zero. -/
def IsWhole : StringChar → Prop
  | .unicode a b c d =>
      ¬(unitOf a b c d = 0 ∨ IsHigh (unitOf a b c d) ∨ IsLow (unitOf a b c d))
  | _ => True

/-- The character that a whole one stands for. -/
def wholeChar : StringChar → Char
  | .plain c _ => c
  | .escape e => scalar e.codePoint
  | .unicode a b c d => scalar (unitOf a b c d)

/-- Every character of the name is written on its own. -/
def SpelledOut (name : Chars) : Prop := ∀ ch ∈ name, IsWhole ch

theorem decoded_cons {ch : StringChar} (h : IsWhole ch) (s : Chars) :
    decoded (ch :: s) = wholeChar ch :: decoded s := by
  rw [decoded, unitsOf, List.flatMap_cons, ← unitsOf]
  cases ch with
  | plain c hc => exact decodeUnits_plain (by omega) _
  | escape e => exact decodeUnits_lone fun hu => absurd hu (escape_scalar e).2.1
  | unicode a b c d => exact decodeUnits_lone fun hu => absurd (Or.inr (Or.inl hu)) h

/-- One turn of the comparison, for a unit that takes `skipped` with it. -/
theorem compareLoop_unit {c : UInt8} {bs : CString} (hbs : bs ≠ []) (skipped : CString) {t : CString}
    (key : CString) (hunit : compareUnit c (skipped ++ t) = some (bs, skipped.length)) :
    compareLoop (c :: (skipped ++ t)) 0 key = true ↔
      ∃ rest, key = bs ++ rest ∧ compareLoop t 0 rest = true := by
  cases key with
  | nil =>
      rw [compareLoop]
      simp [hbs]
  | cons k key =>
      rw [compareLoop, hunit]
      dsimp only
      cases hs : stripBytes bs (k :: key) with
      | none =>
          have hno : ¬∃ rest, k :: key = bs ++ rest ∧ compareLoop t 0 rest = true := by
            rintro ⟨rest, he, -⟩
            rw [stripBytes_iff.mpr he] at hs
            cases hs
          simp [hno]
      | some rest =>
          rw [stripBytes_iff.mp hs]
          dsimp only
          rw [compareLoop_drop, List.drop_left]
          simp

theorem compareLoop_bytes {bs : CString} (h : ∀ b ∈ bs, b ≠ backslash) (t key : CString) :
    compareLoop (bs ++ t) 0 key = true ↔
      ∃ rest, key = bs ++ rest ∧ compareLoop t 0 rest = true := by
  induction bs generalizing key with
  | nil => simp
  | cons b bs ih =>
      have hunit : compareUnit b ([] ++ (bs ++ t)) = some ([b], 0) := by
        simp [compareUnit, h b (by simp)]
      have ih := ih fun d hd => h d (by simp [hd])
      rw [List.cons_append, ← List.nil_append (bs ++ t), compareLoop_unit (by simp) [] key hunit]
      simp [ih]

theorem utf8_escape (e : Escape) :
    String.utf8EncodeChar (scalar e.codePoint) = [e.codePoint.toUInt8] := (escape_scalar e).1

/-- A code unit that is no surrogate is a character. -/
theorem encode_whole {u : ℕ} (hu : u < 0x10000) (h : ¬(u = 0 ∨ IsHigh u ∨ IsLow u)) :
    jsonUtf8Encode u = some (String.utf8EncodeChar (scalar u)) := by
  have hv : u.isValidChar := by
    simp only [IsHigh, IsLow] at h
    simp only [Nat.isValidChar]
    omega
  rw [scalar, if_neg h, jsonUtf8Encode_of_valid hv]

theorem copyLoop_whole {ch : StringChar} (h : IsWhole ch) (t : CString) :
    copyLoop (ch.text ++ t) 0 = String.utf8EncodeChar (wholeChar ch) ++ copyLoop t 0 := by
  cases ch with
  | plain c hc => exact copyLoop_plain (fun b hb => (plain_unescaped hc b hb).2.1) t
  | escape e =>
      have hcopy := copyLoop_escape e t
      rwa [← List.singleton_append (x := e.codePoint.toUInt8), ← utf8_escape] at hcopy
  | unicode a b c d => exact copyLoop_lone fun hu => absurd (Or.inr (Or.inl hu)) h

theorem compareLoop_whole {ch : StringChar} (h : IsWhole ch) (t key : CString) :
    compareLoop (ch.text ++ t) 0 key = true ↔
      ∃ rest, key = String.utf8EncodeChar (wholeChar ch) ++ rest ∧ compareLoop t 0 rest = true := by
  cases ch with
  | plain c hc => exact compareLoop_bytes (fun b hb => (plain_unescaped hc b hb).2.1) t key
  | escape e =>
      have hunit : compareUnit backslash ([e.letter] ++ t) = some ([e.codePoint.toUInt8], 1) := by
        simp [compareUnit, simpleEscape_letter]
      have hloop := compareLoop_unit (by simp) [e.letter] key hunit
      rwa [← utf8_escape] at hloop
  | unicode a b c d =>
      have hunit := compareUnit_unicode a b c d t
      rw [encode_whole (unitOf_lt a b c d) h] at hunit
      exact compareLoop_unit String.utf8EncodeChar_ne_nil
        [letterU, a.byte, b.byte, c.byte, d.byte] key hunit

/-- An escape that is half of a pair, or zero, equals no part of a key. -/
theorem compareLoop_broken {ch : StringChar} (h : ¬IsWhole ch) (t : CString) {key : CString}
    (hkey : NulFree key) : compareLoop (ch.text ++ t) 0 key = false := by
  cases ch with
  | plain c hc => exact absurd trivial h
  | escape e => exact absurd trivial h
  | unicode a b c d =>
      have hunit := compareUnit_unicode a b c d t
      cases key with
      | nil => rfl
      | cons k key =>
          simp only [StringChar.text, List.cons_append, List.nil_append]
          rw [compareLoop, hunit]
          rcases not_not.mp h with hzero | hsurrogate
          · have hk : k ≠ 0 := hkey k (by simp)
            simp [hzero, jsonUtf8Encode, stripBytes, hk]
          · have hnone : jsonUtf8Encode (unitOf a b c d) = none := by
              simp only [IsHigh, IsLow] at hsurrogate
              rw [jsonUtf8Encode, if_neg (by omega), if_neg (by omega), if_pos (by omega)]
            simp [hnone]

/-- A name equals exactly its own UTF-8 bytes, if it is spelled out. -/
theorem jsonSliceEquals_iff (name : Chars) {key : CString} (hkey : NulFree key) :
    jsonSliceEquals (rawText name) key = true ↔
      SpelledOut name ∧ key = utf8 (decoded name) := by
  unfold jsonSliceEquals
  induction name generalizing key with
  | nil =>
      have hnil : utf8 (decoded []) = [] := rfl
      simp [rawText, compareLoop, SpelledOut, hnil]
  | cons ch name ih =>
      rw [rawText, List.flatMap_cons, ← rawText]
      by_cases hch : IsWhole ch
      · rw [compareLoop_whole hch]
        have hutf8 : utf8 (decoded (ch :: name)) =
            String.utf8EncodeChar (wholeChar ch) ++ utf8 (decoded name) := by
          rw [decoded_cons hch]
          rfl
        constructor
        · rintro ⟨rest, rfl, hrest⟩
          obtain ⟨hname, rfl⟩ := (ih (nulFree_append.mp hkey).2).mp hrest
          exact ⟨List.forall_mem_cons.mpr ⟨hch, hname⟩, hutf8.symm⟩
        · rintro ⟨hname, rfl⟩
          rw [hutf8] at hkey ⊢
          exact ⟨_, rfl, (ih (nulFree_append.mp hkey).2).mpr
            ⟨(List.forall_mem_cons.mp hname).2, rfl⟩⟩
      · rw [compareLoop_broken hch _ hkey]
        constructor
        · intro h
          cases h
        · rintro ⟨hname, -⟩
          exact absurd (hname ch (by simp)) hch

/-- A code point of printable ASCII. -/
def Printable (n : ℕ) : Prop := 0x20 ≤ n ∧ n ≤ 0x7e

/-- A key of printable ASCII characters. -/
def PrintableKey (key : String) : Prop := ∀ c ∈ key.toList, Printable c.toNat

instance (n : ℕ) : Decidable (Printable n) := instDecidableAnd

instance (key : String) : Decidable (PrintableKey key) := List.decidableBAll _ key.toList

private theorem scalar_printable {c : Char} (hc : Printable c.toNat) (u : ℕ) :
    u = c.toNat ↔ scalar u = c := by
  obtain ⟨hlo, hhi⟩ := hc
  constructor
  · rintro rfl
    have hs : ¬(c.toNat = 0 ∨ IsHigh c.toNat ∨ IsLow c.toNat) := by
      simp only [IsHigh, IsLow]
      omega
    rw [scalar, if_neg hs, Char.ofNat_toNat]
  · rintro rfl
    unfold scalar at hlo hhi ⊢
    split_ifs at hlo hhi ⊢
    · exact absurd hhi (by decide)
    · by_cases hv : u.isValidChar
      · exact (char_toNat hv).symm
      · have hzero : (Char.ofNat u).toNat = 0 := by
          simp [Char.ofNat, hv]
        omega

/-- Only the printable units themselves decode to printable characters. -/
theorem decode_printable {cs : List Char} (hc : ∀ c ∈ cs, Printable c.toNat)
    (us : List ℕ) : us = cs.map Char.toNat ↔ decodeUnits us = cs := by
  induction us using decodeUnits.induct generalizing cs with
  | case1 => cases cs <;> simp [decodeUnits]
  | case2 u =>
      cases cs with
      | nil => simp [decodeUnits]
      | cons c cs => simp [decodeUnits, scalar_printable (hc c (by simp)), eq_comm]
  | case3 u v us hp _ =>
      rw [decodeUnits, if_pos hp]
      cases cs with
      | nil => simp
      | cons c cs =>
          have hle := (hc c (by simp)).2
          constructor
          · intro h
            have hu := (List.cons.inj h).1
            have hge := hp.1.1
            omega
          · intro h
            have hu := (List.cons.inj h).1
            rw [← hu, char_toNat (pairPoint_valid hp.1 hp.2)] at hle
            unfold pairPoint at hle
            omega
  | case4 u v us hp ih =>
      rw [decodeUnits, if_neg hp]
      cases cs with
      | nil => simp
      | cons c cs =>
          have hcs : ∀ d ∈ cs, Printable d.toNat := fun d hd => hc d (by simp [hd])
          rw [List.map_cons, List.cons_eq_cons, ih hcs, scalar_printable (hc c (by simp)),
            List.cons_eq_cons]

private theorem byte_eq_iff {k n : ℕ} (hk : k < 0x80) (hn : n < 0x80) :
    k.toUInt8 = n.toUInt8 ↔ k = n := by
  rw [← UInt8.toNat_inj, Nat.toUInt8_eq, Nat.toUInt8_eq, UInt8.toNat_ofNat', UInt8.toNat_ofNat']
  omega

private theorem byte_lt {k : ℕ} (hk : k < 0x80) : k.toUInt8 < 0x80 := by
  rw [UInt8.lt_iff_toNat_lt, Nat.toUInt8_eq, UInt8.toNat_ofNat', Nat.mod_eq_of_lt (by omega)]
  exact hk

/-- A printable name has no surrogate and no zero to write. -/
theorem spelledOut_of_printable {name : Chars} (h : ∀ c ∈ decoded name, Printable c.toNat) :
    SpelledOut name := by
  have hunits : unitsOf name = (decoded name).map Char.toNat :=
    (decode_printable h (unitsOf name)).mpr rfl
  intro ch hch
  cases ch with
  | plain c hc => trivial
  | escape e => trivial
  | unicode a b c d =>
      have hmem : unitOf a b c d ∈ unitsOf name :=
        List.mem_flatMap.mpr ⟨_, hch, List.mem_singleton_self _⟩
      rw [hunits] at hmem
      obtain ⟨x, hx, he⟩ := List.mem_map.mp hmem
      obtain ⟨hlo, hhi⟩ := h x hx
      simp only [IsWhole, IsHigh, IsLow, ← he]
      omega

theorem utf8_printable {cs : List Char} (h : ∀ c ∈ cs, Printable c.toNat) :
    utf8 cs = cs.map fun c => c.toNat.toUInt8 := by
  induction cs with
  | nil => rfl
  | cons c cs ih =>
      have hlt : c.toNat < 0x80 := Nat.lt_of_le_of_lt (h c (by simp)).2 (by decide)
      have ih := ih fun d hd => h d (by simp [hd])
      rw [utf8, List.flatMap_cons, ← utf8, ih, utf8_ascii hlt]
      rfl

/-- Printable characters are the only ones with their UTF-8 bytes. -/
theorem utf8_eq_printable {cs : List Char} (h : ∀ c ∈ cs, Printable c.toNat) {ds : List Char}
    (he : utf8 ds = utf8 cs) : ds = cs := by
  induction cs generalizing ds with
  | nil =>
      cases ds with
      | nil => rfl
      | cons d ds => simp [utf8] at he
  | cons c cs ih =>
      have hlt : c.toNat < 0x80 := Nat.lt_of_le_of_lt (h c (by simp)).2 (by decide)
      have hc : utf8 (c :: cs) = c.toNat.toUInt8 :: utf8 cs := by
        rw [utf8, List.flatMap_cons, utf8_ascii hlt]
        rfl
      rw [hc] at he
      cases ds with
      | nil => cases he
      | cons d ds =>
          rw [utf8, List.flatMap_cons, ← utf8] at he
          rcases Nat.lt_or_ge d.toNat 0x80 with hd | hd
          · rw [utf8_ascii hd] at he
            obtain ⟨hbyte, hrest⟩ := List.cons.inj he
            have hchar : d = c := Char.toNat_inj.mp ((byte_eq_iff hd hlt).mp hbyte)
            rw [hchar, ih (fun x hx => h x (by simp [hx])) hrest]
          · obtain ⟨b, bs, hb⟩ :=
              List.exists_cons_of_ne_nil (String.utf8EncodeChar_ne_nil (c := d))
            rw [hb, List.cons_append] at he
            have hhigh := utf8_high hd b (by simp [hb])
            rw [(List.cons.inj he).1] at hhigh
            exact absurd (byte_lt hlt) (UInt8.not_lt.mpr hhigh)

/-- A key is compared with the name a string denotes. -/
theorem jsonSliceEquals_rawText (s : Chars) {key : String} (hk : PrintableKey key) :
    jsonSliceEquals (rawText s) (ascii key) = decide (decoded s = key.toList) := by
  have hascii : ascii key = utf8 key.toList := (utf8_printable hk).symm
  have hkey : NulFree (ascii key) := by
    intro b hb
    obtain ⟨c, hc, rfl⟩ := List.mem_map.mp hb
    obtain ⟨hlo, hhi⟩ := hk c hc
    intro hzero
    have := (byte_eq_iff (Nat.lt_of_le_of_lt hhi (by decide)) (n := 0) (by decide)).mp hzero
    omega
  rw [Bool.eq_iff_iff, jsonSliceEquals_iff s hkey, decide_eq_true_eq, hascii]
  constructor
  · rintro ⟨-, he⟩
    exact utf8_eq_printable hk he.symm
  · intro he
    exact ⟨spelledOut_of_printable (he ▸ hk), by rw [he]⟩

end Names

section Texts

theorem ws_blank (ws : Ws) : Blank ws.bytes := by
  intro c hc
  rcases ws.isWs c hc with rfl | rfl | rfl | rfl <;> decide

/-- A byte of a number or a literal in a text. -/
def isWordByte (c : UInt8) : Bool := Value.isTokenByte c && c ≠ 0

private theorem digits_word (ds : Digits) : ∀ c ∈ ds.bytes, isWordByte c = true := by
  have hall : ∀ c : UInt8, isDigit c = true → isWordByte c = true :=
    forall_byte (by decide +kernel)
  exact fun c hc => hall c (ds.isDigit c hc)

private theorem exp_word (e : Exponent) :
    ∀ c ∈ e.letter :: (e.sign ++ e.digits.bytes), isWordByte c = true := by
  have hletter : isWordByte e.letter = true := by
    rcases e.isExp with h | h <;> rw [h] <;> decide
  have hsign : ∀ c ∈ e.sign, isWordByte c = true := by
    apply List.all_eq_true.mp
    rcases e.isSign with h | h | h <;> rw [h] <;> decide
  intro c hc
  rcases List.mem_cons.mp hc with rfl | hc
  · exact hletter
  · rcases List.mem_append.mp hc with hc | hc
    · exact hsign c hc
    · exact digits_word e.digits c hc

private theorem number_word (n : Number) : n.text ≠ [] ∧ ∀ c ∈ n.text, isWordByte c = true := by
  constructor
  · simp [Number.text, n.int.ne_nil]
  · intro c hc
    simp only [Number.text, List.mem_append] at hc
    rcases hc with hc | hc | hc | hc
    · split_ifs at hc
      · obtain rfl := List.mem_singleton.mp hc
        decide
      · cases hc
    · exact digits_word n.int c hc
    · cases hf : n.frac with
      | none =>
          rw [hf] at hc
          cases hc
      | some ds =>
          rw [hf] at hc
          rcases List.mem_cons.mp hc with rfl | hc
          · decide
          · exact digits_word ds c hc
    · cases he : n.exp with
      | none =>
          rw [he] at hc
          cases hc
      | some e =>
          rw [he] at hc
          exact exp_word e c hc

private theorem literal_word (l : Literal) :
    l.text ≠ [] ∧ ∀ c ∈ l.text, isWordByte c = true := by
  cases l <;> exact ⟨by decide, List.all_eq_true.mp (by decide)⟩

private theorem token_of_word {s : CString} (h : ∀ c ∈ s, isWordByte c = true) :
    ∀ c ∈ s, Value.isTokenByte c = true := fun c hc => (Bool.and_eq_true_iff.mp (h c hc)).1

private theorem nulFree_of_word {s : CString} (h : ∀ c ∈ s, isWordByte c = true) : NulFree s :=
  fun c hc => of_decide_eq_true (Bool.and_eq_true_iff.mp (h c hc)).2

/-- A value as the scanners see it. -/
def value : Json → Value
  | .string s => .string (rawText s)
  | .number n => .token n.text
  | .literal l => .token l.text
  | .array ws es => .array (ws.bytes ++ es.text)
  | .object ws ms => .object (ws.bytes ++ ms.text)

@[simp] theorem value_text (v : Json) : (value v).text = v.text := by
  cases v <;> simp [value, Value.text, Json.text, stringText]

private theorem nested_string (s : Chars) (n : ℕ) : Nested n (stringText s) :=
  .string (rawText_raw s) .nil

private theorem nested_word {s : CString} (h : ∀ c ∈ s, isWordByte c = true) (n : ℕ) :
    Nested n s := by
  refine nested_of_plain (fun c hc => ?_) n
  have := token_of_word h c hc
  simp only [Value.isTokenByte, Bool.and_eq_true] at this
  exact this.1.1

mutual

/-- A tree spells out a text whose strings are closed and whose brackets match. -/
theorem json_nested : ∀ (v : Json) {n : ℕ}, v.depth ≤ n → Nested n v.text
  | .string s, n, _ => nested_string s n
  | .number m, n, _ => nested_word (number_word m).2 n
  | .literal l, n, _ => nested_word (literal_word l).2 n
  | .array ws es, n + 1, h => by
      have hes := elements_nested es (Nat.le_of_succ_le_succ h)
      have h := Nested.array (((ws_blank ws).nested n).append hes.1) .nil
      simpa [Json.text] using h
  | .object ws ms, n + 1, h => by
      have hms := members_nested ms (Nat.le_of_succ_le_succ h)
      have h := Nested.object (((ws_blank ws).nested n).append hms.1) .nil
      simpa [Json.text] using h

theorem elements_nested : ∀ (es : Elements) {n : ℕ}, es.depth ≤ n →
    Nested n es.text ∧ Nested n es.more
  | .nil, _, _ => ⟨.nil, .nil⟩
  | .cons before v after rest, n, h => by
      have hv := json_nested v (le_trans (le_max_left _ _) h)
      have hrest := (elements_nested rest (le_trans (le_max_right _ _) h)).2
      have htext := ((ws_blank before).nested n).append
        (hv.append (((ws_blank after).nested n).append hrest))
      exact ⟨htext, .plain (by decide) htext⟩

theorem members_nested : ∀ (ms : Members) {n : ℕ}, ms.depth ≤ n →
    Nested n ms.text ∧ Nested n ms.more
  | .nil, _, _ => ⟨.nil, .nil⟩
  | .cons before name afterName beforeValue v after rest, n, h => by
      have hv := json_nested v (le_trans (le_max_left _ _) h)
      have hrest := (members_nested rest (le_trans (le_max_right _ _) h)).2
      have hvalue := ((ws_blank beforeValue).nested n).append
        (hv.append (((ws_blank after).nested n).append hrest))
      have hcolon := ((ws_blank afterName).nested n).append
        (Nested.plain (c := colon) (by decide) hvalue)
      have htext := ((ws_blank before).nested n).append ((nested_string name n).append hcolon)
      exact ⟨htext, .plain (by decide) htext⟩

end

theorem value_valid {v : Json} {n : ℕ} (h : v.depth ≤ n + 1) : (value v).Valid n := by
  cases v with
  | string s => exact rawText_raw s
  | number m => exact ⟨(number_word m).1, token_of_word (number_word m).2⟩
  | literal l => exact ⟨(literal_word l).1, token_of_word (literal_word l).2⟩
  | array ws es =>
      exact ((ws_blank ws).nested n).append (elements_nested es (Nat.le_of_succ_le_succ h)).1
  | object ws ms =>
      exact ((ws_blank ws).nested n).append (members_nested ms (Nat.le_of_succ_le_succ h)).1

private theorem ws_nulFree (ws : Ws) : NulFree ws.bytes := by
  intro c hc
  rcases ws.isWs c hc with rfl | rfl | rfl | rfl <;> decide

private theorem string_nulFree (s : Chars) : NulFree (stringText s) := by
  simp [stringText, rawText_nulFree, quote]

mutual

theorem json_nulFree : ∀ v : Json, NulFree v.text
  | .string s => string_nulFree s
  | .number m => nulFree_of_word (number_word m).2
  | .literal l => nulFree_of_word (literal_word l).2
  | .array ws es => by
      have hes := (elements_nulFree es).1
      simp [Json.text, ws_nulFree, hes, arrayOpen, arrayClose]
  | .object ws ms => by
      have hms := (members_nulFree ms).1
      simp [Json.text, ws_nulFree, hms, objectOpen, objectClose]

theorem elements_nulFree : ∀ es : Elements, NulFree es.text ∧ NulFree es.more
  | .nil => ⟨nulFree_nil, nulFree_nil⟩
  | .cons before v after rest => by
      have hv := json_nulFree v
      have hrest := (elements_nulFree rest).2
      simp [Elements.text, Elements.more, ws_nulFree, hv, hrest, comma]

theorem members_nulFree : ∀ ms : Members, NulFree ms.text ∧ NulFree ms.more
  | .nil => ⟨nulFree_nil, nulFree_nil⟩
  | .cons before name afterName beforeValue v after rest => by
      have hv := json_nulFree v
      have hrest := (members_nulFree rest).2
      simp [Members.text, Members.more, ws_nulFree, string_nulFree, hv, hrest, comma, colon]

end

theorem document_nulFree (doc : Document) : NulFree doc.text := by
  simp [Document.text, ws_nulFree, json_nulFree]

end Texts

section Members

/-- The members of an object as the scanners see them. -/
def layout : Members → List Member
  | .nil => []
  | .cons before name afterName beforeValue v after rest =>
      { before := before.bytes, key := rawText name, afterKey := afterName.bytes
        beforeValue := beforeValue.bytes, value := value v, after := after.bytes } :: layout rest

theorem layout_text : ∀ ms : Members, membersText (layout ms) = ms.text
  | .nil => rfl
  | .cons before name afterName beforeValue v after .nil => by
      simp [layout, membersText, Member.text, Members.text, Members.more, stringText]
  | .cons before name afterName beforeValue v after (.cons b' n' a' v' w' f' rest) => by
      have ih := layout_text (.cons b' n' a' v' w' f' rest)
      have hmore : Members.more (.cons b' n' a' v' w' f' rest) =
          comma :: Members.text (.cons b' n' a' v' w' f' rest) := rfl
      rw [Members.text, hmore, ← ih]
      simp [layout, membersText, Member.text, stringText]

theorem layout_valid {n : ℕ} : ∀ (ms : Members), ms.depth ≤ n + 1 →
    ∀ m ∈ layout ms, m.Valid n
  | .nil, _ => List.forall_mem_nil _
  | .cons before name afterName beforeValue v after rest, h => by
      have hv : v.depth ≤ n + 1 := le_trans (le_max_left _ _) h
      have hrest := layout_valid rest (le_trans (le_max_right _ _) h)
      refine List.forall_mem_cons.mpr ⟨?_, hrest⟩
      exact ⟨ws_blank before, rawText_raw name, ws_blank afterName, ws_blank beforeValue,
        value_valid hv, ws_blank after⟩

/-- What is handed out for a value: a string decoded, anything else as it stands. -/
def handed : Json → CString
  | .string s => utf8 (decoded s)
  | v => v.text

theorem value_result (v : Json) : (value v).result = handed v := by
  cases v with
  | string s => exact unescape_rawText s
  | number n => rfl
  | literal l => rfl
  | array ws es => exact value_text (.array ws es)
  | object ws ms => exact value_text (.object ws ms)

/-- Induction over the members of an object. -/
@[elab_as_elim]
theorem members_ind {motive : Members → Prop} (nil : motive .nil)
    (cons : ∀ (before : Ws) (name : Chars) (afterName beforeValue : Ws) (v : Json) (after : Ws)
      (rest : Members), motive rest →
        motive (.cons before name afterName beforeValue v after rest)) : ∀ ms, motive ms
  | .nil => nil
  | .cons before name afterName beforeValue v after rest =>
      cons before name afterName beforeValue v after rest (members_ind nil cons rest)

theorem lookup_layout {key : String} (hk : PrintableKey key) : ∀ ms : Members,
    lookup (ascii key) (layout ms) =
      (ms.list.find? fun m => decoded m.1 = key.toList).map fun m => handed m.2
  | .nil => rfl
  | .cons before name afterName beforeValue v after rest => by
      have ih := lookup_layout hk rest
      have hname := jsonSliceEquals_rawText name hk
      by_cases h : decoded name = key.toList
      · simp [lookup, layout, Members.list, hname, h, value_result]
      · simpa [lookup, layout, Members.list, hname, h] using ih

/-- The first member of the name. -/
def firstNamed (key : List Char) (ms : List (Chars × Json)) : Option Json :=
  (ms.find? fun m => decoded m.1 = key).map Prod.snd

theorem getValue_text (doc : Document) (hd : doc.depth ≤ 100) {key : String}
    (hk : PrintableKey key) :
    getValue (ascii key) doc.text = (firstNamed key.toList doc.members.list).map handed := by
  have hms : doc.members.depth ≤ 98 + 1 := Nat.le_of_succ_le_succ hd
  have htext : doc.text = doc.lead.bytes ++ objectOpen :: (doc.inner.bytes ++
      (membersText (layout doc.members) ++ objectClose :: doc.tail.bytes)) := by
    simp [Document.text, Document.root, Json.text, layout_text]
  rw [htext, getValue_members (layout_valid doc.members hms) _ (ws_blank _) (ws_blank _)
    (ws_blank _), lookup_layout hk, firstNamed, Option.map_map]
  rfl

/-- On a valid JSON text `get_value` hands out nothing exactly when no member
of the root object has the name, and else the value of the first that has it. -/
theorem getValue_correct (doc : Document) (hd : doc.depth ≤ 100) {key : String}
    (hk : PrintableKey key) :
    (getValue (ascii key) doc.text = none ↔
      ∀ m ∈ doc.members.list, decoded m.1 ≠ key.toList) ∧
    ∀ before name v after, doc.members.list = before ++ (name, v) :: after →
      decoded name = key.toList → (∀ m ∈ before, decoded m.1 ≠ key.toList) →
      getValue (ascii key) doc.text = some (handed v) := by
  rw [getValue_text doc hd hk, firstNamed]
  constructor
  · simp
  · intro before name v after hlist hname hbefore
    have hnone : before.find? (fun m => decoded m.1 = key.toList) = none := by simpa using hbefore
    simp [hlist, List.find?_append, hnone, hname]

/-- A document whose first member holds the key as a value and, deeper, as a
name. The key itself is written with an escape. -/
def sampleDocument : Document where
  lead := .none
  inner := .none
  members :=
    .cons .none (.ofString "x") .none .none
      (.array .none (.cons .none (.string (.ofString "ab")) .none
        (.cons .none (.object .none (.cons .none (.ofString "ab") .none .none
          (.literal .null) .none .nil)) .none .nil))) .none <|
    .cons .none [.ofChar 'a', .ofUnit 0x62] .none .none
      (.string [.ofUnit 0xd800, .escape .quotation]) .none .nil
  tail := .none

theorem getValue_correct_sample :
    getValue (ascii "ab") sampleDocument.text = some [0xef, 0xbf, 0xbd, 0x22] :=
  (getValue_correct sampleDocument (by decide) (by decide)).2 [_] _ _ [] rfl (by decide) (by decide)

end Members

end Muslimtify.JsonLookup
