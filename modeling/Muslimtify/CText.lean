import Mathlib.Data.List.TakeWhile
import Mathlib.Data.Nat.Digits.Defs
import Mathlib.Data.Nat.Digits.Lemmas
import Mathlib.Algebra.Order.Floor.Ring
import Mathlib.Data.Rat.Floor
import Mathlib.Tactic.Linarith
import Mathlib.Tactic.Ring
import Mathlib.Tactic.NormNum

/-!
# C strings and the numerals of the C library

A C string is the list of its bytes before the terminating zero, so the end of
the list is what a C loop sees as `'\0'`. Integers are printed as `printf`
prints them under `%d` and `%0wd` and are read back as `strtol` reads them in
base ten, skipping white space, taking one sign and stopping at the first byte
that is no digit.

The white space class is that of the C locale. `strtol` saturates at the ends
of a 64-bit `long`, which is why its round trip carries a range.
-/
namespace Muslimtify.CText

abbrev CString := List UInt8

/-- The bytes of an ASCII literal of the source. -/
def ascii (s : String) : CString := s.toList.map fun c => c.toNat.toUInt8

/-- `isspace` in the C locale: blank, and `\t` to `\r`. -/
def isspace (c : UInt8) : Bool := c = 0x20 || (0x09 ≤ c && c ≤ 0x0d)

/-- A property of bytes may be checked on all 256 of them. -/
theorem forall_byte {p : UInt8 → Prop} (h : ∀ n < 256, p (UInt8.ofNat n)) (c : UInt8) : p c := by
  have := h c.toNat c.toNat_lt
  rwa [UInt8.ofNat_toNat] at this

/-- No byte of a C string is zero. -/
def NulFree (s : CString) : Prop := ∀ c ∈ s, c ≠ 0

instance (s : CString) : Decidable (NulFree s) := List.decidableBAll _ s

@[simp] theorem nulFree_nil : NulFree [] := fun _ h => by cases h

@[simp] theorem nulFree_cons {c : UInt8} {s : CString} : NulFree (c :: s) ↔ c ≠ 0 ∧ NulFree s := by
  simp [NulFree]

@[simp] theorem nulFree_append {s t : CString} : NulFree (s ++ t) ↔ NulFree s ∧ NulFree t := by
  simp [NulFree, or_imp, forall_and]

def skipWhitespace (s : CString) : CString := s.dropWhile isspace

theorem skipWhitespace_of_head {c : UInt8} (h : isspace c = false) (s : CString) :
    skipWhitespace (c :: s) = c :: s := by
  simp [skipWhitespace, h]

theorem skipWhitespace_append {w : CString} (hw : ∀ c ∈ w, isspace c = true) (s : CString) :
    skipWhitespace (w ++ s) = skipWhitespace s := by
  induction w with
  | nil => rfl
  | cons c w ih =>
      have hc := hw c (by simp)
      simp only [skipWhitespace, List.cons_append, List.dropWhile_cons, hc, if_true]
      exact ih fun d hd => hw d (by simp [hd])

section Buffers

/-- A `char` array of `cap` bytes that holds a terminated string. -/
structure CBuffer (cap : ℕ) where
  text : CString
  fits : text.length < cap
  nulFree : NulFree text
  deriving DecidableEq, Repr

variable {cap : ℕ} [NeZero cap]

/-- The string that ends at the first zero byte. -/
def terminated (s : CString) : CString := s.takeWhile fun c => c ≠ 0

theorem terminated_nulFree (s : CString) : NulFree (terminated s) := fun c hc => by
  simpa using List.mem_takeWhile_imp hc

theorem terminated_eq {s : CString} (h : NulFree s) : terminated s = s :=
  List.takeWhile_eq_self_iff.mpr fun c hc => by simpa using h c hc

/-- `copy_string(dst, cap, src)`: what `dst` holds afterwards. -/
def copyString (cap : ℕ) [NeZero cap] (src : CString) : CBuffer cap where
  text := (terminated src).take (cap - 1)
  fits := by
    have := NeZero.ne cap
    simp only [List.length_take]
    omega
  nulFree := fun c hc => terminated_nulFree src c (List.mem_of_mem_take hc)

theorem copyString_of_fits {src : CString} (hn : NulFree src) (h : src.length < cap) :
    (copyString cap src).text = src := by
  simp only [copyString, terminated_eq hn]
  exact List.take_of_length_le (by omega)

@[simp] theorem copyString_text (b : CBuffer cap) : copyString cap b.text = b := by
  obtain ⟨s, hs, hn⟩ := b
  have : (copyString cap s).text = s := copyString_of_fits hn hs
  cases h : copyString cap s
  simp_all

instance neZero16 : NeZero 16 := ⟨by decide⟩

instance neZero32 : NeZero 32 := ⟨by decide⟩

instance neZero64 : NeZero 64 := ⟨by decide⟩

instance neZero128 : NeZero 128 := ⟨by decide⟩

instance neZero512 : NeZero 512 := ⟨by decide⟩

/-- An empty array, as `{0}` leaves it. -/
def CBuffer.empty (cap : ℕ) [NeZero cap] : CBuffer cap := copyString cap []

end Buffers

section Digits

def isDigit (c : UInt8) : Bool := 0x30 ≤ c && c ≤ 0x39

/-- The byte of one decimal digit. -/
def digitByte (d : ℕ) : UInt8 := (0x30 + d).toUInt8

def digitValue (c : UInt8) : ℕ := c.toNat - 0x30

theorem isDigit_digitByte {d : ℕ} (h : d < 10) : isDigit (digitByte d) = true := by
  interval_cases d <;> decide

theorem digitValue_digitByte {d : ℕ} (h : d < 10) : digitValue (digitByte d) = d := by
  interval_cases d <;> decide

/-- The number a run of digit bytes denotes, most significant digit first. -/
def digitsValue (ds : CString) : ℕ := ds.foldl (fun n c => 10 * n + digitValue c) 0

theorem foldl_digits (ds : CString) (a : ℕ) :
    ds.foldl (fun n c => 10 * n + digitValue c) a =
      a * 10 ^ ds.length + digitsValue ds := by
  induction ds generalizing a with
  | nil => simp [digitsValue]
  | cons c ds ih =>
      simp only [digitsValue, List.foldl_cons, List.length_cons]
      rw [ih, ih (10 * 0 + digitValue c)]
      ring

theorem digitsValue_append (ds es : CString) :
    digitsValue (ds ++ es) = digitsValue ds * 10 ^ es.length + digitsValue es := by
  conv_lhs => rw [digitsValue, List.foldl_append, foldl_digits]
  rfl

/-- The decimal digits of a natural number, `%u`. -/
def decimal (n : ℕ) : CString :=
  if n = 0 then [0x30] else (Nat.digits 10 n).reverse.map digitByte

theorem decimal_isDigit (n : ℕ) : ∀ c ∈ decimal n, isDigit c = true := by
  intro c hc
  unfold decimal at hc
  split_ifs at hc with hn
  · simp only [List.mem_singleton] at hc
    subst hc
    decide
  · obtain ⟨d, hd, rfl⟩ := List.mem_map.mp hc
    exact isDigit_digitByte (Nat.digits_lt_base (by omega) (List.mem_reverse.mp hd))

theorem decimal_ne_nil (n : ℕ) : decimal n ≠ [] := by
  unfold decimal
  split_ifs with hn
  · simp
  · simp [Nat.digits_ne_nil_iff_ne_zero.mpr hn]

private theorem digitsValue_map_reverse (l : List ℕ) (hl : ∀ d ∈ l, d < 10) :
    digitsValue (l.reverse.map digitByte) = Nat.ofDigits 10 l := by
  induction l with
  | nil => rfl
  | cons d l ih =>
      have hd := digitValue_digitByte (hl d (by simp))
      rw [List.reverse_cons, List.map_append, digitsValue_append,
        ih fun e he => hl e (by simp [he])]
      simp only [List.map_cons, List.map_nil, List.length_singleton, Nat.ofDigits_cons]
      simp only [digitsValue, List.foldl_cons, List.foldl_nil, hd]
      push_cast
      ring

theorem digitsValue_decimal (n : ℕ) : digitsValue (decimal n) = n := by
  unfold decimal
  split_ifs with hn
  · subst hn
    decide
  · rw [digitsValue_map_reverse _ fun d hd => Nat.digits_lt_base (by omega) hd,
      Nat.ofDigits_digits]

/-- Zero padding on the left to width `w`. -/
def zeroPad (w : ℕ) (ds : CString) : CString := List.replicate (w - ds.length) 0x30 ++ ds

theorem zeroPad_isDigit {w : ℕ} {ds : CString} (h : ∀ c ∈ ds, isDigit c = true) :
    ∀ c ∈ zeroPad w ds, isDigit c = true := by
  intro c hc
  rcases List.mem_append.mp hc with hc | hc
  · rw [List.eq_of_mem_replicate hc]
    decide
  · exact h c hc

theorem digitsValue_zeros (k : ℕ) : digitsValue (List.replicate k 0x30) = 0 := by
  induction k with
  | zero => rfl
  | succ k ih =>
      rw [List.replicate_succ', digitsValue_append, ih]
      decide

theorem digitsValue_zeroPad (w : ℕ) (ds : CString) :
    digitsValue (zeroPad w ds) = digitsValue ds := by
  rw [zeroPad, digitsValue_append, digitsValue_zeros]
  simp

theorem zeroPad_length {w : ℕ} {ds : CString} (h : ds.length ≤ w) :
    (zeroPad w ds).length = w := by
  simp only [zeroPad, List.length_append, List.length_replicate]
  omega

theorem decimal_length_le {n k : ℕ} (hk : 0 < k) (h : n < 10 ^ k) : (decimal n).length ≤ k := by
  unfold decimal
  split_ifs with hn
  · exact hk
  · simp only [List.length_map, List.length_reverse]
    exact (Nat.digits_length_le_iff (by omega) n).mpr h

end Digits

/-- A continuation a numeral cannot run on into. -/
def NoDigitHead (s : CString) : Prop := ∀ c t, s = c :: t → isDigit c = false

theorem noDigitHead_nil : NoDigitHead [] := by
  intro c t h
  cases h

theorem noDigitHead_cons {c : UInt8} {s : CString} (h : isDigit c = false) :
    NoDigitHead (c :: s) := by
  intro d t hd
  cases hd
  exact h

theorem span_digits {ds s : CString} (hd : ∀ c ∈ ds, isDigit c = true) (hs : NoDigitHead s) :
    (ds ++ s).span isDigit = (ds, s) := by
  rw [List.span_eq_takeWhile_dropWhile, List.takeWhile_append_of_pos hd,
    List.dropWhile_append_of_pos hd]
  cases s with
  | nil => simp
  | cons c s => simp [hs c s rfl]

section Integers

/-- `%d` -/
def formatInt (z : ℤ) : CString :=
  if z < 0 then 0x2d :: decimal z.natAbs else decimal z.natAbs

/-- `%0wd`. The sign counts towards the width. -/
def formatIntPad (w : ℕ) (z : ℤ) : CString :=
  if z < 0 then 0x2d :: zeroPad (w - 1) (decimal z.natAbs) else zeroPad w (decimal z.natAbs)

/-- A `%d` conversion of `scanf`: white space, an optional sign and at least
one digit. -/
def scanInt (s : CString) : Option (ℤ × CString) :=
  match skipWhitespace s with
  | 0x2d :: t =>
      let p := t.span isDigit
      if p.1.isEmpty then none else some (-(digitsValue p.1 : ℤ), p.2)
  | 0x2b :: t =>
      let p := t.span isDigit
      if p.1.isEmpty then none else some ((digitsValue p.1 : ℤ), p.2)
  | t =>
      let p := t.span isDigit
      if p.1.isEmpty then none else some ((digitsValue p.1 : ℤ), p.2)

private theorem digit_head {ds : CString} (hne : ds ≠ []) (hd : ∀ c ∈ ds, isDigit c = true) :
    ∃ c t, ds = c :: t ∧ isspace c = false ∧ c ≠ 0x2d ∧ c ≠ 0x2b := by
  obtain ⟨c, t, rfl⟩ := List.exists_cons_of_ne_nil hne
  have hc := hd c (by simp)
  refine ⟨c, t, rfl, ?_, ?_, ?_⟩
  · simp only [isDigit, Bool.and_eq_true, decide_eq_true_eq] at hc
    simp only [isspace, Bool.or_eq_false_iff, decide_eq_false_iff_not, Bool.and_eq_false_iff,
      UInt8.le_iff_toNat_le, ← UInt8.toNat_inj] at hc ⊢
    simp only [UInt8.reduceToNat] at hc ⊢
    omega
  · rintro rfl
    exact absurd hc (by decide)
  · rintro rfl
    exact absurd hc (by decide)

theorem scanInt_digits {ds s : CString} (hne : ds ≠ []) (hd : ∀ c ∈ ds, isDigit c = true)
    (hs : NoDigitHead s) : scanInt (ds ++ s) = some ((digitsValue ds : ℤ), s) := by
  obtain ⟨c, t, rfl, hsp, hm, hp⟩ := digit_head hne hd
  rw [scanInt, List.cons_append, skipWhitespace_of_head hsp, ← List.cons_append]
  split
  · rename_i h
    exact absurd (List.cons.inj h).1 hm
  · rename_i h
    exact absurd (List.cons.inj h).1 hp
  · rw [span_digits hd hs]
    rfl

theorem scanInt_neg_digits {ds s : CString} (hne : ds ≠ []) (hd : ∀ c ∈ ds, isDigit c = true)
    (hs : NoDigitHead s) :
    scanInt (0x2d :: (ds ++ s)) = some (-(digitsValue ds : ℤ), s) := by
  rw [scanInt, skipWhitespace_of_head (by decide)]
  simp only [span_digits hd hs]
  simp [hne]

theorem zeroPad_ne_nil {w : ℕ} {ds : CString} (h : ds ≠ []) : zeroPad w ds ≠ [] := by
  simp [zeroPad, h]

/-- A printed integer is scanned back, whatever it is padded to. -/
theorem scanInt_formatIntPad (w : ℕ) (z : ℤ) {s : CString} (hs : NoDigitHead s) :
    scanInt (formatIntPad w z ++ s) = some (z, s) := by
  unfold formatIntPad
  split_ifs with hz
  · rw [List.cons_append, scanInt_neg_digits (zeroPad_ne_nil (decimal_ne_nil _))
      (zeroPad_isDigit (decimal_isDigit _)) hs, digitsValue_zeroPad, digitsValue_decimal]
    congr 2
    omega
  · rw [scanInt_digits (zeroPad_ne_nil (decimal_ne_nil _))
      (zeroPad_isDigit (decimal_isDigit _)) hs, digitsValue_zeroPad, digitsValue_decimal]
    congr 2
    omega

theorem formatIntPad_zero (z : ℤ) : formatIntPad 0 z = formatInt z := by
  simp [formatIntPad, formatInt, zeroPad]

theorem scanInt_formatInt (z : ℤ) {s : CString} (hs : NoDigitHead s) :
    scanInt (formatInt z ++ s) = some (z, s) := by
  rw [← formatIntPad_zero]
  exact scanInt_formatIntPad 0 z hs

def longMin : ℤ := -2 ^ 63
def longMax : ℤ := 2 ^ 63 - 1

/-- `strtol(s, &end, 10)` with `end`: no digits give zero and the whole string
back, and a value outside `long` saturates. -/
def strtolEnd (s : CString) : ℤ × CString :=
  match scanInt s with
  | none => (0, s)
  | some (z, t) => (max longMin (min longMax z), t)

/-- `strtol(s, NULL, 10)`, and `strtoll` on the platforms of the source. -/
def strtol (s : CString) : ℤ := (strtolEnd s).1

/-- A run of digits is read to its end. -/
theorem strtol_digits {ds : CString} (hne : ds ≠ []) (hd : ∀ c ∈ ds, isDigit c = true) :
    strtol ds = max longMin (min longMax (digitsValue ds : ℤ)) := by
  have hscan := scanInt_digits hne hd noDigitHead_nil
  rw [List.append_nil] at hscan
  rw [strtol, strtolEnd, hscan]

theorem strtolEnd_digits {ds s : CString} (hne : ds ≠ []) (hd : ∀ c ∈ ds, isDigit c = true)
    (hs : NoDigitHead s) : strtolEnd (ds ++ s) = (strtol ds, s) := by
  rw [strtol_digits hne hd, strtolEnd, scanInt_digits hne hd hs]

theorem strtol_range (s : CString) : longMin ≤ strtol s ∧ strtol s ≤ longMax := by
  unfold strtol strtolEnd
  split
  · simp [longMin, longMax]
  · simp only [longMin, longMax]
    omega

theorem strtol_formatInt {z : ℤ} (hz : longMin ≤ z ∧ z ≤ longMax) {s : CString}
    (hs : NoDigitHead s) : strtol (formatInt z ++ s) = z := by
  simp only [strtol, strtolEnd, scanInt_formatInt z hs]
  omega

theorem nulFree_of_digits {ds : CString} (h : ∀ c ∈ ds, isDigit c = true) : NulFree ds := by
  intro c hc hz
  have := h c hc
  rw [hz] at this
  exact absurd this (by decide)

theorem formatInt_nulFree (z : ℤ) : NulFree (formatInt z) := by
  have hd := nulFree_of_digits (decimal_isDigit z.natAbs)
  unfold formatInt
  split_ifs
  · exact nulFree_cons.mpr ⟨by decide, hd⟩
  · exact hd

theorem formatInt_length {z : ℤ} (h : longMin ≤ z ∧ z ≤ longMax) : (formatInt z).length ≤ 20 := by
  have hd : (decimal z.natAbs).length ≤ 19 := by
    refine decimal_length_le (by decide) ?_
    simp only [longMin, longMax] at h
    omega
  unfold formatInt
  split_ifs
  · rw [List.length_cons]
    omega
  · omega

theorem strtolEnd_formatInt {z : ℤ} (hz : longMin ≤ z ∧ z ≤ longMax) {s : CString}
    (hs : NoDigitHead s) : strtolEnd (formatInt z ++ s) = (z, s) := by
  simp only [strtolEnd, scanInt_formatInt z hs]
  congr 1
  omega

end Integers

end Muslimtify.CText
