import Muslimtify.CDouble
import Muslimtify.JsonDocument

/-!
# Writing values and members

The values the program prints into its files, as the writer's `fprintf` calls
lay them out: escaped strings, booleans, `%d` and `%.kf` numerals and nested
objects, one member a line. Each is well formed, free of zero bytes, of bounded
length, and read back as what was written.
-/
namespace Muslimtify.JsonWriter
open CText CDouble JsonReader JsonDocument

section Values

def stringValue (s : CString) : Value := .string (escapeBytes s)

def boolText (b : Bool) : CString := if b then ascii "true" else ascii "false"

def boolValue (b : Bool) : Value := .token (boolText b)

/-- `%d` and `%lld` -/
def intValue (z : ℤ) : Value := .token (formatInt z)

/-- `%.kf` -/
def fixedValue (k : ℕ) (x : Double) : Value := .token (formatFixed k x)

def objectValue (ms : List Member) : Value := .object (membersText ms)

@[simp] theorem stringValue_result {cap : ℕ} (b : CBuffer cap) :
    (stringValue b.text).result = b.text := unescape_escapeBytes b.nulFree

theorem stringValue_valid (s : CString) (n : ℕ) : (stringValue s).Valid n := escapeBytes_raw s

theorem boolValue_valid (b : Bool) (n : ℕ) : (boolValue b).Valid n := by
  cases b <;> exact ⟨by decide, List.all_eq_true.mp (by decide)⟩

private theorem isTokenByte_of_digit : ∀ c : UInt8, isDigit c = true → Value.isTokenByte c = true :=
  forall_byte (by decide +kernel)

theorem intValue_valid (z : ℤ) (n : ℕ) : (intValue z).Valid n := by
  have hd := fun c hc => isTokenByte_of_digit c (decimal_isDigit z.natAbs c hc)
  simp only [intValue, Value.Valid, formatInt]
  split_ifs
  · exact ⟨by simp, by simpa using ⟨by decide, hd⟩⟩
  · exact ⟨decimal_ne_nil _, hd⟩

theorem fixedValue_valid (k : ℕ) (x : Double) (n : ℕ) : (fixedValue k x).Valid n := by
  have hd : ∀ m, ∀ c ∈ fixedDigits k m, Value.isTokenByte c = true := by
    intro m c hc
    simp only [fixedDigits, List.mem_append, List.mem_cons] at hc
    rcases hc with hc | rfl | hc
    · exact isTokenByte_of_digit c (decimal_isDigit _ c hc)
    · decide
    · exact isTokenByte_of_digit c (zeroPad_isDigit (decimal_isDigit _) c hc)
  have hne : ∀ m, fixedDigits k m ≠ [] := fun m => by simp [fixedDigits]
  have htoken : ∀ s : CString, s ≠ [] ∧ s.all Value.isTokenByte = true →
      s ≠ [] ∧ ∀ c ∈ s, Value.isTokenByte c = true := fun s h => h.imp_right List.all_eq_true.mp
  simp only [fixedValue, Value.Valid]
  cases x with
  | fin q h =>
      simp only [formatFixed]
      split_ifs
      · exact ⟨by simp, by simpa using ⟨by decide, hd _⟩⟩
      · exact ⟨hne _, hd _⟩
  | inf s =>
      cases s with
      | false => exact htoken (ascii "inf") (by decide)
      | true => exact htoken (ascii "-inf") (by decide)
  | nan => exact htoken (ascii "nan") (by decide)

theorem objectValue_valid {ms : List Member} {n : ℕ} (h : ∀ m ∈ ms, m.Valid n) :
    (objectValue ms).Valid (n + 1) := nested_members h

end Values

section Lines

/-- A line break and an indentation. -/
def newline (indent : ℕ) : CString := 0x0a :: List.replicate indent 0x20

/-- `"key": value` on a line of its own. -/
def line (indent : ℕ) (key : String) (value : Value) : Member where
  before := newline indent
  key := ascii key
  value := value

/-- The last line of a block, which the closing bracket follows on the next. -/
def lastLine (indent : ℕ) (key : String) (value : Value) : Member :=
  { line indent key value with after := newline (indent - 2) }

/-- A key that is written as it stands. -/
def PlainKey (key : String) : Prop := ∀ c ∈ ascii key, c ≠ quote ∧ c ≠ backslash ∧ c ≠ 0

instance (key : String) : Decidable (PlainKey key) := List.decidableBAll _ (ascii key)

private theorem raw_of_plain {s : CString} (h : ∀ c ∈ s, c ≠ quote ∧ c ≠ backslash) : Raw s := by
  induction s with
  | nil => exact .nil
  | cons c s ih =>
      have hc := h c (by simp)
      exact .plain hc.1 hc.2 (ih fun d hd => h d (by simp [hd]))

theorem PlainKey.raw {key : String} (h : PlainKey key) : Raw (ascii key) :=
  raw_of_plain fun c hc => ⟨(h c hc).1, (h c hc).2.1⟩

theorem PlainKey.nulFree {key : String} (h : PlainKey key) : NulFree (ascii key) :=
  fun c hc => (h c hc).2.2

theorem newline_blank (n : ℕ) : Blank (newline n) := by
  intro c hc
  rcases List.mem_cons.mp hc with rfl | hc
  · decide
  · rw [List.eq_of_mem_replicate hc]
    decide

theorem blank_nil : Blank [] := fun _ h => by cases h

theorem blank_space : Blank [0x20] := fun c h => by
  rw [List.mem_singleton.mp h]
  rfl

theorem line_valid {key : String} (hk : PlainKey key) {n : ℕ} {v : Value} (hv : v.Valid n)
    (indent : ℕ) : (line indent key v).Valid n :=
  ⟨newline_blank _, hk.raw, blank_nil, blank_space, hv, blank_nil⟩

theorem lastLine_valid {key : String} (hk : PlainKey key) {n : ℕ} {v : Value} (hv : v.Valid n)
    (indent : ℕ) : (lastLine indent key v).Valid n :=
  ⟨newline_blank _, hk.raw, blank_nil, blank_space, hv, newline_blank _⟩

end Lines

section Bytes

private theorem escapeByte_nulFree : ∀ c : UInt8, c ≠ 0 → NulFree (escapeByte c) :=
  forall_byte (by decide +kernel)

theorem stringValue_nulFree {cap : ℕ} (b : CBuffer cap) : NulFree (stringValue b.text).text := by
  have h : NulFree (escapeBytes b.text) := by
    intro c hc
    obtain ⟨d, hd, hc⟩ := List.mem_flatMap.mp hc
    exact escapeByte_nulFree d (b.nulFree d hd) c hc
  simp only [stringValue, Value.text, nulFree_cons, nulFree_append]
  exact ⟨by decide, h, by decide, nulFree_nil⟩

theorem boolValue_nulFree (b : Bool) : NulFree (boolValue b).text := by
  cases b <;> decide

theorem intValue_nulFree (z : ℤ) : NulFree (intValue z).text := formatInt_nulFree z

theorem fixedValue_nulFree (k : ℕ) (x : Double) : NulFree (fixedValue k x).text :=
  formatFixed_nulFree k x

theorem membersText_nulFree {ms : List Member} (h : ∀ m ∈ ms, NulFree m.text) :
    NulFree (membersText ms) := by
  induction ms with
  | nil => exact nulFree_nil
  | cons m ms ih =>
      have hms := ih fun k hk => h k (by simp [hk])
      cases ms with
      | nil => exact h m (by simp)
      | cons k ms =>
          simp only [membersText, nulFree_append, nulFree_cons]
          exact ⟨h m (by simp), by decide, hms⟩

theorem objectValue_nulFree {ms : List Member} (h : ∀ m ∈ ms, NulFree m.text) :
    NulFree (objectValue ms).text := by
  simp only [objectValue, Value.text, nulFree_cons, nulFree_append]
  exact ⟨by decide, membersText_nulFree h, by decide, nulFree_nil⟩

theorem newline_nulFree (n : ℕ) : NulFree (newline n) := by
  intro c hc
  rcases List.mem_cons.mp hc with rfl | hc
  · decide
  · rw [List.eq_of_mem_replicate hc]
    decide

theorem line_nulFree {key : String} (hk : PlainKey key) {v : Value} (hv : NulFree v.text)
    (indent : ℕ) : NulFree (line indent key v).text := by
  simp only [line, Member.text, nulFree_append, nulFree_cons]
  exact ⟨newline_nulFree _, by decide, hk.nulFree, by decide, nulFree_nil, by decide,
    ⟨by decide, nulFree_nil⟩, hv, nulFree_nil⟩

theorem lastLine_nulFree {key : String} (hk : PlainKey key) {v : Value} (hv : NulFree v.text)
    (indent : ℕ) : NulFree (lastLine indent key v).text := by
  simp only [lastLine, line, Member.text, nulFree_append, nulFree_cons]
  exact ⟨newline_nulFree _, by decide, hk.nulFree, by decide, nulFree_nil, by decide,
    ⟨by decide, nulFree_nil⟩, hv, newline_nulFree _⟩

/-- A value as the program prints it: well formed and free of zero bytes. -/
structure Written (n : ℕ) (v : Value) : Prop where
  valid : v.Valid n
  nulFree : NulFree v.text

structure WrittenMember (n : ℕ) (m : Member) : Prop where
  valid : m.Valid n
  nulFree : NulFree m.text

theorem stringValue_written {cap : ℕ} (b : CBuffer cap) (n : ℕ) :
    Written n (stringValue b.text) := ⟨stringValue_valid _ n, stringValue_nulFree b⟩

theorem boolValue_written (b : Bool) (n : ℕ) : Written n (boolValue b) :=
  ⟨boolValue_valid b n, boolValue_nulFree b⟩

theorem intValue_written (z : ℤ) (n : ℕ) : Written n (intValue z) :=
  ⟨intValue_valid z n, intValue_nulFree z⟩

theorem fixedValue_written (k : ℕ) (x : Double) (n : ℕ) : Written n (fixedValue k x) :=
  ⟨fixedValue_valid k x n, fixedValue_nulFree k x⟩

theorem objectValue_written {ms : List Member} {n : ℕ} (h : ∀ m ∈ ms, WrittenMember n m) :
    Written (n + 1) (objectValue ms) :=
  ⟨objectValue_valid fun m hm => (h m hm).valid, objectValue_nulFree fun m hm => (h m hm).nulFree⟩

theorem line_written {key : String} (hk : PlainKey key) {n : ℕ} {v : Value} (hv : Written n v)
    (indent : ℕ) : WrittenMember n (line indent key v) :=
  ⟨line_valid hk hv.valid indent, line_nulFree hk hv.nulFree indent⟩

theorem lastLine_written {key : String} (hk : PlainKey key) {n : ℕ} {v : Value}
    (hv : Written n v) (indent : ℕ) : WrittenMember n (lastLine indent key v) :=
  ⟨lastLine_valid hk hv.valid indent, lastLine_nulFree hk hv.nulFree indent⟩

theorem stringValue_length {cap : ℕ} (b : CBuffer cap) :
    (stringValue b.text).text.length ≤ 6 * cap := by
  have h₁ := escapeBytes_length b.text
  have h₂ := b.fits
  simp only [stringValue, Value.text, List.length_cons, List.length_append, List.length_nil]
  omega

theorem boolValue_length (b : Bool) : (boolValue b).text.length ≤ 5 := by
  cases b <;> decide

theorem intValue_length {z : ℤ} (h : longMin ≤ z ∧ z ≤ longMax) :
    (intValue z).text.length ≤ 20 := formatInt_length h

theorem fixedValue_length {k : ℕ} (hk : 0 < k) (x : Double) :
    (fixedValue k x).text.length ≤ 311 + k := formatFixed_length hk x

theorem line_length (indent : ℕ) (key : String) (v : Value) :
    (line indent key v).text.length = indent + (ascii key).length + v.text.length + 5 := by
  simp only [line, Member.text, newline, List.length_append, List.length_cons,
    List.length_replicate, List.length_nil]
  omega

theorem lastLine_length (indent : ℕ) (key : String) (v : Value) :
    (lastLine indent key v).text.length =
      indent + (ascii key).length + v.text.length + (indent - 2) + 6 := by
  simp only [lastLine, line, Member.text, newline, List.length_append, List.length_cons,
    List.length_replicate, List.length_nil]
  omega

end Bytes

end Muslimtify.JsonWriter
