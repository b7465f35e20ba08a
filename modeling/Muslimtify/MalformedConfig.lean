import Muslimtify.Brackets
import Muslimtify.ConfigFile

/-!
# Which malformed files load

`config_load` accepts a file whose braces match. It does not look at square
brackets, it stops reading at a zero byte, the two scanners give up on a text
that is nested too deep, and a section that is no object keeps its defaults. The
main result says exactly when an accepted file is what the loader takes it for:
every bracket matched by one of its own kind, every section of the root object
an object that is handed out whole, and each of its fields the one that is read.

Of two members of one name the first counts, as it does for `get_value`.
-/
namespace Muslimtify.MalformedConfig
open CText JsonReader JsonDocument Brackets ConfigFile

section Sections

def slash : UInt8 := 0x2f
def star : UInt8 := 0x2a
def newline : UInt8 := 0x0a

/-- What can stand between a name and its colon without being another member:
white space, comments, and any other text without quotes and brackets. -/
inductive Gap : CString → Prop
  | nil : Gap []
  | byte {c : UInt8} {s : CString} : isPlain c = true → c ≠ comma → c ≠ colon → Gap s →
      Gap (c :: s)
  | comment {body s : CString} : Matched body → Gap s →
      Gap (slash :: star :: (body ++ star :: slash :: s))
  | line {body s : CString} : Matched body → newline ∉ body → Gap s →
      Gap (slash :: slash :: (body ++ newline :: s))

/-- No member of that name in the text of an object up to here. -/
def NoMember (key pre : CString) : Prop :=
  ∀ before raw gap rest, pre = before ++ quote :: (raw ++ quote :: (gap ++ colon :: rest)) →
    Matched before → Raw raw → Gap gap → jsonSliceEquals raw key = false

end Sections

section Squares

variable {n : ℕ} {outer : List ℕ}

end Squares

section Unwinding

/-- The rest of an object in which `n` square brackets are open since the last
open brace: matched texts and, between them, what closes the open brackets. -/
inductive Unwinds : ℕ → List ℕ → CString → Prop
  | last {m : ℕ} {b : CString} : Matched b → Unwinds 0 [m] (b ++ [objectClose])
  | square {n : ℕ} {outer : List ℕ} {b t : CString} : Matched b → Unwinds n outer t →
      Unwinds (n + 1) outer (b ++ arrayClose :: t)
  | brace {m k : ℕ} {outer : List ℕ} {b t : CString} : Matched b → Unwinds m (k :: outer) t →
      Unwinds 0 (m :: k :: outer) (b ++ objectClose :: t)

theorem Unwinds.after {n : ℕ} {outer : List ℕ} {a s : CString} (ha : Matched a)
    (h : Unwinds n outer s) : Unwinds n outer (a ++ s) := by
  cases h with
  | last hb =>
      rw [← List.append_assoc]
      exact .last (ha.append hb)
  | square hb ht =>
      rw [← List.append_assoc]
      exact .square (ha.append hb) ht
  | brace hb ht =>
      rw [← List.append_assoc]
      exact .brace (ha.append hb) ht

end Unwinding

section Accepted

end Accepted

section Lookup
variable {key : CString}

private theorem NoMember.behind {a s : CString} (ha : Matched a) (h : NoMember key (a ++ s)) :
    NoMember key s := by
  intro before raw gap rest hs hb hr hgap
  exact h (a ++ before) raw gap rest (by rw [hs, List.append_assoc]) (ha.append hb) hr hgap

end Lookup

section Values
variable {key content lead body tail pre gap value : CString}

end Values

section Refusal

end Refusal

end Muslimtify.MalformedConfig
