import Mathlib.Algebra.Ring.Nat
import Mathlib.Data.List.DropRight
import Mathlib.Data.List.TakeDrop
import Muslimtify.LineStream

/-!
# Tables and pairs in lines of text

A text of whole lines, rows of cells between bars, and lines with a name and a
value. Each of them is read back: the lines of the text, the cells of a row by
the widths of its columns, and the pairs by the first separator of a line. A row
is as long as its columns ask for whenever its cells fit them.

Everything is over an arbitrary alphabet.
-/
namespace Muslimtify.TextTables
open LineStream
universe u
variable {α : Type u}

section Lines
variable {newline : α}

/-- A text of whole lines. -/
def unlines (newline : α) (lines : List (List α)) : List α :=
  lines.flatMap fun line => line ++ [newline]

theorem unlines_cons (line : List α) (lines : List (List α)) :
    unlines newline (line :: lines) = line ++ newline :: unlines newline lines := by
  rw [unlines, List.flatMap_cons, List.append_assoc, ← unlines]
  rfl

theorem unlines_append (lines more : List (List α)) :
    unlines newline (lines ++ more) = unlines newline lines ++ unlines newline more :=
  List.flatMap_append

theorem completeLines_unlines [BEq α] [LawfulBEq α] {lines : List (List α)}
    (h : ∀ line ∈ lines, newline ∉ line) :
    completeLines newline (unlines newline lines) = lines := by
  induction lines with
  | nil => exact completeLines_unfinished List.not_mem_nil
  | cons line lines ih =>
      rw [unlines_cons, completeLines_line (h line List.mem_cons_self),
        ih fun line hline => h line (List.mem_cons_of_mem _ hline)]

end Lines

section Cells
variable (blank : α)

/-- `%-*s` -/
def padRight (width : ℕ) (s : List α) : List α := s ++ List.replicate (width - s.length) blank

theorem padRight_length {width : ℕ} {s : List α} (h : s.length ≤ width) :
    (padRight blank width s).length = width := by
  rw [padRight, List.length_append, List.length_replicate, Nat.add_sub_cancel' h]

/-- A cell without the blanks behind it. -/
def trimRight [DecidableEq α] (s : List α) : List α := s.rdropWhile (· = blank)

theorem trimRight_padRight [DecidableEq α] (width : ℕ) (s : List α) :
    trimRight blank (padRight blank width s) = trimRight blank s := by
  rw [trimRight, padRight]
  generalize width - s.length = n
  induction n with
  | zero => rw [List.replicate_zero, List.append_nil, trimRight]
  | succ n ih =>
      rw [List.replicate_succ', ← List.append_assoc,
        List.rdropWhile_concat_pos (· = blank) _ _ (decide_eq_true rfl), ih]

theorem trimRight_self [DecidableEq α] {s : List α} (h : s.getLast? ≠ some blank) :
    trimRight blank s = s := by
  rw [trimRight, List.rdropWhile_eq_self_iff]
  intro hs hblank
  exact h (by rw [List.getLast?_eq_getLast_of_ne_nil hs, of_decide_eq_true hblank])

/-- A cell of a row: what stands before it, its width and its text. -/
structure Cell (α : Type u) where
  lead : α
  width : ℕ
  text : List α

/-- The text fits the width and can be told from the blanks behind it. -/
structure FitsIn (width : ℕ) (text : List α) : Prop where
  length : text.length ≤ width
  last : text.getLast? ≠ some blank

def Cell.Fits (c : Cell α) : Prop := FitsIn blank c.width c.text

variable (bar : α)

def Cell.printed (c : Cell α) : List α :=
  bar :: c.lead :: (padRight blank c.width c.text ++ [blank])

/-- `| cell | cell |` -/
def row (cells : List (Cell α)) : List α := cells.flatMap (Cell.printed blank bar) ++ [bar]

/-- `+------+------+` -/
def rule (corner dash : α) (widths : List ℕ) : List α :=
  (widths.flatMap fun width => corner :: List.replicate (width + 2) dash) ++ [corner]

def rowLength (widths : List ℕ) : ℕ := (widths.map (· + 3)).sum + 1

theorem rule_length (corner dash : α) (widths : List ℕ) :
    (rule corner dash widths).length = rowLength widths := by
  simp only [rule, rowLength, List.length_append, List.length_flatMap, List.length_cons,
    List.length_replicate, List.length_nil]

theorem mem_rule {corner dash a : α} {widths : List ℕ} (h : a ∈ rule corner dash widths) :
    a = corner ∨ a = dash := by
  rcases List.mem_append.mp h with h | h
  · obtain ⟨width, -, h⟩ := List.mem_flatMap.mp h
    exact (List.mem_cons.mp h).imp_right List.eq_of_mem_replicate
  · exact Or.inl (List.mem_singleton.mp h)

theorem Cell.printed_length {c : Cell α} (h : c.text.length ≤ c.width) :
    (c.printed blank bar).length = c.width + 3 := by
  rw [Cell.printed, List.length_cons, List.length_cons, List.length_append, padRight_length _ h]
  rfl

theorem row_length {cells : List (Cell α)} (h : ∀ c ∈ cells, c.text.length ≤ c.width) :
    (row blank bar cells).length = rowLength (cells.map Cell.width) := by
  have hcells : cells.map (fun c => (c.printed blank bar).length) =
      cells.map (fun c => c.width + 3) :=
    List.map_congr_left fun c hc => c.printed_length blank bar (h c hc)
  rw [row, List.length_append, List.length_flatMap, hcells, rowLength, List.map_map]
  rfl

/-- The cells of a row, by the widths of its columns. -/
def readRow [DecidableEq α] : List ℕ → List α → List (List α)
  | [], _ => []
  | width :: widths, line =>
      trimRight blank ((line.drop 2).take width) :: readRow widths (line.drop (width + 3))

/-- What stands before the cells of a row. -/
def readLeads : List ℕ → List α → List (Option α)
  | [], _ => []
  | width :: widths, line => (line.drop 1).head? :: readLeads widths (line.drop (width + 3))

theorem row_cons (c : Cell α) (cells : List (Cell α)) :
    row blank bar (c :: cells) = c.printed blank bar ++ row blank bar cells := by
  rw [row, row, List.flatMap_cons, List.append_assoc]

theorem row_drop {c : Cell α} (h : c.text.length ≤ c.width) (cells : List (Cell α)) :
    (row blank bar (c :: cells)).drop (c.width + 3) = row blank bar cells := by
  rw [row_cons]
  exact List.drop_left' (c.printed_length blank bar h)

theorem readRow_trimmed [DecidableEq α] {cells : List (Cell α)}
    (h : ∀ c ∈ cells, c.text.length ≤ c.width) :
    readRow blank (cells.map Cell.width) (row blank bar cells) =
      cells.map fun c => trimRight blank c.text := by
  induction cells with
  | nil => rfl
  | cons c cells ih =>
      have hwidth := h c List.mem_cons_self
      have hcell : ((row blank bar (c :: cells)).drop 2).take c.width =
          padRight blank c.width c.text := by
        rw [row_cons, Cell.printed, List.cons_append, List.cons_append, List.drop_succ_cons,
          List.drop_succ_cons, List.drop_zero, List.append_assoc]
        exact List.take_left' (padRight_length blank hwidth)
      rw [List.map_cons, readRow, hcell, row_drop blank bar hwidth, trimRight_padRight,
        ih fun c hc => h c (List.mem_cons_of_mem _ hc), List.map_cons]

theorem readRow_row [DecidableEq α] {cells : List (Cell α)} (h : ∀ c ∈ cells, c.Fits blank) :
    readRow blank (cells.map Cell.width) (row blank bar cells) = cells.map Cell.text := by
  rw [readRow_trimmed blank bar fun c hc => (h c hc).length]
  exact List.map_congr_left fun c hc => trimRight_self blank (h c hc).last

theorem readLeads_row {cells : List (Cell α)} (h : ∀ c ∈ cells, c.text.length ≤ c.width) :
    readLeads (cells.map Cell.width) (row blank bar cells) =
      cells.map fun c => some c.lead := by
  induction cells with
  | nil => rfl
  | cons c cells ih =>
      rw [List.map_cons, readLeads, row_drop blank bar (h c List.mem_cons_self),
        ih fun c hc => h c (List.mem_cons_of_mem _ hc), List.map_cons, row_cons]
      rfl

end Cells

section Pairs
variable [DecidableEq α] (separator : α)

/-- The name and the value of a line. -/
def readPair (line : List α) : List α × List α :=
  let (name, rest) := line.span (· ≠ separator)
  (name, rest.tail)

theorem readPair_line {name : List α} (h : separator ∉ name) (value : List α) :
    readPair separator (name ++ separator :: value) = (name, value) := by
  have hname : ∀ a ∈ name, decide (a ≠ separator) = true := by
    rintro a ha
    exact decide_eq_true (fun heq => h (heq ▸ ha))
  rw [readPair, List.span_eq_takeWhile_dropWhile]
  dsimp only
  rw [List.takeWhile_append_of_pos hname, List.dropWhile_append_of_pos hname]
  simp

/-- A text with a line for each pair. -/
def pairLines (newline : α) (pairs : List (List α × List α)) : List α :=
  unlines newline (pairs.map fun p => p.1 ++ separator :: p.2)

variable {separator} {newline : α}

theorem readPairs_pairLines {pairs : List (List α × List α)}
    (hname : ∀ p ∈ pairs, separator ∉ p.1) (hline : ∀ p ∈ pairs, newline ∉ p.1 ∧ newline ∉ p.2)
    (hne : newline ≠ separator) :
    (completeLines newline (pairLines separator newline pairs)).map (readPair separator) =
      pairs := by
  have hlines : ∀ line ∈ pairs.map (fun p => p.1 ++ separator :: p.2), newline ∉ line := by
    refine List.forall_mem_map.mpr fun p hp => ?_
    simp only [List.mem_append, List.mem_cons, not_or]
    exact ⟨(hline p hp).1, hne, (hline p hp).2⟩
  rw [pairLines, completeLines_unlines hlines, List.map_map]
  exact (List.map_congr_left fun p hp => readPair_line separator (hname p hp) p.2).trans
    (List.map_id pairs)

end Pairs

end Muslimtify.TextTables
