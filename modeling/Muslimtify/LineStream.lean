import Mathlib.Tactic.Common

/-!
# Streams read in pieces and used in lines

A loop over a list that stops when its state says so, and what such a loop makes
of a stream of which each piece is read by a loop of its own. The lines of a
stream are those that a separator ends; what stands after the last separator is
not one.

A machine that is given the stream symbol by symbol stands for one that is given
its lines: the symbols of a line that has not ended only lengthen it, and a
separator hands it over. `runUntil_lines` is the rule for this.
-/
namespace Muslimtify.LineStream
universe u
variable {α σ ε : Type u}

section Loops
variable (done : σ → Bool) (step : σ → α → Except ε σ)

/-- Take one step for each element until the state is done. -/
def runUntil : List α → σ → Except ε σ
  | [], s => .ok s
  | a :: as, s => if done s then .ok s else step s a >>= runUntil as

/-- The same without faults. -/
def feedUntil (absorb : σ → α → σ) : List α → σ → σ
  | [], s => s
  | a :: as, s => if done s then s else feedUntil absorb as (absorb s a)

variable {done step} {s : σ}

theorem runUntil_done (h : done s = true) (as : List α) : runUntil done step as s = .ok s := by
  cases as with
  | nil => rfl
  | cons a as => rw [runUntil, if_pos h]

theorem runUntil_live (h : done s = false) (a : α) (as : List α) :
    runUntil done step (a :: as) s = step s a >>= runUntil done step as := by
  rw [runUntil, if_neg (by simp [h])]

theorem feedUntil_done {absorb : σ → α → σ} (h : done s = true) (as : List α) :
    feedUntil done absorb as s = s := by
  cases as with
  | nil => rfl
  | cons a as => rw [feedUntil, if_pos h]

theorem feedUntil_live {absorb : σ → α → σ} (h : done s = false) (a : α) (as : List α) :
    feedUntil done absorb (a :: as) s = feedUntil done absorb as (absorb s a) := by
  rw [feedUntil, if_neg (by simp [h])]

theorem runUntil_append (as bs : List α) (s : σ) :
    runUntil done step (as ++ bs) s = runUntil done step as s >>= runUntil done step bs := by
  induction as generalizing s with
  | nil => rfl
  | cons a as ih =>
      cases h : done s with
      | true =>
          rw [List.cons_append, runUntil_done h, runUntil_done h]
          exact (runUntil_done h bs).symm
      | false =>
          rw [List.cons_append, runUntil_live h, runUntil_live h]
          cases step s a with
          | error e => rfl
          | ok s' => exact ih s'

/-- A loop over pieces whose body is the loop over one piece is the loop over the stream. -/
theorem runUntil_pieces (pieces : List (List α)) (s : σ) :
    runUntil done (fun s piece => runUntil done step piece s) pieces s =
      runUntil done step pieces.flatten s := by
  induction pieces generalizing s with
  | nil => rfl
  | cons piece pieces ih =>
      cases h : done s with
      | true => rw [runUntil_done h, runUntil_done h]
      | false =>
          rw [runUntil_live h, List.flatten_cons, runUntil_append]
          cases runUntil done step piece s with
          | error e => rfl
          | ok s' => exact ih s'

end Loops

section Lines
variable [BEq α] [LawfulBEq α] {sep : α}

/-- What the separators of a stream end, without them. -/
def completeLines (sep : α) (stream : List α) : List (List α) := (stream.splitOn sep).dropLast

theorem completeLines_unfinished {rest : List α} (h : sep ∉ rest) :
    completeLines sep rest = [] := by
  rw [completeLines, List.splitOn_eq_singleton h]
  rfl

theorem completeLines_line {line : List α} (h : sep ∉ line) (rest : List α) :
    completeLines sep (line ++ sep :: rest) = line :: completeLines sep rest := by
  rw [completeLines, List.splitOn_append_cons_self_of_not_mem h,
    List.dropLast_cons_of_ne_nil (List.splitOn_ne_nil sep rest)]
  rfl

/-- A state between two symbols of a line stands for the line so far and for what the lines
before it came to. -/
structure Assembles {τ : Type u} (sep : α) (done : σ → Bool) (step : σ → α → Except ε σ)
    (stop : τ → Bool) (absorb : τ → List α → τ) (Live : List α → σ → τ → Prop) : Prop where
  done_iff : ∀ {line s t}, Live line s t → done s = stop t
  symbol : ∀ {line s t a}, Live line s t → stop t = false → a ≠ sep →
    ∃ s', step s a = .ok s' ∧ Live (line ++ [a]) s' t
  separator : ∀ {line s t}, Live line s t → stop t = false →
    ∃ s', step s sep = .ok s' ∧ Live [] s' (absorb t line)

theorem runUntil_lines {τ : Type u} {done : σ → Bool} {step : σ → α → Except ε σ} {stop : τ → Bool}
    {absorb : τ → List α → τ} {Live : List α → σ → τ → Prop}
    (h : Assembles sep done step stop absorb Live) {line : List α} {s : σ} {t : τ}
    (hlive : Live line s t) (hline : sep ∉ line) (stream : List α) :
    ∃ s' line', runUntil done step stream s = .ok s' ∧
      Live line' s' (feedUntil stop absorb (completeLines sep (line ++ stream)) t) := by
  induction stream generalizing line s t with
  | nil =>
      refine ⟨s, line, rfl, ?_⟩
      rw [List.append_nil, completeLines_unfinished hline]
      exact hlive
  | cons a stream ih =>
      cases hstop : stop t with
      | true =>
          refine ⟨s, line, runUntil_done ((h.done_iff hlive).trans hstop) _, ?_⟩
          rw [feedUntil_done hstop]
          exact hlive
      | false =>
          rw [runUntil_live ((h.done_iff hlive).trans hstop)]
          by_cases ha : a = sep
          · subst ha
            obtain ⟨s', hstep, hlive'⟩ := h.separator hlive hstop
            obtain ⟨s'', line', hrun, hlast⟩ := ih hlive' List.not_mem_nil
            refine ⟨s'', line', ?_, ?_⟩
            · rw [hstep]
              exact hrun
            · rw [completeLines_line hline, feedUntil_live hstop]
              exact hlast
          · obtain ⟨s', hstep, hlive'⟩ := h.symbol hlive hstop ha
            obtain ⟨s'', line', hrun, hlast⟩ := ih hlive' (by simp [hline, Ne.symm ha])
            refine ⟨s'', line', ?_, ?_⟩
            · rw [hstep]
              exact hrun
            · rw [← List.append_cons] at hlast
              exact hlast

end Lines

end Muslimtify.LineStream
