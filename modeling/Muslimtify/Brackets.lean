import Muslimtify.JsonDocument

/-!
# Texts with matched brackets

A text is matched when its strings are closed and its brackets are matched by
kind, however deep. Such a text can be taken off the front of another: where
both are matched, what is left is matched too, and the block that a bracket
opens ends in one place only. The two depths that the scanners limit, that of
all brackets and that of one kind, decide whether a matched text is stepped
over or given up on.
-/
namespace Muslimtify.Brackets
open CText JsonReader JsonDocument

section Matched

def Matched (s : CString) : Prop := ∃ n, Nested n s

def isCloser (c : UInt8) : Bool := c = objectClose || c = arrayClose

theorem closer_of_pair {o c : UInt8} (h : IsPair o c) : isCloser c = true := by
  rcases h with ⟨rfl, rfl⟩ | ⟨rfl, rfl⟩ <;> decide

private theorem opener_not_plain {o c : UInt8} (h : IsPair o c) : isPlain o = false ∧ o ≠ quote := by
  rcases h with ⟨rfl, rfl⟩ | ⟨rfl, rfl⟩ <;> decide

theorem closer_not_plain : ∀ c : UInt8, isCloser c = true → isPlain c = false ∧ c ≠ quote :=
  forall_byte (by decide +kernel)

private theorem closer_not_opener {c c' : UInt8} (hc : isCloser c = true) : ¬IsPair c c' := by
  rintro (⟨rfl, -⟩ | ⟨rfl, -⟩) <;> exact absurd hc (by decide)

/-- How a nested text begins, and how deep its parts nest. -/
theorem nested_cases {n : ℕ} {c : UInt8} {s : CString} (h : Nested n (c :: s)) :
    (isPlain c = true ∧ Nested n s) ∨
    (c = quote ∧ ∃ raw t, s = raw ++ quote :: t ∧ Raw raw ∧ Nested n t) ∨
    (∃ m d v t, n = m + 1 ∧ IsPair c d ∧ s = v ++ d :: t ∧ Nested m v ∧ Nested n t) := by
  cases h with
  | plain hc hs => exact Or.inl ⟨hc, hs⟩
  | string hr hs => exact Or.inr (Or.inl ⟨rfl, _, _, rfl, hr, hs⟩)
  | object hv hs => exact Or.inr (Or.inr ⟨_, _, _, _, rfl, Or.inl ⟨rfl, rfl⟩, rfl, hv, hs⟩)
  | array hv hs => exact Or.inr (Or.inr ⟨_, _, _, _, rfl, Or.inr ⟨rfl, rfl⟩, rfl, hv, hs⟩)

theorem nested_block {n : ℕ} {o c : UInt8} {v s : CString} (hp : IsPair o c) (hv : Nested n v)
    (hs : Nested (n + 1) s) : Nested (n + 1) (o :: (v ++ c :: s)) := by
  rcases hp with ⟨rfl, rfl⟩ | ⟨rfl, rfl⟩
  · exact .object hv hs
  · exact .array hv hs

namespace Matched

theorem nil : Matched [] := ⟨0, .nil⟩

theorem plain {c : UInt8} {s : CString} (hc : isPlain c = true) (hs : Matched s) :
    Matched (c :: s) := hs.imp fun _ h => .plain hc h

theorem string {raw s : CString} (hr : Raw raw) (hs : Matched s) :
    Matched (quote :: (raw ++ quote :: s)) := hs.imp fun _ h => .string hr h

theorem block {o c : UInt8} {v s : CString} (hp : IsPair o c) (hv : Matched v) (hs : Matched s) :
    Matched (o :: (v ++ c :: s)) := by
  obtain ⟨n, hv⟩ := hv
  obtain ⟨m, hs⟩ := hs
  exact ⟨max n m + 1, nested_block hp (hv.mono (le_max_left n m))
    (hs.mono (le_trans (le_max_right n m) (Nat.le_succ _)))⟩

/-- The rules for matched texts, one for both kinds of block. -/
@[elab_as_elim]
theorem ind {motive : (s : CString) → Matched s → Prop} (nil : motive [] .nil)
    (plain : ∀ (c : UInt8) (s : CString) (hc : isPlain c = true) (hs : Matched s),
      motive s hs → motive (c :: s) (.plain hc hs))
    (string : ∀ (raw s : CString) (hr : Raw raw) (hs : Matched s),
      motive s hs → motive (quote :: (raw ++ quote :: s)) (.string hr hs))
    (block : ∀ (o c : UInt8) (v s : CString) (hp : IsPair o c) (hv : Matched v) (hs : Matched s),
      motive v hv → motive s hs → motive (o :: (v ++ c :: s)) (.block hp hv hs))
    {s : CString} (h : Matched s) : motive s h := by
  obtain ⟨n, hs⟩ := h
  induction hs with
  | nil => exact nil
  | plain hc hs ih => exact plain _ _ hc ⟨_, hs⟩ ih
  | string hr hs ih => exact string _ _ hr ⟨_, hs⟩ ih
  | object hv hs ihv ihs => exact block _ _ _ _ (Or.inl ⟨rfl, rfl⟩) ⟨_, hv⟩ ⟨_, hs⟩ ihv ihs
  | array hv hs ihv ihs => exact block _ _ _ _ (Or.inr ⟨rfl, rfl⟩) ⟨_, hv⟩ ⟨_, hs⟩ ihv ihs

theorem append {s t : CString} (hs : Matched s) (ht : Matched t) : Matched (s ++ t) := by
  induction hs using Matched.ind with
  | nil => exact ht
  | plain c s hc _ ih => exact .plain hc ih
  | string raw s hr _ ih => simpa using Matched.string hr ih
  | block o c v s hp hv _ _ ih => simpa using Matched.block hp hv ih

/-- How a matched text begins. -/
theorem cons_cases {c : UInt8} {s : CString} (h : Matched (c :: s)) :
    (isPlain c = true ∧ Matched s) ∨
    (c = quote ∧ ∃ raw t, s = raw ++ quote :: t ∧ Raw raw ∧ Matched t) ∨
    (∃ d v t, IsPair c d ∧ s = v ++ d :: t ∧ Matched v ∧ Matched t) := by
  obtain ⟨n, h⟩ := h
  rcases nested_cases h with ⟨hc, hs⟩ | ⟨hc, raw, t, he, hr, ht⟩ | ⟨m, d, v, t, -, hp, he, hv, ht⟩
  · exact Or.inl ⟨hc, n, hs⟩
  · exact Or.inr (Or.inl ⟨hc, raw, t, he, hr, n, ht⟩)
  · exact Or.inr (Or.inr ⟨d, v, t, hp, he, ⟨m, hv⟩, n, ht⟩)

theorem not_closer {c : UInt8} {s : CString} (hc : isCloser c = true) : ¬Matched (c :: s) := by
  intro h
  rcases h.cons_cases with ⟨hp, -⟩ | ⟨rfl, -⟩ | ⟨d, -, -, hp, -⟩
  · rw [(closer_not_plain c hc).1] at hp
    cases hp
  · exact absurd hc (by decide)
  · exact closer_not_opener hc hp

end Matched

/-- Nothing, or a text that begins with a closing bracket. -/
def Stops (t : CString) : Prop := ∀ c s, t = c :: s → isCloser c = true

theorem stops_nil : Stops [] := by
  intro c s h
  cases h

theorem stops_closer {c : UInt8} (hc : isCloser c = true) (s : CString) : Stops (c :: s) := by
  intro d t h
  cases h
  exact hc

/-- A matched text at the front of another does not reach past its end. -/
theorem Matched.front {s : CString} (hs : Matched s) : ∀ {n : ℕ} {body t u : CString},
    Nested n body → Stops t → s ++ u = body ++ t →
      ∃ rest, body = s ++ rest ∧ Nested n rest ∧ u = rest ++ t := by
  induction hs using Matched.ind with
  | nil =>
      intro n body t u hb _ he
      exact ⟨body, rfl, hb, he⟩
  | plain c s hc _ ih =>
      intro n body t u hb ht he
      cases body with
      | nil =>
          have := ht c (s ++ u) he.symm
          rw [(closer_not_plain c this).1] at hc
          cases hc
      | cons d body =>
          obtain ⟨rfl, htl⟩ := List.cons.inj he
          rcases nested_cases hb with ⟨-, hb'⟩ | ⟨rfl, -⟩ | ⟨_, _, _, _, -, hp, -⟩
          · obtain ⟨rest, rfl, hrest, rfl⟩ := ih hb' ht htl
            exact ⟨rest, rfl, hrest, rfl⟩
          · exact absurd hc (by decide)
          · rw [(opener_not_plain hp).1] at hc
            cases hc
  | string raw s hr _ ih =>
      intro n body t u hb ht he
      cases body with
      | nil =>
          exact absurd (ht quote _ he.symm) (by decide)
      | cons d body =>
          obtain ⟨rfl, htl⟩ := List.cons.inj he
          rcases nested_cases hb with ⟨hp, -⟩ | ⟨-, raw', b, rfl, hr', hb'⟩ | ⟨_, _, _, _, -, hp, -⟩
          · exact absurd hp (by decide)
          · have hscan := scanString_raw hr (s ++ u)
            rw [show raw ++ quote :: (s ++ u) = raw' ++ quote :: (b ++ t) by simpa using htl,
              scanString_raw hr'] at hscan
            obtain ⟨rfl, hsu⟩ := Prod.mk.inj (Option.some.inj hscan)
            obtain ⟨rest, rfl, hrest, rfl⟩ := ih hb' ht hsu.symm
            exact ⟨rest, by simp, hrest, rfl⟩
          · exact absurd rfl (opener_not_plain hp).2
  | block o c v s hp _ _ ihv ihs =>
      intro n body t u hb ht he
      cases body with
      | nil => exact absurd hp (closer_not_opener (ht o _ he.symm))
      | cons d body =>
          obtain ⟨rfl, htl⟩ := List.cons.inj he
          rcases nested_cases hb with ⟨hpl, -⟩ | ⟨rfl, -⟩ | ⟨m, c', v', b, -, hp', rfl, hv', hb'⟩
          · rw [(opener_not_plain hp).1] at hpl
            cases hpl
          · exact absurd rfl (opener_not_plain hp).2
          · obtain rfl := hp.unique hp'
            have hclose := closer_of_pair hp
            have hinside : v ++ c :: (s ++ u) = v' ++ c :: (b ++ t) := by simpa using htl
            obtain ⟨rest, rfl, hrest, hc⟩ := ihv hv' (stops_closer hclose _) hinside
            cases rest with
            | nil =>
                obtain ⟨-, hsu⟩ := List.cons.inj hc
                obtain ⟨rest, rfl, hrest, rfl⟩ := ihs hb' ht hsu
                exact ⟨rest, by simp, hrest, rfl⟩
            | cons e rest =>
                obtain ⟨rfl, -⟩ := List.cons.inj hc
                exact absurd ⟨m, hrest⟩ (Matched.not_closer hclose)

/-- What follows a matched text in a nested text is nested no deeper. -/
theorem Matched.behind {n : ℕ} {s u : CString} (hs : Matched s) (h : Nested n (s ++ u)) :
    Nested n u := by
  obtain ⟨rest, -, hrest, hu⟩ := hs.front h stops_nil (List.append_nil _).symm
  rw [hu, List.append_nil]
  exact hrest

end Matched

section Depth
variable {key : CString}

private theorem matchLoop_limit {op cl : UInt8} (hp : IsPair op cl) {s : CString} {d : ℤ}
    (hd : d = depthLimit) : matchLoop op cl (op :: s) d false false = none := by
  have hq : op ≠ quote := by rcases hp with ⟨rfl, rfl⟩ | ⟨rfl, rfl⟩ <;> decide
  simp [matchLoop, hq, show depthLimit < d + 1 by omega]

/-- The bracket scan gives up on a text in which its own kind is too deep. -/
theorem matchLoop_too_deep {op cl : UInt8} (hp : IsPair op cl) {s : CString} (hs : Matched s) :
    ∀ {m : ℕ} (t : CString) {d : ℤ}, 1 ≤ d → d + m = depthLimit → ¬Within op m s →
      matchLoop op cl (s ++ t) d false false = none := by
  induction hs using Matched.ind with
  | nil =>
      intro m t d _ _ h
      exact absurd .nil h
  | plain c s hc _ ih =>
      intro m t d h₁ hd h
      rw [List.cons_append, matchLoop_plain hp hc, ih t h₁ hd fun hs => h (.plain hc hs)]
      rfl
  | string raw s hr _ ih =>
      intro m t d h₁ hd h
      rw [List.cons_append, List.append_assoc, List.cons_append, matchLoop_quote hr,
        ih t h₁ hd fun hs => h (.string hr hs)]
      rfl
  | block o c v s ho _ _ ihv ihs =>
      intro m t d h₁ hd h
      rw [List.cons_append, List.append_assoc, List.cons_append]
      by_cases hsame : o = op
      · subst hsame
        obtain rfl := hp.unique ho
        cases m with
        | zero => exact matchLoop_limit hp (by simpa using hd)
        | succ m =>
            push_cast at hd
            rw [matchLoop_open hp (by omega)]
            by_cases hv : Within o m v
            · rw [matchLoop_within hp hv _ (by omega) (by omega), matchLoop_close hp (by omega),
                Int.add_sub_cancel,
                ihs t h₁ (by push_cast; omega) fun hs => h (.same hp hv hs)]
              rfl
            · rw [ihv _ (by omega) (by omega) hv]
              rfl
      · rw [matchLoop_other hp ho hsame (Or.inl rfl)]
        by_cases hv : Within op m v
        · rw [matchLoop_within hp hv _ h₁ (le_of_eq hd),
            matchLoop_other hp ho hsame (Or.inr rfl),
            ihs t h₁ hd fun hs => h (.other ho hsame hv hs)]
          rfl
        · rw [ihv _ h₁ hd hv]
          rfl

end Depth

end Muslimtify.Brackets
