import Mathlib.Data.List.InsertIdx

/-!
# Arrays with a fill count

An array of fixed capacity together with the number of its entries in use, as
the list of those entries. An entry that does not fit is dropped. Filling such
an array from a list keeps the longest prefix for which there is room, so what
is offered first is never lost to what is offered later.
-/
namespace Muslimtify

structure FixedArray (α : Type*) (cap : ℕ) where
  items : List α
  fits : items.length ≤ cap
  deriving DecidableEq, Repr

namespace FixedArray
variable {α : Type*} {cap : ℕ}

@[ext] theorem ext {a b : FixedArray α cap} (h : a.items = b.items) : a = b := by
  cases a
  cases b
  cases h
  rfl

def empty : FixedArray α cap := ⟨[], Nat.zero_le _⟩

theorem length_append_le {l : List α} (h : l.length < cap) (x : α) :
    (l ++ [x]).length ≤ cap := by
  rw [List.length_append, List.length_singleton]
  exact h

/-- Append an entry when there is room. -/
def push (b : FixedArray α cap) (x : α) : FixedArray α cap :=
  if h : b.items.length < cap then ⟨b.items ++ [x], length_append_le h x⟩ else b

def pushAll (b : FixedArray α cap) (xs : List α) : FixedArray α cap := xs.foldl push b

@[simp] theorem empty_items : (empty : FixedArray α cap).items = [] := rfl

theorem push_items (b : FixedArray α cap) (x : α) :
    (b.push x).items = b.items ++ [x].take (cap - b.items.length) := by
  unfold push
  split_ifs with h
  · rw [List.take_of_length_le (by simp; omega)]
  · rw [show cap - b.items.length = 0 by omega]
    simp

theorem pushAll_items (b : FixedArray α cap) (xs : List α) :
    (b.pushAll xs).items = b.items ++ xs.take (cap - b.items.length) := by
  induction xs generalizing b with
  | nil => simp [pushAll]
  | cons x xs ih =>
      have hstep : b.pushAll (x :: xs) = (b.push x).pushAll xs := rfl
      rw [hstep, ih, push_items]
      cases h : cap - b.items.length with
      | zero => simp [h]
      | succ n =>
          have : cap - (b.items.length + 1) = n := by omega
          simp [this]

/-- What an empty array keeps of the entries offered to it. -/
@[simp] theorem pushAll_empty (xs : List α) :
    ((empty : FixedArray α cap).pushAll xs).items = xs.take cap := by
  simp [pushAll_items]

/-- The entries rearranged. -/
def rearrange (b : FixedArray α cap) (l : List α) (h : l.Perm b.items) : FixedArray α cap :=
  ⟨l, h.length_eq ▸ b.fits⟩

/-- The entry at `i` removed and the later ones moved up. -/
def remove (b : FixedArray α cap) (i : ℕ) : FixedArray α cap :=
  ⟨b.items.eraseIdx i, Nat.le_trans (List.length_eraseIdx_le _ _) b.fits⟩

/-- Every entry changed in place. -/
def map {β : Type*} (f : α → β) (b : FixedArray α cap) : FixedArray β cap :=
  ⟨b.items.map f, by simpa using b.fits⟩

/-- The entries that satisfy `p`, in their order. -/
def keep (p : α → Bool) (b : FixedArray α cap) : FixedArray α cap :=
  ⟨b.items.filter p, Nat.le_trans (List.length_filter_le _ _) b.fits⟩

@[simp] theorem remove_items (b : FixedArray α cap) (i : ℕ) :
    (b.remove i).items = b.items.eraseIdx i := rfl

@[simp] theorem map_items {β : Type*} (f : α → β) (b : FixedArray α cap) :
    (b.map f).items = b.items.map f := rfl

@[simp] theorem keep_items (p : α → Bool) (b : FixedArray α cap) :
    (b.keep p).items = b.items.filter p := rfl

theorem keep_self {p : α → Bool} {b : FixedArray α cap} (h : ∀ x ∈ b.items, p x = true) :
    b.keep p = b := ext (List.filter_eq_self.mpr h)

theorem items_split {b : FixedArray α cap} {i : ℕ} {x : α} (h : b.items[i]? = some x) :
    b.items = b.items.take i ++ x :: b.items.drop (i + 1) := by
  obtain ⟨hi, rfl⟩ := List.getElem?_eq_some_iff.mp h
  rw [← List.drop_eq_getElem_cons hi, List.take_append_drop]

/-- Removing an entry that does not satisfy `p` keeps the same ones. -/
theorem keep_remove {p : α → Bool} {b : FixedArray α cap} {i : ℕ} {x : α}
    (h : b.items[i]? = some x) (hx : p x = false) : (b.remove i).keep p = b.keep p := by
  refine ext ?_
  rw [keep_items, keep_items, remove_items, List.eraseIdx_eq_take_drop_succ]
  conv_rhs => rw [items_split h]
  rw [List.filter_append, List.filter_append, List.filter_cons_of_neg (by simp [hx])]

theorem take_remove (b : FixedArray α cap) (i : ℕ) :
    (b.remove i).items.take i = b.items.take i :=
  List.take_eraseIdx_eq_take_of_le _ _ _ (Nat.le_refl _)

/-- An entry that is there is one less afterwards. -/
theorem length_remove {b : FixedArray α cap} {i : ℕ} {x : α} (h : b.items[i]? = some x) :
    (b.remove i).items.length + 1 = b.items.length := by
  have hlt := (List.getElem?_eq_some_iff.mp h).1
  simp only [remove_items, List.length_eraseIdx, hlt, if_true]
  omega

/-- The entries before the next index, that of `x` included. -/
theorem forall_take_succ {P : α → Prop} {b : FixedArray α cap} {i : ℕ} {x : α}
    (h : b.items[i]? = some x) (hi : ∀ y ∈ b.items.take i, P y) (hx : P x) :
    ∀ y ∈ b.items.take (i + 1), P y := by
  intro y hy
  rw [List.take_add_one, h] at hy
  rcases List.mem_append.mp hy with hy | hy
  · exact hi y hy
  · obtain rfl : y = x := by simpa using hy
    exact hx

end FixedArray

end Muslimtify
