import Mathlib.Tactic.Common
import Mathlib.Tactic.Ring

/-!
# Handing out parts of rooms

An extent is a run of addresses. An arena keeps rooms, each with a capacity and an
amount that is used up from its front, and hands out an extent by moving that
amount past some padding and the extent itself. `Placed` says what this keeps:
the rooms lie apart, every extent lies in the used part of a room, and the
extents lie apart. Only the last room gives anything, and new rooms come behind.
-/
namespace Muslimtify.BumpArena

structure Extent where
  base : ℕ
  size : ℕ
  deriving DecidableEq, Repr

namespace Extent

/-- No address belongs to both. -/
def Apart (x y : Extent) : Prop := x.base + x.size ≤ y.base ∨ y.base + y.size ≤ x.base

def Within (x y : Extent) : Prop := y.base ≤ x.base ∧ x.base + x.size ≤ y.base + y.size

instance (x y : Extent) : Decidable (x.Apart y) := instDecidableOr

variable {x x' y y' z : Extent}

theorem Apart.symm (h : x.Apart y) : y.Apart x := Or.symm h

instance : Std.Symm Apart := ⟨fun _ _ => Apart.symm⟩

theorem Within.trans (h : x.Within y) (h' : y.Within z) : x.Within z :=
  ⟨h'.1.trans h.1, h.2.trans h'.2⟩

/-- Parts of what lies apart lie apart. -/
theorem Apart.within (h : x.Apart y) (hx : x'.Within x) (hy : y'.Within y) : x'.Apart y' := by
  obtain ⟨hx₁, hx₂⟩ := hx
  obtain ⟨hy₁, hy₂⟩ := hy
  unfold Apart at h ⊢
  omega

end Extent

section Alignment

/-- How far an address is from the next multiple of the alignment. -/
def padding (alignment address : ℕ) : ℕ := (alignment - address % alignment) % alignment

theorem padding_lt {alignment : ℕ} (h : 0 < alignment) (address : ℕ) :
    padding alignment address < alignment := Nat.mod_lt _ h

theorem add_padding_mod {alignment : ℕ} (h : 0 < alignment) (address : ℕ) :
    (address + padding alignment address) % alignment = 0 := by
  have hle : address % alignment ≤ alignment := (Nat.mod_lt _ h).le
  have hsum : address + (alignment - address % alignment) =
      alignment * (address / alignment + 1) := by
    have hdiv := Nat.div_add_mod address alignment
    rw [Nat.mul_add, Nat.mul_one]
    omega
  rw [padding, Nat.add_mod_mod, hsum, Nat.mul_mod_right]

end Alignment

/-- A room of an arena. -/
structure Room where
  base : ℕ
  cap : ℕ
  used : ℕ
  used_le : used ≤ cap
  deriving DecidableEq, Repr

namespace Room

def whole (r : Room) : Extent := ⟨r.base, r.cap⟩

/-- What has been handed out of it, with the padding. -/
def spent (r : Room) : Extent := ⟨r.base, r.used⟩

/-- Use up `pad` and then `size` more. -/
def take (r : Room) (pad size : ℕ) (h : r.used + pad + size ≤ r.cap) : Room :=
  ⟨r.base, r.cap, r.used + pad + size, h⟩

/-- The extent that this hands out. -/
def given (r : Room) (pad size : ℕ) : Extent := ⟨r.base + r.used + pad, size⟩

variable {r : Room} {pad size : ℕ}

theorem spent_within (r : Room) : r.spent.Within r.whole :=
  ⟨le_refl _, Nat.add_le_add_left r.used_le _⟩

theorem spent_take (h : r.used + pad + size ≤ r.cap) : r.spent.Within (r.take pad size h).spent :=
  ⟨le_refl _, by simp only [spent, take]; omega⟩

theorem given_within (h : r.used + pad + size ≤ r.cap) :
    (r.given pad size).Within (r.take pad size h).spent :=
  ⟨by simp only [spent, take, given]; omega, by simp only [spent, take, given]; omega⟩

theorem spent_apart_given (r : Room) (pad size : ℕ) : r.spent.Apart (r.given pad size) :=
  Or.inl (by simp only [spent, given]; omega)

end Room

/-- The rooms of an arena and what has been handed out of them. -/
structure Placed (rooms : List Room) (given : List Extent) : Prop where
  rooms_apart : rooms.Pairwise fun r s => r.whole.Apart s.whole
  inside : ∀ x ∈ given, ∃ r ∈ rooms, x.Within r.spent
  apart : given.Pairwise Extent.Apart

namespace Placed
variable {rooms : List Room} {given : List Extent} {r : Room}

theorem empty : Placed [] [] where
  rooms_apart := List.Pairwise.nil
  inside := List.forall_mem_nil _
  apart := List.Pairwise.nil

/-- A room apart from the others may be added. -/
theorem add (h : Placed rooms given) (hr : ∀ s ∈ rooms, s.whole.Apart r.whole) :
    Placed (rooms ++ [r]) given where
  rooms_apart := List.pairwise_append.mpr ⟨h.rooms_apart, List.pairwise_singleton _ _,
    fun s hs t ht => List.mem_singleton.mp ht ▸ hr s hs⟩
  inside x hx := by
    obtain ⟨s, hs, hin⟩ := h.inside x hx
    exact ⟨s, List.mem_append_left _ hs, hin⟩
  apart := h.apart

/-- The last room may hand out an extent that fits into it. -/
theorem take (h : Placed (rooms ++ [r]) given) {pad size : ℕ}
    (hfits : r.used + pad + size ≤ r.cap) :
    Placed (rooms ++ [r.take pad size hfits]) (given ++ [r.given pad size]) where
  rooms_apart := by
    obtain ⟨hrooms, -, hr⟩ := List.pairwise_append.mp h.rooms_apart
    refine List.pairwise_append.mpr ⟨hrooms, List.pairwise_singleton _ _, fun s hs t ht => ?_⟩
    rw [List.mem_singleton.mp ht]
    exact hr s hs r (List.mem_singleton_self r)
  inside x hx := by
    rcases List.mem_append.mp hx with hx | hx
    · obtain ⟨s, hs, hin⟩ := h.inside x hx
      rcases List.mem_append.mp hs with hs | hs
      · exact ⟨s, List.mem_append_left _ hs, hin⟩
      · rw [List.mem_singleton.mp hs] at hin
        exact ⟨_, List.mem_append_right _ (List.mem_singleton_self _),
          hin.trans (Room.spent_take hfits)⟩
    · rw [List.mem_singleton.mp hx]
      exact ⟨_, List.mem_append_right _ (List.mem_singleton_self _), Room.given_within hfits⟩
  apart := by
    obtain ⟨-, -, hr⟩ := List.pairwise_append.mp h.rooms_apart
    refine List.pairwise_append.mpr ⟨h.apart, List.pairwise_singleton _ _, fun x hx y hy => ?_⟩
    rw [List.mem_singleton.mp hy]
    obtain ⟨s, hs, hin⟩ := h.inside x hx
    rcases List.mem_append.mp hs with hs | hs
    · -- an extent of an older room: the rooms lie apart
      have hroom := hr s hs r (List.mem_singleton_self r)
      have hgiven := (Room.given_within hfits).trans (r.take pad size hfits).spent_within
      exact hroom.within (hin.trans s.spent_within) hgiven
    · -- one of this room: the new one lies behind what is used up
      rw [List.mem_singleton.mp hs] at hin
      exact (r.spent_apart_given pad size).within hin ⟨le_refl _, le_refl _⟩

end Placed

end Muslimtify.BumpArena
