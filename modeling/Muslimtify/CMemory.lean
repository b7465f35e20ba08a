import Muslimtify.CText

/-!
# Reads, writes and counters that can go wrong

Code over indices into a terminated string, where a load outside the array, a
store past the end of a buffer and an `int` that leaves its range are faults,
and so is a loop that runs out of the steps it was given. A run that ends
without a fault has none of these.

A pointer is followed by what it points at: the bytes of the string from its
index on. Loading there gives the first of them, or the terminating zero when
none is left.
-/
namespace Muslimtify.CMemory
open CText

inductive Fault where
  | outOfBounds | bufferOverflow | signedOverflow | outOfSteps
  deriving DecidableEq, Repr

abbrev Checked (α : Type) := Except Fault α

@[simp] theorem ok_bind {α β : Type} (a : α) (f : α → Checked β) :
    (Except.ok a >>= f) = f a := rfl

@[simp] theorem pure_ok {α : Type} (a : α) : (pure a : Checked α) = .ok a := rfl

/-- What comes to its end has come to the end of its first part. -/
theorem ok_of_bind {α β : Type} {x : Checked α} {f : α → Checked β} {b : β}
    (h : (x >>= f) = .ok b) : ∃ a, x = .ok a ∧ f a = .ok b := by
  cases x with
  | error fault => cases h
  | ok a => exact ⟨a, rfl, h⟩

/-- The array of a string with its terminating zero. -/
def array (s : CString) : CString := s ++ [0]

def load (mem : CString) (i : ℕ) : Checked UInt8 :=
  match mem[i]? with
  | some c => .ok c
  | none => .error .outOfBounds

/-- Append a byte to a buffer of `cap` bytes. -/
def store (cap : ℕ) (dst : CString) (b : UInt8) : Checked CString :=
  if dst.length < cap then .ok (dst ++ [b]) else .error .bufferOverflow

def storeAll (cap : ℕ) : CString → CString → Checked CString
  | dst, [] => .ok dst
  | dst, b :: bs => do
      let dst ← store cap dst b
      storeAll cap dst bs

/-- Copy `n` bytes from index `i` on, `memcpy`. -/
def copyBytes (mem : CString) (cap : ℕ) : ℕ → ℕ → CString → Checked CString
  | 0, _, dst => .ok dst
  | n + 1, i, dst => do
      let c ← load mem i
      let dst ← store cap dst c
      copyBytes mem cap n (i + 1) dst

def intMin : ℤ := -2 ^ 31

def intMax : ℤ := 2 ^ 31 - 1

/-- An addition of `int`s. -/
def addInt (a b : ℤ) : Checked ℤ :=
  if intMin ≤ a + b ∧ a + b ≤ intMax then .ok (a + b) else .error .signedOverflow

theorem addInt_ok {a b : ℤ} (h : intMin ≤ a + b ∧ a + b ≤ intMax) : addInt a b = .ok (a + b) :=
  if_pos h

theorem store_ok {cap : ℕ} {dst : CString} (h : dst.length < cap) (b : UInt8) :
    store cap dst b = .ok (dst ++ [b]) := if_pos h

theorem storeAll_ok {cap : ℕ} {dst bs : CString} (h : dst.length + bs.length ≤ cap) :
    storeAll cap dst bs = .ok (dst ++ bs) := by
  induction bs generalizing dst with
  | nil => simp [storeAll]
  | cons b bs ih =>
      rw [List.length_cons] at h
      rw [storeAll, store_ok (by omega), ok_bind, ih (by simp; omega)]
      simp

/-- Index `i` of `s` is where the bytes `t` begin, up to the end of `s`. -/
structure Points (s : CString) (i : ℕ) (t : CString) : Prop where
  le : i ≤ s.length
  drop : s.drop i = t

namespace Points
variable {s t : CString} {i : ℕ} {c : UInt8}

theorem start (s : CString) : Points s 0 s := ⟨Nat.zero_le _, rfl⟩

theorem length (h : Points s i t) : i + t.length = s.length := by
  have hle := h.le
  rw [← h.drop, List.length_drop]
  omega

theorem nulFree (h : Points s i t) (hs : NulFree s) : NulFree t := fun c hc =>
  hs c (List.mem_of_mem_drop (h.drop ▸ hc))

theorem load_zero (h : Points s i []) : load (array s) i = .ok 0 := by
  have hi : i = s.length := h.length
  simp [load, array, hi]

theorem load_head (h : Points s i (c :: t)) : load (array s) i = .ok c := by
  have hget : s[i]? = some c := by
    rw [← List.head?_drop, h.drop]
    rfl
  have hlt : i < s.length := (List.getElem?_eq_some_iff.mp hget).1
  simp [load, array, List.getElem?_append_left hlt, hget]

theorem load_first (h : Points s i t) : load (array s) i = .ok (t.head?.getD 0) := by
  cases t with
  | nil => exact h.load_zero
  | cons c t => exact h.load_head

theorem next (h : Points s i (c :: t)) : Points s (i + 1) t := by
  have hlen := h.length
  rw [List.length_cons] at hlen
  refine ⟨by omega, ?_⟩
  rw [← List.drop_drop, h.drop]
  rfl

theorem skip {a : CString} (h : Points s i (a ++ t)) : Points s (i + a.length) t := by
  have hlen := h.length
  rw [List.length_append] at hlen
  refine ⟨by omega, ?_⟩
  rw [← List.drop_drop, h.drop, List.drop_left]

theorem advance {a : CString} {m : ℕ} (h : Points s i (a ++ t)) (hm : m ≤ a.length) :
    Points s (i + m) (a.drop m ++ t) := by
  have hsplit : Points s i (a.take m ++ (a.drop m ++ t)) := by
    rwa [← List.append_assoc, List.take_append_drop]
  have hskip := hsplit.skip
  rwa [List.length_take, Nat.min_eq_left hm] at hskip

/-- A run of the bytes that are pointed at is copied as it stands. -/
theorem copyBytes_ok {cap : ℕ} {a : CString} : ∀ {i : ℕ} {dst : CString}, Points s i (a ++ t) →
    dst.length + a.length ≤ cap → copyBytes (array s) cap a.length i dst = .ok (dst ++ a) := by
  induction a with
  | nil =>
      intro i dst _ _
      simp [copyBytes]
  | cons c a ih =>
      intro i dst h hcap
      rw [List.length_cons] at hcap
      have hnext : Points s (i + 1) (a ++ t) := h.next
      have hhead : load (array s) i = .ok c := h.load_head
      rw [List.length_cons, copyBytes, hhead, ok_bind, store_ok (by omega), ok_bind,
        ih hnext (by simp; omega)]
      simp

end Points

end Muslimtify.CMemory
