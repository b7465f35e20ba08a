import Mathlib.Data.List.Basic
import Muslimtify.BumpArena
import Muslimtify.LinkedList

/-!
# The arena of the JSON reader

`json_alloc` hands out bytes from the current region of an arena and opens a new
region when they do not fit. A region is a block of the heap that begins with its
record; the records are linked in the order they were opened, and the arena points
at the first and at the last of them.

The heap knows the blocks that are live, the records that have been stored in
them and the addresses that have been freed. An access to a record that is not
there and a release of what is not live are faults. Of `malloc` it is only known
that a block lies in the address space and apart from all that are live.
Addresses and sizes are numbers that wrap around at 2^64.
-/
namespace Muslimtify.Arena
open BumpArena LinkedList

section Heaps

structure Region where
  next : ℕ
  cap : ℕ
  index : ℕ
  data : ℕ
  deriving DecidableEq, Repr

structure JsonArena where
  head : ℕ
  current : ℕ
  blockSize : ℕ
  deriving DecidableEq, Repr

def sizeofRegion : ℕ := 32
def sizeofJsonArena : ℕ := 24
def arenaBlockSize : ℕ := 4096

/-- `SIZE_MAX`. -/
def sizeMax : ℕ := 2 ^ 64 - 1

/-- A result of type `size_t`, or an address. -/
def wrap (n : ℕ) : ℕ := n % 2 ^ 64

inductive HeapFault where
  | dangling | notLive | outOfSteps
  deriving DecidableEq, Repr

structure Heap where
  live : List Extent
  regions : ℕ → Option Region
  arenas : ℕ → Option JsonArena
  asked : ℕ
  freed : List ℕ

/-- An allocator, which may answer every call in its own way. -/
structure Malloc where
  answer : ℕ → List Extent → ℕ → Option ℕ
  fresh : ∀ {k : ℕ} {live : List Extent} {n p : ℕ}, answer k live n = some p →
    0 < p ∧ p + n ≤ 2 ^ 64 ∧ ∀ b ∈ live, b.Apart ⟨p, n⟩

abbrev Mem := StateT Heap (Except HeapFault)

namespace Heap

def refuse (h : Heap) : Heap := { h with asked := h.asked + 1 }

def grant (h : Heap) (p n : ℕ) : Heap :=
  { h with asked := h.asked + 1, live := ⟨p, n⟩ :: h.live }

def setRegion (h : Heap) (p : ℕ) (r : Region) : Heap :=
  { h with regions := Function.update h.regions p (some r) }

def setArena (h : Heap) (p : ℕ) (a : JsonArena) : Heap :=
  { h with arenas := Function.update h.arenas p (some a) }

theorem setRegion_self (h : Heap) (p : ℕ) (r : Region) :
    (h.setRegion p r).regions p = some r := Function.update_self ..

/-- Of two records stored at one address the second stays. -/
theorem setRegion_setRegion (h : Heap) (p : ℕ) (r r' : Region) :
    (h.setRegion p r).setRegion p r' = h.setRegion p r' := by
  simp [setRegion]

/-- The block at `p` goes, with whatever was stored in it. -/
def release (h : Heap) (p : ℕ) : Heap :=
  { h with
    live := h.live.eraseP fun b => b.base = p
    regions := Function.update h.regions p none
    arenas := Function.update h.arenas p none
    freed := h.freed ++ [p] }

end Heap

def malloc (M : Malloc) (n : ℕ) : Mem ℕ := fun h =>
  match M.answer h.asked h.live n with
  | none => .ok (0, h.refuse)
  | some p => .ok (p, h.grant p n)

def free (p : ℕ) : Mem Unit := fun h =>
  if h.live.any fun b => b.base = p then .ok ((), h.release p) else .error .notLive

def loadRegion (p : ℕ) : Mem Region := fun h =>
  match h.regions p with
  | some r => .ok (r, h)
  | none => .error .dangling

def loadArena (p : ℕ) : Mem JsonArena := fun h =>
  match h.arenas p with
  | some a => .ok (a, h)
  | none => .error .dangling

/-- A record is stored at the beginning of a block that has room for it. -/
def storeRegion (p : ℕ) (r : Region) : Mem Unit := fun h =>
  if h.live.any fun b => b.base = p && sizeofRegion ≤ b.size then .ok ((), h.setRegion p r)
  else .error .dangling

def storeArena (p : ℕ) (a : JsonArena) : Mem Unit := fun h =>
  if h.live.any fun b => b.base = p && sizeofJsonArena ≤ b.size then .ok ((), h.setArena p a)
  else .error .dangling

def liveBlocks : Mem ℕ := fun h => .ok (h.live.length, h)

end Heaps

section Source
variable (M : Malloc)

def jsonRegionCreate (blockSize : ℕ) : Mem ℕ := do
  let region ← malloc M (wrap (sizeofRegion + blockSize))
  if region = 0 then return 0
  else
    storeRegion region ⟨0, blockSize, 0, region + sizeofRegion⟩
    return region

def jsonAllocAlign (address alignment : ℕ) : ℕ := (alignment - address % alignment) % alignment

def jsonSafeAdd (a b : ℕ) : Option ℕ := if sizeMax - a < b then none else some (a + b)

/-- The size with the most padding it may need. -/
def withSlack (size alignment : ℕ) : Option ℕ :=
  let slack := if 1 < alignment then alignment - 1 else 0
  if 0 < slack then jsonSafeAdd size slack else some size

def jsonAllocInit : Mem ℕ := do
  let arena ← malloc M sizeofJsonArena
  if arena = 0 then return 0
  else
    storeArena arena ⟨0, 0, arenaBlockSize⟩
    return arena

/-- The capacity of a new region. -/
def regionCap (blockSize sizeWithSlack : ℕ) : ℕ :=
  if blockSize < sizeWithSlack then sizeWithSlack else blockSize

/-- The first call opens the first region. Whether there is a current region then. -/
def ensureRegion (arena sizeWithSlack : ℕ) : Mem Bool := do
  let a ← loadArena arena
  if a.current = 0 then
    let region ← jsonRegionCreate M (regionCap a.blockSize sizeWithSlack)
    if region = 0 then return false
    else
      storeArena arena { a with head := region, current := region }
      return true
  else return true

/-- Hang a new region behind the current one, and make it the current one. -/
def openNext (arena sizeWithSlack : ℕ) : Mem ℕ := do
  let a ← loadArena arena
  let next ← jsonRegionCreate M (regionCap a.blockSize sizeWithSlack)
  if next = 0 then return 0
  else
    let r ← loadRegion a.current
    storeRegion a.current { r with next := next }
    storeArena arena { a with current := next }
    return next

/-- Move the index of the current region past the padding, and past the bytes. -/
def bump (arena padding size : ℕ) : Mem ℕ := do
  let a ← loadArena arena
  let r ← loadRegion a.current
  storeRegion a.current { r with index := wrap (r.index + padding) }
  let r ← loadRegion a.current
  storeRegion a.current { r with index := wrap (r.index + size) }
  return wrap (r.data + r.index)

/-- What does not fit into the current region goes to the front of the next. -/
def placeNext (arena size alignment sizeWithSlack : ℕ) : Mem ℕ := do
  let next ← openNext M arena sizeWithSlack
  if next = 0 then return 0
  else
    let n ← loadRegion next
    bump arena (jsonAllocAlign n.data alignment) size

/-- From the first padding on. -/
def place (arena size alignment sizeWithSlack : ℕ) : Mem ℕ := do
  let a ← loadArena arena
  let r ← loadRegion a.current
  let padding := jsonAllocAlign (wrap (r.data + r.index)) alignment
  if r.cap < wrap (r.index + padding + size) then placeNext M arena size alignment sizeWithSlack
  else bump arena padding size

def jsonAlloc (arena size alignment : ℕ) : Mem ℕ :=
  if arena = 0 ∨ size = 0 ∨ alignment = 0 then return 0
  else if alignment &&& (alignment - 1) ≠ 0 then return 0
  else
    match withSlack size alignment with
    | none => return 0
    | some sizeWithSlack => do
        if ← ensureRegion M arena sizeWithSlack then place M arena size alignment sizeWithSlack
        else return 0

/-- The loop of `json_alloc_free`. -/
def freeRegions : ℕ → ℕ → Mem Unit
  | 0, _ => throw .outOfSteps
  | n + 1, region =>
      if region = 0 then return ()
      else do
        let r ← loadRegion region
        free region
        freeRegions n r.next

/-- Every turn of the loop frees a block, so their number bounds the turns. -/
def jsonAllocFree (arena : ℕ) : Mem Unit := do
  if arena = 0 then return ()
  else
    let a ← loadArena arena
    let blocks ← liveBlocks
    freeRegions (blocks + 1) a.head
    free arena

/-- A call of `json_alloc`. -/
structure Request where
  size : ℕ
  alignment : ℕ
  deriving DecidableEq, Repr

/-- A call with the address it returned. -/
structure Result where
  request : Request
  ptr : ℕ
  deriving DecidableEq, Repr

/-- The bytes that were handed out, unless the address is null. -/
def Result.extent (x : Result) : Extent := ⟨x.ptr, x.request.size⟩

/-- A sequence of calls on one arena. -/
def allocAll (arena : ℕ) : List Request → Mem (List Result)
  | [] => return []
  | r :: rs => do
      let ptr ← jsonAlloc M arena r.size r.alignment
      let results ← allocAll arena rs
      return ⟨r, ptr⟩ :: results

end Source

section Operations
variable {M : Malloc} {h : Heap} {p n : ℕ}

theorem run_bind {α β : Type} {m : Mem α} {f : α → Mem β} {h h' : Heap} {a : α}
    (hm : m h = .ok (a, h')) : (m >>= f) h = f a h' := by
  show (m h >>= fun x => f x.1 x.2) = f a h'
  rw [hm]
  rfl

theorem run_pure {α : Type} (a : α) (h : Heap) : (pure a : Mem α) h = .ok (a, h) := rfl

theorem loadRegion_run {r : Region} (hr : h.regions p = some r) : loadRegion p h = .ok (r, h) := by
  rw [loadRegion, hr]

theorem loadArena_run {a : JsonArena} (ha : h.arenas p = some a) : loadArena p h = .ok (a, h) := by
  rw [loadArena, ha]

theorem storeRegion_run (hp : ⟨p, n⟩ ∈ h.live) (hn : sizeofRegion ≤ n) (r : Region) :
    storeRegion p r h = .ok ((), h.setRegion p r) := by
  rw [storeRegion, if_pos]
  exact List.any_eq_true.mpr ⟨_, hp, by simpa using hn⟩

theorem storeArena_run (hp : ⟨p, n⟩ ∈ h.live) (hn : sizeofJsonArena ≤ n) (a : JsonArena) :
    storeArena p a h = .ok ((), h.setArena p a) := by
  rw [storeArena, if_pos]
  exact List.any_eq_true.mpr ⟨_, hp, by simpa using hn⟩

theorem free_run (hp : ⟨p, n⟩ ∈ h.live) : free p h = .ok ((), h.release p) := by
  rw [free, if_pos]
  exact List.any_eq_true.mpr ⟨_, hp, by simp⟩

/-- The blocks in front of the one that goes stay, and so do those behind it. -/
theorem release_live {front others : List Extent} (hlive : h.live = front ++ ⟨p, n⟩ :: others)
    (hfront : ∀ b ∈ front, b.base ≠ p) : (h.release p).live = front ++ others := by
  show h.live.eraseP _ = _
  rw [hlive, List.eraseP_append_right, List.eraseP_cons_of_pos (by simp)]
  intro b hb
  simpa using hfront b hb

/-- A block that `malloc` can hand out now. -/
structure Fresh (h : Heap) (p n : ℕ) : Prop where
  pos : 0 < p
  fits : p + n ≤ 2 ^ 64
  apart : ∀ b ∈ h.live, b.Apart ⟨p, n⟩

theorem malloc_run (M : Malloc) (h : Heap) (n : ℕ) :
    malloc M n h = .ok (0, h.refuse) ∨
      ∃ p, malloc M n h = .ok (p, h.grant p n) ∧ Fresh h p n := by
  unfold malloc
  cases hp : M.answer h.asked h.live n with
  | none => exact Or.inl rfl
  | some p =>
      obtain ⟨hpos, hfits, hapart⟩ := M.fresh hp
      exact Or.inr ⟨p, rfl, hpos, hfits, hapart⟩

/-- The record of a region just opened. -/
def opened (p cap : ℕ) : Region := ⟨0, cap, 0, p + sizeofRegion⟩

theorem jsonRegionCreate_run (M : Malloc) (h : Heap) {cap : ℕ} (hcap : cap < 2 ^ 63) :
    jsonRegionCreate M cap h = .ok (0, h.refuse) ∨
      ∃ p, Fresh h p (sizeofRegion + cap) ∧
        jsonRegionCreate M cap h =
          .ok (p, (h.grant p (sizeofRegion + cap)).setRegion p (opened p cap)) := by
  have hwrap : wrap (sizeofRegion + cap) = sizeofRegion + cap :=
    Nat.mod_eq_of_lt (by unfold sizeofRegion; omega)
  rw [jsonRegionCreate, hwrap]
  rcases malloc_run M h (sizeofRegion + cap) with hnull | ⟨p, hp, hfresh⟩
  · exact Or.inl (run_bind hnull)
  · refine Or.inr ⟨p, hfresh, ?_⟩
    have hlive : ⟨p, sizeofRegion + cap⟩ ∈ (h.grant p (sizeofRegion + cap)).live :=
      List.mem_cons_self
    rw [run_bind hp, if_neg hfresh.pos.ne', run_bind (storeRegion_run hlive (by omega) _)]
    rfl

end Operations

end Muslimtify.Arena
