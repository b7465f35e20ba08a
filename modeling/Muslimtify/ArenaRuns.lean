import Mathlib.Data.List.Pairwise
import Muslimtify.Arena

/-!
# Runs of the arena

Every call keeps the arena what it stands for: a list of rooms, opened one after
another, of which the last is the current one, with the bytes handed out so far
placed in them. `Represents` ties the records of the heap to such a list, and
`Placed` is what the rooms and the bytes keep. A call that is refused changes
neither.

At the end the records are all reached from the head, so the loop of
`json_alloc_free` comes by every region and frees it once.
-/
namespace Muslimtify.ArenaRuns
open BumpArena LinkedList Arena

section Regions

/-- A region of the arena, as it lies in the heap. -/
structure RegionAt where
  address : ℕ
  room : Room
  base_eq : room.base = address + sizeofRegion
  address_pos : 0 < address
  cap_lt : room.cap < 2 ^ 63
  end_le : room.base + room.cap ≤ 2 ^ 64

namespace RegionAt

def record (a : RegionAt) (next : ℕ) : Region := ⟨next, a.room.cap, a.room.used, a.room.base⟩

def block (a : RegionAt) : Extent := ⟨a.address, sizeofRegion + a.room.cap⟩

def take (a : RegionAt) (pad size : ℕ) (h : a.room.used + pad + size ≤ a.room.cap) : RegionAt where
  address := a.address
  room := a.room.take pad size h
  base_eq := a.base_eq
  address_pos := a.address_pos
  cap_lt := a.cap_lt
  end_le := a.end_le

theorem whole_within (a : RegionAt) : a.room.whole.Within a.block := by
  have hbase := a.base_eq
  constructor
  all_goals
    simp only [Room.whole, block]
    omega

end RegionAt

def regionLayout : Layout ℕ RegionAt Region where
  null := 0
  address := RegionAt.address
  record := RegionAt.record
  next := Region.next
  next_record _ _ := rfl

def headOf (rs : List RegionAt) : ℕ := (rs.head?.map RegionAt.address).getD 0

def currentOf (rs : List RegionAt) : ℕ := (rs.getLast?.map RegionAt.address).getD 0

@[simp] theorem currentOf_concat (rs : List RegionAt) (r : RegionAt) :
    currentOf (rs ++ [r]) = r.address := by
  simp [currentOf]

@[simp] theorem headOf_append (qs rs : List RegionAt) (q : RegionAt) :
    headOf (qs ++ [q] ++ rs) = headOf (qs ++ [q]) := by
  cases qs <;> rfl

theorem headOf_take (qs : List RegionAt) (q : RegionAt) {pad size : ℕ}
    (h : q.room.used + pad + size ≤ q.room.cap) :
    headOf (qs ++ [q.take pad size h]) = headOf (qs ++ [q]) := by
  cases qs <;> rfl

/-- The heap holds the arena with these regions, above what was there at the start. -/
structure Represents (start : Heap) (arena : ℕ) (rs : List RegionAt) (h : Heap) : Prop where
  pointers : h.arenas arena = some ⟨headOf rs, currentOf rs, arenaBlockSize⟩
  linked : Linked regionLayout h.regions (headOf rs) rs
  live : h.live = (rs.map RegionAt.block).reverse ++ ⟨arena, sizeofJsonArena⟩ :: start.live
  freed : h.freed = start.freed
  apart : (⟨arena, sizeofJsonArena⟩ :: rs.map RegionAt.block).Pairwise Extent.Apart

namespace Represents
variable {start h : Heap} {arena p cap : ℕ} {rs qs : List RegionAt} {q : RegionAt}

theorem refuse (hr : Represents start arena rs h) : Represents start arena rs h.refuse :=
  ⟨hr.pointers, hr.linked, hr.live, hr.freed, hr.apart⟩

theorem arena_live (hr : Represents start arena rs h) : ⟨arena, sizeofJsonArena⟩ ∈ h.live := by
  rw [hr.live]
  exact List.mem_append_right _ List.mem_cons_self

theorem block_live (hr : Represents start arena rs h) (hq : q ∈ rs) : q.block ∈ h.live := by
  rw [hr.live]
  exact List.mem_append_left _ (List.mem_reverse.mpr (List.mem_map_of_mem hq))

/-- The current region is the last one. -/
theorem current (hr : Represents start arena (qs ++ [q]) h) :
    h.arenas arena = some ⟨headOf (qs ++ [q]), q.address, arenaBlockSize⟩ ∧
      h.regions q.address = some (q.record 0) := by
  have hpointers := hr.pointers
  rw [currentOf_concat] at hpointers
  exact ⟨hpointers, hr.linked.last.2.2⟩

end Represents

/-- A region in a fresh block. -/
def newRegion {h : Heap} {p cap : ℕ} (hfresh : Fresh h p (sizeofRegion + cap))
    (hcap : cap < 2 ^ 63) : RegionAt where
  address := p
  room := ⟨p + sizeofRegion, cap, 0, Nat.zero_le _⟩
  base_eq := rfl
  address_pos := hfresh.pos
  cap_lt := hcap
  end_le := by
    have hfits := hfresh.fits
    show p + sizeofRegion + cap ≤ 2 ^ 64
    omega

section Opening
variable {start h : Heap} {arena p cap : ℕ} {rs qs : List RegionAt} {q : RegionAt}

/-- A fresh block lies apart from the regions there are. -/
theorem newRegion_apart (hr : Represents start arena rs h)
    (hfresh : Fresh h p (sizeofRegion + cap)) (hcap : cap < 2 ^ 63) :
    ∀ s ∈ rs.map RegionAt.room, s.whole.Apart (newRegion hfresh hcap).room.whole := by
  intro s hs
  obtain ⟨r, hmem, rfl⟩ := List.mem_map.mp hs
  exact (hfresh.apart _ (hr.block_live hmem)).within r.whole_within
    (newRegion hfresh hcap).whole_within

theorem newRegion_block_apart (hr : Represents start arena rs h)
    (hfresh : Fresh h p (sizeofRegion + cap)) (hcap : cap < 2 ^ 63) :
    (⟨arena, sizeofJsonArena⟩ :: (rs ++ [newRegion hfresh hcap]).map RegionAt.block).Pairwise
      Extent.Apart := by
  rw [List.map_append, ← List.cons_append]
  refine List.pairwise_append.mpr ⟨hr.apart, List.pairwise_singleton _ _, fun b hb c hc => ?_⟩
  rw [List.mem_singleton.mp hc]
  rcases List.mem_cons.mp hb with rfl | hb
  · exact hfresh.apart _ hr.arena_live
  · obtain ⟨r, hmem, rfl⟩ := List.mem_map.mp hb
    exact hfresh.apart _ (hr.block_live hmem)

theorem newRegion_address (hr : Represents start arena rs h)
    (hfresh : Fresh h p (sizeofRegion + cap)) : p ∉ rs.map RegionAt.address := by
  intro hmem
  obtain ⟨r, hrs, rfl⟩ := List.mem_map.mp hmem
  have hapart := hfresh.apart _ (hr.block_live hrs)
  simp only [Extent.Apart, RegionAt.block, sizeofRegion] at hapart
  omega

/-- The heap after the first region has been opened. -/
theorem Represents.first (hr : Represents start arena [] h)
    (hfresh : Fresh h p (sizeofRegion + cap)) (hcap : cap < 2 ^ 63) :
    Represents start arena [newRegion hfresh hcap]
      (((h.grant p (sizeofRegion + cap)).setRegion p (opened p cap)).setArena arena
        ⟨p, p, arenaBlockSize⟩) where
  pointers := Function.update_self ..
  linked := ⟨rfl, hfresh.pos.ne', 0, Function.update_self .., rfl⟩
  live := congrArg (List.cons (⟨p, sizeofRegion + cap⟩ : Extent)) hr.live
  freed := hr.freed
  apart := newRegion_block_apart hr hfresh hcap

/-- The heap after a region has been hung behind the current one. -/
theorem Represents.next (hr : Represents start arena (qs ++ [q]) h)
    (hfresh : Fresh h p (sizeofRegion + cap)) (hcap : cap < 2 ^ 63) :
    Represents start arena (qs ++ [q] ++ [newRegion hfresh hcap])
      ((((h.grant p (sizeofRegion + cap)).setRegion p (opened p cap)).setRegion q.address
        (q.record p)).setArena arena ⟨headOf (qs ++ [q]), p, arenaBlockSize⟩) where
  pointers := by
    rw [headOf_append, currentOf_concat]
    exact Function.update_self ..
  linked := by
    have hnew : p ∉ (qs ++ [q]).map RegionAt.address := newRegion_address hr hfresh
    have hlinked : Linked regionLayout (Function.update h.regions p (some (opened p cap)))
        (headOf (qs ++ [q])) (qs ++ [q]) := hr.linked.frame_update hnew
    rw [headOf_append]
    exact hlinked.append (c := newRegion hfresh hcap) hfresh.pos.ne' (Function.update_self ..) hnew
  live := by
    rw [List.map_append, List.reverse_append]
    exact congrArg (List.cons (⟨p, sizeofRegion + cap⟩ : Extent)) hr.live
  freed := hr.freed
  apart := newRegion_block_apart hr hfresh hcap

/-- The heap after the current region has given something. -/
theorem Represents.take (hr : Represents start arena (qs ++ [q]) h) {pad size : ℕ}
    (hfits : q.room.used + pad + size ≤ q.room.cap) :
    Represents start arena (qs ++ [q.take pad size hfits])
      (h.setRegion q.address ((q.take pad size hfits).record 0)) where
  pointers := by
    rw [headOf_take, currentOf_concat]
    exact hr.current.1
  linked := by
    rw [headOf_take]
    exact hr.linked.replace_last rfl
  live := by
    have hlive := hr.live
    rw [List.map_append] at hlive ⊢
    exact hlive
  freed := hr.freed
  apart := by
    have hapart := hr.apart
    rw [List.map_append] at hapart ⊢
    exact hapart

end Opening

end Regions

section Calls

/-- The arena with its regions, and what has been handed out of them. -/
structure Arranged (start : Heap) (arena : ℕ) (rs : List RegionAt) (given : List Extent)
    (h : Heap) : Prop where
  represents : Represents start arena rs h
  placed : Placed (rs.map RegionAt.room) given

variable {M : Malloc} {start h : Heap} {arena size alignment sizeWithSlack : ℕ}
variable {rs qs : List RegionAt} {q : RegionAt} {given : List Extent}

theorem wrap_of_lt {n : ℕ} (h : n < 2 ^ 64) : wrap n = n := Nat.mod_eq_of_lt h

theorem bump_run (ha : Arranged start arena (qs ++ [q]) given h) {pad : ℕ} (hsize : 0 < size)
    (hfits : q.room.used + pad + size ≤ q.room.cap) :
    ∃ h', bump arena pad size h = .ok (q.room.base + q.room.used + pad, h') ∧
      Arranged start arena (qs ++ [q.take pad size hfits])
        (given ++ [⟨q.room.base + q.room.used + pad, size⟩]) h' := by
  obtain ⟨hpointers, hrecord⟩ := ha.represents.current
  have hlive := ha.represents.block_live (q := q) (by simp)
  have hcap := q.cap_lt
  have hend := q.end_le
  have hpad : wrap (q.room.used + pad) = q.room.used + pad := wrap_of_lt (by omega)
  have hsum : wrap (q.room.used + pad + size) = q.room.used + pad + size := wrap_of_lt (by omega)
  have hptr : wrap (q.room.base + (q.room.used + pad)) = q.room.base + q.room.used + pad := by
    rw [wrap_of_lt (by omega)]
    omega
  refine ⟨h.setRegion q.address ((q.take pad size hfits).record 0), ?_,
    ha.represents.take hfits, ?_⟩
  · rw [bump, run_bind (loadArena_run hpointers), run_bind (loadRegion_run hrecord),
      run_bind (storeRegion_run hlive (Nat.le_add_right _ _) _),
      run_bind (loadRegion_run (h.setRegion_self _ _)),
      run_bind (storeRegion_run (h := h.setRegion _ _) hlive (Nat.le_add_right _ _) _), run_pure,
      Heap.setRegion_setRegion]
    simp only [RegionAt.record, RegionAt.take, Room.take, hpad, hsum, hptr]
  · have hplaced := ha.placed
    rw [List.map_append] at hplaced ⊢
    exact hplaced.take hfits

/-- The capacity of a new region is in range and has room for the bytes and their padding. -/
theorem regionCap_bounds (hsize : size < 2 ^ 62) (halign : alignment < 2 ^ 62)
    (hslack : sizeWithSlack = size + (alignment - 1)) :
    regionCap arenaBlockSize sizeWithSlack < 2 ^ 63 ∧
      size + (alignment - 1) ≤ regionCap arenaBlockSize sizeWithSlack := by
  unfold regionCap arenaBlockSize
  split_ifs <;> omega

theorem ensureRegion_run (ha : Arranged start arena rs given h)
    (hcap : regionCap arenaBlockSize sizeWithSlack < 2 ^ 63) :
    ∃ ready h', ensureRegion M arena sizeWithSlack h = .ok (ready, h') ∧
      if ready then ∃ qs q, Arranged start arena (qs ++ [q]) given h'
      else Arranged start arena rs given h' := by
  have hpointers := ha.represents.pointers
  rw [ensureRegion, run_bind (loadArena_run hpointers)]
  dsimp only
  rcases List.eq_nil_or_concat' rs with rfl | ⟨qs, q, rfl⟩
  · have hnone : currentOf [] = 0 := rfl
    rw [if_pos hnone]
    rcases jsonRegionCreate_run M h hcap with hnull | ⟨p, hfresh, hcreate⟩
    · exact ⟨false, h.refuse, run_bind hnull, ha.represents.refuse, ha.placed⟩
    · have harena := List.mem_cons_of_mem ⟨p, sizeofRegion + regionCap arenaBlockSize sizeWithSlack⟩
        ha.represents.arena_live
      refine ⟨true, _, ?_, [], newRegion hfresh hcap, ha.represents.first hfresh hcap,
        ha.placed.add (List.forall_mem_nil _)⟩
      rw [run_bind hcreate, if_neg hfresh.pos.ne',
        run_bind (storeArena_run (h := (h.grant p _).setRegion p _) harena (le_refl _) _)]
      rfl
  · rw [currentOf_concat, if_neg q.address_pos.ne']
    exact ⟨true, h, rfl, qs, q, ha⟩

theorem openNext_run (ha : Arranged start arena (qs ++ [q]) given h)
    (hcap : regionCap arenaBlockSize sizeWithSlack < 2 ^ 63) :
    openNext M arena sizeWithSlack h = .ok (0, h.refuse) ∨
      ∃ n h', openNext M arena sizeWithSlack h = .ok (n.address, h') ∧
        n.room.cap = regionCap arenaBlockSize sizeWithSlack ∧ n.room.used = 0 ∧
        Arranged start arena (qs ++ [q] ++ [n]) given h' := by
  obtain ⟨hpointers, hrecord⟩ := ha.represents.current
  rw [openNext, run_bind (loadArena_run hpointers)]
  dsimp only
  rcases jsonRegionCreate_run M h hcap with hnull | ⟨p, hfresh, hcreate⟩
  · exact Or.inl (run_bind hnull)
  · set cap := regionCap arenaBlockSize sizeWithSlack with hdef
    have hnew : p ∉ (qs ++ [q]).map RegionAt.address := newRegion_address ha.represents hfresh
    have hne : q.address ≠ p := fun he => hnew (he ▸ List.mem_map_of_mem (by simp))
    have hloaded : ((h.grant p (sizeofRegion + cap)).setRegion p (opened p cap)).regions q.address =
        some (q.record 0) := (Function.update_of_ne hne _ _).trans hrecord
    have hblock : q.block ∈ ((h.grant p (sizeofRegion + cap)).setRegion p (opened p cap)).live :=
      List.mem_cons_of_mem _ (ha.represents.block_live (by simp))
    have harena : ⟨arena, sizeofJsonArena⟩ ∈
        ((h.grant p (sizeofRegion + cap)).setRegion p (opened p cap)).live :=
      List.mem_cons_of_mem _ ha.represents.arena_live
    refine Or.inr ⟨newRegion hfresh hcap, _, ?_, rfl, rfl, ha.represents.next hfresh hcap, ?_⟩
    · rw [run_bind hcreate, if_neg hfresh.pos.ne', run_bind (loadRegion_run hloaded),
        run_bind (storeRegion_run hblock (Nat.le_add_right _ _) _),
        run_bind (storeArena_run (h := ((h.grant p _).setRegion p _).setRegion q.address _) harena
          (le_refl _) _)]
      rfl
    · have hplaced := ha.placed.add (newRegion_apart ha.represents hfresh hcap)
      simpa using hplaced

/-- What a call leaves: nothing and the arena as it was, or an address that is a multiple of
the alignment, with the bytes there handed out. -/
def Answered (start : Heap) (arena : ℕ) (given : List Extent) (size alignment p : ℕ) (h : Heap) :
    Prop :=
  p = 0 ∧ (∃ rs, Arranged start arena rs given h) ∨
    p ≠ 0 ∧ p % alignment = 0 ∧ ∃ rs, Arranged start arena rs (given ++ [⟨p, size⟩]) h

theorem bump_answered (ha : Arranged start arena (qs ++ [q]) given h) (hsize : 0 < size)
    (halign : 0 < alignment)
    (hfits : q.room.used + padding alignment (q.room.base + q.room.used) + size ≤ q.room.cap) :
    ∃ p h', bump arena (padding alignment (q.room.base + q.room.used)) size h = .ok (p, h') ∧
      Answered start arena given size alignment p h' := by
  obtain ⟨h', hrun, hleft⟩ := bump_run ha hsize hfits
  have hbase := q.base_eq
  have hpos := q.address_pos
  exact ⟨_, h', hrun, Or.inr ⟨by omega, add_padding_mod halign _, _, hleft⟩⟩

theorem placeNext_run (ha : Arranged start arena (qs ++ [q]) given h) (hsize : 0 < size)
    (hsize' : size < 2 ^ 62) (halign : 0 < alignment) (halign' : alignment < 2 ^ 62)
    (hslack : sizeWithSlack = size + (alignment - 1)) :
    ∃ p h', placeNext M arena size alignment sizeWithSlack h = .ok (p, h') ∧
      Answered start arena given size alignment p h' := by
  obtain ⟨hcap, hroom⟩ := regionCap_bounds hsize' halign' hslack
  rcases openNext_run (M := M) ha hcap with hnull | ⟨n, h', hopen, hncap, hnused, hnext⟩
  · rw [placeNext, run_bind hnull, if_pos rfl]
    exact ⟨0, _, rfl, Or.inl ⟨rfl, _, ha.represents.refuse, ha.placed⟩⟩
  · have hpad := padding_lt halign (n.room.base + n.room.used)
    have hdata : (n.record 0).data = n.room.base + n.room.used := by
      rw [hnused]
      rfl
    rw [placeNext, run_bind hopen, if_neg n.address_pos.ne',
      run_bind (loadRegion_run hnext.represents.current.2), hdata]
    exact bump_answered hnext hsize halign (by omega)

/-- The test on what the current region has left. -/
theorem place_eq (ha : Arranged start arena (qs ++ [q]) given h) :
    place M arena size alignment sizeWithSlack h =
      (if q.room.cap <
          wrap (q.room.used + padding alignment (wrap (q.room.base + q.room.used)) + size) then
        placeNext M arena size alignment sizeWithSlack
      else bump arena (padding alignment (wrap (q.room.base + q.room.used))) size) h := by
  obtain ⟨hpointers, hrecord⟩ := ha.represents.current
  rw [place, run_bind (loadArena_run hpointers), run_bind (loadRegion_run hrecord)]
  rfl

theorem place_run (ha : Arranged start arena (qs ++ [q]) given h) (hsize : 0 < size)
    (hsize' : size < 2 ^ 62) (halign : 0 < alignment) (halign' : alignment < 2 ^ 62)
    (hslack : sizeWithSlack = size + (alignment - 1)) :
    ∃ p h', place M arena size alignment sizeWithSlack h = .ok (p, h') ∧
      Answered start arena given size alignment p h' := by
  have hused := q.room.used_le
  have hcap := q.cap_lt
  have hend := q.end_le
  have hpad := padding_lt halign (wrap (q.room.base + q.room.used))
  have hsum : wrap (q.room.used + padding alignment (wrap (q.room.base + q.room.used)) + size) =
      q.room.used + padding alignment (wrap (q.room.base + q.room.used)) + size :=
    wrap_of_lt (by omega)
  rw [place_eq ha, hsum]
  split_ifs with hfull
  · exact placeNext_run ha hsize hsize' halign halign' hslack
  · -- what is left is not empty, so its first address has not wrapped around
    have hwrap : wrap (q.room.base + q.room.used) = q.room.base + q.room.used :=
      wrap_of_lt (by omega)
    rw [hwrap] at hfull ⊢
    exact bump_answered ha hsize halign (Nat.le_of_not_lt hfull)

theorem withSlack_eq (hsize : size < 2 ^ 62) (halign : 0 < alignment)
    (halign' : alignment < 2 ^ 62) : withSlack size alignment = some (size + (alignment - 1)) := by
  have hsum : jsonSafeAdd size (alignment - 1) = some (size + (alignment - 1)) := by
    rw [jsonSafeAdd, if_neg (by unfold sizeMax; omega)]
  by_cases hone : 1 < alignment
  · have hpos : 0 < alignment - 1 := by omega
    simp only [withSlack, if_pos hone, if_pos hpos, hsum]
  · obtain rfl : alignment = 1 := by omega
    rfl

/-- Every call answers, and keeps the arena. -/
theorem jsonAlloc_run (ha : Arranged start arena rs given h) (hsize : size < 2 ^ 62)
    (halign : alignment < 2 ^ 62) :
    ∃ p h', jsonAlloc M arena size alignment h = .ok (p, h') ∧
      Answered start arena given size alignment p h' := by
  have hrefused : ∃ p h', (pure 0 : Mem ℕ) h = .ok (p, h') ∧
      Answered start arena given size alignment p h' := ⟨0, h, rfl, Or.inl ⟨rfl, rs, ha⟩⟩
  unfold jsonAlloc
  by_cases hnull : arena = 0 ∨ size = 0 ∨ alignment = 0
  · rwa [if_pos hnull]
  rw [if_neg hnull]
  by_cases hpower : alignment &&& (alignment - 1) ≠ 0
  · rwa [if_pos hpower]
  rw [if_neg hpower]
  simp only [not_or] at hnull
  obtain ⟨-, hsize₀, halign₀⟩ := hnull
  have halign₁ := Nat.pos_of_ne_zero halign₀
  obtain ⟨hcap, -⟩ := regionCap_bounds hsize halign rfl
  obtain ⟨ready, h₁, hensure, hready⟩ := ensureRegion_run (M := M) ha hcap
  rw [withSlack_eq hsize halign₁ halign]
  dsimp only
  rw [run_bind hensure]
  cases ready with
  | false => exact ⟨0, h₁, rfl, Or.inl ⟨rfl, rs, hready⟩⟩
  | true =>
      obtain ⟨qs, q, hcurrent⟩ := hready
      exact place_run hcurrent (Nat.pos_of_ne_zero hsize₀) hsize halign₁ halign rfl

end Calls

section Runs
variable {M : Malloc} {start h h' : Heap} {arena : ℕ} {rs : List RegionAt} {given : List Extent}

/-- What the results that are not null hand out. -/
def extents (results : List Result) : List Extent :=
  (results.filter fun x => x.ptr ≠ 0).map Result.extent

theorem extents_cons (x : Result) (results : List Result) :
    extents (x :: results) = extents [x] ++ extents results := by
  by_cases hx : x.ptr = 0 <;> simp [extents, hx]

/-- What a call leaves, for the result that it makes. -/
theorem Answered.arranged {r : Request} {p : ℕ}
    (h : Answered start arena given r.size r.alignment p h') :
    (p ≠ 0 → p % r.alignment = 0) ∧
      ∃ rs, Arranged start arena rs (given ++ extents [⟨r, p⟩]) h' := by
  rcases h with ⟨rfl, rs, ha⟩ | ⟨hp, haligned, rs, ha⟩
  · exact ⟨absurd rfl, rs, by simpa [extents] using ha⟩
  · exact ⟨fun _ => haligned, rs, by simpa [extents, hp, Result.extent] using ha⟩

theorem allocAll_run (ha : Arranged start arena rs given h) {requests : List Request}
    (hsmall : ∀ r ∈ requests, r.size < 2 ^ 62 ∧ r.alignment < 2 ^ 62) :
    ∃ results h', allocAll M arena requests h = .ok (results, h') ∧
      results.map Result.request = requests ∧
      (∀ x ∈ results, x.ptr ≠ 0 → x.ptr % x.request.alignment = 0) ∧
      ∃ rs', Arranged start arena rs' (given ++ extents results) h' := by
  induction requests generalizing rs given h with
  | nil => exact ⟨[], h, rfl, rfl, List.forall_mem_nil _, rs, by simpa [extents] using ha⟩
  | cons r requests ih =>
      obtain ⟨hr, hrequests⟩ := List.forall_mem_cons.mp hsmall
      obtain ⟨p, h₁, halloc, hanswered⟩ := jsonAlloc_run (M := M) ha hr.1 hr.2
      obtain ⟨haligned, rs₁, ha₁⟩ := hanswered.arranged
      obtain ⟨results, h₂, hrun, hmap, hall, rs₂, ha₂⟩ := ih ha₁ hrequests
      rw [List.append_assoc, ← extents_cons] at ha₂
      refine ⟨⟨r, p⟩ :: results, h₂, ?_, ?_, List.forall_mem_cons.mpr ⟨haligned, hall⟩, rs₂, ha₂⟩
      · rw [allocAll, run_bind halloc, run_bind hrun]
        rfl
      · rw [List.map_cons, hmap]

theorem jsonAllocInit_run (hinit : jsonAllocInit M start = .ok (arena, h)) (harena : arena ≠ 0) :
    Arranged start arena [] [] h := by
  rw [jsonAllocInit] at hinit
  rcases malloc_run M start sizeofJsonArena with hnull | ⟨p, hp, hfresh⟩
  · rw [run_bind hnull, if_pos rfl] at hinit
    cases hinit
    exact absurd rfl harena
  · have hlive : ⟨p, sizeofJsonArena⟩ ∈ (start.grant p sizeofJsonArena).live :=
      List.mem_cons_self
    rw [run_bind hp, if_neg hfresh.pos.ne', run_bind (storeArena_run hlive (le_refl _) _)] at hinit
    cases hinit
    exact ⟨⟨Function.update_self .., rfl, rfl, rfl, List.pairwise_singleton _ _⟩, Placed.empty⟩

end Runs

section Freeing
variable {start h : Heap} {arena : ℕ} {rs : List RegionAt}

/-- The loop frees the regions in the order of their list. -/
theorem freeRegions_run {fuel p : ℕ} {others : List Extent}
    (hlinked : Linked regionLayout h.regions p rs)
    (hlive : h.live = (rs.map RegionAt.block).reverse ++ others) (hfuel : rs.length < fuel) :
    ∃ h', freeRegions fuel p h = .ok ((), h') ∧ h'.live = others ∧
      h'.freed = h.freed ++ rs.map RegionAt.address := by
  induction rs generalizing fuel p h with
  | nil =>
      obtain ⟨n, rfl⟩ := Nat.exists_eq_succ_of_ne_zero (Nat.ne_of_gt hfuel)
      have hp : p = 0 := hlinked
      refine ⟨h, ?_, hlive, by simp⟩
      rw [freeRegions, if_pos hp]
      rfl
  | cons r rs ih =>
      obtain ⟨n, rfl⟩ := Nat.exists_eq_succ_of_ne_zero (Nat.ne_of_gt (Nat.zero_lt_of_lt hfuel))
      have hnodup := hlinked.nodup
      obtain ⟨hp, hnull, next, hcell, hrest⟩ := hlinked
      obtain rfl : p = r.address := hp
      have hzero : r.address ≠ 0 := hnull
      have hother : r.address ∉ rs.map RegionAt.address := (List.nodup_cons.mp hnodup).1
      have hlast : h.live = (rs.map RegionAt.block).reverse ++ (r.block :: others) := by
        rw [hlive]
        simp
      have hmem : r.block ∈ h.live := by
        rw [hlast]
        simp
      have hfront : ∀ b ∈ (rs.map RegionAt.block).reverse, b.base ≠ r.address := by
        intro b hb he
        obtain ⟨s, hs, rfl⟩ := List.mem_map.mp (List.mem_reverse.mp hb)
        exact hother (List.mem_map.mpr ⟨s, hs, he⟩)
      have hgone := release_live hlast hfront
      have hlink : Linked regionLayout (h.release r.address).regions next rs :=
        hrest.frame_update hother
      obtain ⟨h', hrun, hlive', hfreed⟩ := ih hlink hgone (by simpa using hfuel)
      refine ⟨h', ?_, hlive', ?_⟩
      · rw [freeRegions, if_neg hzero, run_bind (loadRegion_run hcell), run_bind (free_run hmem)]
        exact hrun
      · rw [hfreed]
        simp [Heap.release]

theorem jsonAllocFree_run (hr : Represents start arena rs h) (harena : arena ≠ 0) :
    ∃ h', jsonAllocFree arena h = .ok ((), h') ∧ h'.live = start.live ∧
      h'.freed = start.freed ++ rs.map RegionAt.address ++ [arena] := by
  have hlength : rs.length < h.live.length + 1 := by
    rw [hr.live, List.length_append, List.length_reverse, List.length_map, List.length_cons]
    omega
  obtain ⟨h₁, hrun, hlive, hfreed⟩ := freeRegions_run hr.linked hr.live hlength
  have hmem : ⟨arena, sizeofJsonArena⟩ ∈ h₁.live := by
    rw [hlive]
    exact List.mem_cons_self
  refine ⟨h₁.release arena, ?_, ?_, ?_⟩
  · have hblocks : liveBlocks h = .ok (h.live.length, h) := rfl
    rw [jsonAllocFree, if_neg harena, run_bind (loadArena_run hr.pointers), run_bind hblocks,
      run_bind hrun]
    exact free_run hmem
  · have hfront : h₁.live = [] ++ ⟨arena, sizeofJsonArena⟩ :: start.live := hlive
    exact release_live hfront (List.forall_mem_nil _)
  · show h₁.freed ++ [arena] = _
    rw [hfreed, hr.freed]

end Freeing

section Soundness
variable {M : Malloc} {start h : Heap} {arena : ℕ} {rs : List RegionAt} {given : List Extent}

/-- `p` is come to from the head of the arena. -/
def Reached (h : Heap) (arena p : ℕ) : Prop :=
  ∃ a, h.arenas arena = some a ∧ Reach regionLayout h.regions a.head p

/-- What the calls on an arena leave, and what freeing it then does. -/
structure Sound (start : Heap) (arena : ℕ) (results : List Result) (h : Heap) : Prop where
  aligned : ∀ x ∈ results, x.ptr ≠ 0 → x.ptr % x.request.alignment = 0
  inside : ∀ x ∈ results, x.ptr ≠ 0 → ∃ p r, Reached h arena p ∧ h.regions p = some r ∧
    x.extent.Within ⟨r.data, r.cap⟩
  apart : results.Pairwise fun x y => x.ptr ≠ 0 → y.ptr ≠ 0 → x.extent.Apart y.extent
  clear : ∀ x ∈ results, x.ptr ≠ 0 → x.extent.Apart ⟨arena, sizeofJsonArena⟩ ∧
    ∀ p, Reached h arena p → x.extent.Apart ⟨p, sizeofRegion⟩
  kept : ∀ b ∈ h.live, b ∈ start.live ∨ b = ⟨arena, sizeofJsonArena⟩ ∨ Reached h arena b.base
  released : ∃ order h', order.Nodup ∧ (∀ p, p ∈ order ↔ Reached h arena p) ∧
    jsonAllocFree arena h = .ok ((), h') ∧ h'.freed = start.freed ++ order ++ [arena] ∧
    h'.live = start.live

/-- The regions of an arena are what is come to from its head. -/
theorem reached_iff (hr : Represents start arena rs h) {p : ℕ} :
    Reached h arena p ↔ p ∈ rs.map RegionAt.address := by
  constructor
  · rintro ⟨a, ha, hreach⟩
    obtain rfl := Option.some.inj (ha.symm.trans hr.pointers)
    exact hr.linked.reach_iff.mp hreach
  · intro hmem
    exact ⟨_, hr.pointers, hr.linked.reach_iff.mpr hmem⟩

theorem reached_of_mem (hr : Represents start arena rs h) {r : RegionAt} (hmem : r ∈ rs) :
    Reached h arena r.address := (reached_iff hr).mpr (List.mem_map_of_mem hmem)

/-- The record of every region stands where the region does. -/
theorem record_of_mem (hr : Represents start arena rs h) {r : RegionAt} (hmem : r ∈ rs) :
    ∃ next, h.regions r.address = some (r.record next) := by
  obtain ⟨front, back, rfl⟩ := List.append_of_mem hmem
  obtain ⟨m, -, hm, -, next, hcell, -⟩ := segment_append.mp hr.linked
  obtain rfl : m = r.address := hm
  exact ⟨next, hcell⟩

/-- The bytes that are handed out never meet a record, so what is written into them leaves the
list of the regions alone. -/
theorem given_clear (ha : Arranged start arena rs given h) {x : Extent} (hx : x ∈ given) :
    x.Apart ⟨arena, sizeofJsonArena⟩ ∧ ∀ r ∈ rs, x.Apart ⟨r.address, sizeofRegion⟩ := by
  obtain ⟨room, hroom, hin⟩ := ha.placed.inside x hx
  obtain ⟨s, hs, rfl⟩ := List.mem_map.mp hroom
  have hwhole := hin.trans s.room.spent_within
  have hblock := hwhole.trans s.whole_within
  obtain ⟨harena, hblocks⟩ := List.pairwise_cons.mp ha.represents.apart
  refine ⟨(harena _ (List.mem_map_of_mem hs)).symm.within hblock ⟨le_refl _, le_refl _⟩, ?_⟩
  intro r hr
  have hrecord : (⟨r.address, sizeofRegion⟩ : Extent).Within r.block :=
    ⟨le_refl _, Nat.add_le_add_left (Nat.le_add_right _ _) _⟩
  by_cases hsame : s.block = r.block
  · -- the record of its own region stands before the region's bytes
    have haddress : s.address = r.address := congrArg Extent.base hsame
    have hlow : s.room.base ≤ x.base := hwhole.1
    have hbelow : r.address + sizeofRegion ≤ x.base := by
      rw [← haddress, ← s.base_eq]
      exact hlow
    exact Or.inr hbelow
  · have hapart := hblocks.forall (List.mem_map_of_mem hs) (List.mem_map_of_mem hr) hsame
    exact hapart.within hblock hrecord

/-- An arena is sound whatever has been handed out of it. -/
theorem Arranged.sound {results : List Result} (ha : Arranged start arena rs (extents results) h)
    (harena : arena ≠ 0)
    (haligned : ∀ x ∈ results, x.ptr ≠ 0 → x.ptr % x.request.alignment = 0) :
    Sound start arena results h := by
  have hr := ha.represents
  have hgiven : ∀ x ∈ results, x.ptr ≠ 0 → x.extent ∈ extents results := fun x hx hptr =>
    List.mem_map_of_mem (List.mem_filter.mpr ⟨hx, by simpa using hptr⟩)
  refine ⟨haligned, fun x hx hptr => ?_, ?_, fun x hx hptr => ?_, fun b hb => ?_, ?_⟩
  · obtain ⟨room, hroom, hin⟩ := ha.placed.inside _ (hgiven x hx hptr)
    obtain ⟨r, hrs, rfl⟩ := List.mem_map.mp hroom
    obtain ⟨next, hcell⟩ := record_of_mem hr hrs
    exact ⟨r.address, _, reached_of_mem hr hrs, hcell, hin.trans r.room.spent_within⟩
  · have hapart := List.pairwise_map.mp ha.placed.apart
    rw [List.pairwise_filter] at hapart
    exact hapart.imp fun hxy hx hy => hxy (by simpa using hx) (by simpa using hy)
  · obtain ⟨hclear, hregions⟩ := given_clear ha (hgiven x hx hptr)
    refine ⟨hclear, fun p hp => ?_⟩
    obtain ⟨r, hrs, rfl⟩ := List.mem_map.mp ((reached_iff hr).mp hp)
    exact hregions r hrs
  · rw [hr.live, List.mem_append, List.mem_reverse, List.mem_cons] at hb
    rcases hb with hb | rfl | hb
    · obtain ⟨r, hrs, rfl⟩ := List.mem_map.mp hb
      exact Or.inr (Or.inr (reached_of_mem hr hrs))
    · exact Or.inr (Or.inl rfl)
    · exact Or.inl hb
  · obtain ⟨h', hfree, hlive, hfreed⟩ := jsonAllocFree_run hr harena
    exact ⟨_, h', hr.linked.nodup, fun p => (reached_iff hr).symm, hfree, hfreed, hlive⟩

/-- Whatever `malloc` answers, every address that the calls on an arena return is a multiple of
its alignment, its bytes lie within the capacity of a region that is linked into the arena and
apart from those of every other, and freeing the arena frees each of its regions once. -/
theorem arena_sound (M : Malloc) (hinit : jsonAllocInit M start = .ok (arena, h))
    (harena : arena ≠ 0) {requests : List Request}
    (hsmall : ∀ r ∈ requests, r.size < 2 ^ 62 ∧ r.alignment < 2 ^ 62) :
    ∃ results h', allocAll M arena requests h = .ok (results, h') ∧
      results.map Result.request = requests ∧ Sound start arena results h' := by
  obtain ⟨results, h', hrun, hmap, haligned, rs, ha⟩ :=
    allocAll_run (M := M) (jsonAllocInit_run hinit harena) hsmall
  rw [List.nil_append] at ha
  exact ⟨results, h', hrun, hmap, ha.sound harena haligned⟩

/-- An allocator with a page for every call, which refuses the third of them. -/
def pages : Malloc where
  answer k live n :=
    let p := 65536 * (k + 1)
    if k ≠ 2 ∧ p + n ≤ 2 ^ 64 ∧ ∀ b ∈ live, b.Apart ⟨p, n⟩ then some p else none
  fresh {k live n p} h := by
    rw [Option.ite_none_right_eq_some] at h
    obtain ⟨⟨-, hfits, hapart⟩, hp⟩ := h
    obtain rfl := Option.some.inj hp
    exact ⟨Nat.mul_pos (by decide) (Nat.succ_pos k), hfits, hapart⟩

def emptyHeap : Heap := ⟨[], fun _ => none, fun _ => none, 0, []⟩

/-- The heap with an arena on the first page. -/
def begun : Heap :=
  (emptyHeap.grant 65536 sizeofJsonArena).setArena 65536 ⟨0, 0, arenaBlockSize⟩

theorem pages_init : jsonAllocInit pages emptyHeap = .ok (65536, begun) := by
  have hanswer : pages.answer emptyHeap.asked emptyHeap.live sizeofJsonArena = some 65536 := by
    decide +kernel
  have hmalloc : malloc pages sizeofJsonArena emptyHeap =
      .ok (65536, emptyHeap.grant 65536 sizeofJsonArena) := by
    simp only [malloc, hanswer]
  rw [jsonAllocInit, run_bind hmalloc, if_neg (by decide),
    run_bind (storeArena_run List.mem_cons_self (le_refl _) _)]
  rfl

def fourRequests : List Request := [⟨100, 1⟩, ⟨5000, 32⟩, ⟨16, 64⟩, ⟨5000, 4096⟩]

/-- The second request is refused its region, and the arena goes on. -/
theorem arena_sound_refused :
    ((allocAll pages 65536 fourRequests begun).toOption.map fun x => x.1.map Result.ptr) =
        some [131104, 0, 131264, 266240] ∧
      ∃ results h, allocAll pages 65536 fourRequests begun = .ok (results, h) ∧
        results.map Result.request = fourRequests ∧ Sound emptyHeap 65536 results h := by
  refine ⟨by decide +kernel, ?_⟩
  exact arena_sound pages pages_init (by decide) (by decide)

end Soundness

end Muslimtify.ArenaRuns
