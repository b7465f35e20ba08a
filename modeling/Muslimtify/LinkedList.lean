import Mathlib.Logic.Function.Basic
import Mathlib.Tactic.Common

/-!
# Singly linked lists in a store

A store gives a record at some of its addresses, and a record holds what its node
carries and the address of the next node. `Segment` is the path from one address
to another along a list of nodes, and a list is a segment that ends in the null
address. Its nodes stand at different addresses, and they are all that can be
reached from its head.

A store may change behind the back of a segment wherever none of its nodes
stands. From this come the rules for the last node, which may be replaced and may
be followed by a new one.
-/
namespace Muslimtify.LinkedList

/-- How a node lies in the store: where it stands, the record that carries it, and the link of
a record. -/
structure Layout (α β R : Type) where
  null : α
  address : β → α
  record : β → α → R
  next : R → α
  next_record : ∀ b q, next (record b q) = q

variable {α β R : Type} (L : Layout α β R)

/-- The nodes `bs` are linked from `p` to `q`. -/
def Segment (cells : α → Option R) : α → List β → α → Prop
  | p, [], q => p = q
  | p, b :: bs, q =>
      p = L.address b ∧ p ≠ L.null ∧ ∃ n, cells p = some (L.record b n) ∧ Segment cells n bs q

def Linked (cells : α → Option R) (p : α) (bs : List β) : Prop := Segment L cells p bs L.null

/-- What can be come to from `p` along the links. -/
inductive Reach (cells : α → Option R) (p : α) : α → Prop
  | here : p ≠ L.null → Reach cells p p
  | next {q : α} {r : R} : Reach cells p q → cells q = some r → L.next r ≠ L.null →
      Reach cells p (L.next r)

section Segments
variable {L} {cells cells' : α → Option R} {p q : α} {b c : β} {bs cs : List β}

theorem segment_cons : Segment L cells p (b :: bs) q ↔
    p = L.address b ∧ p ≠ L.null ∧ ∃ n, cells p = some (L.record b n) ∧ Segment L cells n bs q :=
  Iff.rfl

theorem segment_append : Segment L cells p (bs ++ cs) q ↔
    ∃ m, Segment L cells p bs m ∧ Segment L cells m cs q := by
  induction bs generalizing p with
  | nil => simp [Segment]
  | cons b bs ih =>
      simp only [List.cons_append, segment_cons, ih]
      constructor
      · rintro ⟨hp, hnull, n, hcell, m, hm, hq⟩
        exact ⟨m, ⟨hp, hnull, n, hcell, hm⟩, hq⟩
      · rintro ⟨m, ⟨hp, hnull, n, hcell, hm⟩, hq⟩
        exact ⟨hp, hnull, n, hcell, m, hm, hq⟩

/-- The store may change away from the nodes. -/
theorem Segment.frame (h : Segment L cells p bs q)
    (hsame : ∀ b ∈ bs, cells' (L.address b) = cells (L.address b)) :
    Segment L cells' p bs q := by
  induction bs generalizing p with
  | nil => exact h
  | cons b bs ih =>
      obtain ⟨rfl, hnull, n, hcell, hrest⟩ := h
      have hrest' := ih hrest fun c hc => hsame c (List.mem_cons_of_mem b hc)
      exact ⟨rfl, hnull, n, (hsame b List.mem_cons_self).trans hcell, hrest'⟩

theorem Segment.frame_update [DecidableEq α] {a : α} {r : Option R}
    (h : Segment L cells p bs q) (ha : a ∉ bs.map L.address) :
    Segment L (Function.update cells a r) p bs q := by
  apply h.frame
  intro b hb
  apply Function.update_of_ne
  rintro rfl
  exact ha (List.mem_map_of_mem hb)

end Segments

section Lists
variable {L} {cells : α → Option R} {p q : α} {b c : β} {bs cs : List β}

/-- From one address all lists have one length. -/
theorem Linked.length_eq (h : Linked L cells p bs) (h' : Linked L cells p cs) :
    bs.length = cs.length := by
  induction bs generalizing p cs with
  | nil =>
      cases cs with
      | nil => rfl
      | cons c cs =>
          have hp : p = L.null := h
          exact absurd hp h'.2.1
  | cons b bs ih =>
      obtain ⟨-, hnull, n, hcell, hrest⟩ := h
      cases cs with
      | nil => exact absurd h' hnull
      | cons c cs =>
          obtain ⟨-, -, m, hcell', hrest'⟩ := h'
          have hlink : n = m := by
            rw [← L.next_record b n, ← L.next_record c m,
              Option.some.inj (hcell.symm.trans hcell')]
          rw [List.length_cons, List.length_cons, ih hrest (hlink ▸ hrest')]

/-- A list that ends does not come back to a node. -/
theorem Linked.nodup (h : Linked L cells p bs) : (bs.map L.address).Nodup := by
  induction bs generalizing p with
  | nil => exact List.nodup_nil
  | cons b bs ih =>
      obtain ⟨hp, -, n, -, hrest⟩ := id h
      rw [List.map_cons, List.nodup_cons]
      refine ⟨fun hmem => ?_, ih hrest⟩
      -- a node further on at the same address would start a shorter list there
      obtain ⟨c, hc, hsame⟩ := List.mem_map.mp hmem
      obtain ⟨front, back, rfl⟩ := List.append_of_mem hc
      obtain ⟨m, -, hback⟩ := segment_append.mp hrest
      have hm : m = p := by rw [hback.1, hsame, ← hp]
      have hlen := h.length_eq (hm ▸ hback)
      simp only [List.length_cons, List.length_append] at hlen
      omega

theorem Linked.last (h : Linked L cells p (bs ++ [b])) :
    Segment L cells p bs (L.address b) ∧ L.address b ≠ L.null ∧
      cells (L.address b) = some (L.record b L.null) := by
  obtain ⟨m, hfront, rfl, hnull, n, hcell, hn⟩ := segment_append.mp h
  have hend : n = L.null := hn
  exact ⟨hfront, hnull, hend ▸ hcell⟩

theorem Linked.last_notMem (h : Linked L cells p (bs ++ [b])) :
    L.address b ∉ bs.map L.address := by
  have hnodup := h.nodup
  rw [List.map_append, List.nodup_append] at hnodup
  exact fun hmem => hnodup.2.2 _ hmem _ (List.mem_singleton_self _) rfl

variable [DecidableEq α]

/-- The last node may be replaced where it stands. -/
theorem Linked.replace_last (h : Linked L cells p (bs ++ [b])) (hc : L.address c = L.address b) :
    Linked L (Function.update cells (L.address b) (some (L.record c L.null))) p (bs ++ [c]) := by
  obtain ⟨hfront, hnull, -⟩ := h.last
  refine segment_append.mpr ⟨L.address b, hfront.frame_update h.last_notMem, hc.symm, hnull,
    L.null, ?_, rfl⟩
  exact Function.update_self ..

/-- A record away from the list may be hung behind the last node. -/
theorem Linked.append (h : Linked L cells p (bs ++ [b])) (hnull : L.address c ≠ L.null)
    (hcell : cells (L.address c) = some (L.record c L.null))
    (hc : L.address c ∉ (bs ++ [b]).map L.address) :
    Linked L (Function.update cells (L.address b) (some (L.record b (L.address c)))) p
      (bs ++ [b] ++ [c]) := by
  obtain ⟨hfront, hb, -⟩ := h.last
  have hne : L.address c ≠ L.address b := by
    intro he
    apply hc
    rw [he]
    simp
  refine segment_append.mpr ⟨L.address c, segment_append.mpr ⟨L.address b,
    hfront.frame_update h.last_notMem, rfl, hb, L.address c, ?_, rfl⟩, rfl, hnull, L.null, ?_, rfl⟩
  · exact Function.update_self ..
  · rwa [Function.update_of_ne hne]

end Lists

section Reaching
variable {L} {cells : α → Option R} {p q : α} {bs : List β}

theorem Reach.of_linked (hp : p ≠ L.null → Reach L cells q p) (h : Linked L cells p bs) :
    ∀ b ∈ bs, Reach L cells q (L.address b) := by
  induction bs generalizing p with
  | nil => exact List.forall_mem_nil _
  | cons b bs ih =>
      obtain ⟨rfl, hnull, n, hcell, hrest⟩ := h
      refine List.forall_mem_cons.mpr ⟨hp hnull, ih (fun hn => ?_) hrest⟩
      have hstep := (hp hnull).next hcell
      rw [L.next_record] at hstep
      exact hstep hn

/-- The nodes of a list are what its head reaches. -/
theorem Linked.reach_iff (h : Linked L cells p bs) : Reach L cells p q ↔ q ∈ bs.map L.address := by
  have hhead : ∀ {n : α} {cs : List β}, Linked L cells n cs → n ≠ L.null →
      n ∈ cs.map L.address := by
    intro n cs hn hnull
    cases cs with
    | nil => exact absurd hn hnull
    | cons c cs => exact List.mem_map.mpr ⟨c, List.mem_cons_self, hn.1.symm⟩
  constructor
  · intro hreach
    induction hreach with
    | here hnull => exact hhead h hnull
    | @next q r _ hcell hnull ih =>
        obtain ⟨b, hb, rfl⟩ := List.mem_map.mp ih
        obtain ⟨front, back, rfl⟩ := List.append_of_mem hb
        obtain ⟨m, -, rfl, -, n, hn, hback⟩ := segment_append.mp h
        obtain rfl := Option.some.inj (hcell.symm.trans hn)
        rw [L.next_record] at hnull ⊢
        have hmem := hhead hback hnull
        simp only [List.map_append, List.map_cons, List.mem_append, List.mem_cons]
        exact Or.inr (Or.inr hmem)
  · intro hmem
    obtain ⟨b, hb, rfl⟩ := List.mem_map.mp hmem
    exact Reach.of_linked Reach.here h b hb

end Reaching

end Muslimtify.LinkedList
