import Mathlib.Data.List.Basic

/-!
# Runs of a system that takes events

A system is a partial step function: an event that cannot happen in a state has
no next state. A run follows a list of events. Three rules cover what is said
about runs: a property that every allowed event keeps holds at the end, a
quantity that no event increases bounds the events that decrease it, and the
start of a run is a run.
-/
namespace Muslimtify.Transitions

section Runs
variable {S E : Type} (step : S → E → Option S)

/-- The state after the events, each of which can happen when it is due. -/
def follow : S → List E → Option S
  | s, [] => some s
  | s, e :: es => (step s e).bind fun t => follow t es

/-- Every event of the run is one that `ok` allows where it happens. -/
def Allowed (ok : S → E → Prop) : S → List E → Prop
  | _, [] => True
  | s, e :: es => ok s e ∧ ∀ t, step s e = some t → Allowed ok t es

variable {step} {s t : S} {e : E} {es fs : List E}

theorem follow_cons : follow step s (e :: es) = some t ↔
    ∃ u, step s e = some u ∧ follow step u es = some t := by
  simp only [follow, Option.bind_eq_some_iff]

theorem follow_append : follow step s (es ++ fs) = some t ↔
    ∃ u, follow step s es = some u ∧ follow step u fs = some t := by
  induction es generalizing s with
  | nil => simp [follow]
  | cons e es ih =>
      simp only [List.cons_append, follow_cons, ih]
      constructor
      · rintro ⟨u, hu, v, hv, ht⟩
        exact ⟨v, ⟨u, hu, hv⟩, ht⟩
      · rintro ⟨v, ⟨u, hu, hv⟩, ht⟩
        exact ⟨u, hu, v, hv, ht⟩

theorem Allowed.of_mem {ok : S → E → Prop} (h : ∀ e ∈ es, ∀ s, ok s e) :
    Allowed step ok s es := by
  induction es generalizing s with
  | nil => trivial
  | cons e es ih =>
      exact ⟨h e List.mem_cons_self s, fun _ _ => ih fun f hf => h f (List.mem_cons_of_mem e hf)⟩

theorem Allowed.mono {ok ok' : S → E → Prop} (hs : Allowed step ok s es)
    (h : ∀ s e, ok s e → ok' s e) : Allowed step ok' s es := by
  induction es generalizing s with
  | nil => trivial
  | cons e es ih => exact ⟨h s e hs.1, fun t ht => ih (hs.2 t ht)⟩

theorem Allowed.cons {ok : S → E → Prop} (h : ok s e) (hstep : step s e = some t)
    (ht : Allowed step ok t es) : Allowed step ok s (e :: es) := by
  refine ⟨h, fun u hu => ?_⟩
  obtain rfl := Option.some.inj (hstep.symm.trans hu)
  exact ht

/-- What every allowed event keeps holds at the end of a run. -/
theorem Allowed.invariant {ok : S → E → Prop} (Inv : S → Prop)
    (hstep : ∀ s e t, Inv s → ok s e → step s e = some t → Inv t) (h : Allowed step ok s es)
    (hs : Inv s) (hrun : follow step s es = some t) : Inv t := by
  induction es generalizing s with
  | nil =>
      obtain rfl := Option.some.inj hrun
      exact hs
  | cons e es ih =>
      obtain ⟨u, hu, ht⟩ := follow_cons.mp hrun
      exact ih (h.2 u hu) (hstep s e u hs h.1 hu) ht

/-- What every event keeps holds at the end of a run. -/
theorem invariant (Inv : S → Prop) (hstep : ∀ s e t, Inv s → step s e = some t → Inv t)
    (hs : Inv s) (hrun : follow step s es = some t) : Inv t :=
  have hall : Allowed step (fun _ _ => True) s es := Allowed.of_mem fun _ _ _ => trivial
  hall.invariant Inv (fun s e t h _ ht => hstep s e t h ht) hs hrun

/-- Events that each take one from a quantity are no more than there was of it
and what other events, one each, added to it. -/
theorem countP_le (Inv : S → Prop) (rank : S → ℕ) (spends earns : E → Bool)
    (hstep : ∀ s e t, Inv s → step s e = some t →
      Inv t ∧ rank t + (if spends e then 1 else 0) ≤ rank s + (if earns e then 1 else 0))
    (hs : Inv s) (hrun : follow step s es = some t) :
    rank t + es.countP spends ≤ rank s + es.countP earns := by
  induction es generalizing s with
  | nil =>
      obtain rfl := Option.some.inj hrun
      exact Nat.le_refl _
  | cons e es ih =>
      obtain ⟨u, hu, ht⟩ := follow_cons.mp hrun
      obtain ⟨hinv, hle⟩ := hstep s e u hs hu
      have := ih hinv ht
      rw [List.countP_cons, List.countP_cons]
      omega

end Runs

end Muslimtify.Transitions
