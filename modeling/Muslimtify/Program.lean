import Mathlib.Data.List.Basic

/-!
# Programs over a shared state

A program is a tree of operations. Every operation is answered by an act on the
state, which may also consult an input: whatever the outside world decides at
that moment. A program can be run by itself, with a stream of inputs, or one
operation at a time in turns with a second program over the same state.

For the turns each program has a family of assertions about the state. It keeps
those of the other with each of its own acts and relies on the other to keep its
own. What a program meets in this way it meets in every interleaving with a
program that keeps its assertions.
-/
namespace Muslimtify

inductive Program (Op : Type) (Answer : Op → Type) (α : Type) where
  | done (a : α)
  | step (op : Op) (next : Answer op → Program Op Answer α)

namespace Program

section Sequencing
variable {Op : Type} {Answer : Op → Type} {α β : Type}

def bind : Program Op Answer α → (α → Program Op Answer β) → Program Op Answer β
  | done a, f => f a
  | step op next, f => step op fun x => (next x).bind f

instance : Monad (Program Op Answer) where
  pure := done
  bind := bind

@[simp] theorem pure_eq (a : α) : (pure a : Program Op Answer α) = done a := rfl

@[simp] theorem done_bind (a : α) (f : α → Program Op Answer β) : (done a >>= f) = f a := rfl

@[simp] theorem step_bind (op : Op) (next : Answer op → Program Op Answer α)
    (f : α → Program Op Answer β) : (step op next >>= f) = step op fun x => next x >>= f := rfl

instance : LawfulMonad (Program Op Answer) :=
  LawfulMonad.mk' (Program Op Answer)
    (fun p => by
      induction p with
      | done a => rfl
      | step op next ih => exact congrArg (step op) (funext ih))
    (fun _ _ => rfl)
    (fun p f g => by
      induction p with
      | done a => rfl
      | step op next ih => exact congrArg (step op) (funext ih))

end Sequencing

section Alone
variable {Op : Type} {Answer : Op → Type} {α β I S : Type}

/-- What a program leaves: its value, the inputs it did not use and the state. -/
structure Outcome (α I S : Type) where
  value : α
  inputs : ℕ → I
  state : S

variable (act : (op : Op) → I → S → Answer op × S)

/-- A program by itself, each operation with the next input. -/
def run : Program Op Answer α → (ℕ → I) → S → Outcome α I S
  | done a, e, s => ⟨a, e, s⟩
  | step op next, e, s =>
      run (next (act op (e 0) s).1) (fun n => e (n + 1)) (act op (e 0) s).2

@[simp] theorem run_done (a : α) (e : ℕ → I) (s : S) :
    run act (done a : Program Op Answer α) e s = ⟨a, e, s⟩ := rfl

theorem run_step (op : Op) (next : Answer op → Program Op Answer α) (e : ℕ → I) (s : S) :
    run act (step op next) e s =
      run act (next (act op (e 0) s).1) (fun n => e (n + 1)) (act op (e 0) s).2 := rfl

theorem run_bind (p : Program Op Answer α) (f : α → Program Op Answer β) (e : ℕ → I) (s : S) :
    run act (p >>= f) e s =
      run act (f (run act p e s).value) (run act p e s).inputs (run act p e s).state := by
  induction p generalizing e s with
  | done a => rfl
  | step op next ih =>
      rw [step_bind, run_step, run_step]
      exact ih _ _ _

end Alone

section Meeting
variable {Op : Type} {Answer : Op → Type} {α β I S ι κ : Type}

/-- Each of the assertions that holds before holds after. -/
def Keeps (A : ι → S → Prop) (s s' : S) : Prop := ∀ i, A i s → A i s'

theorem Keeps.refl (A : ι → S → Prop) (s : S) : Keeps A s s := fun _ h => h

theorem Keeps.trans {A : ι → S → Prop} {s t u : S} (h : Keeps A s t) (h' : Keeps A t u) :
    Keeps A s u := fun i hi => h' i (h i hi)

variable (act : (op : Op) → I → S → Answer op × S) (mine : ι → S → Prop) (theirs : κ → S → Prop)

/-- From this state on, whatever the inputs and whatever happens in between that
keeps `mine`, every act of the program keeps `theirs` and it ends in `post`. -/
def Meets (post : α → S → Prop) : Program Op Answer α → S → Prop
  | done a, s => ∀ s', Keeps mine s s' → post a s'
  | step op next, s => ∀ s' i, Keeps mine s s' →
      Keeps theirs s' (act op i s').2 ∧ Meets post (next (act op i s').1) (act op i s').2

/-- From every state with the precondition the program meets the postcondition. -/
def Triple (pre : S → Prop) (p : Program Op Answer α) (post : α → S → Prop) : Prop :=
  ∀ s, pre s → Meets act mine theirs post p s

variable {act mine theirs} {pre : S → Prop} {post : α → S → Prop}

/-- What happens before the first act changes nothing. -/
theorem Meets.stable {p : Program Op Answer α} {s s' : S}
    (hp : Meets act mine theirs post p s) (hs : Keeps mine s s') :
    Meets act mine theirs post p s' := by
  cases p with
  | done a => exact fun t ht => hp t (hs.trans ht)
  | step op next => exact fun t i ht => hp t i (hs.trans ht)

theorem Meets.bind {mid : α → S → Prop} {post : β → S → Prop} {p : Program Op Answer α}
    {f : α → Program Op Answer β} {s : S} (hp : Meets act mine theirs mid p s)
    (hf : ∀ a, Triple act mine theirs (mid a) (f a) post) :
    Meets act mine theirs post (p >>= f) s := by
  induction p generalizing s with
  | done a => exact hf a s (hp s (Keeps.refl _ _))
  | step op next ih => exact fun s' n hk => ⟨(hp s' n hk).1, ih _ (hp s' n hk).2⟩

theorem Triple.done (i : ι) {a : α} (h : ∀ s, mine i s → post a s) :
    Triple act mine theirs (mine i) (done a) post :=
  fun _ hs s' hk => h s' (hk i hs)

/-- One operation, from an assertion that the others keep. -/
theorem Triple.step (i : ι) {op : Op} {next : Answer op → Program Op Answer α}
    (mid : Answer op → S → Prop)
    (h : ∀ s n, mine i s →
      Keeps theirs s (act op n s).2 ∧ mid (act op n s).1 (act op n s).2)
    (hnext : ∀ x, Triple act mine theirs (mid x) (next x) post) :
    Triple act mine theirs (mine i) (step op next) post :=
  fun _ hs s' n hk => ⟨(h s' n (hk i hs)).1, hnext _ _ (h s' n (hk i hs)).2⟩

theorem Triple.bind {mid : α → S → Prop} {post : β → S → Prop} {p : Program Op Answer α}
    {f : α → Program Op Answer β} (hp : Triple act mine theirs pre p mid)
    (hf : ∀ a, Triple act mine theirs (mid a) (f a) post) :
    Triple act mine theirs pre (p >>= f) post := fun s hs => (hp s hs).bind hf

/-- Every operation of the program is among these. -/
def Uses (P : Op → Prop) : Program Op Answer α → Prop
  | done _ => True
  | step op next => P op ∧ ∀ x, Uses P (next x)

theorem Uses.bind {P : Op → Prop} {p : Program Op Answer α} {f : α → Program Op Answer β}
    (hp : Uses P p) (hf : ∀ a, Uses P (f a)) : Uses P (p >>= f) := by
  induction p with
  | done a => exact hf a
  | step op next ih => exact ⟨hp.1, fun x => ih x (hp.2 x)⟩

/-- An assertion that each of the operations keeps holds to the end. -/
theorem Uses.triple {P : Op → Prop} {p : Program Op Answer α} (hp : Uses P p) (i : ι)
    (h : ∀ op, P op → ∀ s n, mine i s →
      Keeps theirs s (act op n s).2 ∧ mine i (act op n s).2) :
    Triple act mine theirs (mine i) p fun _ => mine i := by
  induction p with
  | done a => exact Triple.done i fun _ hs => hs
  | step op next ih =>
      exact Triple.step i (fun _ => mine i) (h op hp.1) fun x => ih x (hp.2 x)

/-- Whatever the answers are, the value has the property. -/
def Yields (P : α → Prop) : Program Op Answer α → Prop
  | done a => P a
  | step _ next => ∀ x, Yields P (next x)

theorem Yields.bind {P : α → Prop} {Q : β → Prop} {p : Program Op Answer α}
    {f : α → Program Op Answer β} (hp : Yields P p) (hf : ∀ a, P a → Yields Q (f a)) :
    Yields Q (p >>= f) := by
  induction p with
  | done a => exact hf a hp
  | step op next ih => exact fun x => ih x (hp x)

theorem Yields.run {P : α → Prop} {p : Program Op Answer α} (hp : Yields P p) (e : ℕ → I) (s : S) :
    P (run act p e s).value := by
  induction p generalizing e s with
  | done a => exact hp
  | step op next ih => exact ih _ (hp _) _ _

/-- A program that nobody interferes with may rely on any assertion. -/
def Unshared (A : S → Prop) (s : S) : Prop := A s

/-- The state at a stop after so many operations. -/
def stateAfter (act : (op : Op) → I → S → Answer op × S) :
    ℕ → Program Op Answer α → (ℕ → I) → S → S
  | 0, _, _, s => s
  | _ + 1, done _, _, s => s
  | n + 1, step op next, e, s =>
      stateAfter act n (next (act op (e 0) s).1) (fun n => e (n + 1)) (act op (e 0) s).2

/-- What every act keeps holds wherever the program stops. -/
theorem Meets.stateAfter {safe : S → Prop} {p : Program Op Answer α} {s : S}
    (hp : Meets act Unshared (fun (_ : Unit) => safe) post p s) (hs : safe s) (n : ℕ)
    (e : ℕ → I) : safe (stateAfter act n p e s) := by
  induction n generalizing p e s with
  | zero => exact hs
  | succ n ih =>
      cases p with
      | done a => exact hs
      | step op next =>
          obtain ⟨hkeeps, hrest⟩ := hp s (e 0) (Keeps.refl _ _)
          exact ih hrest (hkeeps () hs) _

/-- A whole run by itself ends in the postcondition. -/
theorem Meets.run {κ : Type} {theirs : κ → S → Prop} {p : Program Op Answer α} {s : S}
    (hp : Meets act Unshared theirs post p s) (e : ℕ → I) :
    post (run act p e s).value (run act p e s).state := by
  induction p generalizing e s with
  | done a => exact hp s (Keeps.refl _ _)
  | step op next ih => exact ih _ (hp s (e 0) (Keeps.refl _ _)).2 _

end Meeting

section Turns
variable {Op : Type} {Answer : Op → Type} {α β I S : Type}

inductive Side
  | left
  | right
  deriving DecidableEq, Repr

variable (act : Side → (op : Op) → I → S → Answer op × S)

/-- The value of a program that is done. -/
def value? : Program Op Answer α → Option α
  | done a => some a
  | step _ _ => none

theorem eq_done_of_value? {p : Program Op Answer α} {a : α} (h : p.value? = some a) :
    p = done a := by
  cases p with
  | done b => exact congrArg done (Option.some.inj h)
  | step op next => cases h

/-- The operation that a program is about to perform. -/
def op? : Program Op Answer α → Option Op
  | done _ => none
  | step op _ => some op

/-- The next operation of a program. One that is done does nothing. -/
def advance (act : (op : Op) → I → S → Answer op × S) :
    Program Op Answer α → I → S → Program Op Answer α × S
  | done a, _, s => (done a, s)
  | step op next, i, s => (next (act op i s).1, (act op i s).2)

/-- One turn of one side. -/
def turn (c : Program Op Answer α × Program Op Answer β × S) :
    Side × I → Program Op Answer α × Program Op Answer β × S
  | (.left, i) =>
      let r := advance (act .left) c.1 i c.2.2
      (r.1, c.2.1, r.2)
  | (.right, i) =>
      let r := advance (act .right) c.2.1 i c.2.2
      (c.1, r.1, r.2)

/-- The two programs and the state after a sequence of turns. -/
def interleave (turns : List (Side × I)) (c : Program Op Answer α × Program Op Answer β × S) :
    Program Op Answer α × Program Op Answer β × S :=
  turns.foldl (turn act) c

/-- One operation keeps what the other side asserts, and what is met from then on
is met afterwards. -/
theorem Meets.advance {ι κ : Type} {act : (op : Op) → I → S → Answer op × S} {mine : ι → S → Prop}
    {theirs : κ → S → Prop} {post : α → S → Prop} {p : Program Op Answer α} {s : S}
    (hp : Meets act mine theirs post p s) (i : I) :
    Keeps theirs s (advance act p i s).2 ∧
      Meets act mine theirs post (advance act p i s).1 (advance act p i s).2 := by
  cases p with
  | done a => exact ⟨Keeps.refl _ _, hp⟩
  | step op next => exact hp s i (Keeps.refl _ _)

/-- A program that is done has ended in what it meets. -/
theorem Meets.ended {ι κ : Type} {act : (op : Op) → I → S → Answer op × S} {mine : ι → S → Prop}
    {theirs : κ → S → Prop} {post : α → S → Prop} {p : Program Op Answer α} {s : S} {a : α}
    (hp : Meets act mine theirs post p s) (h : p.value? = some a) : post a s := by
  rw [eq_done_of_value? h] at hp
  exact hp s (Keeps.refl _ _)

variable {act} {ι κ : Type} {L : ι → S → Prop} {R : κ → S → Prop}

/-- After any turns both sides still meet their postconditions, and what both keep
holds, as each keeps what the other asserts. -/
theorem Meets.turns {postₗ : α → S → Prop} {postᵣ : β → S → Prop} {p : Program Op Answer α}
    {q : Program Op Answer β} {s : S} (hp : Meets (act .left) L R postₗ p s)
    (hq : Meets (act .right) R L postᵣ q s) (turns : List (Side × I)) :
    Meets (act .left) L R postₗ (Program.interleave act turns (p, q, s)).1
        (Program.interleave act turns (p, q, s)).2.2 ∧
      Meets (act .right) R L postᵣ (Program.interleave act turns (p, q, s)).2.1
        (Program.interleave act turns (p, q, s)).2.2 ∧
      ∀ i j, L i = R j → L i s → L i (Program.interleave act turns (p, q, s)).2.2 := by
  induction turns generalizing p q s with
  | nil => exact ⟨hp, hq, fun _ _ _ hs => hs⟩
  | cons m turns ih =>
      obtain ⟨side, i⟩ := m
      cases side with
      | left =>
          have hstep := hp.advance i
          obtain ⟨hl, hr, hkept⟩ := ih hstep.2 (hq.stable hstep.1)
          refine ⟨hl, hr, fun k j hkj hs => hkept k j hkj ?_⟩
          rw [hkj] at hs ⊢
          exact hstep.1 j hs
      | right =>
          have hstep := hq.advance i
          obtain ⟨hl, hr, hkept⟩ := ih (hp.stable hstep.1) hstep.2
          exact ⟨hl, hr, fun k j hkj hs => hkept k j hkj (hstep.1 k hs)⟩

/-- In every interleaving, once both programs are done each has ended in what it
meets. -/
theorem Meets.interleave {postₗ : α → S → Prop} {postᵣ : β → S → Prop} {p : Program Op Answer α}
    {q : Program Op Answer β} {s s' : S} (hp : Meets (act .left) L R postₗ p s)
    (hq : Meets (act .right) R L postᵣ q s) {turns : List (Side × I)} {a : α} {b : β}
    (h : Program.interleave act turns (p, q, s) = (done a, done b, s')) :
    postₗ a s' ∧ postᵣ b s' := by
  obtain ⟨hl, hr, -⟩ := hp.turns hq turns
  rw [h] at hl hr
  exact ⟨hl.ended rfl, hr.ended rfl⟩

end Turns

section Runs
variable {S J : Type} (step : S → J → S)

/-- Every step of the run from `s` is taken where `ok` allows it. -/
def Along (ok : S → J → Prop) : S → List J → Prop
  | _, [] => True
  | s, j :: js => ok s j ∧ Along ok (step s j) js

/-- What every allowed step keeps holds at the end of a run. -/
theorem Along.invariant {step : S → J → S} {ok : S → J → Prop} (Inv : S → Prop)
    (hstep : ∀ s j, Inv s → ok s j → Inv (step s j)) {s : S} {js : List J} (hs : Inv s)
    (h : Along step ok s js) : Inv (js.foldl step s) := by
  induction js generalizing s with
  | nil => exact hs
  | cons j js ih => exact ih (hstep s j hs h.1) h.2

theorem Along.append {step : S → J → S} {ok : S → J → Prop} {s : S} {js ks : List J}
    (h : Along step ok s js) (h' : Along step ok (js.foldl step s) ks) :
    Along step ok s (js ++ ks) := by
  induction js generalizing s with
  | nil => exact h'
  | cons j js ih => exact ⟨h.1, ih h.2 h'⟩

theorem Along.and {step : S → J → S} {ok ok' : S → J → Prop} {s : S} {js : List J}
    (h : Along step ok s js) (h' : Along step ok' s js) :
    Along step (fun s j => ok s j ∧ ok' s j) s js := by
  induction js generalizing s with
  | nil => trivial
  | cons j js ih => exact ⟨⟨h.1, h'.1⟩, ih h.2 h'.2⟩

end Runs

end Program

end Muslimtify
