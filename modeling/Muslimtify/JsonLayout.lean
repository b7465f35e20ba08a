import Muslimtify.JsonLookup

/-!
# Documents that differ only in layout

A schema names the members that a reader looks for at each level of a document.
Two documents are the same up to layout when one comes from the other by
changing white space, by writing a string with other escapes, by exchanging
neighbouring members of different names, and by adding or dropping members that
the schema does not name. Whoever looks up only what the schema names, by the
first member of each name, finds the same in both.

Names are compared as code units, so that two names are one exactly when they
denote the same string.
-/
namespace Muslimtify.JsonLayout
open CText JsonReader JsonGrammar JsonLookup

section Schemas

/-- What a member is read as. -/
inductive Kind (L : Type) where
  | scalar
  | naturals
  | object (level : L)
  deriving DecidableEq, Repr

/-- The members an object of each level is read for. -/
abbrev Schema (L : Type) := L → List (String × Kind L)

variable {L : Type} (schema : Schema L)

/-- How a member of that name is read, if it is. Nothing is read inside a value
that has no level. -/
def kindOf : Option L → List Char → Option (Kind L)
  | none, _ => none
  | some level, name =>
      ((schema level).find? fun f => f.1.toList = name).map Prod.snd

/-- Every name of the schema is printable. -/
def Schema.Printable (schema : Schema L) : Prop := ∀ level, ∀ f ∈ schema level, PrintableKey f.1

theorem Schema.Printable.key {schema : Schema L} (hs : schema.Printable) {ℓ : Option L}
    {key : String} (hk : kindOf schema ℓ key.toList ≠ none) : PrintableKey key := by
  cases ℓ with
  | none => exact absurd rfl hk
  | some level =>
      obtain ⟨kind, hkind⟩ := Option.ne_none_iff_exists'.mp hk
      obtain ⟨f, hf, rfl⟩ := Option.map_eq_some_iff.mp hkind
      have hname : f.1.toList = key.toList := by simpa using List.find?_some hf
      have hprint := hs level f (List.mem_of_find?_eq_some hf)
      rwa [PrintableKey, hname] at hprint

def Kind.level : Kind L → Option L
  | .object level => some level
  | _ => none

/-- The level of the value of a member. -/
def inner (level : Option L) (name : List Char) : Option L :=
  (kindOf schema level name).bind Kind.level

mutual

/-- One value written in two ways. -/
inductive Same : Option L → Json → Json → Prop where
  | string {ℓ : Option L} {s t : Chars} : unitsOf s = unitsOf t →
      Same ℓ (.string s) (.string t)
  | number {ℓ : Option L} (n : Number) : Same ℓ (.number n) (.number n)
  | literal {ℓ : Option L} (l : Literal) : Same ℓ (.literal l) (.literal l)
  | array {ℓ : Option L} {w w' : Ws} {es fs : Elements} : SameElements es.list fs.list →
      Same ℓ (.array w es) (.array w' fs)
  | object {ℓ : Option L} {w w' : Ws} {ms ns : Members} : SameMembers ℓ ms.list ns.list →
      Same ℓ (.object w ms) (.object w' ns)

inductive SameElements : List Json → List Json → Prop where
  | nil : SameElements [] []
  | cons {v w : Json} {vs ws : List Json} : Same none v w → SameElements vs ws →
      SameElements (v :: vs) (w :: ws)

inductive SameMembers : Option L → List (Chars × Json) → List (Chars × Json) → Prop where
  | nil {ℓ : Option L} : SameMembers ℓ [] []
  | cons {ℓ : Option L} {a b : Chars} {v w : Json} {ms ns : List (Chars × Json)} :
      unitsOf a = unitsOf b → Same (inner schema ℓ (decoded a)) v w → SameMembers ℓ ms ns →
      SameMembers ℓ ((a, v) :: ms) ((b, w) :: ns)
  | swap {ℓ : Option L} {m n : Chars × Json} {ms : List (Chars × Json)} :
      unitsOf m.1 ≠ unitsOf n.1 → SameMembers ℓ (m :: n :: ms) (n :: m :: ms)
  | add {ℓ : Option L} {m : Chars × Json} {ms : List (Chars × Json)} :
      kindOf schema ℓ (decoded m.1) = none → SameMembers ℓ ms (m :: ms)
  | drop {ℓ : Option L} {m : Chars × Json} {ms : List (Chars × Json)} :
      kindOf schema ℓ (decoded m.1) = none → SameMembers ℓ (m :: ms) ms
  | trans {ℓ : Option L} {ms ns ks : List (Chars × Json)} : SameMembers ℓ ms ns →
      SameMembers ℓ ns ks → SameMembers ℓ ms ks

end

end Schemas

section Paths

/-- The text a string, a number or a literal is handed out as. -/
def scalarText : Json → Option CString
  | .array _ _ => none
  | .object _ _ => none
  | v => some (handed v)

/-- What of a value does not depend on its layout. -/
inductive Shape where
  | scalar (text : CString)
  | array (elements : List (Option CString))
  | object

def Shape.text : Shape → Option CString
  | .scalar text => some text
  | _ => none

def shape : Json → Shape
  | .array _ es => .array (es.list.map scalarText)
  | .object _ _ => .object
  | v => .scalar (handed v)

/-- The value at the end of a path of names. -/
def along : List String → Json → Option Json
  | [], v => some v
  | key :: path, .object _ ms => (firstNamed key.toList ms.list).bind (along path)
  | _ :: _, _ => none

variable {L : Type} (schema : Schema L)

/-- A path that the schema names step by step. -/
def Known : Option L → List String → Prop
  | _, [] => True
  | ℓ, key :: path => kindOf schema ℓ key.toList ≠ none ∧ Known (inner schema ℓ key.toList) path

variable {schema}

private theorem scalarText_of_shape {v w : Json} (h : shape v = shape w) :
    scalarText v = scalarText w := by
  have hfun : ∀ u, scalarText u = (shape u).text := by
    intro u
    cases u <;> rfl
  rw [hfun, hfun, h]

private theorem firstNamed_cons (key : List Char) (m : Chars × Json) (ms : List (Chars × Json)) :
    firstNamed key (m :: ms) = if decoded m.1 = key then some m.2 else firstNamed key ms := by
  by_cases h : decoded m.1 = key <;> simp [firstNamed, h]

/-- Two names that denote different strings are not both the same key. -/
private theorem firstNamed_swap {key : String} (hk : PrintableKey key) {m n : Chars × Json}
    (h : unitsOf m.1 ≠ unitsOf n.1) (ms : List (Chars × Json)) :
    firstNamed key.toList (m :: n :: ms) = firstNamed key.toList (n :: m :: ms) := by
  simp only [firstNamed_cons]
  by_cases hm : decoded m.1 = key.toList
  · have hn : decoded n.1 ≠ key.toList := fun hn =>
      h (((decode_printable hk _).mpr hm).trans ((decode_printable hk _).mpr hn).symm)
    simp [hm, hn]
  · simp [hm]

/-- A member of no name the schema knows is passed over. -/
private theorem firstNamed_unknown {ℓ : Option L} {key : String}
    (hk : kindOf schema ℓ key.toList ≠ none) {m : Chars × Json}
    (hm : kindOf schema ℓ (decoded m.1) = none) (ms : List (Chars × Json)) :
    firstNamed key.toList (m :: ms) = firstNamed key.toList ms := by
  have hne : decoded m.1 ≠ key.toList := fun h => hk (h ▸ hm)
  rw [firstNamed_cons, if_neg hne]

mutual

/-- Along a path the schema names, both writings lead to values of one shape. -/
theorem Same.along_shape (hs : schema.Printable) {ℓ : Option L} {v w : Json} :
    Same schema ℓ v w → ∀ path, Known schema ℓ path →
      (along path v).map shape = (along path w).map shape
  | .string h, path, _ => by
      cases path <;> simp [along, shape, handed, decoded, h]
  | .number n, _, _ => rfl
  | .literal l, _, _ => rfl
  | .array h, path, _ => by
      have hes := SameElements.scalars hs h
      cases path <;> simp [along, shape, hes]
  | .object _, [], _ => rfl
  | .object h, key :: path, hp => SameMembers.along_shape hs h key path hp

theorem SameElements.scalars (hs : schema.Printable) {vs ws : List Json} :
    SameElements schema vs ws → vs.map scalarText = ws.map scalarText
  | .nil => rfl
  | .cons h hrest => by
      have hv := Option.some.inj (Same.along_shape hs h [] trivial)
      rw [List.map_cons, List.map_cons, scalarText_of_shape hv, SameElements.scalars hs hrest]

theorem SameMembers.along_shape (hs : schema.Printable) {ℓ : Option L}
    {ms ns : List (Chars × Json)} : SameMembers schema ℓ ms ns →
      ∀ key path, Known schema ℓ (key :: path) →
        ((firstNamed key.toList ms).bind (along path)).map shape =
          ((firstNamed key.toList ns).bind (along path)).map shape
  | .nil, _, _, _ => rfl
  | .cons (a := a) (b := b) hname hv hrest, key, path, hp => by
      have hdec : decoded a = decoded b := congrArg decodeUnits hname
      simp only [firstNamed_cons, ← hdec]
      by_cases h : decoded a = key.toList
      · simp only [if_pos h]
        exact Same.along_shape hs hv path (h ▸ hp.2)
      · simp only [if_neg h]
        exact SameMembers.along_shape hs hrest key path hp
  | .swap h, key, path, hp => by rw [firstNamed_swap (hs.key hp.1) h]
  | .add h, key, path, hp => by rw [firstNamed_unknown hp.1 h]
  | .drop h, key, path, hp => by rw [firstNamed_unknown hp.1 h]
  | .trans h₁ h₂, key, path, hp =>
      (SameMembers.along_shape hs h₁ key path hp).trans
        (SameMembers.along_shape hs h₂ key path hp)

end

end Paths

section Types
variable {L : Type} (schema : Schema L)

/-- A number that is written as digits alone. -/
def isNatural : Json → Bool
  | .number n => !n.minus && n.frac.isNone && n.exp.isNone
  | _ => false

mutual

/-- The value is of the kind it is read as. -/
def hasKind : Kind L → Json → Bool
  | .scalar, .string _ => true
  | .scalar, .number _ => true
  | .scalar, .literal _ => true
  | .naturals, .array _ es => es.list.all isNatural
  | .object level, .object _ ms => typed level ms
  | _, _ => false

/-- Every member that is read has the kind it is read as. -/
def typed (level : L) : Members → Bool
  | .nil => true
  | .cons _ name _ _ v _ rest =>
      (match kindOf schema (some level) (decoded name) with
        | some kind => hasKind kind v
        | none => true) && typed level rest

end

variable {schema}

theorem hasKind_of_first {level : L} {key : List Char} {kind : Kind L} {v : Json}
    (hk : kindOf schema (some level) key = some kind) :
    ∀ {ms : Members}, typed schema level ms = true → firstNamed key ms.list = some v →
      hasKind schema kind v = true
  | .nil, _, hv => by cases hv
  | .cons _ name _ _ u _ rest, ht, hv => by
      rw [typed, Bool.and_eq_true] at ht
      rw [Members.list, firstNamed_cons] at hv
      by_cases hname : decoded name = key
      · rw [if_pos hname] at hv
        obtain rfl := Option.some.inj hv
        have h := ht.1
        rw [hname, hk] at h
        exact h
      · rw [if_neg hname] at hv
        exact hasKind_of_first hk ht.2 hv

end Types

section Readers

/-- A member of an object read from its text. -/
theorem getValue_object_text {w : Ws} {ms : Members} (hd : (Json.object w ms).depth ≤ 100)
    {key : String} (hk : PrintableKey key) :
    getValue (ascii key) (Json.object w ms).text =
      (firstNamed key.toList ms.list).map handed := by
  have h := getValue_text ⟨.none, w, ms, .none⟩ hd hk
  have htext : Document.text ⟨.none, w, ms, .none⟩ = (Json.object w ms).text := by
    simp [Document.text, Document.root, Ws.none]
  rwa [htext] at h

theorem depth_of_first {key : List Char} {v : Json} : ∀ {ms : Members},
    firstNamed key ms.list = some v → v.depth ≤ ms.depth
  | .nil, h => by cases h
  | .cons _ name _ _ u _ rest, h => by
      rw [Members.list, firstNamed_cons] at h
      by_cases hname : decoded name = key
      · rw [if_pos hname] at h
        obtain rfl := Option.some.inj h
        exact le_max_left _ _
      · rw [if_neg hname] at h
        exact le_trans (depth_of_first h) (le_max_right _ _)

variable {L : Type} {schema : Schema L}

/-- Two objects of a level that a reader of the schema cannot tell apart. -/
structure Twin (schema : Schema L) (level : L) (ms ns : Members) : Prop where
  depth : ms.depth < 100 ∧ ns.depth < 100
  typed : typed schema level ms = true ∧ typed schema level ns = true
  agree : ∀ key path, Known schema (some level) (key :: path) →
    ((firstNamed key.toList ms.list).bind (along path)).map shape =
      ((firstNamed key.toList ns.list).bind (along path)).map shape

/-- What the text of a member is read for is the same in both. -/
inductive SameRead (schema : Schema L) : Kind L → Option CString → Option CString → Prop
  | absent {kind : Kind L} : SameRead schema kind none none
  | scalar {text : CString} : SameRead schema .scalar (some text) (some text)
  | naturals {w w' : Ws} {es fs : Elements} :
      (∀ e ∈ es.list, isNatural e = true) → (∀ f ∈ fs.list, isNatural f = true) →
      es.list.map scalarText = fs.list.map scalarText →
      SameRead schema .naturals (some (Json.array w es).text) (some (Json.array w' fs).text)
  | object {level : L} {w w' : Ws} {ms ns : Members} : Twin schema level ms ns →
      SameRead schema (.object level) (some (Json.object w ms).text)
        (some (Json.object w' ns).text)

theorem Twin.read (hs : schema.Printable) {level : L} {ms ns : Members}
    (h : Twin schema level ms ns) {key : String} {kind : Kind L}
    (hk : kindOf schema (some level) key.toList = some kind) (w w' : Ws) :
    SameRead schema kind (getValue (ascii key) (Json.object w ms).text)
      (getValue (ascii key) (Json.object w' ns).text) := by
  have hne : kindOf schema (some level) key.toList ≠ none := by simp [hk]
  have hagree := fun path => h.agree key path
  rw [getValue_object_text h.depth.1 (hs.key hne), getValue_object_text h.depth.2 (hs.key hne)]
  have hshape := hagree [] ⟨hne, trivial⟩
  cases hv : firstNamed key.toList ms.list with
  | none =>
      cases hu : firstNamed key.toList ns.list with
      | none => exact .absent
      | some u => simp [hv, hu, along] at hshape
  | some v =>
      cases hu : firstNamed key.toList ns.list with
      | none => simp [hv, hu, along] at hshape
      | some u =>
          have hkv := hasKind_of_first hk h.typed.1 hv
          have hku := hasKind_of_first hk h.typed.2 hu
          have hdv := depth_of_first hv
          have hdu := depth_of_first hu
          simp only [hv, hu, Option.bind_some, along, Option.map_some, Option.some.injEq]
            at hshape hagree ⊢
          cases kind with
          | scalar =>
              have htext : handed v = handed u := by
                cases v <;> cases u <;> simp_all [hasKind, shape]
              rw [htext]
              exact .scalar
          | naturals =>
              cases v <;> try cases hkv
              cases u <;> try cases hku
              exact .naturals (List.all_eq_true.mp hkv) (List.all_eq_true.mp hku)
                (Shape.array.inj hshape)
          | object level' =>
              cases v <;> try cases hkv
              cases u <;> try cases hku
              have hinner : inner schema (some level) key.toList = some level' := by
                rw [inner, hk]
                rfl
              have hdepth := And.intro ((Nat.lt_of_succ_le hdv).trans h.depth.1)
                ((Nat.lt_of_succ_le hdu).trans h.depth.2)
              refine .object ⟨hdepth, ⟨hkv, hku⟩, fun key' path hp => ?_⟩
              exact hagree (key' :: path) ⟨hne, hinner ▸ hp⟩

end Readers

end Muslimtify.JsonLayout
