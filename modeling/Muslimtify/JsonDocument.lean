import Muslimtify.JsonReader

/-!
# What the reader returns on a well-formed object

A document is a list of members with their white space. Its values are strings,
blocks (the source text of an object or an array) and tokens. The text of a
block is `Nested`: its strings are closed and its brackets match by kind, which
is all the scanners need to step over it. The main result says that `getValue`
returns the value of the first member whose key matches, for every such object.
-/
namespace Muslimtify.JsonDocument
open CText CDouble JsonReader

/-- Raw text between the quotes of a string token. -/
inductive Raw : CString → Prop
  | nil : Raw []
  | plain {c : UInt8} {s : CString} : c ≠ quote → c ≠ backslash → Raw s → Raw (c :: s)
  | escape {e : UInt8} {s : CString} : Raw s → Raw (backslash :: e :: s)

theorem Raw.append {s t : CString} (hs : Raw s) (ht : Raw t) : Raw (s ++ t) := by
  induction hs with
  | nil => exact ht
  | plain hq hb _ ih => exact .plain hq hb ih
  | escape _ ih => exact .escape ih

private theorem scanString_plain {c : UInt8} (hq : c ≠ quote) (hb : c ≠ backslash) (s : CString) :
    scanString (c :: s) = (scanString s).map fun p => (c :: p.1, p.2) := by
  rw [scanString.eq_def]
  simp [hq, hb]

theorem scanString_raw {raw : CString} (h : Raw raw) (s : CString) :
    scanString (raw ++ quote :: s) = some (raw, s) := by
  induction h with
  | nil =>
      rw [List.nil_append, scanString.eq_def]
      simp [quote, backslash]
  | plain hq hb _ ih => rw [List.cons_append, scanString_plain hq hb, ih]; rfl
  | escape _ ih =>
      rw [List.cons_append, List.cons_append, scanString.eq_def]
      simp [ih]

theorem rawValue_raw {raw : CString} (h : Raw raw) (s : CString) :
    rawValue (raw ++ quote :: s) = raw := by
  induction h with
  | nil =>
      rw [List.nil_append, rawValue.eq_def]
      simp
  | plain hq hb _ ih =>
      rw [List.cons_append, rawValue.eq_def]
      simp [hq, hb, ih]
  | escape _ ih =>
      rw [List.cons_append, List.cons_append, rawValue.eq_def]
      simp [ih, show backslash ≠ quote by decide]

/-- A byte that is neither a quote nor a bracket. -/
def isPlain (c : UInt8) : Bool :=
  c ≠ quote && c ≠ objectOpen && c ≠ objectClose && c ≠ arrayOpen && c ≠ arrayClose

/-- Closed strings and brackets matched by kind, at most `n` deep. -/
inductive Nested : ℕ → CString → Prop
  | nil {n : ℕ} : Nested n []
  | plain {n : ℕ} {c : UInt8} {s : CString} : isPlain c = true → Nested n s → Nested n (c :: s)
  | string {n : ℕ} {raw s : CString} : Raw raw → Nested n s →
      Nested n (quote :: (raw ++ quote :: s))
  | object {n : ℕ} {v s : CString} : Nested n v → Nested (n + 1) s →
      Nested (n + 1) (objectOpen :: (v ++ objectClose :: s))
  | array {n : ℕ} {v s : CString} : Nested n v → Nested (n + 1) s →
      Nested (n + 1) (arrayOpen :: (v ++ arrayClose :: s))

theorem Nested.append {n : ℕ} {s t : CString} (hs : Nested n s) (ht : Nested n t) :
    Nested n (s ++ t) := by
  induction hs with
  | nil => exact ht
  | plain hc _ ih => exact .plain hc (ih ht)
  | string hr _ ih => simpa using Nested.string hr (ih ht)
  | object hv _ _ ih => simpa using Nested.object hv (ih ht)
  | array hv _ _ ih => simpa using Nested.array hv (ih ht)

theorem Nested.succ {n : ℕ} {s : CString} (hs : Nested n s) : Nested (n + 1) s := by
  induction hs with
  | nil => exact .nil
  | plain hc _ ih => exact .plain hc ih
  | string hr _ ih => exact .string hr ih
  | object _ _ ih₁ ih₂ => exact .object ih₁ ih₂
  | array _ _ ih₁ ih₂ => exact .array ih₁ ih₂

theorem Nested.mono {n m : ℕ} {s : CString} (hs : Nested n s) (h : n ≤ m) : Nested m s := by
  induction h with
  | refl => exact hs
  | step _ ih => exact ih.succ

theorem nested_of_plain {s : CString} (h : ∀ c ∈ s, isPlain c = true) (n : ℕ) : Nested n s := by
  induction s with
  | nil => exact .nil
  | cons c s ih => exact .plain (h c (by simp)) (ih fun d hd => h d (by simp [hd]))

section Scanning
variable {key : CString}

theorem scanString_length {s raw rest : CString} (h : scanString s = some (raw, rest)) :
    rest.length < s.length := by
  fun_induction scanString s generalizing raw rest with
  | case1 => cases h
  | case2 => cases h
  | case3 e es ih =>
      obtain ⟨p, hp, he⟩ := Option.map_eq_some_iff.mp h
      obtain ⟨-, rfl⟩ := Prod.mk.inj he
      have : p.2.length < _ := ih hp
      simp only [List.length_cons]
      omega
  | case4 cs _ =>
      obtain ⟨-, rfl⟩ := Prod.mk.inj (Option.some.inj h)
      simp
  | case5 c cs _ _ ih =>
      obtain ⟨p, hp, he⟩ := Option.map_eq_some_iff.mp h
      obtain ⟨-, rfl⟩ := Prod.mk.inj he
      have : p.2.length < _ := ih hp
      simp only [List.length_cons]
      omega

/-- More steps than the text has bytes change nothing. -/
theorem findKeyLoop_fuel (n m : ℕ) (s : CString) (d : ℤ) (hn : s.length ≤ n) (hm : s.length ≤ m) :
    findKeyLoop key n s d = findKeyLoop key m s d := by
  induction n generalizing m s d with
  | zero =>
      obtain rfl := List.length_eq_zero_iff.mp (Nat.le_zero.mp hn)
      cases m <;> rfl
  | succ n ih =>
      match m, s, hm with
      | 0, [], _ => rfl
      | 0, c :: s, hm => simp at hm
      | m + 1, [], _ => rfl
      | m + 1, c :: s, hm =>
          simp only [List.length_cons] at hn hm
          have hs : ∀ d, findKeyLoop key n s d = findKeyLoop key m s d :=
            fun d => ih m s d (by omega) (by omega)
          simp only [findKeyLoop, hs]
          split_ifs
          · cases h : scanString s with
            | none => rfl
            | some p =>
                have hl : p.2.length < s.length := scanString_length h
                simp only [ih m p.2 d (by omega) (by omega)]
          all_goals rfl

/-- The scan at depth `d`, free of the step bound. -/
def scan (key s : CString) (d : ℤ) : Option CString := findKeyLoop key s.length s d

theorem scan_plain {c : UInt8} (hc : isPlain c = true) (s : CString) (d : ℤ) :
    scan key (c :: s) d = scan key s d := by
  simp only [isPlain, Bool.and_eq_true, decide_eq_true_eq] at hc
  obtain ⟨⟨⟨⟨hq, ho⟩, ho'⟩, ha⟩, ha'⟩ := hc
  simp [scan, findKeyLoop, hq, ho, ho', ha, ha']

theorem scan_open {c : UInt8} (hc : c = objectOpen ∨ c = arrayOpen) (s : CString) {d : ℤ}
    (hd : d < depthLimit) : scan key (c :: s) d = scan key s (d + 1) := by
  have hq : c ≠ quote := by rcases hc with rfl | rfl <;> decide
  simp only [scan, List.length_cons, findKeyLoop, if_neg hq, if_pos hc.symm]
  rw [if_neg (by omega)]

theorem scan_close {c : UInt8} (hc : c = objectClose ∨ c = arrayClose) (s : CString) (d : ℤ) :
    scan key (c :: s) d = scan key s (d - 1) := by
  have hq : c ≠ quote := by rcases hc with rfl | rfl <;> decide
  have ho : ¬(c = arrayOpen ∨ c = objectOpen) := by rcases hc with rfl | rfl <;> decide
  simp only [scan, List.length_cons, findKeyLoop, if_neg hq, if_neg ho, if_pos hc.symm]

/-- A string token is compared with the key and stepped over, whatever it holds. -/
theorem scan_token {s raw rest : CString} (h : scanString s = some (raw, rest)) (d : ℤ) :
    scan key (quote :: s) d =
      if d = 1 ∧ (skipWhitespace rest).head? = some colon ∧ jsonSliceEquals raw key = true then
        some (skipWhitespace (skipWhitespace rest).tail)
      else scan key rest d := by
  simp only [scan, List.length_cons, findKeyLoop, if_true, h]
  rw [findKeyLoop_fuel _ rest.length rest d (scanString_length h).le le_rfl]

theorem scan_quote {raw : CString} (hr : Raw raw) (s : CString) (d : ℤ) :
    scan key (quote :: (raw ++ quote :: s)) d =
      if d = 1 ∧ (skipWhitespace s).head? = some colon ∧ jsonSliceEquals raw key = true then
        some (skipWhitespace (skipWhitespace s).tail)
      else scan key s d :=
  scan_token (scanString_raw hr s) d

theorem scan_string (key : CString) {raw : CString} (hr : Raw raw) (s : CString) {d : ℤ}
    (h : d ≠ 1 ∨ (skipWhitespace s).head? ≠ some colon ∨ jsonSliceEquals raw key = false) :
    scan key (quote :: (raw ++ quote :: s)) d = scan key s d := by
  rw [scan_quote hr, if_neg]
  rintro ⟨h₁, h₂, h₃⟩
  rcases h with h | h | h
  · exact h h₁
  · exact h h₂
  · rw [h] at h₃
    cases h₃

theorem scan_hit {raw : CString} (hr : Raw raw) {s t : CString}
    (hs : skipWhitespace s = colon :: t) (hk : jsonSliceEquals raw key = true) :
    scan key (quote :: (raw ++ quote :: s)) 1 = some (skipWhitespace t) := by
  rw [scan_quote hr, hs, if_pos ⟨rfl, rfl, hk⟩]
  rfl

theorem jsonFindKey_scan (key json : CString) : jsonFindKey key json = scan key json 0 := rfl

theorem scan_object (key s : CString) : scan key (objectOpen :: s) 0 = scan key s 1 :=
  scan_open (Or.inl rfl) s (by decide)

/-- Below the members of the object a nested text is stepped over. -/
theorem scan_nested {n : ℕ} {s : CString} (hs : Nested n s) (t : CString) {d : ℤ} (h₂ : 2 ≤ d)
    (hd : d + n ≤ depthLimit) : scan key (s ++ t) d = scan key t d := by
  induction hs generalizing t d with
  | nil => rfl
  | plain hc _ ih => rw [List.cons_append, scan_plain hc, ih t h₂ hd]
  | @string n raw s hr _ ih =>
      have h := scan_string key hr (s ++ t) (d := d) (Or.inl (by omega))
      simpa [ih t h₂ hd] using h
  | @object n v s _ _ ihv ihs =>
      push_cast at hd
      have hv := ihv (objectClose :: (s ++ t)) (d := d + 1) (by omega) (by omega)
      have hs := ihs t h₂ (by push_cast; omega)
      simp only [List.cons_append, List.append_assoc]
      rw [scan_open (Or.inl rfl) _ (by omega), hv, scan_close (Or.inl rfl),
        Int.add_sub_cancel, hs]
  | @array n v s _ _ ihv ihs =>
      push_cast at hd
      have hv := ihv (arrayClose :: (s ++ t)) (d := d + 1) (by omega) (by omega)
      have hs := ihs t h₂ (by push_cast; omega)
      simp only [List.cons_append, List.append_assoc]
      rw [scan_open (Or.inr rfl) _ (by omega), hv, scan_close (Or.inr rfl),
        Int.add_sub_cancel, hs]

end Scanning

section Matching

/-- The bracket scan cuts the text in two. -/
theorem matchLoop_split {op cl : UInt8} {t : CString} {d : ℤ} {inString escaped : Bool}
    {p : CString × CString} (h : matchLoop op cl t d inString escaped = some p) : t = p.1 ++ p.2 := by
  induction t generalizing d inString escaped p with
  | nil => cases h
  | cons c t ih =>
      have hgo : ∀ {d : ℤ} {inString escaped : Bool},
          (matchLoop op cl t d inString escaped).map (fun q => (c :: q.1, q.2)) = some p →
            c :: t = p.1 ++ p.2 := by
        intro d inString escaped hp
        obtain ⟨q, hq, rfl⟩ := Option.map_eq_some_iff.mp hp
        rw [ih hq]
        rfl
      rw [matchLoop] at h
      split_ifs at h
      all_goals first
        | exact hgo h
        | exact (Option.some.inj h) ▸ rfl

/-- Inside a string the bracket scan goes on to the closing quote. -/
theorem matchLoop_string {op cl : UInt8} {raw : CString} (hr : Raw raw) (s : CString) (d : ℤ) :
    matchLoop op cl (raw ++ quote :: s) d true false =
      (matchLoop op cl s d false false).map fun p => (raw ++ quote :: p.1, p.2) := by
  induction hr with
  | nil => simp [matchLoop, quote, backslash]
  | plain hq hb _ ih => simp [matchLoop, hq, hb, ih, Function.comp_def]
  | escape _ ih => simp [matchLoop, ih, Function.comp_def]

/-- The two bracket pairs of the format. -/
def IsPair (op cl : UInt8) : Prop :=
  op = objectOpen ∧ cl = objectClose ∨ op = arrayOpen ∧ cl = arrayClose

theorem IsPair.unique {o c c' : UInt8} (h : IsPair o c) (h' : IsPair o c') : c = c' := by
  rcases h with ⟨rfl, rfl⟩ | ⟨rfl, rfl⟩
  · rcases h' with ⟨-, rfl⟩ | ⟨h, -⟩
    · rfl
    · exact absurd h (by decide)
  · rcases h' with ⟨h, -⟩ | ⟨-, rfl⟩
    · exact absurd h (by decide)
    · rfl

/-- Closed strings and matched brackets, those that `op` opens at most `n` deep. -/
inductive Within (op : UInt8) : ℕ → CString → Prop
  | nil {n : ℕ} : Within op n []
  | plain {n : ℕ} {c : UInt8} {s : CString} : isPlain c = true → Within op n s →
      Within op n (c :: s)
  | string {n : ℕ} {raw s : CString} : Raw raw → Within op n s →
      Within op n (quote :: (raw ++ quote :: s))
  | same {n : ℕ} {cl : UInt8} {v s : CString} : IsPair op cl → Within op n v →
      Within op (n + 1) s → Within op (n + 1) (op :: (v ++ cl :: s))
  | other {n : ℕ} {o c : UInt8} {v s : CString} : IsPair o c → o ≠ op → Within op n v →
      Within op n s → Within op n (o :: (v ++ c :: s))

theorem Within.succ {op : UInt8} {n : ℕ} {s : CString} (hs : Within op n s) :
    Within op (n + 1) s := by
  induction hs with
  | nil => exact .nil
  | plain hc _ ih => exact .plain hc ih
  | string hr _ ih => exact .string hr ih
  | same hp _ _ ihv ihs => exact .same hp ihv ihs
  | other hp hne _ _ ihv ihs => exact .other hp hne ihv ihs

/-- Brackets of one kind nest no deeper than all of them. -/
theorem Nested.within {n : ℕ} {s : CString} (hs : Nested n s) (op : UInt8) : Within op n s := by
  induction hs with
  | nil => exact .nil
  | plain hc _ ih => exact .plain hc ih
  | string hr _ ih => exact .string hr ih
  | object _ _ ihv ihs =>
      by_cases h : objectOpen = op
      · subst h
        exact .same (Or.inl ⟨rfl, rfl⟩) ihv ihs
      · exact .other (Or.inl ⟨rfl, rfl⟩) h ihv.succ ihs
  | array _ _ ihv ihs =>
      by_cases h : arrayOpen = op
      · subst h
        exact .same (Or.inr ⟨rfl, rfl⟩) ihv ihs
      · exact .other (Or.inr ⟨rfl, rfl⟩) h ihv.succ ihs

section Steps
variable {op cl c : UInt8} {s : CString} {d : ℤ}

theorem matchLoop_skip (hq : c ≠ quote) (ho : c ≠ op) (hc : c ≠ cl) :
    matchLoop op cl (c :: s) d false false =
      (matchLoop op cl s d false false).map fun p => (c :: p.1, p.2) := by
  simp [matchLoop, hq, ho, hc]

theorem matchLoop_open (hp : IsPair op cl) (hd : d < depthLimit) :
    matchLoop op cl (op :: s) d false false =
      (matchLoop op cl s (d + 1) false false).map fun p => (op :: p.1, p.2) := by
  have hq : op ≠ quote := by rcases hp with ⟨rfl, rfl⟩ | ⟨rfl, rfl⟩ <;> decide
  simp [matchLoop, hq, show ¬depthLimit < d + 1 by omega]

theorem matchLoop_close (hp : IsPair op cl) (hd : 1 < d) :
    matchLoop op cl (cl :: s) d false false =
      (matchLoop op cl s (d - 1) false false).map fun p => (cl :: p.1, p.2) := by
  have hne : cl ≠ quote ∧ cl ≠ op := by
    rcases hp with ⟨rfl, rfl⟩ | ⟨rfl, rfl⟩ <;> decide
  simp [matchLoop, hne, show d - 1 ≠ 0 by omega]

theorem matchLoop_plain (hp : IsPair op cl) (hc : isPlain c = true) :
    matchLoop op cl (c :: s) d false false =
      (matchLoop op cl s d false false).map fun p => (c :: p.1, p.2) := by
  simp only [isPlain, Bool.and_eq_true, decide_eq_true_eq] at hc
  rcases hp with ⟨rfl, rfl⟩ | ⟨rfl, rfl⟩
  · exact matchLoop_skip hc.1.1.1.1 hc.1.1.1.2 hc.1.1.2
  · exact matchLoop_skip hc.1.1.1.1 hc.1.2 hc.2

theorem matchLoop_quote {raw : CString} (hr : Raw raw) :
    matchLoop op cl (quote :: (raw ++ quote :: s)) d false false =
      (matchLoop op cl s d false false).map fun p => (quote :: (raw ++ quote :: p.1), p.2) := by
  rw [matchLoop]
  simp only [Bool.false_eq_true, if_false, if_true, matchLoop_string hr]
  simp [Function.comp_def]

/-- A bracket of the other kind is no more to the scan than a plain byte. -/
theorem matchLoop_other (hp : IsPair op cl) {o : UInt8} (ho : IsPair o c) (hne : o ≠ op)
    {b : UInt8} (hb : b = o ∨ b = c) :
    matchLoop op cl (b :: s) d false false =
      (matchLoop op cl s d false false).map fun p => (b :: p.1, p.2) := by
  have hall : b ≠ quote ∧ b ≠ op ∧ b ≠ cl := by
    rcases hp with ⟨rfl, rfl⟩ | ⟨rfl, rfl⟩ <;> rcases ho with ⟨rfl, rfl⟩ | ⟨rfl, rfl⟩ <;>
      rcases hb with rfl | rfl <;> first | exact absurd rfl hne | decide
  exact matchLoop_skip hall.1 hall.2.1 hall.2.2

end Steps

/-- The bracket scan steps over a text in which its own kind is not too deep. -/
theorem matchLoop_within {op cl : UInt8} (hp : IsPair op cl) {n : ℕ} {s : CString}
    (hs : Within op n s) (t : CString) {d : ℤ} (h₁ : 1 ≤ d) (hd : d + n ≤ depthLimit) :
    matchLoop op cl (s ++ t) d false false =
      (matchLoop op cl t d false false).map fun p => (s ++ p.1, p.2) := by
  induction hs generalizing t d with
  | nil => simp
  | plain hc _ ih =>
      rw [List.cons_append, matchLoop_plain hp hc, ih t h₁ hd]
      simp [Function.comp_def]
  | @string n raw s hr _ ih =>
      simp only [List.cons_append, List.append_assoc]
      rw [matchLoop_quote hr, ih t h₁ hd]
      simp [Function.comp_def]
  | @same n c v s hp' _ _ ihv ihs =>
      obtain rfl := hp.unique hp'
      push_cast at hd
      simp only [List.cons_append, List.append_assoc]
      rw [matchLoop_open hp (by omega), ihv _ (by omega) (by omega), matchLoop_close hp (by omega),
        Int.add_sub_cancel, ihs t h₁ (by push_cast; omega)]
      simp [Function.comp_def]
  | @other n o c v s ho hne _ _ ihv ihs =>
      simp only [List.cons_append, List.append_assoc]
      rw [matchLoop_other hp ho hne (Or.inl rfl), ihv _ h₁ hd,
        matchLoop_other hp ho hne (Or.inr rfl), ihs t h₁ hd]
      simp [Function.comp_def]

/-- A whole block is found up to its own closing bracket. -/
theorem findMatchingBracket_within {op cl : UInt8} (hp : IsPair op cl) {n : ℕ} {s : CString}
    (hs : Within op n s) (hn : (n : ℤ) + 1 ≤ depthLimit) (t : CString) :
    findMatchingBracket (op :: (s ++ cl :: t)) op = some (op :: (s ++ [cl]), t) := by
  have hcl : (if op = objectOpen then objectClose else arrayClose) = cl := by
    rcases hp with ⟨rfl, rfl⟩ | ⟨rfl, rfl⟩ <;> rfl
  have hne : cl ≠ quote ∧ cl ≠ op := by
    rcases hp with ⟨rfl, rfl⟩ | ⟨rfl, rfl⟩ <;> decide
  have hlast : matchLoop op cl (cl :: t) 1 false false = some ([cl], t) := by
    simp [matchLoop, hne]
  simp only [findMatchingBracket, if_true, hcl]
  rw [matchLoop_within hp hs _ le_rfl (by omega), hlast]
  simp

theorem findMatchingBracket_nested {op cl : UInt8} (hp : IsPair op cl) {n : ℕ} {s : CString}
    (hs : Nested n s) (hn : (n : ℤ) + 1 ≤ depthLimit) (t : CString) :
    findMatchingBracket (op :: (s ++ cl :: t)) op = some (op :: (s ++ [cl]), t) :=
  findMatchingBracket_within hp (hs.within op) hn t

end Matching

section Objects

/-- White space only. -/
def Blank (w : CString) : Prop := ∀ c ∈ w, isspace c = true

theorem isPlain_of_isspace : ∀ c : UInt8, isspace c = true → isPlain c = true :=
  forall_byte (by decide +kernel)

theorem Blank.nested {w : CString} (hw : Blank w) (n : ℕ) : Nested n w :=
  nested_of_plain (fun c hc => isPlain_of_isspace c (hw c hc)) n

theorem scan_blank {key w : CString} (hw : Blank w) (s : CString) (d : ℤ) :
    scan key (w ++ s) d = scan key s d := by
  induction w with
  | nil => rfl
  | cons c w ih =>
      rw [List.cons_append, scan_plain (isPlain_of_isspace c (hw c (by simp)))]
      exact ih fun e he => hw e (by simp [he])

/-- The text of a block is kept without its outer brackets. -/
inductive Value where
  | string (raw : CString)
  | object (body : CString)
  | array (body : CString)
  | token (text : CString)

namespace Value

def text : Value → CString
  | string raw => quote :: (raw ++ [quote])
  | object body => objectOpen :: (body ++ [objectClose])
  | array body => arrayOpen :: (body ++ [arrayClose])
  | token text => text

/-- What `getValue` hands out for the value. -/
def result : Value → CString
  | string raw => unescape raw
  | v => v.text

/-- A byte of a number, `true`, `false` or `null`. -/
def isTokenByte (c : UInt8) : Bool := isPlain c && !endsToken c && c ≠ colon

/-- Well formed, blocks nested at most `n` deep inside. -/
def Valid (n : ℕ) : Value → Prop
  | string raw => Raw raw
  | object body => Nested n body
  | array body => Nested n body
  | token text => text ≠ [] ∧ ∀ c ∈ text, isTokenByte c = true

theorem Valid.mono {n m : ℕ} {v : Value} (hv : v.Valid n) (h : n ≤ m) : v.Valid m := by
  cases v with
  | string raw => exact hv
  | object body => exact Nested.mono hv h
  | array body => exact Nested.mono hv h
  | token text => exact hv

theorem Valid.nested {n : ℕ} {v : Value} (hv : v.Valid n) : Nested (n + 1) v.text := by
  cases v with
  | string raw => exact .string hv .nil
  | object body => exact .object hv .nil
  | array body => exact .array hv .nil
  | token text =>
      refine nested_of_plain (fun c hc => ?_) _
      have h := hv.2 c hc
      simp only [isTokenByte, Bool.and_eq_true] at h
      exact h.1.1

private theorem not_space_of_token : ∀ c : UInt8, isTokenByte c = true →
    isspace c = false ∧ c ≠ quote ∧ c ≠ objectOpen ∧ c ≠ arrayOpen ∧ endsToken c = false :=
  forall_byte (by decide +kernel)

/-- A value begins with its own first byte, not with white space. -/
theorem Valid.skip {n : ℕ} {v : Value} (hv : v.Valid n) (s : CString) :
    skipWhitespace (v.text ++ s) = v.text ++ s := by
  cases v with
  | string raw => exact skipWhitespace_of_head (by decide) _
  | object body => exact skipWhitespace_of_head (by decide) _
  | array body => exact skipWhitespace_of_head (by decide) _
  | token text =>
      obtain ⟨c, t, rfl⟩ := List.exists_cons_of_ne_nil hv.1
      exact skipWhitespace_of_head (not_space_of_token c (hv.2 c (by simp))).1 _

/-- A byte that follows a member inside an object. -/
def endsMember (c : UInt8) : Bool := c = comma || c = objectClose

private theorem endsMember_cases {c : UInt8} (hc : endsMember c = true) :
    c = comma ∨ c = objectClose := by
  simpa [endsMember] using hc

theorem extract {v : Value} (hv : v.Valid 98) {w : CString} (hw : Blank w) {c : UInt8}
    (hc : endsMember c = true) (s : CString) :
    jsonExtractValue (v.text ++ (w ++ c :: s)) = some v.result := by
  rw [jsonExtractValue, hv.skip]
  cases v with
  | string raw =>
      have h : rawValue (raw ++ quote :: (w ++ c :: s)) = raw := rawValue_raw hv _
      simp only [text, List.cons_append, List.append_assoc, List.nil_append, if_true, h]
      rfl
  | object body =>
      have h := findMatchingBracket_nested (s := body) (Or.inl ⟨rfl, rfl⟩) hv (by decide)
        (w ++ c :: s)
      simp only [text, List.cons_append, List.append_assoc, List.nil_append, h]
      rfl
  | array body =>
      have h := findMatchingBracket_nested (s := body) (Or.inr ⟨rfl, rfl⟩) hv (by decide)
        (w ++ c :: s)
      simp only [text, List.cons_append, List.append_assoc, List.nil_append, h]
      rfl
  | token t =>
      obtain ⟨d, t, rfl⟩ := List.exists_cons_of_ne_nil hv.1
      have hd := not_space_of_token d (hv.2 d (by simp))
      have hall : ∀ e ∈ d :: t, (!endsToken e) = true := fun e he => by
        simp [(not_space_of_token e (hv.2 e he)).2.2.2.2]
      have hstop : ∃ e u, w ++ c :: s = e :: u ∧ endsToken e = true := by
        cases w with
        | nil =>
            refine ⟨c, s, rfl, ?_⟩
            rcases endsMember_cases hc with rfl | rfl <;> decide
        | cons e w => exact ⟨e, w ++ c :: s, rfl, by simp [endsToken, hw e (by simp)]⟩
      obtain ⟨e, u, he, hend⟩ := hstop
      have ho : ¬(d = objectOpen ∨ d = arrayOpen) := by simp [hd.2.2.1, hd.2.2.2.1]
      simp only [text, result, he, List.cons_append, if_neg hd.2.1, if_neg ho]
      rw [← List.cons_append, List.takeWhile_append_of_pos hall]
      simp [hend]

/-- A value of the object itself is stepped over: a string is no key, because
no colon follows it. -/
theorem scan_value {key : CString} {v : Value} (hv : v.Valid 98) {w : CString} (hw : Blank w)
    {c : UInt8} (hc : endsMember c = true) (s : CString) :
    scan key (v.text ++ (w ++ c :: s)) 1 = scan key (c :: s) 1 := by
  cases v with
  | string raw =>
      have hcolon : (skipWhitespace (w ++ c :: s)).head? ≠ some colon := by
        have hsp : isspace c = false := by rcases endsMember_cases hc with rfl | rfl <;> decide
        rw [skipWhitespace_append hw, skipWhitespace_of_head hsp]
        rcases endsMember_cases hc with rfl | rfl <;> simp [comma, colon, objectClose]
      simp only [text, List.cons_append, List.append_assoc, List.nil_append]
      rw [scan_string _ hv _ (Or.inr (Or.inl hcolon)), scan_blank hw]
  | object body =>
      simp only [text, List.cons_append, List.append_assoc, List.nil_append]
      rw [scan_open (Or.inl rfl) _ (by decide), scan_nested hv _ (by decide) (by decide),
        scan_close (Or.inl rfl)]
      exact scan_blank hw _ _
  | array body =>
      simp only [text, List.cons_append, List.append_assoc, List.nil_append]
      rw [scan_open (Or.inr rfl) _ (by decide), scan_nested hv _ (by decide) (by decide),
        scan_close (Or.inr rfl)]
      exact scan_blank hw _ _
  | token t =>
      have hplain : ∀ (t u : CString), (∀ c ∈ t, isTokenByte c = true) →
          scan key (t ++ u) 1 = scan key u 1 := by
        intro t u ht
        induction t with
        | nil => rfl
        | cons d t ih =>
            have hd := ht d (by simp)
            simp only [isTokenByte, Bool.and_eq_true] at hd
            rw [List.cons_append, scan_plain hd.1.1]
            exact ih fun e he => ht e (by simp [he])
      rw [text, hplain t _ hv.2, scan_blank hw]

end Value

/-- One member of an object with the white space around its parts. -/
structure Member where
  before : CString := []
  key : CString
  afterKey : CString := []
  beforeValue : CString := [0x20]
  value : Value
  after : CString := []

namespace Member

def text (m : Member) : CString :=
  m.before ++ quote :: (m.key ++ quote :: (m.afterKey ++ colon ::
    (m.beforeValue ++ (m.value.text ++ m.after))))

structure Valid (n : ℕ) (m : Member) : Prop where
  before : Blank m.before
  key : Raw m.key
  afterKey : Blank m.afterKey
  beforeValue : Blank m.beforeValue
  value : m.value.Valid n
  after : Blank m.after

theorem Valid.mono {n k : ℕ} {m : Member} (hm : m.Valid n) (h : n ≤ k) : m.Valid k :=
  ⟨hm.before, hm.key, hm.afterKey, hm.beforeValue, hm.value.mono h, hm.after⟩

theorem Valid.nested {n : ℕ} {m : Member} (hm : m.Valid n) : Nested (n + 1) m.text := by
  have hrest := (hm.beforeValue.nested (n + 1)).append
    (hm.value.nested.append (hm.after.nested (n + 1)))
  have hcolon := (hm.afterKey.nested (n + 1)).append (Nested.plain (c := colon) rfl hrest)
  simpa [text] using (hm.before.nested (n + 1)).append (Nested.string hm.key hcolon)

private theorem skip_colon {m : Member} {n : ℕ} (hm : m.Valid n) (s : CString) :
    skipWhitespace (m.afterKey ++ colon :: s) = colon :: s := by
  rw [skipWhitespace_append hm.afterKey, skipWhitespace_of_head (by decide)]

private theorem text_split (m : Member) (s : CString) :
    m.text ++ s = m.before ++ quote :: (m.key ++ quote :: (m.afterKey ++ colon ::
      (m.beforeValue ++ (m.value.text ++ (m.after ++ s))))) := by
  simp [text]

theorem scan_found {key : CString} {m : Member} {n : ℕ} (hm : m.Valid n)
    (hk : jsonSliceEquals m.key key = true) (s : CString) :
    scan key (m.text ++ s) 1 = some (m.value.text ++ (m.after ++ s)) := by
  rw [text_split, scan_blank hm.before, scan_hit hm.key (skip_colon hm _) hk,
    skipWhitespace_append hm.beforeValue, hm.value.skip]

theorem scan_other {key : CString} {m : Member} (hm : m.Valid 98)
    (hk : jsonSliceEquals m.key key = false) {c : UInt8} (hc : Value.endsMember c = true)
    (s : CString) : scan key (m.text ++ c :: s) 1 = scan key (c :: s) 1 := by
  rw [text_split, scan_blank hm.before, scan_string _ hm.key _ (Or.inr (Or.inr hk)),
    scan_blank hm.afterKey, scan_plain (by decide), scan_blank hm.beforeValue,
    Value.scan_value hm.value hm.after hc]

/-- The scan stops at the value of a matching member and steps over any other. -/
theorem scan_member {key : CString} {m : Member} (hm : m.Valid 98) {c : UInt8}
    (hc : Value.endsMember c = true) (s : CString) :
    (scan key (m.text ++ c :: s) 1).bind jsonExtractValue =
      if jsonSliceEquals m.key key = true then some m.value.result
      else (scan key (c :: s) 1).bind jsonExtractValue := by
  split_ifs with hk
  · rw [scan_found hm hk]
    exact Value.extract hm.value hm.after hc s
  · rw [scan_other hm (by simpa using hk) hc]

end Member

def membersText : List Member → CString
  | [] => []
  | [m] => m.text
  | m :: ms => m.text ++ comma :: membersText ms

def objectText (ms : List Member) : CString := objectOpen :: (membersText ms ++ [objectClose])

theorem nested_members {n : ℕ} {ms : List Member} (h : ∀ m ∈ ms, m.Valid n) :
    Nested (n + 1) (membersText ms) := by
  induction ms with
  | nil => exact .nil
  | cons m ms ih =>
      have hm := (h m (by simp)).nested
      have hms := ih fun k hk => h k (by simp [hk])
      cases ms with
      | nil => exact hm
      | cons k ms => exact hm.append (.plain (by decide) hms)

/-- What `getValue` returns for a key among the members. -/
def lookup (key : CString) (ms : List Member) : Option CString :=
  (ms.find? fun m => jsonSliceEquals m.key key).map fun m => m.value.result

private theorem scan_members {key : CString} {ms : List Member} (h : ∀ m ∈ ms, m.Valid 98)
    {tail : CString} (ht : Blank tail) :
    (scan key (membersText ms ++ objectClose :: tail) 1).bind jsonExtractValue =
      lookup key ms := by
  have hend : scan key (objectClose :: tail) 1 = none := by
    rw [scan_close (Or.inl rfl), ← List.append_nil tail, scan_blank ht]
    rfl
  induction ms with
  | nil => simp [membersText, lookup, hend]
  | cons m ms ih =>
      have hm := h m (by simp)
      have hms := ih fun k hk => h k (by simp [hk])
      have hfind : lookup key (m :: ms) =
          if jsonSliceEquals m.key key = true then some m.value.result else lookup key ms := by
        by_cases hk : jsonSliceEquals m.key key = true <;> simp [lookup, hk]
      rw [hfind]
      cases ms with
      | nil =>
          rw [membersText, Member.scan_member hm (by decide), hend]
          simp [lookup]
      | cons k ms =>
          rw [membersText, List.append_assoc, List.cons_append,
            Member.scan_member hm (by decide), scan_plain (by decide), hms]
          simp

/-- `getValue` returns the value of the first member of that name, whatever
the other members hold, and nothing when there is none. -/
theorem getValue_members {ms : List Member} (h : ∀ m ∈ ms, m.Valid 98) (key : CString)
    {lead inner tail : CString} (hl : Blank lead) (hi : Blank inner) (ht : Blank tail) :
    getValue key (lead ++ objectOpen :: (inner ++ (membersText ms ++ objectClose :: tail))) =
      lookup key ms := by
  rw [getValue, jsonFindKey_scan, scan_blank hl, scan_object, scan_blank hi]
  exact scan_members h ht

theorem getValue_object {ms : List Member} (h : ∀ m ∈ ms, m.Valid 98) (key : CString)
    {lead tail : CString} (hl : Blank lead) (ht : Blank tail) :
    getValue key (lead ++ (objectText ms ++ tail)) = lookup key ms := by
  have hempty : Blank [] := List.forall_mem_nil _
  simpa [objectText] using getValue_members h key hl hempty ht

end Objects

section Strings

/-- A way to write each byte between quotes that the copy loop undoes. -/
structure Escapes (escape : UInt8 → CString) : Prop where
  raw : ∀ c, Raw (escape c)
  undone : ∀ {c : UInt8}, c ≠ 0 → ∀ s, copyLoop (escape c ++ s) 0 = c :: copyLoop s 0

theorem Escapes.flatMap_raw {escape : UInt8 → CString} (h : Escapes escape) (s : CString) :
    Raw (s.flatMap escape) := by
  induction s with
  | nil => exact .nil
  | cons c s ih => exact (h.raw c).append ih

theorem Escapes.unescape_flatMap {escape : UInt8 → CString} (h : Escapes escape) {s : CString}
    (hs : NulFree s) : unescape (s.flatMap escape) = s := by
  induction s with
  | nil => rfl
  | cons c s ih =>
      rw [unescape, List.flatMap_cons, h.undone (hs c (by simp))]
      exact congrArg (c :: ·) (ih fun d hd => hs d (by simp [hd]))

private theorem hexByte_spec : ∀ d < 16, jsonHexDigitValue (hexByte d) = some d ∧
    hexByte d ≠ quote ∧ hexByte d ≠ backslash := by decide

private theorem nibbles (c : UInt8) : c.toNat / 16 < 16 ∧ c.toNat % 16 < 16 := by
  have := c.toNat_lt
  omega

/-- The six bytes for a control character. -/
def controlEscape (c : UInt8) : CString :=
  [backslash, letterU, 0x30, 0x30, hexByte (c.toNat / 16), hexByte (c.toNat % 16)]

theorem controlEscape_raw (c : UInt8) : Raw (controlEscape c) := by
  have hi := hexByte_spec _ (nibbles c).1
  have lo := hexByte_spec _ (nibbles c).2
  exact .escape (.plain (by decide) (by decide) (.plain (by decide) (by decide)
    (.plain hi.2.1 hi.2.2 (.plain lo.2.1 lo.2.2 .nil))))

theorem copyLoop_control {c : UInt8} (h₀ : c ≠ 0) (hc : c < 0x20) (s : CString) :
    copyLoop (controlEscape c ++ s) 0 = c :: copyLoop s 0 := by
  have hi := (hexByte_spec _ (nibbles c).1).1
  have lo := (hexByte_spec _ (nibbles c).2).1
  have hlt : c.toNat < 0x20 := by simpa [UInt8.lt_iff_toNat_lt] using hc
  have hpos : c.toNat ≠ 0 := fun h => h₀ (UInt8.toNat_inj.mp h)
  have hread : jsonReadHex4 (0x30 :: 0x30 :: hexByte (c.toNat / 16) ::
      hexByte (c.toNat % 16) :: s) = some c.toNat := by
    simp only [jsonReadHex4, hi, lo, show jsonHexDigitValue 0x30 = some 0 by decide]
    simp only [Option.bind_eq_bind, Option.bind_some, Option.pure_def, Option.some.injEq]
    omega
  have hdecode : decodeUnit c.toNat = [c] := by
    rw [decodeUnit, if_neg (by omega), jsonUtf8Encode, if_pos (by omega)]
    simp
  have hunit : copyUnit backslash (letterU :: 0x30 :: 0x30 :: hexByte (c.toNat / 16) ::
      hexByte (c.toNat % 16) :: s) = ([c], 5) := by
    simp only [copyUnit, if_true, show simpleEscape letterU = none by decide, hread, hdecode]
    rw [if_neg (by omega)]
  simp only [controlEscape, List.cons_append, List.nil_append, copyLoop, hunit]

theorem copyLoop_byte {c : UInt8} (hb : c ≠ backslash) (s : CString) :
    copyLoop (c :: s) 0 = c :: copyLoop s 0 := by
  simp [copyLoop, copyUnit, hb]

/-- Each byte is written so that the copy loop gives it back. -/
theorem escapeByte_escapes : Escapes escapeByte where
  raw c := by
    unfold escapeByte
    split_ifs with h₁ h₂
    iterate 7 exact .escape .nil
    · exact controlEscape_raw c
    · exact .plain h₁ h₂ .nil
  undone {c} hc s := by
    unfold escapeByte
    split_ifs with h₁ h₂ h₃ h₄ h₅ h₆ h₇ h₈
    any_goals
      subst c
      rfl
    · exact copyLoop_control hc h₈ s
    · exact copyLoop_byte h₂ s

theorem escapeBytes_raw (s : CString) : Raw (escapeBytes s) := escapeByte_escapes.flatMap_raw s

theorem unescape_escapeBytes {s : CString} (hs : NulFree s) : unescape (escapeBytes s) = s :=
  escapeByte_escapes.unescape_flatMap hs

/-- Of the bytes of an escaped string none is more than six. -/
theorem escapeBytes_length (s : CString) : (escapeBytes s).length ≤ 6 * s.length := by
  have hone : ∀ c, (escapeByte c).length ≤ 6 := by
    intro c
    unfold escapeByte
    split_ifs <;> simp
  induction s with
  | nil => rfl
  | cons c s ih =>
      have := hone c
      rw [escapeBytes, List.flatMap_cons, ← escapeBytes, List.length_append, List.length_cons]
      omega

theorem stripBytes_iff {bs key rest : CString} :
    stripBytes bs key = some rest ↔ key = bs ++ rest := by
  induction bs generalizing key with
  | nil => simp [stripBytes]
  | cons b bs ih =>
      cases key with
      | nil => simp [stripBytes]
      | cons k key =>
          by_cases hk : k = b
          · simp [stripBytes, hk, ih]
          · simp [stripBytes, hk]

theorem compareLoop_drop (s : CString) (m : ℕ) (key : CString) :
    compareLoop s m key = compareLoop (s.drop m) 0 key := by
  induction s generalizing m with
  | nil => cases m <;> simp [compareLoop]
  | cons c s ih =>
      cases m with
      | zero => rfl
      | succ m => rw [compareLoop, ih, List.drop_succ_cons]

end Strings

end Muslimtify.JsonDocument
