import Muslimtify.CMemory
import Muslimtify.JsonDocument

/-!
# The reader over indices

`get_value` as it runs over a terminated array: cursors are indices, every byte
is loaded, every byte of a result is stored into the buffer that was allocated
for it, and the depth counters are `int`s. The loops are given as many steps as
the array has bytes.

On every string the run ends without a fault, with what the reader returns. The
case to see is the copy of a string: a turn of its loop stores no more bytes
than it consumes, whatever escape is cut off where, so the buffer of one byte
more than the raw text holds the result and its zero.
-/
namespace Muslimtify.JsonMemory
open CText JsonReader JsonDocument CMemory

section Code
variable (mem : CString)

/-- `skip_whitespace` -/
def skipWhitespaceAt : ℕ → ℕ → Checked ℕ
  | 0, _ => .error .outOfSteps
  | n + 1, cursor => do
      let c ← load mem cursor
      if c ≠ 0 ∧ isspace c = true then skipWhitespaceAt n (cursor + 1) else pure cursor

/-- The digits that `json_read_hex4` and `json_slice_equals` read. -/
def hexLoop : ℕ → ℕ → ℕ → Checked (Option ℕ)
  | 0, _, value => pure (some value)
  | n + 1, p, value => do
      let c ← load mem p
      match jsonHexDigitValue c with
      | none => pure none
      | some digit => hexLoop n (p + 1) (value * 16 + digit)

def jsonReadHex4At (p stop : ℕ) : Checked (Option ℕ) :=
  if stop < p + 4 then pure none else hexLoop mem 4 p 0

/-- One turn of the loop of `json_slice_equals`: the bytes to compare and the
cursor behind them. -/
def compareUnitAt (cursor stop : ℕ) : Checked (Option (CString × ℕ)) := do
  let c ← load mem cursor
  if c = backslash then
    if stop ≤ cursor + 1 then pure none
    else do
      let e ← load mem (cursor + 1)
      match simpleEscape e with
      | some b => pure (some ([b], cursor + 2))
      | none =>
          if e = letterU then
            if stop < cursor + 6 then pure none
            else do
              let value ← hexLoop mem 4 (cursor + 2) 0
              pure ((value.bind jsonUtf8Encode).map fun bs => (bs, cursor + 6))
          else pure none
  else pure (some ([c], cursor + 1))

/-- The inner loop of `json_slice_equals` over the key. -/
def stripBytesAt (key : CString) : CString → ℕ → Checked (Option ℕ)
  | [], rhs => pure (some rhs)
  | b :: bs, rhs =>
      if key.length ≤ rhs then pure none
      else do
        let k ← load (array key) rhs
        if k = b then stripBytesAt key bs (rhs + 1) else pure none

def jsonSliceEqualsAt (key : CString) : ℕ → ℕ → ℕ → ℕ → Checked Bool
  | 0, _, _, _ => .error .outOfSteps
  | n + 1, cursor, stop, rhs =>
      if cursor < stop ∧ rhs < key.length then do
        let unit ← compareUnitAt mem cursor stop
        match unit with
        | none => pure false
        | some (bs, cursor) => do
            let stripped ← stripBytesAt key bs rhs
            match stripped with
            | none => pure false
            | some rhs => jsonSliceEqualsAt key n cursor stop rhs
      else pure (decide (cursor = stop ∧ rhs = key.length))

/-- The end of a string token in `json_find_key`. -/
def stringEndAt : ℕ → ℕ → Checked ℕ
  | 0, _ => .error .outOfSteps
  | n + 1, strEnd => do
      let c ← load mem strEnd
      if c = 0 then pure strEnd
      else if c = backslash then do
        let e ← load mem (strEnd + 1)
        if e = 0 then pure (strEnd + 1) else stringEndAt n (strEnd + 2)
      else if c = quote then pure strEnd
      else stringEndAt n (strEnd + 1)

/-- Whether the string token is the key, `after` being the next byte that is
no white space. -/
def isKeyAt (key : CString) (depth : ℤ) (start stop after : ℕ) : Checked Bool :=
  if depth = 1 then do
    let a ← load mem after
    if a = colon then jsonSliceEqualsAt mem key mem.length start stop 0 else pure false
  else pure false

/-- The loop of `json_find_key`. -/
def findKeyAt (key : CString) : ℕ → ℕ → ℤ → Checked (Option ℕ)
  | 0, _, _ => .error .outOfSteps
  | n + 1, cursor, depth => do
      let c ← load mem cursor
      if c = 0 then pure none
      else if c = quote then do
        let strEnd ← stringEndAt mem mem.length (cursor + 1)
        let q ← load mem strEnd
        if q ≠ quote then pure none
        else do
          let after ← skipWhitespaceAt mem mem.length (strEnd + 1)
          let isKey ← isKeyAt mem key depth (cursor + 1) strEnd after
          if isKey then do
            let value ← skipWhitespaceAt mem mem.length (after + 1)
            pure (some value)
          else findKeyAt key n (strEnd + 1) depth
      else if c = arrayOpen ∨ c = objectOpen then do
        let depth ← addInt depth 1
        if depthLimit < depth then pure none else findKeyAt key n (cursor + 1) depth
      else if c = arrayClose ∨ c = objectClose then do
        let depth ← addInt depth (-1)
        findKeyAt key n (cursor + 1) depth
      else findKeyAt key n (cursor + 1) depth

/-- The loop of `find_matching_bracket`. -/
def matchAt (op cl : UInt8) : ℕ → ℕ → ℤ → Bool → Bool → Checked (Option ℕ)
  | 0, _, _, _, _ => .error .outOfSteps
  | n + 1, cursor, depth, inString, escaped => do
      let c ← load mem cursor
      if c = 0 ∨ depth ≤ 0 then pure none
      else if inString then
        if escaped then matchAt op cl n (cursor + 1) depth true false
        else if c = backslash then matchAt op cl n (cursor + 1) depth true true
        else if c = quote then matchAt op cl n (cursor + 1) depth false false
        else matchAt op cl n (cursor + 1) depth true false
      else if c = quote then matchAt op cl n (cursor + 1) depth true false
      else if c = op then do
        let depth ← addInt depth 1
        if depthLimit < depth then pure none
        else matchAt op cl n (cursor + 1) depth false false
      else if c = cl then do
        let depth ← addInt depth (-1)
        if depth = 0 then pure (some cursor) else matchAt op cl n (cursor + 1) depth false false
      else matchAt op cl n (cursor + 1) depth false false

def findMatchingBracketAt (start : ℕ) (op : UInt8) : Checked (Option ℕ) := do
  let c ← load mem start
  if c ≠ op then pure none
  else
    matchAt mem op (if op = objectOpen then objectClose else arrayClose) mem.length (start + 1) 1
      false false

/-- The end of the raw text of a string value in `json_extract_value`. -/
def rawEndAt : ℕ → ℕ → Checked ℕ
  | 0, _ => .error .outOfSteps
  | n + 1, scan => do
      let c ← load mem scan
      if c ≠ 0 ∧ c ≠ quote then
        if c = backslash then do
          let e ← load mem (scan + 1)
          if e = 0 then pure (scan + 1) else rawEndAt n (scan + 2)
        else rawEndAt n (scan + 1)
      else pure scan

/-- The low half of a surrogate pair, when an escape of one begins at `next`. -/
def lowHalfAt (next stop : ℕ) : Checked (Option ℕ) :=
  if next + 1 < stop then do
    let b ← load mem next
    if b = backslash then do
      let u ← load mem (next + 1)
      if u = letterU then do
        let low ← jsonReadHex4At mem (next + 2) stop
        pure (low.filter fun low => 0xdc00 ≤ low && low ≤ 0xdfff)
      else pure none
    else pure none
  else pure none

/-- One turn of the copy loop: the bytes it stores and where it goes on. -/
def copyUnitAt (src stop : ℕ) : Checked (CString × ℕ) := do
  let c ← load mem src
  if c = backslash ∧ src + 1 < stop then do
    let e ← load mem (src + 1)
    match simpleEscape e with
    | some b => pure ([b], src + 2)
    | none =>
        if e = letterU then do
          let unit ← jsonReadHex4At mem (src + 2) stop
          match unit with
          | none => pure ([backslash, letterU], src + 2)
          | some cp =>
              if 0xd800 ≤ cp ∧ cp ≤ 0xdbff then do
                let low ← lowHalfAt mem (src + 6) stop
                match low with
                | some low =>
                    pure ((jsonUtf8Encode
                      (0x10000 + (cp - 0xd800) * 1024 + (low - 0xdc00))).getD [], src + 12)
                | none => pure (decodeUnit cp, src + 6)
              else pure (decodeUnit cp, src + 6)
        else pure ([backslash, e], src + 2)
  else pure ([c], src + 1)

def copyAt (cap : ℕ) : ℕ → ℕ → ℕ → CString → Checked CString
  | 0, _, _, _ => .error .outOfSteps
  | n + 1, src, stop, dst =>
      if src < stop then do
        let unit ← copyUnitAt mem src stop
        let dst ← storeAll cap dst unit.1
        copyAt cap n unit.2 stop dst
      else pure dst

/-- The end of a number, `true`, `false` or `null`. -/
def tokenEndAt : ℕ → ℕ → Checked ℕ
  | 0, _ => .error .outOfSteps
  | n + 1, valueEnd => do
      let c ← load mem valueEnd
      if c ≠ 0 ∧ endsToken c = false then tokenEndAt n (valueEnd + 1) else pure valueEnd

/-- A buffer for `len` bytes and a zero, filled with the bytes from `start` on. -/
def copyOut (start len : ℕ) : Checked (Option CString) := do
  let result ← copyBytes mem (len + 1) len start []
  let _ ← store (len + 1) result 0
  pure (some result)

def jsonExtractValueAt (valueStart : ℕ) : Checked (Option CString) := do
  let cursor ← skipWhitespaceAt mem mem.length valueStart
  let c ← load mem cursor
  if c = quote then do
    let scan ← rawEndAt mem mem.length (cursor + 1)
    let rawLen := scan - (cursor + 1)
    let result ← copyAt mem (rawLen + 1) mem.length (cursor + 1) scan []
    let _ ← store (rawLen + 1) result 0
    pure (some result)
  else if c = objectOpen ∨ c = arrayOpen then do
    let found ← findMatchingBracketAt mem cursor c
    match found with
    | none => pure none
    | some valueEnd => copyOut mem cursor (valueEnd - cursor + 1)
  else do
    let valueEnd ← tokenEndAt mem mem.length cursor
    copyOut mem cursor (valueEnd - cursor)

/-- `get_value` over the array of the text. -/
def getValueAt (key : CString) : Checked (Option CString) := do
  let value ← findKeyAt mem key mem.length 0 0
  match value with
  | none => pure none
  | some valueStart => jsonExtractValueAt mem valueStart

end Code

section Scanning
variable {s t rest : CString} {i n stop : ℕ}

theorem skipWhitespaceAt_ok (h : Points s i t) (hn : t.length < n) :
    ∃ j, skipWhitespaceAt (array s) n i = .ok j ∧ Points s j (skipWhitespace t) := by
  induction n generalizing t i with
  | zero => omega
  | succ n ih =>
      cases t with
      | nil =>
          refine ⟨i, ?_, h⟩
          simp [skipWhitespaceAt, h.load_zero]
      | cons c t =>
          rw [List.length_cons] at hn
          by_cases hc : isspace c = true
          · obtain ⟨j, hj, hp⟩ := ih h.next (by omega)
            have hz : c ≠ 0 := by
              rintro rfl
              exact absurd hc (by decide)
            refine ⟨j, ?_, ?_⟩
            · rw [skipWhitespaceAt, h.load_head, ok_bind, if_pos ⟨hz, hc⟩, hj]
            · simpa [skipWhitespace, hc] using hp
          · refine ⟨i, ?_, ?_⟩
            · simp [skipWhitespaceAt, h.load_head, hc]
            · simpa [skipWhitespace, hc] using h

/-- Four digits are read as the reader reads them. -/
theorem hexLoop_ok {a b c d : UInt8} (h : Points s i (a :: b :: c :: d :: t)) :
    hexLoop (array s) 4 i 0 = .ok (jsonReadHex4 (a :: b :: c :: d :: t)) := by
  have hb := h.next
  have hc := hb.next
  have hd := hc.next
  simp only [hexLoop, h.load_head, hb.load_head, hc.load_head, hd.load_head, ok_bind, jsonReadHex4]
  cases jsonHexDigitValue a <;> cases jsonHexDigitValue b <;> cases jsonHexDigitValue c <;>
    cases jsonHexDigitValue d <;> simp

theorem jsonReadHex4At_ok {raw : CString} (h : Points s i (raw ++ rest))
    (hs : stop = i + raw.length) :
    jsonReadHex4At (array s) i stop = .ok (jsonReadHex4 raw) := by
  match raw, h, hs with
  | [], _, hs => simp [jsonReadHex4At, hs, jsonReadHex4]
  | [_], _, hs => simp [jsonReadHex4At, hs, jsonReadHex4]
  | [_, _], _, hs => simp [jsonReadHex4At, hs, jsonReadHex4]
  | [_, _, _], _, hs => simp [jsonReadHex4At, hs, jsonReadHex4]
  | a :: b :: c :: d :: raw, h, hs =>
      rw [jsonReadHex4At, if_neg (by simp at hs; omega)]
      exact (hexLoop_ok (t := raw ++ rest) h).trans rfl

/-- A string token ends where its raw text does. -/
theorem stringEndAt_ok (h : Points s i t) (ht : NulFree t) (hn : t.length < n) :
    stringEndAt (array s) n i = .ok (i + (rawValue t).length) := by
  induction n generalizing t i with
  | zero => omega
  | succ n ih =>
      cases t with
      | nil => simp [stringEndAt, h.load_zero, rawValue]
      | cons c t =>
          obtain ⟨hc, ht⟩ := nulFree_cons.mp ht
          rw [List.length_cons] at hn
          rw [stringEndAt, h.load_head, ok_bind, if_neg hc]
          by_cases hb : c = backslash
          · rw [if_pos hb]
            have hq : backslash ≠ quote := by decide
            cases t with
            | nil =>
                have hend := h.next.load_zero
                rw [hend, ok_bind, if_pos rfl, rawValue.eq_def]
                simp [hb, hq]
            | cons e t =>
                obtain ⟨he, ht⟩ := nulFree_cons.mp ht
                rw [List.length_cons] at hn
                rw [h.next.load_head, ok_bind, if_neg he, ih h.next.next ht (by omega),
                  rawValue.eq_def (c :: e :: t)]
                simp [hb, hq]
                omega
          · rw [if_neg hb]
            by_cases hq : c = quote
            · rw [if_pos hq, rawValue.eq_def]
              simp [hq]
            · rw [if_neg hq, ih h.next ht (by omega), rawValue.eq_def (c :: t)]
              simp [hb, hq]
              omega

/-- Both loops over a string stop at the same byte. -/
theorem rawEndAt_eq (mem : CString) : rawEndAt mem n i = stringEndAt mem n i := by
  induction n generalizing i with
  | zero => rfl
  | succ n ih =>
      rw [rawEndAt, stringEndAt]
      congr 1
      funext c
      by_cases hc : c = 0
      · simp [hc]
      · by_cases hq : c = quote
        · subst hq
          simp [show quote ≠ backslash by decide, show quote ≠ 0 by decide]
        · simp [hc, hq, ih]

theorem tokenEndAt_ok (h : Points s i t) (ht : NulFree t) (hn : t.length < n) :
    tokenEndAt (array s) n i =
      .ok (i + (t.takeWhile fun c => !endsToken c).length) := by
  induction n generalizing t i with
  | zero => omega
  | succ n ih =>
      cases t with
      | nil => simp [tokenEndAt, h.load_zero]
      | cons c t =>
          obtain ⟨hc, ht⟩ := nulFree_cons.mp ht
          rw [List.length_cons] at hn
          rw [tokenEndAt, h.load_head, ok_bind]
          by_cases he : endsToken c = true
          · simp [he]
          · rw [if_pos ⟨hc, by simpa using he⟩, ih h.next ht (by omega)]
            simp [he]
            omega

end Scanning

section Comparing
variable {s cs raw rest key k : CString} {c : UInt8} {i n stop rhs : ℕ}

theorem jsonReadHex4_length {es : CString} {v : ℕ} (h : jsonReadHex4 es = some v) :
    4 ≤ es.length := by
  unfold jsonReadHex4 at h
  split at h
  · simp
  · cases h

/-- One turn of the comparison reads from the raw text what the reader decodes. -/
theorem compareUnitAt_ok (h : Points s i (c :: (cs ++ rest))) (hs : stop = i + 1 + cs.length) :
    compareUnitAt (array s) i stop =
      .ok ((compareUnit c cs).map fun p => (p.1, i + 1 + p.2)) := by
  rw [compareUnitAt, h.load_head, ok_bind, compareUnit.eq_def]
  by_cases hc : c = backslash
  · rw [if_pos hc, if_pos hc]
    cases cs with
    | nil => simp [hs]
    | cons e es =>
        rw [List.length_cons] at hs
        have he : Points s (i + 1) (e :: (es ++ rest)) := h.next
        rw [if_neg (by omega), he.load_head, ok_bind]
        cases hsimple : simpleEscape e with
        | some b => simp [hsimple]
        | none =>
            by_cases hu : e = letterU
            · subst hu
              have hread : jsonReadHex4At (array s) (i + 2) stop = .ok (jsonReadHex4 es) :=
                jsonReadHex4At_ok he.next (by omega)
              by_cases hshort : stop < i + 6
              · have hnone : jsonReadHex4 es = none := by
                  rw [jsonReadHex4At, if_pos (by omega)] at hread
                  exact (Except.ok.inj hread).symm
                simp [hsimple, hshort, hnone]
              · rw [jsonReadHex4At, if_neg (by omega)] at hread
                simp only [hsimple, if_true, if_neg hshort, hread, ok_bind, pure_ok]
                cases (jsonReadHex4 es).bind jsonUtf8Encode <;> rfl
            · simp [hsimple, hu]
  · simp [hc]

theorem compareUnit_le {bs : CString} {m : ℕ} (h : compareUnit c cs = some (bs, m)) :
    m ≤ cs.length := by
  unfold compareUnit at h
  split_ifs at h with hc
  · cases cs with
    | nil => cases h
    | cons e es =>
        simp only at h
        cases hs : simpleEscape e with
        | some b =>
            simp only [hs, Option.some.injEq, Prod.mk.injEq] at h
            simp [← h.2]
        | none =>
            simp only [hs] at h
            split_ifs at h with hu
            obtain ⟨bs', hbs, heq⟩ := Option.map_eq_some_iff.mp h
            obtain ⟨v, hv, -⟩ := Option.bind_eq_some_iff.mp hbs
            have hlen := jsonReadHex4_length hv
            obtain ⟨-, rfl⟩ := Prod.mk.inj heq
            rw [List.length_cons]
            omega
  · obtain ⟨-, rfl⟩ := Prod.mk.inj (Option.some.inj h)
    exact Nat.zero_le _

theorem stripBytesAt_ok {bs : CString} (h : Points key rhs k) :
    stripBytesAt key bs rhs = .ok ((stripBytes bs k).map fun _ => rhs + bs.length) := by
  induction bs generalizing k rhs with
  | nil => simp [stripBytesAt, stripBytes]
  | cons b bs ih =>
      have hlen := h.length
      cases k with
      | nil =>
          rw [List.length_nil] at hlen
          rw [stripBytesAt, if_pos (by omega)]
          rfl
      | cons a k =>
          rw [List.length_cons] at hlen
          rw [stripBytesAt, if_neg (by omega), h.load_head, ok_bind, stripBytes]
          by_cases ha : a = b
          · rw [if_pos ha, if_pos ha, ih h.next, List.length_cons]
            congr 3
            funext _
            omega
          · rw [if_neg ha, if_neg ha]
            rfl

/-- The comparison runs over both strings as the reader does. -/
theorem jsonSliceEqualsAt_ok (h : Points s i (raw ++ rest)) (hs : stop = i + raw.length)
    (hk : Points key rhs k) (hn : raw.length < n) :
    jsonSliceEqualsAt (array s) key n i stop rhs = .ok (compareLoop raw 0 k) := by
  induction n generalizing raw i rhs k with
  | zero => omega
  | succ n ih =>
      have hlen := hk.length
      cases raw with
      | nil =>
          rw [List.length_nil] at hs
          rw [jsonSliceEqualsAt, if_neg (by omega), compareLoop, pure_ok]
          congr 1
          cases k <;> simp at hlen ⊢ <;> omega
      | cons c cs =>
          rw [List.length_cons] at hs hn
          cases k with
          | nil =>
              rw [List.length_nil] at hlen
              rw [jsonSliceEqualsAt, if_neg (by omega), compareLoop, pure_ok]
              simp
              omega
          | cons a k =>
              rw [List.length_cons] at hlen
              rw [jsonSliceEqualsAt, if_pos (by omega), compareUnitAt_ok h (by omega), ok_bind,
                compareLoop]
              cases hu : compareUnit c cs with
              | none => simp
              | some p =>
                  obtain ⟨bs, m⟩ := p
                  have hm : m ≤ cs.length := compareUnit_le hu
                  simp only [Option.map_some, stripBytesAt_ok hk, ok_bind]
                  cases hb : stripBytes bs (a :: k) with
                  | none => simp
                  | some k' =>
                      have hk' : Points key rhs (bs ++ k') := stripBytes_iff.mp hb ▸ hk
                      have hnext : Points s (i + 1) (cs ++ rest) := h.next
                      simp only [Option.map_some]
                      rw [ih (hnext.advance hm) (by simp; omega) hk'.skip (by simp; omega),
                        compareLoop_drop _ m]

end Comparing

section Keys
variable {s t key : CString} {i n : ℕ} {d : ℤ}

/-- A string token is closed, or its raw text is all that is left. -/
theorem rawValue_split (t : CString) :
    (scanString t = none ∧ rawValue t = t) ∨
      ∃ raw u, Raw raw ∧ t = raw ++ quote :: u := by
  have hq : backslash ≠ quote := by decide
  fun_induction rawValue t with
  | case1 => exact Or.inl ⟨rfl, rfl⟩
  | case2 cs => exact Or.inr ⟨[], cs, .nil, rfl⟩
  | case3 _ => exact Or.inl ⟨by simp [scanString], rfl⟩
  | case4 e es _ ih =>
      rcases ih with ⟨hscan, hraw⟩ | ⟨raw, u, hraw, rfl⟩
      · refine Or.inl ⟨?_, by rw [hraw]⟩
        simp [scanString, hscan]
      · exact Or.inr ⟨_, u, .escape hraw, rfl⟩
  | case5 c cs hc hb ih =>
      rcases ih with ⟨hscan, hraw⟩ | ⟨raw, u, hraw, rfl⟩
      · refine Or.inl ⟨?_, by rw [hraw]⟩
        rw [scanString.eq_def]
        simp [hc, hb, hscan]
      · exact Or.inr ⟨_, u, .plain hc hb hraw, rfl⟩

theorem rawValue_prefix (t : CString) : ∃ rest, t = rawValue t ++ rest := by
  rcases rawValue_split t with ⟨-, hraw⟩ | ⟨raw, u, hraw, rfl⟩
  · exact ⟨[], by rw [hraw, List.append_nil]⟩
  · exact ⟨quote :: u, by rw [rawValue_raw hraw]⟩

theorem isKeyAt_ok {raw rest u : CString} {start stop after : ℕ} (h : Points s start (raw ++ rest))
    (hs : stop = start + raw.length) (ha : Points s after u) :
    isKeyAt (array s) key d start stop after =
      .ok (decide (d = 1 ∧ u.head? = some colon ∧ jsonSliceEquals raw key = true)) := by
  have hlen := h.length
  rw [List.length_append] at hlen
  rw [isKeyAt]
  by_cases hd : d = 1
  · rw [if_pos hd, ha.load_first, ok_bind]
    have hcolon : u.head?.getD 0 = colon ↔ u.head? = some colon := by
      cases u with
      | nil => decide
      | cons c u => simp
    by_cases hc : u.head? = some colon
    · rw [if_pos (hcolon.mpr hc), jsonSliceEqualsAt_ok h hs (.start key) (by simp [array]; omega)]
      simp [hd, hc, jsonSliceEquals]
    · rw [if_neg (mt hcolon.mp hc)]
      simp [hc]
  · simp [hd]

/-- What a string token comes to: nothing, as it is cut off, the value behind
it, as it is the key, or the scan of what follows it. -/
theorem findKeyAt_token (hs : NulFree s) (h : Points s i (quote :: t)) :
    (findKeyAt (array s) key (n + 1) i d = .ok none ∧ scan key (quote :: t) d = none) ∨
      (∃ value v, findKeyAt (array s) key (n + 1) i d = .ok (some value) ∧
        scan key (quote :: t) d = some v ∧ Points s value v) ∨
      ∃ j u, findKeyAt (array s) key (n + 1) i d = findKeyAt (array s) key n j d ∧
        scan key (quote :: t) d = scan key u d ∧ Points s j u ∧ u.length < t.length ∧ i < j := by
  have ht : Points s (i + 1) t := h.next
  have hlen := h.length
  rw [List.length_cons] at hlen
  rw [findKeyAt, h.load_head, ok_bind, if_neg (by decide), if_pos rfl,
    stringEndAt_ok ht (ht.nulFree hs) (by simp [array]; omega), ok_bind]
  rcases rawValue_split t with ⟨hscan, hraw⟩ | ⟨raw, u, hraw, rfl⟩
  · left
    have hend : Points s (i + 1 + t.length) [] := (t.append_nil ▸ ht).skip
    constructor
    · rw [hraw, hend.load_zero]
      rfl
    · rw [scan, List.length_cons, findKeyLoop, if_pos rfl, hscan]
  right
  have hclose : Points s (i + 1 + raw.length) (quote :: u) := ht.skip
  have hu := hclose.next.length
  obtain ⟨after, hskip, hafter⟩ := skipWhitespaceAt_ok (n := (array s).length) hclose.next
    (by simp [array]; omega)
  rw [rawValue_raw hraw, hclose.load_head, ok_bind, if_neg (by simp), hskip, ok_bind,
    isKeyAt_ok ht rfl hafter, ok_bind, scan_quote hraw]
  by_cases hkey : d = 1 ∧ (skipWhitespace u).head? = some colon ∧ jsonSliceEquals raw key = true
  · left
    obtain ⟨v, hv⟩ : ∃ v, skipWhitespace u = colon :: v := by
      cases hu : skipWhitespace u with
      | nil => simp [hu] at hkey
      | cons c v =>
          rw [hu, List.head?_cons, Option.some.injEq] at hkey
          exact ⟨v, by rw [hkey.2.1]⟩
    rw [hv] at hafter
    have hlv := hafter.next.length
    obtain ⟨value, hskip, hvalue⟩ := skipWhitespaceAt_ok (n := (array s).length) hafter.next
      (by simp [array]; omega)
    refine ⟨value, skipWhitespace v, ?_, ?_, hvalue⟩
    · simp only [hkey, decide_true, if_true, hskip, ok_bind, pure_ok, and_self]
    · rw [if_pos hkey, hv]
      rfl
  · right
    refine ⟨_, u, ?_, if_neg hkey, hclose.next, ?_, ?_⟩
    · simp only [decide_eq_true_eq, if_neg hkey]
    · simp
      omega
    · omega

/-- The scan for a key ends at the value the reader finds, or without one. The
depth goes down by one a byte at most, so it stays an `int`. -/
theorem findKeyAt_ok (hs : NulFree s) (hlen : s.length < 2 ^ 31) (h : Points s i t)
    (hn : t.length < n) (hd : -(i : ℤ) ≤ d) (hd' : d ≤ depthLimit) :
    ∃ r, findKeyAt (array s) key n i d = .ok r ∧ Option.Rel (Points s) r (scan key t d) := by
  have hdepth : depthLimit = 100 := rfl
  have hmax : intMin = -2147483648 ∧ intMax = 2147483647 := ⟨rfl, rfl⟩
  induction n generalizing t i d with
  | zero => omega
  | succ n ih =>
      cases t with
      | nil =>
          refine ⟨none, ?_, .none⟩
          rw [findKeyAt, h.load_zero, ok_bind, if_pos rfl]
          rfl
      | cons c t =>
          obtain ⟨hc, -⟩ := nulFree_cons.mp (h.nulFree hs)
          have hi := h.length
          rw [List.length_cons] at hn hi
          by_cases hq : c = quote
          · subst hq
            rcases findKeyAt_token (n := n) (d := d) hs h with
              ⟨hrun, hscan⟩ | ⟨value, v, hrun, hscan, hv⟩ | ⟨j, u, hrun, hscan, hu, hlt, hj⟩
            · exact ⟨none, hrun, hscan ▸ .none⟩
            · exact ⟨some value, hrun, hscan ▸ .some hv⟩
            · rw [hrun, hscan]
              exact ih hu (by omega) (by omega) hd'
          rw [findKeyAt, h.load_head, ok_bind, if_neg hc, if_neg hq]
          by_cases ho : c = arrayOpen ∨ c = objectOpen
          · rw [if_pos ho, addInt_ok (by omega), ok_bind]
            by_cases hdeep : depthLimit < d + 1
            · refine ⟨none, by rw [if_pos hdeep]; rfl, ?_⟩
              rw [scan, List.length_cons, findKeyLoop, if_neg hq, if_pos ho, if_pos hdeep]
              exact .none
            · rw [if_neg hdeep, scan_open ho.symm t (by omega)]
              exact ih h.next (by omega) (by omega) (by omega)
          rw [if_neg ho]
          by_cases hcl : c = arrayClose ∨ c = objectClose
          · rw [if_pos hcl, addInt_ok (by omega), ok_bind, scan_close hcl.symm]
            exact ih h.next (by omega) (by push_cast; omega) (by omega)
          · have hplain : isPlain c = true := by
              simp only [not_or] at ho hcl
              simp [isPlain, hq, ho, hcl]
            rw [if_neg hcl, scan_plain hplain]
            exact ih h.next (by omega) (by push_cast; omega) hd'

end Keys

section Blocks
variable {s t : CString} {op cl : UInt8} {i n : ℕ}

/-- The scan for a closing bracket. Its depth stays between one and the limit. -/
theorem matchAt_ok {d : ℤ} {inString escaped : Bool} (hs : NulFree s) (h : Points s i t)
    (hn : t.length < n) (hd : 1 ≤ d) (hd' : d ≤ depthLimit) :
    matchAt (array s) op cl n i d inString escaped =
      .ok ((matchLoop op cl t d inString escaped).map fun p => i + p.1.length - 1) := by
  have hdepth : depthLimit = 100 := rfl
  have hmax : intMin = -2147483648 ∧ intMax = 2147483647 := ⟨rfl, rfl⟩
  induction n generalizing t i d inString escaped with
  | zero => omega
  | succ n ih =>
      cases t with
      | nil =>
          rw [matchAt, h.load_zero, ok_bind, if_pos (Or.inl rfl)]
          rfl
      | cons c t =>
          obtain ⟨hc, -⟩ := nulFree_cons.mp (h.nulFree hs)
          rw [List.length_cons] at hn
          -- a turn that goes on behind the byte
          have hgo : ∀ {d : ℤ} {inString escaped : Bool}, 1 ≤ d → d ≤ depthLimit →
              matchAt (array s) op cl n (i + 1) d inString escaped =
                .ok (((matchLoop op cl t d inString escaped).map fun p => (c :: p.1, p.2)).map
                  fun p => i + p.1.length - 1) := by
            intro d inString escaped hd hd'
            rw [ih h.next (by omega) hd hd', Option.map_map]
            congr 2
            funext p
            simp only [Function.comp_apply, List.length_cons]
            omega
          rw [matchAt, h.load_head, ok_bind, if_neg (by simp [hc]; omega), matchLoop]
          cases inString with
          | true =>
              simp only [if_true]
              split_ifs
              all_goals exact hgo hd hd'
          | false =>
              simp only [Bool.false_eq_true, if_false]
              by_cases hq : c = quote
              · simp only [if_pos hq]
                exact hgo hd hd'
              by_cases ho : c = op
              · simp only [if_neg hq, if_pos ho, addInt_ok (a := d) (b := 1) (by omega), ok_bind]
                by_cases hdeep : depthLimit < d + 1
                · simp only [if_pos hdeep]
                  rfl
                · simp only [if_neg hdeep]
                  exact hgo (by omega) (by omega)
              by_cases hcl : c = cl
              · simp only [if_neg hq, if_neg ho, if_pos hcl, addInt_ok (a := d) (b := -1) (by omega),
                  ok_bind, ← sub_eq_add_neg]
                by_cases hend : d - 1 = 0
                · simp only [if_pos hend]
                  rfl
                · simp only [if_neg hend]
                  exact hgo (by omega) (by omega)
              · simp only [if_neg hq, if_neg ho, if_neg hcl]
                exact hgo hd hd'

end Blocks

section Copying
variable {s cs raw rest : CString} {c : UInt8} {i n stop : ℕ}

theorem lowHalfAt_ok {es : CString} (h : Points s i (es ++ rest)) (hs : stop = i + es.length) :
    lowHalfAt (array s) i stop = .ok (lowHalf es) := by
  match es, h, hs with
  | [], _, hs => simp [lowHalfAt, lowHalf, hs]
  | [_], _, hs => simp [lowHalfAt, lowHalf, hs]
  | b :: u :: es, h, hs =>
      simp only [List.length_cons] at hs
      have hu : Points s (i + 1) (u :: (es ++ rest)) := h.next
      have hread : jsonReadHex4At (array s) (i + 2) stop = .ok (jsonReadHex4 es) :=
        jsonReadHex4At_ok hu.next (by omega)
      have hb : load (array s) i = .ok b := h.load_head
      rw [lowHalfAt, if_pos (by omega), hb, ok_bind, hu.load_head, ok_bind, hread, ok_bind]
      by_cases hbs : b = backslash <;> by_cases hlu : u = letterU <;>
        simp [lowHalf, hbs, hlu]

/-- One turn of the copy loop writes what the reader does and goes on where it
goes on. -/
theorem copyUnitAt_ok (h : Points s i (c :: (cs ++ rest))) (hs : stop = i + 1 + cs.length) :
    copyUnitAt (array s) i stop = .ok ((copyUnit c cs).1, i + 1 + (copyUnit c cs).2) := by
  rw [copyUnitAt, h.load_head, ok_bind, copyUnit.eq_def]
  by_cases hc : c = backslash
  · cases cs with
    | nil => simp [hs]
    | cons e es =>
        rw [List.length_cons] at hs
        have he : Points s (i + 1) (e :: (es ++ rest)) := h.next
        rw [if_pos ⟨hc, by omega⟩, if_pos hc, he.load_head, ok_bind]
        cases hsimple : simpleEscape e with
        | some b => simp [hsimple]
        | none =>
            by_cases hu : e = letterU
            · subst hu
              have hread : jsonReadHex4At (array s) (i + 2) stop = .ok (jsonReadHex4 es) :=
                jsonReadHex4At_ok he.next (by omega)
              cases hcp : jsonReadHex4 es with
              | none => simp [hsimple, hread, hcp, hc]
              | some cp =>
                  have hfour := jsonReadHex4_length hcp
                  have hlow : lowHalfAt (array s) (i + 6) stop = .ok (lowHalf (es.drop 4)) :=
                    lowHalfAt_ok (he.next.advance hfour) (by simp; omega)
                  simp only [hsimple, if_true, hread, hcp, ok_bind]
                  by_cases hhigh : 0xd800 ≤ cp ∧ cp ≤ 0xdbff
                  · simp only [if_pos hhigh, hlow, ok_bind]
                    cases lowHalf (es.drop 4) with
                    | none => rfl
                    | some low =>
                        simp only [pure_ok]
                  · simp only [if_neg hhigh]
                    rfl
            · simp [hsimple, hu, hc]
  · simp [hc]

theorem jsonUtf8Encode_length (cp : ℕ) : ((jsonUtf8Encode cp).getD []).length ≤ 4 := by
  unfold jsonUtf8Encode
  split_ifs <;> simp

theorem decodeUnit_length (cp : ℕ) : (decodeUnit cp).length ≤ 4 := by
  unfold decodeUnit
  split_ifs
  · simp [replacement]
  · exact jsonUtf8Encode_length cp

theorem lowHalf_length {es : CString} {low : ℕ} (h : lowHalf es = some low) : 6 ≤ es.length := by
  unfold lowHalf at h
  split at h
  · split_ifs at h
    have hfour := jsonReadHex4_length (Option.filter_eq_some_iff.mp h).1
    simp only [List.length_cons]
    omega
  · cases h

/-- A turn takes what it reads from the raw text, and writes no more than it
takes. -/
theorem copyUnit_size (c : UInt8) (cs : CString) :
    (copyUnit c cs).2 ≤ cs.length ∧ (copyUnit c cs).1.length ≤ (copyUnit c cs).2 + 1 := by
  rw [copyUnit.eq_def]
  by_cases hc : c = backslash
  · rw [if_pos hc]
    cases cs with
    | nil => simp
    | cons e es =>
        cases hsimple : simpleEscape e with
        | some b => simp [hsimple]
        | none =>
            by_cases hu : e = letterU
            · subst hu
              cases hcp : jsonReadHex4 es with
              | none => simp [hsimple, hcp]
              | some cp =>
                  have hfour := jsonReadHex4_length hcp
                  have hunit := decodeUnit_length cp
                  simp only [hsimple, if_true, hcp, List.length_cons]
                  by_cases hhigh : 0xd800 ≤ cp ∧ cp ≤ 0xdbff
                  · rw [if_pos hhigh]
                    cases hl : lowHalf (es.drop 4) with
                    | none => exact ⟨Nat.succ_le_succ hfour, hunit.trans (Nat.le_add_left 4 2)⟩
                    | some low =>
                        have hsix := lowHalf_length hl
                        rw [List.length_drop] at hsix
                        simp only
                        exact ⟨by omega, le_trans (jsonUtf8Encode_length _) (by omega)⟩
                  · rw [if_neg hhigh]
                    exact ⟨Nat.succ_le_succ hfour, hunit.trans (Nat.le_add_left 4 2)⟩
            · simp [hsimple, hu]
  · simp [hc]

theorem copyLoop_drop (m : ℕ) : copyLoop cs m = copyLoop (cs.drop m) 0 := by
  induction cs generalizing m with
  | nil => cases m <;> rfl
  | cons c cs ih =>
      cases m with
      | zero => rfl
      | succ m => rw [copyLoop, ih, List.drop_succ_cons]

/-- The copy of the raw text fits into a buffer of its length. -/
theorem copyAt_ok {cap : ℕ} {dst : CString} (h : Points s i (raw ++ rest))
    (hs : stop = i + raw.length) (hn : raw.length < n) (hcap : dst.length + raw.length ≤ cap) :
    ∃ out, copyLoop raw 0 = out ∧ out.length ≤ raw.length ∧
      copyAt (array s) cap n i stop dst = .ok (dst ++ out) := by
  induction n generalizing raw i dst with
  | zero => omega
  | succ n ih =>
      cases raw with
      | nil =>
          refine ⟨[], rfl, le_rfl, ?_⟩
          rw [copyAt, if_neg (by simp at hs; omega), List.append_nil]
          rfl
      | cons c cs =>
          rw [List.length_cons] at hs hn hcap
          obtain ⟨htake, hwrite⟩ := copyUnit_size c cs
          have hnext : Points s (i + 1) (cs ++ rest) := h.next
          have hroom' : (dst ++ (copyUnit c cs).1).length + (cs.drop (copyUnit c cs).2).length ≤
              cap := by
            simp
            omega
          obtain ⟨out, hout, hle, hrun⟩ := ih (hnext.advance htake) (by simp; omega)
            (by simp; omega) hroom'
          refine ⟨(copyUnit c cs).1 ++ out, ?_, ?_, ?_⟩
          · rw [copyLoop, copyLoop_drop, hout]
          · rw [List.length_drop] at hle
            simp only [List.length_append, List.length_cons]
            omega
          · have hroom : dst.length + (copyUnit c cs).1.length ≤ cap := by omega
            rw [copyAt, if_pos (by omega), copyUnitAt_ok h (by omega), ok_bind,
              storeAll_ok hroom, ok_bind, hrun, List.append_assoc]

end Copying

section Values
variable {s t : CString} {op : UInt8} {i : ℕ}

theorem copyOut_ok {a : CString} (h : Points s i (a ++ t)) :
    copyOut (array s) i a.length = .ok (some a) := by
  rw [copyOut, h.copyBytes_ok (by simp), ok_bind, List.nil_append, store_ok (Nat.lt_succ_self _)]
  rfl

theorem findMatchingBracketAt_ok {c : UInt8} (hs : NulFree s) (h : Points s i (c :: t)) :
    findMatchingBracketAt (array s) i c =
      .ok ((findMatchingBracket (c :: t) c).map fun p => i + p.1.length - 1) := by
  have hlen := h.next.length
  rw [findMatchingBracketAt, h.load_head, ok_bind, if_neg (not_not.mpr rfl),
    matchAt_ok hs h.next (by simp [array]; omega) le_rfl (by decide), findMatchingBracket,
    if_pos rfl, Option.map_map]
  congr 2
  funext p
  simp only [Function.comp_apply, List.length_cons]
  omega

theorem findMatchingBracket_split {p : CString × CString}
    (h : findMatchingBracket t op = some p) : t = p.1 ++ p.2 ∧ 0 < p.1.length := by
  cases t with
  | nil => cases h
  | cons c t =>
      rw [findMatchingBracket] at h
      by_cases hc : c = op
      · rw [if_pos hc] at h
        obtain ⟨q, hq, rfl⟩ := Option.map_eq_some_iff.mp h
        exact ⟨by rw [matchLoop_split hq]; rfl, Nat.succ_pos _⟩
      · rw [if_neg hc] at h
        cases h

/-- The buffer that a value is copied into has room for it and its zero. -/
theorem jsonExtractValueAt_ok (hs : NulFree s) (h : Points s i t) :
    jsonExtractValueAt (array s) i = .ok (jsonExtractValue t) := by
  have hlen := h.length
  obtain ⟨cursor, hskip, hcursor⟩ := skipWhitespaceAt_ok (n := (array s).length) h
    (by simp [array]; omega)
  rw [jsonExtractValueAt, hskip, ok_bind, jsonExtractValue]
  generalize skipWhitespace t = v at hcursor
  have hv := hcursor.length
  cases v with
  | nil =>
      have hout : copyOut (array s) cursor 0 = .ok (some []) :=
        copyOut_ok (a := []) (t := []) hcursor
      rw [hcursor.load_zero, ok_bind, if_neg (by decide), if_neg (by decide),
        tokenEndAt_ok hcursor nulFree_nil (by simp [array])]
      simp [hout]
  | cons c v =>
      have hnul := hcursor.nulFree hs
      rw [List.length_cons] at hv
      rw [hcursor.load_head, ok_bind]
      by_cases hq : c = quote
      · obtain ⟨rest, hrest⟩ := rawValue_prefix v
        have hv' : Points s (cursor + 1) (rawValue v ++ rest) := hrest ▸ hcursor.next
        have hfit := hv'.length
        rw [List.length_append] at hfit
        have hroom : ([] : CString).length + (rawValue v).length ≤ (rawValue v).length + 1 := by
          simp
        obtain ⟨out, hout, hle, hrun⟩ := copyAt_ok (n := (array s).length) hv' rfl
          (by simp [array]; omega) hroom
        simp only [if_pos hq, rawEndAt_eq,
          stringEndAt_ok hcursor.next (nulFree_cons.mp hnul).2 (n := (array s).length)
            (by simp [array]; omega), ok_bind, Nat.add_sub_cancel_left]
        rw [hrun, ok_bind, List.nil_append, store_ok (by omega), unescape, hout]
        rfl
      by_cases ho : c = objectOpen ∨ c = arrayOpen
      · simp only [if_neg hq, if_pos ho, findMatchingBracketAt_ok hs hcursor, ok_bind]
        cases hfound : findMatchingBracket (c :: v) c with
        | none => rfl
        | some p =>
            obtain ⟨hsplit, hpos⟩ := findMatchingBracket_split hfound
            have hblock : cursor + p.1.length - 1 - cursor + 1 = p.1.length := by omega
            simp only [Option.map_some, hblock, copyOut_ok (hsplit ▸ hcursor)]
      · have hlong : (c :: v).length < (array s).length := by
          simp [array]
          omega
        have hsplit : Points s cursor ((c :: v).takeWhile (fun d => !endsToken d) ++
            (c :: v).dropWhile fun d => !endsToken d) := by
          rwa [List.takeWhile_append_dropWhile]
        simp only [if_neg hq, if_neg ho, tokenEndAt_ok hcursor hnul hlong, ok_bind,
          Nat.add_sub_cancel_left, copyOut_ok hsplit]

/-- On every string the reader ends without a fault, with what it returns. -/
theorem getValueAt_safe {text : CString} (key : CString) (h : NulFree text)
    (hlen : text.length < 2 ^ 31) : getValueAt (array text) key = .ok (getValue key text) := by
  have hscan : ∃ r, findKeyAt (array text) key (array text).length 0 0 = .ok r ∧
      Option.Rel (Points text) r (scan key text 0) :=
    findKeyAt_ok h hlen (.start text) (by simp [array]) (by simp) (by decide)
  obtain ⟨r, hr, hrel⟩ := hscan
  rw [getValueAt, hr, ok_bind, getValue, jsonFindKey_scan]
  generalize scan key text 0 = found at hrel
  cases hrel with
  | none => rfl
  | some hp => exact jsonExtractValueAt_ok h hp

/-- A reply that was cut off behind the backslash and the letter of an escape,
after the high half of a pair. -/
def tornReply : CString :=
  objectOpen :: quote :: (ascii "city" ++ quote :: colon :: quote :: (ascii "a" ++
    backslash :: (ascii "ud83d" ++ backslash :: ascii "u")))

theorem getValueAt_safe_torn :
    getValueAt (array tornReply) (ascii "city") =
      .ok (some (ascii "a" ++ (replacement ++ backslash :: ascii "u"))) := by
  have hnul : ∀ c ∈ tornReply, c ≠ 0 := by decide +kernel
  have hlen : tornReply.length < 2 ^ 31 := by decide +kernel
  have hread : getValue (ascii "city") tornReply =
      some (ascii "a" ++ (replacement ++ backslash :: ascii "u")) := by decide +kernel
  rw [getValueAt_safe (ascii "city") hnul hlen, hread]

end Values

end Muslimtify.JsonMemory
