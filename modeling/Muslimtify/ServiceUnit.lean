import Muslimtify.CMemory
import Muslimtify.LineStream

/-!
# The service file

`systemd` reads a command line twice: the line is split into words, with quotes
and backslashes taken away, and then every word is searched for specifiers, which
a percent sign begins. A path is written so that both together give it back.

The two buffers are of fixed size. Each piece of the quoted path is written only
when the closing quote and the terminating zero still fit after it.
-/
namespace Muslimtify.ServiceUnit
open CText CMemory

section Reading

def newline : UInt8 := 0x0a
def dquote : UInt8 := 0x22
def percent : UInt8 := 0x25
def apostrophe : UInt8 := 0x27
def backslash : UInt8 := 0x5c

/-- Where a reader of words stands: between two words, or after the bytes of one, inside quotes
or not. -/
inductive Place
  | between
  | bare (word : CString)
  | quoted (word : CString)

def isBlank (c : UInt8) : Bool := c = 0x20 || c = 0x09

/-- The words of a line. Quotes are taken away, and inside them a backslash before a quote or
another one. What else a backslash or an apostrophe may stand for is not read. -/
def splitWords : Place → CString → Option (List CString)
  | .between, [] => some []
  | .bare word, [] => some [word]
  | .quoted _, [] => none
  | .between, c :: s =>
      if isBlank c then splitWords .between s
      else if c = dquote then splitWords (.quoted []) s
      else if c = backslash ∨ c = apostrophe then none
      else splitWords (.bare [c]) s
  | .bare word, c :: s =>
      if isBlank c then (splitWords .between s).map (word :: ·)
      else if c = dquote then splitWords (.quoted word) s
      else if c = backslash ∨ c = apostrophe then none
      else splitWords (.bare (word ++ [c])) s
  | .quoted word, c :: s =>
      if c = dquote then splitWords (.bare word) s
      else if c = backslash then
        match s with
        | [] => none
        | e :: t =>
            if e = dquote ∨ e = backslash then splitWords (.quoted (word ++ [e])) t else none
      else splitWords (.quoted (word ++ [c])) s

/-- The specifiers of a word. Two percent signs are one; no other specifier is read. -/
def expandSpecifiers : CString → Option CString
  | [] => some []
  | c :: s =>
      if c = percent then
        match s with
        | [] => none
        | d :: t => if d = percent then (expandSpecifiers t).map (percent :: ·) else none
      else (expandSpecifiers s).map (c :: ·)

def execStart : CString := ascii "ExecStart="

/-- The lines of a unit that say what it runs. -/
def execLines (unit : CString) : List CString :=
  (unit.splitOn newline).filter fun line => execStart.isPrefixOf line

/-- The program and the arguments of such a line. -/
def commandLine (line : CString) : Option (List CString) :=
  (splitWords .between (line.drop execStart.length)).bind fun words => words.mapM expandSpecifiers

end Reading

section Writing

def platformDaemonPathMax : ℕ := 512

/-- What one byte of a path is written as. -/
def execPiece (c : UInt8) : CString :=
  if c = backslash then [backslash, backslash]
  else if c = dquote then [backslash, dquote]
  else if c = percent then [percent, percent]
  else [c]

/-- The loop of `quote_exec_path`, after it has written `out`. -/
def quoteLoop (cap : ℕ) : CString → CString → Checked (Option CString)
  | [], out => return some out
  | c :: path, out =>
      if cap < out.length + (execPiece c).length + 2 then return none
      else do
        let out ← storeAll cap out (execPiece c)
        quoteLoop cap path out

/-- The quoted path, where it fits. -/
def quoteExecPath (path : CString) (cap : ℕ) : Checked (Option CString) :=
  if cap < 3 then return none
  else do
    let out ← store cap [] dquote
    match ← quoteLoop cap (terminated path) out with
    | none => return none
    | some out => do
        let out ← store cap out dquote
        let _ ← store cap out 0
        return some out

/-- The unit up to the line of the command, and after it. -/
def unitHead : CString :=
  ascii ("[Unit]\n" ++
    "Description=Muslimtify prayer notification daemon\n" ++
    "After=network-online.target\n" ++
    "\n" ++
    "[Service]\n" ++
    "Type=simple\n")

def unitTail : CString :=
  ascii ("Restart=on-failure\n" ++
    "RestartSec=5\n" ++
    "\n" ++
    "[Install]\n" ++
    "WantedBy=default.target\n")

def unitText (quoted : CString) : CString :=
  unitHead ++ (ascii "ExecStart=" ++ (quoted ++ (ascii " daemon run\n" ++ unitTail)))

/-- The text in the buffer, where its length is returned. -/
def buildServiceUnit (path : CString) (size : ℕ) : Checked (Option CString) :=
  if size = 0 then return none
  else do
    match ← quoteExecPath path (platformDaemonPathMax * 2) with
    | none => return none
    | some quoted => do
        -- `snprintf` writes what fits, and a zero
        let _ ← storeAll size [] ((unitText quoted).take (size - 1) ++ [0])
        if size ≤ (unitText quoted).length then return none
        else return some (unitText quoted)

/-- The path between quotes, as `quote_exec_path` writes it. -/
def quotedPath (path : CString) : CString := dquote :: (path.flatMap execPiece ++ [dquote])

theorem quoteLoop_eq {cap : ℕ} (path : CString) {out : CString} (h : out.length + 2 ≤ cap) :
    quoteLoop cap path out =
      .ok (if out.length + (path.flatMap execPiece).length + 2 ≤ cap then
        some (out ++ path.flatMap execPiece) else none) := by
  induction path generalizing out with
  | nil => simp [quoteLoop, h]
  | cons c path ih =>
      rw [quoteLoop, List.flatMap_cons]
      by_cases hfits : cap < out.length + (execPiece c).length + 2
      · rw [if_pos hfits, if_neg (by rw [List.length_append]; omega)]
        rfl
      · rw [if_neg hfits, storeAll_ok (by omega), ok_bind,
          ih (by rw [List.length_append]; omega)]
        simp only [List.length_append, List.append_assoc, Nat.add_assoc]

theorem quoteExecPath_eq {path : CString} (hnul : NulFree path) (cap : ℕ) :
    quoteExecPath path cap =
      .ok (if (quotedPath path).length + 1 ≤ cap then some (quotedPath path) else none) := by
  have hlength : (quotedPath path).length = (path.flatMap execPiece).length + 2 := by
    simp [quotedPath]
  unfold quoteExecPath
  by_cases hcap : cap < 3
  · rw [if_pos hcap, if_neg (by omega)]
    rfl
  · rw [if_neg hcap, store_ok (by simp; omega), ok_bind, terminated_eq hnul,
      quoteLoop_eq path (by simp; omega), ok_bind, hlength, List.nil_append,
      List.length_singleton]
    by_cases hfits : 1 + (path.flatMap execPiece).length + 2 ≤ cap
    · have hout : ([dquote] ++ path.flatMap execPiece).length =
          1 + (path.flatMap execPiece).length := by
        rw [List.length_append, List.length_singleton]
      rw [if_pos hfits, if_pos (by omega)]
      dsimp only
      rw [store_ok (by omega), ok_bind,
        store_ok (by rw [List.length_append, List.length_singleton]; omega), ok_bind]
      rfl
    · rw [if_neg hfits, if_neg (by omega)]
      rfl

theorem buildServiceUnit_eq {path : CString} (hnul : NulFree path) (size : ℕ) :
    buildServiceUnit path size =
      .ok (if (quotedPath path).length + 1 ≤ platformDaemonPathMax * 2 ∧
        (unitText (quotedPath path)).length + 1 ≤ size then some (unitText (quotedPath path))
      else none) := by
  unfold buildServiceUnit
  by_cases hsize : size = 0
  · rw [if_pos hsize, if_neg (by omega)]
    rfl
  · rw [if_neg hsize, quoteExecPath_eq hnul, ok_bind]
    by_cases hquoted : (quotedPath path).length + 1 ≤ platformDaemonPathMax * 2
    · rw [if_pos hquoted]
      dsimp only
      rw [storeAll_ok (by simp; omega), ok_bind]
      by_cases hfits : size ≤ (unitText (quotedPath path)).length
      · rw [if_pos hfits, if_neg (by omega)]
        rfl
      · rw [if_neg hfits, if_pos ⟨hquoted, by omega⟩]
        rfl
    · rw [if_neg hquoted, if_neg fun h => hquoted h.1]
      rfl

end Writing

section RoundTrip

/-- What is left of a byte of the path when the words are read. -/
def specifierPiece (c : UInt8) : CString := if c = percent then [percent, percent] else [c]

theorem splitWords_plain {c : UInt8} (hq : c ≠ dquote) (hb : c ≠ backslash) (word s : CString) :
    splitWords (.quoted word) (c :: s) = splitWords (.quoted (word ++ [c])) s := by
  cases s <;> simp [splitWords, hq, hb]

theorem expandSpecifiers_plain {c : UInt8} (hp : c ≠ percent) (s : CString) :
    expandSpecifiers (c :: s) = (expandSpecifiers s).map (c :: ·) := by
  cases s <;> simp [expandSpecifiers, hp]

theorem splitWords_piece (c : UInt8) (word s : CString) :
    splitWords (.quoted word) (execPiece c ++ s) =
      splitWords (.quoted (word ++ specifierPiece c)) s := by
  unfold execPiece specifierPiece
  by_cases hb : c = backslash
  · subst hb
    simp [splitWords, backslash, dquote, percent]
  · by_cases hq : c = dquote
    · subst hq
      simp [splitWords, backslash, dquote, percent]
    · by_cases hp : c = percent
      · subst hp
        rw [if_neg hb, if_neg hq, if_pos rfl]
        simp only [List.cons_append, List.nil_append, splitWords_plain hq hb, List.append_assoc]
      · rw [if_neg hb, if_neg hq, if_neg hp, List.singleton_append, splitWords_plain hq hb]

theorem splitWords_path (path word s : CString) :
    splitWords (.quoted word) (path.flatMap execPiece ++ s) =
      splitWords (.quoted (word ++ path.flatMap specifierPiece)) s := by
  induction path generalizing word with
  | nil => simp
  | cons c path ih =>
      rw [List.flatMap_cons, List.flatMap_cons, List.append_assoc, splitWords_piece, ih,
        List.append_assoc]

theorem expandSpecifiers_path (path : CString) :
    expandSpecifiers (path.flatMap specifierPiece) = some path := by
  induction path with
  | nil => rfl
  | cons c path ih =>
      rw [List.flatMap_cons, specifierPiece]
      by_cases hp : c = percent
      · subst hp
        simp [expandSpecifiers, ih]
      · rw [if_neg hp, List.singleton_append, expandSpecifiers_plain hp, ih]
        rfl

/-- The path is read back, with the two arguments after it. -/
theorem commandLine_quotedPath (path : CString) :
    commandLine (execStart ++ (quotedPath path ++ ascii " daemon run")) =
      some [path, ascii "daemon", ascii "run"] := by
  have hwords : splitWords .between (quotedPath path ++ ascii " daemon run") =
      some [path.flatMap specifierPiece, ascii "daemon", ascii "run"] := by
    have hopen : splitWords .between (quotedPath path ++ ascii " daemon run") =
        splitWords (.quoted []) (path.flatMap execPiece ++ (dquote :: ascii " daemon run")) := by
      simp [quotedPath, splitWords, isBlank, dquote]
    rw [hopen, splitWords_path, List.nil_append]
    rfl
  rw [commandLine, List.drop_left, hwords]
  have hdaemon : expandSpecifiers (ascii "daemon") = some (ascii "daemon") := by decide +kernel
  have hrun : expandSpecifiers (ascii "run") = some (ascii "run") := by decide +kernel
  simp [expandSpecifiers_path, hdaemon, hrun]

theorem newline_quotedPath {path : CString} (h : newline ∉ path) : newline ∉ quotedPath path := by
  have hpiece : ∀ c, c ≠ newline → newline ∉ execPiece c := by
    intro c hc
    unfold execPiece
    split_ifs
    · decide
    · decide
    · decide
    · simpa using Ne.symm hc
  intro hmem
  simp only [quotedPath, List.mem_cons, List.mem_append, List.mem_flatMap, List.not_mem_nil,
    or_false] at hmem
  rcases hmem with hq | ⟨c, hc, hpc⟩ | hq
  · cases hq
  · exact hpiece c (fun heq => h (heq ▸ hc)) hpc
  · cases hq

/-- The line of the command is the only one of its kind. -/
theorem execLines_unitText {quoted : CString} (h : newline ∉ quoted) :
    execLines (unitText quoted) = [execStart ++ (quoted ++ ascii " daemon run")] := by
  have htext : unitText quoted = unitHead.dropLast ++
      newline :: ((execStart ++ (quoted ++ ascii " daemon run")) ++ newline :: unitTail) := by
    have hhead : unitHead = unitHead.dropLast ++ [newline] := by decide
    have hargs : ascii " daemon run\n" = ascii " daemon run" ++ [newline] := by decide
    rw [unitText, hargs]
    conv_lhs => rw [hhead]
    simp [execStart]
  have hline : newline ∉ execStart ++ (quoted ++ ascii " daemon run") := by
    have hstart : newline ∉ execStart := by decide
    have hargs : newline ∉ ascii " daemon run" := by decide
    simp [hstart, h, hargs]
  have hbefore : (unitHead.dropLast.splitOn newline).filter
      (fun line => execStart.isPrefixOf line) = [] := by decide
  have hafter : (unitTail.splitOn newline).filter
      (fun line => execStart.isPrefixOf line) = [] := by decide
  have hprefix : execStart.isPrefixOf (execStart ++ (quoted ++ ascii " daemon run")) = true :=
    List.isPrefixOf_iff_prefix.mpr (List.prefix_append _ _)
  rw [execLines, htext, List.splitOn_append_cons_self,
    List.splitOn_append_cons_self_of_not_mem hline, List.filter_append, hbefore,
    List.filter_cons_of_pos hprefix, hafter]
  rfl

end RoundTrip

/-- The unit is built without a write past either buffer. It is refused exactly when the quoted
path or the text does not fit, and otherwise runs the path with the two arguments. -/
theorem service_unit_runs_path {path : CString} (hnul : NulFree path) (hline : newline ∉ path)
    (size : ℕ) :
    ∃ unit, buildServiceUnit path size = .ok unit ∧
      (unit = none ↔ platformDaemonPathMax * 2 < (quotedPath path).length + 1 ∨
        size < (unitText (quotedPath path)).length + 1) ∧
      ∀ text, unit = some text → ∃ line, execLines text = [line] ∧
        commandLine line = some [path, ascii "daemon", ascii "run"] := by
  refine ⟨_, buildServiceUnit_eq hnul size, ?_, ?_⟩
  · split_ifs with hfits
    · refine iff_of_false (by simp) ?_
      omega
    · refine iff_of_true rfl ?_
      omega
  · intro text htext
    split_ifs at htext with hfits
    obtain rfl := Option.some.inj htext
    exact ⟨_, execLines_unitText (newline_quotedPath hline), commandLine_quotedPath path⟩

def oddPath : CString := ascii "/opt/My Apps/%h \"q\" \\b/muslimtify"

theorem service_unit_runs_path_odd : ∃ unit, buildServiceUnit oddPath 1024 = .ok (some unit) ∧
    ∃ line, execLines unit = [line] ∧
      commandLine line = some [oddPath, ascii "daemon", ascii "run"] := by
  obtain ⟨unit, hunit, hrefused, hruns⟩ :=
    service_unit_runs_path (by decide : NulFree oddPath) (by decide) 1024
  cases unit with
  | none =>
      have hfits : ¬(platformDaemonPathMax * 2 < (quotedPath oddPath).length + 1 ∨
          1024 < (unitText (quotedPath oddPath)).length + 1) := by decide +kernel
      exact absurd (hrefused.mp rfl) hfits
  | some text => exact ⟨text, hunit, hruns text rfl⟩

end Muslimtify.ServiceUnit
