import Muslimtify.CMemory
import Muslimtify.GpsdReport
import Muslimtify.LineStream

/-!
# The receiver's stream

The socket hands the stream out in pieces of its own choosing. Their bytes are
put together to lines in an array of fixed size, over any number of pieces, and
each line that ends is scanned. The rest of a line that is too long for the
array is dropped. Reading ends with a fix, with enough lines, at the deadline or
when nothing comes any more.

The bytes are written into the array where the source writes them, so that a
write past its end is a fault.
-/
namespace Muslimtify.GpsdClient
open CText CDouble CMemory Detection GpsdReport LineStream LocationFetch Settings

section Reading

def gpsdReadDeadlineMs : ℤ := 5000

def gpsdMaxLines : ℕ := 256

def newline : UInt8 := 0x0a

/-- A result of `recv` into an array of 2048 bytes. -/
inductive Received
  | bytes (piece : CString) (sized : 0 < piece.length ∧ piece.length ≤ 2048)
  | interrupted
  | failed
  | closed

/-- The clock at one turn of the loop, in milliseconds, and what is received after it. -/
structure Turn where
  now : ℤ
  received : Received

/-- The outside of one call: whether gpsd is connected to and takes the request, the clock after
that, what the array of the line happens to hold, and the turns. After the last of them the
peer has closed. -/
structure Gpsd where
  connected : Bool
  asked : Bool
  start : ℤ
  stack : CString
  stack_length : stack.length = gpsdLineMax
  turns : List Turn

/-- The variables of `platform_get_location`. -/
structure Reader where
  scan : GpsdScan
  line : CString
  lineLen : ℕ
  lineOverflow : Bool
  linesSeen : ℕ

/-- An assignment to an element of an array. -/
def assign (mem : CString) (i : ℕ) (b : UInt8) : Checked CString :=
  if i < mem.length then .ok (mem.set i b) else .error .bufferOverflow

/-- The body of the loop over a piece, for one byte. -/
def readByte (st : Reader) (c : UInt8) : Checked Reader :=
  if c = newline then do
    let st ←
      if !st.lineOverflow then do
        let line ← assign st.line st.lineLen 0
        pure { st with
          line := line
          scan := gpsdScanLine line st.scan
          linesSeen := st.linesSeen + 1 }
      else pure st
    return { st with
      lineLen := 0
      lineOverflow := false }
  else if !st.lineOverflow then
    if st.lineLen < gpsdLineMax - 1 then do
      let line ← assign st.line st.lineLen c
      return { st with
        line := line
        lineLen := st.lineLen + 1 }
    else return { st with lineOverflow := true }
  else return st

/-- The loop over a piece. Only after a newline is the number of lines looked at. -/
def readPiece : CString → Reader → Checked Reader
  | [], st => return st
  | c :: cs, st =>
      if st.scan.haveFix then return st
      else do
        let st ← readByte st c
        if c = newline ∧ gpsdMaxLines ≤ st.linesSeen then return st else readPiece cs st

def readLoop (deadline : ℤ) : List Turn → Reader → Checked Reader
  | [], st => return st
  | turn :: turns, st =>
      if st.scan.haveFix ∨ gpsdMaxLines ≤ st.linesSeen then return st
      else if deadline ≤ turn.now then return st
      else
        match turn.received with
        | .bytes piece _ => do
            let st ← readPiece piece st
            readLoop deadline turns st
        | .interrupted => readLoop deadline turns st
        | .failed | .closed => return st

/-- What a scan comes to: a status, and the coordinates with `GPS_OK`. -/
def locationStatus (scan : GpsdScan) : GpsStatus × Option (Double × Double) :=
  if scan.haveFix then (.ok, some (scan.lat, scan.lng))
  else if !scan.sawDevice then (.noDevice, none)
  else (.noFix, none)

def platformGetLocation (gpsd : Gpsd) : Checked (GpsStatus × Option (Double × Double)) :=
  if !gpsd.connected then return (.noDaemon, none)
  else if !gpsd.asked then return (.noDaemon, none)
  else do
    let st ← readLoop (gpsd.start + gpsdReadDeadlineMs) gpsd.turns ⟨.zero, gpsd.stack, 0, false, 0⟩
    return locationStatus st.scan

end Reading

section Streams

/-- The pieces that are received, without the turns in which the call was interrupted. -/
def pieces (turns : List Turn) : List CString :=
  turns.filterMap fun turn =>
    match turn.received with
    | .bytes piece _ => some piece
    | _ => none

/-- Every turn of the loop comes before the deadline and brings bytes or an interruption. -/
def Undisturbed (gpsd : Gpsd) : Prop :=
  ∀ turn ∈ gpsd.turns, turn.now < gpsd.start + gpsdReadDeadlineMs ∧
    (turn.received = .interrupted ∨ ∃ piece sized, turn.received = .bytes piece sized)

/-- The first of the lines of the stream that the array has room for, as many as are scanned. -/
def scannedLines (stream : CString) : List CString :=
  ((completeLines newline stream).filter fun line => line.length ≤ gpsdLineMax - 1).take
    gpsdMaxLines

/-- The scan of lines in order until one has a fix. -/
def scanUntilFix (lines : List CString) : GpsdScan :=
  feedUntil GpsdScan.haveFix (fun scan line => gpsdScanLine line scan) lines .zero

/-- The first fix of some lines, and without one whether a line proves a device. -/
def locationOf (lines : List CString) : GpsStatus × Option (Double × Double) :=
  match lines.findSome? lineFix with
  | some fix => (.ok, some fix)
  | none => if lines.any provesDevice then (.noFix, none) else (.noDevice, none)

end Streams

section Bytes

/-- Where both loops stop. -/
def done (st : Reader) : Bool := st.scan.haveFix || gpsdMaxLines ≤ st.linesSeen

theorem assign_ok {mem : CString} {i : ℕ} (h : i < mem.length) (b : UInt8) :
    assign mem i b = .ok (mem.set i b) := if_pos h

theorem readByte_linesSeen {st st' : Reader} {c : UInt8} (hc : c ≠ newline)
    (h : readByte st c = .ok st') : st'.linesSeen = st.linesSeen := by
  unfold readByte at h
  rw [if_neg hc] at h
  split_ifs at h with hover hroom
  · unfold assign at h
    split_ifs at h with hfits
    · obtain rfl := Except.ok.inj h
      rfl
    · cases h
  · obtain rfl := Except.ok.inj h
    rfl
  · obtain rfl := Except.ok.inj h
    rfl

/-- The loop over a piece may ask about the lines at every byte. -/
theorem readPiece_eq (piece : CString) {st : Reader} (h : st.linesSeen < gpsdMaxLines) :
    readPiece piece st = runUntil done readByte piece st := by
  induction piece generalizing st with
  | nil => rfl
  | cons c cs ih =>
      cases hfix : st.scan.haveFix with
      | true =>
          rw [readPiece, if_pos hfix, runUntil_done (by simp [done, hfix])]
          rfl
      | false =>
          rw [readPiece, if_neg (by simp [hfix]), runUntil_live (by simp [done, hfix, h])]
          cases hbyte : readByte st c with
          | error fault => rfl
          | ok st' =>
              rw [ok_bind, ok_bind]
              by_cases hfull : gpsdMaxLines ≤ st'.linesSeen
              · have hc : c = newline := by
                  by_contra hc
                  have := readByte_linesSeen hc hbyte
                  omega
                rw [if_pos ⟨hc, hfull⟩, runUntil_done (by simp [done, hfull])]
                rfl
              · rw [if_neg fun hend => hfull hend.2]
                exact ih (not_le.mp hfull)

/-- How the stream is cut does not matter. -/
theorem readLoop_eq {deadline : ℤ} {turns : List Turn}
    (h : ∀ turn ∈ turns, turn.now < deadline ∧
      (turn.received = .interrupted ∨ ∃ piece sized, turn.received = .bytes piece sized))
    (st : Reader) :
    readLoop deadline turns st = runUntil done readByte (pieces turns).flatten st := by
  rw [← runUntil_pieces]
  induction turns generalizing st with
  | nil => rfl
  | cons turn turns ih =>
      have hrest := ih fun t ht => h t (List.mem_cons_of_mem turn ht)
      obtain ⟨hnow, hreceived⟩ := h turn List.mem_cons_self
      cases hdone : done st with
      | true =>
          have hstop : st.scan.haveFix = true ∨ gpsdMaxLines ≤ st.linesSeen := by
            simpa [done] using hdone
          rw [readLoop, if_pos hstop, runUntil_done hdone]
          rfl
      | false =>
          have hgo : ¬(st.scan.haveFix = true ∨ gpsdMaxLines ≤ st.linesSeen) := by
            simpa [done] using hdone
          rw [readLoop, if_neg hgo, if_neg (by omega)]
          rcases hreceived with hint | ⟨piece, sized, hbytes⟩
          · have hpieces : pieces (turn :: turns) = pieces turns := by simp [pieces, hint]
            rw [hpieces, hint]
            exact hrest st
          · have hpieces : pieces (turn :: turns) = piece :: pieces turns := by
              simp [pieces, hbytes]
            rw [hpieces, hbytes, runUntil_live hdone]
            dsimp only
            rw [readPiece_eq piece (not_le.mp (not_or.mp hgo).2)]
            cases runUntil done readByte piece st with
            | error fault => rfl
            | ok st' => exact hrest st'

end Bytes

section Lines

/-- What a line that has ended does to the scan and to the number of lines. -/
def absorb (t : GpsdScan × ℕ) (line : CString) : GpsdScan × ℕ :=
  if line.length ≤ gpsdLineMax - 1 then (gpsdScanLine line t.1, t.2 + 1) else t

def stop (t : GpsdScan × ℕ) : Bool := t.1.haveFix || gpsdMaxLines ≤ t.2

/-- The array holds the line so far while there is room for it. -/
structure Live (line : CString) (st : Reader) (t : GpsdScan × ℕ) : Prop where
  scan : st.scan = t.1
  seen : st.linesSeen = t.2
  array : st.line.length = gpsdLineMax
  overflow : st.lineOverflow = decide (gpsdLineMax - 1 < line.length)
  held : line.length ≤ gpsdLineMax - 1 → st.lineLen = line.length ∧ st.line.take line.length = line

theorem terminated_append_zero (s rest : CString) : terminated (s ++ 0 :: rest) = terminated s := by
  induction s with
  | nil => rfl
  | cons c s ih =>
      simp only [terminated, List.cons_append, List.takeWhile_cons] at ih ⊢
      split_ifs
      · rw [ih]
      · rfl

theorem gpsdScanLine_congr {line line' : CString} (h : terminated line = terminated line')
    (scan : GpsdScan) : gpsdScanLine line scan = gpsdScanLine line' scan := by
  rw [gpsdScanLine, gpsdScanLine, h]

/-- An array whose beginning is known, after one more assignment. -/
theorem set_of_take {mem line : CString} (hlen : line.length < mem.length)
    (htake : mem.take line.length = line) (b : UInt8) :
    mem.set line.length b = line ++ b :: mem.drop (line.length + 1) := by
  rw [List.set_eq_take_append_cons_drop, if_pos hlen, htake]

section Bytewise
variable {line : CString} {st : Reader} {t : GpsdScan × ℕ}

theorem Live.symbol (h : Live line st t) {c : UInt8} (hc : c ≠ newline) :
    ∃ st', readByte st c = .ok st' ∧ Live (line ++ [c]) st' t := by
  unfold readByte
  rw [if_neg hc, h.overflow]
  by_cases hlong : gpsdLineMax - 1 < line.length
  · refine ⟨st, by simp [hlong], h.scan, h.seen, h.array, ?_, ?_⟩
    · rw [h.overflow, List.length_append, decide_eq_decide]
      omega
    · rw [List.length_append]
      omega
  · obtain ⟨hlen, htake⟩ := h.held (by omega)
    rw [if_pos (by simp [hlong]), hlen]
    by_cases hroom : line.length < gpsdLineMax - 1
    · have hfits : line.length < st.line.length := by
        rw [h.array]
        omega
      rw [if_pos hroom, assign_ok hfits]
      refine ⟨_, rfl, h.scan, h.seen, by simpa using h.array, ?_, fun _ => ⟨by simp, ?_⟩⟩
      · dsimp only
        rw [decide_eq_decide, List.length_append, List.length_singleton]
        omega
      · dsimp only
        rw [set_of_take hfits htake, List.append_cons line c (st.line.drop _), List.take_left]
    · rw [if_neg hroom]
      refine ⟨_, rfl, h.scan, h.seen, h.array, ?_, ?_⟩
      · rw [eq_comm, decide_eq_true_eq, List.length_append, List.length_singleton]
        omega
      · rw [List.length_append, List.length_singleton]
        omega

theorem Live.separator (h : Live line st t) :
    ∃ st', readByte st newline = .ok st' ∧ Live [] st' (absorb t line) := by
  unfold readByte absorb
  rw [if_pos rfl, h.overflow]
  by_cases hlong : gpsdLineMax - 1 < line.length
  · rw [if_neg (not_le.mpr hlong)]
    refine ⟨{ st with
      lineLen := 0
      lineOverflow := false }, by simp [hlong], h.scan, h.seen, h.array, by simp, ?_⟩
    simp
  · obtain ⟨hlen, htake⟩ := h.held (by omega)
    have hfits : line.length < st.line.length := by
      rw [h.array]
      simp only [gpsdLineMax] at hlong ⊢
      omega
    have hscanned : gpsdScanLine (st.line.set line.length 0) st.scan = gpsdScanLine line t.1 := by
      rw [← h.scan, set_of_take hfits htake]
      exact gpsdScanLine_congr (terminated_append_zero line _) st.scan
    rw [if_pos (not_lt.mp hlong), if_pos (by simp [hlong]), hlen, assign_ok hfits]
    refine ⟨_, rfl, hscanned, ?_, by simpa using h.array, by simp, by simp⟩
    rw [← h.seen]

end Bytewise

theorem reader_assembles : Assembles newline done readByte stop absorb Live where
  done_iff h := by rw [done, stop, h.scan, h.seen]
  symbol h _ hc := h.symbol hc
  separator h _ := h.separator

/-- Of the lines that come to be scanned, as many as there is room for are counted. -/
theorem feedUntil_absorb (lines : List CString) (scan : GpsdScan) (seen : ℕ) :
    (feedUntil stop absorb lines (scan, seen)).1 =
      feedUntil GpsdScan.haveFix (fun scan line => gpsdScanLine line scan)
        ((lines.filter fun line => line.length ≤ gpsdLineMax - 1).take (gpsdMaxLines - seen))
        scan := by
  induction lines generalizing scan seen with
  | nil =>
      rw [List.filter_nil, List.take_nil]
      rfl
  | cons line lines ih =>
      cases hfix : scan.haveFix with
      | true =>
          rw [feedUntil_done (by simp [stop, hfix]), feedUntil_done hfix]
      | false =>
          by_cases hfull : gpsdMaxLines ≤ seen
          · rw [feedUntil_done (by simp [stop, hfull]), Nat.sub_eq_zero_of_le hfull, List.take_zero]
            rfl
          · rw [feedUntil_live (by simp [stop, hfix, hfull])]
            by_cases hshort : line.length ≤ gpsdLineMax - 1
            · have hroom : gpsdMaxLines - seen = (gpsdMaxLines - (seen + 1)) + 1 := by omega
              rw [absorb, if_pos hshort, ih, List.filter_cons_of_pos (by simpa using hshort), hroom,
                List.take_succ_cons, feedUntil_live hfix]
            · rw [absorb, if_neg hshort, ih, List.filter_cons_of_neg (by simpa using hshort)]

/-- Lines that are scanned until one has a fix come to the first of their fixes. -/
theorem locationStatus_feedUntil (lines : List CString) {scan : GpsdScan}
    (h : scan.haveFix = false) :
    locationStatus
        (feedUntil GpsdScan.haveFix (fun scan line => gpsdScanLine line scan) lines scan) =
      match lines.findSome? lineFix with
      | some fix => (.ok, some fix)
      | none =>
          if scan.sawDevice || lines.any provesDevice then (.noFix, none)
          else (.noDevice, none) := by
  induction lines generalizing scan with
  | nil =>
      rw [feedUntil, locationStatus, if_neg (by simp [h])]
      cases scan.sawDevice <;> rfl
  | cons line lines ih =>
      rw [feedUntil_live h, gpsdScanLine_eq, List.findSome?_cons]
      cases hfix : lineFix line with
      | some fix =>
          rw [feedUntil_done (by simp [GpsdScan.store])]
          rfl
      | none =>
          have hnext : ({ scan with
              sawDevice := scan.sawDevice || provesDevice line } : GpsdScan).haveFix = false := h
          rw [GpsdScan.store, ih hnext]
          dsimp only
          rw [List.any_cons, Bool.or_assoc]

end Lines

/-- Where nothing disturbs the call, its outcome is that of the lines of the stream, however the
stream is cut, and no byte is written outside the array. -/
theorem location_of_lines (gpsd : Gpsd) (hconnected : gpsd.connected = true)
    (hasked : gpsd.asked = true) (h : Undisturbed gpsd) :
    let lines := scannedLines (pieces gpsd.turns).flatten
    platformGetLocation gpsd = .ok (locationStatus (scanUntilFix lines)) ∧
      locationStatus (scanUntilFix lines) = locationOf lines := by
  have hstart : Live [] ⟨.zero, gpsd.stack, 0, false, 0⟩ (.zero, 0) :=
    ⟨rfl, rfl, gpsd.stack_length, rfl, fun _ => ⟨rfl, rfl⟩⟩
  obtain ⟨st, line, hrun, hlive⟩ := runUntil_lines reader_assembles hstart List.not_mem_nil
    (pieces gpsd.turns).flatten
  have hscan : st.scan = scanUntilFix (scannedLines (pieces gpsd.turns).flatten) := by
    rw [hlive.scan, List.nil_append, feedUntil_absorb]
    rfl
  constructor
  · rw [platformGetLocation, if_neg (by simp [hconnected]), if_neg (by simp [hasked]),
      readLoop_eq h, hrun, ok_bind, hscan]
    rfl
  · rw [scanUntilFix, locationStatus_feedUntil _ rfl]
    rfl

/-- A fix whose line is cut between two pieces, with an interruption in between. -/
def cutGpsd : Gpsd where
  connected := true
  asked := true
  start := 0
  stack := List.replicate gpsdLineMax 0xaa
  stack_length := List.length_replicate
  turns :=
    [⟨1, .bytes (ascii ("\x7b\"class\":\"SKY\"\x7d\n" ++
        "\x7b\"class\":\"TPV\",\"mode\":3,\"la")) (by decide)⟩,
      ⟨2, .interrupted⟩,
      ⟨3, .bytes (ascii "t\":-6.2,\"lon\":106.8\x7d\n\x7b\"class\":") (by decide)⟩]

theorem cutGpsd_undisturbed : Undisturbed cutGpsd := by
  intro turn hturn
  simp only [cutGpsd, List.mem_cons, List.not_mem_nil, or_false] at hturn
  rcases hturn with rfl | rfl | rfl
  · exact ⟨by decide, .inr ⟨_, _, rfl⟩⟩
  · exact ⟨by decide, .inl rfl⟩
  · exact ⟨by decide, .inr ⟨_, _, rfl⟩⟩

theorem location_of_lines_cut : platformGetLocation cutGpsd =
    .ok (.ok, some (.ofRat (-31 / 5), .ofRat (534 / 5))) := by
  obtain ⟨hrun, hlines⟩ := location_of_lines cutGpsd rfl rfl cutGpsd_undisturbed
  have hfix : locationOf (scannedLines (pieces cutGpsd.turns).flatten) =
      (.ok, some (.ofRat (-31 / 5), .ofRat (534 / 5))) := by
    decide +kernel
  rw [hrun, hlines, hfix]

section Lookup
variable (env : Surroundings)

/-- The surroundings of a lookup in which the receiver answers as such a call came out. -/
def hearing (outcome : GpsStatus × Option (Double × Double)) : Surroundings :=
  { env with
    receiver := outcome.1
    receiverLat := (outcome.2.map Prod.fst).getD .zero
    receiverLng := (outcome.2.map Prod.snd).getD .zero }

/-- The lookup refuses no fix that the scan has taken. -/
theorem locationFetchGps_hearing (cfg : Config) (lines : List CString) :
    (locationFetchGps (hearing env (locationOf lines))).run cfg =
      match lines.findSome? lineFix with
      | some fix =>
          (.ok, { cfg with
            latitude := fix.1
            longitude := fix.2
            timezone := env.systemTimezone
            timezoneOffset := env.parseTimezoneOffset env.systemTimezone.text
            updatedAt := env.time })
      | none => ((locationOf lines).1, cfg) := by
  cases hfix : lines.findSome? lineFix with
  | some fix =>
      obtain ⟨line, -, hline⟩ := List.exists_of_findSome?_eq_some hfix
      obtain ⟨lat, lon, rest, rest', -, hlat, hlon⟩ := lineFix_iff.mp hline
      have hrange : (fix.1.geRat (-90) && fix.1.leRat 90 && fix.2.geRat (-180) &&
          fix.2.leRat 180) = true := by
        rw [hlat.above, hlat.below, hlon.above, hlon.below]
        rfl
      have houtcome : locationOf lines = (.ok, some fix) := by rw [locationOf, hfix]
      rw [houtcome]
      simp only [locationFetchGps, hearing, Option.map_some, Option.getD_some, hrange]
      rfl
  | none =>
      have hstatus : (locationOf lines).1 ≠ .ok := by
        rw [locationOf, hfix]
        dsimp only
        split_ifs <;> decide
      simp only [locationFetchGps, hearing, ne_eq, hstatus, not_false_eq_true, if_true]
      rfl

end Lookup

end Muslimtify.GpsdClient
