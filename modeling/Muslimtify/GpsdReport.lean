import Muslimtify.NetworkReply

/-!
# One report of the receiver

gpsd reports in lines of JSON. A report of one of three classes shows that there
is a device, and one of class `TPV` with a mode of two or more may hold a fix. A
line as long as the parser's array, or longer, is passed over.

The coordinates are asked to begin with a number. What follows the number is not
looked at, though the comment over the test speaks of a full numeric parse.
-/
namespace Muslimtify.GpsdReport
open CText CDouble JsonReader NetworkReply

/-- `(int)strtol`: a `long` that is no `int` keeps its low 32 bits. -/
def atoi (s : CString) : ℤ := (strtol s).bmod (2 ^ 32)

structure GpsdScan where
  sawDevice : Bool
  haveFix : Bool
  lat : Double
  lng : Double
  deriving DecidableEq, Repr

/-- A scan at its start. -/
def GpsdScan.zero : GpsdScan := ⟨false, false, .zero, .zero⟩

def gpsdLineMax : ℕ := 8192

section Scan
variable (line : CString) (scan : GpsdScan)

/-- The coordinates of a report of class `TPV`, where it has any. -/
def tpvFix (buf : CString) : Option (Double × Double) :=
  match getValue (ascii "mode") buf, getValue (ascii "lat") buf, getValue (ascii "lon") buf with
  | some mode, some lat, some lon =>
      if 2 ≤ atoi mode then
        let dlat := strtodEnd lat
        let dlon := strtodEnd lon
        if dlat.2.length ≠ lat.length && dlon.2.length ≠ lon.length && dlat.1.isfinite &&
            dlon.1.isfinite && dlat.1.geRat (-90) && dlat.1.leRat 90 && dlon.1.geRat (-180) &&
            dlon.1.leRat 180 then
          some (dlat.1, dlon.1)
        else none
      else none
  | _, _, _ => none

def GpsdScan.store : Option (Double × Double) → GpsdScan
  | none => scan
  | some fix =>
      { scan with
        lat := fix.1
        lng := fix.2
        haveFix := true }

def gpsdScanLine : GpsdScan :=
  let buf := terminated line
  if buf.length = 0 ∨ gpsdLineMax ≤ buf.length then scan
  else
    match getValue (ascii "class") buf with
    | none => scan
    | some cls =>
        let scan :=
          if cls = ascii "TPV" ∨ cls = ascii "SKY" ∨ cls = ascii "DEVICE" then
            { scan with sawDevice := true }
          else scan
        if cls = ascii "TPV" then scan.store (tpvFix buf) else scan

/-- The class of a line that the parser considers. -/
def lineClass : Option CString :=
  if (terminated line).length < gpsdLineMax then getValue (ascii "class") (terminated line)
  else none

/-- The fix of a line. -/
def lineFix : Option (Double × Double) :=
  if lineClass line = some (ascii "TPV") then tpvFix (terminated line) else none

/-- Whether a line shows that there is a device. -/
def provesDevice : Bool :=
  lineClass line = some (ascii "TPV") || lineClass line = some (ascii "SKY") ||
    lineClass line = some (ascii "DEVICE")

theorem gpsdScanLine_eq : gpsdScanLine line scan =
    ({ scan with sawDevice := scan.sawDevice || provesDevice line }).store (lineFix line) := by
  unfold gpsdScanLine lineFix provesDevice lineClass
  dsimp only
  by_cases hempty : (terminated line).length = 0
  · rw [List.length_eq_zero_iff] at hempty
    rw [hempty]
    have hnone : getValue (ascii "class") [] = none := by decide
    simp [hnone, gpsdLineMax, GpsdScan.store]
  · by_cases hlong : gpsdLineMax ≤ (terminated line).length
    · simp [hlong, not_lt.mpr hlong, GpsdScan.store]
    · rw [if_neg (not_or.mpr ⟨hempty, hlong⟩), if_pos (not_le.mp hlong)]
      cases getValue (ascii "class") (terminated line) with
      | none => simp [GpsdScan.store]
      | some cls =>
          simp only [Option.some.injEq]
          by_cases htpv : cls = ascii "TPV"
          · simp [htpv]
          · by_cases hdevice : cls = ascii "SKY" ∨ cls = ascii "DEVICE"
            · simp [htpv, hdevice, GpsdScan.store]
            · simp [htpv, not_or.mp hdevice, GpsdScan.store]

end Scan

section Fixes

/-- The text begins with a number, finite and within the bounds, and goes on with `rest`. -/
structure StartsNumber (s : CString) (x : Double) (rest : CString) (lo hi : ℚ) : Prop where
  some_text : rest.length ≠ s.length
  read : strtodEnd s = (x, rest)
  finite : x.isfinite = true
  above : x.geRat lo = true
  below : x.leRat hi = true

/-- The line is one that the parser considers, of class `TPV` with a mode of two or more, and has
these texts for its coordinates. -/
structure Report (line lat lon : CString) : Prop where
  considered : (terminated line).length < gpsdLineMax
  tpv : getValue (ascii "class") (terminated line) = some (ascii "TPV")
  mode : ∃ mode, getValue (ascii "mode") (terminated line) = some mode ∧ 2 ≤ atoi mode
  latitude : getValue (ascii "lat") (terminated line) = some lat
  longitude : getValue (ascii "lon") (terminated line) = some lon

/-- A report whose coordinates are numbers to their last bytes. -/
def NumericReport (line : CString) (dlat dlon : Double) : Prop :=
  ∃ lat lon, Report line lat lon ∧ WholeNumber lat dlat (-90) 90 ∧
    WholeNumber lon dlon (-180) 180

/-- A fix is taken from a numeric report, both coordinates together, and from nothing else. -/
structure FixFromReport (line : CString) (scan : GpsdScan) : Prop where
  taken : ∀ dlat dlon, NumericReport line dlat dlon →
    (gpsdScanLine line scan).lat = dlat ∧ (gpsdScanLine line scan).lng = dlon ∧
      (gpsdScanLine line scan).haveFix = true
  kept : (¬∃ dlat dlon, NumericReport line dlat dlon) →
    (gpsdScanLine line scan).lat = scan.lat ∧ (gpsdScanLine line scan).lng = scan.lng ∧
      (gpsdScanLine line scan).haveFix = scan.haveFix

/-- A report whose coordinates begin with numbers, of which one goes on after its number, and
that are not those of the fix the scan has. -/
def PartlyNumeric (line : CString) (scan : GpsdScan) : Prop :=
  ∃ lat lon dlat dlon rest rest', Report line lat lon ∧ StartsNumber lat dlat rest (-90) 90 ∧
    StartsNumber lon dlon rest' (-180) 180 ∧ ¬(rest = [] ∧ rest' = []) ∧
      ¬(scan.lat = dlat ∧ scan.lng = dlon ∧ scan.haveFix = true)

/-- The parser takes a fix from every report whose coordinates begin with numbers. -/
theorem lineFix_iff {line : CString} {dlat dlon : Double} : lineFix line = some (dlat, dlon) ↔
    ∃ lat lon rest rest', Report line lat lon ∧ StartsNumber lat dlat rest (-90) 90 ∧
      StartsNumber lon dlon rest' (-180) 180 := by
  constructor
  · intro h
    have hclass : lineClass line = some (ascii "TPV") := by
      by_contra hother
      rw [lineFix, if_neg hother] at h
      cases h
    rw [lineFix, if_pos hclass] at h
    unfold lineClass at hclass
    split_ifs at hclass with hlen
    unfold tpvFix at h
    split at h
    · rename_i mode lat lon hmode hlat hlon
      dsimp only at h
      split_ifs at h with htwo hranges
      obtain ⟨rfl, rfl⟩ := Prod.mk.inj (Option.some.inj h)
      simp only [Bool.and_eq_true, decide_eq_true_eq] at hranges
      obtain ⟨⟨⟨⟨⟨⟨⟨hsome, hsome'⟩, hfin⟩, hfin'⟩, hs⟩, hn⟩, hw⟩, he⟩ := hranges
      exact ⟨lat, lon, _, _, ⟨hlen, hclass, ⟨mode, hmode, htwo⟩, hlat, hlon⟩,
        ⟨hsome, rfl, hfin, hs, hn⟩, ⟨hsome', rfl, hfin', hw, he⟩⟩
    · cases h
  · rintro ⟨lat, lon, rest, rest', hreport, hlat, hlon⟩
    obtain ⟨mode, hmode, htwo⟩ := hreport.mode
    have hclass : lineClass line = some (ascii "TPV") := by
      rw [lineClass, if_pos hreport.considered, hreport.tpv]
    rw [lineFix, if_pos hclass, tpvFix, hmode, hreport.latitude, hreport.longitude]
    simp only [htwo, if_true, hlat.read, hlon.read, hlat.finite, hlon.finite, hlat.above,
      hlat.below, hlon.above, hlon.below, ne_eq, hlat.some_text, hlon.some_text, not_false_eq_true,
      decide_true, Bool.and_self]

theorem wholeNumber_iff {s : CString} {x : Double} {lo hi : ℚ} :
    WholeNumber s x lo hi ↔ StartsNumber s x [] lo hi := by
  constructor
  · intro h
    exact ⟨fun hlen => h.some_text (List.length_eq_zero_iff.mp hlen.symm), h.to_end, h.finite,
      h.above, h.below⟩
  · intro h
    exact ⟨fun hnil => h.some_text (by rw [hnil]), h.read, h.finite, h.above, h.below⟩

/-- What a text begins with is determined. -/
theorem Report.same {line lat lon lat' lon' : CString} (h : Report line lat lon)
    (h' : Report line lat' lon') : lat = lat' ∧ lon = lon' :=
  ⟨Option.some.inj (h.latitude.symm.trans h'.latitude),
    Option.some.inj (h.longitude.symm.trans h'.longitude)⟩

theorem StartsNumber.same {s : CString} {x x' : Double} {rest rest' : CString} {lo hi : ℚ}
    (h : StartsNumber s x rest lo hi) (h' : StartsNumber s x' rest' lo hi) :
    x = x' ∧ rest = rest' :=
  Prod.mk.inj (h.read.symm.trans h'.read)

theorem store_fix (scan : GpsdScan) (line : CString) :
    (gpsdScanLine line scan).lat = ((lineFix line).map Prod.fst).getD scan.lat ∧
      (gpsdScanLine line scan).lng = ((lineFix line).map Prod.snd).getD scan.lng ∧
      (gpsdScanLine line scan).haveFix = (scan.haveFix || (lineFix line).isSome) := by
  rw [gpsdScanLine_eq]
  cases lineFix line <;> simp [GpsdScan.store]

/-- A fix is taken from a numeric report and from nothing else, exactly when the line does not
bring a new fix whose coordinates only begin with numbers. -/
theorem fix_from_report_iff (line : CString) (scan : GpsdScan) :
    FixFromReport line scan ↔ ¬PartlyNumeric line scan := by
  obtain ⟨hstoredLat, hstoredLng, hstored⟩ := store_fix scan line
  constructor
  · rintro h ⟨lat, lon, dlat, dlon, rest, rest', hreport, hlat, hlon, hgoes, hnew⟩
    have hfix := lineFix_iff.mpr ⟨lat, lon, rest, rest', hreport, hlat, hlon⟩
    have hnone : ¬∃ dlat dlon, NumericReport line dlat dlon := by
      rintro ⟨dlat', dlon', lat', lon', hreport', hlat', hlon'⟩
      obtain ⟨rfl, rfl⟩ := hreport.same hreport'
      exact hgoes ⟨(hlat.same (wholeNumber_iff.mp hlat')).2,
        (hlon.same (wholeNumber_iff.mp hlon')).2⟩
    obtain ⟨hkeptLat, hkeptLng, hkept⟩ := h.kept hnone
    rw [hfix] at hstoredLat hstoredLng hstored
    refine hnew ⟨hkeptLat.symm.trans hstoredLat, hkeptLng.symm.trans hstoredLng, ?_⟩
    rw [← hkept, hstored]
    simp
  · intro h
    constructor
    · rintro dlat dlon ⟨lat, lon, hreport, hlat, hlon⟩
      have hfix := lineFix_iff.mpr
        ⟨lat, lon, [], [], hreport, wholeNumber_iff.mp hlat, wholeNumber_iff.mp hlon⟩
      rw [hfix] at hstoredLat hstoredLng hstored
      exact ⟨hstoredLat, hstoredLng, by simp [hstored]⟩
    · intro hnone
      cases hfix : lineFix line with
      | none =>
          rw [hfix] at hstoredLat hstoredLng hstored
          exact ⟨hstoredLat, hstoredLng, by simp [hstored]⟩
      | some fix =>
          obtain ⟨dlat, dlon⟩ := fix
          obtain ⟨lat, lon, rest, rest', hreport, hlat, hlon⟩ := lineFix_iff.mp hfix
          -- one of the two goes on after its number, so the scan has this fix already
          have hgoes : ¬(rest = [] ∧ rest' = []) := by
            rintro ⟨rfl, rfl⟩
            exact hnone ⟨dlat, dlon, lat, lon, hreport, wholeNumber_iff.mpr hlat,
              wholeNumber_iff.mpr hlon⟩
          have hold : scan.lat = dlat ∧ scan.lng = dlon ∧ scan.haveFix = true := by
            by_contra hnew
            exact h ⟨lat, lon, dlat, dlon, rest, rest', hreport, hlat, hlon, hgoes, hnew⟩
          rw [hfix] at hstoredLat hstoredLng hstored
          refine ⟨hstoredLat.trans hold.1.symm, hstoredLng.trans hold.2.1.symm, ?_⟩
          rw [hstored, hold.2.2]
          rfl

/-- A report with letters after its numbers. -/
def partLine : CString :=
  ascii "\x7b\"class\":\"TPV\",\"mode\":3,\"lat\":\"-6.2S\",\"lon\":\"106.8E\"\x7d"

/-- Neither of its coordinates is a number. -/
theorem part_line_not_numeric (dlat dlon : Double) : ¬NumericReport partLine dlat dlon := by
  rintro ⟨lat, lon, hreport, hlat, -⟩
  have hvalue : getValue (ascii "lat") (terminated partLine) = some (ascii "-6.2S") := by
    decide +kernel
  obtain rfl := Option.some.inj (hvalue.symm.trans hreport.latitude)
  have hgoes : (strtodEnd (ascii "-6.2S")).2 = ascii "S" := by decide +kernel
  rw [hlat.to_end] at hgoes
  cases hgoes

theorem part_line_taken : ¬FixFromReport partLine .zero := by
  intro h
  have hkept := (h.kept fun ⟨dlat, dlon, hnumeric⟩ =>
    part_line_not_numeric dlat dlon hnumeric).2.2
  have htaken : (gpsdScanLine partLine .zero).haveFix = true := by decide +kernel
  rw [htaken] at hkept
  cases hkept

end Fixes

end Muslimtify.GpsdReport
