import Muslimtify.LocationFetch

/-!
# A reply of the network

The reply is text that anybody may have written. It is stored as a whole or not
at all: the coordinates have to be two numbers that are read to their ends, and a
zone or a country that is not one is passed over.

The limit of a zone's name and the size of the array it is kept in are set in two
places. A name may have as many bytes as the array, which then has no room for its
last one. `muslimtify_set_timezone` refuses such a name; the reply's is cut.

The reader hands out copies, so the cut at the comma of `loc` leaves the reply as
it is for the fields read after it.
-/
namespace Muslimtify.NetworkReply
open CText CDouble JsonReader Settings LocationFetch

section Names

/-- The bytes of a name in the zone database. -/
def nameByte (c : UInt8) : Bool :=
  (0x41 ≤ c && c ≤ 0x5a) || (0x61 ≤ c && c ≤ 0x7a) || (0x30 ≤ c && c ≤ 0x39) || c = 0x5f ||
    c = 0x2b || c = 0x2d || c = 0x2f

/-- The loop of `timezone_name_is_valid`, after `len` bytes. -/
def nameLoop (len : ℕ) : CString → Bool
  | [] => true
  | c :: s => if !nameByte c then false else if 64 < len + 1 then false else nameLoop (len + 1) s

def timezoneNameIsValid (name : CString) : Bool :=
  match name with
  | [] => false
  | c :: s => if c = colon then false else nameLoop 0 (c :: s)

theorem nameLoop_iff {len : ℕ} (hlen : len ≤ 64) (s : CString) : nameLoop len s = true ↔
    (∀ c ∈ s, nameByte c = true) ∧ len + s.length ≤ 64 := by
  induction s generalizing len with
  | nil => simpa [nameLoop] using hlen
  | cons c s ih =>
      rw [nameLoop, List.forall_mem_cons, List.length_cons]
      cases hc : nameByte c with
      | false => simp
      | true =>
          simp only [Bool.not_true, Bool.false_eq_true, if_false, true_and]
          by_cases hfull : 64 < len + 1
          · rw [if_pos hfull]
            simp only [Bool.false_eq_true, false_iff, not_and]
            omega
          · rw [if_neg hfull, ih (by omega)]
            apply and_congr_right
            omega

theorem timezoneNameIsValid_bytes {name : CString} (h : timezoneNameIsValid name = true) :
    (∀ c ∈ name, nameByte c = true) ∧ name.length ≤ 64 := by
  cases name with
  | nil => cases h
  | cons c s =>
      rw [timezoneNameIsValid] at h
      split_ifs at h
      simpa using (nameLoop_iff (Nat.zero_le 64) (c :: s)).mp h

theorem timezoneNameIsValid_nulFree {name : CString} (h : timezoneNameIsValid name = true) :
    NulFree name := by
  rintro c hc rfl
  exact absurd ((timezoneNameIsValid_bytes h).1 0 hc) (by decide)

/-- A name that keeps within the array is kept whole; a longer one has its first 63 bytes kept. -/
theorem copy_of_valid {name : CString} (h : timezoneNameIsValid name = true) :
    (copyString 64 name).text = name.take 63 := by
  simp only [copyString, terminated_eq (timezoneNameIsValid_nulFree h)]

end Names

section Replies
variable (env : Surroundings)

/-- The text is a number to its last byte, finite and within the bounds. -/
structure WholeNumber (s : CString) (x : Double) (lo hi : ℚ) : Prop where
  some_text : s ≠ []
  to_end : strtodEnd s = (x, [])
  finite : x.isfinite = true
  above : x.geRat lo = true
  below : x.leRat hi = true

/-- What an applied reply may have done to the settings. -/
structure Applied (body : CString) (cfg stored : Config) : Prop where
  coordinates : ∃ before after,
    getValue (ascii "loc") body = some (before ++ comma :: after) ∧ comma ∉ before ∧
      WholeNumber before stored.latitude (-90) 90 ∧ WholeNumber after stored.longitude (-180) 180
  timezone : stored.timezone = cfg.timezone ∨ env.timezoneExists stored.timezone.text = true
  country : stored.country = cfg.country ∨ countryIsValidAlpha2 stored.country.text = true
  others : stored =
    { cfg with
      latitude := stored.latitude
      longitude := stored.longitude
      timezone := stored.timezone
      timezoneOffset := stored.timezoneOffset
      country := stored.country
      updatedAt := stored.updatedAt }

/-- The reply is applied whole or not at all. -/
structure WholeOrNot (cfg : Config) (body : CString) : Prop where
  rejected : ((locationParseIpinfo env body).run cfg).1 = false →
    ((locationParseIpinfo env body).run cfg).2 = cfg
  applied : ((locationParseIpinfo env body).run cfg).1 = true →
    Applied env (terminated body) cfg ((locationParseIpinfo env body).run cfg).2

/-- The reply has coordinates and names a zone that fills the array, so that what is kept of the
name is neither the old zone nor one that exists. -/
def CutName (cfg : Config) (body : CString) : Prop :=
  ((getValue (ascii "loc") (terminated body)).bind parseLoc).isSome = true ∧
    ∃ name, getValue (ascii "timezone") (terminated body) = some name ∧
      env.timezoneExists name = true ∧ name.length = 64 ∧ name.take 63 ≠ cfg.timezone.text ∧
        env.timezoneExists (name.take 63) = false

theorem parseLoc_whole {loc : CString} {lat lon : Double} (h : parseLoc loc = some (lat, lon)) :
    ∃ before after, loc = before ++ comma :: after ∧ comma ∉ before ∧
      WholeNumber before lat (-90) 90 ∧ WholeNumber after lon (-180) 180 := by
  have hsplit := List.takeWhile_append_dropWhile (p := fun c => decide (c ≠ comma)) (l := loc)
  have hhead := List.head?_dropWhile_not (fun c => decide (c ≠ comma)) loc
  rw [parseLoc, List.span_eq_takeWhile_dropWhile] at h
  cases hrest : loc.dropWhile fun c => decide (c ≠ comma) with
  | nil =>
      rw [hrest] at h
      cases h
  | cons c after =>
      rw [hrest] at h hsplit hhead
      have hc : c = comma := by simpa using hhead
      rw [hc] at hsplit
      dsimp only at h
      split_ifs at h with hbad
      obtain ⟨rfl, rfl⟩ := Prod.mk.inj (Option.some.inj h)
      simp only [Bool.or_eq_true, decide_eq_true_eq, Bool.not_eq_true', not_or,
        Bool.not_eq_false, ne_eq, not_not] at hbad
      obtain ⟨⟨⟨⟨⟨⟨⟨⟨⟨hlat, hlat'⟩, hlon⟩, hlon'⟩, hflat⟩, hflon⟩, hs⟩, hn⟩, hw⟩, he⟩ := hbad
      refine ⟨_, after, hsplit.symm, fun hmem => ?_, ⟨?_, Prod.ext rfl hlat', hflat, hs, hn⟩,
        ⟨?_, Prod.ext rfl hlon', hflon, hw, he⟩⟩
      · simpa using List.mem_takeWhile_imp hmem
      · intro hnil
        rw [hlat', hnil] at hlat
        exact hlat rfl
      · intro hnil
        rw [hlon', hnil] at hlon
        exact hlon rfl

/-- A country that is one has two bytes. -/
theorem copy_of_country {country : CString} (h : countryIsValidAlpha2 country = true) :
    (copyString 64 country).text = country := by
  unfold countryIsValidAlpha2 countryFind at h
  obtain ⟨method, hfind⟩ := Option.isSome_iff_exists.mp h
  obtain ⟨key, hkey, -⟩ := Option.bind_eq_some_iff.mp hfind
  unfold countryKey at hkey
  split at hkey
  · rename_i a b
    split_ifs at hkey with halpha
    have hnul : NulFree [a, b] := by
      intro c hc
      rintro rfl
      simp only [List.mem_cons, List.not_mem_nil, or_false] at hc
      rcases hc with rfl | rfl <;> simp [isalpha] at halpha
    exact copyString_of_fits hnul (by simp)
  · cases hkey

theorem knownZone_iff {body name : CString} : knownZone env body = some name ↔
    getValue (ascii "timezone") body = some name ∧ env.timezoneExists name = true := by
  rw [knownZone, Option.filter_eq_some_iff]

/-- The array holds the old zone or one that exists, unless a name of 64 bytes was cut. -/
theorem zone_kept_iff
    (hnames : ∀ name, env.timezoneExists name = true → timezoneNameIsValid name = true)
    (old : CBuffer 64) (body : CString) {kept : CBuffer 64}
    (hkept : kept = ((knownZone env body).map (copyString 64)).getD old) :
    (kept = old ∨ env.timezoneExists kept.text = true) ↔
      ¬∃ name, getValue (ascii "timezone") body = some name ∧ env.timezoneExists name = true ∧
        name.length = 64 ∧ name.take 63 ≠ old.text ∧ env.timezoneExists (name.take 63) = false := by
  cases hzone : knownZone env body with
  | none =>
      rw [hzone] at hkept
      refine iff_of_true (.inl hkept) ?_
      rintro ⟨name, hname, hexists, -⟩
      have := (knownZone_iff env).mpr ⟨hname, hexists⟩
      rw [hzone] at this
      cases this
  | some name =>
      obtain ⟨hname, hexists⟩ := (knownZone_iff env).mp hzone
      have htext : kept.text = name.take 63 := by
        rw [hkept, hzone]
        exact copy_of_valid (hnames name hexists)
      constructor
      · rintro hold ⟨name', hname', -, -, hne, hgone⟩
        obtain rfl := Option.some.inj (hname.symm.trans hname')
        rcases hold with rfl | hnew
        · exact hne htext.symm
        · rw [htext, hgone] at hnew
          cases hnew
      · intro huncut
        by_contra hneither
        obtain ⟨hne, hgone⟩ := not_or.mp hneither
        rw [htext, Bool.not_eq_true] at hgone
        refine huncut ⟨name, hname, hexists, ?_, fun heq => hne ?_, hgone⟩
        · -- a shorter name is its own cut, and exists
          have hle := (timezoneNameIsValid_bytes (hnames name hexists)).2
          by_contra hlen
          rw [List.take_of_length_le (by omega), hexists] at hgone
          cases hgone
        · rw [← copyString_text kept, htext, heq, copyString_text]

/-- A reply is stored whole or not at all, and everything in it was looked at, exactly when it
does not name a zone of 64 bytes that is another one without its last byte. -/
theorem reply_whole_or_not_iff
    (hnames : ∀ name, env.timezoneExists name = true → timezoneNameIsValid name = true)
    (cfg : Config) (body : CString) :
    WholeOrNot env cfg body ↔ ¬CutName env cfg body := by
  unfold CutName
  cases hloc : (getValue (ascii "loc") (terminated body)).bind parseLoc with
  | none =>
      have hrun := locationParseIpinfo_rejected env cfg hloc
      refine iff_of_true ⟨fun _ => by rw [hrun], fun happlied => ?_⟩ (by simp)
      rw [hrun] at happlied
      cases happlied
  | some place =>
      obtain ⟨lat, lon⟩ := place
      obtain ⟨loc, hvalue, hparse⟩ := Option.bind_eq_some_iff.mp hloc
      obtain ⟨before, after, rfl, hnone, hlat, hlon⟩ := parseLoc_whole hparse
      have hrun := locationParseIpinfo_applied env cfg hloc
      simp only [Option.isSome_some, true_and]
      rw [← zone_kept_iff env hnames cfg.timezone (terminated body) rfl]
      constructor
      · intro h
        have happlied := h.applied (by rw [hrun])
        rw [hrun] at happlied
        exact happlied.timezone
      · intro hzone
        refine ⟨fun hrejected => ?_, fun _ => ?_⟩
        · rw [hrun] at hrejected
          cases hrejected
        · rw [hrun]
          refine ⟨⟨before, after, hvalue, hnone, hlat, hlon⟩, hzone, ?_, rfl⟩
          cases hcountry : knownCountry (terminated body) with
          | none => exact .inl rfl
          | some country =>
              right
              have hvalid := (Option.filter_eq_some_iff.mp hcountry).2
              rw [Option.map_some, Option.getD_some, copy_of_country hvalid]
              exact hvalid

end Replies

section Slashes

/-- A path with every run of slashes taken for one. -/
def singleSlashes : CString → CString
  | [] => []
  | c :: s => if c = 0x2f ∧ s.head? = some 0x2f then singleSlashes s else c :: singleSlashes s

/-- A host whose zone database has the one file `Asia/Tokyo`. -/
def tokyoHost : Surroundings where
  timezoneExists name := timezoneNameIsValid name && singleSlashes name = ascii "Asia/Tokyo"
  parseTimezoneOffset _ := .ofRat 9
  systemTimezone := copyString 64 (ascii "Asia/Tokyo")
  time := 1767225600
  time_range := by decide
  receiver := .noFix
  receiverLat := .nan
  receiverLng := .nan
  reply := none
  resolve _ := .notFound
  configFile := none
  configOpens := true

theorem tokyoHost_names (name : CString) (h : tokyoHost.timezoneExists name = true) :
    timezoneNameIsValid name = true := (Bool.and_eq_true_iff.mp h).1

/-- The zone's name with as many slashes as make it 64 bytes. -/
def longTokyo : String := "Asia" ++ String.ofList (List.replicate 55 '/') ++ "Tokyo"

def replyWith (zone : String) : CString :=
  ascii ("\x7b\"loc\":\"35.6895,139.6917\",\"timezone\":\"" ++ zone ++ "\",\"country\":\"JP\"\x7d")

/-- What is kept of the long name is another one, which nothing is known of. -/
theorem long_tokyo_stored :
    ((locationParseIpinfo tokyoHost (replyWith longTokyo)).run configDefault).1 = true ∧
      let kept :=
        ((locationParseIpinfo tokyoHost (replyWith longTokyo)).run configDefault).2.timezone
      kept ≠ configDefault.timezone ∧ tokyoHost.timezoneExists kept.text = false := by
  decide +kernel

theorem long_tokyo_cut :
    (∀ name, tokyoHost.timezoneExists name = true → timezoneNameIsValid name = true) ∧
      ¬WholeOrNot tokyoHost configDefault (replyWith longTokyo) := by
  refine ⟨tokyoHost_names, fun h => ?_⟩
  obtain ⟨happlied, hnew, hgone⟩ := long_tokyo_stored
  rcases (h.applied happlied).timezone with hold | hknown
  · exact hnew hold
  · exact absurd hknown (Bool.eq_false_iff.mp hgone)

theorem reply_whole_or_not_tokyo :
    WholeOrNot tokyoHost configDefault (replyWith "Asia/Tokyo") := by
  refine (reply_whole_or_not_iff tokyoHost tokyoHost_names configDefault _).mpr ?_
  rintro ⟨-, name, hname, -, hlen, -⟩
  have hvalue : getValue (ascii "timezone") (terminated (replyWith "Asia/Tokyo")) =
      some (ascii "Asia/Tokyo") := by
    decide +kernel
  obtain rfl := Option.some.inj (hvalue.symm.trans hname)
  exact absurd hlen (by decide)

end Slashes

end Muslimtify.NetworkReply
