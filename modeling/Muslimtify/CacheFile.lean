import Muslimtify.ConfigFile
import Muslimtify.JsonWriter
import Muslimtify.TriggerCache

/-!
# The cache file

`cache_save` prints the cache as one object of a version, a date and an array of
trigger objects, one a line. `cache_load` refuses any other version, scans the
array by hand, reads six keys of every object and refuses the file when one of
them is missing or a number is out of range.

Between two objects only blanks and one comma may stand. An object that does not
end stops the scan without an error.
-/
namespace Muslimtify.CacheFile
open CText CDouble JsonReader JsonDocument JsonWriter Settings ConfigFile Schedule TriggerCache

def maxCacheFileBytes : ℕ := 1024 * 1024

def cacheFormatVersion : ℤ := 2

section Writer

/-- A member on the line of the one before. -/
def sameLine (key : String) (value : Value) : Member where
  before := [0x20]
  key := ascii key
  value := value

def triggerMembers (t : CacheTrigger) : List Member :=
  [{ key := ascii "prayer", value := stringValue t.prayer.text },
    sameLine "minute" (intValue t.minute),
    sameLine "minutes_before" (intValue t.minutesBefore),
    sameLine "prayer_time" (fixedValue 4 t.prayerTime),
    sameLine "adhan_enabled" (boolValue t.adhanEnabled),
    sameLine "adhan" (stringValue t.adhan.text)]

/-- The lines of the triggers, a comma after each but the last. -/
def triggerLines : List CacheTrigger → CString
  | [] => []
  | [t] => List.replicate 4 0x20 ++ (objectText (triggerMembers t) ++ [0x0a])
  | t :: ts =>
      List.replicate 4 0x20 ++ (objectText (triggerMembers t) ++ comma :: 0x0a :: triggerLines ts)

def cacheMembers (cache : PrayerCache) : List Member :=
  [line 2 "version" (intValue cacheFormatVersion),
    line 2 "date" (stringValue cache.date.text),
    lastLine 2 "triggers" (.array (0x0a :: (triggerLines cache.triggers.items ++ [0x20, 0x20])))]

/-- What `cache_save` writes. -/
def cacheText (cache : PrayerCache) : CString := objectText (cacheMembers cache) ++ [0x0a]

end Writer

section Reader

/-- The loop for the matching `}` of an object. Braces inside strings are
ignored, and a backslash takes the next byte with it. -/
def scanObject : CString → ℤ → Bool → Option (CString × CString)
  | [], _, _ => none
  | c :: cs, depth, true =>
      if c = backslash then
        match cs with
        | [] => none
        | e :: es => (scanObject es depth true).map fun p => (c :: e :: p.1, p.2)
      else (scanObject cs depth (c ≠ quote)).map fun p => (c :: p.1, p.2)
  | c :: cs, depth, false =>
      if c = quote then (scanObject cs depth true).map fun p => (c :: p.1, p.2)
      else if c = objectOpen then (scanObject cs (depth + 1) false).map fun p => (c :: p.1, p.2)
      else if c = objectClose then
        if depth - 1 = 0 then some ([c], cs)
        else (scanObject cs (depth - 1) false).map fun p => (c :: p.1, p.2)
      else (scanObject cs depth false).map fun p => (c :: p.1, p.2)

/-- One trigger object. A missing key or a number out of range is an error. -/
def parseTrigger (obj : CString) : Option CacheTrigger := do
  let prayer ← getValue (ascii "prayer") obj
  let minuteStr ← getValue (ascii "minute") obj
  let mbStr ← getValue (ascii "minutes_before") obj
  let ptStr ← getValue (ascii "prayer_time") obj
  let aeStr ← getValue (ascii "adhan_enabled") obj
  let adhanStr ← getValue (ascii "adhan") obj
  let minute := strtol minuteStr
  let minutesBefore := strtol mbStr
  if minute < 0 ∨ 1440 ≤ minute ∨ minutesBefore < 0 ∨ 1440 < minutesBefore then none
  else
    some { prayer := copyString 16 prayer
           adhan := copyString 512 adhanStr
           minute := minute
           minutesBefore := minutesBefore
           prayerTime := strtod ptStr
           adhanEnabled := isTrue aeStr }

/-- The four blanks allowed between objects. -/
def isBlank (c : UInt8) : Bool := c = 0x20 || c = 0x09 || c = 0x0d || c = 0x0a

/-- The loop over the trigger array. Each turn takes one object, so the length
of the text bounds the turns. -/
def triggerLoop : ℕ → CString → FixedArray CacheTrigger maxTriggers →
    Option (FixedArray CacheTrigger maxTriggers)
  | 0, _, triggers => some triggers
  | n + 1, p, triggers =>
      if p = [] ∨ p.head? = some arrayClose ∨ maxTriggers ≤ triggers.items.length then some triggers
      else
        match p.dropWhile fun c => c ≠ objectOpen with
        | [] => some triggers
        | c :: cs =>
            match scanObject (c :: cs) 0 false with
            | none => some triggers
            | some (obj, rest) =>
                match parseTrigger obj with
                | none => none
                | some t =>
                    match rest.dropWhile isBlank with
                    | [] => none
                    | d :: ds =>
                        if d = comma then triggerLoop n ds (triggers.push t)
                        else if d = arrayClose then triggerLoop n (d :: ds) (triggers.push t)
                        else none

def parseCache (content : CString) : Option PrayerCache := do
  let versionStr ← getValue (ascii "version") content
  if strtol versionStr ≠ cacheFormatVersion then none
  else
    let dateStr ← getValue (ascii "date") content
    let triggers ← getValue (ascii "triggers") content
    match triggers with
    | [] => none
    | c :: p =>
        if c ≠ arrayOpen then none
        else
          let triggers ← triggerLoop (p.length + 1) p .empty
          return { date := copyString 16 dateStr, triggers := triggers }

/-- `cache_load`. A file that is there may still not open. -/
def cacheLoad (file : Option CString) (opens : Bool) : Option PrayerCache := do
  let bytes ← file
  if !opens then none
  else
    let content ← readFile maxCacheFileBytes bytes
    parseCache content

end Reader

end Muslimtify.CacheFile
