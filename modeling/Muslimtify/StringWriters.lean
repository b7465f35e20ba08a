import Muslimtify.JsonLookup

/-!
# The two string writers

`json_write_escaped` of the library and `json_str` of the display write a string
between quotes, one with the short escapes of the grammar and one without. The
reader undoes both, so a string written as the value of a member comes back, and
no other member is read differently for it.

It comes back under the name of its member if the reader finds that name. A
name is decoded one escape at a time, and an escape that is half of a surrogate
pair equals nothing.
-/
namespace Muslimtify.StringWriters
open CText JsonReader JsonDocument JsonGrammar JsonLookup

section Writers

/-- How `json_str` writes one byte. -/
def jsonStrByte (c : UInt8) : CString :=
  if c = 0x22 ∨ c = 0x5c then [backslash, c]
  else if c < 0x20 then controlEscape c
  else [c]

def jsonStr (s : CString) : CString := quote :: (s.flatMap jsonStrByte ++ [quote])

theorem jsonStrByte_escapes : Escapes jsonStrByte where
  raw c := by
    unfold jsonStrByte
    split_ifs with h
    · exact .escape .nil
    · exact controlEscape_raw c
    · exact .plain (fun hc => h (Or.inl hc)) (fun hc => h (Or.inr hc)) .nil
  undone {c} hc s := by
    unfold jsonStrByte
    split_ifs with h hlt
    · rcases h with rfl | rfl <;> rfl
    · exact copyLoop_control hc hlt s
    · exact copyLoop_byte (fun hc => h (Or.inr hc)) s

/-- The two writers of the program. -/
def writers : List (CString → CString) := [jsonWriteEscaped, jsonStr]

theorem writers_escape {write : CString → CString} (hw : write ∈ writers) :
    ∃ escape, Escapes escape ∧ ∀ s, write s = quote :: (s.flatMap escape ++ [quote]) := by
  simp only [writers, List.mem_cons, List.not_mem_nil, or_false] at hw
  rcases hw with rfl | rfl
  · exact ⟨escapeByte, escapeByte_escapes, fun _ => rfl⟩
  · exact ⟨jsonStrByte, jsonStrByte_escapes, fun _ => rfl⟩

end Writers

section Names

/-- A decoded name is a C string. -/
theorem decoded_nulFree (name : Chars) : NulFree (utf8 (decoded name)) := by
  rw [← unescape_rawText]
  exact unescape_nulFree (rawText_nulFree name)

end Names

section Frames

/-- Members with the comma behind each of them. -/
def frontText : Members → CString
  | .nil => []
  | .cons before name afterName beforeValue v after rest =>
      before.bytes ++ (stringText name ++ (afterName.bytes ++ colon :: (beforeValue.bytes ++
        (v.text ++ (after.bytes ++ comma :: frontText rest)))))

/-- A JSON text with an object at its root, all but the value of one member. -/
structure Frame where
  lead : Ws
  before : Members
  beforeName : Ws
  name : Chars
  afterName : Ws
  beforeValue : Ws
  afterValue : Ws
  after : Members
  tail : Ws

namespace Frame
variable (f : Frame)

/-- The text with `v` for the value. -/
def text (v : CString) : CString :=
  f.lead.bytes ++ objectOpen :: (frontText f.before ++ (f.beforeName.bytes ++
    (stringText f.name ++ (f.afterName.bytes ++ colon :: (f.beforeValue.bytes ++
      (v ++ (f.afterValue.bytes ++ (f.after.more ++ objectClose :: f.tail.bytes))))))))

/-- How deep the object nests. -/
def depth : ℕ := max f.before.depth f.after.depth + 1

/-- The name of the member, as the program asks for it. -/
def key : CString := utf8 (decoded f.name)

def otherKeys : List CString :=
  (f.before.list ++ f.after.list).map fun m => utf8 (decoded m.1)

/-- The member with a string for its value. -/
def member (raw : CString) : Member where
  before := f.beforeName.bytes
  key := rawText f.name
  afterKey := f.afterName.bytes
  beforeValue := f.beforeValue.bytes
  value := .string raw
  after := f.afterValue.bytes

end Frame

theorem more_text {ms : Members} (h : ms ≠ .nil) : ms.more = comma :: ms.text := by
  cases ms with
  | nil => exact absurd rfl h
  | cons => rfl

theorem layout_front (m : Member) (rest : List Member) (ms : Members) :
    membersText (layout ms ++ m :: rest) = frontText ms ++ membersText (m :: rest) := by
  induction ms using members_ind with
  | nil => rfl
  | cons before name afterName beforeValue v after ms ih =>
      obtain ⟨k, ks, hk⟩ : ∃ k ks, layout ms ++ m :: rest = k :: ks := by
        cases hms : layout ms with
        | nil => exact ⟨m, rest, rfl⟩
        | cons k ks => exact ⟨k, ks ++ m :: rest, rfl⟩
      have hcons : ∀ j : Member, membersText (j :: k :: ks) =
          j.text ++ comma :: membersText (k :: ks) := fun _ => rfl
      rw [layout, List.cons_append, hk, hcons, ← hk, ih]
      simp [frontText, Member.text, stringText]

theorem layout_more (m : Member) (ms : Members) :
    membersText (m :: layout ms) = m.text ++ ms.more := by
  cases ms with
  | nil => simp [layout, membersText, Members.more]
  | cons before name afterName beforeValue v after rest =>
      rw [more_text (by simp), ← layout_text]
      rfl

variable {f : Frame}

theorem Frame.member_text (f : Frame) (raw : CString) :
    f.text (quote :: (raw ++ [quote])) = f.lead.bytes ++
      (objectText (layout f.before ++ f.member raw :: layout f.after) ++ f.tail.bytes) := by
  rw [objectText, layout_front, layout_more]
  simp [Frame.text, Frame.member, Member.text, Value.text, stringText]

/-- What is read from a frame with a string in it. -/
theorem getValue_frame (hd : f.depth ≤ 100) {raw : CString} (hr : Raw raw) (key : CString) :
    getValue key (f.text (quote :: (raw ++ [quote]))) =
      lookup key (layout f.before ++ f.member raw :: layout f.after) := by
  have hdepth : max f.before.depth f.after.depth ≤ 98 + 1 := Nat.le_of_succ_le_succ hd
  rw [Frame.member_text]
  refine getValue_object (fun m hm => ?_) key (ws_blank _) (ws_blank _)
  rcases List.mem_append.mp hm with hm | hm
  · exact layout_valid f.before (le_trans (le_max_left _ _) hdepth) m hm
  rcases List.mem_cons.mp hm with rfl | hm
  · exact ⟨ws_blank _, rawText_raw _, ws_blank _, ws_blank _, hr, ws_blank _⟩
  · exact layout_valid f.after (le_trans (le_max_right _ _) hdepth) m hm

end Frames

section Inversion
variable {f : Frame}

/-- A name that no member has is found nowhere. -/
theorem layout_other {key : CString} (hkey : NulFree key) (ms : Members)
    (h : ∀ m ∈ ms.list, utf8 (decoded m.1) ≠ key) :
    ∀ m ∈ layout ms, jsonSliceEquals m.key key = false := by
  induction ms using members_ind with
  | nil => exact List.forall_mem_nil _
  | cons before name afterName beforeValue v after ms ih =>
      have hname : jsonSliceEquals (rawText name) key = false := by
        refine Bool.eq_false_iff.mpr fun heq => ?_
        exact h (name, v) (by simp [Members.list]) ((jsonSliceEquals_iff name hkey).mp heq).2.symm
      exact List.forall_mem_cons.mpr ⟨hname, ih fun m hm => h m (by simp [Members.list, hm])⟩

theorem lookup_none {key : CString} {ms : List Member}
    (h : ∀ m ∈ ms, jsonSliceEquals m.key key = false) : lookup key ms = none := by
  simpa [lookup] using h

/-- Another key is looked up past the member. -/
theorem lookup_past {key : CString} (h : jsonSliceEquals (rawText f.name) key = false)
    (raw : CString) (ms ns : List Member) :
    lookup key (ms ++ f.member raw :: ns) = lookup key (ms ++ ns) := by
  simp [lookup, Frame.member, h]

theorem lookup_at {key : CString} {ms : List Member}
    (hms : ∀ m ∈ ms, jsonSliceEquals m.key key = false)
    (h : jsonSliceEquals (rawText f.name) key = true) (raw : CString) (ns : List Member) :
    lookup key (ms ++ f.member raw :: ns) = some (unescape raw) := by
  have hnone : ms.find? (fun m => jsonSliceEquals m.key key) = none := by simpa using hms
  simp [lookup, hnone, Frame.member, h, Value.result]

/-- A string written by either writer as the value of a member comes back under
the member's name, and the other members are read as with an empty string in its
place, exactly when no escape of the name is half of a pair or zero. -/
theorem written_string_read_back_iff (f : Frame) (hd : f.depth ≤ 100)
    (hdistinct : (f.key :: f.otherKeys).Nodup) {write : CString → CString}
    (hw : write ∈ writers) {s : CString} (hs : NulFree s) :
    (getValue f.key (f.text (write s)) = some s ∧
      ∀ key ∈ f.otherKeys,
        getValue key (f.text (write s)) = getValue key (f.text (write []))) ↔
      SpelledOut f.name := by
  obtain ⟨escape, hescape, hwrite⟩ := writers_escape hw
  have hread : ∀ s key, getValue key (f.text (write s)) =
      lookup key (layout f.before ++ f.member (s.flatMap escape) :: layout f.after) := by
    intro s key
    rw [hwrite, getValue_frame hd (hescape.flatMap_raw s)]
  have hkey : NulFree f.key := decoded_nulFree f.name
  have hother : ∀ m ∈ f.before.list ++ f.after.list, utf8 (decoded m.1) ≠ f.key := by
    intro m hm he
    exact (List.nodup_cons.mp hdistinct).1 (he ▸ List.mem_map_of_mem hm)
  have hbefore := layout_other hkey f.before fun m hm => hother m (List.mem_append_left _ hm)
  have hafter := layout_other hkey f.after fun m hm => hother m (List.mem_append_right _ hm)
  constructor
  · rintro ⟨hself, -⟩
    by_contra hname
    have hmiss : jsonSliceEquals (rawText f.name) f.key = false :=
      Bool.eq_false_iff.mpr fun heq => hname ((jsonSliceEquals_iff f.name hkey).mp heq).1
    rw [hread, lookup_past hmiss, lookup_none] at hself
    · cases hself
    · exact fun m hm => (List.mem_append.mp hm).elim (hbefore m) (hafter m)
  · intro hname
    have hhit : jsonSliceEquals (rawText f.name) f.key = true :=
      (jsonSliceEquals_iff f.name hkey).mpr ⟨hname, rfl⟩
    refine ⟨?_, ?_⟩
    · rw [hread, lookup_at hbefore hhit, hescape.unescape_flatMap hs]
    · intro key hmem
      obtain ⟨m, hm, rfl⟩ := List.mem_map.mp hmem
      have hmiss : jsonSliceEquals (rawText f.name) (utf8 (decoded m.1)) = false :=
        Bool.eq_false_iff.mpr fun heq =>
          hother m hm ((jsonSliceEquals_iff f.name (decoded_nulFree m.1)).mp heq).2
      rw [hread, hread, lookup_past hmiss, lookup_past hmiss]

/-- A city between a member that holds brackets and one of an escaped name. -/
def cityFrame : Frame where
  lead := .none
  before := .cons .none (.ofString "list") .none .none
    (.array .none (.cons .none (.string (.ofString "]\"city\":")) .none .nil)) .none .nil
  beforeName := .none
  name := .ofString "city"
  afterName := .none
  beforeValue := .none
  afterValue := .none
  after := .cons .none [.ofUnit 0x63, .ofChar 'c'] .none .none (.literal .null) .none .nil
  tail := .none

/-- A quote, a line break, a control byte, a byte past ASCII and a backslash at
the end. -/
def hostileString : CString := [0x22, 0x0a, 0x01, 0xff, 0x5c]

theorem written_string_read_back_iff_city :
    (getValue cityFrame.key (cityFrame.text (jsonStr hostileString)) = some hostileString ∧
      ∀ key ∈ cityFrame.otherKeys, getValue key (cityFrame.text (jsonStr hostileString)) =
        getValue key (cityFrame.text (jsonStr []))) ↔ SpelledOut cityFrame.name :=
  written_string_read_back_iff cityFrame (by decide) (by decide +kernel)
    (List.mem_cons_of_mem _ (List.mem_singleton_self _)) (by decide)

/-- One member, its name a surrogate pair written as two escapes. -/
def pairFrame : Frame where
  lead := .none
  before := .nil
  beforeName := .none
  name := [.ofUnit 0xd83d, .ofUnit 0xde00]
  afterName := .none
  beforeValue := .none
  afterValue := .none
  after := .nil
  tail := .none

theorem pair_name_not_found :
    pairFrame.depth ≤ 100 ∧ (pairFrame.key :: pairFrame.otherKeys).Nodup ∧
      pairFrame.key = [0xf0, 0x9f, 0x98, 0x80] ∧
      getValue pairFrame.key (pairFrame.text (jsonWriteEscaped (ascii "x"))) = none := by
  decide +kernel

end Inversion

end Muslimtify.StringWriters
