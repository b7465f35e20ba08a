import Muslimtify.ReachableSettings

/-!
# The name of a city

The name is kept in an array of 128 bytes. A longer one is cut where a character
begins: from the last byte there is room for, the cut goes back over the bytes
that continue a character. The loader reads into an array of the same size, and
what is written for the name is read back as it was, so the cut is made once.
-/
namespace Muslimtify.CityName
open CText Settings ConfigFile ConfigRoundTrip LocationFetch Handle ReachableSettings

section Characters

/-- The UTF-8 text of some characters. -/
def utf8 (name : List Char) : CString := name.flatMap String.utf8EncodeChar

/-- A byte that goes on with a character. -/
def continues (b : UInt8) : Bool := b &&& 0xc0 = 0x80

theorem continues_low (n : ℕ) : continues (UInt8.ofNat (n % 0x40 + 0x80)) = true := by
  have h : ∀ m < 0x40, continues (UInt8.ofNat (m + 0x80)) = true := by decide
  exact h _ (Nat.mod_lt n (by decide))

/-- A character is a byte that does not continue one and bytes that do. -/
theorem utf8EncodeChar_shape (c : Char) : ∃ first rest, String.utf8EncodeChar c = first :: rest ∧
    continues first = false ∧ ∀ b ∈ rest, continues b = true := by
  have hascii : ∀ v ≤ 0x7f, continues (UInt8.ofNat v) = false := by decide
  have htwo : ∀ m < 0x20, continues (UInt8.ofNat (m + 0xc0)) = false := by decide
  have hthree : ∀ m < 0x10, continues (UInt8.ofNat (m + 0xe0)) = false := by decide
  have hfour : ∀ m < 0x08, continues (UInt8.ofNat (m + 0xf0)) = false := by decide
  unfold String.utf8EncodeChar
  dsimp only
  split_ifs with h₁ h₂ h₃
  · exact ⟨_, _, rfl, hascii _ h₁, by simp⟩
  · exact ⟨_, _, rfl, htwo _ (Nat.mod_lt _ (by decide)), by
      simp only [List.forall_mem_cons, continues_low, true_and, List.not_mem_nil, false_implies,
        implies_true]⟩
  · exact ⟨_, _, rfl, hthree _ (Nat.mod_lt _ (by decide)), by
      simp only [List.forall_mem_cons, continues_low, true_and, List.not_mem_nil, false_implies,
        implies_true]⟩
  · exact ⟨_, _, rfl, hfour _ (Nat.mod_lt _ (by decide)), by
      simp only [List.forall_mem_cons, continues_low, true_and, List.not_mem_nil, false_implies,
        implies_true]⟩

/-- A place inside a text is inside one of its characters. -/
theorem utf8_split {name : List Char} {n : ℕ} (h : n < (utf8 name).length) :
    ∃ kept c rest, name = kept ++ c :: rest ∧ (utf8 kept).length ≤ n ∧
      n < (utf8 kept).length + (String.utf8EncodeChar c).length := by
  induction name generalizing n with
  | nil => cases h
  | cons c name ih =>
      by_cases hfirst : n < (String.utf8EncodeChar c).length
      · exact ⟨[], c, name, rfl, Nat.zero_le n, by simpa [utf8] using hfirst⟩
      · rw [utf8, List.flatMap_cons, List.length_append] at h
        obtain ⟨kept, d, rest, rfl, hle, hlt⟩ :=
          ih (n := n - (String.utf8EncodeChar c).length) (by unfold utf8; omega)
        refine ⟨c :: kept, d, rest, rfl, ?_, ?_⟩
        · rw [utf8, List.flatMap_cons, List.length_append]
          unfold utf8 at hle
          omega
        · rw [utf8, List.flatMap_cons, List.length_append]
          unfold utf8 at hlt
          omega

/-- The longest beginning of a name whose text fits. -/
structure LongestFitting (cap : ℕ) (name kept : List Char) : Prop where
  isPrefix : kept <+: name
  fits : (utf8 kept).length ≤ cap
  longest : ∀ other, other <+: name → (utf8 other).length ≤ cap → other <+: kept

/-- A name that fits is its own. -/
theorem LongestFitting.whole {cap : ℕ} {name kept : List Char} (h : LongestFitting cap name kept)
    (hfits : (utf8 name).length ≤ cap) : kept = name :=
  h.isPrefix.eq_of_length_le (h.longest name (List.prefix_refl name) hfits).length_le

theorem utf8_append (a b : List Char) : utf8 (a ++ b) = utf8 a ++ utf8 b := List.flatMap_append

theorem longestFitting_of_split {cap : ℕ} {kept : List Char} {c : Char} {rest : List Char}
    (hfits : (utf8 kept).length ≤ cap)
    (hnext : cap < (utf8 kept).length + (String.utf8EncodeChar c).length) :
    LongestFitting cap (kept ++ c :: rest) kept where
  isPrefix := List.prefix_append kept (c :: rest)
  fits := hfits
  longest := by
    intro other hother hlen
    rcases Nat.lt_or_ge kept.length other.length with hlt | hge
    · -- a longer beginning has the next character, which does not fit
      have hnextPrefix : kept ++ [c] <+: other := by
        apply List.prefix_of_prefix_length_le _ hother (by simpa using hlt)
        rw [List.append_cons kept c rest]
        exact List.prefix_append _ rest
      obtain ⟨more, rfl⟩ := hnextPrefix
      have hc : utf8 [c] = String.utf8EncodeChar c := by simp [utf8]
      rw [utf8_append, utf8_append, hc, List.length_append, List.length_append] at hlen
      omega
    · exact List.prefix_of_prefix_length_le hother (List.prefix_append kept (c :: rest)) hge

theorem longestFitting_self {cap : ℕ} {name : List Char} (h : (utf8 name).length ≤ cap) :
    LongestFitting cap name name :=
  ⟨List.prefix_refl name, h, fun _ hother _ => hother⟩

end Characters

section Cut

/-- Going back over continuing bytes stops at the byte before them. -/
theorem cutLength_eq {city : CString} {k n : ℕ} (hkn : k ≤ n)
    (hrun : ∀ i, k < i → i ≤ n → continues (city.getD i 0) = true)
    (hstop : continues (city.getD k 0) = false) : cutLength city n = k := by
  induction n with
  | zero => exact (Nat.le_zero.mp hkn).symm
  | succ n ih =>
      rw [cutLength]
      rcases Nat.lt_or_ge n k with hlt | hge
      · have hk : k = n + 1 := by omega
        rw [hk] at hstop ⊢
        rw [if_neg (by simpa [continues] using hstop)]
      · have hlast := hrun (n + 1) (by omega) le_rfl
        rw [if_pos (by simpa [continues] using hlast)]
        exact ih hge fun i hi hin => hrun i hi (by omega)

/-- The cut of a name that is too long keeps the longest beginning that fits. -/
theorem cutLength_utf8 {name : List Char} {n : ℕ} (h : n < (utf8 name).length) :
    ∃ kept, LongestFitting n name kept ∧
      (utf8 name).take (cutLength (utf8 name) n) = utf8 kept := by
  obtain ⟨kept, c, rest, rfl, hle, hlt⟩ := utf8_split h
  obtain ⟨first, more, hchar, hfirst, hmore⟩ := utf8EncodeChar_shape c
  have htext : utf8 (kept ++ c :: rest) = utf8 kept ++ (first :: more ++ utf8 rest) := by
    rw [utf8_append, ← hchar]
    rfl
  refine ⟨kept, longestFitting_of_split hle hlt, ?_⟩
  have hcut : cutLength (utf8 (kept ++ c :: rest)) n = (utf8 kept).length := by
    rw [hchar, List.length_cons] at hlt
    rw [htext]
    apply cutLength_eq hle
    · intro i hi hin
      obtain ⟨j, rfl⟩ := Nat.exists_eq_add_of_lt hi
      have hj : j < more.length := by omega
      have hbyte : (utf8 kept ++ (first :: more ++ utf8 rest)).getD ((utf8 kept).length + j + 1) 0 =
          more[j] := by
        rw [List.getD_eq_getElem?_getD, Nat.add_assoc, List.getElem?_append_right (by omega),
          Nat.add_sub_cancel_left, List.cons_append, List.getElem?_cons_succ,
          List.getElem?_append_left hj, List.getElem?_eq_getElem hj]
        rfl
      rw [hbyte]
      exact hmore _ (List.getElem_mem hj)
    · have hbyte : (utf8 kept ++ (first :: more ++ utf8 rest)).getD (utf8 kept).length 0 =
          first := by
        rw [List.getD_eq_getElem?_getD, List.getElem?_append_right le_rfl, Nat.sub_self]
        rfl
      rw [hbyte]
      exact hfirst
  rw [hcut, htext, List.take_left]

/-- What the setter keeps of a name. -/
theorem muslimtifySetCity_utf8 {name : List Char} (hnul : NulFree (utf8 name)) (cfg : Config) :
    ∃ kept stored, LongestFitting 127 name kept ∧
      (muslimtifySetCity (some (utf8 name))).run cfg = (.ok, { cfg with city := stored }) ∧
        stored.text = utf8 kept := by
  by_cases hlong : 128 ≤ (utf8 name).length
  · obtain ⟨kept, hlongest, htake⟩ := cutLength_utf8 (show 127 < (utf8 name).length by omega)
    refine ⟨kept, copyString 128 (utf8 kept), hlongest, ?_, ?_⟩
    · simp only [muslimtifySetCity, terminated_eq hnul, if_pos hlong, htake]
      rfl
    · apply copyString_of_fits _ (Nat.lt_succ_of_le hlongest.fits)
      rw [← htake]
      exact fun c hc => hnul c (List.mem_of_mem_take hc)
  · refine ⟨name, copyString 128 (utf8 name), longestFitting_self (by omega), ?_, ?_⟩
    · simp only [muslimtifySetCity, terminated_eq hnul, if_neg hlong, List.take_length]
      rfl
    · exact copyString_of_fits hnul (by omega)

end Cut

/-- The longest beginning of a name that the array has room for is stored, and read back from the
file as it is. -/
theorem city_kept {file : Option CString} {opens : Bool} {cfg : Config}
    (hload : configLoad file opens = some cfg) (calls : List (Surroundings × PublicCall))
    {name : List Char} (hnul : NulFree (utf8 name)) :
    ∃ kept stored, LongestFitting 127 name kept ∧
      (muslimtifySetCity (some (utf8 name))).run (afterCalls cfg calls) = (.ok, stored) ∧
        stored.city.text = utf8 kept ∧
          ((utf8 name).length ≤ 127 → stored.city.text = utf8 name) ∧
            ∃ loaded, configLoad (some (configText stored)) true = some loaded ∧
              loaded.city.text = stored.city.text := by
  obtain ⟨kept, stored, hlongest, hrun, htext⟩ := muslimtifySetCity_utf8 hnul (afterCalls cfg calls)
  have hrange : Config.InRange { afterCalls cfg calls with city := stored } :=
    { afterCalls_inRange calls (configLoad_inRange hload) with }
  refine ⟨kept, _, hlongest, hrun, htext, fun hfits => ?_, _, configLoad_configText hrange, rfl⟩
  rw [← hlongest.whole hfits]
  exact htext

/-- A name whose last character begins on the last byte there is room for. -/
def accented : List Char := List.replicate 126 'a' ++ [Char.ofNat 0xe9, 'b']

theorem city_kept_accented :
    ∃ kept stored, LongestFitting 127 accented kept ∧
      (muslimtifySetCity (some (utf8 accented))).run configDefault = (.ok, stored) ∧
        stored.city.text = utf8 kept ∧
          ((utf8 accented).length ≤ 127 → stored.city.text = utf8 accented) ∧
            ∃ loaded, configLoad (some (configText stored)) true = some loaded ∧
              loaded.city.text = stored.city.text :=
  city_kept (rfl : configLoad none true = some configDefault) [] (by decide +kernel)

end Muslimtify.CityName
