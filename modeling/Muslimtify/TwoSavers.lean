import Muslimtify.SaveSteps

/-!
# Two savers of one file

Two processes save the settings at once. Their temporary file has one name, so a
step of one can hit the file of the other: opening it cuts it to nothing, a
stream goes on writing at its own offset into a file that has been cut, a rename
takes whatever stands under the name, and a stream that is still open then
writes into the settings file itself.

A file has an owner while only the process that opened it last can write to it.
A save that renames a file it owns installs the whole of its document.
-/
namespace Muslimtify.TwoSavers
open CText Settings ConfigRoundTrip Program SaveSteps

section Files

/-- An open stream: the file it writes to and the offset it has come to, the bytes
that wait in it and its error flag. -/
structure Handle where
  inode : ℕ
  offset : ℕ
  pending : CString
  error : Bool

/-- The files by their inodes, the two names, and the stream of each process.
`owner` is the process that has had the file under the temporary name to itself
since opening it, `installed` what the last rename of each process installed, and
`trespassed` tells that a process has renamed a file it did not own. -/
structure Shared where
  contents : ℕ → CString
  next : ℕ
  target : Option ℕ
  temp : Option ℕ
  streams : Side → Option Handle
  owner : Option Side
  installed : Side → Option CString
  trespassed : Bool

/-- What a reader finds in `config.json`. -/
def Shared.config (s : Shared) : Option CString := s.target.map s.contents

/-- Before the saves: maybe settings, and maybe a temporary file that was left. -/
def Shared.start (config temp : Option CString) : Shared where
  contents := fun inode => (if inode = 0 then config else temp).getD []
  next := 2
  target := config.map fun _ => 0
  temp := temp.map fun _ => 1
  streams := fun _ => none
  owner := none
  installed := fun _ => none
  trespassed := false

def other : Side → Side
  | .left => .right
  | .right => .left

/-- A write at an offset. A gap before it reads as zeros. -/
def writeAt (content : CString) (offset : ℕ) (bytes : CString) : CString :=
  if bytes = [] then content
  else
    content.take offset ++ (List.replicate (offset - content.length) 0 ++
      (bytes ++ content.drop (offset + bytes.length)))

theorem writeAt_end (content bytes : CString) :
    writeAt content content.length bytes = content ++ bytes := by
  unfold writeAt
  split_ifs with h
  · rw [h, List.append_nil]
  · simp

/-- `open` with `O_CREAT | O_TRUNC`, and a stream on the file if `fdopen` works. -/
def Shared.openTemp (s : Shared) (p : Side) (opened : Bool) : Shared :=
  let inode := s.temp.getD s.next
  let shared := (s.streams (other p)).any fun h => h.inode = inode
  { s with
    contents := Function.update s.contents inode []
    next := max s.next (inode + 1)
    temp := some inode
    streams := if opened then Function.update s.streams p (some ⟨inode, 0, [], false⟩)
      else s.streams
    owner := if opened && !shared then some p else none }

/-- Bytes leave the stream, which is left with `rest`. -/
def Shared.emit (s : Shared) (p : Side) (h : Handle) (bytes : CString)
    (rest : Option (CString × Bool)) : Shared :=
  { s with
    contents := Function.update s.contents h.inode (writeAt (s.contents h.inode) h.offset bytes)
    streams := Function.update s.streams p
      (rest.map fun r => ⟨h.inode, h.offset + bytes.length, r.1, r.2⟩) }

def answer (p : Side) (i : SaveInput) (s : Shared) : (op : SaveOp) → SaveSteps.Answer op
  | .ensureDir | .tempPath | .createPrivate | .close | .deleteTemp => i.works
  | .write _ => ()
  | .ferror => (s.streams p).any Handle.error
  | .sync => i.works && (s.streams p).isSome
  | .rename => i.works && s.temp.isSome

def effect (p : Side) (i : SaveInput) (s : Shared) : SaveOp → Shared
  | .ensureDir | .tempPath | .ferror => s
  | .createPrivate =>
      if i.works then s.openTemp p true
      else if i.created then s.openTemp p false
      else s
  | .write c =>
      match s.streams p with
      | none => s
      | some h =>
          let bytes := h.pending ++ [c]
          s.emit p h (bytes.take i.flushed)
            (some (if i.works then bytes.drop i.flushed else [], h.error || !i.works))
  | .sync =>
      match s.streams p with
      | none => s
      | some h =>
          if i.works then s.emit p h h.pending (some ([], h.error))
          else
            s.emit p h (h.pending.take i.flushed) (some (h.pending.drop i.flushed, true))
  | .close =>
      match s.streams p with
      | none => s
      | some h => s.emit p h (if i.works then h.pending else h.pending.take i.flushed) none
  | .deleteTemp => if i.works then { s with temp := none, owner := none } else s
  | .rename =>
      match s.temp with
      | none => s
      | some inode =>
          if i.works then
            { s with
              target := some inode
              temp := none
              owner := none
              installed := Function.update s.installed p (some (s.contents inode))
              trespassed := s.trespassed || s.owner ≠ some p }
          else s

def act (p : Side) (op : SaveOp) (i : SaveInput) (s : Shared) : SaveSteps.Answer op × Shared :=
  (answer p i s op, effect p i s op)

/-- The two processes, from their calls of `config_save` on. -/
def saves (cfg cfg' : Config) (config temp : Option CString) :
    SaveProgram ℤ × SaveProgram ℤ × Shared :=
  (configSave cfg, configSave cfg', .start config temp)

/-- The program of a side. -/
def side (c : SaveProgram ℤ × SaveProgram ℤ × Shared) : Side → SaveProgram ℤ
  | .left => c.1
  | .right => c.2.1

/-- A process does not rename a file that it does not own. -/
def RenamesOwn (c : SaveProgram ℤ × SaveProgram ℤ × Shared) (turn : Side × SaveInput) : Prop :=
  (side c turn.1).op? = some .rename → turn.2.works = true → c.2.2.temp.isSome = true →
    c.2.2.owner = some turn.1

end Files

section Assertions
variable (allowed : Option CString → Prop) (text : CString)

/-- What holds of the files until a process renames a file that it does not own:
no stream is open on the settings file, and only the owner of the temporary file
has one open on that. -/
structure Sound (s : Shared) : Prop where
  config : allowed s.config
  fresh : ∀ inode, s.target = some inode ∨ s.temp = some inode → inode < s.next
  apart : ∀ inode, s.temp = some inode → s.target ≠ some inode
  streams : ∀ p h, s.streams p = some h → h.inode < s.next ∧ s.target ≠ some h.inode
  owned : ∀ p, s.owner = some p → ∃ inode, s.temp = some inode ∧
    ∀ h, s.streams (other p) = some h → h.inode ≠ inode

/-- How far a save is. -/
inductive Stage
  | any
  | written (w : CString) (checked : Bool)
  | drained (synced : Bool)
  | closed (good : Bool)
  | ended (code : ℤ)

/-- What a process knows of its file at each stage, as long as it owns it. -/
def At (p : Side) (s : Shared) : Stage → Prop
  | .any => True
  | .written w checked => ∃ h, s.streams p = some h ∧ (s.owner = some p →
      s.temp = some h.inode ∧ (checked = true ∨ h.error = false →
        h.offset = (s.contents h.inode).length ∧ s.contents h.inode ++ h.pending = w))
  | .drained synced => ∃ h, s.streams p = some h ∧ (synced = true → s.owner = some p →
      s.temp = some h.inode ∧ h.pending = [] ∧ s.contents h.inode = text)
  | .closed good => s.streams p = none ∧ (good = true → s.owner = some p →
      ∃ inode, s.temp = some inode ∧ s.contents inode = text)
  | .ended code => code = 0 → s.installed p = some text

def During (p : Side) (stage : Stage) (s : Shared) : Prop :=
  s.trespassed = false → Sound allowed s ∧ At text p s stage

end Assertions

section Steps
variable {allowed : Option CString → Prop} {text text' : CString} {p : Side} {s s' : Shared}

theorem other_other (p : Side) : other (other p) = p := by cases p <;> rfl

theorem ne_other (p : Side) : p ≠ other p := by cases p <;> decide

/-- What the other process cannot do to the file that a process owns. -/
structure Spares (p : Side) (s s' : Shared) : Prop where
  streams : s'.streams p = s.streams p
  installed : s'.installed p = s.installed p
  owner : s'.owner = some p → s.owner = some p ∧ s'.temp = s.temp ∧
    ∀ inode, s.temp = some inode → s'.contents inode = s.contents inode

theorem Spares.refl (p : Side) (s : Shared) : Spares p s s :=
  ⟨rfl, rfl, fun h => ⟨h, rfl, fun _ _ => rfl⟩⟩

theorem Spares.at {stage : Stage} (h : Spares p s s') (hs : At text p s stage) :
    At text p s' stage := by
  cases stage with
  | any => trivial
  | written w checked =>
      obtain ⟨hd, hst, hown⟩ := hs
      refine ⟨hd, h.streams.trans hst, fun howner => ?_⟩
      obtain ⟨howner, htemp, hcontents⟩ := h.owner howner
      rw [htemp, hcontents _ (hown howner).1]
      exact hown howner
  | drained synced =>
      obtain ⟨hd, hst, hown⟩ := hs
      refine ⟨hd, h.streams.trans hst, fun hsynced howner => ?_⟩
      obtain ⟨howner, htemp, hcontents⟩ := h.owner howner
      rw [htemp, hcontents _ (hown hsynced howner).1]
      exact hown hsynced howner
  | closed good =>
      refine ⟨h.streams.trans hs.1, fun hgood howner => ?_⟩
      obtain ⟨howner, htemp, hcontents⟩ := h.owner howner
      obtain ⟨inode, hinode, htext⟩ := hs.2 hgood howner
      exact ⟨inode, htemp.trans hinode, (hcontents inode hinode).trans htext⟩
  | ended code => exact fun hcode => h.installed.trans (hs hcode)

section Emitting
variable {h : Handle} {bytes : CString} {rest : Option (CString × Bool)}

theorem emit_sound (hs : Sound allowed s) (hst : s.streams p = some h) :
    Sound allowed (s.emit p h bytes rest) := by
  have htarget := (hs.streams p h hst).2
  have hconfig : (s.emit p h bytes rest).config = s.config := by
    cases ht : s.target with
    | none => simp only [Shared.config, Shared.emit, ht, Option.map_none]
    | some inode =>
        have hne : inode ≠ h.inode := fun heq => htarget (by rw [ht, heq])
        simp only [Shared.config, Shared.emit, ht, Option.map_some, Function.update_of_ne hne]
  refine ⟨hconfig ▸ hs.config, hs.fresh, hs.apart, fun q h' hq => ?_, fun q hq => ?_⟩
  · by_cases hqp : q = p
    · subst hqp
      simp only [Shared.emit, Function.update_self] at hq
      obtain ⟨r, -, rfl⟩ := Option.map_eq_some_iff.mp hq
      exact hs.streams q h hst
    · simp only [Shared.emit, Function.update_of_ne hqp] at hq
      exact hs.streams q h' hq
  · obtain ⟨inode, htemp, hother⟩ := hs.owned q hq
    refine ⟨inode, htemp, fun h' hq' => ?_⟩
    by_cases hqp : other q = p
    · subst hqp
      simp only [Shared.emit, Function.update_self] at hq'
      obtain ⟨r, -, rfl⟩ := Option.map_eq_some_iff.mp hq'
      exact hother h hst
    · simp only [Shared.emit, Function.update_of_ne hqp] at hq'
      exact hother h' hq'

theorem emit_spares (hs : Sound allowed s) (hst : s.streams p = some h) :
    Spares (other p) s (s.emit p h bytes rest) := by
  refine ⟨Function.update_of_ne (ne_other p).symm _ _, rfl, fun howner => ⟨howner, rfl, ?_⟩⟩
  intro inode htemp
  obtain ⟨inode', htemp', hfree⟩ := hs.owned (other p) howner
  obtain rfl : inode' = inode := Option.some.inj (htemp'.symm.trans htemp)
  rw [other_other] at hfree
  exact Function.update_of_ne (hfree h hst).symm _ _

end Emitting

section Opening
variable {opened : Bool}

theorem openTemp_sound (hs : Sound allowed s) : Sound allowed (s.openTemp p opened) := by
  have hapart : ∀ inode, s.target = some inode → inode ≠ s.temp.getD s.next := by
    intro inode ht heq
    cases htemp : s.temp with
    | none =>
        have := hs.fresh inode (Or.inl ht)
        rw [heq, htemp, Option.getD_none] at this
        omega
    | some inode' =>
        rw [htemp, Option.getD_some] at heq
        exact hs.apart inode' htemp (heq ▸ ht)
  have hconfig : (s.openTemp p opened).config = s.config := by
    cases ht : s.target with
    | none => simp only [Shared.config, Shared.openTemp, ht, Option.map_none]
    | some inode =>
        simp only [Shared.config, Shared.openTemp, ht, Option.map_some,
          Function.update_of_ne (hapart inode ht)]
  refine ⟨hconfig ▸ hs.config, fun inode h => ?_, fun inode h ht => ?_, fun q h hq => ?_,
    fun q hq => ?_⟩
  · rcases h with h | h
    · exact lt_of_lt_of_le (hs.fresh inode (Or.inl h)) (le_max_left _ _)
    · obtain rfl := Option.some.inj h
      exact lt_of_lt_of_le (Nat.lt_succ_self _) (le_max_right _ _)
  · obtain rfl := Option.some.inj h
    exact hapart _ ht rfl
  · have hold : s.streams q = some h →
        h.inode < (s.openTemp p opened).next ∧ (s.openTemp p opened).target ≠ some h.inode :=
      fun hq => ⟨lt_of_lt_of_le (hs.streams q h hq).1 (le_max_left _ _), (hs.streams q h hq).2⟩
    cases opened with
    | false => exact hold hq
    | true =>
        by_cases hqp : q = p
        · subst hqp
          simp only [Shared.openTemp, if_true, Function.update_self, Option.some.injEq] at hq
          subst hq
          exact ⟨lt_of_lt_of_le (Nat.lt_succ_self _) (le_max_right _ _),
            fun ht => hapart _ ht rfl⟩
        · simp only [Shared.openTemp, if_true, Function.update_of_ne hqp] at hq
          exact hold hq
  · simp only [Shared.openTemp] at hq
    split_ifs at hq with hshared
    obtain rfl := Option.some.inj hq
    simp only [Bool.and_eq_true, Bool.not_eq_true'] at hshared
    refine ⟨_, rfl, fun h hother heq => ?_⟩
    have hother' : s.streams (other p) = some h := by
      simpa [Shared.openTemp, hshared.1, Function.update_of_ne (ne_other p).symm] using hother
    simp [hother', heq] at hshared

theorem openTemp_spares : Spares (other p) s (s.openTemp p opened) := by
  refine ⟨?_, rfl, fun howner => ?_⟩
  · cases opened with
    | false => rfl
    | true => exact Function.update_of_ne (ne_other p).symm _ _
  · simp only [Shared.openTemp] at howner
    split_ifs at howner
    exact absurd (Option.some.inj howner) (ne_other p)

end Opening

/-- Every step but the rename keeps the files sound. -/
theorem effect_sound {op : SaveOp} (hop : op ≠ .rename) (i : SaveInput) (hs : Sound allowed s) :
    Sound allowed (effect p i s op) := by
  cases op with
  | rename => exact absurd rfl hop
  | ensureDir | tempPath | ferror => exact hs
  | createPrivate =>
      simp only [effect]
      split_ifs
      · exact openTemp_sound hs
      · exact openTemp_sound hs
      · exact hs
  | write c =>
      simp only [effect]
      split
      · exact hs
      · exact emit_sound hs ‹_›
  | sync =>
      simp only [effect]
      split
      · exact hs
      · split_ifs <;> exact emit_sound hs ‹_›
  | close =>
      simp only [effect]
      split
      · exact hs
      · exact emit_sound hs ‹_›
  | deleteTemp =>
      simp only [effect]
      split_ifs
      · refine ⟨hs.config, fun inode h => ?_, fun _ h => ?_, hs.streams, fun _ h => ?_⟩
        · exact hs.fresh inode (h.imp_right fun h => by cases h)
        · cases h
        · cases h
      · exact hs

/-- No step touches the file that the other process owns. -/
theorem effect_spares (op : SaveOp) (i : SaveInput) (hs : Sound allowed s) :
    Spares (other p) s (effect p i s op) := by
  cases op with
  | ensureDir | tempPath | ferror => exact Spares.refl _ _
  | createPrivate =>
      simp only [effect]
      split_ifs
      · exact openTemp_spares
      · exact openTemp_spares
      · exact Spares.refl _ _
  | write c =>
      simp only [effect]
      split
      · exact Spares.refl _ _
      · exact emit_spares hs ‹_›
  | sync =>
      simp only [effect]
      split
      · exact Spares.refl _ _
      · split_ifs <;> exact emit_spares hs ‹_›
  | close =>
      simp only [effect]
      split
      · exact Spares.refl _ _
      · exact emit_spares hs ‹_›
  | deleteTemp =>
      simp only [effect]
      split_ifs
      · exact ⟨rfl, rfl, fun h => by cases h⟩
      · exact Spares.refl _ _
  | rename =>
      simp only [effect]
      split
      · exact Spares.refl _ _
      · split_ifs
        · exact ⟨rfl, Function.update_of_ne (ne_other p).symm _ _, fun h => by cases h⟩
        · exact Spares.refl _ _

theorem effect_trespassed {op : SaveOp} (hop : op ≠ .rename) (i : SaveInput) :
    (effect p i s op).trespassed = s.trespassed := by
  cases op with
  | rename => exact absurd rfl hop
  | ensureDir | tempPath | ferror => rfl
  | createPrivate | deleteTemp =>
      simp only [effect]
      split_ifs <;> rfl
  | write c | close =>
      simp only [effect]
      split <;> rfl
  | sync =>
      simp only [effect]
      split
      · rfl
      · split_ifs <;> rfl

theorem During.act {op : SaveOp} (hop : op ≠ .rename) (i : SaveInput) :
    Keeps (During allowed text' (other p)) s (act p op i s).2 := by
  intro stage hs htrespassed
  obtain ⟨hsound, hat⟩ := hs ((effect_trespassed hop i).symm.trans htrespassed)
  exact ⟨effect_sound hop i hsound, (effect_spares op i hsound).at hat⟩

end Steps

section Saving
variable {allowed : Option CString → Prop} {text : CString} {p : Side}

/-- The program goes from one stage to another, and spares what the other process
owns on the way. -/
def Leads {α : Type} (allowed : Option CString → Prop) (text : CString) (p : Side) (pre : Stage)
    (program : SaveProgram α) (post : α → Stage) : Prop :=
  ∀ text', Triple (act p) (During allowed text p) (During allowed text' (other p))
    (During allowed text p pre) program fun a => During allowed text p (post a)

theorem Leads.done {α : Type} {pre : Stage} {post : α → Stage} {a : α}
    (h : ∀ s, At text p s pre → At text p s (post a)) :
    Leads allowed text p pre (.done a) post := fun _ =>
  Triple.done pre fun s hs htrespassed => (hs htrespassed).imp_right (h s)

/-- A step other than the rename. -/
theorem Leads.step {α : Type} {pre : Stage} {post : α → Stage} {op : SaveOp}
    {next : SaveSteps.Answer op → SaveProgram α} (hop : op ≠ .rename)
    (mid : SaveSteps.Answer op → Stage)
    (h : ∀ s i, Sound allowed s → At text p s pre →
      At text p (effect p i s op) (mid (answer p i s op)))
    (hnext : ∀ x, Leads allowed text p (mid x) (next x) post) :
    Leads allowed text p pre (.step op next) post := by
  refine fun text' => Triple.step pre (fun x => During allowed text p (mid x)) (fun s i hs => ?_)
    fun x => hnext x text'
  refine ⟨During.act hop i, fun htrespassed => ?_⟩
  obtain ⟨hsound, hat⟩ := hs ((effect_trespassed hop i).symm.trans htrespassed)
  exact ⟨effect_sound hop i hsound, h s i hsound hat⟩

theorem Leads.bind {α β : Type} {pre : Stage} {mid : α → Stage} {post : β → Stage}
    {program : SaveProgram α} {next : α → SaveProgram β}
    (h : Leads allowed text p pre program mid)
    (hnext : ∀ a, Leads allowed text p (mid a) (next a) post) :
    Leads allowed text p pre (program >>= next) post :=
  fun text' => Triple.bind (h text') fun a => hnext a text'

theorem discard_leads {pre : Stage} : Leads allowed text p pre discard .ended :=
  Leads.step (by decide) (fun _ => .any) (fun _ _ _ _ => trivial) fun _ =>
    Leads.done fun _ _ hcode => absurd hcode (by decide)

/-- A rename by the owner installs the whole document. Where it does not own the
file nothing is asserted any more. -/
theorem rename_installs {s : Shared} {i : SaveInput} {inode : ℕ} (hallowed : allowed (some text))
    (htemp : s.temp = some inode) (hworks : i.works = true)
    (hs : During allowed text p (.closed true) s)
    (htrespassed : (effect p i s .rename).trespassed = false) :
    Sound allowed (effect p i s .rename) ∧ (effect p i s .rename).installed p = some text ∧
      s.trespassed = false := by
  simp only [effect, htemp, hworks, if_true, Bool.or_eq_false_iff, decide_eq_false_iff_not,
    not_not] at htrespassed
  obtain ⟨hsound, hstream, hown⟩ := hs htrespassed.1
  obtain ⟨inode', hinode, htext⟩ := hown rfl htrespassed.2
  obtain rfl : inode' = inode := Option.some.inj (hinode.symm.trans htemp)
  obtain ⟨inode'', hinode', hfree⟩ := hsound.owned p htrespassed.2
  obtain rfl : inode'' = inode' := Option.some.inj (hinode'.symm.trans htemp)
  simp only [effect, htemp, hworks, if_true, Function.update_self, htext, true_and]
  refine ⟨⟨?_, fun k hk => ?_, fun _ hk => ?_, fun q h hq => ⟨(hsound.streams q h hq).1,
    fun heq => ?_⟩, fun _ hq => ?_⟩, htrespassed.1⟩
  · simpa only [Shared.config, Option.map_some, htext] using hallowed
  · rcases hk with hk | hk
    · exact hsound.fresh k (Or.inr (htemp.trans hk))
    · cases hk
  · cases hk
  · have hne : q ≠ p := by
      rintro rfl
      rw [hstream] at hq
      cases hq
    obtain rfl : q = other p := by
      cases q <;> cases p <;> first | rfl | exact absurd rfl hne
    exact hfree h hq (Option.some.inj heq).symm
  · cases hq

theorem install_leads (hallowed : allowed (some text)) :
    Leads allowed text p (.closed true) install .ended := by
  refine fun text' => Triple.step (Stage.closed true)
    (fun (renamed : Bool) => During allowed text p (if renamed then .ended 0 else .any))
    (fun s i hs => ?_) fun renamed => ?_
  · by_cases hfails : i.works = true ∧ s.temp.isSome = true
    · obtain ⟨hworks, hsome⟩ := hfails
      obtain ⟨inode, htemp⟩ := Option.isSome_iff_exists.mp hsome
      have hdone : answer p i s .rename = true := by
        simp only [answer, hworks, hsome, Bool.and_self]
      have hafter := rename_installs hallowed htemp hworks hs
      simp only [act, hdone, if_true]
      refine ⟨fun stage hstage htrespassed => ?_, fun htrespassed => ?_⟩
      · obtain ⟨hsound, -, hbefore⟩ := hafter htrespassed
        exact ⟨hsound, (effect_spares .rename i (hs hbefore).1).at (hstage hbefore).2⟩
      · obtain ⟨hsound, hinstalled, -⟩ := hafter htrespassed
        exact ⟨hsound, fun _ => hinstalled⟩
    · have hfailed : answer p i s .rename = false := by
        simpa only [answer, ← Bool.not_eq_true, Bool.and_eq_true] using hfails
      have hstay : effect p i s .rename = s := by
        cases htemp : s.temp with
        | none => simp only [effect, htemp]
        | some inode => simp_all [effect]
      simp only [act, hstay, hfailed]
      exact ⟨Keeps.refl _ _, fun htrespassed => ⟨(hs htrespassed).1, trivial⟩⟩
  · cases renamed with
    | true => exact Leads.done (fun _ h => h) text'
    | false => exact discard_leads text'

theorem closing_leads (hallowed : allowed (some text)) (synced : Bool) :
    Leads allowed text p (.drained synced) (closing synced) .ended := by
  refine Leads.step (by decide) (fun closed => .closed (closed && synced)) (fun s i _ hs => ?_)
    fun closed => ?_
  · obtain ⟨h, hst, hown⟩ := hs
    refine ⟨by simp [effect, hst, Shared.emit], fun hgood howner => ?_⟩
    simp only [answer, Bool.and_eq_true] at hgood
    have howner' : s.owner = some p := by simpa [effect, hst, Shared.emit] using howner
    obtain ⟨htemp, hpending, htext⟩ := hown hgood.2 howner'
    refine ⟨h.inode, by simpa [effect, hst, Shared.emit] using htemp, ?_⟩
    simp [effect, hst, Shared.emit, hgood.1, hpending, writeAt, htext]
  · cases closed <;> cases synced
    · exact discard_leads
    · exact discard_leads
    · exact discard_leads
    · exact install_leads hallowed

theorem bringing_leads (hallowed : allowed (some text)) :
    Leads allowed text p (.written text false) bringing .ended := by
  refine Leads.step (by decide) (fun error => if error then .drained false else .written text true)
    (fun s i _ hs => ?_) fun error => ?_
  · obtain ⟨h, hst, hown⟩ := hs
    simp only [answer, hst, Option.any_some]
    cases herror : h.error with
    | true => exact ⟨h, hst, fun hsynced => by cases hsynced⟩
    | false =>
        refine ⟨h, hst, fun howner => ⟨(hown howner).1, fun _ => (hown howner).2 (Or.inr herror)⟩⟩
  · cases error with
    | true => exact closing_leads hallowed false
    | false =>
        refine Leads.step (by decide) .drained (fun s i _ hs => ?_) (closing_leads hallowed)
        obtain ⟨h, hst, hown⟩ := hs
        cases hworks : i.works with
        | false =>
            refine ⟨⟨h.inode, h.offset + (h.pending.take i.flushed).length,
              h.pending.drop i.flushed, true⟩, ?_, fun hsynced => ?_⟩
            · simp only [effect, hst, hworks, Bool.false_eq_true, if_false, Shared.emit,
                Function.update_self, Option.map_some]
            · simp only [answer, hworks, Bool.false_and] at hsynced
              cases hsynced
        | true =>
            refine ⟨⟨h.inode, h.offset + h.pending.length, [], h.error⟩, ?_, fun _ howner => ?_⟩
            · simp only [effect, hst, hworks, if_true, Shared.emit, Function.update_self,
                Option.map_some]
            · simp only [effect, hst, hworks, if_true, Shared.emit] at howner ⊢
              obtain ⟨htemp, hbytes⟩ := hown howner
              obtain ⟨hoffset, htext⟩ := hbytes (Or.inl rfl)
              refine ⟨htemp, trivial, ?_⟩
              rw [Function.update_self, hoffset, writeAt_end, htext]

theorem write_leads (w : CString) (c : UInt8) :
    Leads allowed text p (.written w false) (.step (.write c) .done)
      fun _ => .written (w ++ [c]) false := by
  refine Leads.step (by simp) (fun _ => .written (w ++ [c]) false) (fun s i _ hs => ?_)
    fun _ => Leads.done fun _ h => h
  obtain ⟨h, hst, hown⟩ := hs
  refine ⟨⟨h.inode, h.offset + ((h.pending ++ [c]).take i.flushed).length,
    if i.works then (h.pending ++ [c]).drop i.flushed else [], h.error || !i.works⟩, ?_, ?_⟩
  · simp only [effect, hst, Shared.emit, Function.update_self, Option.map_some]
  · intro howner
    simp only [effect, hst, Shared.emit] at howner ⊢
    obtain ⟨htemp, hbytes⟩ := hown howner
    refine ⟨htemp, fun herror => ?_⟩
    simp only [Bool.false_eq_true, false_or, Bool.or_eq_false_iff, Bool.not_eq_false'] at herror
    obtain ⟨hoffset, htext⟩ := hbytes (Or.inr herror.1)
    rw [Function.update_self, hoffset, writeAt_end, if_pos herror.2, List.append_assoc,
      List.take_append_drop, List.length_append, ← List.append_assoc, htext]
    exact ⟨rfl, rfl⟩

theorem fprint_leads (w cs : CString) :
    Leads allowed text p (.written w false) (fprint cs) fun _ => .written (w ++ cs) false := by
  induction cs generalizing w with
  | nil => exact Leads.done fun _ hs => by rwa [List.append_nil]
  | cons c cs ih =>
      rw [List.append_cons]
      exact Leads.bind (write_leads w c) fun _ => ih (w ++ [c])

theorem saving_leads (hallowed : allowed (some text)) :
    Leads allowed text p .any (saving text) .ended := by
  refine Leads.step (by decide) (fun opened => if opened then .written [] false else .any)
    (fun s i _ _ => ?_) fun opened => ?_
  · cases hworks : i.works with
    | false =>
        simp only [answer, hworks, Bool.false_eq_true, if_false]
        trivial
    | true =>
        simp only [answer, effect, hworks, if_true]
        refine ⟨⟨s.temp.getD s.next, 0, [], false⟩, ?_, fun _ => ⟨rfl, fun _ => ?_⟩⟩
        · simp only [Shared.openTemp, if_true, Function.update_self]
        · simp only [Shared.openTemp, Function.update_self]
          exact ⟨rfl, rfl⟩
  · cases opened with
    | false => exact Leads.done fun _ _ hcode => absurd hcode (by decide)
    | true => exact Leads.bind (fprint_leads [] text) fun _ => bringing_leads hallowed

theorem configSave_leads (cfg : Config) (hallowed : allowed (some (configText cfg))) :
    Leads allowed (configText cfg) p .any (configSave cfg) .ended := by
  have hgivenUp : ∀ {pre : Stage}, Leads allowed (configText cfg) p pre (.done (-1)) .ended :=
    Leads.done fun _ _ hcode => absurd hcode (by decide)
  rw [configSave_eq]
  refine Leads.step (by decide) (fun _ => .any) (fun _ _ _ _ => trivial) fun made => ?_
  cases made with
  | false => exact hgivenUp
  | true =>
      refine Leads.step (by decide) (fun _ => .any) (fun _ _ _ _ => trivial) fun fits => ?_
      cases fits with
      | false => exact hgivenUp
      | true => exact saving_leads hallowed

end Saving

section Runs
variable {cfg cfg' : Config} {config temp : Option CString}

/-- The settings file is the old one or a whole document, and a save that has
returned 0 installed its own with its rename. -/
structure Intact (cfg cfg' : Config) (config : Option CString)
    (c : SaveProgram ℤ × SaveProgram ℤ × Shared) : Prop where
  config : c.2.2.config = config ∨ c.2.2.config = some (configText cfg) ∨
    c.2.2.config = some (configText cfg')
  left : c.1.value? = some 0 → c.2.2.installed .left = some (configText cfg)
  right : c.2.1.value? = some 0 → c.2.2.installed .right = some (configText cfg')

/-- Before the saves nothing is open and nothing is owned. -/
theorem start_sound (allowed : Option CString → Prop) (h : allowed config) :
    Sound allowed (.start config temp) := by
  have hconfig : (Shared.start config temp).config = config := by
    cases config <;> rfl
  refine ⟨by rwa [hconfig], fun inode hi => ?_, fun inode hi ht => ?_, fun _ _ hq => ?_,
    fun _ hq => ?_⟩
  · simp only [Shared.start, Option.map_eq_some_iff] at hi ⊢
    rcases hi with ⟨_, -, rfl⟩ | ⟨_, -, rfl⟩
    · exact Nat.zero_lt_two
    · exact Nat.one_lt_two
  · simp only [Shared.start, Option.map_eq_some_iff] at hi ht
    obtain ⟨_, -, rfl⟩ := hi
    obtain ⟨_, -, hzero⟩ := ht
    exact absurd hzero (by decide)
  · cases hq
  · cases hq

theorem turn_trespassed {c : SaveProgram ℤ × SaveProgram ℤ × Shared} {j : Side × SaveInput}
    (hc : c.2.2.trespassed = false) (h : RenamesOwn c j) :
    (turn act c j).2.2.trespassed = false := by
  have hadvance : ∀ (p : Side) (program : SaveProgram ℤ), (program.op? = some .rename →
      j.2.works = true → c.2.2.temp.isSome = true → c.2.2.owner = some p) →
        (advance (act p) program j.2 c.2.2).2.trespassed = false := by
    intro p program hown
    cases program with
    | done code => exact hc
    | step op next =>
        by_cases hop : op = .rename
        · subst hop
          simp only [advance, act, effect]
          split
          · exact hc
          · rename_i inode htemp
            split_ifs with hworks
            · have howner := hown rfl hworks (by rw [htemp]; rfl)
              simp [hc, howner]
            · exact hc
        · exact (effect_trespassed hop j.2).trans hc
  obtain ⟨p, i⟩ := j
  cases p with
  | left => exact hadvance .left c.1 h
  | right => exact hadvance .right c.2.1 h

/-- As long as no process renames a file that it does not own, every state that two
saves reach is intact, in any order of their steps and whatever fails. -/
theorem saves_intact {turns : List (Side × SaveInput)}
    (h : Along (turn act) RenamesOwn (saves cfg cfg' config temp) turns) :
    Intact cfg cfg' config (interleave act turns (saves cfg cfg' config temp)) := by
  let allowed : Option CString → Prop := fun content =>
    content = config ∨ content = some (configText cfg) ∨ content = some (configText cfg')
  have htrespassed : (interleave act turns (saves cfg cfg' config temp)).2.2.trespassed = false :=
    Along.invariant (fun c => c.2.2.trespassed = false) (fun _ _ => turn_trespassed) rfl h
  have hstart : ∀ p text, During allowed text p .any (.start config temp) :=
    fun p text _ => ⟨start_sound allowed (Or.inl rfl), trivial⟩
  have hleft : Leads allowed (configText cfg) .left .any (configSave cfg) .ended :=
    configSave_leads cfg (Or.inr (Or.inl rfl))
  have hright : Leads allowed (configText cfg') .right .any (configSave cfg') .ended :=
    configSave_leads cfg' (Or.inr (Or.inr rfl))
  obtain ⟨hl, hr, hkept⟩ := (hleft (configText cfg') _ (hstart _ _)).turns
    (hright (configText cfg) _ (hstart _ _)) turns
  constructor
  · exact (hkept .any .any rfl (hstart _ _) htrespassed).1.config
  · exact fun hdone => (hl.ended hdone htrespassed).2 rfl
  · exact fun hdone => (hr.ended hdone htrespassed).2 rfl

section Emptied

/-- Everything works, and what is written waits in the stream until the sync. -/
def calm : SaveInput := ⟨true, true, 0⟩

theorem interleave_append (turns turns' : List (Side × SaveInput))
    (c : SaveProgram ℤ × SaveProgram ℤ × Shared) :
    interleave act (turns ++ turns') c = interleave act turns' (interleave act turns c) :=
  List.foldl_append

theorem fprint_run {α : Type} (cs : CString) (f : Unit → SaveProgram α) (q : SaveProgram ℤ)
    {s : Shared} {h : Handle} (hst : s.streams .left = some h) :
    interleave act (List.replicate cs.length (.left, calm)) (fprint cs >>= f, q, s) =
      (f (), q, { s with
        streams := Function.update s.streams .left
          (some { h with pending := h.pending ++ cs }) }) := by
  induction cs generalizing s h with
  | nil =>
      have hsame : Function.update s.streams .left (some h) = s.streams := by
        rw [← hst, Function.update_eq_self]
      simp [interleave, fprint, hsame]
  | cons c cs ih =>
      have hwrite : effect .left calm s (.write c) =
          { s with
            streams := Function.update s.streams .left
              (some { h with pending := h.pending ++ [c] }) } := by
        simp only [effect, hst, calm, List.take_zero, List.drop_zero, if_true, Bool.not_true,
          Bool.or_false, Shared.emit, Option.map_some, List.length_nil, Nat.add_zero, writeAt,
          Function.update_eq_self]
      have hturn : interleave act (List.replicate (c :: cs).length (.left, calm))
          (fprint (c :: cs) >>= f, q, s) = interleave act (List.replicate cs.length (.left, calm))
            (fprint cs >>= f, q, effect .left calm s (.write c)) := rfl
      rw [hturn, hwrite,
        ih (h := { h with pending := h.pending ++ [c] }) (by simp only [Function.update_self])]
      simp only [Function.update_idem, List.append_assoc, List.cons_append, List.nil_append]

theorem fprint_along (cs : CString) (f : Unit → SaveProgram ℤ) (q : SaveProgram ℤ)
    (s : Shared) : Along (turn act) RenamesOwn (fprint cs >>= f, q, s)
      (List.replicate cs.length (.left, calm)) := by
  induction cs generalizing s with
  | nil => trivial
  | cons c cs ih => exact ⟨fun hop => (by cases hop), ih _⟩

/-- The left process has opened the file. -/
theorem opening_run (cfg cfg' : Config) :
    interleave act (List.replicate 3 (.left, calm)) (saves cfg cfg' none none) =
      (fprint (configText cfg) >>= fun _ => bringing, configSave cfg',
        (Shared.start none none).openTemp .left true) := by
  rw [saves, configSave_eq cfg]
  rfl

/-- A whole save by the left process, with turns of the right one before the rename. -/
def saveAround (cfg : Config) (between : List (Side × SaveInput)) : List (Side × SaveInput) :=
  List.replicate 3 (.left, calm) ++ (List.replicate (configText cfg).length (.left, calm) ++
    (List.replicate 3 (.left, calm) ++ (between ++ [(.left, calm)])))

/-- The right process opens the file when the left one is about to rename it. -/
def emptying (cfg : Config) : List (Side × SaveInput) :=
  saveAround cfg (List.replicate 3 (.right, calm))

/-- The settings file is empty, and the save that emptied it has returned 0. -/
theorem emptying_empties (cfg cfg' : Config) :
    (interleave act (emptying cfg) (saves cfg cfg' none none)).2.2.config = some [] ∧
      (interleave act (emptying cfg) (saves cfg cfg' none none)).1.value? = some 0 := by
  rw [emptying, saveAround, interleave_append, opening_run, interleave_append,
    fprint_run (h := ⟨2, 0, [], false⟩) _ _ _ rfl, configSave_eq cfg']
  exact ⟨rfl, rfl⟩

/-- One save renames the file that the other has just cut to nothing. -/
theorem saves_intact_counterexample :
    ¬ ∀ turns, Intact configDefault configDefault none
      (interleave act turns (saves configDefault configDefault none none)) := by
  intro h
  have hempty := emptying_empties configDefault configDefault
  have hne : ∀ cfg, configText cfg ≠ [] := fun cfg htext => by
    cases htext
  rcases (h (emptying configDefault)).config with hold | hnew | hnew
  · rw [hempty.1] at hold
    cases hold
  · rw [hempty.1] at hnew
    exact hne _ (Option.some.inj hnew).symm
  · rw [hempty.1] at hnew
    exact hne _ (Option.some.inj hnew).symm

/-- A save that is alone until its rename, with another one beginning right after. -/
theorem saves_intact_in_turn :
    Intact configDefault configDefault none (interleave act
      (saveAround configDefault [] ++ List.replicate 3 (.right, calm))
      (saves configDefault configDefault none none)) := by
  have hwritten := fprint_run (configText configDefault) (fun _ => bringing)
    (configSave configDefault) (s := (Shared.start none none).openTemp .left true)
    (h := ⟨2, 0, [], false⟩) rfl
  have hopening : Along (turn act) RenamesOwn (saves configDefault configDefault none none)
      (List.replicate 3 (.left, calm)) := by
    rw [saves, configSave_eq]
    exact ⟨fun hop => (by cases hop), fun hop => (by cases hop), fun hop => (by cases hop), trivial⟩
  have hclosing : Along (turn act) RenamesOwn (interleave act
      (List.replicate (configText configDefault).length (.left, calm)) (interleave act
        (List.replicate 3 (.left, calm)) (saves configDefault configDefault none none)))
      (List.replicate 3 (.left, calm) ++ ([] ++ [(.left, calm)])) := by
    rw [opening_run, hwritten]
    exact ⟨fun hop => (by cases hop), fun hop => (by cases hop), fun hop => (by cases hop),
      fun _ _ _ => rfl, trivial⟩
  have hnext : Along (turn act) RenamesOwn (interleave act (saveAround configDefault [])
      (saves configDefault configDefault none none)) (List.replicate 3 (.right, calm)) := by
    rw [saveAround, interleave_append, opening_run, interleave_append, hwritten, configSave_eq]
    exact ⟨fun hop => (by cases hop), fun hop => (by cases hop), fun hop => (by cases hop), trivial⟩
  refine saves_intact (Along.append (Along.append hopening (Along.append ?_ hclosing)) hnext)
  change Along _ _ (interleave act _ _) _
  rw [opening_run]
  exact fprint_along _ _ _ _

end Emptied

end Runs

end Muslimtify.TwoSavers
