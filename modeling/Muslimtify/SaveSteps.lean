import Muslimtify.DaemonCycle

/-!
# The steps of a save

Both savers write a temporary file through a stream, bring it to the disk and
rename it over the target. Each step may fail and the process may stop between
any two of them. Bytes that were written may wait in the stream, and bytes that
have left it are safe from a power cut only after a sync.

The target is touched by the rename alone. So it is enough that the rename is
reached only with a temporary file that is whole and synced, and that is what
the error flag of the stream, the sync and the close are asked for.
-/
namespace Muslimtify.SaveSteps
open CText Settings ConfigRoundTrip TriggerCache CacheFile Program

section Operations

inductive SaveOp
  | ensureDir
  | tempPath
  | createPrivate
  | write (c : UInt8)
  | ferror
  | sync
  | close
  | deleteTemp
  | rename
  deriving DecidableEq, Repr

@[reducible] def Answer : SaveOp → Type
  | .write _ => Unit
  | _ => Bool

abbrev SaveProgram := Program SaveOp Answer

/-- What the outside world decides about one step: whether it works, whether a
temporary file that got no stream was created all the same, and how many waiting
bytes leave the stream. -/
structure SaveInput where
  works : Bool
  created : Bool
  flushed : ℕ

/-- An open stream: the bytes that wait in it and its error flag. -/
structure Stream where
  pending : CString
  error : Bool

/-- The two files and the stream on the temporary one. `before` is the target that a
rename has replaced, and the `synced` flags tell what a power cut spares. The log
has every step with whether it worked. -/
structure Files where
  target : Option CString
  before : Option CString
  targetSynced : Bool
  temp : Option CString
  synced : Bool
  stream : Option Stream
  log : List (SaveOp × Bool)

/-- Before a save: a target on the disk, and maybe a temporary file of an earlier one. -/
def Files.start (target temp : Option CString) : Files :=
  ⟨target, target, true, temp, false, none, []⟩

/-- Bytes of the stream reach the temporary file. -/
def Files.flush (s : Files) (bytes : CString) : Option CString := s.temp.map (· ++ bytes)

def answer (i : SaveInput) (s : Files) : (op : SaveOp) → Answer op
  | .ensureDir | .tempPath | .createPrivate | .close | .deleteTemp => i.works
  | .write _ => ()
  | .ferror => s.stream.any Stream.error
  | .sync => i.works && s.stream.isSome
  | .rename => i.works && s.temp.isSome

def effect (i : SaveInput) (s : Files) : SaveOp → Files
  | .ensureDir | .tempPath | .ferror => s
  | .createPrivate =>
      if i.works then { s with temp := some [], synced := false, stream := some ⟨[], false⟩ }
      else if i.created then { s with temp := some [], synced := false }
      else s
  | .write c =>
      match s.stream with
      | none => s
      | some st =>
          let bytes := st.pending ++ [c]
          { s with
            temp := s.flush (bytes.take i.flushed)
            synced := false
            stream := some ⟨if i.works then bytes.drop i.flushed else [], st.error || !i.works⟩ }
  | .sync =>
      match s.stream with
      | none => s
      | some st =>
          if i.works then
            { s with temp := s.flush st.pending, synced := true, stream := some ⟨[], st.error⟩ }
          else
            { s with
              temp := s.flush (st.pending.take i.flushed)
              synced := false
              stream := some ⟨st.pending.drop i.flushed, true⟩ }
  | .close =>
      match s.stream with
      | none => s
      | some st =>
          { s with
            temp := s.flush (if i.works then st.pending else st.pending.take i.flushed)
            synced := s.synced && st.pending.isEmpty
            stream := none }
  | .deleteTemp => if i.works then { s with temp := none } else s
  | .rename =>
      match s.temp with
      | none => s
      | some bytes =>
          if i.works then
            { s with
              target := some bytes
              before := s.target
              targetSynced := s.synced
              temp := none }
          else s

def act (op : SaveOp) (i : SaveInput) (s : Files) : Answer op × Files :=
  (answer i s op, { effect i s op with log := s.log ++ [(op, i.works)] })

/-- What a reader may find in the target after a stop: what was there, or after a power
cut also what was there before the rename, and anything when the bytes were not synced. -/
inductive Survives (s : Files) : Option CString → Prop
  | stopped : Survives s s.target
  | unrenamed : Survives s s.before
  | torn (content : Option CString) : s.targetSynced = false → Survives s content

end Operations

section Programs

def ensureDir : SaveProgram Bool := .step .ensureDir .done
def tempPath : SaveProgram Bool := .step .tempPath .done
def platformFileCreatePrivate : SaveProgram Bool := .step .createPrivate .done
def ferror : SaveProgram Bool := .step .ferror .done
def platformFileSync : SaveProgram Bool := .step .sync .done
def fclose : SaveProgram Bool := .step .close .done
def platformFileDelete : SaveProgram Bool := .step .deleteTemp .done
def platformAtomicRename : SaveProgram Bool := .step .rename .done

/-- A document, byte by byte: an `fprintf` of several bytes is several writes. -/
def fprint : CString → SaveProgram Unit
  | [] => .done ()
  | c :: cs => .step (.write c) fun _ => fprint cs

def writeJsonFile (cfg : Config) : SaveProgram ℤ := do
  fprint (configText cfg)
  return if ← ferror then -1 else 0

def configSave (cfg : Config) : SaveProgram ℤ := do
  if !(← ensureDir) then return -1
  if !(← tempPath) then return -1
  if !(← platformFileCreatePrivate) then return -1
  let mut writeErr := false
  if (← writeJsonFile cfg) ≠ 0 then writeErr := true
  else if !(← platformFileSync) then writeErr := true
  if !(← fclose) && !writeErr then writeErr := true
  if writeErr then
    let _ ← platformFileDelete
    return -1
  if !(← platformAtomicRename) then
    let _ ← platformFileDelete
    return -1
  return 0

def cacheSave (cache : PrayerCache) : SaveProgram ℤ := do
  if !(← ensureDir) then return -1
  if !(← platformFileCreatePrivate) then return -1
  fprint (cacheText cache)
  let mut writeErr := true
  if !(← ferror) then writeErr := !(← platformFileSync)
  if !(← fclose) || writeErr then
    let _ ← platformFileDelete
    return -1
  if !(← platformAtomicRename) then
    let _ ← platformFileDelete
    return -1
  return 0

end Programs

section Shape

/-- The temporary file is given up. -/
def discard : SaveProgram ℤ := .step .deleteTemp fun _ => .done (-1)

def install : SaveProgram ℤ := .step .rename fun renamed => if renamed then .done 0 else discard

def closing (synced : Bool) : SaveProgram ℤ :=
  .step .close fun closed => if closed && synced then install else discard

def bringing : SaveProgram ℤ :=
  .step .ferror fun error =>
    if error then closing false else .step .sync fun synced => closing synced

def saving (text : CString) : SaveProgram ℤ :=
  .step .createPrivate fun opened =>
    if opened then fprint text >>= fun _ => bringing else .done (-1)

/-- The two savers differ in how they keep the error, and in the check of the path. -/
theorem configSave_eq (cfg : Config) :
    configSave cfg = .step .ensureDir fun made =>
      if made then .step .tempPath fun fits => if fits then saving (configText cfg) else .done (-1)
      else .done (-1) := by
  simp only [configSave, ensureDir, tempPath, platformFileCreatePrivate, writeJsonFile, ferror,
    platformFileSync, fclose, platformFileDelete, platformAtomicRename, step_bind, done_bind,
    pure_eq, bind_assoc, saving, bringing, closing, install, discard, Bool.not_eq_true']
  refine congrArg (Program.step _) (funext fun made => ?_)
  cases made with
  | false => rfl
  | true =>
      refine congrArg (Program.step _) (funext fun fits => ?_)
      cases fits with
      | false => rfl
      | true =>
          refine congrArg (Program.step _) (funext fun opened => ?_)
          cases opened with
          | false => rfl
          | true =>
              refine congrArg (fprint (configText cfg) >>= ·) (funext fun _ => ?_)
              refine congrArg (Program.step _) (funext fun error => ?_)
              cases error with
              | true =>
                  refine congrArg (Program.step _) (funext fun closed => ?_)
                  cases closed <;> rfl
              | false =>
                  refine congrArg (Program.step _) (funext fun synced => ?_)
                  cases synced with
                  | false =>
                      refine congrArg (Program.step _) (funext fun closed => ?_)
                      cases closed <;> rfl
                  | true =>
                      refine congrArg (Program.step _) (funext fun closed => ?_)
                      cases closed with
                      | false => rfl
                      | true =>
                          refine congrArg (Program.step _) (funext fun renamed => ?_)
                          cases renamed <;> rfl

theorem cacheSave_eq (cache : PrayerCache) :
    cacheSave cache = .step .ensureDir fun made =>
      if made then saving (cacheText cache) else .done (-1) := by
  simp only [cacheSave, ensureDir, platformFileCreatePrivate, ferror, platformFileSync, fclose,
    platformFileDelete, platformAtomicRename, step_bind, done_bind, pure_eq, saving, bringing,
    closing, install, discard, Bool.not_eq_true']
  refine congrArg (Program.step _) (funext fun made => ?_)
  cases made with
  | false => rfl
  | true =>
      refine congrArg (Program.step _) (funext fun opened => ?_)
      cases opened with
      | false => rfl
      | true =>
          refine congrArg (fprint (cacheText cache) >>= ·) (funext fun _ => ?_)
          refine congrArg (Program.step _) (funext fun error => ?_)
          cases error with
          | true =>
              refine congrArg (Program.step _) (funext fun closed => ?_)
              cases closed <;> rfl
          | false =>
              refine congrArg (Program.step _) (funext fun synced => ?_)
              refine congrArg (Program.step _) (funext fun closed => ?_)
              cases closed <;> cases synced
              · rfl
              · rfl
              · rfl
              · refine congrArg (Program.step _) (funext fun renamed => ?_)
                cases renamed <;> rfl

end Shape

section Stages
variable {old : Option CString} {text : CString} {s : Files} {i : SaveInput}

/-- Whatever survives a stop is one of the two documents, whole. -/
def Whole (old : Option CString) (text : CString) (s : Files) : Prop :=
  ∀ content, Survives s content → content = old ∨ content = some text

/-- The target is the old one, and it is on the disk. -/
structure Untouched (old : Option CString) (s : Files) : Prop where
  target : s.target = old
  before : s.before = old
  targetSynced : s.targetSynced = true

theorem Untouched.whole (h : Untouched old s) : Whole old text s := by
  intro content hc
  cases hc with
  | stopped => exact Or.inl h.target
  | unrenamed => exact Or.inl h.before
  | torn content hsynced =>
      rw [h.targetSynced] at hsynced
      cases hsynced

/-- Only the rename touches the target. -/
theorem Untouched.act {op : SaveOp} (h : Untouched old s) (hop : op ≠ .rename) :
    Untouched old (act op i s).2 := by
  cases op with
  | rename => exact absurd rfl hop
  | ensureDir | tempPath | ferror => exact ⟨h.target, h.before, h.targetSynced⟩
  | createPrivate | deleteTemp =>
      simp only [SaveSteps.act, effect]
      split_ifs <;> exact ⟨h.target, h.before, h.targetSynced⟩
  | write c =>
      simp only [SaveSteps.act, effect]
      split <;> exact ⟨h.target, h.before, h.targetSynced⟩
  | sync =>
      simp only [SaveSteps.act, effect]
      split
      · exact ⟨h.target, h.before, h.targetSynced⟩
      · split_ifs <;> exact ⟨h.target, h.before, h.targetSynced⟩
  | close =>
      simp only [SaveSteps.act, effect]
      split <;> exact ⟨h.target, h.before, h.targetSynced⟩

/-- No stream has been opened. -/
structure Unopened (old : Option CString) (s : Files) : Prop where
  untouched : Untouched old s
  stream : s.stream = none
  log : (.createPrivate, true) ∉ s.log

/-- The stream holds what is written so far, up to what a reported error has cost. -/
def Written (old : Option CString) (text : CString) (s : Files) : Prop :=
  Untouched old s ∧ ∃ st, s.stream = some st ∧
    (st.error = false → ∃ flushed, s.temp = some flushed ∧ flushed ++ st.pending = text)

/-- After a sync that worked nothing waits in the stream. -/
def Drained (old : Option CString) (text : CString) (synced : Bool) (s : Files) : Prop :=
  Untouched old s ∧ ∃ st, s.stream = some st ∧
    (synced = true → s.temp = some text ∧ s.synced = true ∧ st.pending = [])

/-- The stream is closed, after a sync and a close that worked on the whole document. -/
def Closed (old : Option CString) (text : CString) (good : Bool) (s : Files) : Prop :=
  Untouched old s ∧ s.stream = none ∧ (good = true → s.temp = some text ∧ s.synced = true)

/-- The end of a save that returns `code`. -/
structure Ended (old : Option CString) (text : CString) (code : ℤ) (s : Files) : Prop where
  target : code = 0 ∧ s.target = some text ∨ code = -1 ∧ s.target = old
  stream : s.stream = none
  removed : code = -1 → (.createPrivate, true) ∈ s.log → (.deleteTemp, false) ∉ s.log →
    s.temp = none

/-- The program keeps the target whole at every step, and leads from `pre` to `post`. -/
def Leads {α : Type} (old : Option CString) (text : CString) (pre : Files → Prop)
    (p : SaveProgram α) (post : α → Files → Prop) : Prop :=
  Triple act Unshared (fun _ : Unit => Whole old text) pre p post

theorem Unopened.ended (h : Unopened old s) : Ended old text (-1) s where
  target := Or.inr ⟨rfl, h.untouched.target⟩
  stream := h.stream
  removed _ hopened := absurd hopened h.log

theorem Leads.done {α : Type} {pre : Files → Prop} {post : α → Files → Prop} {a : α}
    (h : ∀ s, pre s → post a s) : Leads old text pre (.done a) post :=
  Triple.done pre h

/-- A step other than the rename. -/
theorem Leads.step {α : Type} {pre : Files → Prop} {post : α → Files → Prop} {op : SaveOp}
    {next : Answer op → SaveProgram α} (hop : op ≠ .rename) (huntouched : ∀ s, pre s → Untouched old s)
    (mid : Answer op → Files → Prop)
    (h : ∀ s i, pre s → Untouched old (act op i s).2 → mid (act op i s).1 (act op i s).2)
    (hnext : ∀ x, Leads old text (mid x) (next x) post) :
    Leads old text pre (.step op next) post := by
  refine Triple.step pre mid (fun s i hs => ?_) hnext
  have hafter : Untouched old (act op i s).2 := (huntouched s hs).act hop
  exact ⟨fun _ _ => hafter.whole, h s i hs hafter⟩

theorem discard_leads {good : Bool} :
    Leads old text (Closed old text good) discard (Ended old text) := by
  apply Leads.step (by decide) (fun _ hs => hs.1) (fun _ => Ended old text (-1))
  · intro s i hs hafter
    refine ⟨Or.inr ⟨rfl, hafter.target⟩, ?_, fun _ _ hdeleted => ?_⟩
    · simp only [act, effect]
      split_ifs <;> exact hs.2.1
    · cases hworks : i.works with
      | true => simp [act, effect, hworks]
      | false =>
          simp only [act, hworks] at hdeleted
          exact absurd (List.mem_append_right _ (List.mem_singleton.mpr rfl)) hdeleted
  · exact fun _ => Leads.done fun _ hs => hs

/-- The rename puts a whole and synced file in the place of the old one. -/
theorem install_leads : Leads old text (Closed old text true) install (Ended old text) := by
  refine Triple.step (Closed old text true)
    (fun (renamed : Bool) s => if renamed then Ended old text 0 s else Closed old text true s)
    (fun s i hs => ?_) ?_
  · obtain ⟨huntouched, hstream, hgood⟩ := hs
    obtain ⟨htemp, hsynced⟩ := hgood rfl
    cases hworks : i.works with
    | true =>
        refine ⟨fun _ _ content hc => ?_, ?_⟩
        · simp only [act, effect, htemp, hworks, if_true] at hc
          cases hc with
          | stopped => exact Or.inr rfl
          | unrenamed => exact Or.inl huntouched.target
          | torn content htorn =>
              rw [show _ = s.synced from rfl, hsynced] at htorn
              cases htorn
        · simp only [act, effect, answer, htemp, hworks, if_true, Option.isSome_some, Bool.and_self]
          exact ⟨Or.inl ⟨rfl, rfl⟩, hstream, fun h => by cases h⟩
    | false =>
        have hafter : Untouched old (act .rename i s).2 := by
          simp only [act, effect, htemp, hworks, Bool.false_eq_true, if_false]
          exact ⟨huntouched.target, huntouched.before, huntouched.targetSynced⟩
        refine ⟨fun _ _ => hafter.whole, ?_⟩
        simp only [act, effect, answer, htemp, hworks, Bool.false_and, Bool.false_eq_true, if_false]
        exact ⟨⟨huntouched.target, huntouched.before, huntouched.targetSynced⟩, hstream,
          fun _ => ⟨rfl, hsynced⟩⟩
  · intro renamed
    cases renamed with
    | true => exact Leads.done fun _ hs => hs
    | false => exact discard_leads

theorem closing_leads (synced : Bool) :
    Leads old text (Drained old text synced) (closing synced) (Ended old text) := by
  apply Leads.step (by decide) (fun _ hs => hs.1) fun closed => Closed old text (closed && synced)
  · intro s i hs hafter
    obtain ⟨-, st, hst, hgood⟩ := hs
    refine ⟨hafter, by simp only [act, effect, hst], fun hok => ?_⟩
    simp only [answer, act, Bool.and_eq_true] at hok
    obtain ⟨htemp, hsynced, hpending⟩ := hgood hok.2
    simp only [act, effect, hst, hok.1, Files.flush, htemp, hsynced, hpending]
    exact ⟨congrArg some (List.append_nil text), rfl⟩
  · intro closed
    cases closed <;> cases synced
    · exact discard_leads
    · exact discard_leads
    · exact discard_leads
    · exact install_leads

theorem bringing_leads : Leads old text (Written old text) bringing (Ended old text) := by
  have hclose : Leads old text (Written old text) (closing false) (Ended old text) := by
    intro s hs
    obtain ⟨huntouched, st, hst, -⟩ := hs
    exact closing_leads false s ⟨huntouched, st, hst, fun h => by cases h⟩
  apply Leads.step (by decide) (fun _ hs => hs.1) fun error s =>
    Written old text s ∧ (error = false → ∀ st, s.stream = some st → st.error = false)
  · intro s i hs hafter
    refine ⟨⟨hafter, hs.2⟩, fun hok st hst => ?_⟩
    have hst : s.stream = some st := hst
    simpa only [act, answer, hst, Option.any_some] using hok
  · intro error
    cases error with
    | true => exact fun s hs => hclose s hs.1
    | false =>
        apply Leads.step (by decide) (fun _ hs => hs.1.1) (Drained old text)
        · intro s i hs hafter
          obtain ⟨⟨-, st, hst, hbytes⟩, hclean⟩ := hs
          obtain ⟨flushed, htemp, htext⟩ := hbytes (hclean rfl st hst)
          cases hworks : i.works with
          | true =>
              refine ⟨hafter, ⟨[], st.error⟩, by simp only [act, effect, hst, hworks, if_true], ?_⟩
              intro _
              simp only [act, effect, hst, hworks, if_true, Files.flush, htemp, Option.map_some,
                htext, and_self]
          | false =>
              refine ⟨hafter, ⟨st.pending.drop i.flushed, true⟩,
                by simp only [act, effect, hst, hworks, Bool.false_eq_true, if_false], ?_⟩
              intro hok
              simp only [act, answer, hworks, Bool.false_and] at hok
              cases hok
        · exact closing_leads

theorem write_leads (w : CString) (c : UInt8) :
    Leads old text (Written old w) (.step (.write c) .done) fun _ => Written old (w ++ [c]) := by
  apply Leads.step (by simp) (fun _ hs => hs.1) fun _ => Written old (w ++ [c])
  · intro s i hs hafter
    obtain ⟨-, st, hst, hbytes⟩ := hs
    refine ⟨hafter, ⟨if i.works then (st.pending ++ [c]).drop i.flushed else [],
      st.error || !i.works⟩, by simp only [act, effect, hst], fun herror => ?_⟩
    simp only [Bool.or_eq_false_iff, Bool.not_eq_false'] at herror
    obtain ⟨flushed, htemp, htext⟩ := hbytes herror.1
    refine ⟨flushed ++ (st.pending ++ [c]).take i.flushed, ?_, ?_⟩
    · simp only [act, effect, hst, Files.flush, htemp, Option.map_some]
    · rw [if_pos herror.2, List.append_assoc, List.take_append_drop, ← htext, List.append_assoc]
  · exact fun _ => Leads.done fun _ hs => hs

theorem fprint_leads (w cs : CString) :
    Leads old text (Written old w) (fprint cs) fun _ => Written old (w ++ cs) := by
  induction cs generalizing w with
  | nil => exact Leads.done fun _ hs => by rwa [List.append_nil]
  | cons c cs ih =>
      rw [List.append_cons]
      exact Triple.bind (write_leads w c) fun _ => ih (w ++ [c])

theorem saving_leads : Leads old text (Unopened old) (saving text) (Ended old text) := by
  apply Leads.step (by decide) (fun _ hs => hs.untouched) fun opened s =>
    if opened then Written old [] s else Unopened old s
  · intro s i hs hafter
    cases hworks : i.works with
    | true =>
        have hopen : Written old [] (act .createPrivate i s).2 := by
          refine ⟨hafter, ⟨[], false⟩, by simp only [act, effect, hworks, if_true], fun _ => ⟨[], ?_⟩⟩
          simp only [act, effect, hworks, if_true, List.append_nil, and_self]
        simpa only [act, answer, hworks, if_true] using hopen
    | false =>
        have hshut : Unopened old (act .createPrivate i s).2 := by
          refine ⟨hafter, ?_, ?_⟩
          · simp only [act, effect, hworks, Bool.false_eq_true, if_false]
            split_ifs <;> exact hs.stream
          · simp [act, hworks, hs.log]
        simpa only [act, answer, hworks, Bool.false_eq_true, if_false] using hshut
  · intro opened
    cases opened with
    | false => exact Leads.done fun _ hs => hs.ended
    | true => exact Triple.bind (fprint_leads [] text) fun _ => bringing_leads

/-- A step before the stream is opened. -/
theorem preparing_leads {op : SaveOp} {next : Answer op → SaveProgram ℤ} (hrename : op ≠ .rename)
    (hcreate : op ≠ .createPrivate) (hstream : ∀ i s, (effect i s op).stream = s.stream)
    (hnext : ∀ x, Leads old text (Unopened old) (next x) (Ended old text)) :
    Leads old text (Unopened old) (.step op next) (Ended old text) := by
  apply Leads.step hrename (fun _ hs => hs.untouched) fun _ => Unopened old
  · intro s i hs hafter
    refine ⟨hafter, (hstream i s).trans hs.stream, ?_⟩
    simp [act, hs.log, hcreate.symm]
  · exact hnext

theorem configSave_leads (cfg : Config) :
    Leads old (configText cfg) (Unopened old) (configSave cfg) (Ended old (configText cfg)) := by
  rw [configSave_eq]
  apply preparing_leads (by decide) (by decide) fun _ _ => rfl
  intro made
  cases made with
  | false => exact Leads.done fun _ hs => hs.ended
  | true =>
      apply preparing_leads (by decide) (by decide) fun _ _ => rfl
      intro fits
      cases fits with
      | false => exact Leads.done fun _ hs => hs.ended
      | true => exact saving_leads

theorem cacheSave_leads (cache : PrayerCache) :
    Leads old (cacheText cache) (Unopened old) (cacheSave cache)
      (Ended old (cacheText cache)) := by
  rw [cacheSave_eq]
  apply preparing_leads (by decide) (by decide) fun _ _ => rfl
  intro made
  cases made with
  | false => exact Leads.done fun _ hs => hs.ended
  | true => exact saving_leads

end Stages

/-- A save that loses nothing. Wherever it stops, what survives of the target is its
old content or the whole new document. A return of -1 leaves the old content, and no
temporary file once the stream was open, unless deleting it fails. A return of 0
leaves the new document. The stream is closed in any case. -/
structure LosesNothing (text : CString) (save : SaveProgram ℤ) (old temp : Option CString)
    (e : ℕ → SaveInput) : Prop where
  stops : ∀ n content, Survives (stateAfter act n save e (.start old temp)) content →
    content = old ∨ content = some text
  returns : (run act save e (.start old temp)).value = 0 ∨
    (run act save e (.start old temp)).value = -1
  failed : (run act save e (.start old temp)).value = -1 →
    (run act save e (.start old temp)).state.target = old
  removed : (run act save e (.start old temp)).value = -1 →
    (.createPrivate, true) ∈ (run act save e (.start old temp)).state.log →
    (.deleteTemp, false) ∉ (run act save e (.start old temp)).state.log →
    (run act save e (.start old temp)).state.temp = none
  saved : (run act save e (.start old temp)).value = 0 →
    (run act save e (.start old temp)).state.target = some text
  closed : (run act save e (.start old temp)).state.stream = none

theorem start_unopened (old temp : Option CString) : Unopened old (.start old temp) where
  untouched := ⟨rfl, rfl, rfl⟩
  stream := rfl
  log := by simp [Files.start]

theorem Leads.losesNothing {text : CString} {save : SaveProgram ℤ} {old : Option CString}
    (h : Leads old text (Unopened old) save (Ended old text)) (temp : Option CString)
    (e : ℕ → SaveInput) : LosesNothing text save old temp e := by
  have hmeets := h (.start old temp) (start_unopened old temp)
  have hended : Ended old text (run act save e (.start old temp)).value
      (run act save e (.start old temp)).state := hmeets.run e
  have hwhole : ∀ n, Whole old text (stateAfter act n save e (.start old temp)) :=
    fun n => hmeets.stateAfter (start_unopened old temp).untouched.whole n e
  have hne : (0 : ℤ) ≠ -1 := by decide
  constructor
  · exact hwhole
  · exact hended.target.imp And.left And.left
  · intro hfailed
    rcases hended.target with ⟨hzero, -⟩ | ⟨-, hold⟩
    · exact absurd (hzero.symm.trans hfailed) hne
    · exact hold
  · exact hended.removed
  · intro hsaved
    rcases hended.target with ⟨-, hnew⟩ | ⟨hfailed, -⟩
    · exact hnew
    · exact absurd (hsaved.symm.trans hfailed) hne
  · exact hended.stream

/-- Neither saver loses anything, whatever fails and wherever it stops. -/
theorem saves_lose_nothing :
    (∀ cfg old temp e, LosesNothing (configText cfg) (configSave cfg) old temp e) ∧
      ∀ cache old temp e, LosesNothing (cacheText cache) (cacheSave cache) old temp e :=
  ⟨fun cfg _ => (configSave_leads cfg).losesNothing,
    fun cache _ => (cacheSave_leads cache).losesNothing⟩

section Refinement
open DaemonCycle (Disk)

theorem LosesNothing.target_eq {text : CString} {save : SaveProgram ℤ} {old temp : Option CString}
    {e : ℕ → SaveInput} (h : LosesNothing text save old temp e) :
    (run act save e (.start old temp)).state.target =
      if (run act save e (.start old temp)).value = 0 then some text else old := by
  split_ifs with hvalue
  · exact h.saved hvalue
  · exact h.failed (h.returns.resolve_left hvalue)

/-- The save that a cycle is modelled with, one operation that works or not, is what
the steps come to. -/
theorem configSave_refined (cfg : Config) (disk : Disk) (temp : Option CString)
    (e : ℕ → SaveInput) (lookups : Detection.Lookups) :
    DaemonCycle.effect
        ⟨(run act (configSave cfg) e (.start disk.config temp)).value = 0, lookups⟩ disk
        (.saveConfig cfg) =
      { disk with config := (run act (configSave cfg) e (.start disk.config temp)).state.target } := by
  rw [((configSave_leads cfg).losesNothing temp e).target_eq]
  by_cases hvalue : (run act (configSave cfg) e (.start disk.config temp)).value = 0
  · simp only [DaemonCycle.effect, hvalue, decide_true, if_true]
  · simp only [DaemonCycle.effect, hvalue, decide_false, Bool.false_eq_true, if_false]

theorem cacheSave_refined (cache : PrayerCache) (disk : Disk) (temp : Option CString)
    (e : ℕ → SaveInput) (lookups : Detection.Lookups) :
    DaemonCycle.effect
        ⟨(run act (cacheSave cache) e (.start disk.cache temp)).value = 0, lookups⟩ disk
        (.saveCache cache) =
      { disk with cache := (run act (cacheSave cache) e (.start disk.cache temp)).state.target } := by
  rw [((cacheSave_leads cache).losesNothing temp e).target_eq]
  by_cases hvalue : (run act (cacheSave cache) e (.start disk.cache temp)).value = 0
  · simp only [DaemonCycle.effect, hvalue, decide_true, if_true]
  · simp only [DaemonCycle.effect, hvalue, decide_false, Bool.false_eq_true, if_false]

end Refinement

end Muslimtify.SaveSteps
