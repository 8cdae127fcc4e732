import Mathlib
import ProtoTypings.Proofs.Inputs

namespace ProtoTypings

-- The places that paths lead to, and the places inside of a directory.
structure Layout (κ : Type) where
  locate : String → κ
  inside : (directory place : κ) → Bool

structure Store {κ : Type} (layout : Layout κ) where
  contents : κ → Option String
  directories : κ → Bool
  time : Timestamp := ⟨0, 0⟩
  log : List Event := []

variable {κ : Type} [DecidableEq κ] {layout : Layout κ}

namespace Store

def isDirectory (st : Store layout) (path : String) : Bool :=
  st.directories (layout.locate path)

-- Makes a directory and those above it.
def withDirectory (st : Store layout) (path : String) : Store layout :=
  { st with directories := fun place =>
      st.directories place || place = layout.locate path || layout.inside place (layout.locate path) }

def withText (st : Store layout) (path content : String) : Store layout :=
  { st with contents := Function.update st.contents (layout.locate path) (some content) }

-- Removes a directory and all that is inside.
def without (st : Store layout) (path : String) : Store layout :=
  { st with
    contents := fun place =>
      if layout.inside (layout.locate path) place then none else st.contents place
    directories := fun place =>
      st.directories place && place ≠ layout.locate path && !layout.inside (layout.locate path) place }

end Store

instance : Host (StateM (Store layout)) where
  readText path := fun st => (st.contents (layout.locate path), st)
  isFile path := fun st => ((st.contents (layout.locate path)).isSome, st)
  isDirectory path := fun st => (st.isDirectory path, st)
  createDirectories path := fun st => (true, st.withDirectory path)
  writeText path content := fun st => (true, st.withText path content)
  removeDirectory path := fun st => (true, st.without path)
  workingDirectory := fun st => (none, st)
  now := fun st => (st.time, st)
  note event := fun st => ((), { st with log := st.log ++ [event] })

-- What the result of a write tells about the text that was there before it.
def WriteResult.Tells (text? : Option String) (content : String) : WriteResult → Prop
  | created => text? = none
  | replaced => ∃ text, text? = some text ∧ text ≠ content
  | unchanged => text? = some content

theorem WriteResult.tells_of (text? : Option String) (content : String) :
    (WriteResult.of text? content).Tells text? content := by
  cases text?
  case none => rfl
  case some text =>
    rw [WriteResult.of]
    split
    case isTrue h  => exact h ▸ rfl
    case isFalse h => exact ⟨text, rfl, h⟩

namespace Layout

-- The texts of a store after a file was written.
def put (layout : Layout κ) (contents : κ → Option String) (file : GeneratedFile) : κ → Option String :=
  Function.update contents (layout.locate file.path) (some file.content)

-- The files for a place.
def filesAt (layout : Layout κ) (files : List GeneratedFile) (place : κ) : List GeneratedFile :=
  files.filter (layout.locate ·.path = place)

-- A file is compared with what those before it have left.
def report (layout : Layout κ) (contents : κ → Option String) (files : List GeneratedFile) :
    List WrittenFile :=
  files.mapIdx fun i file =>
    { path := file.path
      result := .of ((files.take i).foldl layout.put contents (layout.locate file.path)) file.content }

variable {files : List GeneratedFile} {contents : κ → Option String} {place : κ}

-- The last file for a place counts.
theorem foldl_put : files.foldl layout.put contents place =
    ((layout.filesAt files place).getLast?.map GeneratedFile.content).or (contents place) := by
  induction files using List.reverseRecOn
  case nil => rfl
  case append_singleton files file hi =>
    rw [List.foldl_append, List.foldl_cons, List.foldl_nil, put, filesAt, List.filter_append]
    by_cases hp : layout.locate file.path = place
    case pos => simp [hp]
    case neg =>
      rw [Function.update_of_ne (Ne.symm hp), hi]
      simp [hp, filesAt]

theorem foldl_put_of_mem {file : GeneratedFile} (hf : file ∈ files) :
    files.foldl layout.put contents (layout.locate file.path) =
      (layout.filesAt files (layout.locate file.path)).getLast?.map GeneratedFile.content := by
  have written : layout.filesAt files (layout.locate file.path) ≠ [] :=
    List.ne_nil_of_mem (List.mem_filter.mpr ⟨hf, decide_eq_true rfl⟩)
  rw [foldl_put, List.getLast?_eq_some_getLast written]
  rfl

theorem foldl_put_of_unwritten (h : ∀ file ∈ files, layout.locate file.path ≠ place) :
    files.foldl layout.put contents place = contents place := by
  have unwritten : layout.filesAt files place = [] := by simpa [filesAt] using h
  rw [foldl_put, unwritten]
  rfl

end Layout

namespace Store

-- The texts after a directory was removed.
def cleared (st : Store layout) (cleaned : Option String) : κ → Option String :=
  cleaned.elim st.contents fun directory => (st.without directory).contents

def Holds (contents : κ → Option String) (st : Store layout) : Prop :=
  st.contents = contents

-- Nothing but the log has changed.
def Untouched (before st : Store layout) : Prop :=
  ∃ log, st = { before with log }

theorem keeps (before : Store layout) (path : String) :
    Host.Keeps before.Untouched path (before.contents (layout.locate path)) before.time where
  read := by rintro _ ⟨log, rfl⟩; rfl
  now := by rintro _ ⟨log, rfl⟩; rfl
  note := by rintro _ ⟨log, rfl⟩ e; exact ⟨log ++ [e], rfl⟩

end Store

section Leads

variable {contents : κ → Option String}

theorem GeneratedFile.makeRoom_leads (file : GeneratedFile) :
    Leads (Store.Holds contents) (file.makeRoom : ExceptT WriteError (StateM (Store layout)) Unit)
      (.ok ()) (Store.Holds contents) := by
  rw [makeRoom]
  split
  case h_1 => exact .pure ()
  case h_2 => exact .pure ()
  case h_3 directory _ _ =>
    have made : Leads (Store.Holds contents)
        (Host.createDirectories directory : ExceptT WriteError (StateM (Store layout)) _) (.ok true)
        (Store.Holds contents) :=
      .lift fun st h => ⟨st.withDirectory directory, rfl, h⟩
    exact made.bind_ok (.pure ())

theorem GeneratedFile.write_leads (file : GeneratedFile) :
    Leads (Store.Holds contents) (file.write : ExceptT WriteError (StateM (Store layout)) WriteResult)
      (.ok (WriteResult.of (contents (layout.locate file.path)) file.content))
      (Store.Holds (layout.put contents file)) := by
  have read : Leads (Store.Holds contents)
      (Host.readText file.path : ExceptT WriteError (StateM (Store layout)) _)
      (.ok (contents (layout.locate file.path))) (Store.Holds contents) :=
    .lift fun st h => ⟨st, by rw [← h]; rfl, h⟩
  have wrote : Leads (Store.Holds contents)
      (Host.writeText file.path file.content : ExceptT WriteError (StateM (Store layout)) _) (.ok true)
      (Store.Holds (layout.put contents file)) :=
    .lift fun st h => ⟨st.withText file.path file.content, rfl, by rw [← h]; rfl⟩
  refine read.bind_ok ?_
  by_cases hu : WriteResult.of (contents (layout.locate file.path)) file.content = .unchanged
  case neg =>
    rw [if_neg hu]
    exact file.makeRoom_leads.bind_ok (wrote.bind_ok (.pure _))
  case pos =>
    have there : contents (layout.locate file.path) = some file.content := by
      have tells := WriteResult.tells_of (contents (layout.locate file.path)) file.content
      rwa [hu] at tells
    have same : layout.put contents file = contents := Function.update_eq_self_iff.mpr there.symm
    rw [if_pos hu, same]
    exact .pure _

theorem GenerateOptions.writeFiles_leads (files : List GeneratedFile) :
    Leads (Store.Holds contents) (writeFiles files : ExceptT CommandError (StateM (Store layout)) _)
      (.ok (layout.report contents files)) (Store.Holds (files.foldl layout.put contents)) := by
  induction files generalizing contents
  case nil => exact .pure _
  case cons file rest hi =>
    have first : Leads (Store.Holds contents)
        (writeFile file : ExceptT CommandError (StateM (Store layout)) _)
        (.ok ⟨file.path, .of (contents (layout.locate file.path)) file.content⟩)
        (Store.Holds (layout.put contents file)) :=
      (file.write_leads.adapt _).bind_ok (.pure _)
    have report : layout.report contents (file :: rest) =
        ⟨file.path, .of (contents (layout.locate file.path)) file.content⟩ ::
          layout.report (layout.put contents file) rest := by
      simp [Layout.report, List.mapIdx_cons]
    rw [report]
    exact first.bind_ok (hi.bind_ok (.pure _))

-- The directory that is removed before files are written.
def GenerateOptions.cleaned? (options : GenerateOptions) (directory : String) (st : Store layout) :
    Option String :=
  if options.clean && st.isDirectory directory then some directory else none

theorem GenerateOptions.cleanUp_leads (options : GenerateOptions) (directory : String)
    (before : Store layout) :
    Leads before.Untouched (options.cleanUp directory : ExceptT CommandError (StateM (Store layout)) _)
      (.ok (options.cleaned? directory before))
      (Store.Holds (before.cleared (options.cleaned? directory before))) := by
  have asked : Leads before.Untouched
      (Host.isDirectory directory : ExceptT CommandError (StateM (Store layout)) _)
      (.ok (before.isDirectory directory)) before.Untouched :=
    .lift fun st h => ⟨st, by obtain ⟨log, rfl⟩ := h; rfl, h⟩
  have removed : Leads before.Untouched
      (Host.removeDirectory directory : ExceptT CommandError (StateM (Store layout)) _)
      (.ok true) (Store.Holds (before.without directory).contents) :=
    .lift fun st h => ⟨st.without directory, rfl, by obtain ⟨log, rfl⟩ := h; rfl⟩
  have left : Leads before.Untouched
      (pure none : ExceptT CommandError (StateM (Store layout)) (Option String))
      (.ok none) (Store.Holds before.contents) :=
    (Leads.pure none).weaken fun st h => by obtain ⟨log, rfl⟩ := h; rfl
  rw [cleanUp, cleaned?]
  cases options.clean
  case false => exact left
  case true  =>
    refine asked.bind_ok ?_
    cases before.isDirectory directory
    case false => exact left
    case true  => exact removed.bind_ok (.pure _)

end Leads

-- What is there when files were written, after the given directory was removed.
structure Store.Wrote (before : Store layout) (cleaned : Option String) (files : List GeneratedFile)
    (written : List WrittenFile) (after : Store layout) : Prop where
  paths : written.map WrittenFile.path = files.map GeneratedFile.path
  held : ∀ file ∈ files, after.contents (layout.locate file.path) =
    (layout.filesAt files (layout.locate file.path)).getLast?.map GeneratedFile.content
  -- what is neither written nor removed stays
  kept : ∀ place, (∀ file ∈ files, layout.locate file.path ≠ place) →
    (∀ directory ∈ cleaned, layout.inside (layout.locate directory) place = false) →
    after.contents place = before.contents place
  removed : ∀ directory ∈ cleaned, ∀ place, layout.inside (layout.locate directory) place = true →
    (∀ file ∈ files, layout.locate file.path ≠ place) → after.contents place = none
  -- a result tells what was there when the files before had been written
  results : ∀ (i : Nat) file, files[i]? = some file →
    ∃ result, written[i]? = some ⟨file.path, result⟩ ∧ result.Tells
      ((files.take i).foldl layout.put (before.cleared cleaned) (layout.locate file.path)) file.content

namespace GenerateOptions

-- The files that are generated from what a store holds.
def filesFrom (options : GenerateOptions) (s : Settings) (st : Store layout) :
    Except CommandError (List GeneratedFile) :=
  options.filesOf s (st.contents (layout.locate options.schema)) st.time

-- What a generation comes to, with the store after it.
inductive Outcome (options : GenerateOptions) (s : Settings) (before : Store layout) :
    Except CommandError GenerateReport → Store layout → Prop
  | failed {e : CommandError} {after : Store layout} :
    options.filesFrom s before = .error e → before.Untouched after →
    Outcome options s before (.error e) after
  | previewed {files : List GeneratedFile} {after : Store layout} :
    options.filesFrom s before = .ok files → options.dryRun = true → before.Untouched after →
    Outcome options s before (.ok (.preview files)) after
  | written {files : List GeneratedFile} {written : List WrittenFile} {after : Store layout} :
    options.filesFrom s before = .ok files → options.dryRun = false →
    -- a dry run shows the files that are written
    resultFrom before ({ options with dryRun := true }.run s) = .ok (.preview files) →
    before.Wrote (options.cleaned? s.outputPath before) files written after →
    Outcome options s before (.ok (.written (options.cleaned? s.outputPath before) written)) after

theorem preview_leads {options : GenerateOptions} {s : Settings} {before : Store layout}
    {files : List GeneratedFile} (hd : options.dryRun = true)
    (h : Leads before.Untouched (options.files s) (.ok files) before.Untouched) :
    Leads before.Untouched (options.run s) (.ok (.preview files)) before.Untouched := by
  refine h.bind_ok ?_
  rw [if_pos hd]
  exact .pure _

theorem written_leads {options : GenerateOptions} {s : Settings} {before : Store layout}
    {files : List GeneratedFile} (hd : options.dryRun = false)
    (h : Leads before.Untouched (options.files s) (.ok files) before.Untouched) :
    Leads before.Untouched (options.run s)
      (.ok (.written (options.cleaned? s.outputPath before)
        (layout.report (before.cleared (options.cleaned? s.outputPath before)) files)))
      (Store.Holds (files.foldl layout.put (before.cleared (options.cleaned? s.outputPath before)))) := by
  refine h.bind_ok ?_
  rw [hd]
  exact (options.cleanUp_leads s.outputPath before).bind_ok ((writeFiles_leads files).bind_ok (.pure _))

end GenerateOptions

theorem Store.wrote_of_holds {before after : Store layout} {cleaned : Option String}
    {files : List GeneratedFile} (h : Holds (files.foldl layout.put (before.cleared cleaned)) after) :
    before.Wrote cleaned files (layout.report (before.cleared cleaned) files) after := by
  rw [Holds] at h
  constructor
  case paths =>
    refine List.ext_getElem? fun i => ?_
    simp [Layout.report, Function.comp_def]
  case held => exact fun file hf => h ▸ Layout.foldl_put_of_mem hf
  case kept =>
    intro place hw hc
    rw [h, Layout.foldl_put_of_unwritten hw]
    cases cleaned
    case none           => rfl
    case some directory => simp [cleared, without, hc directory rfl]
  case removed =>
    rintro directory rfl place hi hw
    rw [h, Layout.foldl_put_of_unwritten hw]
    simp [cleared, without, hi]
  case results =>
    intro i file hf
    refine ⟨_, ?_, WriteResult.tells_of _ _⟩
    simp [Layout.report, hf]

-- Over any store, for any schema, settings and options.
theorem generate_all_or_nothing (options : GenerateOptions) (s : Settings) (before : Store layout) :
    ∃ result after,
      (options.run s : ExceptT CommandError (StateM (Store layout)) _).run before = (result, after) ∧
        options.Outcome s before result after := by
  have start : before.Untouched before := ⟨before.log, rfl⟩
  have generated : Leads before.Untouched (options.files s) (options.filesFrom s before) before.Untouched :=
    options.files_leads s (before.keeps options.schema)
  cases hf : options.filesFrom s before
  case error e =>
    rw [hf] at generated
    have run : Leads before.Untouched (options.run s) (.error e) before.Untouched := generated.bind_error
    obtain ⟨after, h, untouched⟩ := run before start
    exact ⟨_, after, h, .failed hf untouched⟩
  case ok files =>
    rw [hf] at generated
    cases hd : options.dryRun
    case true =>
      obtain ⟨after, h, untouched⟩ := GenerateOptions.preview_leads hd generated before start
      exact ⟨_, after, h, .previewed hf hd untouched⟩
    case false =>
      obtain ⟨after, h, holds⟩ := GenerateOptions.written_leads hd generated before start
      have preview : Leads before.Untouched ({ options with dryRun := true }.run s) (.ok (.preview files))
          before.Untouched :=
        GenerateOptions.preview_leads rfl generated
      exact ⟨_, after, h, .written hf hd (preview.resultFrom_eq start) (Store.wrote_of_holds holds)⟩

end ProtoTypings
