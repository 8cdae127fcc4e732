import Mathlib
import ProtoTypings.Command.Check
import ProtoTypings.Command.Generate

namespace ProtoTypings

variable {σ ε ε' α β : Type}

-- The result of a command that starts in a given state.
def resultFrom (s : σ) (x : ExceptT ε (StateM σ) α) : Except ε α :=
  (x.run s).1

-- From every state with `P` the command comes to the given result and to a state with `Q`.
def Leads (P : σ → Prop) (x : ExceptT ε (StateM σ) α) (result : Except ε α) (Q : σ → Prop) : Prop :=
  ∀ s, P s → ∃ s', x.run s = (result, s') ∧ Q s'

namespace Leads

variable {P Q R : σ → Prop} {x : ExceptT ε (StateM σ) α} {result : Except ε α}

theorem resultFrom_eq {s : σ} (h : Leads P x result Q) (hs : P s) : resultFrom s x = result := by
  obtain ⟨_, h, _⟩ := h s hs
  rw [resultFrom, h]

theorem weaken (h : Leads P x result Q) (hr : ∀ s, Q s → R s) : Leads P x result R := by
  intro s hs
  obtain ⟨s', hx, hs'⟩ := h s hs
  exact ⟨s', hx, hr s' hs'⟩

theorem pure (a : α) : Leads P (pure a : ExceptT ε (StateM σ) α) (.ok a) P :=
  fun s hs => ⟨s, rfl, hs⟩

theorem throw (e : ε) : Leads P (throw e : ExceptT ε (StateM σ) α) (.error e) P :=
  fun s hs => ⟨s, rfl, hs⟩

theorem ofExcept (r : Except ε α) : Leads P (MonadExcept.ofExcept r : ExceptT ε (StateM σ) α) r P := by
  cases r
  case error e => exact throw e
  case ok a    => exact pure a

theorem lift {y : StateM σ α} {a : α} (h : ∀ s, P s → ∃ s', y s = (a, s') ∧ Q s') :
    Leads P (ExceptT.lift y : ExceptT ε (StateM σ) α) (.ok a) Q := by
  intro s hs
  obtain ⟨s', hy, hs'⟩ := h s hs
  refine ⟨s', ?_, hs'⟩
  have step : (ExceptT.lift y : ExceptT ε (StateM σ) α).run s = (.ok (y s).1, (y s).2) := rfl
  rw [step, hy]

theorem run_bind (x : ExceptT ε (StateM σ) α) (f : α → ExceptT ε (StateM σ) β) (s : σ) :
    (x >>= f).run s = ExceptT.bindCont f (x.run s).1 (x.run s).2 :=
  rfl

theorem bind_ok {f : α → ExceptT ε (StateM σ) β} {a : α} {next : Except ε β} (h : Leads P x (.ok a) Q)
    (hf : Leads Q (f a) next R) : Leads P (x >>= f) next R := by
  intro s hs
  obtain ⟨s', hx, hs'⟩ := h s hs
  rw [run_bind, hx]
  exact hf s' hs'

theorem bind_error {f : α → ExceptT ε (StateM σ) β} {e : ε} (h : Leads P x (.error e) Q) :
    Leads P (x >>= f) (.error e) Q := by
  intro s hs
  obtain ⟨s', hx, hs'⟩ := h s hs
  refine ⟨s', ?_, hs'⟩
  rw [run_bind, hx]
  rfl

theorem bind {f : α → ExceptT ε (StateM σ) β} {g : α → Except ε β} (h : Leads P x result P)
    (hf : ∀ a, Leads P (f a) (g a) P) : Leads P (x >>= f) (result >>= g) P := by
  cases result
  case ok a    => exact h.bind_ok (hf a)
  case error e => exact h.bind_error

theorem adapt (f : ε → ε') (h : Leads P x result Q) : Leads P (x.adapt f) (result.mapError f) Q := by
  intro s hs
  obtain ⟨s', hx, hs'⟩ := h s hs
  refine ⟨s', ?_, hs'⟩
  have step : (x.adapt f).run s = ((x.run s).1.mapError f, (x.run s).2) := rfl
  rw [step, hx]

end Leads

-- A host that in all states with `P` has the given text at a path and the given time, and that notes what
-- happens without leaving them.
structure Host.Keeps [Host (StateM σ)] (P : σ → Prop) (path : String) (text? : Option String)
    (time : Timestamp) : Prop where
  read : ∀ s, P s → (Host.readText path : StateM σ (Option String)) s = (text?, s)
  now : ∀ s, P s → (Host.now : StateM σ Timestamp) s = (time, s)
  note : ∀ s, P s → ∀ e, P ((Host.note e : StateM σ Unit) s).2

-- The graph of the schema file with the given text.
def Graph.ofText? (path : String) : Option String → Except SchemaError Graph
  | none => .error (.unreadable path)
  | some text => Graph.parse text

-- The files that are generated from a schema with the given text, at the given time.
def GenerateOptions.filesOf (options : GenerateOptions) (s : Settings) (text? : Option String)
    (time : Timestamp) : Except CommandError (List GeneratedFile) := do
  let graph ← (Graph.ofText? options.schema text?).mapError (.schema options.schema)
  ({ graph, settings := s, time } : Generation).files.result.mapError .generation

section Commands

variable [Host (StateM σ)] {P : σ → Prop} {path : String} {text? : Option String} {time : Timestamp}

section

variable (keeps : Host.Keeps P path text? time)
include keeps

theorem Leads.note (e : Event) : Leads P (Host.note e : ExceptT ε (StateM σ) Unit) (.ok ()) P :=
  .lift fun s hs => ⟨_, rfl, keeps.note s hs e⟩

theorem Leads.notes (es : List Event) :
    Leads P (es.forM Host.note : ExceptT ε (StateM σ) Unit) (.ok ()) P := by
  induction es
  case nil          => exact .pure ()
  case cons e es hi => exact (note keeps e).bind_ok hi

theorem Graph.load_leads :
    Leads P (Graph.load path : ExceptT SchemaError (StateM σ) Graph) (Graph.ofText? path text?) P := by
  have read : Leads P (Host.readText path : ExceptT SchemaError (StateM σ) _) (.ok text?) P :=
    .lift fun s hs => ⟨s, keeps.read s hs, hs⟩
  refine read.bind_ok ?_
  cases text?
  case none      => exact .throw _
  case some text =>
    rw [Graph.ofText?, ← bind_pure (Graph.parse text)]
    exact (Leads.ofExcept (Graph.parse text)).bind fun g => (Leads.note keeps _).bind_ok (.pure g)

end

theorem GenerateOptions.files_leads (options : GenerateOptions) (s : Settings)
    (keeps : Host.Keeps P options.schema text? time) :
    Leads P (options.files s : ExceptT CommandError (StateM σ) _) (options.filesOf s text? time) P := by
  refine ((Graph.load_leads keeps).adapt _).bind fun graph => ?_
  have now : Leads P (Host.now : ExceptT CommandError (StateM σ) _) (.ok time) P :=
    .lift fun s hs => ⟨s, keeps.now s hs, hs⟩
  exact now.bind_ok ((Leads.notes keeps _).bind_ok (.ofExcept _))

-- The report on the types of a schema with the given text.
theorem CheckReport.run_leads (s : Settings) (settingsPath : Option String)
    (keeps : Host.Keeps P path text? time) :
    Leads P (CheckReport.run s settingsPath (some path) : ExceptT CommandError (StateM σ) _) (do
      let graph ← (Graph.ofText? path text?).mapError (.schema path)
      let files ← (graph.summary s).mapError .collection
      return { settingsPath, outputPath := s.outputPath, enumStyle := s.enumStyle, files := some files })
      P := by
  have summarized : Leads P (CheckReport.summarize s path : ExceptT CommandError (StateM σ) _) (do
      let graph ← (Graph.ofText? path text?).mapError (.schema path)
      (graph.summary s).mapError .collection) P := by
    refine ((Graph.load_leads keeps).adapt _).bind fun graph => ?_
    exact (Leads.notes keeps _).bind_ok (.ofExcept _)
  let report (files : Option (List FileSummary)) : CheckReport :=
    ⟨settingsPath, s.outputPath, s.enumStyle, files⟩
  have reported (files : List FileSummary) :
      Leads P (pure (some files) >>= fun files => pure (report files) : ExceptT CommandError (StateM σ) _)
        (.ok (report (some files))) P :=
    .bind_ok (.pure _) (.pure _)
  have both := summarized.bind reported
  rwa [bind_assoc] at both

end Commands

end ProtoTypings
