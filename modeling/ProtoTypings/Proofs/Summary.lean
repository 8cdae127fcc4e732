import Mathlib
import ProtoTypings.Host.Disk
import ProtoTypings.Proofs.Emission
import ProtoTypings.Proofs.Inputs

namespace ProtoTypings

theorem Entry.DeclaredBy.keyword_eq {g : Graph} {style : EnumStyle} {e : Entry} {d : Declaration} :
    e.DeclaredBy g style d → d.keyword = g.keyword style e.node
  | interface hm => by
    cases hv : g.enumValues? e.node
    case none   => simp [Declaration.keyword, Graph.keyword, hv]
    case some _ => simp [Graph.not_isMessage_of_enumValues? hv] at hm
  | enum hs hv | union hs hv => by simp [Declaration.keyword, Graph.keyword, hs, hv]

namespace Registry

variable (r : Registry) (g : Graph) (style : EnumStyle)

theorem map_path_summary : (r.summary g style).map FileSummary.path = r.files := by
  simp [summary, byFile, Function.comp_def]

theorem types_of_mem_summary {file : FileSummary} (hf : file ∈ r.summary g style) :
    file.types = (r.entries.filter (·.path = file.path)).map fun e =>
      ⟨g.keyword style e.node, e.name⟩ := by
  simp only [summary, byFile, List.map_map, List.mem_map] at hf
  obtain ⟨path, _, rfl⟩ := hf
  rfl

end Registry

namespace Generation

-- What a summary tells about generated files, where `bodyOf` gives the declarations in each of them.
structure Predicts (run : Generation) (r : Registry) (bodyOf : String → List Declaration)
    (summary : List FileSummary) (files : List GeneratedFile) : Prop where
  -- the files of the summary in their order, and the index
  files : files = summary.map (fun file =>
      ⟨OutputPath.under run.settings.outputPath file.path, run.contentOf r file.path (bodyOf file.path)⟩) ++
    run.indexFile (summary.map FileSummary.path)
  bodies : ∀ file ∈ summary, run.Declares r file.path (bodyOf file.path)
  types : ∀ file ∈ summary, file.types = (bodyOf file.path).map fun d => ⟨d.keyword, d.name⟩

theorem exists_predicts (run : Generation) {r : Registry} (hooks : run.hooks = .none)
    (hb : Registry.build run.graph run.settings = .ok r) : ∃ bodyOf files, run.files.result = .ok files ∧
      run.Predicts r bodyOf (r.summary run.graph run.settings.enumStyle) files := by
  obtain ⟨bodyOf, drafted, files⟩ := files_result hooks hb
  have bodies (path : String) : run.Declares r path (bodyOf path) := by
    obtain ⟨body, h⟩ := exists_declares (.of_none hooks) hb path
    have same := (drafted path).symm.trans h.drafted
    injection same with same
    rwa [same]
  refine ⟨bodyOf, _, files, ?_⟩
  constructor
  case files =>
    rw [← Registry.map_path_summary r run.graph run.settings.enumStyle, List.map_map]
    rfl
  case bodies => exact fun file _ => bodies file.path
  case types =>
    intro file hf
    rw [r.types_of_mem_summary _ _ hf, ← List.forall₂_eq_eq_eq, List.forall₂_map_left_iff,
      List.forall₂_map_right_iff]
    exact (bodies file.path).declared.imp fun e d h => by rw [h.keyword_eq, h.name_eq]

end Generation

-- Reading a schema changes neither the disk nor the time.
theorem Session.keeps (session : Session) (path : String) :
    Host.Keeps (fun s : Session => s.disk = session.disk ∧ s.time = session.time) path
      (session.disk.readText path) session.time where
  read _ h := by rw [← h.1]; rfl
  now _ h := by rw [← h.2]; rfl
  note _ h _ := h

-- A generation is predicted by the check of the same schema under the same settings.
theorem check_predicts_generate (session : Session) (options : GenerateOptions) (s : Settings)
    (settingsPath : Option String) :
    ((∃ report, resultFrom session (CheckReport.run s settingsPath (some options.schema)) = .ok report) ↔
      ∃ files, resultFrom session (options.files s) = .ok files) ∧
    ∀ report files, resultFrom session (CheckReport.run s settingsPath (some options.schema)) = .ok report →
      resultFrom session (options.files s) = .ok files →
      ∃ (graph : Graph) (r : Registry) (bodyOf : String → List Declaration) (summary : List FileSummary),
        Graph.ofText? options.schema (session.disk.readText options.schema) = .ok graph ∧
        Registry.build graph s = .ok r ∧ report.files = some summary ∧
        Generation.Predicts { graph, settings := s, time := session.time } r bodyOf summary files := by
  have keeps := session.keeps options.schema
  rw [(CheckReport.run_leads s settingsPath keeps).resultFrom_eq ⟨rfl, rfl⟩,
    (options.files_leads s keeps).resultFrom_eq ⟨rfl, rfl⟩, GenerateOptions.filesOf]
  cases hg : Graph.ofText? options.schema (session.disk.readText options.schema)
  case error e => simp [Except.mapError, bind, Except.bind]
  case ok graph =>
    cases hb : Registry.build graph s
    case error c =>
      have fails (files : List GeneratedFile) :
          (Generation.mk graph s {} session.time).files.result ≠ .ok files := by
        intro hf
        obtain ⟨r, hr⟩ := Generation.exists_build_of_files hf
        exact nomatch hb.symm.trans hr
      cases hf : (Generation.mk graph s {} session.time).files.result
      case ok files => exact absurd hf (fails files)
      case error    => simp [Graph.summary, hb, hf, Except.mapError, bind, Except.bind]
    case ok r =>
      obtain ⟨bodyOf, files, hf, predicts⟩ :=
        Generation.exists_predicts ⟨graph, s, {}, session.time⟩ rfl hb
      have summary : graph.summary s = .ok (r.summary graph s.enumStyle) := by rw [Graph.summary, hb]; rfl
      dsimp only [Except.mapError, bind, Except.bind]
      rw [summary, hf]
      refine ⟨iff_of_true ⟨_, rfl⟩ ⟨_, rfl⟩, ?_⟩
      rintro report files ⟨⟩ ⟨⟩
      exact ⟨graph, r, bodyOf, _, rfl, hb, rfl, predicts⟩

end ProtoTypings
