import Mathlib
import ProtoTypings.Proofs.Generation
import ProtoTypings.Settings.Validation

namespace ProtoTypings

namespace OutputPath

-- A path that can be placed under an output root as it is.
def Relative (path : String) : Prop :=
  path.toList.head? ≠ some '/'

instance : DecidablePred Relative :=
  fun path => inferInstanceAs (Decidable (path.toList.head? ≠ some '/'))

-- The part of a schema file's path that its generated file takes over.
def relativeSource (inputRoot source : String) : String :=
  Text.dropFront '/' (below (Text.dropBack '/' (slashed inputRoot)) (slashed source))

theorem stem_append (stem : String) : OutputPath.stem (stem ++ extension) = stem := by
  rw [OutputPath.stem, Text.stripBack?_eq_some_iff.mpr rfl, Option.getD_some]

theorem dropFront_relative (s : String) : Relative (Text.dropFront '/' s) := by
  intro h
  rw [Text.dropFront, String.toList_ofList] at h
  have := List.head?_dropWhile_not (· == '/') s.toList
  simp [h] at this

theorem dropFront_of_relative {path : String} (h : Relative path) : Text.dropFront '/' path = path := by
  apply String.toList_injective
  rw [Text.dropFront, String.toList_ofList]
  cases hc : path.toList
  case nil => rfl
  case cons c cs =>
    have hne : c ≠ '/' := by simpa [Relative, hc] using h
    simp [hne]

-- Relative paths are placed behind a front that only depends on the root.
theorem exists_under_eq_append (root : String) :
    ∃ front, ∀ path, Relative path → under root path = front ++ path := by
  simp only [under]
  split
  case isTrue => exact ⟨"/", fun path hp => by rw [dropFront_of_relative hp]⟩
  case isFalse =>
    split
    case isTrue  => exact ⟨"", fun path hp => by rw [dropFront_of_relative hp, String.empty_append]⟩
    case isFalse => exact ⟨_ ++ "/", fun path hp => by rw [dropFront_of_relative hp]⟩

theorem under_inj {root p q : String} (hp : Relative p) (hq : Relative q) :
    under root p = under root q ↔ p = q := by
  have ⟨front, hf⟩ := exists_under_eq_append root
  rw [hf p hp, hf q hq, String.append_right_inj]

-- An extension starts with a dot, so a path stays relative with or without it.
theorem relative_append {stem extension : String} (hs : Relative stem) (he : Relative extension) :
    Relative (stem ++ extension) := by
  rw [Relative, String.toList_append, List.head?_append]
  cases h : stem.toList.head?
  case none   => exact he
  case some c => simpa [Relative, h] using hs

theorem relative_of_append {stem extension : String} (h : Relative (stem ++ extension)) : Relative stem := by
  rw [Relative, String.toList_append, List.head?_append] at h
  cases hs : stem.toList.head?
  case none   => simp [Relative, hs]
  case some c => simpa [Relative, hs] using h

theorem ofSource_eq (inputRoot source : String) : ofSource inputRoot source =
    (Text.stripBack? sourceExtension (relativeSource inputRoot source)).getD
      (relativeSource inputRoot source) ++ extension := by
  simp only [ofSource, relativeSource]

theorem ofSource_cases (inputRoot source : String) :
    ∃ stem, ofSource inputRoot source = stem ++ extension ∧
      (relativeSource inputRoot source = stem ++ sourceExtension ∨
        relativeSource inputRoot source = stem ∧ Text.stripBack? sourceExtension stem = none) := by
  rw [ofSource_eq]
  cases h : Text.stripBack? sourceExtension (relativeSource inputRoot source)
  case none      => exact ⟨relativeSource inputRoot source, rfl, .inr ⟨rfl, h⟩⟩
  case some stem => exact ⟨stem, rfl, .inl (Text.stripBack?_eq_some_iff.mp h)⟩

theorem ofSource_relative (inputRoot source : String) : Relative (ofSource inputRoot source) := by
  have hr : Relative (relativeSource inputRoot source) := dropFront_relative _
  have ⟨stem, ho, h⟩ := ofSource_cases inputRoot source
  rw [ho]
  apply relative_append _ (by decide)
  cases h
  case inl h => exact relative_of_append (h ▸ hr)
  case inr h => exact h.left ▸ hr

theorem ofSource_eq_indexFile_iff {inputRoot source : String} :
    ofSource inputRoot source = indexFile ↔
      relativeSource inputRoot source = "index.proto" ∨ relativeSource inputRoot source = "index" := by
  have ⟨stem, ho, h⟩ := ofSource_cases inputRoot source
  have hi : indexFile = "index" ++ extension := rfl
  rw [ho, hi, String.append_left_inj]
  cases h
  case inl h =>
    have hne : stem ++ sourceExtension ≠ "index" := fun heq =>
      nomatch (Text.stripBack?_eq_some_iff.mpr heq.symm).symm.trans (rfl : _ = none)
    rw [h, or_iff_left hne]
    exact (String.append_left_inj sourceExtension).symm
  case inr h =>
    have hne : stem ≠ "index.proto" := by
      rintro rfl
      exact nomatch h.right
    rw [h.left, or_iff_right hne]

end OutputPath

namespace Generation

variable {run : Generation} {r : Registry} {files : List GeneratedFile}

theorem exists_build_of_files (hf : run.files.result = .ok files) :
    ∃ r, Registry.build run.graph run.settings = .ok r := by
  have ⟨r, hr, _⟩ := Draft.exists_of_bind_ok hf
  exact ⟨r, build_eq_of_registry hr⟩

theorem relative_of_mem_files (hb : Registry.build run.graph run.settings = .ok r) {path : String}
    (hp : path ∈ r.files) : OutputPath.Relative path := by
  have ⟨e, he, hp⟩ := Registry.mem_files_iff.mp hp
  rw [Registry.build_entry_eq hb he] at hp
  rw [← hp]
  simp only [Entry.of, Graph.outputPath]
  split
  case h_1 file _ => exact OutputPath.ofSource_relative _ file
  case h_2        => decide

theorem indexFile_mem_files_iff (hb : Registry.build run.graph run.settings = .ok r) :
    OutputPath.indexFile ∈ r.files ↔
      ∃ e ∈ r.entries, ∃ file, run.graph.sourceFile? e.node = some file ∧
        (OutputPath.relativeSource run.settings.inputRoot file = "index.proto" ∨
          OutputPath.relativeSource run.settings.inputRoot file = "index") := by
  rw [Registry.mem_files_iff]
  refine exists_congr fun e => and_congr_right fun he => ?_
  rw [Registry.build_entry_eq hb he]
  simp only [Entry.of, Graph.outputPath, ← OutputPath.ofSource_eq_indexFile_iff]
  cases run.graph.sourceFile? e.node <;> simp
  decide

theorem paths_of_files (hooks : run.hooks = .none) (hb : Registry.build run.graph run.settings = .ok r)
    (hf : run.files.result = .ok files) :
    files.map GeneratedFile.path = r.files.map (OutputPath.under run.settings.outputPath) ++
      (run.indexFile r.files).map GeneratedFile.path := by
  have ⟨_, _, h⟩ := files_result hooks hb
  cases hf.symm.trans h
  simp

theorem paths_of_indexFile (paths : List String) : (run.indexFile paths).map GeneratedFile.path =
    if run.settings.writeIndex = true ∧ paths ≠ [] then
      [OutputPath.under run.settings.outputPath OutputPath.indexFile]
    else [] := by
  rw [indexFile]
  by_cases hw : run.settings.writeIndex = true <;> by_cases hp : paths = [] <;> simp [hw, hp]

end Generation

theorem output_paths_nodup_iff {run : Generation} {files : List GeneratedFile} (hooks : run.hooks = .none)
    (hf : run.files.result = .ok files) :
    ∃ r, Registry.build run.graph run.settings = .ok r ∧
      ((files.map GeneratedFile.path).Nodup ↔
        ¬(run.settings.writeIndex = true ∧
          ∃ e ∈ r.entries, ∃ file, run.graph.sourceFile? e.node = some file ∧
            (OutputPath.relativeSource run.settings.inputRoot file = "index.proto" ∨
              OutputPath.relativeSource run.settings.inputRoot file = "index"))) := by
  have ⟨r, hb⟩ := Generation.exists_build_of_files hf
  refine ⟨r, hb, ?_⟩
  have relative {path : String} (hp : path ∈ r.files) : OutputPath.Relative path :=
    Generation.relative_of_mem_files hb hp
  have placed : (r.files.map (OutputPath.under run.settings.outputPath)).Nodup :=
    Registry.files_nodup.map_on fun p hp q hq => (OutputPath.under_inj (relative hp) (relative hq)).mp
  rw [Generation.paths_of_files hooks hb hf, Generation.paths_of_indexFile,
    ← Generation.indexFile_mem_files_iff hb]
  split
  case isTrue h =>
    have clash : OutputPath.under run.settings.outputPath OutputPath.indexFile ∈
        r.files.map (OutputPath.under run.settings.outputPath) ↔ OutputPath.indexFile ∈ r.files := by
      refine ⟨fun hm => ?_, List.mem_map_of_mem⟩
      have ⟨path, hp, heq⟩ := List.mem_map.mp hm
      exact (OutputPath.under_inj (relative hp) (by decide)).mp heq ▸ hp
    rw [List.nodup_append_comm, List.singleton_append, List.nodup_cons, clash]
    simp [h.left, placed]
  case isFalse h =>
    rw [List.append_nil]
    refine iff_of_true placed fun ⟨hw, hm⟩ => h ⟨hw, List.ne_nil_of_mem hm⟩

theorem output_paths_nodup_iff_teams : ∃ files : List GeneratedFile,
    ({ graph := Graph.teams, settings := {} } : Generation).files.result = .ok files ∧
    ∃ r, Registry.build Graph.teams {} = .ok r ∧ r.files = ["app.ts", OutputPath.unknownFile] ∧
      ((files.map GeneratedFile.path).Nodup ↔
        ¬(({} : Settings).writeIndex = true ∧
          ∃ e ∈ r.entries, ∃ file, Graph.teams.sourceFile? e.node = some file ∧
            (OutputPath.relativeSource "" file = "index.proto" ∨
              OutputPath.relativeSource "" file = "index"))) :=
  have hb : Registry.build Graph.teams {} =
    .ok ⟨[2, 4, 6, 11, 8, 10].map (Entry.of Graph.teams {})⟩ := rfl
  have ⟨_, _, hf⟩ := Generation.files_result rfl hb
  have ⟨_, hr, h⟩ := output_paths_nodup_iff rfl hf
  ⟨_, hf, _, hr, by cases hb.symm.trans hr; rfl, h⟩

-- A schema whose only file has the name of the index.
def Graph.entrance : Graph :=
  ⟨#[{ name := "", parent := none, content := .package [1] },
     { name := "shop", parent := some 0, file := some "index.proto", content := .package [2] },
     { name := "Cart", parent := some 1, content := .message [] [] [] }]⟩

-- The index takes the place of the declarations.
theorem output_paths_clash : ({} : Settings).problem? = none ∧
    ∃ files, ({ graph := Graph.entrance, settings := {} } : Generation).files.result = .ok files ∧
      files.map GeneratedFile.path =
        ["generated_from_proto/index.ts", "generated_from_proto/index.ts"] ∧
      ¬(files.map GeneratedFile.path).Nodup := by
  refine ⟨rfl, _, rfl, ?_, ?_⟩ <;> decide +kernel

end ProtoTypings
