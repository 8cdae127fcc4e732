import Mathlib
import ProtoTypings.Proofs.OutputPath
import ProtoTypings.Proofs.Rendering

namespace ProtoTypings

-- What is left of a value after an answer to it.
def Answer.outcome {α : Type} (value : α) : Answer α → Option α
  | keep => some value
  | replace custom => some custom
  | drop => none

namespace Hooks

end Hooks

-- A declaration opens with its keyword and its name.
theorem Entry.DeclaredBy.opens {g : Graph} {style : EnumStyle} {e : Entry} {d : Declaration}
    (h : e.DeclaredBy g style d) :
    ∃ rest, d.text = "export " ++ d.keyword ++ " " ++ d.name ++ " " ++ rest := by
  cases h
  case interface members _ =>
    have header : Interface.header { name := e.name, members } =
        "export " ++ "interface" ++ " " ++ e.name ++ " " ++ "\x7b" := by
      simp [Interface.header, exportWord, String.append_assoc]
    rw [Declaration.text, Declaration.fragments, Interface.fragments, header, Fragment.renderAll_block]
    exact ⟨_, rfl⟩
  case enum =>
    have header : exportWord true ++ "enum " ++ e.name ++ " \x7b" =
        "export " ++ "enum" ++ " " ++ e.name ++ " " ++ "\x7b" := by
      simp [exportWord, String.append_assoc]
    rw [Declaration.text, Declaration.fragments, EnumDecl.fragments, header, Fragment.renderAll_block]
    exact ⟨_, rfl⟩
  case union values _ _ =>
    have front : exportWord true ++ "type " ++ e.name ++ " = " =
        "export " ++ "type" ++ " " ++ e.name ++ " " ++ "= " := by
      simp [exportWord, String.append_assoc]
    refine ⟨"= " ++ (TypeExpr.literals (values.map EnumValue.name)).render .default ++ ";" ++ "\n", ?_⟩
    rw [Alias.text_eq, front]
    simp only [Declaration.keyword, Declaration.name, String.append_assoc]

namespace Generation

variable {run : Generation} {r : Registry} {path content : String} {entries : List Entry}

-- What a generated file declares: the types of its path, in their order.
structure Declares (run : Generation) (r : Registry) (path : String) (body : List Declaration) : Prop where
  drafted : (run.draftOf r path).result = .ok body
  declared : (r.entries.filter (·.path = path)).Forall₂
    (fun e d => e.DeclaredBy run.graph run.settings.enumStyle d) body
  -- declarations stand in the file after its header and its imports
  content : run.contentOf r path body = "\n".intercalate
    ((run.sourceFile path (run.draftOf r path).uses []).preface ++ body.map Declaration.text)
  opens : ∀ d ∈ body, ∃ rest, d.text = "export " ++ d.keyword ++ " " ++ d.name ++ " " ++ rest

theorem exists_declarations (plain : run.hooks.Plain)
    (ht : ∀ e ∈ entries, run.graph.isType e.node = true) :
    ∃ body, entries.Forall₂ (fun e d =>
      (run.declarationFor (run.mapping r path) e).result = .ok (some d) ∧
        e.DeclaredBy run.graph run.settings.enumStyle d) body := by
  induction entries
  case nil => exact ⟨[], .nil⟩
  case cons e rest hi =>
    obtain ⟨he, hr⟩ := List.forall_mem_cons.mp ht
    obtain ⟨d, hd⟩ := declarationFor_of_isType plain he
    obtain ⟨body, hb⟩ := hi hr
    exact ⟨d :: body, .cons hd hb⟩

theorem declarations_of_forall₂ {body : List Declaration}
    (h : entries.Forall₂ (fun e d => (run.declarationFor (run.mapping r path) e).result = .ok (some d)) body) :
    (run.declarations r path entries).result = .ok body := by
  have found : (Draft.each (run.declarationFor (run.mapping r path)) entries).result = .ok (body.map some) := by
    rw [Draft.each_ok_iff, List.forall₂_map_right_iff]
    exact h
  rw [declarations, Draft.result_bind_of_ok found]
  simp

theorem exists_declares (plain : run.hooks.Plain) (hb : Registry.build run.graph run.settings = .ok r)
    (path : String) : ∃ body, run.Declares r path body := by
  obtain ⟨body, h⟩ := exists_declarations plain fun e (he : e ∈ r.entries.filter (·.path = path)) =>
    Registry.build_isType hb (List.mem_of_mem_filter he)
  refine ⟨body, ?_⟩
  constructor
  case drafted  => exact declarations_of_forall₂ (h.imp fun _ _ => And.left)
  case declared => exact h.imp fun _ _ => And.right
  case content  => exact SourceFile.render_of_no_exports rfl
  case opens =>
    intro d hd
    obtain ⟨i, hi, rfl⟩ := List.getElem_of_mem hd
    have he := h.length_eq ▸ hi
    exact (h.get he hi).2.opens

end Generation

end ProtoTypings
