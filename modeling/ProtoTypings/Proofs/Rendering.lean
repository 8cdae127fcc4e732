import Mathlib
import ProtoTypings.Proofs.Pieces
import ProtoTypings.Proofs.Traced
import ProtoTypings.Typing.SourceFile

namespace ProtoTypings

-- Every piece between line ends becomes a line again.
theorem Text.join_cut (text : String) :
    String.join ((Text.cut '\n' text).map (· ++ "\n")) = text ++ "\n" := by
  have joined (l : List String) (hl : l ≠ []) :
      String.join (l.map (· ++ "\n")) = "\n".intercalate l ++ "\n" := by
    induction l
    case nil => contradiction
    case cons line rest hi =>
      by_cases hr : rest = []
      case pos => simp [hr]
      case neg =>
        rw [List.map_cons, String.join_cons, hi hr, String.intercalate_cons_of_ne_nil hr,
          ← String.append_assoc]
  rw [joined _ (cut_ne_nil _ _), intercalate_cut rfl]

-- Lines come back from a text where each of them has a line end.
theorem Text.cut_join {lines : List String} (h : ∀ line ∈ lines, '\n' ∉ line.toList) :
    Text.cut '\n' (String.join (lines.map (· ++ "\n"))) = lines ++ [""] := by
  induction lines
  case nil => exact cut_of_notMem (by simp)
  case cons line lines hi =>
    obtain ⟨hl, h⟩ := List.forall_mem_cons.mp h
    rw [List.map_cons, String.join_cons, cut_append rfl, cut_of_notMem hl, hi h]
    rfl

-- Texts of sections, with an empty line between neighbours.
theorem Text.intercalate_join (sections : List (List String)) :
    "\n".intercalate (sections.map fun lines => String.join (lines.map (· ++ "\n"))) =
      String.join (([""].intercalate sections).map (· ++ "\n")) := by
  induction sections
  case nil => rfl
  case cons lines sections hi =>
    cases sections
    case nil => simp
    case cons => simpa [List.intercalate_cons_cons, String.append_assoc] using hi

namespace Fragment

variable {indent : Indent}

theorem lineAt_zero (text : String) : lineAt indent 0 text = text ++ "\n" := by
  by_cases ht : text = "" <;> simp [lineAt, Indent.nested, ht]

theorem renderAll_lines_at {α : Type} (depth : Nat) (f : α → String) (l : List α) :
    renderAll indent depth (l.map fun a => .line (f a)) =
      String.join (l.map fun a => lineAt indent depth (f a)) := by
  induction l
  case nil => rfl
  case cons a rest hi => rw [List.map_cons, renderAll, hi, render, List.map_cons, String.join_cons]

theorem renderAll_lines {α : Type} (f : α → String) (l : List α) :
    renderAll indent 0 (l.map fun a => .line (f a)) = String.join (l.map fun a => f a ++ "\n") := by
  simp only [renderAll_lines_at, lineAt_zero]

theorem renderAll_doc (text : String) :
    renderAll indent 0 [.doc text] = String.join ((docLines text).map (· ++ "\n")) := by
  have atZero : lineAt indent 0 = (· ++ "\n") := funext lineAt_zero
  simp [renderAll, render, atZero]

-- A block begins with all that its header begins with.
theorem renderAll_block {opening rest : String} (body : List Fragment) (close : Option String) :
    renderAll indent 0 [.block (opening ++ rest) body close] =
      opening ++ (rest ++ "\n" ++ renderAll indent 1 body ++ (close.map (lineAt indent 0)).getD "") := by
  simp [renderAll, render, lineAt_zero, String.append_assoc]

theorem renderAll_sections (sections : List (List Fragment)) :
    renderAll indent 0 ([.blank].intercalate sections) =
      "\n".intercalate (sections.map (renderAll indent 0)) := by
  induction sections
  case nil => rfl
  case cons first rest hi =>
    cases rest
    case nil => simp
    case cons next rest =>
      rw [List.intercalate_cons_cons, renderAll_append, renderAll_append, hi]
      simp [renderAll, render]

end Fragment

theorem Indent.isIndent_of_mem_text {indent : Indent} {c : Char} (hc : c ∈ indent.text) : isIndent c = true := by
  cases indent
  case spaces => rw [List.eq_of_mem_replicate hc]; rfl
  case tab    => rw [List.mem_singleton.mp hc]; rfl

theorem Indent.isIndent_of_mem_one {indent : Indent} {c : Char} (hc : c ∈ indent.one.toList) :
    isIndent c = true := by
  rw [one, String.toList_ofList] at hc
  exact isIndent_of_mem_text hc

theorem Indent.isIndent_of_mem_nested {indent : Indent} {depth : Nat} {c : Char}
    (hc : c ∈ (indent.nested depth).toList) : isIndent c = true := by
  rw [nested, String.toList_ofList] at hc
  obtain ⟨level, hl, hc⟩ := List.mem_flatten.mp hc
  rw [List.eq_of_mem_replicate hl] at hc
  exact isIndent_of_mem_text hc

namespace TypeExpr

variable {indent : Indent}

theorem induction {motive : TypeExpr → Prop} (raw : ∀ text, motive (.raw text))
    (reference : ∀ name, motive (.reference name)) (literal : ∀ value, motive (.literal value))
    (union : ∀ items, (∀ t ∈ items, motive t) → motive (.union items))
    (array : ∀ item, motive item → motive (.array item))
    (record : ∀ key value, motive key → motive value → motive (.record key value))
    (object : ∀ members : List Member, (∀ m ∈ members, motive m.type) → motive (.object members)) :
    ∀ t, motive t
  | .raw text => raw text
  | .reference name => reference name
  | .literal value => literal value
  | .union items => union items fun t _ => induction raw reference literal union array record object t
  | .array item => array item (induction raw reference literal union array record object item)
  | .record key value =>
    record key value (induction raw reference literal union array record object key)
      (induction raw reference literal union array record object value)
  | .object members => object members fun m hm =>
    have : sizeOf m.type < 1 + sizeOf members := by
      have smaller := List.sizeOf_lt_of_mem hm
      cases m
      simp at smaller ⊢
      omega
    induction raw reference literal union array record object m.type

theorem renderItems_eq (items : List TypeExpr) : renderItems indent items = items.map (render indent) := by
  induction items
  case nil => rfl
  case cons item items hi => rw [renderItems, hi, List.map_cons]

theorem renderMembers_eq (members : List Member) :
    renderMembers indent members = members.flatMap (renderMember indent) := by
  induction members
  case nil => rfl
  case cons member members hi => rw [renderMembers, hi, List.flatMap_cons]

end TypeExpr

theorem Alias.renderAll_eq (a : Alias) (indent : Indent) : Fragment.renderAll indent 0 a.fragments =
    exportWord a.exported ++ "type " ++ a.name ++ " = " ++ a.type.render .default ++ ";" ++ "\n" := by
  rw [← Text.join_cut]
  exact Fragment.renderAll_lines id _

theorem Alias.text_eq (a : Alias) : (Declaration.typeAlias a).text =
    exportWord a.exported ++ "type " ++ a.name ++ " = " ++ a.type.render .default ++ ";" ++ "\n" :=
  a.renderAll_eq .default

theorem Interface.text_eq (i : Interface) : (Declaration.interface i).text =
    i.header ++ "\n" ++ String.join ((i.members.flatMap (·.lines .default)).map (Fragment.lineAt .default 1)) ++
      "\x7d\n" := by
  have body : Fragment.renderAll .default 1 ((i.members.flatMap (·.lines .default)).map .line) =
      String.join ((i.members.flatMap (·.lines .default)).map (Fragment.lineAt .default 1)) :=
    Fragment.renderAll_lines_at 1 id _
  simp [Declaration.text, Declaration.fragments, fragments, Fragment.renderAll, Fragment.render,
    Fragment.lineAt_zero, body]

namespace SourceFile

-- The texts of what stands before the declarations.
def preface (f : SourceFile) : List String :=
  f.header.toList.map (fun h => Fragment.render .default 0 (.doc h)) ++
    (if f.imports.isEmpty then [] else [String.join (f.imports.map fun i => i.text ++ "\n")])

theorem render_of_no_exports {f : SourceFile} (he : f.exports = []) :
    f.render .default = "\n".intercalate (f.preface ++ f.body.map Declaration.text) := by
  rw [render, fragments, Fragment.renderAll_sections, sections, preface]
  congr 1
  cases f.header <;> by_cases hi : f.imports.isEmpty
  all_goals
    simp [he, hi, Fragment.renderAll_lines, Fragment.renderAll, Declaration.text, Function.comp_def]

end SourceFile

end ProtoTypings
