import Mathlib
import ProtoTypings.Proofs.Placement

namespace ProtoTypings

structure SourceFile.Tidy (f : SourceFile) : Prop where
  imports : ∀ i ∈ f.imports, '\n' ∉ i.text.toList
  body : ∀ d ∈ f.body, d.Tidy
  exports : ∀ e ∈ f.exports, '\n' ∉ e.toList

namespace SourceFile

variable {f : SourceFile} {indent : Indent}

-- The lines of the sections below the header.
def sectionRows (f : SourceFile) : List (List Placed) :=
  (if f.imports.isEmpty then [] else [f.imports.map fun i => Placed.outer i.text]) ++ f.body.map Declaration.rows ++
    (if f.exports.isEmpty then [] else [f.exports.map fun e => Placed.outer (exportAll e)])

-- The lines of the file below the header. There is an empty line between neighbouring sections, and one below
-- the header, if something follows.
def rows (f : SourceFile) : List Placed :=
  [.outer ""].intercalate (f.header.toList.map (fun _ => []) ++ f.sectionRows)

-- The lines of the text of the file below the header. The text ends with a line end.
def codeLines (f : SourceFile) (indent : Indent) : List String :=
  ((Text.cut '\n' (f.render indent)).drop (f.header.elim 0 fun h => (Fragment.docLines h).length)).dropLast

-- Every line below the header is indented by as many levels as there are bodies and object types open around it.
def LaidOut (f : SourceFile) (indent : Indent) : Prop :=
  (f.codeLines indent).Forall₂ (fun line p => p.Fits indent line) f.rows

def HasObject (f : SourceFile) : Prop :=
  ∃ d ∈ f.body, d.HasObject

def HasEmptyKey (f : SourceFile) : Prop :=
  ∃ d ∈ f.body, d.HasEmptyKey

theorem forall_mem_sectionRows {P : Placed → Prop} (imports : ∀ i ∈ f.imports, P (.outer i.text))
    (body : ∀ d ∈ f.body, ∀ p ∈ d.rows, P p) (exports : ∀ e ∈ f.exports, P (.outer (exportAll e))) :
    ∀ rows ∈ f.sectionRows, ∀ p ∈ rows, P p := by
  have part {α : Type} {text : α → String} {l : List α} (h : ∀ a ∈ l, P (.outer (text a))) :
      ∀ rows ∈ if l.isEmpty then [] else [l.map fun a => Placed.outer (text a)], ∀ p ∈ rows, P p := by
    split
    case isTrue  => simp
    case isFalse => exact List.forall_mem_singleton.mpr (List.forall_mem_map.mpr h)
  rw [sectionRows]
  refine List.forall_mem_append.mpr ⟨List.forall_mem_append.mpr ⟨part imports, ?_⟩, part exports⟩
  exact List.forall_mem_map.mpr body

theorem forall_mem_rows {P : Placed → Prop} (gap : P (.outer "")) (imports : ∀ i ∈ f.imports, P (.outer i.text))
    (body : ∀ d ∈ f.body, ∀ p ∈ d.rows, P p) (exports : ∀ e ∈ f.exports, P (.outer (exportAll e))) :
    ∀ p ∈ f.rows, P p := by
  refine Text.forall_mem_intercalate (List.forall_mem_singleton.mpr gap) (List.forall_mem_append.mpr ⟨?_, ?_⟩)
  · simp
  · exact forall_mem_sectionRows imports body exports

theorem mem_rows {d : Declaration} {p : Placed} (hd : d ∈ f.body) (hp : p ∈ d.rows) : p ∈ f.rows := by
  refine Text.mem_intercalate (List.mem_append_right _ ?_) hp
  exact List.mem_append_left _ (List.mem_append_right _ (List.mem_map_of_mem hd))

-- Lines that are not empty, and neither import nor export anything, are those of declarations.
theorem exists_mem_rows_iff {P : Placed → Prop} (gap : ¬P (.outer ""))
    (imports : ∀ i : ImportStmt, ¬P (.outer i.text)) (exports : ∀ e, ¬P (.outer (exportAll e))) :
    (∃ p ∈ f.rows, P p) ↔ ∃ d ∈ f.body, ∃ p ∈ d.rows, P p := by
  constructor
  · rintro ⟨p, hp, h⟩
    have declared : ∀ p ∈ f.rows, P p → ∃ d ∈ f.body, ∃ p ∈ d.rows, P p :=
      forall_mem_rows (absurd · gap) (fun i _ => (absurd · (imports i)))
        (fun d hd p hp h => ⟨d, hd, p, hp, h⟩) (fun e _ => (absurd · (exports e)))
    exact declared p hp h
  · rintro ⟨d, hd, p, hp, h⟩
    exact ⟨p, mem_rows hd hp, h⟩

theorem flush_import (i : ImportStmt) : (Placed.outer i.text).Flush := by
  by_cases hn : i.named.isEmpty <;> simp [Row.Flush, Placed.outer, ImportStmt.text, hn] <;> decide

theorem flush_exportAll (e : String) : (Placed.outer (exportAll e)).Flush := by
  have front : Row.Flush ⟨0, "export * from '"⟩ := rfl
  exact (front.extend e).extend "';"

theorem renderAll_outer {α : Type} (text : α → String) (l : List α) :
    (if l.isEmpty then [] else [l.map fun a => Fragment.line (text a)]).map (Fragment.renderAll indent 0) =
      (if l.isEmpty then [] else [l.map fun a => Placed.outer (text a)]).map (Placed.joined indent) := by
  split
  case isTrue  => rfl
  case isFalse => simp [Fragment.renderAll_lines, Placed.joined, Placed.written_outer, Function.comp_def]

theorem map_renderAll_sections (tidy : f.Tidy) : f.sections.map (Fragment.renderAll indent 0) =
    (f.header.toList.map Fragment.docLines ++ f.sectionRows.map (List.map (Placed.written indent .default))).map
      fun lines => String.join (lines.map (· ++ "\n")) := by
  have body : (f.body.map Declaration.fragments).map (Fragment.renderAll indent 0) =
      (f.body.map Declaration.rows).map (Placed.joined indent) := by
    rw [List.map_map, List.map_map]
    exact List.map_congr_left fun d hd => Declaration.renderAll_fragments (tidy.body d hd) indent
  have rows : (f.sectionRows.map (List.map (Placed.written indent .default))).map
      (fun lines => String.join (lines.map (· ++ "\n"))) = f.sectionRows.map (Placed.joined indent) := by
    simp [Placed.joined, Function.comp_def]
  rw [List.map_append, rows, sections, sectionRows]
  simp only [List.map_append, renderAll_outer, body, List.append_assoc]
  simp [Fragment.renderAll_doc]

theorem unbroken_docLines (text : String) : ∀ line ∈ Fragment.docLines text, '\n' ∉ line.toList := by
  simp only [Fragment.docLines, List.forall_mem_append, List.forall_mem_map, List.forall_mem_singleton]
  refine ⟨⟨by decide, fun line hl => ?_⟩, by decide⟩
  have h := Text.notMem_of_mem_lines hl
  split <;> simp [h]

theorem unbroken_sectionRows (tidy : f.Tidy) : ∀ rows ∈ f.sectionRows, ∀ p ∈ rows, '\n' ∉ p.text.toList := by
  refine forall_mem_sectionRows tidy.imports (fun d hd => ?_) fun e he => ?_
  · exact Declaration.unbroken_rows (tidy.body d hd)
  · change '\n' ∉ ("export * from '" ++ e ++ "';").toList
    simpa using tidy.exports e he

-- The lines of the text.
theorem cut_render (tidy : f.Tidy) (indent : Indent) : Text.cut '\n' (f.render indent) =
    [""].intercalate (f.header.toList.map Fragment.docLines ++
      f.sectionRows.map (List.map (Placed.written indent .default))) ++ [""] := by
  rw [render, fragments, Fragment.renderAll_sections, map_renderAll_sections tidy, Text.intercalate_join]
  refine Text.cut_join (Text.forall_mem_intercalate (by simp) (List.forall_mem_append.mpr ⟨?header, ?sections⟩))
  case header => exact List.forall_mem_map.mpr fun h _ => unbroken_docLines h
  case sections =>
    simp only [List.forall_mem_map]
    intro rows hr p hp
    simpa [Placed.written, Row.written, Code.unbroken_nested] using unbroken_sectionRows tidy rows hr p hp

theorem codeLines_eq (tidy : f.Tidy) : f.codeLines indent = f.rows.map (Placed.written indent .default) := by
  rw [codeLines, cut_render tidy, rows, Text.map_intercalate]
  cases f.header
  case none => simp [Placed.written_outer]
  case some header =>
    simp only [Option.toList_some, List.map_cons, List.map_nil, List.cons_append, List.nil_append,
      Text.intercalate_cons (Fragment.docLines header), Placed.written_outer]
    simp

theorem laidOut_iff_forall (tidy : f.Tidy) :
    f.LaidOut indent ↔ ∀ p ∈ f.rows, p.Fits indent (p.written indent .default) := by
  rw [LaidOut, codeLines_eq tidy, List.forall₂_map_left_iff, List.forall₂_same]

theorem exists_deep_iff : (∃ p ∈ f.rows, p.depth ≠ 0) ↔ f.HasObject := by
  rw [exists_mem_rows_iff (by simp [Placed.outer]) (by simp [Placed.outer]) (by simp [Placed.outer])]
  simp only [Declaration.deep_rows_iff, HasObject]

theorem exists_stray_iff (tidy : f.Tidy) : (∃ p ∈ f.rows, p.Stray) ↔ f.HasEmptyKey := by
  rw [exists_mem_rows_iff (fun stray => stray.text rfl) (fun i stray => stray.blank (flush_import i))
    fun e stray => stray.blank (flush_exportAll e)]
  exact exists_congr fun d => and_congr_right fun hd => Declaration.stray_rows_iff (tidy.body d hd)

theorem forall_fits_iff (tidy : f.Tidy) : (∀ p ∈ f.rows, p.Fits indent (p.written indent .default)) ↔
    ∀ p ∈ f.rows, (p.depth = 0 ∨ indent = .default) ∧ ¬p.Stray := by
  have known : ∀ p ∈ f.rows, p = .outer "" ∨ p.Flush ∨ p.Stray :=
    forall_mem_rows (.inl rfl) (fun i _ => .inr (.inl (flush_import i)))
      (fun d hd p hp => .inr (Declaration.flush_or_stray (tidy.body d hd) p hp))
      fun e _ => .inr (.inl (flush_exportAll e))
  exact forall₂_congr fun p hp => Placed.fits_iff (known p hp)

theorem laidOut_iff (tidy : f.Tidy) (indent : Indent) :
    f.codeLines indent = f.rows.map (Placed.written indent .default) ∧
      (f.LaidOut indent ↔ (indent = .default ∨ ¬f.HasObject) ∧ ¬f.HasEmptyKey) := by
  refine ⟨codeLines_eq tidy, ?_⟩
  rw [laidOut_iff_forall tidy, forall_fits_iff tidy, ← exists_deep_iff, ← exists_stray_iff tidy]
  constructor
  · intro h
    refine ⟨or_iff_not_imp_left.mpr fun hi => ?_, ?_⟩
    · rintro ⟨p, hp, hd⟩
      exact hd ((h p hp).left.resolve_right hi)
    · rintro ⟨p, hp, stray⟩
      exact (h p hp).right stray
  · rintro ⟨hi, hs⟩ p hp
    refine ⟨?_, fun stray => hs ⟨p, hp, stray⟩⟩
    rcases hi with hi | hd
    · exact .inr hi
    · exact .inl (by_contra fun h => hd ⟨p, hp, h⟩)

def accounts : SourceFile where
  header := some "Accounts\nof teams"
  body := [
    .interface {
      name := "Account"
      params := [{ name := "T", bound := some (.reference "Team") }]
      members := [{ name := "owner", type := .object [{ name := "team", type := .reference "T" }] }] },
    .enum { name := "State", members := [("Open", "OPEN"), ("Closed", "CLOSED")] }]
  exports := ["./team"]

theorem accounts_tidy : accounts.Tidy where
  imports := by simp [accounts]
  exports := by simp [accounts]
  body := by
    refine List.forall_mem_cons.mpr ⟨?account, List.forall_mem_singleton.mpr ?state⟩
    case state => exact ⟨by decide, by simp, by simp; decide, by simp⟩
    case account =>
      refine ⟨by decide, List.forall_mem_singleton.mpr ⟨by decide, ?bound, by simp⟩, by simp,
        List.forall_mem_singleton.mpr ⟨by decide, by decide, by simp, by simp⟩,
        List.forall_mem_singleton.mpr ?type⟩
      case bound => exact fun t ht => Option.mem_some_iff.mp ht ▸ .reference (by decide)
      case type =>
        exact .object (List.forall_mem_singleton.mpr ⟨by decide, by decide, by simp, by simp⟩)
          (List.forall_mem_singleton.mpr (.reference (by decide)))

theorem laidOut_iff_accounts : accounts.Tidy ∧ accounts.LaidOut .default ∧ ¬accounts.LaidOut .tab := by
  have object : accounts.HasObject := by
    simp [HasObject, accounts, Declaration.HasObject, Declaration.types]
  have keys : ¬accounts.HasEmptyKey := by
    simp [HasEmptyKey, accounts, Declaration.HasEmptyKey]
  refine ⟨accounts_tidy, (laidOut_iff accounts_tidy .default).right.mpr ⟨.inl rfl, keys⟩, fun h => ?_⟩
  obtain ⟨hi | ho, _⟩ := (laidOut_iff accounts_tidy .tab).right.mp h
  · simp [Indent.default] at hi
  · exact ho object

def account : SourceFile where
  body := [.interface {
    name := "A"
    members := [{ name := "b", type := .object [{ name := "c", type := .raw "string" }] }] }]

theorem account_tidy : account.Tidy where
  imports := by simp [account]
  exports := by simp [account]
  body := by
    refine List.forall_mem_singleton.mpr ⟨by decide, by simp, by simp,
      List.forall_mem_singleton.mpr ⟨by decide, by decide, by simp, by simp⟩, List.forall_mem_singleton.mpr ?_⟩
    exact .object (List.forall_mem_singleton.mpr ⟨by decide, by decide, by simp, by simp⟩)
      (List.forall_mem_singleton.mpr (.raw (by decide)))

-- Inside of a body that is indented by two, an object type is indented by four.
theorem inner_indent_default :
    account.render (.spaces 2) = "export interface A \x7b\n  b: \x7b\n      c: string;\n  \x7d;\n\x7d\n" ∧
      ¬account.LaidOut (.spaces 2) := by
  refine ⟨by decide +kernel, fun h => ?_⟩
  have object : account.HasObject := by
    simp [HasObject, account, Declaration.HasObject, Declaration.types]
  obtain ⟨p, hp, hd⟩ := exists_deep_iff.mpr object
  rcases ((forall_fits_iff account_tidy).mp ((laidOut_iff_forall account_tidy).mp h) p hp).left with h | h
  · exact hd h
  · simp [Indent.default] at h

end SourceFile

end ProtoTypings
