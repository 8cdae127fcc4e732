import Mathlib
import ProtoTypings.Proofs.Rendering

namespace ProtoTypings

-- A text under construction. A new sheet is empty.
structure Sheet where
  depth : Nat := 0
  text : String := ""

namespace Sheet

variable {indent : Indent} {s : Sheet}

def add (s : Sheet) (text : String) : Sheet :=
  { s with text := s.text ++ text }

def line (indent : Indent) (s : Sheet) (text : String) : Sheet :=
  if text = "" then s.add "\n" else ((s.add (indent.nested s.depth)).add text).add "\n"

def blank (s : Sheet) : Sheet :=
  s.add "\n"

def doc (indent : Indent) (s : Sheet) (text : String) : Sheet :=
  let opened := s.line indent "/**"
  let filled := (Text.lines text).foldl (fun s l => s.line indent (if l = "" then " *" else " * " ++ l)) opened
  filled.line indent " */"

def enter (s : Sheet) : Sheet :=
  { s with depth := s.depth + 1 }

def leave (s : Sheet) : Sheet :=
  { s with depth := s.depth - 1 }

mutual

def put (indent : Indent) (s : Sheet) : Fragment → Sheet
  | .line text => s.line indent text
  | .blank => s.blank
  | .doc text => s.doc indent text
  | .block header body close =>
    let filled := (putAll indent (s.line indent header).enter body).leave
    match close with
    | some close => filled.line indent close
    | none => filled

def putAll (indent : Indent) (s : Sheet) : List Fragment → Sheet
  | [] => s
  | f :: fs => putAll indent (put indent s f) fs

end

@[simp]
theorem depth_add (s : Sheet) (text : String) : (s.add text).depth = s.depth :=
  rfl

@[simp]
theorem add_add (s : Sheet) (front back : String) : (s.add front).add back = s.add (front ++ back) := by
  simp [add, String.append_assoc]

@[simp]
theorem add_empty (s : Sheet) : s.add "" = s := by
  simp [add]

theorem enter_add (s : Sheet) (text : String) : (s.add text).enter = s.enter.add text :=
  rfl

theorem leave_enter_add (s : Sheet) (text : String) : (s.enter.add text).leave = s.add text :=
  rfl

theorem line_eq (s : Sheet) (text : String) : s.line indent text = s.add (Fragment.lineAt indent s.depth text) := by
  rw [line, Fragment.lineAt]
  split <;> simp [String.append_assoc]

theorem foldl_line (s : Sheet) (lines : List String) :
    lines.foldl (line indent) s = s.add (String.join (lines.map (Fragment.lineAt indent s.depth))) := by
  induction lines generalizing s
  case nil => simp
  case cons l lines hi => simp [line_eq, hi]

theorem doc_eq (s : Sheet) (text : String) : s.doc indent text = s.add (Fragment.render indent s.depth (.doc text)) := by
  have filled (s : Sheet) : (Text.lines text).foldl (fun s l => s.line indent (if l = "" then " *" else " * " ++ l)) s =
      s.add (String.join (((Text.lines text).map fun l => if l = "" then " *" else " * " ++ l).map
        (Fragment.lineAt indent s.depth))) := by
    rw [← foldl_line, List.foldl_map]
  simp only [doc, filled]
  simp [line_eq, Fragment.render, Fragment.docLines, String.append_assoc]

-- A fragment adds its text to a sheet, and leaves it at the same depth.
mutual

theorem put_eq (s : Sheet) : (f : Fragment) → s.put indent f = s.add (f.render indent s.depth)
  | .line text => by rw [put, line_eq, Fragment.render]
  | .blank => by rw [put, blank, Fragment.render]
  | .doc text => by rw [put, doc_eq]
  | .block header body close => by
    have filled : (putAll indent (s.line indent header).enter body).leave =
        s.add (Fragment.lineAt indent s.depth header ++ Fragment.renderAll indent (s.depth + 1) body) := by
      rw [line_eq, enter_add, putAll_eq, add_add, leave_enter_add]
      rfl
    cases close
    case none       => simp [put, filled, Fragment.render]
    case some close => simp [put, filled, line_eq _ close, Fragment.render]

theorem putAll_eq (s : Sheet) : (fs : List Fragment) → s.putAll indent fs = s.add (Fragment.renderAll indent s.depth fs)
  | [] => by rw [putAll, Fragment.renderAll, add_empty]
  | f :: fs => by rw [putAll, put_eq, putAll_eq, depth_add, add_add, Fragment.renderAll]

end

-- What fragments look like on a sheet of their own.
def own (indent : Indent) (fragments : List Fragment) : String :=
  (putAll indent {} fragments).text

theorem own_eq (fragments : List Fragment) : own indent fragments = Fragment.renderAll indent 0 fragments := by
  simp [own, putAll_eq, add]

theorem text_doc (text : String) : (doc indent {} text).text = Fragment.renderAll indent 0 [.doc text] := by
  simp [doc_eq, add, Fragment.renderAll]

end Sheet

-- A sheet with the number of sections on it.
structure Page where
  sheet : Sheet := {}
  sections : Nat := 0

namespace Page

-- There is an empty line before every section but the first.
def add (indent : Indent) (p : Page) (fragments : List Fragment) : Page :=
  let start := if 0 < p.sections then p.sheet.blank else p.sheet
  ⟨start.putAll indent fragments, p.sections + 1⟩

-- The texts of the sections stand on the page, and no block is open.
structure Holds (p : Page) (texts : List String) : Prop where
  depth : p.sheet.depth = 0
  text : p.sheet.text = "\n".intercalate texts
  sections : p.sections = texts.length

variable {indent : Indent} {p : Page} {texts : List String}

theorem intercalate_concat (texts : List String) (text : String) :
    "\n".intercalate (texts ++ [text]) = "\n".intercalate (texts ++ [""]) ++ text := by
  by_cases h : texts = []
  case pos => simp [h]
  case neg => simp [String.intercalate_append_of_ne_nil h]

theorem Holds.add (h : p.Holds texts) (fragments : List Fragment) :
    (p.add indent fragments).Holds (texts ++ [Sheet.own indent fragments]) := by
  obtain ⟨⟨depth, text⟩, sections⟩ := p
  obtain ⟨rfl, rfl, rfl⟩ := h
  have start : (if 0 < texts.length then (Sheet.mk 0 ("\n".intercalate texts)).blank else ⟨0, "\n".intercalate texts⟩) =
      ⟨0, "\n".intercalate (texts ++ [""])⟩ := by
    by_cases ht : texts = []
    case pos => simp [ht]
    case neg =>
      rw [if_pos (List.length_pos_iff.mpr ht), String.intercalate_append_of_ne_nil ht (by simp)]
      simp [Sheet.blank, Sheet.add]
  rw [Page.add]
  dsimp only
  rw [start, Sheet.putAll_eq]
  refine ⟨rfl, ?_, by simp⟩
  rw [Sheet.own_eq]
  exact (intercalate_concat texts _).symm

theorem Holds.foldl {α : Type} {fragments : α → List Fragment} (h : p.Holds texts) (l : List α) :
    (l.foldl (fun p a => p.add indent (fragments a)) p).Holds (texts ++ l.map fun a => Sheet.own indent (fragments a)) := by
  induction l generalizing p texts
  case nil => simpa using h
  case cons a l hi => simpa using hi (h.add (fragments a))

end Page

namespace Text

def Begins (text : String) : Prop :=
  text.toList.head?.any (· != '\n') = true

def Ends (text : String) : Prop :=
  text.toList.getLast?.any (· != '\n') = true

-- Lines with a line end behind the last one, and with no empty line at the beginning or the end.
def Framed (text : String) : Prop :=
  ∃ body, text = body ++ "\n" ∧ Begins body ∧ Ends body

variable {front back : String}

theorem Begins.append (h : Begins front) (back : String) : Begins (front ++ back) := by
  cases hf : front.toList
  case nil  => simp [Begins, hf] at h
  case cons => simpa [Begins, hf] using h

theorem Ends.append (h : Ends back) (front : String) : Ends (front ++ back) := by
  have hb : back.toList ≠ [] := fun hb => by simp [Ends, hb] at h
  rw [Ends, String.toList_append, List.getLast?_append_of_ne_nil _ hb]
  exact h

theorem framed_line {line : String} (hb : Begins line) (he : Ends line) : Framed (line ++ "\n") :=
  ⟨line, rfl, hb, he⟩

theorem Framed.append (hf : Framed front) (hb : Framed back) (gap : String) : Framed (front ++ gap ++ back) := by
  obtain ⟨front, rfl, hf, -⟩ := hf
  obtain ⟨back, rfl, -, hb⟩ := hb
  refine ⟨front ++ "\n" ++ gap ++ back, by simp [String.append_assoc], ?_, hb.append _⟩
  exact ((hf.append _).append _).append _

theorem Framed.intercalate {texts : List String} (hne : texts ≠ []) (h : ∀ text ∈ texts, Framed text) :
    Framed ("\n".intercalate texts) := by
  induction texts
  case nil => contradiction
  case cons text texts hi =>
    obtain ⟨ht, h⟩ := List.forall_mem_cons.mp h
    by_cases hne : texts = []
    case pos => simpa [hne] using ht
    case neg =>
      rw [String.intercalate_cons_of_ne_nil hne]
      exact ht.append (hi hne h) "\n"

theorem framed_lines {lines : List String} (hne : lines ≠ []) (h : ∀ line ∈ lines, Begins line ∧ Ends line) :
    Framed (String.join (lines.map (· ++ "\n"))) := by
  induction lines
  case nil => contradiction
  case cons line lines hi =>
    obtain ⟨⟨hb, he⟩, h⟩ := List.forall_mem_cons.mp h
    by_cases hne : lines = []
    case pos => simpa [hne] using framed_line hb he
    case neg => simpa using (framed_line hb he).append (hi hne h) ""

end Text

open Text (Begins Ends Framed)

theorem begins_exportWord (exported : Bool) {word : String} (h : Begins word) : Begins (exportWord exported ++ word) := by
  cases exported
  case true =>
    have modifier : Begins "export " := rfl
    exact modifier.append word
  case false => simpa [exportWord] using h

theorem Fragment.framed_block {indent : Indent} {header close : String} (hb : Begins header) (he : Ends close)
    (body : List Fragment) : Framed (renderAll indent 0 [.block header body (some close)]) := by
  refine ⟨header ++ "\n" ++ renderAll indent 1 body ++ close, ?_, ((hb.append _).append _).append _, he.append _⟩
  simp [renderAll, render, lineAt_zero, String.append_assoc]

theorem Declaration.framed_own (d : Declaration) (indent : Indent) : Framed (Sheet.own indent d.fragments) := by
  have brace : Ends "\x7d" := rfl
  rw [Sheet.own_eq]
  cases d
  case interface i =>
    have keyword : Begins "interface " := rfl
    refine Fragment.framed_block ?_ brace _
    exact ((((begins_exportWord i.exported keyword).append _).append _).append _).append _
  case enum e =>
    have keyword : Begins "enum " := rfl
    refine Fragment.framed_block ?_ brace _
    exact ((begins_exportWord e.exported keyword).append _).append _
  case typeAlias a =>
    have keyword : Begins "type " := rfl
    have semicolon : Ends ";" := rfl
    rw [fragments, a.renderAll_eq]
    refine Text.framed_line ?_ (semicolon.append _)
    exact ((((begins_exportWord a.exported keyword).append _).append _).append _).append _

theorem framed_own_lines {α : Type} {l : List α} {text : α → String} {indent : Indent}
    (h : ∀ a ∈ l, Begins (text a) ∧ Ends (text a)) :
    ∀ section_ ∈ if l.isEmpty then [] else [Sheet.own indent (l.map fun a => .line (text a))], Framed section_ := by
  split
  case isTrue => simp
  case isFalse hne =>
    refine List.forall_mem_singleton.mpr ?_
    have lines := Text.framed_lines (by simpa using hne) (List.forall_mem_map.mpr h)
    rw [Sheet.own_eq, Fragment.renderAll_lines]
    simpa [Function.comp_def] using lines

namespace SourceFile

-- The page with no more than the header on it.
def top (f : SourceFile) (indent : Indent) : Page :=
  match f.header with
  | some header => ⟨Sheet.doc indent {} header, 1⟩
  | none => {}

-- The text of a file, written section by section on one page.
def written (f : SourceFile) (indent : Indent) : String :=
  let top := f.top indent
  let imported := if f.imports.isEmpty then top else top.add indent (f.imports.map fun i => .line i.text)
  let declared := f.body.foldl (fun p d => p.add indent d.fragments) imported
  let exported :=
    if f.exports.isEmpty then declared else declared.add indent (f.exports.map fun e => .line (exportAll e))
  exported.sheet.text

-- The texts of the sections, each on a sheet of its own.
def sectionTexts (f : SourceFile) (indent : Indent) : List String :=
  f.header.toList.map (fun header => (Sheet.doc indent {} header).text) ++
    (if f.imports.isEmpty then [] else [Sheet.own indent (f.imports.map fun i => .line i.text)]) ++
    f.body.map (fun d => Sheet.own indent d.fragments) ++
    (if f.exports.isEmpty then [] else [Sheet.own indent (f.exports.map fun e => .line (exportAll e))])

variable {f : SourceFile} {indent : Indent}

theorem holds_top (f : SourceFile) (indent : Indent) :
    (f.top indent).Holds (f.header.toList.map fun header => (Sheet.doc indent {} header).text) := by
  rw [top]
  cases f.header
  case none        => exact ⟨rfl, by simp, rfl⟩
  case some header => exact ⟨by simp [Sheet.doc_eq], by simp, rfl⟩

theorem written_eq (f : SourceFile) (indent : Indent) :
    f.written indent = "\n".intercalate (f.sectionTexts indent) := by
  have optional {p : Page} {texts : List String} (h : p.Holds texts) {α : Type} (l : List α) (text : α → String) :
      (if l.isEmpty then p else p.add indent (l.map fun a => .line (text a))).Holds
        (texts ++ if l.isEmpty then [] else [Sheet.own indent (l.map fun a => .line (text a))]) := by
    split
    case isTrue  => simpa using h
    case isFalse => exact h.add _
  exact (optional ((optional (f.holds_top indent) f.imports ImportStmt.text).foldl f.body) f.exports exportAll).text

theorem render_eq_intercalate (f : SourceFile) (indent : Indent) :
    f.render indent = "\n".intercalate (f.sectionTexts indent) := by
  rw [render, fragments, Fragment.renderAll_sections, sections, sectionTexts]
  simp only [Sheet.own_eq, Sheet.text_doc, List.map_append, List.map_map, Function.comp_def]
  congr 1
  split <;> split <;> simp

theorem framed_doc (header : String) : Framed (Sheet.doc indent {} header).text := by
  have opening : Framed ("/**" ++ "\n") := Text.framed_line rfl rfl
  have closing : Framed (" */" ++ "\n") := Text.framed_line rfl rfl
  have lines := opening.append closing
    (String.join (((Text.lines header).map fun l => if l = "" then " *" else " * " ++ l).map (· ++ "\n")))
  simpa [Sheet.text_doc, Fragment.renderAll_doc, Fragment.docLines, String.append_assoc] using lines

theorem framed_sectionTexts (f : SourceFile) (indent : Indent) : ∀ text ∈ f.sectionTexts indent, Framed text := by
  have close : Ends "';" := rfl
  simp only [sectionTexts, List.forall_mem_append]
  refine ⟨⟨⟨?header, ?imports⟩, ?body⟩, ?exports⟩
  case header => exact List.forall_mem_map.mpr fun header _ => framed_doc header
  case body   => exact List.forall_mem_map.mpr fun d _ => d.framed_own indent
  case imports =>
    refine framed_own_lines fun i _ => ?_
    rw [ImportStmt.text]
    have word : Begins "import " := rfl
    have side : Begins "import '" := rfl
    split
    case isTrue  => exact ⟨(side.append _).append _, close.append _⟩
    case isFalse => exact ⟨(((((word.append _).append _).append _).append _).append _).append _, close.append _⟩
  case exports =>
    have word : Begins "export * from '" := rfl
    exact framed_own_lines fun e _ => ⟨(word.append _).append _, close.append _⟩

theorem sectionTexts_eq_nil_iff : f.sectionTexts indent = [] ↔ f.isEmpty = true := by
  simp [sectionTexts, isEmpty, and_assoc]

theorem sections_apart (f : SourceFile) (indent : Indent) :
    f.render indent = "\n".intercalate (f.sectionTexts indent) ∧ f.written indent = f.render indent ∧
    (∀ text ∈ f.sectionTexts indent, Framed text) ∧ (f.render indent = "" ↔ f.isEmpty = true) ∧
    (f.isEmpty = false → Framed (f.render indent)) := by
  have framed := f.framed_sectionTexts indent
  have joined := f.render_eq_intercalate indent
  have whole (h : f.isEmpty = false) : Framed (f.render indent) := by
    rw [joined]
    refine .intercalate (fun hn => ?_) framed
    simp [sectionTexts_eq_nil_iff.mp hn] at h
  refine ⟨joined, (f.written_eq indent).trans joined.symm, framed, ⟨fun he => ?_, fun he => ?_⟩, whole⟩
  · by_contra hn
    obtain ⟨body, hb, -⟩ := whole (Bool.not_eq_true _ |>.mp hn)
    simp [he] at hb
  · rw [joined, sectionTexts_eq_nil_iff.mpr he, String.intercalate_nil]

end SourceFile

end ProtoTypings
