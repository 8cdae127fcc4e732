import Mathlib
import ProtoTypings.Proofs.Rows

namespace ProtoTypings

-- A line of a file: how many declaration bodies are open around it, and what it is like inside of these.
structure Placed extends Row where
  bodies : Nat := 0

def Row.placed (r : Row) (bodies : Nat) : Placed :=
  { r with bodies }

namespace Placed

variable {p : Placed} {indent : Indent}

-- A line outside of everything.
def outer (text : String) : Placed :=
  ⟨⟨0, text⟩, 0⟩

-- The line with one indentation for bodies, and another one for object types.
def written (body type : Indent) (p : Placed) : String :=
  body.nested p.bodies ++ p.toRow.written type

-- The lines as one text, where types have the default indentation.
def joined (indent : Indent) (rows : List Placed) : String :=
  String.join (rows.map fun p => p.written indent .default ++ "\n")

-- How a line has to look: it is empty, or the indentation for all that is open around it is followed by a text
-- that does not begin with a blank.
def Fits (indent : Indent) (p : Placed) (line : String) : Prop :=
  if p.text = "" then line = ""
  else ∃ text : String, line = indent.nested (p.bodies + p.depth) ++ text ∧
    text.toList.head?.any (!Text.isBlank ·) = true

end Placed

namespace Indent

variable {indent : Indent}

theorem nested_add (i j : Nat) : indent.nested (i + j) = indent.nested i ++ indent.nested j := by
  apply String.toList_injective
  rw [nested, List.replicate_add, List.flatten_append]
  simp [nested]

theorem length_nested (depth : Nat) : (indent.nested depth).toList.length = depth * indent.text.length := by
  simp [nested]

-- Levels are as wide as those of the default indentation only if they are the same.
theorem eq_default_of_length (h : indent.text.length = Indent.default.text.length) : indent = .default := by
  cases indent
  case tab => simp [text, default] at h
  case spaces width =>
    have h : min width 8 = 4 := by simpa [text, default] using h
    have : width = 4 := by omega
    rw [this, default]

theorem eq_default_of_nested {depth : Nat} (hd : depth ≠ 0)
    (h : Indent.default.nested depth = indent.nested depth) : indent = .default := by
  have lengths := congrArg (·.toList.length) h
  simp only [length_nested] at lengths
  exact eq_default_of_length (Nat.eq_of_mul_eq_mul_left (Nat.pos_of_ne_zero hd) lengths).symm

theorem isBlank_of_mem_nested {depth : Nat} {c : Char} (hc : c ∈ (indent.nested depth).toList) :
    Text.isBlank c = true := by
  have blank := isIndent_of_mem_nested hc
  simp only [isIndent, Bool.or_eq_true, beq_iff_eq] at blank
  rcases blank with rfl | rfl <;> rfl

end Indent

namespace Placed

variable {p : Placed} {indent : Indent}

theorem written_placed_zero (r : Row) : (r.placed 0).written indent .default = r.written .default := by
  simp [written, Row.placed, Indent.nested]

theorem written_outer (text : String) : (outer text).written indent .default = text := by
  simp [written, outer, Row.written, Indent.nested]

theorem joined_append (front back : List Placed) :
    joined indent (front ++ back) = joined indent front ++ joined indent back := by
  simp [joined]

theorem joined_outer (text : String) : joined indent [outer text] = text ++ "\n" := by
  simp [joined, written_outer]

theorem lineAt_written {r : Row} {depth : Nat} (ht : r.text ≠ "") :
    Fragment.lineAt indent depth (r.written .default) = (r.placed depth).written indent .default ++ "\n" := by
  have hw : r.written .default ≠ "" := by simp [Row.written, ht]
  rw [Fragment.lineAt, if_neg hw]
  rfl

-- A block has the lines of its header, those of its body one level deeper, and a line that closes it.
theorem renderAll_block {header close : String} {front : List Placed} {body : List Row}
    (hf : joined indent front = header ++ "\n") (hb : ∀ r ∈ body, r.text ≠ "") :
    Fragment.renderAll indent 0 [.block header (body.map fun r => .line (r.written .default)) (some close)] =
      joined indent (front ++ body.map (·.placed 1) ++ [outer close]) := by
  have inner : Fragment.renderAll indent 1 (body.map fun r => .line (r.written .default)) =
      joined indent (body.map (·.placed 1)) := by
    rw [Fragment.renderAll_lines_at, joined, List.map_map]
    exact congrArg _ (List.map_congr_left fun r hr => lineAt_written (hb r hr))
  rw [joined_append, joined_append, joined_outer, hf, ← inner]
  simp [Fragment.renderAll, Fragment.render, Fragment.lineAt_zero]

-- Where the text begins, the indentation ends.
theorem eq_of_append_eq {a b s t : String} (ha : ∀ c ∈ a.toList, Text.isBlank c = true)
    (hb : ∀ c ∈ b.toList, Text.isBlank c = true) (hs : s.toList.head?.any (!Text.isBlank ·) = true)
    (ht : t.toList.head?.any (!Text.isBlank ·) = true) (h : a ++ s = b ++ t) : a = b := by
  have blanks {a s : String} (ha : ∀ c ∈ a.toList, Text.isBlank c = true)
      (hs : s.toList.head?.any (!Text.isBlank ·) = true) : (a ++ s).toList.takeWhile Text.isBlank = a.toList := by
    cases hc : s.toList
    case nil => simp [hc] at hs
    case cons c cs =>
      have hc' : Text.isBlank c = false := by simpa [hc] using hs
      rw [String.toList_append, hc, List.takeWhile_append_of_pos ha, List.takeWhile_cons_of_neg (by simp [hc']),
        List.append_nil]
  apply String.toList_injective
  rw [← blanks ha hs, h, blanks hb ht]

theorem fits_iff_of_flush (flush : p.Flush) : p.Fits indent (p.written indent .default) ↔
    p.depth = 0 ∨ indent = .default := by
  rw [Fits, if_neg flush.text_ne, written, Row.written, Indent.nested_add]
  constructor
  · rintro ⟨text, h, ht⟩
    by_cases hd : p.depth = 0
    case pos => exact .inl hd
    case neg =>
      refine .inr (Indent.eq_default_of_nested hd ?_)
      rw [String.append_assoc, String.append_right_inj] at h
      exact eq_of_append_eq (fun _ => Indent.isBlank_of_mem_nested) (fun _ => Indent.isBlank_of_mem_nested)
        flush ht h
  · rintro (hd | rfl)
    · exact ⟨p.text, by simp [hd, Indent.nested], flush⟩
    · exact ⟨p.text, by rw [String.append_assoc], flush⟩

-- A line outside of all types that begins with a blank.
structure Stray (p : Placed) : Prop where
  depth : p.depth = 0
  text : p.text ≠ ""
  blank : ¬p.Flush

theorem Stray.not_fits (h : p.Stray) : ¬p.Fits indent (p.written indent .default) := by
  rw [Fits, if_neg h.text, written, Row.written, h.depth]
  rintro ⟨text, heq, ht⟩
  have same : p.text = text := by simpa [Indent.nested] using heq
  exact h.blank (by rwa [← same] at ht)

theorem flush_or_stray (hd : p.depth = 0) (ht : p.text ≠ "") : p.Flush ∨ p.Stray := by
  by_cases hf : p.Flush
  case pos => exact .inl hf
  case neg => exact .inr ⟨hd, ht, hf⟩

theorem fits_iff (h : p = outer "" ∨ p.Flush ∨ p.Stray) :
    p.Fits indent (p.written indent .default) ↔ (p.depth = 0 ∨ indent = .default) ∧ ¬p.Stray := by
  rcases h with rfl | flush | stray
  · refine iff_of_true ?_ ⟨.inl rfl, fun stray => stray.text rfl⟩
    simp [Fits, outer, written, Row.written, Indent.nested]
  · rw [fits_iff_of_flush flush, and_iff_left fun stray => stray.blank flush]
  · exact iff_of_false stray.not_fits fun h => h.right stray

end Placed

def TypeParam.code (p : TypeParam) : Code :=
  ⟨p.name, []⟩ ++ (p.bound.map fun t => ⟨" extends ", []⟩ ++ t.code).getD ⟨"", []⟩ ++
    (p.fallback.map fun t => ⟨" = ", []⟩ ++ t.code).getD ⟨"", []⟩

def Interface.headerCode (i : Interface) : Code :=
  let params : Code := if i.params.isEmpty then ⟨"", []⟩
    else ⟨"<", []⟩ ++ .intercalate ", " (i.params.map TypeParam.code) ++ ⟨">", []⟩
  let bases : Code := if i.bases.isEmpty then ⟨"", []⟩
    else ⟨" extends ", []⟩ ++ .intercalate ", " (i.bases.map fun base => ⟨base, []⟩)
  ⟨exportWord i.exported ++ "interface " ++ i.name, []⟩ ++ params ++ bases ++ ⟨" \x7b", []⟩

def Interface.rows (i : Interface) : List Placed :=
  i.headerCode.rows.map (·.placed 0) ++ (i.members.flatMap TypeExpr.memberRows).map (·.placed 1) ++
    [Placed.outer "\x7d"]

namespace EnumDecl

def headerText (e : EnumDecl) : String :=
  exportWord e.exported ++ "enum " ++ e.name ++ " \x7b"

def memberLine (m : String × String) : String :=
  m.1 ++ " = " ++ Identifier.quote m.2

def bodyRows (e : EnumDecl) : List Row :=
  (separated (e.members.map memberLine)).map fun line => ⟨0, line⟩

def rows (e : EnumDecl) : List Placed :=
  [Placed.outer e.headerText] ++ e.bodyRows.map (·.placed 1) ++ [Placed.outer "\x7d"]

end EnumDecl

def Alias.code (a : Alias) : Code :=
  ⟨exportWord a.exported ++ "type " ++ a.name ++ " = ", []⟩ ++ a.type.code ++ ⟨";", []⟩

-- The lines of a declaration.
def Declaration.rows : Declaration → List Placed
  | interface i => i.rows
  | enum e => e.rows
  | typeAlias a => a.code.rows.map (·.placed 0)

structure TypeParam.Tidy (p : TypeParam) : Prop where
  name : '\n' ∉ p.name.toList
  bound : ∀ t ∈ p.bound, t.Tidy
  fallback : ∀ t ∈ p.fallback, t.Tidy

structure Interface.Tidy (i : Interface) : Prop where
  name : '\n' ∉ i.name.toList
  params : ∀ p ∈ i.params, p.Tidy
  bases : ∀ base ∈ i.bases, '\n' ∉ base.toList
  members : ∀ m ∈ i.members, m.Tidy
  types : ∀ m ∈ i.members, m.type.Tidy

structure EnumDecl.Tidy (e : EnumDecl) : Prop where
  name : '\n' ∉ e.name.toList
  key : ∀ m ∈ e.members, '\n' ∉ m.1.toList
  start : ∀ m ∈ e.members, m.1.toList.head?.any Text.isBlank = false
  value : ∀ m ∈ e.members, '\n' ∉ m.2.toList

structure Alias.Tidy (a : Alias) : Prop where
  name : '\n' ∉ a.name.toList
  type : a.type.Tidy

namespace Declaration

-- No text of the declaration has a line end, and names that lines begin with do not begin with a blank.
def Tidy : Declaration → Prop
  | interface i => i.Tidy
  | enum e => e.Tidy
  | typeAlias a => a.Tidy

-- The types that are written in a declaration.
def types : Declaration → List TypeExpr
  | interface i => i.params.flatMap (fun p => p.bound.toList ++ p.fallback.toList) ++ i.members.map Property.type
  | enum _ => []
  | typeAlias a => [a.type]

-- Some type has an object type with members in it.
def HasObject (d : Declaration) : Prop :=
  ∃ t ∈ d.types, ∃ member, t.Shows member

def HasEmptyKey : Declaration → Prop
  | enum e => ∃ m ∈ e.members, m.1 = ""
  | _ => False

end Declaration

namespace Code

variable {a : Code} {indent : Indent}

theorem joined_rows (neat : a.Neat) :
    Placed.joined indent (a.rows.map (·.placed 0)) = a.text .default ++ "\n" := by
  rw [← Text.join_cut, cut_text neat, Placed.joined, List.map_map, List.map_map]
  refine congrArg _ (List.map_congr_left fun r _ => ?_)
  exact congrArg (· ++ "\n") (Placed.written_placed_zero r)

theorem flush_rows (neat : a.Neat) (h : Row.Flush ⟨0, a.first⟩) : ∀ r ∈ a.rows, r.Flush :=
  List.forall_mem_cons.mpr ⟨h, neat.flush⟩

end Code

namespace TypeParam

variable {p : TypeParam}

theorem render_eq (tidy : p.Tidy) : p.render = p.code.text .default := by
  have part (front : String) (type : Option TypeExpr) (ht : ∀ t ∈ type, t.Tidy) :
      (type.map fun t => front ++ t.render .default).getD "" =
        ((type.map fun t => ⟨front, []⟩ ++ t.code).getD ⟨"", []⟩ : Code).text .default := by
    cases type
    case none   => rfl
    case some t => simp [TypeExpr.render_eq (ht t rfl), Code.text_line]
  rw [render, part _ _ tidy.bound, part _ _ tidy.fallback]
  simp [code, Code.text_line]

theorem neat_code (tidy : p.Tidy) : p.code.Neat := by
  have part {front : String} (hf : '\n' ∉ front.toList) {type : Option TypeExpr} (ht : ∀ t ∈ type, t.Tidy) :
      ((type.map fun t => ⟨front, []⟩ ++ t.code).getD ⟨"", []⟩ : Code).Neat := by
    cases type
    case none   => exact Code.neat_line (by simp)
    case some t => exact (Code.neat_line hf).append (TypeExpr.neat_code (ht t rfl))
  exact ((Code.neat_line tidy.name).append (part (by decide) tidy.bound)).append (part (by decide) tidy.fallback)

theorem deep_code_iff : p.code.Deep ↔ ∃ t ∈ p.bound.toList ++ p.fallback.toList, ∃ member, t.Shows member := by
  have part (front : String) (type : Option TypeExpr) :
      ((type.map fun t => ⟨front, []⟩ ++ t.code).getD ⟨"", []⟩ : Code).Deep ↔
        ∃ t ∈ type.toList, ∃ member, t.Shows member := by
    cases type <;> simp [TypeExpr.deep_code_iff]
  simp only [code, Code.deep_append, Code.not_deep_line, false_or, part, List.mem_append, or_and_right, exists_or]

end TypeParam

theorem unbroken_exportWord (exported : Bool) : '\n' ∉ (exportWord exported).toList := by
  cases exported <;> decide

namespace Interface

variable {i : Interface} {indent : Indent}

theorem header_eq (tidy : i.Tidy) : i.header = i.headerCode.text .default := by
  have params : i.params.map TypeParam.render = (i.params.map TypeParam.code).map (Code.text .default) := by
    rw [List.map_map]
    exact List.map_congr_left fun p hp => TypeParam.render_eq (tidy.params p hp)
  rw [header, headerCode, params]
  by_cases hp : i.params.isEmpty <;> by_cases hb : i.bases.isEmpty <;>
    simp [hp, hb, Code.text_line, Code.text_intercalate, String.append_assoc, Function.comp_def]

theorem neat_headerCode (tidy : i.Tidy) : i.headerCode.Neat := by
  have front : '\n' ∉ (exportWord i.exported ++ "interface " ++ i.name).toList := by
    simp [unbroken_exportWord, tidy.name]
  refine (((Code.neat_line front).append ?params).append ?bases).append (Code.neat_line (by decide))
  case params =>
    split
    case isTrue => exact Code.neat_line (by simp)
    case isFalse =>
      have inner : (Code.intercalate ", " (i.params.map TypeParam.code)).Neat :=
        .intercalate (by decide) (List.forall_mem_map.mpr fun p hp => TypeParam.neat_code (tidy.params p hp))
      exact ((Code.neat_line (by decide)).append inner).append (Code.neat_line (by decide))
  case bases =>
    split
    case isTrue => exact Code.neat_line (by simp)
    case isFalse =>
      refine (Code.neat_line (by decide)).append (.intercalate (by decide) ?_)
      exact List.forall_mem_map.mpr fun base hb => Code.neat_line (tidy.bases base hb)

theorem flush_headerCode : Row.Flush ⟨0, i.headerCode.first⟩ := by
  refine Code.flush_append (Code.flush_append (Code.flush_append ?_))
  cases i.exported <;> simp [Row.Flush, exportWord] <;> decide

-- Lines inside of object types are found in the bounds of parameters.
theorem deep_headerCode : i.headerCode.Deep ↔ ∃ p ∈ i.params, p.code.Deep := by
  by_cases hp : i.params = [] <;> by_cases hb : i.bases = [] <;>
    simp [headerCode, hp, hb, Code.deep_intercalate]

theorem forall_mem_rows {P : Placed → Prop} (header : ∀ r ∈ i.headerCode.rows, P (r.placed 0))
    (members : ∀ m ∈ i.members, ∀ r ∈ TypeExpr.memberRows m, P (r.placed 1)) (close : P (.outer "\x7d")) :
    ∀ p ∈ i.rows, P p := by
  simp only [rows, List.forall_mem_append, List.forall_mem_map, List.forall_mem_singleton]
  refine ⟨⟨header, fun r hr => ?_⟩, close⟩
  obtain ⟨m, hm, hr⟩ := List.mem_flatMap.mp hr
  exact members m hm r hr

theorem flush_rows (tidy : i.Tidy) : ∀ p ∈ i.rows, p.Flush :=
  forall_mem_rows (Code.flush_rows (neat_headerCode tidy) flush_headerCode)
    (fun m hm => TypeExpr.flush_memberRows (tidy.members m hm) (TypeExpr.neat_code (tidy.types m hm))) rfl

theorem unbroken_rows (tidy : i.Tidy) : ∀ p ∈ i.rows, '\n' ∉ p.text.toList :=
  forall_mem_rows (neat_headerCode tidy).unbroken
    (fun m hm => TypeExpr.unbroken_memberRows (tidy.members m hm) (TypeExpr.neat_code (tidy.types m hm)))
    (by decide)

theorem deep_rows_iff : (∃ p ∈ i.rows, p.depth ≠ 0) ↔ (Declaration.interface i).HasObject := by
  have params : (∃ r ∈ i.headerCode.rows, r.depth ≠ 0) ↔
      ∃ t ∈ i.params.flatMap fun p => p.bound.toList ++ p.fallback.toList, ∃ member, t.Shows member := by
    rw [exists_mem_flatMap]
    simp only [← TypeParam.deep_code_iff]
    exact deep_headerCode
  have members : (∃ r ∈ i.members.flatMap TypeExpr.memberRows, r.depth ≠ 0) ↔
      ∃ t ∈ i.members.map Property.type, ∃ member, t.Shows member := by
    simp only [exists_mem_flatMap, TypeExpr.deep_memberRows_iff]
    simp
  have split : (∃ p ∈ i.rows, p.depth ≠ 0) ↔ (∃ r ∈ i.headerCode.rows, r.depth ≠ 0) ∨
      ∃ r ∈ i.members.flatMap TypeExpr.memberRows, r.depth ≠ 0 := by
    simp [rows, or_and_right, exists_or, Row.placed, Placed.outer]
  rw [split, params, members]
  simp only [Declaration.HasObject, Declaration.types, List.mem_append, or_and_right, exists_or]

-- The text of the declaration has these lines.
theorem renderAll_fragments (tidy : i.Tidy) (indent : Indent) :
    Fragment.renderAll indent 0 i.fragments = Placed.joined indent i.rows := by
  have lines : i.members.flatMap (·.lines .default) =
      (i.members.flatMap TypeExpr.memberRows).map (Row.written .default) := by
    rw [List.map_flatMap]
    refine List.flatMap_congr fun m hm => ?_
    exact TypeExpr.renderMember_eq (tidy.members m hm) (TypeExpr.neat_code (tidy.types m hm))
      (TypeExpr.render_eq (tidy.types m hm) _)
  rw [fragments, lines, List.map_map, header_eq tidy]
  refine Placed.renderAll_block (Code.joined_rows (neat_headerCode tidy)) fun r hr => ?_
  obtain ⟨m, hm, hr⟩ := List.mem_flatMap.mp hr
  exact (TypeExpr.flush_memberRows (tidy.members m hm) (TypeExpr.neat_code (tidy.types m hm)) r hr).text_ne

end Interface

namespace EnumDecl

variable {e : EnumDecl} {m : String × String} {indent : Indent}

theorem exists_mem_separated {P : String → Prop} {lines : List String}
    (hp : ∀ line ∈ lines, P (line ++ ",") ↔ P line) :
    (∃ line ∈ separated lines, P line) ↔ ∃ line ∈ lines, P line := by
  induction lines
  case nil => rfl
  case cons line lines hi =>
    cases lines
    case nil => rfl
    case cons next rest =>
      obtain ⟨hl, hp⟩ := List.forall_mem_cons.mp hp
      simp only [separated, List.exists_mem_cons_iff, hl] at hi ⊢
      rw [hi hp]

-- A comma at the end of its line makes no difference for what is said of a member.
theorem exists_mem_bodyRows {P : String → Prop}
    (hp : ∀ m ∈ e.members, P (memberLine m ++ ",") ↔ P (memberLine m)) :
    (∃ r ∈ e.bodyRows, P r.text) ↔ ∃ m ∈ e.members, P (memberLine m) := by
  have lines := exists_mem_separated (List.forall_mem_map.mpr hp)
  simpa [bodyRows] using lines

theorem text_ne_of_mem_bodyRows {r : Row} (hr : r ∈ e.bodyRows) : r.text ≠ "" := by
  intro ht
  obtain ⟨m, hm, h⟩ := (exists_mem_bodyRows (P := (· = "")) (by simp [memberLine])).mp ⟨r, hr, ht⟩
  simp [memberLine] at h

theorem unbroken_of_mem_bodyRows (tidy : e.Tidy) {r : Row} (hr : r ∈ e.bodyRows) : '\n' ∉ r.text.toList := by
  intro ht
  obtain ⟨m, hm, h⟩ := (exists_mem_bodyRows (P := fun line => '\n' ∈ line.toList) (by simp)).mp ⟨r, hr, ht⟩
  simp [memberLine, tidy.key m hm, TypeExpr.unbroken_quote (tidy.value m hm)] at h

theorem depth_of_mem_bodyRows {r : Row} (hr : r ∈ e.bodyRows) : r.depth = 0 := by
  obtain ⟨line, _, rfl⟩ := List.mem_map.mp hr
  rfl

-- A line begins with the key, if there is one.
theorem flush_memberLine_iff (h : m.1.toList.head?.any Text.isBlank = false) :
    Row.Flush ⟨0, memberLine m⟩ ↔ m.1 ≠ "" := by
  cases hk : m.1.toList
  case nil =>
    refine iff_of_false ?_ (not_not.mpr (String.toList_eq_nil_iff.mp hk))
    simp [Row.Flush, memberLine, hk]
    decide
  case cons c cs =>
    refine iff_of_true ?_ fun h => by simp [h] at hk
    simpa [Row.Flush, memberLine, hk] using h

theorem exists_not_flush_iff (tidy : e.Tidy) : (∃ r ∈ e.bodyRows, ¬r.Flush) ↔ ∃ m ∈ e.members, m.1 = "" := by
  refine (exists_mem_bodyRows (P := fun line => ¬Row.Flush ⟨0, line⟩) fun m _ => ?_).trans ?_
  · exact not_congr (Row.flush_extend_iff (r := ⟨0, memberLine m⟩) (by simp [memberLine]) ",")
  · refine exists_congr fun m => and_congr_right fun hm => ?_
    rw [flush_memberLine_iff (tidy.start m hm), not_not]

theorem flush_header : (Placed.outer e.headerText).Flush := by
  cases hx : e.exported <;> simp [Row.Flush, Placed.outer, headerText, exportWord, hx] <;> decide

theorem stray_rows_iff (tidy : e.Tidy) : (∃ p ∈ e.rows, p.Stray) ↔ ∃ m ∈ e.members, m.1 = "" := by
  rw [← exists_not_flush_iff tidy]
  constructor
  · rintro ⟨p, hp, stray⟩
    rcases List.mem_append.mp hp with hp | hp
    · rcases List.mem_append.mp hp with hp | hp
      · exact absurd (List.mem_singleton.mp hp ▸ flush_header) stray.blank
      · obtain ⟨r, hr, rfl⟩ := List.mem_map.mp hp
        exact ⟨r, hr, stray.blank⟩
    · exact absurd (List.mem_singleton.mp hp ▸ rfl) stray.blank
  · rintro ⟨r, hr, blank⟩
    refine ⟨r.placed 1, ?_, depth_of_mem_bodyRows hr, text_ne_of_mem_bodyRows hr, blank⟩
    simpa [rows] using .inr (.inl ⟨r, hr, rfl⟩)

theorem forall_mem_rows {P : Placed → Prop} (header : P (.outer e.headerText))
    (members : ∀ r ∈ e.bodyRows, P (r.placed 1)) (close : P (.outer "\x7d")) : ∀ p ∈ e.rows, P p := by
  simp only [rows, List.forall_mem_append, List.forall_mem_map, List.forall_mem_singleton]
  exact ⟨⟨header, members⟩, close⟩

theorem flush_or_stray (p : Placed) (hp : p ∈ e.rows) : p.Flush ∨ p.Stray :=
  forall_mem_rows (P := fun p => p.Flush ∨ p.Stray) (.inl flush_header)
    (fun _ hr => Placed.flush_or_stray (depth_of_mem_bodyRows hr) (text_ne_of_mem_bodyRows hr)) (.inl rfl) p hp

theorem unbroken_rows (tidy : e.Tidy) : ∀ p ∈ e.rows, '\n' ∉ p.text.toList :=
  forall_mem_rows (by simp [Placed.outer, headerText, unbroken_exportWord, tidy.name])
    (fun _ hr => unbroken_of_mem_bodyRows tidy hr) (by decide)

theorem depth_rows : ∀ p ∈ e.rows, p.depth = 0 :=
  forall_mem_rows rfl (fun _ hr => depth_of_mem_bodyRows hr) rfl

theorem renderAll_fragments (indent : Indent) :
    Fragment.renderAll indent 0 e.fragments = Placed.joined indent e.rows := by
  have body : (separated (e.members.map memberLine)).map Fragment.line =
      e.bodyRows.map fun r => .line (r.written .default) := by
    simp [bodyRows, Row.written_of_zero]
  exact (congrArg (fun body => Fragment.renderAll indent 0 [.block e.headerText body (some "\x7d")]) body).trans
    (Placed.renderAll_block (Placed.joined_outer _) fun r hr => text_ne_of_mem_bodyRows hr)

end EnumDecl

namespace Alias

variable {a : Alias} {indent : Indent}

theorem neat_code (tidy : a.Tidy) : a.code.Neat := by
  have front : '\n' ∉ (exportWord a.exported ++ "type " ++ a.name ++ " = ").toList := by
    simp [unbroken_exportWord, tidy.name]
  exact ((Code.neat_line front).append (TypeExpr.neat_code tidy.type)).append (Code.neat_line (by decide))

theorem flush_code : Row.Flush ⟨0, a.code.first⟩ := by
  refine Code.flush_append (Code.flush_append ?_)
  cases a.exported <;> simp [Row.Flush, exportWord] <;> decide

theorem renderAll_fragments (tidy : a.Tidy) (indent : Indent) :
    Fragment.renderAll indent 0 a.fragments = Placed.joined indent (a.code.rows.map (·.placed 0)) := by
  have text : exportWord a.exported ++ "type " ++ a.name ++ " = " ++ a.type.render .default ++ ";" =
      a.code.text .default := by
    simp [code, Code.text_line, TypeExpr.render_eq tidy.type]
  rw [Code.joined_rows (neat_code tidy), ← text]
  exact a.renderAll_eq indent

end Alias

namespace Declaration

variable {d : Declaration}

theorem renderAll_fragments (tidy : d.Tidy) (indent : Indent) :
    Fragment.renderAll indent 0 d.fragments = Placed.joined indent d.rows := by
  cases d
  case interface => exact Interface.renderAll_fragments tidy indent
  case enum      => exact EnumDecl.renderAll_fragments indent
  case typeAlias => exact Alias.renderAll_fragments tidy indent

theorem unbroken_rows (tidy : d.Tidy) : ∀ p ∈ d.rows, '\n' ∉ p.text.toList := by
  cases d
  case interface => exact Interface.unbroken_rows tidy
  case enum      => exact EnumDecl.unbroken_rows tidy
  case typeAlias => exact List.forall_mem_map.mpr (Alias.neat_code tidy).unbroken

theorem flush_or_stray (tidy : d.Tidy) : ∀ p ∈ d.rows, p.Flush ∨ p.Stray := by
  cases d
  case interface => exact fun p hp => .inl (Interface.flush_rows tidy p hp)
  case enum      => exact EnumDecl.flush_or_stray
  case typeAlias =>
    exact List.forall_mem_map.mpr fun r hr => .inl (Code.flush_rows (Alias.neat_code tidy) Alias.flush_code r hr)

-- There are lines inside of types where these have members.
theorem deep_rows_iff : (∃ p ∈ d.rows, p.depth ≠ 0) ↔ d.HasObject := by
  cases d
  case interface => exact Interface.deep_rows_iff
  case enum e =>
    refine iff_of_false ?_ (by simp [HasObject, types])
    rintro ⟨p, hp, hd⟩
    exact hd (EnumDecl.depth_rows p hp)
  case typeAlias a =>
    have code : a.code.Deep ↔ a.type.code.Deep := by simp [Alias.code]
    have deep : (∃ p ∈ a.code.rows.map (·.placed 0), p.depth ≠ 0) ↔ a.code.Deep := by
      simp [Code.Deep, Row.placed]
    rw [rows, deep, code, TypeExpr.deep_code_iff]
    simp [HasObject, types]

-- A line begins with a blank where an enum has an empty key.
theorem stray_rows_iff (tidy : d.Tidy) : (∃ p ∈ d.rows, p.Stray) ↔ d.HasEmptyKey := by
  have none (flush : ∀ p ∈ d.rows, p.Flush) : ¬∃ p ∈ d.rows, p.Stray := by
    rintro ⟨p, hp, stray⟩
    exact stray.blank (flush p hp)
  cases d
  case interface => exact iff_of_false (none (Interface.flush_rows tidy)) not_false
  case enum      => exact EnumDecl.stray_rows_iff tidy
  case typeAlias =>
    refine iff_of_false (none ?_) not_false
    exact List.forall_mem_map.mpr (Code.flush_rows (Alias.neat_code tidy) Alias.flush_code)

end Declaration

end ProtoTypings
