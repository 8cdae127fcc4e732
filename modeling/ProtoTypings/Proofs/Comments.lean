import Mathlib
import ProtoTypings.Proofs.Members
import ProtoTypings.Proofs.Traced

namespace ProtoTypings

namespace TypeExpr

variable {indent : Indent} {member : Member}

mutual

-- The text of an expression, in which comments are told apart from code.
def traced (indent : Indent) : TypeExpr → Traced
  | raw text => .code text
  | reference name => .code name
  | literal value => .code (Identifier.quote value)
  | union [] => .code "never"
  | union (item :: items) => (Traced.code " | ").intercalate (tracedItems indent (item :: items))
  | array item =>
    if item.isUnion then .code "(" ++ traced indent item ++ .code ")[]" else traced indent item ++ .code "[]"
  | record key value =>
    .code "Record<" ++ traced indent key ++ .code ", " ++ traced indent value ++ .code ">"
  | object [] => .code "\x7b\x7d"
  | object (member :: members) =>
    .block (.code "\x7b") ((tracedMembers indent (member :: members)).map (.code indent.one ++ ·)) "\x7d"

def tracedItems (indent : Indent) : List TypeExpr → List Traced
  | [] => []
  | item :: items => traced indent item :: tracedItems indent items

def tracedMembers (indent : Indent) : List (Property TypeExpr) → List Traced
  | [] => []
  | member :: members => tracedMember indent member ++ tracedMembers indent members

def tracedMember (indent : Indent) : Property TypeExpr → List Traced
  | ⟨name, type, isOptional, leading, trailing⟩ =>
    leading.map (fun text => Traced.code "// " ++ Traced.comment text) ++
      (Traced.code (name ++ (if isOptional then "?" else "") ++ ": ") ++ traced indent type ++
        .code (";" ++ (trailing.map (" // " ++ ·)).getD "")).splitOnP (·.1 == '\n')

end

theorem tracedItems_eq (items : List TypeExpr) : tracedItems indent items = items.map (traced indent) := by
  induction items
  case nil => rfl
  case cons item items hi => rw [tracedItems, hi, List.map_cons]

theorem tracedMembers_eq (members : List Member) :
    tracedMembers indent members = members.flatMap (tracedMember indent) := by
  induction members
  case nil => rfl
  case cons member members hi => rw [tracedMembers, hi, List.flatMap_cons]

-- The rows of a member have the text of its lines, if its type has.
theorem chars_tracedMember {m : Member} (h : (m.type.traced indent).chars = (m.type.render indent).toList) :
    (tracedMember indent m).map Traced.chars = (renderMember indent m).map String.toList := by
  obtain ⟨name, type, isOptional, leading, trailing⟩ := m
  have cut (t : Traced) : (t.splitOnP (·.1 == '\n')).map Traced.chars = t.chars.splitOnP (· == '\n') :=
    (splitOnP_map Prod.fst (· == '\n') t).symm
  simp only [tracedMember, renderMember, List.map_append, List.map_map, cut, Text.cut, List.splitOn_eq_splitOnP]
  simp [Function.comp_def, h]

theorem chars_tracedMembers (indent : Indent) {members : List Member}
    (h : ∀ m ∈ members, (m.type.traced indent).chars = (m.type.render indent).toList) :
    (members.flatMap (tracedMember indent)).map Traced.chars =
      (members.flatMap (renderMember indent)).map String.toList := by
  rw [List.map_flatMap, List.map_flatMap]
  exact List.flatMap_congr fun m hm => chars_tracedMember (h m hm)

theorem chars_traced (t : TypeExpr) : (t.traced indent).chars = (t.render indent).toList := by
  induction t using TypeExpr.induction
  case raw       => simp [traced, render]
  case reference => simp [traced, render]
  case literal   => simp [traced, render]
  case union items hi =>
    cases items
    case nil => simp [traced, render]
    case cons item items =>
      rw [traced, render, tracedItems_eq, renderItems_eq, Traced.chars_intercalate, String.toList_intercalate,
        List.map_map, List.map_map]
      exact congrArg _ (List.map_congr_left hi)
  case array item hi =>
    rw [traced, render]
    split <;> simp [hi]
  case record key value hk hv => simp [traced, render, hk, hv]
  case object members hi =>
    cases members
    case nil => simp [traced, render]
    case cons member members =>
      have rows := Traced.map_chars_map (f := (.code indent.one ++ ·)) (g := (indent.one ++ ·))
        (chars_tracedMembers indent hi) (by simp +contextual)
      rw [traced, render, block, tracedMembers_eq, renderMembers_eq,
        Traced.chars_block (Traced.chars_code _) rows, List.map_map]
      rfl

end TypeExpr

namespace LineEnds

variable {ends : LineEnds}

-- The comments of all the given members are tame.
def AllTame (ends : LineEnds) (members : Member → Prop) : Prop :=
  ∀ member, members member → ∀ comment ∈ member.leading, ends.Tame comment

theorem allTame_congr {P Q : Member → Prop} (h : ∀ {member}, P member ↔ Q member) :
    ends.AllTame P ↔ ends.AllTame Q :=
  forall_congr' fun _ => imp_congr_left h

theorem allTame_or {P Q : Member → Prop} :
    ends.AllTame (fun member => P member ∨ Q member) ↔ ends.AllTame P ∧ ends.AllTame Q := by
  simp only [AllTame, or_imp, forall_and]

theorem allTame_exists {α : Type} {l : List α} {P : α → Member → Prop} :
    ends.AllTame (fun member => ∃ a ∈ l, P a member) ↔ ∀ a ∈ l, ends.AllTame (P a) :=
  ⟨fun h a ha member hm => h member ⟨a, ha, hm⟩, fun h member ⟨a, ha, hm⟩ => h a ha member hm⟩

theorem allTame_eq_or {m : Member} {P : Member → Prop} :
    ends.AllTame (fun member => m = member ∨ P member) ↔
      (∀ comment ∈ m.leading, ends.Tame comment) ∧ ends.AllTame P := by
  rw [allTame_or]
  simp [AllTame]

end LineEnds

namespace TypeExpr

open LineEnds (framed_code)

variable {ends : LineEnds} {indent : Indent} {member : Member}

theorem nests_iff {outer : Member} :
    Relation.ReflTransGen Property.Nests outer member ↔ outer = member ∨ outer.type.Holds member :=
  Relation.ReflTransGen.cases_head_iff

theorem holds_union_iff {items : List TypeExpr} :
    (union items).Holds member ↔ ∃ t ∈ items, t.Holds member := by
  constructor
  case mp =>
    rintro ⟨outer, shown, nested⟩
    cases shown
    case union ht shown => exact ⟨_, ht, outer, shown, nested⟩
  case mpr =>
    rintro ⟨t, ht, outer, shown, nested⟩
    exact ⟨outer, .union ht shown, nested⟩

theorem holds_array_iff {item : TypeExpr} : (array item).Holds member ↔ item.Holds member := by
  simp only [Holds, shows_array_iff]

theorem holds_record_iff {key value : TypeExpr} :
    (record key value).Holds member ↔ key.Holds member ∨ value.Holds member := by
  simp only [Holds, shows_record_iff, or_and_right, exists_or]

theorem holds_object_iff {members : List Member} :
    (object members).Holds member ↔ ∃ m ∈ members, m = member ∨ m.type.Holds member := by
  refine exists_congr fun m => ?_
  rw [shows_object_iff, nests_iff]

-- The comments of a member are above it, and those inside its type are shielded if the type's are.
theorem shielded_tracedMember {m : Member} {P : Prop} (h : ends.Framed (m.type.traced indent) P) :
    (∀ row ∈ tracedMember indent m, ends.Shielded row) ↔ (∀ comment ∈ m.leading, ends.Tame comment) ∧ P := by
  obtain ⟨name, type, isOptional, leading, trailing⟩ := m
  have declared := ((framed_code (name ++ (if isOptional then "?" else "") ++ ": ")).append h).append
    (framed_code (";" ++ (trailing.map (" // " ++ ·)).getD ""))
  rw [tracedMember, List.forall_mem_append, List.forall_mem_map, ← LineEnds.shielded_iff_forall_rows,
    declared.shielded]
  simp only [LineEnds.shielded_comment, true_and, and_true]

theorem shielded_tracedMembers {members : List Member}
    (h : ∀ m ∈ members, ends.Framed (m.type.traced indent) (ends.AllTame m.type.Holds)) :
    (∀ row ∈ members.flatMap (tracedMember indent), ends.Shielded row) ↔
      ends.AllTame fun member => ∃ m ∈ members, m = member ∨ m.type.Holds member := by
  rw [List.forall_mem_flatMap, LineEnds.allTame_exists]
  refine forall₂_congr fun m hm => ?_
  rw [shielded_tracedMember (h m hm), LineEnds.allTame_eq_or]

theorem framed_traced (t : TypeExpr) : ends.Framed (t.traced indent) (ends.AllTame t.Holds) := by
  induction t using TypeExpr.induction
  case raw       => exact (framed_code _).congr (by simp [LineEnds.AllTame, Holds])
  case reference => exact (framed_code _).congr (by simp [LineEnds.AllTame, Holds])
  case literal   => exact (framed_code _).congr (by simp [LineEnds.AllTame, Holds])
  case union items hi =>
    rw [LineEnds.allTame_congr holds_union_iff, LineEnds.allTame_exists]
    cases items
    case nil => exact (framed_code _).congr (by simp)
    case cons item items =>
      rw [traced, tracedItems_eq]
      exact LineEnds.Framed.intercalate _ hi
  case array item hi =>
    rw [LineEnds.allTame_congr holds_array_iff, traced]
    split
    case isTrue =>
      exact (((framed_code _).append hi).append (framed_code _)).congr (by simp)
    case isFalse => exact (hi.append (framed_code _)).congr (by simp)
  case record key value hk hv =>
    rw [LineEnds.allTame_congr holds_record_iff, LineEnds.allTame_or, traced]
    refine (((((framed_code _).append hk).append (framed_code _)).append hv).append
      (framed_code _)).congr ?_
    simp
  case object members hi =>
    rw [LineEnds.allTame_congr holds_object_iff]
    cases members
    case nil => exact (framed_code _).congr (by simp [LineEnds.AllTame])
    case cons member members =>
      rw [traced, tracedMembers_eq]
      refine ((framed_code _).block _ _).congr ?_
      simp only [true_and, List.forall_mem_map, LineEnds.shielded_indented fun _ => Indent.isIndent_of_mem_one]
      exact shielded_tracedMembers hi

end TypeExpr

-- A row with indentation, unless it is empty.
def Traced.indented (blanks : String) (row : Traced) : Traced :=
  if row.isEmpty then [] else .code blanks ++ row

def TypeParam.traced (p : TypeParam) : Traced :=
  Traced.code p.name ++ (p.bound.elim [] fun t => Traced.code " extends " ++ t.traced .default) ++
    (p.fallback.elim [] fun t => Traced.code " = " ++ t.traced .default)

namespace Interface

def tracedHeader (i : Interface) : Traced :=
  Traced.code (exportWord i.exported ++ "interface " ++ i.name) ++
    (if i.params.isEmpty then []
      else Traced.code "<" ++ (Traced.code ", ").intercalate (i.params.map TypeParam.traced) ++ Traced.code ">") ++
    Traced.code ((if i.bases.isEmpty then "" else " extends " ++ ", ".intercalate i.bases) ++ " \x7b")

def traced (i : Interface) : Traced :=
  .block i.tracedHeader ((i.members.flatMap (TypeExpr.tracedMember .default)).map
    (Traced.indented (Indent.default.nested 1))) "\x7d\n"

end Interface

namespace Declaration

def traced : Declaration → Traced
  | interface i => i.traced
  | enum e => .code (enum e).text
  | typeAlias a => .code (exportWord a.exported ++ "type " ++ a.name ++ " = ") ++ a.type.traced .default ++
    .code ";\n"

-- A member at any depth of a declaration.
def Holds : Declaration → Member → Prop
  | interface i, member => i.Holds member
  | enum _, _ => False
  | typeAlias a, member => a.type.Holds member

end Declaration

-- A file without exports.
def SourceFile.traced (f : SourceFile) : Traced :=
  (Traced.code "\n").intercalate (f.preface.map Traced.code ++ f.body.map Declaration.traced)

section Characters

theorem TypeParam.chars_traced (p : TypeParam) : p.traced.chars = p.render.toList := by
  rw [traced, render]
  cases p.bound <;> cases p.fallback <;> simp [TypeExpr.chars_traced]

theorem Interface.chars_tracedHeader (i : Interface) : i.tracedHeader.chars = i.header.toList := by
  have params : Traced.chars ((Traced.code ", ").intercalate (i.params.map TypeParam.traced)) =
      (", ".intercalate (i.params.map TypeParam.render)).toList := by
    rw [Traced.chars_intercalate, String.toList_intercalate, List.map_map, List.map_map]
    exact congrArg _ (List.map_congr_left fun p _ => p.chars_traced)
  rw [tracedHeader, header]
  split <;> simp [params]

theorem Traced.chars_indented (blanks : String) {line : String} {row : Traced} (h : row.chars = line.toList) :
    (row.indented blanks).chars = (if line = "" then "" else blanks ++ line).toList := by
  have empty : row.isEmpty = true ↔ line = "" := by
    rw [List.isEmpty_iff, ← List.map_eq_nil_iff (f := Prod.fst), ← chars, h, String.toList_eq_nil_iff]
  rw [indented]
  simp only [empty]
  split <;> simp [h]

theorem Interface.chars_traced (i : Interface) : i.traced.chars = (Declaration.interface i).text.toList := by
  have rows := Traced.map_chars_map
    (TypeExpr.chars_tracedMembers .default fun m (_ : m ∈ i.members) => m.type.chars_traced)
    fun _ _ => Traced.chars_indented (Indent.default.nested 1)
  have lineAt (line : String) : Fragment.lineAt .default 1 line =
      (if line = "" then "" else Indent.default.nested 1 ++ line) ++ "\n" := by
    rw [Fragment.lineAt]
    split <;> simp
  rw [traced, Traced.chars_block i.chars_tracedHeader rows, text_eq, List.map_map, funext lineAt]
  rfl

theorem Declaration.chars_traced (d : Declaration) : d.traced.chars = d.text.toList := by
  cases d
  case interface i => exact i.chars_traced
  case enum        => exact Traced.chars_code _
  case typeAlias a => simp [traced, Alias.text_eq, TypeExpr.chars_traced]

theorem SourceFile.chars_traced {f : SourceFile} (he : f.exports = []) :
    f.traced.chars = (f.render .default).toList := by
  rw [traced, Traced.chars_intercalate, render_of_no_exports he, String.toList_intercalate]
  simp [Declaration.chars_traced, Function.comp_def]

end Characters

section Frames

open LineEnds (framed_code)

variable {ends : LineEnds}

theorem TypeParam.framed_traced (p : TypeParam) : ends.Framed p.traced (ends.AllTame fun member =>
    ∃ t, (p.bound = some t ∨ p.fallback = some t) ∧ t.Holds member) := by
  have part (word : String) (t? : Option TypeExpr) :
      ends.Framed (t?.elim [] fun t => Traced.code word ++ t.traced .default)
        (ends.AllTame fun member => ∃ t, t? = some t ∧ t.Holds member) := by
    cases t?
    case none   => exact (framed_code "").congr (by simp [LineEnds.AllTame])
    case some t => exact ((framed_code word).append t.framed_traced).congr (by simp)
  simp only [or_and_right, exists_or, LineEnds.allTame_or]
  exact (((framed_code p.name).append (part _ p.bound)).append (part _ p.fallback)).congr (by simp)

theorem Interface.framed_tracedHeader (i : Interface) : ends.Framed i.tracedHeader (ends.AllTame fun member =>
    ∃ param ∈ i.params, ∃ t, (param.bound = some t ∨ param.fallback = some t) ∧ t.Holds member) := by
  have params : ends.Framed (if i.params.isEmpty then [] else
      Traced.code "<" ++ (Traced.code ", ").intercalate (i.params.map TypeParam.traced) ++ Traced.code ">")
      (ends.AllTame fun member =>
        ∃ param ∈ i.params, ∃ t, (param.bound = some t ∨ param.fallback = some t) ∧ t.Holds member) := by
    rw [LineEnds.allTame_exists]
    split
    case isTrue he =>
      refine (framed_code "").congr ?_
      simp [List.isEmpty_iff.mp he]
    case isFalse =>
      refine (((framed_code "<").append (.intercalate ", " fun p _ => p.framed_traced)).append
        (framed_code ">")).congr ?_
      simp
  exact (((framed_code _).append params).append (framed_code _)).congr (by simp)

theorem Interface.framed_traced (i : Interface) : ends.Framed i.traced (ends.AllTame i.Holds) := by
  have indented (row : Traced) :
      ends.Shielded (row.indented (Indent.default.nested 1)) ↔ ends.Shielded row := by
    rw [Traced.indented]
    split
    case isTrue he => rw [List.isEmpty_iff.mp he]
    case isFalse   => exact LineEnds.shielded_indented fun _ => Indent.isIndent_of_mem_nested
  refine (i.framed_tracedHeader.block _ _).congr ?_
  simp only [List.forall_mem_map, indented]
  rw [TypeExpr.shielded_tracedMembers fun m _ => m.type.framed_traced, ← LineEnds.allTame_or]
  refine LineEnds.allTame_congr fun {member} => ?_
  simp only [Holds, TypeExpr.nests_iff, or_comm]

theorem Declaration.framed_traced (d : Declaration) : ends.Framed d.traced (ends.AllTame d.Holds) := by
  cases d
  case interface i => exact i.framed_traced
  case enum e      => exact (framed_code _).congr (by simp [LineEnds.AllTame, Holds])
  case typeAlias a =>
    exact (((framed_code _).append a.type.framed_traced).append (framed_code _)).congr
      (by simp; rfl)

theorem SourceFile.shielded_traced (f : SourceFile) :
    ends.Shielded f.traced ↔ ends.AllTame fun member => ∃ d ∈ f.body, d.Holds member := by
  have sections : ∀ t ∈ f.preface.map Traced.code ++ f.body.map Declaration.traced,
      ends.Framed t (ends.Shielded t) := by
    rw [List.forall_mem_append, List.forall_mem_map, List.forall_mem_map]
    exact ⟨fun text _ => (framed_code text).self, fun d _ => d.framed_traced.self⟩
  have whole := LineEnds.Framed.intercalate (f := id) "\n" sections
  rw [List.map_id] at whole
  rw [LineEnds.allTame_exists, traced, whole.shielded, List.forall_mem_append, List.forall_mem_map,
    List.forall_mem_map]
  simp only [(framed_code _).shielded, (Declaration.framed_traced _).shielded, implies_true, true_and]

end Frames

namespace Generation

variable {ends : LineEnds} {run : Generation} {r : Registry} {path : String} {body : List Declaration}

-- The text of a generated file with the origin of its characters.
def tracedFile (run : Generation) (r : Registry) (path : String) (body : List Declaration) : Traced :=
  (run.sourceFile path (run.draftOf r path).uses body).traced

theorem chars_tracedFile : (run.tracedFile r path body).chars = (run.contentOf r path body).toList :=
  SourceFile.chars_traced rfl

-- All members of a file are inside of its interfaces.
theorem Declares.holds_iff (h : run.Declares r path body) {member : Member} :
    (∃ d ∈ body, d.Holds member) ↔ ∃ i, .interface i ∈ body ∧ i.Holds member := by
  constructor
  case mp =>
    rintro ⟨d, hd, held⟩
    obtain ⟨j, hj⟩ := List.mem_iff_getElem?.mp hd
    obtain ⟨_, _, declared⟩ := exists_of_forall₂ h.declared.flip hj
    cases declared
    case interface => exact ⟨_, hd, held⟩
    case enum      => contradiction
    case union     => simp [Declaration.Holds, TypeExpr.Holds] at held
  case mpr =>
    rintro ⟨i, hi, held⟩
    exact ⟨.interface i, hi, held⟩

theorem shielded_tracedFile (declares : run.Declares r path body) (all : run.DeclaresAll r path body) :
    ends.Shielded (run.tracedFile r path body) ↔
      ∀ direct f member, run.Emitted r path body direct f member →
        (∀ mark ∈ ((run.mapping r path).oneofMarks f.1 f.2).1, ends.Tame mark) ∧
          (direct = true → ∀ comment ∈ run.typeComment? f.1, ends.Tame comment) := by
  have held {member : Member} : (∃ d ∈ body, d.Holds member) ↔
      ∃ direct f, run.Emitted r path body direct f member :=
    declares.holds_iff.trans (holds_iff_emitted all)
  have leading {direct : Bool} {f : NodeId × Field} {member : Member}
      (emitted : run.Emitted r path body direct f member) :
      (∀ comment ∈ member.leading, ends.Tame comment) ↔
        (∀ mark ∈ ((run.mapping r path).oneofMarks f.1 f.2).1, ends.Tame mark) ∧
          (direct = true → ∀ comment ∈ run.typeComment? f.1, ends.Tame comment) := by
    rw [(emitted.standsFor all).leading, List.forall_mem_append]
    cases direct <;> simp
  rw [tracedFile, SourceFile.shielded_traced]
  refine (LineEnds.allTame_congr held).trans ⟨fun h direct f member emitted => ?_, ?_⟩
  · exact (leading emitted).mp (h member ⟨direct, f, emitted⟩)
  · rintro h member ⟨direct, f, emitted⟩
    exact (leading emitted).mpr (h direct f member emitted)

theorem declares_of_draftOf (plain : run.hooks.Plain) (hb : Registry.build run.graph run.settings = .ok r)
    (drafted : (run.draftOf r path).result = .ok body) : run.Declares r path body := by
  obtain ⟨_, declares⟩ := exists_declares plain hb path
  cases declares.drafted.symm.trans drafted
  exact declares

theorem comments_contained_iff (ends : LineEnds) (run : Generation) {r : Registry} (hooks : run.hooks = .none)
    (hb : Registry.build run.graph run.settings = .ok r) :
    (∀ i : Interface, i.traced.chars = (Declaration.interface i).text.toList ∧
      (ends.Shielded i.traced ↔
        ∀ member, i.Holds member → ∀ comment ∈ member.leading, ends.Tame comment)) ∧
    ∃ bodyOf : String → List Declaration,
      run.files.result = .ok (r.files.map (fun path =>
        ⟨OutputPath.under run.settings.outputPath path, run.contentOf r path (bodyOf path)⟩) ++
        run.indexFile r.files) ∧
      ∀ path ∈ r.files, (run.draftOf r path).result = .ok (bodyOf path) ∧
        (run.tracedFile r path (bodyOf path)).chars = (run.contentOf r path (bodyOf path)).toList ∧
        (ends.Shielded (run.tracedFile r path (bodyOf path)) ↔
          ∀ direct f member, run.Emitted r path (bodyOf path) direct f member →
            (∀ mark ∈ ((run.mapping r path).oneofMarks f.1 f.2).1, ends.Tame mark) ∧
              (direct = true → ∀ comment ∈ run.typeComment? f.1, ends.Tame comment)) := by
  refine ⟨fun i => ⟨i.chars_traced, i.framed_traced.shielded⟩, ?_⟩
  obtain ⟨bodyOf, drafted, files⟩ := files_result hooks hb
  refine ⟨bodyOf, files, fun path _ => ⟨drafted path, chars_tracedFile, ?_⟩⟩
  exact shielded_tracedFile (declares_of_draftOf (.of_none hooks) hb (drafted path))
    (declaresAll_of_draftOf (.of_none hooks) hb (drafted path))

theorem visits_tame : ∀ id < 7, (∀ field ∈ visits.graph.field? id, field.oneof = none) ∧
    ∀ comment ∈ visits.typeComment? id, LineEnds.typescript.Tame comment := by
  decide +kernel

theorem comments_contained_iff_visits : Registry.build visits.graph visits.settings = .ok visitsRegistry ∧
    ∃ body, (visits.draftOf visitsRegistry "shop.ts").result = .ok body ∧
      LineEnds.typescript.Shielded (visits.tracedFile visitsRegistry "shop.ts" body) := by
  obtain ⟨_, bodyOf, _, h⟩ := comments_contained_iff .typescript visits rfl visits_build
  obtain ⟨drafted, _, contained⟩ := h "shop.ts" (by decide +kernel)
  have all := declaresAll_of_draftOf ⟨rfl, rfl⟩ visits_build drafted
  refine ⟨visits_build, bodyOf "shop.ts", drafted, contained.mpr fun direct f member emitted => ?_⟩
  have field := (emitted.standsFor all).field
  obtain ⟨oneof, tame⟩ := visits_tame f.1 (Graph.lt_size_of_field? field)
  refine ⟨?_, fun _ => tame⟩
  simp [Mapping.oneofMarks, oneof f.2 field]

-- The same messages with any comment for times.
def visitsWith (comment : String) : Generation :=
  { visits with settings := { comments := [("google.protobuf.Timestamp", comment)] } }

theorem visitsWith_build (comment : String) :
    Registry.build (visitsWith comment).graph (visitsWith comment).settings = .ok visitsRegistry :=
  rfl

theorem visitsWith_not_shielded {comment : String} (hc : ¬ends.Tame comment) :
    ∃ body, ((visitsWith comment).draftOf visitsRegistry "shop.ts").result = .ok body ∧
      ¬ends.Shielded ((visitsWith comment).tracedFile visitsRegistry "shop.ts" body) := by
  obtain ⟨bodyOf, drafted, _⟩ := files_result rfl (visitsWith_build comment)
  have declares := declares_of_draftOf ⟨rfl, rfl⟩ (visitsWith_build comment) (drafted "shop.ts")
  have all := declaresAll_of_draftOf ⟨rfl, rfl⟩ (visitsWith_build comment) (drafted "shop.ts")
  obtain ⟨member, emitted⟩ := exists_emitted (j := 0) (k := 0) (f := (3, timestamp)) all rfl rfl rfl
  refine ⟨bodyOf "shop.ts", drafted "shop.ts", fun shielded => hc ?_⟩
  exact ((shielded_tracedFile declares all).mp shielded _ _ _ emitted).right rfl comment rfl

-- The second line of the comment is a property.
theorem comments_leak :
    (visitsWith "format: date-time\nadmin: true;").settings.problem? = none ∧
    (∃ body, ((visitsWith "format: date-time\nadmin: true;").draftOf visitsRegistry "shop.ts").result = .ok body ∧
      ¬LineEnds.feeds.Shielded
        ((visitsWith "format: date-time\nadmin: true;").tracedFile visitsRegistry "shop.ts" body)) ∧
    (visitsWith "format: date-time\nadmin: true;").files.result.toOption.map (·.map GeneratedFile.content) = some [
      "export interface ShopCart \x7b\n    // format: date-time\nadmin: true;\n    opened?: string;\n" ++
        "    entry?: \x7b\n        added?: string;\n    \x7d;\n\x7d\n",
      "export * from './shop';\n"] ∧
    (visitsWith "format: date-time\radmin: true;").settings.problem? = none ∧
    ∃ body, ((visitsWith "format: date-time\radmin: true;").draftOf visitsRegistry "shop.ts").result = .ok body ∧
      ¬LineEnds.typescript.Shielded
        ((visitsWith "format: date-time\radmin: true;").tracedFile visitsRegistry "shop.ts" body) := by
  refine ⟨by decide +kernel, visitsWith_not_shielded (by decide +kernel), by decide +kernel, by decide +kernel,
    visitsWith_not_shielded (by decide +kernel)⟩

end Generation

end ProtoTypings
