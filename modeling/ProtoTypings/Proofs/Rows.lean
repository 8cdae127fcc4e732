import Mathlib
import ProtoTypings.Proofs.Members
import ProtoTypings.Proofs.Rendering

namespace ProtoTypings

theorem exists_mem_flatMap {α β : Type} {P : β → Prop} {f : α → List β} {l : List α} :
    (∃ b ∈ l.flatMap f, P b) ↔ ∃ a ∈ l, ∃ b ∈ f a, P b := by
  simp only [List.mem_flatMap]
  constructor
  · rintro ⟨b, ⟨a, ha, hb⟩, h⟩
    exact ⟨a, ha, b, hb, h⟩
  · rintro ⟨a, ha, b, hb, h⟩
    exact ⟨b, ⟨a, ha, hb⟩, h⟩

-- A line without indentation, and how many object types are open around it.
structure Row where
  depth : Nat := 0
  text : String

namespace Row

def deeper (r : Row) : Row :=
  { r with depth := r.depth + 1 }

-- The line goes on with more text.
def extend (r : Row) (text : String) : Row :=
  { r with text := r.text ++ text }

-- The line as it stands in code with the given indentation.
def written (indent : Indent) (r : Row) : String :=
  indent.nested r.depth ++ r.text

-- The text begins with a character, and not with a blank one.
def Flush (r : Row) : Prop :=
  r.text.toList.head?.any (!Text.isBlank ·) = true

variable {r : Row} {indent : Indent}

theorem written_of_zero (text : String) : (Row.mk 0 text).written indent = text := by
  simp [written, Indent.nested]

theorem written_deeper : r.deeper.written indent = indent.one ++ r.written indent := by
  simp [written, deeper, Indent.nested, Indent.one, List.replicate_succ, String.append_assoc]

theorem written_extend (text : String) : (r.extend text).written indent = r.written indent ++ text := by
  simp [written, extend, String.append_assoc]

theorem Flush.text_ne (h : r.Flush) : r.text ≠ "" := by
  intro ht
  simp [Flush, ht] at h

theorem flush_extend_iff (ht : r.text ≠ "") (text : String) : (r.extend text).Flush ↔ r.Flush := by
  cases hc : r.text.toList
  case nil       => exact absurd (String.toList_eq_nil_iff.mp hc) ht
  case cons c cs => simp [Flush, extend, hc]

theorem Flush.extend (h : r.Flush) (text : String) : (r.extend text).Flush :=
  (flush_extend_iff h.text_ne text).mpr h

end Row

-- A piece of code: what stands on the line where it begins, and the lines behind that one.
structure Code where
  first : String
  rest : List Row := []

namespace Code

variable {a b : Code} {indent : Indent} {r : Row} {rest : List Row}

def rows (a : Code) : List Row :=
  ⟨0, a.first⟩ :: a.rest

-- The given rows, the last of which goes on with another piece of code.
def glue (b : Code) (r : Row) : List Row → List Row
  | [] => r.extend b.first :: b.rest
  | s :: rest => r :: glue b s rest

def append (a b : Code) : Code :=
  match a.rest with
  | [] => ⟨a.first ++ b.first, b.rest⟩
  | r :: rest => ⟨a.first, b.glue r rest⟩

instance : Append Code := ⟨append⟩

def intercalate (separator : String) : List Code → Code
  | [] => ⟨"", []⟩
  | [a] => a
  | a :: b :: pieces => a ++ ⟨separator, []⟩ ++ intercalate separator (b :: pieces)

-- The text of the code, with its first line where it begins.
def text (indent : Indent) (a : Code) : String :=
  a.first ++ String.join (a.rest.map fun r => "\n" ++ r.written indent)

theorem line_append (first : String) : Code.mk first [] ++ b = ⟨first ++ b.first, b.rest⟩ :=
  rfl

theorem rows_append (first : String) : Code.mk first (r :: rest) ++ b = ⟨first, b.glue r rest⟩ :=
  rfl

theorem text_line (first : String) : (Code.mk first []).text indent = first := by
  simp [text]

theorem text_glue : String.join ((b.glue r rest).map fun r => "\n" ++ r.written indent) =
    String.join ((r :: rest).map fun r => "\n" ++ r.written indent) ++ b.text indent := by
  induction rest generalizing r
  case nil            => simp [glue, text, Row.written_extend, String.append_assoc]
  case cons s rest hi => simp [glue, hi, String.append_assoc]

@[simp]
theorem text_append : (a ++ b).text indent = a.text indent ++ b.text indent := by
  obtain ⟨first, rest⟩ := a
  cases rest
  case nil         => simp [line_append, text, String.append_assoc]
  case cons r rest =>
    rw [rows_append, text, text_glue, ← String.append_assoc]
    rfl

theorem text_intercalate (separator : String) (pieces : List Code) :
    (intercalate separator pieces).text indent = separator.intercalate (pieces.map (text indent)) := by
  induction pieces
  case nil => rfl
  case cons a pieces hi =>
    cases pieces
    case nil => simp [intercalate]
    case cons b pieces => simp [intercalate, hi, text_line]

theorem depths_glue : (b.glue r rest).map Row.depth = (r :: rest).map Row.depth ++ b.rest.map Row.depth := by
  induction rest generalizing r
  case nil            => rfl
  case cons s rest hi => simp [glue, hi]

-- The lines of both pieces are in the whole, at the same depths.
@[simp]
theorem depths_append : (a ++ b).rest.map Row.depth = a.rest.map Row.depth ++ b.rest.map Row.depth := by
  obtain ⟨first, rest⟩ := a
  cases rest
  case nil         => rfl
  case cons r rest => rw [rows_append, depths_glue]

theorem depths_intercalate (separator : String) (pieces : List Code) :
    (intercalate separator pieces).rest.map Row.depth = pieces.flatMap (·.rest.map Row.depth) := by
  induction pieces
  case nil => rfl
  case cons a pieces hi =>
    cases pieces
    case nil => simp [intercalate]
    case cons b pieces => simp [intercalate, hi]

-- Some line is inside of an object type.
def Deep (a : Code) : Prop :=
  ∃ r ∈ a.rows, r.depth ≠ 0

theorem deep_iff : a.Deep ↔ ∃ depth ∈ a.rest.map Row.depth, depth ≠ 0 := by
  simp [Deep, rows]

@[simp]
theorem not_deep_line (first : String) : ¬(Code.mk first []).Deep := by
  simp [Deep, rows]

@[simp]
theorem deep_append : (a ++ b).Deep ↔ a.Deep ∨ b.Deep := by
  simp only [deep_iff, depths_append, List.mem_append, or_and_right, exists_or]

theorem deep_intercalate {separator : String} {pieces : List Code} :
    (intercalate separator pieces).Deep ↔ ∃ a ∈ pieces, a.Deep := by
  simp only [deep_iff, depths_intercalate, exists_mem_flatMap]

theorem forall_mem_glue {P : Row → Prop} (extended : ∀ r, P r → P (r.extend b.first))
    (hr : ∀ s ∈ r :: rest, P s) (hb : ∀ s ∈ b.rest, P s) : ∀ s ∈ b.glue r rest, P s := by
  induction rest generalizing r
  case nil => exact List.forall_mem_cons.mpr ⟨extended r (hr r List.mem_cons_self), hb⟩
  case cons s rest hi =>
    obtain ⟨hr, hs⟩ := List.forall_mem_cons.mp hr
    exact List.forall_mem_cons.mpr ⟨hr, hi hs⟩

-- Lines are really lines, and all but the first one begin with something.
structure Neat (a : Code) : Prop where
  unbroken : ∀ r ∈ a.rows, '\n' ∉ r.text.toList
  flush : ∀ r ∈ a.rest, r.Flush

theorem neat_line {first : String} (h : '\n' ∉ first.toList) : (Code.mk first []).Neat :=
  ⟨List.forall_mem_singleton.mpr h, by simp⟩

theorem Neat.append (ha : a.Neat) (hb : b.Neat) : (a ++ b).Neat := by
  obtain ⟨first, rest⟩ := a
  obtain ⟨hf, hr⟩ := List.forall_mem_cons.mp ha.unbroken
  obtain ⟨hf', hr'⟩ := List.forall_mem_cons.mp hb.unbroken
  cases rest
  case nil =>
    rw [line_append]
    exact ⟨List.forall_mem_cons.mpr ⟨by simpa using ⟨hf, hf'⟩, hr'⟩, hb.flush⟩
  case cons r rest =>
    rw [rows_append]
    constructor
    case flush => exact forall_mem_glue (fun r h => h.extend _) ha.flush hb.flush
    case unbroken =>
      refine List.forall_mem_cons.mpr ⟨hf, forall_mem_glue (fun r h => ?_) hr hr'⟩
      simpa [Row.extend] using ⟨h, hf'⟩

theorem Neat.intercalate {separator : String} {pieces : List Code} (hs : '\n' ∉ separator.toList)
    (hp : ∀ a ∈ pieces, a.Neat) : (intercalate separator pieces).Neat := by
  induction pieces
  case nil => exact neat_line (by simp)
  case cons a pieces hi =>
    obtain ⟨ha, hp⟩ := List.forall_mem_cons.mp hp
    cases pieces
    case nil => exact ha
    case cons => exact (ha.append (neat_line hs)).append (hi hp)

theorem flush_append (h : Row.Flush ⟨0, a.first⟩) : Row.Flush ⟨0, (a ++ b).first⟩ := by
  obtain ⟨first, rest⟩ := a
  cases rest
  case nil         => exact h.extend b.first
  case cons r rest => exact h

theorem unbroken_nested (depth : Nat) : '\n' ∉ (indent.nested depth).toList := by
  intro h
  have blank := Indent.isIndent_of_mem_nested h
  revert blank
  decide

theorem cut_text (neat : a.Neat) : Text.cut '\n' (a.text indent) = a.rows.map (Row.written indent) := by
  have joined (line : String) (rest : List Row) :
      line ++ String.join (rest.map fun r => "\n" ++ r.written indent) =
        "\n".intercalate (line :: rest.map (Row.written indent)) := by
    induction rest generalizing line
    case nil            => simp
    case cons r rest hi => simp [← hi, String.append_assoc]
  rw [text, joined, ← Row.written_of_zero a.first, ← List.map_cons]
  refine Text.cut_intercalate rfl ?_ (by simp)
  refine List.forall_mem_map.mpr fun r hr => ?_
  simpa [Row.written] using ⟨unbroken_nested r.depth, neat.unbroken r hr⟩

end Code

namespace TypeExpr

mutual

def code : TypeExpr → Code
  | raw text => ⟨text, []⟩
  | reference name => ⟨name, []⟩
  | literal value => ⟨Identifier.quote value, []⟩
  | union [] => ⟨"never", []⟩
  | union (item :: items) => .intercalate " | " (itemCodes (item :: items))
  | array item =>
    if item.isUnion then ⟨"(", []⟩ ++ code item ++ ⟨")[]", []⟩ else code item ++ ⟨"[]", []⟩
  | record key value => ⟨"Record<", []⟩ ++ code key ++ ⟨", ", []⟩ ++ code value ++ ⟨">", []⟩
  | object [] => ⟨"\x7b\x7d", []⟩
  | object (member :: members) =>
    ⟨"\x7b", (membersRows (member :: members)).map Row.deeper ++ [⟨0, "\x7d"⟩]⟩

def itemCodes : List TypeExpr → List Code
  | [] => []
  | item :: items => code item :: itemCodes items

def membersRows : List (Property TypeExpr) → List Row
  | [] => []
  | member :: members => memberRows member ++ membersRows members

def memberRows : Property TypeExpr → List Row
  | ⟨name, type, isOptional, leading, trailing⟩ =>
    leading.map (fun comment => ⟨0, "// " ++ comment⟩) ++
      (⟨name ++ (if isOptional then "?" else "") ++ ": ", []⟩ ++ code type ++
        ⟨";" ++ (trailing.map (" // " ++ ·)).getD "", []⟩ : Code).rows

end

theorem itemCodes_eq (items : List TypeExpr) : itemCodes items = items.map code := by
  induction items
  case nil => rfl
  case cons item items hi => rw [itemCodes, hi, List.map_cons]

theorem membersRows_eq (members : List Member) : membersRows members = members.flatMap memberRows := by
  induction members
  case nil => rfl
  case cons member members hi => rw [membersRows, hi, List.flatMap_cons]

end TypeExpr

-- No text of a member, its type apart, has a line end, and its name does not begin with a blank.
structure Property.Tidy (m : Member) : Prop where
  name : '\n' ∉ m.name.toList
  start : m.name.toList.head?.any Text.isBlank = false
  leading : ∀ comment ∈ m.leading, '\n' ∉ comment.toList
  trailing : ∀ comment ∈ m.trailing, '\n' ∉ comment.toList

inductive TypeExpr.Tidy : TypeExpr → Prop
  | raw {text : String} : '\n' ∉ text.toList → Tidy (.raw text)
  | reference {name : String} : '\n' ∉ name.toList → Tidy (.reference name)
  | literal {value : String} : '\n' ∉ value.toList → Tidy (.literal value)
  | union {items : List TypeExpr} : (∀ t ∈ items, Tidy t) → Tidy (.union items)
  | array {item : TypeExpr} : Tidy item → Tidy (.array item)
  | record {key value : TypeExpr} : Tidy key → Tidy value → Tidy (.record key value)
  | object {members : List Member} : (∀ m ∈ members, m.Tidy) → (∀ m ∈ members, Tidy m.type) →
    Tidy (.object members)

namespace TypeExpr

variable {t : TypeExpr} {m : Member} {indent : Indent}

theorem unbroken_quote {value : String} (h : '\n' ∉ value.toList) : '\n' ∉ (Identifier.quote value).toList := by
  have escaped (cs : List Char) (h : '\n' ∉ cs) : '\n' ∉ Identifier.escape cs := by
    induction cs
    case nil => simp [Identifier.escape]
    case cons c cs hi =>
      obtain ⟨hc, h⟩ := not_or.mp (List.mem_cons.not.mp h)
      rw [Identifier.escape]
      split <;> simp [hc, hi h]
  simp [Identifier.quote, escaped _ h]

-- The piece of code that a member is, without the comments above it.
def memberCode (m : Member) : Code :=
  ⟨m.name ++ (if m.isOptional then "?" else "") ++ ": ", []⟩ ++ m.type.code ++
    ⟨";" ++ (m.trailing.map (" // " ++ ·)).getD "", []⟩

theorem memberRows_eq (m : Member) :
    memberRows m = m.leading.map (fun comment => ⟨0, "// " ++ comment⟩) ++ (memberCode m).rows := by
  cases m
  rw [memberRows, memberCode]

theorem neat_memberCode (tidy : m.Tidy) (neat : m.type.code.Neat) : (memberCode m).Neat := by
  have head : '\n' ∉ (m.name ++ (if m.isOptional then "?" else "") ++ ": ").toList := by
    cases m.isOptional <;> simp [tidy.name]
  have tail : '\n' ∉ (";" ++ (m.trailing.map (" // " ++ ·)).getD "").toList := by
    cases ht : m.trailing
    case none         => simp
    case some comment => simp [tidy.trailing comment ht]
  exact ((Code.neat_line head).append neat).append (Code.neat_line tail)

theorem flush_memberRows (tidy : m.Tidy) (neat : m.type.code.Neat) : ∀ r ∈ memberRows m, r.Flush := by
  have head : Row.Flush ⟨0, m.name ++ (if m.isOptional then "?" else "") ++ ": "⟩ := by
    rw [Row.Flush]
    cases hn : m.name.toList
    case nil       => cases m.isOptional <;> simp [hn] <;> decide
    case cons c cs => simpa [hn] using tidy.start
  rw [memberRows_eq, List.forall_mem_append]
  refine ⟨List.forall_mem_map.mpr fun comment _ => by simp [Row.Flush]; decide, ?_⟩
  exact List.forall_mem_cons.mpr ⟨Code.flush_append (Code.flush_append head), (neat_memberCode tidy neat).flush⟩

theorem unbroken_memberRows (tidy : m.Tidy) (neat : m.type.code.Neat) :
    ∀ r ∈ memberRows m, '\n' ∉ r.text.toList := by
  rw [memberRows_eq, List.forall_mem_append]
  refine ⟨List.forall_mem_map.mpr fun comment hc => ?_, (neat_memberCode tidy neat).unbroken⟩
  simpa using tidy.leading comment hc

theorem neat_code (tidy : t.Tidy) : t.code.Neat := by
  induction tidy
  case raw h       => rw [code]; exact Code.neat_line h
  case reference h => rw [code]; exact Code.neat_line h
  case literal h   => rw [code]; exact Code.neat_line (unbroken_quote h)
  case union items _ hi =>
    cases items
    case nil => rw [code]; exact Code.neat_line (by decide)
    case cons =>
      rw [code, itemCodes_eq]
      exact .intercalate (by decide) (List.forall_mem_map.mpr hi)
  case array item _ hi =>
    rw [code]
    split
    case isTrue  => exact ((Code.neat_line (by decide)).append hi).append (Code.neat_line (by decide))
    case isFalse => exact hi.append (Code.neat_line (by decide))
  case record key value _ _ hk hv =>
    rw [code]
    have front : (⟨"Record<", []⟩ ++ key.code : Code).Neat := (Code.neat_line (by decide)).append hk
    exact ((front.append (Code.neat_line (by decide))).append hv).append (Code.neat_line (by decide))
  case object members tidy _ hi =>
    cases hm : members
    case nil => rw [code]; exact Code.neat_line (by decide)
    case cons =>
      have rows : ∀ r ∈ members.flatMap memberRows, '\n' ∉ r.text.toList ∧ r.Flush := by
        intro r hr
        obtain ⟨m, hm, hr⟩ := List.mem_flatMap.mp hr
        exact ⟨unbroken_memberRows (tidy m hm) (hi m hm) r hr, flush_memberRows (tidy m hm) (hi m hm) r hr⟩
      rw [code, membersRows_eq, ← hm]
      constructor
      case unbroken =>
        refine List.forall_mem_cons.mpr ⟨by simp, List.forall_mem_append.mpr ⟨?_, ?_⟩⟩
        · exact List.forall_mem_map.mpr fun r hr => (rows r hr).left
        · exact List.forall_mem_singleton.mpr (by decide)
      case flush =>
        refine List.forall_mem_append.mpr ⟨?_, ?_⟩
        · exact List.forall_mem_map.mpr fun r hr => (rows r hr).right
        · exact List.forall_mem_singleton.mpr rfl

-- The lines of a member are its rows.
theorem renderMember_eq (tidy : m.Tidy) (neat : m.type.code.Neat)
    (h : m.type.render indent = m.type.code.text indent) :
    renderMember indent m = (memberRows m).map (Row.written indent) := by
  have text : m.name ++ (if m.isOptional then "?" else "") ++ ": " ++ m.type.render indent ++ ";" ++
      (m.trailing.map (" // " ++ ·)).getD "" = (memberCode m).text indent := by
    simp [memberCode, Code.text_line, h, String.append_assoc]
  rw [memberRows_eq, List.map_append, ← Code.cut_text (neat_memberCode tidy neat), ← text]
  cases m
  simp [renderMember, Row.written_of_zero, Function.comp_def]

theorem block_eq (indent : Indent) (rows : List Row) : block indent (rows.map (Row.written indent)) =
    (Code.mk "\x7b" (rows.map Row.deeper ++ [⟨0, "\x7d"⟩])).text indent := by
  have shifted : "\n" ++ String.join ((rows.map (Row.written indent)).map fun l => indent.one ++ l ++ "\n") =
      String.join ((rows.map Row.deeper).map fun r => "\n" ++ r.written indent) ++ "\n" := by
    induction rows
    case nil => rfl
    case cons r rows hi =>
      simp only [List.map_cons, String.join_cons, Row.written_deeper, String.append_assoc] at hi ⊢
      rw [hi]
  have opened : "\x7b\n" ++ String.join ((rows.map (Row.written indent)).map fun l => indent.one ++ l ++ "\n") =
      "\x7b" ++ (String.join ((rows.map Row.deeper).map fun r => "\n" ++ r.written indent) ++ "\n") := by
    rw [← shifted, ← String.append_assoc]
    rfl
  rw [block, opened, Code.text, List.map_append]
  simp [Row.written_of_zero, String.append_assoc]

theorem render_eq (tidy : t.Tidy) (indent : Indent) : t.render indent = t.code.text indent := by
  induction tidy
  case raw       => rw [render, code, Code.text_line]
  case reference => rw [render, code, Code.text_line]
  case literal   => rw [render, code, Code.text_line]
  case union items _ hi =>
    cases items
    case nil => rw [render, code, Code.text_line]
    case cons =>
      rw [render, renderItems_eq, code, itemCodes_eq, Code.text_intercalate, List.map_map]
      exact congrArg _ (List.map_congr_left hi)
  case array item _ hi =>
    rw [render, code]
    split <;> simp [hi, Code.text_line]
  case record key value _ _ hk hv => simp [render, code, hk, hv, Code.text_line]
  case object members tidy types hi =>
    cases hm : members
    case nil => rw [render, code, Code.text_line]
    case cons =>
      rw [render, renderMembers_eq, code, membersRows_eq, ← hm, ← block_eq, List.map_flatMap]
      refine congrArg _ (List.flatMap_congr fun m hm => ?_)
      exact renderMember_eq (tidy m hm) (neat_code (types m hm)) (hi m hm)

-- There are lines inside of object types where these have members.
theorem deep_code_iff : t.code.Deep ↔ ∃ member, t.Shows member := by
  induction t using TypeExpr.induction
  case raw       => simp [code]
  case reference => simp [code]
  case literal   => simp [code]
  case union items hi =>
    have shown : (∃ member, (union items).Shows member) ↔ ∃ t ∈ items, ∃ member, t.Shows member := by
      constructor
      · rintro ⟨member, h⟩
        cases h
        case union ht h => exact ⟨_, ht, member, h⟩
      · rintro ⟨t, ht, member, h⟩
        exact ⟨member, .union ht h⟩
    rw [shown]
    cases items
    case nil => simp [code]
    case cons item items =>
      have deep : (∃ a ∈ (item :: items).map code, a.Deep) ↔ ∃ t ∈ item :: items, t.code.Deep := by simp
      rw [code, itemCodes_eq, Code.deep_intercalate, deep]
      exact exists_congr fun t => and_congr_right (hi t)
  case array item hi =>
    simp only [code, shows_array_iff, ← hi]
    split <;> simp
  case record key value hk hv => simp [code, exists_or, ← hk, ← hv]
  case object members hi =>
    clear hi
    cases members
    case nil => simp [code]
    case cons member members =>
      refine iff_of_true ⟨Row.deeper ⟨0, (memberCode member).first⟩, ?_, Nat.succ_ne_zero _⟩ ⟨member, by simp⟩
      rw [code, membersRows_eq, List.flatMap_cons, memberRows_eq]
      simp [Code.rows]

theorem deep_memberRows_iff : (∃ r ∈ memberRows m, r.depth ≠ 0) ↔ ∃ member, m.type.Shows member := by
  have code : (∃ r ∈ (memberCode m).rows, r.depth ≠ 0) ↔ m.type.code.Deep := by
    change (memberCode m).Deep ↔ _
    simp [memberCode]
  rw [memberRows_eq, ← deep_code_iff, ← code]
  simp [or_and_right, exists_or]

end TypeExpr

end ProtoTypings
