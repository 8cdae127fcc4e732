import Mathlib
import ProtoTypings.Proofs.Identifier
import ProtoTypings.Proofs.Mentions
import ProtoTypings.Proofs.Rendering

namespace ProtoTypings

theorem Indent.wordless_one (indent : Indent) : Identifier.Wordless indent.one := by
  refine Identifier.wordless_iff.mpr fun c hc => ?_
  have blank := isIndent_of_mem_one hc
  simp only [isIndent, Bool.or_eq_true, beq_iff_eq] at blank
  rcases blank with rfl | rfl <;> rfl

-- What a word in the text of a type stands for.
inductive Role where
  -- a name that the type mentions
  | name
  -- a word of the language
  | keyword
  -- the name of a member, or a piece of it
  | key
  -- a piece of a literal
  | quoted
  -- a piece of a comment
  | comment
  deriving DecidableEq, Repr

-- A word as it is printed.
structure Printed where
  role : Role
  word : String
  deriving DecidableEq, Repr

-- The words of a text that stands for one thing.
def Role.words (role : Role) (text : String) : List Printed :=
  (Identifier.inText text).map (⟨role, ·⟩)

-- The words that stand for names.
def Printed.names (words : List Printed) : List String :=
  (words.filter (·.role = .name)).map Printed.word

namespace TypeExpr

mutual

-- The words in the text of an expression, in their order.
def words : TypeExpr → List Printed
  | raw text => Role.name.words text
  | reference name => Role.name.words name
  | literal value => Role.quoted.words value
  | union [] => [⟨.keyword, "never"⟩]
  | union (item :: items) => itemWords (item :: items)
  | array item => words item
  | record key value => ⟨.keyword, "Record"⟩ :: (words key ++ words value)
  | object members => membersWords members

def itemWords : List TypeExpr → List Printed
  | [] => []
  | item :: items => words item ++ itemWords items

def membersWords : List (Property TypeExpr) → List Printed
  | [] => []
  | member :: members => memberWords member ++ membersWords members

def memberWords : Property TypeExpr → List Printed
  | ⟨name, type, _, leading, trailing⟩ =>
    leading.flatMap Role.comment.words ++ Role.key.words name ++ words type ++
      trailing.toList.flatMap Role.comment.words

end

end TypeExpr

namespace Role

variable {role : Role}

@[simp]
theorem map_words (text : String) : (role.words text).map Printed.word = Identifier.inText text := by
  simp [words, Function.comp_def]

@[simp]
theorem names_words (text : String) :
    Printed.names (role.words text) = if role = .name then Identifier.inText text else [] := by
  by_cases h : role = .name <;> simp [Printed.names, words, List.filter_map, Function.comp_def, h]

end Role

namespace Printed

@[simp]
theorem names_append (front back : List Printed) : names (front ++ back) = names front ++ names back := by
  simp [names]

@[simp]
theorem names_flatMap {α : Type} (f : α → List Printed) (l : List α) :
    names (l.flatMap f) = l.flatMap fun a => names (f a) := by
  induction l
  case nil => rfl
  case cons a l hi => rw [List.flatMap_cons, names_append, hi, List.flatMap_cons]

theorem mem_names_iff {words : List Printed} {name : String} : name ∈ names words ↔ ⟨.name, name⟩ ∈ words := by
  simp only [names, List.mem_map, List.mem_filter, decide_eq_true_eq]
  constructor
  · rintro ⟨⟨role, word⟩, ⟨h, rfl⟩, rfl⟩
    exact h
  · exact fun h => ⟨_, ⟨h, rfl⟩, rfl⟩

end Printed

namespace TypeExpr

variable {indent : Indent}

theorem itemWords_eq (items : List TypeExpr) : itemWords items = items.flatMap words := by
  induction items
  case nil => rfl
  case cons item items hi => rw [itemWords, hi, List.flatMap_cons]

theorem membersWords_eq (members : List Member) : membersWords members = members.flatMap memberWords := by
  induction members
  case nil => rfl
  case cons member members hi => rw [membersWords, hi, List.flatMap_cons]

theorem memberWords_eq (m : Member) : memberWords m = m.leading.flatMap Role.comment.words ++
    Role.key.words m.name ++ m.type.words ++ m.trailing.toList.flatMap Role.comment.words := by
  cases m
  rw [memberWords]

theorem inText_block (lines : List String) :
    Identifier.inText (block indent lines) = lines.flatMap Identifier.inText := by
  have joined : Identifier.inText (String.join (lines.map fun l => indent.one ++ l ++ "\n")) =
      lines.flatMap Identifier.inText := by
    induction lines
    case nil => rfl
    case cons line lines hi =>
      rw [List.map_cons, String.join_cons, Identifier.inText_between "\n" rfl (by decide), hi,
        Identifier.inText_wordless_append _ indent.wordless_one, List.flatMap_cons]
  rw [block, Identifier.inText_append_wordless "\x7d" rfl, Identifier.inText_wordless_append "\x7b\n" rfl, joined]

theorem inText_renderMember {m : Member}
    (h : Identifier.inText (m.type.render indent) = m.type.words.map Printed.word) :
    (renderMember indent m).flatMap Identifier.inText = (memberWords m).map Printed.word := by
  obtain ⟨name, type, isOptional, leading, trailing⟩ := m
  have comments : (leading.map ("// " ++ ·)).flatMap Identifier.inText =
      (leading.flatMap Role.comment.words).map Printed.word := by
    rw [List.flatMap_map, List.map_flatMap]
    exact List.flatMap_congr fun comment _ => by rw [Identifier.inText_wordless_append "// " rfl, Role.map_words]
  have key (text : String) : Identifier.inText (name ++ (if isOptional then "?" else "") ++ ": " ++ text) =
      Identifier.inText name ++ Identifier.inText text := by
    rw [Identifier.inText_between ": " rfl (by decide), Identifier.inText_append_wordless]
    split <;> rfl
  have behind : Identifier.inText ((trailing.map (" // " ++ ·)).getD "") =
      (trailing.toList.flatMap Role.comment.words).map Printed.word := by
    cases trailing
    case none         => rfl
    case some comment => simp [Identifier.inText_wordless_append " // " rfl]
  rw [renderMember, memberWords, List.flatMap_append, comments, Identifier.inText_lines,
    Identifier.inText_between ";" rfl (by decide), key, behind, h]
  simp

-- The text of an expression has just its words: nothing in it is split, and nothing runs together.
theorem inText_render (t : TypeExpr) : Identifier.inText (t.render indent) = t.words.map Printed.word := by
  induction t using TypeExpr.induction
  case raw text       => rw [render, words, Role.map_words]
  case reference name => rw [render, words, Role.map_words]
  case literal value  => rw [render, words, Role.map_words, Identifier.inText_quote]
  case union items hi =>
    cases items
    case nil => rw [render, words]; decide
    case cons item items =>
      rw [render, words, renderItems_eq, itemWords_eq, Identifier.inText_intercalate " | " rfl (by decide),
        List.map_flatMap, List.flatMap_map]
      exact List.flatMap_congr hi
  case array item hi =>
    rw [render, words, ← hi]
    split
    case isTrue =>
      rw [Identifier.inText_append_wordless ")[]" rfl, Identifier.inText_wordless_append "(" rfl]
    case isFalse => rw [Identifier.inText_append_wordless "[]" rfl]
  case record key value hk hv =>
    rw [render, words, Identifier.inText_append_wordless ">" rfl, Identifier.inText_between ", " rfl (by decide),
      List.map_cons, List.map_append, ← hk, ← hv]
    exact congrArg (· ++ _) (Identifier.inText_between "<" rfl (by decide) "Record" _)
  case object members hi =>
    have lines : (renderMembers indent members).flatMap Identifier.inText =
        (membersWords members).map Printed.word := by
      rw [renderMembers_eq, membersWords_eq, List.flatMap_assoc, List.map_flatMap]
      exact List.flatMap_congr fun m hm => inText_renderMember (hi m hm)
    cases members
    case nil => rw [render]; decide
    case cons member members => rw [render, words, inText_block, lines]

-- An expression inside of another one, at any depth.
inductive Has : TypeExpr → TypeExpr → Prop
  | self {t : TypeExpr} : Has t t
  | union {items : List TypeExpr} {t u : TypeExpr} : t ∈ items → Has t u → Has (.union items) u
  | array {t u : TypeExpr} : Has t u → Has (.array t) u
  | key {k v u : TypeExpr} : Has k u → Has (.record k v) u
  | value {k v u : TypeExpr} : Has v u → Has (.record k v) u
  | object {members : List Member} {m : Member} {u : TypeExpr} :
    m ∈ members → Has m.type u → Has (.object members) u

section Has

variable {u : TypeExpr}

@[simp]
theorem has_raw_iff {text : String} : (raw text).Has u ↔ u = raw text :=
  ⟨fun | .self => rfl, fun h => h ▸ .self⟩

@[simp]
theorem has_reference_iff {name : String} : (reference name).Has u ↔ u = reference name :=
  ⟨fun | .self => rfl, fun h => h ▸ .self⟩

@[simp]
theorem has_literal_iff {value : String} : (literal value).Has u ↔ u = literal value :=
  ⟨fun | .self => rfl, fun h => h ▸ .self⟩

@[simp]
theorem has_union_iff {items : List TypeExpr} :
    (union items).Has u ↔ u = union items ∨ ∃ t ∈ items, t.Has u :=
  ⟨fun | .self => .inl rfl | .union hm h => .inr ⟨_, hm, h⟩,
    fun | .inl h => h ▸ .self | .inr ⟨_, hm, h⟩ => .union hm h⟩

@[simp]
theorem has_array_iff {t : TypeExpr} : (array t).Has u ↔ u = array t ∨ t.Has u :=
  ⟨fun | .self => .inl rfl | .array h => .inr h, fun | .inl h => h ▸ .self | .inr h => .array h⟩

@[simp]
theorem has_record_iff {k v : TypeExpr} : (record k v).Has u ↔ u = record k v ∨ k.Has u ∨ v.Has u :=
  ⟨fun | .self => .inl rfl | .key h => .inr (.inl h) | .value h => .inr (.inr h),
    fun | .inl h => h ▸ .self | .inr (.inl h) => .key h | .inr (.inr h) => .value h⟩

@[simp]
theorem has_object_iff {members : List Member} :
    (object members).Has u ↔ u = object members ∨ ∃ m ∈ members, m.type.Has u :=
  ⟨fun | .self => .inl rfl | .object hm h => .inr ⟨_, hm, h⟩,
    fun | .inl h => h ▸ .self | .inr ⟨_, hm, h⟩ => .object hm h⟩

end Has

-- A word that an expression has itself, and not inside of another expression in it.
inductive Prints : TypeExpr → Printed → Prop
  | raw {text word : String} : word ∈ Identifier.inText text → Prints (.raw text) ⟨.name, word⟩
  | reference {name word : String} : word ∈ Identifier.inText name → Prints (.reference name) ⟨.name, word⟩
  | literal {value word : String} : word ∈ Identifier.inText value → Prints (.literal value) ⟨.quoted, word⟩
  | never : Prints (.union []) ⟨.keyword, "never"⟩
  | record {k v : TypeExpr} : Prints (.record k v) ⟨.keyword, "Record"⟩
  | member {members : List Member} {m : Member} {word : String} :
    m ∈ members → word ∈ Identifier.inText m.name → Prints (.object members) ⟨.key, word⟩
  | comment {members : List Member} {m : Member} {text word : String} :
    m ∈ members → text ∈ m.leading ∨ text ∈ m.trailing → word ∈ Identifier.inText text →
    Prints (.object members) ⟨.comment, word⟩

variable {t : TypeExpr} {w : Printed}

theorem exists_prints_of_mem_words (h : w ∈ t.words) : ∃ u, t.Has u ∧ u.Prints w := by
  induction t using TypeExpr.induction
  case raw text =>
    obtain ⟨word, hw, rfl⟩ := List.mem_map.mp h
    exact ⟨_, .self, .raw hw⟩
  case reference name =>
    obtain ⟨word, hw, rfl⟩ := List.mem_map.mp h
    exact ⟨_, .self, .reference hw⟩
  case literal value =>
    obtain ⟨word, hw, rfl⟩ := List.mem_map.mp h
    exact ⟨_, .self, .literal hw⟩
  case union items hi =>
    cases items
    case nil =>
      rw [words, List.mem_singleton] at h
      exact ⟨_, .self, h ▸ .never⟩
    case cons =>
      rw [words, itemWords_eq] at h
      obtain ⟨item, hm, h⟩ := List.mem_flatMap.mp h
      obtain ⟨u, hu, hp⟩ := hi item hm h
      exact ⟨u, .union hm hu, hp⟩
  case array item hi =>
    rw [words] at h
    obtain ⟨u, hu, hp⟩ := hi h
    exact ⟨u, .array hu, hp⟩
  case record key value hk hv =>
    rw [words, List.mem_cons, List.mem_append] at h
    rcases h with rfl | h | h
    · exact ⟨_, .self, .record⟩
    · obtain ⟨u, hu, hp⟩ := hk h
      exact ⟨u, .key hu, hp⟩
    · obtain ⟨u, hu, hp⟩ := hv h
      exact ⟨u, .value hu, hp⟩
  case object members hi =>
    rw [words, membersWords_eq] at h
    obtain ⟨m, hm, h⟩ := List.mem_flatMap.mp h
    simp only [memberWords_eq, List.mem_append, List.mem_flatMap] at h
    rcases h with ((⟨text, ht, h⟩ | h) | h) | ⟨text, ht, h⟩
    · obtain ⟨word, hw, rfl⟩ := List.mem_map.mp h
      exact ⟨_, .self, .comment hm (.inl ht) hw⟩
    · obtain ⟨word, hw, rfl⟩ := List.mem_map.mp h
      exact ⟨_, .self, .member hm hw⟩
    · obtain ⟨u, hu, hp⟩ := hi m hm h
      exact ⟨u, .object hm hu, hp⟩
    · obtain ⟨word, hw, rfl⟩ := List.mem_map.mp h
      exact ⟨_, .self, .comment hm (.inr (Option.mem_toList.mp ht)) hw⟩

theorem itemReferences_eq (items : List TypeExpr) : itemReferences items = items.flatMap references := by
  induction items
  case nil => rfl
  case cons item items hi => rw [itemReferences, hi, List.flatMap_cons]

-- A member mentions only what its type mentions.
theorem names_memberWords (m : Member) : Printed.names (memberWords m) = Printed.names m.type.words := by
  have comments (texts : List String) : Printed.names (texts.flatMap Role.comment.words) = [] := by
    simp [List.flatMap_eq_nil_iff]
  simp [memberWords_eq, comments, -Printed.names_flatMap]

-- What is collected from an expression is what it prints as names, in the same order.
theorem references_eq_names (single : ∀ name, t.Has (.reference name) → Identifier.IsWord name) :
    t.references = Printed.names t.words := by
  induction t using TypeExpr.induction
  case raw text       => simp [references, words]
  case reference name => simp [references, words, Identifier.inText_of_isWord (single name .self)]
  case literal value  => simp [references, words]
  case union items hi =>
    cases items
    case nil => rfl
    case cons item items =>
      rw [references, words, itemReferences_eq, itemWords_eq, Printed.names_flatMap]
      exact List.flatMap_congr fun t ht => hi t ht fun name h => single name (.union ht h)
  case array item hi =>
    rw [references, words]
    exact hi fun name h => single name (.array h)
  case record key value hk hv =>
    rw [references, hk fun name h => single name (.key h), hv fun name h => single name (.value h), words,
      ← Printed.names_append]
    rfl
  case object members hi =>
    rw [references, words, memberReferences_eq, membersWords_eq, Printed.names_flatMap]
    refine List.flatMap_congr fun m hm => ?_
    rw [names_memberWords]
    exact hi m hm fun name h => single name (.object hm h)

end TypeExpr

namespace Mapping

-- A hook puts a member in the place of the one for a field.
def Overrides (m : Mapping) (stack : List NodeId) (id : NodeId) (custom : Member) : Prop :=
  ∃ field type hook, m.graph.field? id = some field ∧ (m.typeOf stack id).result = .ok type ∧
    m.hooks.member = some hook ∧
    hook m.graph id ((m.graph.parent? id).getD Graph.root) (m.defaultMember id field type) =
      .ok (.replace custom) ∧
    custom.name ≠ ""

theorem memberOf_of_overrides {m : Mapping} {stack : List NodeId} {id : NodeId} {custom : Member}
    (h : m.Overrides stack id custom) : (m.memberOf stack id).result = .ok (some custom) ∧
      ∀ u, u ∈ (m.memberOf stack id).uses ↔ u ∈ (m.typeOf stack id).uses ∧ u.name ∈ custom.references := by
  obtain ⟨field, type, hook, hf, ht, hh, ha, hn⟩ := h
  rw [typeOf, hf] at ht ⊢
  rw [memberOf, memberWith, hf]
  have drafted : (m.defaultMember id field <$> m.fieldType (m.inlineType stack) id field).result =
      .ok (m.defaultMember id field type) := by
    rw [Draft.result_map, ht]
    rfl
  have offered : (m.memberOffer id).hook =
      some (hook m.graph id ((m.graph.parent? id).getD Graph.root)) := by
    simp [memberOffer, hh]
  obtain ⟨result, uses⟩ := Draft.consult_of_replace drafted offered ha hn
  refine ⟨result, fun u => ?_⟩
  rw [uses, Draft.mem_restrict_iff, Draft.uses_map, List.contains_iff_mem]
  rfl

end Mapping

theorem references_cover_words {t : TypeExpr}
    (single : ∀ name, t.Has (.reference name) → Identifier.IsWord name)
    (bare : ∀ members, t.Has (.object members) → ∀ m ∈ members, m.leading = [] ∧ m.trailing = none)
    (indent : Indent) :
    (∀ word, Identifier.WordOf word (t.render indent) →
      word ∈ t.references ∨ word = "Record" ∨ word = "never" ∨
        (∃ members, t.Has (.object members) ∧ ∃ m ∈ members, Identifier.WordOf word m.name) ∨
        ∃ value, t.Has (.literal value) ∧ Identifier.WordOf word value) ∧
    ∀ (m : Mapping) (stack : List NodeId) (id : NodeId) (custom : Member),
      m.Overrides stack id custom → custom.type = t →
        (m.memberOf stack id).result = .ok (some custom) ∧
        (custom.lines indent).flatMap Identifier.inText = (TypeExpr.memberWords custom).map Printed.word ∧
        ∀ u, u ∈ (m.memberOf stack id).uses ↔
          u ∈ (m.typeOf stack id).uses ∧ ⟨.name, u.name⟩ ∈ TypeExpr.memberWords custom := by
  have references := TypeExpr.references_eq_names single
  constructor
  · intro word h
    rw [← Identifier.mem_inText_iff, TypeExpr.inText_render] at h
    obtain ⟨w, hw, rfl⟩ := List.mem_map.mp h
    obtain ⟨u, hu, hp⟩ := TypeExpr.exists_prints_of_mem_words hw
    cases hp
    case raw       => exact .inl (references ▸ Printed.mem_names_iff.mpr hw)
    case reference => exact .inl (references ▸ Printed.mem_names_iff.mpr hw)
    case record    => exact .inr <| .inl rfl
    case never     => exact .inr <| .inr <| .inl rfl
    case member m _ hm hn =>
      exact .inr <| .inr <| .inr <| .inl ⟨_, hu, m, hm, Identifier.mem_inText_iff.mp hn⟩
    case literal value _ hv =>
      exact .inr <| .inr <| .inr <| .inr ⟨value, hu, Identifier.mem_inText_iff.mp hv⟩
    case comment m _ _ hm ht _ =>
      obtain ⟨leading, trailing⟩ := bare _ hu m hm
      simp [leading, trailing] at ht
  · rintro m stack id custom ho rfl
    obtain ⟨result, uses⟩ := Mapping.memberOf_of_overrides ho
    refine ⟨result, TypeExpr.inText_renderMember (TypeExpr.inText_render _), fun u => ?_⟩
    rw [uses, Property.references, references, ← Printed.mem_names_iff, TypeExpr.names_memberWords]

-- The name of an imported type as the name of a member, in a literal and in raw code.
def TypeExpr.tagIndex : TypeExpr :=
  .array (.record (.raw "string") (.union
    [.object [{ name := "SiteTag", type := .raw "Page<SiteTag> | null" }], .literal "no SiteTag", .reference "Tags"]))

-- The tags of a post are typed by a hook.
def Mapping.tagIndex : Mapping :=
  { Generation.blog.mapping ⟨[3, 8, 9].map (Entry.of Graph.blog {})⟩ "blog/post.ts" with
    hooks := { member := some fun _ _ _ member => .ok (.replace { member with type := .tagIndex }) } }

theorem references_cover_words_tags :
    (∀ word, Identifier.WordOf word
        "Record<string, \x7b\n    SiteTag: Page<SiteTag> | null;\n\x7d | 'no SiteTag' | Tags>[]" →
      word ∈ ["string", "Page", "SiteTag", "null", "Tags"] ∨ word = "Record" ∨ word = "never" ∨
        (∃ members, TypeExpr.tagIndex.Has (.object members) ∧ ∃ m ∈ members, Identifier.WordOf word m.name) ∨
        ∃ value, TypeExpr.tagIndex.Has (.literal value) ∧ Identifier.WordOf word value) ∧
    (Mapping.tagIndex.memberOf [] 4).result =
      .ok (some { name := "tags", type := .tagIndex, isOptional := true }) ∧
    ⟨"site.ts", "SiteTag"⟩ ∈ (Mapping.tagIndex.memberOf [] 4).uses := by
  have single : ∀ name, TypeExpr.tagIndex.Has (.reference name) → Identifier.IsWord name := by
    have tags : Identifier.IsWord "Tags" := ⟨by decide, List.all_eq_true.mp (by decide)⟩
    simp [TypeExpr.tagIndex, tags]
  have bare : ∀ members, TypeExpr.tagIndex.Has (.object members) →
      ∀ m ∈ members, m.leading = [] ∧ m.trailing = none := by
    simp [TypeExpr.tagIndex]
  have text : TypeExpr.tagIndex.render .default =
      "Record<string, \x7b\n    SiteTag: Page<SiteTag> | null;\n\x7d | 'no SiteTag' | Tags>[]" := by
    decide +kernel
  have references : TypeExpr.tagIndex.references = ["string", "Page", "SiteTag", "null", "Tags"] := by
    decide +kernel
  obtain ⟨covered, kept⟩ := references_cover_words single bare .default
  have overrides : Mapping.tagIndex.Overrides [] 4 { name := "tags", type := .tagIndex, isOptional := true } :=
    ⟨_, _, _, rfl, rfl, rfl, rfl, by decide⟩
  obtain ⟨result, -, uses⟩ := kept Mapping.tagIndex [] 4 _ overrides rfl
  rw [text, references] at covered
  exact ⟨covered, result, (uses _).mpr ⟨by decide +kernel, by decide +kernel⟩⟩

end ProtoTypings
