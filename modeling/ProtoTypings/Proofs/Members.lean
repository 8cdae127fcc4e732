import Mathlib
import ProtoTypings.Proofs.Emission
import ProtoTypings.Proofs.Unfolding

namespace ProtoTypings

-- A member of an object type that stands in an expression, but not inside another member.
inductive TypeExpr.Shows : TypeExpr → Member → Prop
  | object {members : List Member} {member : Member} : member ∈ members → Shows (.object members) member
  | union {items : List TypeExpr} {t : TypeExpr} {member : Member} :
    t ∈ items → Shows t member → Shows (.union items) member
  | array {t : TypeExpr} {member : Member} : Shows t member → Shows (.array t) member
  | key {k v : TypeExpr} {member : Member} : Shows k member → Shows (.record k v) member
  | value {k v : TypeExpr} {member : Member} : Shows v member → Shows (.record k v) member

-- One member directly inside another.
def Property.Nests (outer inner : Member) : Prop :=
  outer.type.Shows inner

-- A member at any depth of an expression.
def TypeExpr.Holds (t : TypeExpr) (member : Member) : Prop :=
  ∃ outer, t.Shows outer ∧ Relation.ReflTransGen Property.Nests outer member

-- A member at any depth of an interface.
def Interface.Holds (i : Interface) (member : Member) : Prop :=
  (∃ outer ∈ i.members, Relation.ReflTransGen Property.Nests outer member) ∨
    ∃ param ∈ i.params, ∃ t, (param.bound = some t ∨ param.fallback = some t) ∧ t.Holds member

namespace TypeExpr

variable {member : Member}

@[simp]
theorem not_shows_raw {text : String} : ¬(raw text).Shows member :=
  nofun

@[simp]
theorem not_shows_reference {name : String} : ¬(reference name).Shows member :=
  nofun

@[simp]
theorem not_shows_literal {value : String} : ¬(literal value).Shows member :=
  nofun

@[simp]
theorem not_shows_any : ¬any.Shows member :=
  nofun

@[simp]
theorem not_shows_literals {values : List String} : ¬(literals values).Shows member := by
  intro h
  cases h
  case union hm h =>
    obtain ⟨_, _, rfl⟩ := List.mem_map.mp hm
    contradiction

@[simp]
theorem shows_object_iff {members : List Member} : (object members).Shows member ↔ member ∈ members :=
  ⟨fun | .object h => h, .object⟩

@[simp]
theorem shows_array_iff {t : TypeExpr} : (array t).Shows member ↔ t.Shows member :=
  ⟨fun | .array h => h, .array⟩

@[simp]
theorem shows_record_iff {k v : TypeExpr} : (record k v).Shows member ↔ k.Shows member ∨ v.Shows member :=
  ⟨fun | .key h => .inl h | .value h => .inr h, fun | .inl h => .key h | .inr h => .value h⟩

end TypeExpr

namespace Mapping

variable {m : Mapping} {member : Member}

@[simp]
theorem not_shows_keyExpr {keyType : String} : ¬(m.keyExpr keyType).Shows member := by
  rw [keyExpr]
  split <;> simp

@[simp]
theorem shows_wrap_iff {field : Field} {value : TypeExpr} :
    (m.wrap field value).Shows member ↔ value.Shows member := by
  rw [wrap]
  cases field.keyType <;> split <;> simp

end Mapping

namespace Generation

variable {run : Generation} {r : Registry} {path : String} {body : List Declaration} {direct : Bool}
  {f : NodeId × Field} {member : Member}

-- The members of the declarations in a file and the fields that they stand for. Those that stand directly in
-- an interface are told apart from those inside the types of others.
inductive Emitted (run : Generation) (r : Registry) (path : String) (body : List Declaration) :
    (direct : Bool) → NodeId × Field → Member → Prop
  | direct {i : Interface} {owner : Entry} {j k : Nat} {f : NodeId × Field} {member : Member} :
    (r.entries.filter (·.path = path))[j]? = some owner → body[j]? = some (.interface i) →
      (run.graph.fieldsOf owner.node)[k]? = some f → i.members[k]? = some member →
      Emitted run r path body true f member
  | inlined {direct : Bool} {message : NodeId} {members : List Member} {k : Nat}
      {f g : NodeId × Field} {member inner : Member} :
    Emitted run r path body direct f member → (run.mapping r path).Inlines f.2 message →
      member.type = (run.mapping r path).wrap f.2 (.object members) →
      (run.graph.fieldsOf message)[k]? = some g → members[k]? = some inner →
      Emitted run r path body false g inner

-- What a member is like that stands for a field.
structure StandsFor (run : Generation) (r : Registry) (path : String) (direct : Bool) (f : NodeId × Field)
    (member : Member) : Prop where
  field : run.graph.field? f.1 = some f.2
  name : member.name = Identifier.ofField (run.graph.name f.1)
  type : ∃ stack, (direct = true → stack = []) ∧
    ((run.mapping r path).typeOf stack f.1).result = .ok member.type
  leading : member.leading = ((run.mapping r path).oneofMarks f.1 f.2).1 ++
    if direct then (run.typeComment? f.1).toList else []

section Plain

variable (plain : run.hooks.Plain)
include plain

theorem memberFor_standsFor {id : NodeId} {field : Field} {member? : Option Member}
    (hf : run.graph.field? id = some field)
    (h : (run.memberFor (run.mapping r path) id).result = .ok member?) :
    ∃ member, member? = some member ∧ run.StandsFor r path true (id, field) member := by
  have hf' : (run.mapping r path).graph.field? id = some field := hf
  obtain ⟨drafted?, hd, h⟩ := Draft.exists_of_bind_ok h
  rw [Mapping.memberOf, Mapping.memberWith_result plain.member hf'] at hd
  obtain ⟨type, ht, rfl⟩ := exists_of_map_eq_ok hd
  cases h
  refine ⟨_, rfl, hf, rfl, ⟨[], fun _ => rfl, ?_⟩, rfl⟩
  rw [Mapping.typeOf_eq hf', ht]
  rfl

theorem interface_standsFor {owner : Entry} {i : Interface}
    (h : (run.declarationFor (run.mapping r path) owner).result = .ok (some (.interface i))) :
    (run.graph.fieldsOf owner.node).Forall₂ (run.StandsFor r path true) i.members := by
  obtain ⟨members, hm, rfl⟩ := exists_members_of_interface plain h
  refine Graph.forall₂_of_each (fun id hf => ?_) (fun id field member? hf h => ?_) hm
  · have hf' : (run.mapping r path).graph.field? id = none := hf
    rw [memberFor, Mapping.memberOf, Mapping.memberWith, hf']
    rfl
  · exact memberFor_standsFor plain hf h

theorem StandsFor.inlined {message : NodeId} {members : List Member} (h : run.StandsFor r path direct f member)
    (hi : (run.mapping r path).Inlines f.2 message)
    (ht : member.type = (run.mapping r path).wrap f.2 (.object members)) :
    (run.graph.fieldsOf message).Forall₂ (run.StandsFor r path false) members := by
  obtain ⟨stack, _, hs⟩ := h.type
  rw [ht] at hs
  obtain ⟨_, drafted⟩ := Mapping.membersWith_of_object h.field hi hs
  refine (Mapping.membersWith_result plain.member drafted).imp ?_
  rintro g inner ⟨hg, type, hd, rfl⟩
  refine ⟨hg, rfl, ⟨message :: stack, nofun, ?_⟩, by simp [Mapping.defaultMember]⟩
  rw [Mapping.typeOf_eq hg, hd]
  rfl

end Plain

-- The declarations of the types of a path, each at the place of its entry.
structure DeclaresAll (run : Generation) (r : Registry) (path : String) (body : List Declaration) : Prop where
  plain : run.hooks.Plain
  declared : (r.entries.filter (·.path = path)).Forall₂
    (fun e d => (run.declarationFor (run.mapping r path) e).result = .ok (some d)) body

theorem declaresAll_of_draftOf (plain : run.hooks.Plain) (hb : Registry.build run.graph run.settings = .ok r)
    (drafted : (run.draftOf r path).result = .ok body) : run.DeclaresAll r path body := by
  obtain ⟨found, h⟩ := exists_declarations plain fun e (he : e ∈ r.entries.filter (·.path = path)) =>
    Registry.build_isType hb (List.mem_of_mem_filter he)
  have declared := h.imp fun _ _ => And.left
  cases (declarations_of_forall₂ declared).symm.trans drafted
  exact ⟨plain, declared⟩

section DeclaresAll

variable (all : run.DeclaresAll r path body)
include all

-- Every step into a message leads from a member that stands for its field to members that stand for theirs.
theorem Emitted.standsFor (h : run.Emitted r path body direct f member) :
    run.StandsFor r path direct f member := by
  induction h
  case direct ho hb hf hm =>
    obtain ⟨d, hd, hr⟩ := exists_of_forall₂ all.declared ho
    cases hb.symm.trans hd
    obtain ⟨_, hm', stands⟩ := exists_of_forall₂ (interface_standsFor all.plain hr) hf
    cases hm.symm.trans hm'
    exact stands
  case inlined hi ht hg hm outer =>
    obtain ⟨_, hm', stands⟩ := exists_of_forall₂ (outer.inlined all.plain hi ht) hg
    cases hm.symm.trans hm'
    exact stands

theorem Emitted.exists_inner {inner : Member} (h : run.Emitted r path body direct f member)
    (hn : member.Nests inner) : ∃ g, run.Emitted r path body false g inner := by
  obtain ⟨hf, _, ⟨stack, _, hs⟩, _⟩ := h.standsFor all
  obtain ⟨value, ht, given⟩ := Mapping.typeOf_given all.plain.member hf hs
  rw [Property.Nests, ht, Mapping.shows_wrap_iff] at hn
  cases given
  case object message members hi _ stands =>
    obtain ⟨k, hk⟩ := List.mem_iff_getElem?.mp (TypeExpr.shows_object_iff.mp hn)
    obtain ⟨g, hg, _⟩ := exists_of_forall₂ stands.flip hk
    exact ⟨g, .inlined h hi ht hg hk⟩
  all_goals simp at hn

-- The members that stand for fields are all members of the file.
theorem holds_iff_emitted :
    (∃ i, .interface i ∈ body ∧ i.Holds member) ↔ ∃ direct f, run.Emitted r path body direct f member := by
  constructor
  case mp =>
    rintro ⟨i, hi, held⟩
    obtain ⟨j, hj⟩ := List.mem_iff_getElem?.mp hi
    obtain ⟨owner, ho, hr⟩ := exists_of_forall₂ all.declared.flip hj
    rcases held with ⟨outer, ho', nested⟩ | ⟨param, hp, _⟩
    case inr =>
      obtain ⟨_, _, rfl⟩ := exists_members_of_interface all.plain hr
      contradiction
    case inl =>
      obtain ⟨k, hk⟩ := List.mem_iff_getElem?.mp ho'
      obtain ⟨f, hf, _⟩ := exists_of_forall₂ (interface_standsFor all.plain hr).flip hk
      induction nested
      case refl => exact ⟨true, f, .direct ho hj hf hk⟩
      case tail hn ih =>
        obtain ⟨direct, g, emitted⟩ := ih
        exact ⟨false, emitted.exists_inner all hn⟩
  case mpr =>
    rintro ⟨direct, f, emitted⟩
    induction emitted
    case direct i _ _ _ _ member _ hb _ hm =>
      exact ⟨i, List.mem_of_getElem? hb, .inl ⟨member, List.mem_of_getElem? hm, .refl⟩⟩
    case inlined member inner emitted _ ht _ hm ih =>
      obtain ⟨i, hi, held⟩ := ih
      have hn : member.Nests inner := by
        rw [Property.Nests, ht, Mapping.shows_wrap_iff, TypeExpr.shows_object_iff]
        exact List.mem_of_getElem? hm
      refine ⟨i, hi, ?_⟩
      rcases held with ⟨outer, ho, nested⟩ | ⟨param, hp, t, hb, outer, hs, nested⟩
      · exact .inl ⟨outer, ho, nested.tail hn⟩
      · exact .inr ⟨param, hp, t, hb, outer, hs, nested.tail hn⟩

-- A field of a declared message has a member.
theorem exists_emitted {owner : Entry} {j k : Nat}
    (ho : (r.entries.filter (·.path = path))[j]? = some owner) (hm : run.graph.isMessage owner.node = true)
    (hf : (run.graph.fieldsOf owner.node)[k]? = some f) :
    ∃ member, run.Emitted r path body true f member := by
  obtain ⟨d, hd, hr⟩ := exists_of_forall₂ all.declared ho
  obtain ⟨members, h⟩ := declarationFor_of_isMessage all.plain hm
  cases hr.symm.trans h
  obtain ⟨member, hk, _⟩ := exists_of_forall₂ (interface_standsFor all.plain h) hf
  exact ⟨member, .direct ho hd hf hk⟩

-- If the field is of a message that is written out, the fields of that message have members too.
theorem Emitted.exists_inlined {message : NodeId} {g : NodeId × Field} {k : Nat}
    (h : run.Emitted r path body true f member) (hi : (run.mapping r path).Inlines f.2 message)
    (hg : (run.graph.fieldsOf message)[k]? = some g) : ∃ inner, run.Emitted r path body false g inner := by
  obtain ⟨hf, _, ⟨stack, outermost, hs⟩, _⟩ := h.standsFor all
  cases outermost rfl
  obtain ⟨value, ht, given⟩ := Mapping.typeOf_given all.plain.member hf hs
  obtain ⟨members, rfl, stands⟩ := given.exists_object hi List.not_mem_nil
  obtain ⟨inner, hk, _⟩ := exists_of_forall₂ stands hg
  exact ⟨inner, .inlined h hi ht hg hk⟩

-- A comment for the type of a field gives way to one for the type as it is spelled, with dots in front.
theorem Emitted.mem_leading_iff {comment : String} (h : run.Emitted r path body direct f member)
    (hc : run.settings.comments.lookup (Text.dropFront '.' f.2.typeName) = some comment) :
    comment ∈ member.leading ↔
      (direct = true ∧ ∀ own, run.settings.comments.lookup f.2.typeName = some own → own = comment) ∨
        comment ∈ ((run.mapping r path).oneofMarks f.1 f.2).1 := by
  have stands := h.standsFor all
  have found : run.typeComment? f.1 = (run.settings.comments.lookup f.2.typeName).or (some comment) := by
    rw [← hc]
    simp [typeComment?, stands.field]
  rw [stands.leading, found, List.mem_append, or_comm]
  refine or_congr_left ?_
  cases direct
  case false => simp
  case true =>
    cases run.settings.comments.lookup f.2.typeName
    case none     => simp
    case some own => simp [eq_comm]

end DeclaresAll

theorem type_comments_iff (run : Generation) {r : Registry} (hooks : run.hooks = .none)
    (hb : Registry.build run.graph run.settings = .ok r) :
    ∃ bodyOf : String → List Declaration,
      run.files.result = .ok (r.files.map (fun path =>
        ⟨OutputPath.under run.settings.outputPath path, run.contentOf r path (bodyOf path)⟩) ++
        run.indexFile r.files) ∧
      ∀ path ∈ r.files, (run.draftOf r path).result = .ok (bodyOf path) ∧
        (∀ member, (∃ i, .interface i ∈ bodyOf path ∧ i.Holds member) ↔
          ∃ direct f, run.Emitted r path (bodyOf path) direct f member) ∧
        ∀ direct f member comment, run.Emitted r path (bodyOf path) direct f member →
          run.settings.comments.lookup (Text.dropFront '.' f.2.typeName) = some comment →
          (comment ∈ member.leading ↔
            (direct = true ∧ ∀ own, run.settings.comments.lookup f.2.typeName = some own → own = comment) ∨
              comment ∈ ((run.mapping r path).oneofMarks f.1 f.2).1) := by
  obtain ⟨bodyOf, drafted, files⟩ := files_result hooks hb
  refine ⟨bodyOf, files, fun path _ => ?_⟩
  have all := declaresAll_of_draftOf (.of_none hooks) hb (drafted path)
  exact ⟨drafted path, fun _ => holds_iff_emitted all, fun _ _ _ _ h hc => h.mem_leading_iff all hc⟩

-- The type of the times in `visits`.
def timestamp : Field where
  typeName := "google.protobuf.Timestamp"
  number := 1

-- A message with a time, and with a message inside of it that has another one.
def visits : Generation where
  graph := ⟨#[{ name := "", parent := none, content := .package [1] },
    { name := "shop", parent := some 0, file := some "shop.proto", content := .package [2] },
    { name := "Cart", parent := some 1, content := .message [3, 4] [] [5] },
    { name := "opened", parent := some 2, content := .field timestamp },
    { name := "entry", parent := some 2,
      content := .field { typeName := "Entry", number := 2, resolved := some 5 } },
    { name := "Entry", parent := some 2, content := .message [6] [] [] },
    { name := "added", parent := some 5, content := .field timestamp }]⟩
  settings := { comments := [("google.protobuf.Timestamp", "format: date-time")] }

def visitsRegistry : Registry :=
  ⟨[Entry.of visits.graph visits.settings 2]⟩

theorem visits_build : Registry.build visits.graph visits.settings = .ok visitsRegistry :=
  rfl

theorem type_comments_iff_visits : Registry.build visits.graph visits.settings = .ok visitsRegistry ∧
    ∃ body member, (visits.draftOf visitsRegistry "shop.ts").result = .ok body ∧
      visits.Emitted visitsRegistry "shop.ts" body true (3, timestamp) member ∧
      "format: date-time" ∈ member.leading := by
  obtain ⟨bodyOf, _, h⟩ := type_comments_iff visits rfl visits_build
  obtain ⟨drafted, _, carries⟩ := h "shop.ts" (by decide +kernel)
  have all := declaresAll_of_draftOf ⟨rfl, rfl⟩ visits_build drafted
  obtain ⟨member, emitted⟩ := exists_emitted (j := 0) (k := 0) (f := (3, timestamp)) all rfl rfl rfl
  refine ⟨visits_build, bodyOf "shop.ts", member, drafted, emitted, ?_⟩
  refine (carries true _ member _ emitted (by decide +kernel)).mpr (.inl ⟨rfl, ?_⟩)
  decide +kernel

-- The inner time has no comment.
theorem type_comments_missed : Registry.build visits.graph visits.settings = .ok visitsRegistry ∧
    (∃ body member, (visits.draftOf visitsRegistry "shop.ts").result = .ok body ∧
      visits.Emitted visitsRegistry "shop.ts" body false (6, timestamp) member ∧
      visits.settings.comments.lookup (Text.dropFront '.' timestamp.typeName) = some "format: date-time" ∧
      "format: date-time" ∉ member.leading) ∧
    visits.files.result.toOption.map (·.map GeneratedFile.content) = some [
      "export interface ShopCart \x7b\n    // format: date-time\n    opened?: string;\n    entry?: \x7b\n" ++
        "        added?: string;\n    \x7d;\n\x7d\n",
      "export * from './shop';\n"] := by
  refine ⟨visits_build, ?_, by decide +kernel⟩
  obtain ⟨bodyOf, drafted, _⟩ := files_result rfl visits_build
  have all := declaresAll_of_draftOf ⟨rfl, rfl⟩ visits_build (drafted "shop.ts")
  obtain ⟨outer, emitted⟩ := exists_emitted (j := 0) (k := 1) all rfl rfl rfl
  have inlines : (visits.mapping visitsRegistry "shop.ts").Inlines
      { typeName := "Entry", number := 2, resolved := some 5 } 5 :=
    ⟨by decide +kernel, rfl, rfl, rfl⟩
  obtain ⟨member, inner⟩ := emitted.exists_inlined all inlines (k := 0) (g := (6, timestamp)) rfl
  have comment : visits.settings.comments.lookup (Text.dropFront '.' timestamp.typeName) =
      some "format: date-time" := by decide +kernel
  refine ⟨bodyOf "shop.ts", member, drafted _, inner, comment, fun mem => ?_⟩
  rcases (inner.mem_leading_iff all comment).mp mem with ⟨direct, _⟩ | mark
  · contradiction
  · exact List.not_mem_nil mark

end Generation

end ProtoTypings
