import Mathlib
import ProtoTypings.Proofs.Mapper
import ProtoTypings.Proofs.Schema.Links

namespace ProtoTypings

theorem exists_of_forall₂ {α β : Type} {R : α → β → Prop} {as : List α} {bs : List β}
    (h : as.Forall₂ R bs) {i : Nat} {a : α} (ha : as[i]? = some a) : ∃ b, bs[i]? = some b ∧ R a b := by
  induction h generalizing i
  case nil => contradiction
  case cons hr _ hi =>
    cases i
    case zero   => exact ⟨_, rfl, Option.some.inj ha ▸ hr⟩
    case succ i => exact hi ha

namespace Graph

variable {g : Graph}

-- The fields of a message in their order, each with what it says.
def fieldsOf (g : Graph) (message : NodeId) : List (NodeId × Field) :=
  (g.fields message).filterMap fun f => (g.field? f).map (f, ·)

theorem mem_fieldsOf_iff {message f : NodeId} {field : Field} :
    (f, field) ∈ g.fieldsOf message ↔ f ∈ g.fields message ∧ g.field? f = some field := by
  simp only [fieldsOf, List.mem_filterMap, Option.map_eq_some_iff, Prod.mk.injEq]
  constructor
  · rintro ⟨_, hf, _, hd, rfl, rfl⟩
    exact ⟨hf, hd⟩
  · rintro ⟨hf, hd⟩
    exact ⟨f, hf, field, hd, rfl, rfl⟩

-- Where there is a draft of a member for each field and of none for anything else, there are members for the
-- fields in their order.
theorem forall₂_of_each {make : NodeId → Draft (Option Member)} {R : NodeId × Field → Member → Prop}
    (other : ∀ id, g.field? id = none → (make id).result = .ok none)
    (made : ∀ id field member?, g.field? id = some field → (make id).result = .ok member? →
      ∃ member, member? = some member ∧ R (id, field) member)
    {ids : List NodeId} {found : List (Option Member)} (h : (Draft.each make ids).result = .ok found) :
    (ids.filterMap fun f => (g.field? f).map (f, ·)).Forall₂ R (found.filterMap id) := by
  induction Draft.each_ok_iff.mp h
  case nil => exact .nil
  case cons id member? ids found hm hs hi =>
    have rest := hi (Draft.each_ok_iff.mpr hs)
    cases hf : g.field? id
    case none =>
      cases (other id hf).symm.trans hm
      simpa [hf] using rest
    case some field =>
      obtain ⟨member, rfl, hr⟩ := made id field member? hf hm
      simpa [hf] using ⟨hr, rest⟩

theorem isType_eq_false {id : NodeId} (hv : g.enumValues? id = none) (hm : g.isMessage id = false) :
    g.isType id = false := by
  by_contra ht
  obtain ⟨values, h⟩ := exists_enumValues? (Bool.eq_true_of_not_eq_false ht) hm
  simp [hv] at h

theorem isType_of_isMessage {id : NodeId} (hm : g.isMessage id = true) : g.isType id = true := by
  have hk : g.kind? id = some .message := by simpa [isMessage] using hm
  simp [isType, hk, Kind.isType]

end Graph

namespace Mapping

variable {m : Mapping}

-- A field that is neither of a well-known nor of a declared type, but of the message given.
structure Inlines (m : Mapping) (field : Field) (message : NodeId) : Prop where
  unknown : m.wellKnown.code? field.typeName = none
  resolved : field.resolved = some message
  undeclared : m.registry.lookup? message = none
  isMessage : m.graph.isMessage message = true

-- The type of a field, from that of one value of it.
def wrap (m : Mapping) (field : Field) (value : TypeExpr) : TypeExpr :=
  let single := match field.keyType with
    | some keyType => .record (m.keyExpr keyType) value
    | none => value
  if field.rule = .repeated then .array single else single

theorem fieldType_eq (inline : Inliner) (id : NodeId) (field : Field) :
    m.fieldType inline id field = m.wrap field <$> m.valueType inline id field :=
  rfl

theorem wrap_injective (field : Field) : Function.Injective (m.wrap field) := by
  intro value value' h
  simp only [wrap] at h
  cases hk : field.keyType <;> simp only [hk] at h <;> split at h <;> simpa using h

-- A member for a field that stands inside the messages of `path`.
structure Stands (m : Mapping) (path : List NodeId) (f : NodeId × Field) (member : Member) : Prop where
  name : member.name = Identifier.ofField (m.graph.name f.1)
  optional : member.isOptional = (f.2.rule ≠ .required || f.2.proto3Optional)
  type : (m.typeOf path f.1).result = .ok member.type

-- The type of one value of a field inside the messages of `path`, the innermost of them first.
inductive Given (m : Mapping) (path : List NodeId) (field : Field) : TypeExpr → Prop
  | literals {target : NodeId} {values : List EnumValue} :
    field.resolved = some target → m.registry.lookup? target = none →
      m.graph.enumValues? target = some values →
      Given m path field (.literals (values.map EnumValue.name))
  | known {code : String} :
    (∀ target, field.resolved = some target → m.registry.lookup? target = none →
      m.graph.enumValues? target = none) →
      m.wellKnown.code? field.typeName = some code → Given m path field (.raw code)
  | object {message : NodeId} {members : List Member} :
    m.Inlines field message → message ∉ path →
      (m.graph.fieldsOf message).Forall₂ (m.Stands (message :: path)) members →
      Given m path field (.object members)
  | recursive {message : NodeId} :
    m.Inlines field message → message ∈ path → Given m path field .any
  | reference {target : NodeId} {e : Entry} :
    m.wellKnown.code? field.typeName = none → field.resolved = some target →
      m.registry.lookup? target = some e → Given m path field (.reference e.name)
  | unknown :
    m.wellKnown.code? field.typeName = none →
      (∀ target, field.resolved = some target →
        m.registry.lookup? target = none ∧ m.graph.isType target = false) →
      Given m path field .any

-- A place in a type: a field with the type that it has there.
structure Place where
  -- the messages that are being written out around the field, the innermost first
  path : List NodeId
  id : NodeId
  field : Field
  type : TypeExpr

-- The places inside the type of a field, at any depth. The first is the field itself.
inductive Within (m : Mapping) : Place → Place → Prop
  | here {p : Place} : Within m p p
  | inside {path : List NodeId} {id message : NodeId} {field : Field} {members : List Member} {i : Nat}
      {f : NodeId × Field} {member : Member} {p : Place} :
    m.Inlines field message → (m.graph.fieldsOf message)[i]? = some f → members[i]? = some member →
      Within m ⟨message :: path, f.1, f.2, member.type⟩ p →
      Within m ⟨path, id, field, m.wrap field (.object members)⟩ p

-- What the type of a field is like. Raw code is `any` also where the table of well-known types says so.
structure Unfolds (m : Mapping) (id : NodeId) (field : Field) (type : TypeExpr) : Prop where
  given : ∀ p, m.Within ⟨[], id, field, type⟩ p →
    ∃ value, p.type = m.wrap p.field value ∧ m.Given p.path p.field value
  once : ∀ p, m.Within ⟨[], id, field, type⟩ p → p.path.Nodup
  declared : ∀ name, type.Refers name → ∃ p target e, m.Within ⟨[], id, field, type⟩ p ∧
    p.type = m.wrap p.field (.reference name) ∧ p.field.resolved = some target ∧
    m.registry.lookup? target = some e ∧ e.name = name
  fallback : ∀ p, m.Within ⟨[], id, field, type⟩ p → p.type = m.wrap p.field .any →
    m.wellKnown.code? p.field.typeName = some "any" ∨
    (m.wellKnown.code? p.field.typeName = none ∧ (m.graph.Built → p.field.resolved = none)) ∨
    ∃ message ∈ p.path, m.Inlines p.field message

namespace Given

variable {path : List NodeId} {field : Field} {value : TypeExpr}

theorem eq_reference (h : m.Given path field value) {target : NodeId} {e : Entry}
    (hw : m.wellKnown.code? field.typeName = none) (hr : field.resolved = some target)
    (hl : m.registry.lookup? target = some e) : value = .reference e.name := by
  have declared {t : NodeId} (ht : field.resolved = some t) : m.registry.lookup? t = some e :=
    Option.some.inj (hr.symm.trans ht) ▸ hl
  cases h
  case reference hr' hl'   => rw [Option.some.inj ((declared hr').symm.trans hl')]
  case known hw'           => simp [hw] at hw'
  case literals hr' hl' _  => simp [declared hr'] at hl'
  case object hi _ _       => simpa [declared hi.resolved] using hi.undeclared
  case recursive hi _      => simpa [declared hi.resolved] using hi.undeclared
  case unknown hu          => simpa [hl] using hu target hr

theorem exists_object (h : m.Given path field value) {message : NodeId} (hi : m.Inlines field message)
    (hs : message ∉ path) : ∃ members, value = .object members ∧
      (m.graph.fieldsOf message).Forall₂ (m.Stands (message :: path)) members := by
  obtain ⟨hw, hr, hl, hm⟩ := hi
  have same {t : NodeId} (ht : field.resolved = some t) : t = message :=
    Option.some.inj (ht.symm.trans hr)
  cases h
  case object members hi _ hf => exact ⟨members, rfl, same hi.resolved ▸ hf⟩
  case literals hr' _ hv      => simp [same hr' ▸ Graph.not_isMessage_of_enumValues? hv] at hm
  case known hw'              => simp [hw] at hw'
  case recursive hi hs'       => exact absurd (same hi.resolved ▸ hs') hs
  case reference hr' hl'      => simp [same hr' ▸ hl'] at hl
  case unknown hu             => simpa [Graph.isType_of_isMessage hm] using hu message hr

end Given

theorem typeOf_eq {id : NodeId} {field : Field} (hf : m.graph.field? id = some field)
    (path : List NodeId) : m.typeOf path id = m.fieldType (m.inlineType path) id field := by
  simp [typeOf, hf]

theorem valueType_of_inlines {inline : Inliner} (id : NodeId) {field : Field} {message : NodeId}
    (hi : m.Inlines field message) : m.valueType inline id field = inline id message := by
  have hv : m.graph.enumValues? message = none := by
    by_contra hne
    obtain ⟨values, hv⟩ := Option.ne_none_iff_exists'.mp hne
    simpa [hi.isMessage] using Graph.not_isMessage_of_enumValues? hv
  simp [valueType, hi.resolved, hi.undeclared, hv, hi.unknown, hi.isMessage]

-- The members of a message that is written out are drafted with the message on the stack.
theorem membersWith_of_object {path : List NodeId} {id message : NodeId} {field : Field}
    {members : List Member} (hf : m.graph.field? id = some field) (hi : m.Inlines field message)
    (h : (m.typeOf path id).result = .ok (m.wrap field (.object members))) :
    message ∉ path ∧ (m.membersWith (m.inlineType (message :: path)) message).result = .ok members := by
  rw [typeOf_eq hf, fieldType_eq, Draft.result_map, valueType_of_inlines id hi] at h
  obtain ⟨value, hv, hw⟩ := exists_of_map_eq_ok h
  cases wrap_injective field hw
  by_cases hs : message ∈ path
  case pos =>
    rw [inlineType, dif_pos hs] at hv
    cases hv
  case neg =>
    rw [inlineType_of_notMem id hs, Draft.result_map] at hv
    obtain ⟨members, hm, heq⟩ := exists_of_map_eq_ok hv
    cases heq
    exact ⟨hs, hm⟩

section

variable (hooks : m.hooks.member = none)
include hooks

theorem memberWith_result {inline : Inliner} {id : NodeId} {field : Field}
    (hf : m.graph.field? id = some field) : (m.memberWith inline id).result =
      (m.fieldType inline id field).result.map fun type => some (m.defaultMember id field type) := by
  rw [memberWith, hf]
  simp only [Draft.consult_result_of_none (show (m.memberOffer id).hook = none by simp [memberOffer, hooks]),
    Draft.result_map]
  cases (m.fieldType inline id field).result <;> rfl

theorem each_memberWith_result {inline : Inliner} {ids : List NodeId} {found : List (Option Member)}
    (h : (Draft.each (m.memberWith inline) ids).result = .ok found) :
    (ids.filterMap fun f => (m.graph.field? f).map (f, ·)).Forall₂
      (fun f member => m.graph.field? f.1 = some f.2 ∧ ∃ type,
        (m.fieldType inline f.1 f.2).result = .ok type ∧ member = m.defaultMember f.1 f.2 type)
      (found.filterMap id) := by
  refine Graph.forall₂_of_each (fun id hf => ?_) (fun id field member? hf hm => ?_) h
  · rw [memberWith, hf]
    rfl
  · rw [memberWith_result hooks hf] at hm
    obtain ⟨type, ht, rfl⟩ := exists_of_map_eq_ok hm
    exact ⟨_, rfl, hf, type, ht, rfl⟩

-- There is a member for each field, and none for anything else.
theorem membersWith_result {inline : Inliner} {message : NodeId} {members : List Member}
    (h : (m.membersWith inline message).result = .ok members) :
    (m.graph.fieldsOf message).Forall₂ (fun f member => m.graph.field? f.1 = some f.2 ∧ ∃ type,
      (m.fieldType inline f.1 f.2).result = .ok type ∧ member = m.defaultMember f.1 f.2 type) members := by
  obtain ⟨found, each, h⟩ := Draft.exists_of_bind_ok h
  cases h
  exact each_memberWith_result hooks each

theorem typeOf_cites (path : List NodeId) (id : NodeId) :
    (m.typeOf path id).Cites m.path TypeExpr.Refers {e | m.Reaches path id e} := by
  cases hf : m.graph.field? id
  case some field =>
    rw [typeOf_eq hf]
    exact fieldType_cites (valueType_cites hf (inlineType_cites hooks path id))
  case none =>
    rw [typeOf, hf]
    refine (Draft.Cites.pure fun _ => TypeExpr.not_refers_any).congr fun e => ?_
    simp [not_reaches_of_field?_eq_none hf]

theorem stands_of_membersWith {path : List NodeId} {message : NodeId} {members : List Member}
    (h : (m.membersWith (m.inlineType path) message).result = .ok members) :
    (m.graph.fieldsOf message).Forall₂ (m.Stands path) members := by
  refine (membersWith_result hooks h).imp ?_
  rintro f member ⟨hf, type, ht, rfl⟩
  exact ⟨rfl, rfl, by rw [typeOf_eq hf, ht]; rfl⟩

theorem inlineType_given {path : List NodeId} {id message : NodeId} {field : Field} {value : TypeExpr}
    (hi : m.Inlines field message) (h : (m.inlineType path id message).result = .ok value) :
    m.Given path field value := by
  by_cases hs : message ∈ path
  case pos =>
    rw [inlineType, dif_pos hs] at h
    cases h
    exact .recursive hi hs
  case neg =>
    rw [inlineType_of_notMem id hs, Draft.result_map] at h
    obtain ⟨members, hm, rfl⟩ := exists_of_map_eq_ok h
    exact .object hi hs (stands_of_membersWith hooks hm)

theorem valueType_given {path : List NodeId} {id : NodeId} {field : Field} {value : TypeExpr}
    (h : (m.valueType (m.inlineType path) id field).result = .ok value) : m.Given path field value := by
  rw [valueType] at h
  split at h
  case h_1 target heq =>
    obtain ⟨hr, hl⟩ : field.resolved = some target ∧ m.registry.lookup? target = none := by simpa using heq
    have undeclared {t : NodeId} (ht : field.resolved = some t) : t = target :=
      Option.some.inj (ht.symm.trans hr)
    cases hv : m.graph.enumValues? target
    case some values =>
      simp only [hv] at h
      cases h
      exact .literals hr hl hv
    case none =>
      simp only [hv] at h
      cases hw : m.wellKnown.code? field.typeName
      case some code =>
        simp only [hw] at h
        cases h
        exact .known (fun t ht _ => undeclared ht ▸ hv) hw
      case none =>
        simp only [hw] at h
        split at h
        case isTrue hm => exact inlineType_given hooks ⟨hw, hr, hl, hm⟩ h
        case isFalse hm =>
          cases h
          refine .unknown hw fun t ht => undeclared ht ▸ ⟨hl, ?_⟩
          exact Graph.isType_eq_false hv (Bool.eq_false_iff.mpr hm)
  case h_2 target e heq =>
    obtain ⟨hr, hl⟩ : field.resolved = some target ∧ m.registry.lookup? target = some e := by
      simpa using heq
    cases hw : m.wellKnown.code? field.typeName
    case some code =>
      simp only [hw] at h
      cases h
      refine .known (fun t ht hn => ?_) hw
      cases hr.symm.trans ht
      simp [hl] at hn
    case none =>
      simp only [hw, reference] at h
      split at h <;> cases h <;> exact .reference hw hr hl
  case h_3 heq =>
    have hr : field.resolved = none := Option.map_eq_none_iff.mp heq
    cases hw : m.wellKnown.code? field.typeName
    case some code =>
      simp only [hw] at h
      cases h
      exact .known (by simp [hr]) hw
    case none =>
      simp only [hw] at h
      cases h
      exact .unknown hw (by simp [hr])

theorem typeOf_given {path : List NodeId} {id : NodeId} {field : Field} {type : TypeExpr}
    (hf : m.graph.field? id = some field) (h : (m.typeOf path id).result = .ok type) :
    ∃ value, type = m.wrap field value ∧ m.Given path field value := by
  rw [typeOf_eq hf, fieldType_eq, Draft.result_map] at h
  obtain ⟨value, hv, rfl⟩ := exists_of_map_eq_ok h
  exact ⟨value, rfl, valueType_given hooks hv⟩

-- What a message that is written out has for its members.
theorem object_given {path : List NodeId} {id message : NodeId} {field : Field} {members : List Member}
    (hf : m.graph.field? id = some field) (hi : m.Inlines field message)
    (h : (m.typeOf path id).result = .ok (m.wrap field (.object members))) :
    message ∉ path ∧ (m.graph.fieldsOf message).Forall₂ (m.Stands (message :: path)) members :=
  (membersWith_of_object hf hi h).imp_right (stands_of_membersWith hooks)

end

-- A place that the mapping comes to: its type is that of its field there.
structure Place.Reached (m : Mapping) (p : Place) : Prop where
  field : m.graph.field? p.id = some p.field
  type : (m.typeOf p.path p.id).result = .ok p.type
  nodup : p.path.Nodup

section

variable (hooks : m.hooks.member = none)
include hooks

-- A step into a message leads to a place that the mapping comes to, and so does any number of steps.
theorem Within.reached {p q : Place} (w : m.Within p q) (h : p.Reached m) : q.Reached m := by
  induction w
  case here => exact h
  case inside path _ message _ members _ f member _ hi hf hm _ ih =>
    obtain ⟨hs, stands⟩ := object_given hooks h.field hi h.type
    obtain ⟨member', hm', st⟩ := exists_of_forall₂ stands hf
    cases hm.symm.trans hm'
    refine ih ⟨?_, st.type, h.nodup.cons hs⟩
    exact (Graph.mem_fieldsOf_iff.mp (List.mem_of_getElem? hf)).right

-- A declared type that one comes to from a field is referred to at a place in the type of the field.
theorem exists_within_of_reaches {path : List NodeId} {id : NodeId} {e : Entry} (h : m.Reaches path id e)
    {field : Field} {type : TypeExpr} (hf : m.graph.field? id = some field)
    (ht : (m.typeOf path id).result = .ok type) :
    ∃ p target, m.Within ⟨path, id, field, type⟩ p ∧ p.type = m.wrap p.field (.reference e.name) ∧
      p.field.resolved = some target ∧ m.registry.lookup? target = some e := by
  induction h generalizing field type
  case declared hf' hr hw hl =>
    cases hf.symm.trans hf'
    obtain ⟨value, rfl, hv⟩ := typeOf_given hooks hf ht
    cases hv.eq_reference hw hr hl
    exact ⟨_, _, .here, rfl, hr, hl⟩
  case inlined message next field' _ hf' hr hw hl hm hs hn hx ih =>
    cases hf.symm.trans hf'
    have hi : m.Inlines field' message := ⟨hw, hr, hl, hm⟩
    obtain ⟨value, rfl, hv⟩ := typeOf_given hooks hf ht
    obtain ⟨members, rfl, stands⟩ := hv.exists_object hi hs
    cases hd : m.graph.field? next
    case none => exact absurd hx (not_reaches_of_field?_eq_none hd)
    case some data =>
      obtain ⟨i, hn⟩ := List.mem_iff_getElem?.mp (Graph.mem_fieldsOf_iff.mpr ⟨hn, hd⟩)
      obtain ⟨member, hm, st⟩ := exists_of_forall₂ stands hn
      obtain ⟨p, target, w, rest⟩ := ih hd st.type
      exact ⟨p, target, .inside hi hn hm w, rest⟩

end

-- The code for an unknown type is also that of a well-known one.
theorem Given.of_any {path : List NodeId} {field : Field} (h : m.Given path field .any) :
    m.wellKnown.code? field.typeName = some "any" ∨
    (m.wellKnown.code? field.typeName = none ∧
      ∀ target, field.resolved = some target → m.graph.isType target = false) ∨
    ∃ message ∈ path, m.Inlines field message := by
  generalize hv : TypeExpr.any = value at h
  cases h
  case known hw        => cases hv; exact .inl hw
  case recursive hi hs => exact .inr (.inr ⟨_, hs, hi⟩)
  case unknown hw hu   => exact .inr (.inl ⟨hw, fun target hr => (hu target hr).right⟩)
  all_goals contradiction

theorem inlining_faithful (m : Mapping) (hooks : m.hooks.member = none) {id : NodeId} {field : Field}
    (hf : m.graph.field? id = some field) :
    ∃ type, (m.typeOf [] id).result = .ok type ∧ m.Unfolds id field type := by
  obtain ⟨type, ht, refers⟩ := (typeOf_cites hooks [] id).result
  have reached {p : Place} (w : m.Within ⟨[], id, field, type⟩ p) : p.Reached m :=
    w.reached hooks ⟨hf, ht, List.nodup_nil⟩
  refine ⟨type, ht, ?_⟩
  constructor
  case given => exact fun p w => typeOf_given hooks (reached w).field (reached w).type
  case once  => exact fun p w => (reached w).nodup
  case declared =>
    intro name hn
    obtain ⟨e, he, rfl⟩ := (refers name).mp hn
    obtain ⟨p, target, w, hp, hr, hl⟩ := exists_within_of_reaches hooks he hf ht
    exact ⟨p, target, e, w, hp, hr, hl, rfl⟩
  case fallback =>
    intro p w hp
    obtain ⟨value, hv, given⟩ := typeOf_given hooks (reached w).field (reached w).type
    cases wrap_injective p.field (hp.symm.trans hv)
    refine given.of_any.imp_right (Or.imp_left (And.imp_right fun hu built => ?_))
    by_contra hr
    obtain ⟨target, hr⟩ := Option.ne_none_iff_exists'.mp hr
    simpa [built.linked.resolved (reached w).field hr] using hu target hr

def plainTrees : Mapping :=
  { trees with hooks := {} }

-- A branch inside a branch is cut off, and so are the branches of the tree inside it.
theorem inlining_faithful_trees :
    (∃ field type, plainTrees.graph.field? 2 = some field ∧
      (plainTrees.typeOf [] 2).result = .ok type ∧ plainTrees.Unfolds 2 field type) ∧
    (plainTrees.typeOf [] 2).result.toOption.map (TypeExpr.render .default) = some
      ("\x7b\n    next?: any;\n    tree?: \x7b\n        branches?: any[];\n        label?: string;\n" ++
        "    \x7d;\n\x7d[]") := by
  obtain ⟨type, ht, unfolds⟩ := inlining_faithful plainTrees rfl
    (show plainTrees.graph.field? 2 = some _ from rfl)
  exact ⟨⟨_, type, rfl, ht, unfolds⟩, by decide +kernel⟩

end Mapping

end ProtoTypings
