import ProtoTypings.Draft
import ProtoTypings.Typing.WellKnown

namespace ProtoTypings

-- What the fields of the messages of one generated file are mapped with.
structure Mapping where
  graph : Graph
  registry : Registry
  wellKnown : WellKnown
  hooks : Hooks := {}
  -- the generated file
  path : String

namespace Mapping

variable (m : Mapping)

-- How a message is written out: by the field that uses it, and the message.
abbrev Inliner := (field message : NodeId) → Draft TypeExpr

def unknownType (id : NodeId) (field : Field) : Draft TypeExpr := do
  Draft.note (.typeUnknown (m.graph.fullName id) field.typeName)
  return .any

-- The reference to a declared type, which is imported unless this file declares it.
def reference (e : Entry) : Draft TypeExpr := do
  if e.path ≠ m.path then Draft.use ⟨e.path, e.name⟩
  return .reference e.name

-- The type of one value of a field. An enum without a declaration counts before the well-known types,
-- a message without one after them.
def valueType (inline : Inliner) (id : NodeId) (field : Field) : Draft TypeExpr :=
  match field.resolved.map fun target => (target, m.registry.lookup? target) with
  | some (target, none) =>
    match m.graph.enumValues? target with
    | some values => pure (.literals (values.map EnumValue.name))
    | none =>
      match m.wellKnown.code? field.typeName with
      | some code => pure (.raw code)
      | none => if m.graph.isMessage target then inline id target else m.unknownType id field
  | some (_, some entry) =>
    match m.wellKnown.code? field.typeName with
    | some code => pure (.raw code)
    | none => m.reference entry
  | none =>
    match m.wellKnown.code? field.typeName with
    | some code => pure (.raw code)
    | none => m.unknownType id field

def keyExpr (keyType : String) : TypeExpr :=
  match m.wellKnown.code? keyType with
  | some code => .raw code
  | none => .any

def fieldType (inline : Inliner) (id : NodeId) (field : Field) : Draft TypeExpr := do
  let value ← m.valueType inline id field
  let single := match field.keyType with
    | some keyType => .record (m.keyExpr keyType) value
    | none => value
  return if field.rule = .repeated then .array single else single

-- The comments that open and close a oneof group at its first and its last field.
def oneofMarks (id : NodeId) (field : Field) : List String × Option String :=
  match field.oneof with
  | some group =>
    if field.proto3Optional then ([], none)
    else
      let name := m.graph.name group
      let members := (m.graph.oneofMembers? group).getD []
      (if members.head? = some id then ["start oneof \"" ++ name ++ "\""] else [],
       if members.getLast? = some id then some ("end oneof \"" ++ name ++ "\"") else none)
  | none => ([], none)

def defaultMember (id : NodeId) (field : Field) (type : TypeExpr) : Member where
  name := Identifier.ofField (m.graph.name id)
  type := type
  isOptional := field.rule ≠ .required || field.proto3Optional
  leading := (m.oneofMarks id field).1
  trailing := (m.oneofMarks id field).2

def memberOffer (id : NodeId) : Draft.Offer Member :=
  let message := (m.graph.parent? id).getD Graph.root
  { kind := .member
    subject := m.graph.fullName id
    hook := m.hooks.member.map fun hook => hook m.graph id message
    question := .member id message
    name := Property.name
    references := Property.references }

-- The member for a field, unless a hook drops it.
def memberWith (inline : Inliner) (id : NodeId) : Draft (Option Member) :=
  match m.graph.field? id with
  | none => pure none
  | some field =>
    Draft.consult (m.memberOffer id) (m.defaultMember id field <$> m.fieldType inline id field)

-- The members for the fields of a message, in their order.
def membersWith (inline : Inliner) (message : NodeId) : Draft (List Member) := do
  let members ← Draft.each (m.memberWith inline) (m.graph.fields message)
  return members.filterMap id

-- The messages that are not being written out.
def remaining (stack : List NodeId) : Nat :=
  m.graph.ids.countP (· ∉ stack)

theorem countP_notMem_cons_lt {ids stack : List NodeId} {id : NodeId}
    (hi : id ∈ ids) (hs : id ∉ stack) :
    ids.countP (· ∉ id :: stack) < ids.countP (· ∉ stack) := by
  induction ids with
  | nil => simp at hi
  | cons n ids ih =>
    have le : ids.countP (· ∉ id :: stack) ≤ ids.countP (· ∉ stack) :=
      List.countP_mono_left (by simp_all)
    by_cases h : n = id
    · have h₁ : decide (n ∉ id :: stack) = false := by simp [h]
      have h₂ : decide (n ∉ stack) = true := by simp [h, hs]
      simp only [List.countP_cons, h₁, h₂, Bool.false_eq_true, ↓reduceIte]
      omega
    · have lt := ih (by simpa [Ne.symm h] using hi)
      have : decide (n ∉ id :: stack) = decide (n ∉ stack) := by simp [h]
      simp only [List.countP_cons, this]
      omega

theorem remaining_cons_lt {stack : List NodeId} {message : NodeId}
    (hm : m.graph.isMessage message = true) (hs : message ∉ stack) :
    m.remaining (message :: stack) < m.remaining stack := by
  apply countP_notMem_cons_lt _ hs
  simp only [Graph.isMessage, Graph.kind?, Graph.node?, decide_eq_true_eq,
    Option.map_eq_some_iff] at hm
  have ⟨_, h, _⟩ := hm
  have ⟨lt, _⟩ := Array.getElem?_eq_some_iff.mp h
  simpa [Graph.ids, Graph.size] using lt

-- Writes out the message of a field as an object type. A message that is being written out already,
-- because it is in the stack, is left open.
def inlineType (stack : List NodeId) (field message : NodeId) : Draft TypeExpr :=
  if _hs : message ∈ stack then do
    Draft.note (.messageRecursive (m.graph.fullName field) (m.graph.fullName message))
    return .any
  else if _hm : m.graph.isMessage message = true then do
    let members ← m.membersWith (fun f t => inlineType (message :: stack) f t) message
    return .object members
  else pure (.object [])
termination_by m.remaining stack
decreasing_by exact m.remaining_cons_lt _hm _hs

-- The type of a field; of a node that is no field, nothing is known.
def typeOf (stack : List NodeId) (id : NodeId) : Draft TypeExpr :=
  match m.graph.field? id with
  | some field => m.fieldType (m.inlineType stack) id field
  | none => pure .any

def memberOf (stack : List NodeId) (id : NodeId) : Draft (Option Member) :=
  m.memberWith (m.inlineType stack) id

def membersOf (stack : List NodeId) (message : NodeId) : Draft (List Member) :=
  m.membersWith (m.inlineType stack) message

end Mapping

end ProtoTypings
