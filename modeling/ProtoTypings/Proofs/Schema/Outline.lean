import Mathlib
import ProtoTypings.Descriptor
import ProtoTypings.Proofs.Schema.Links

namespace ProtoTypings

-- Without the nodes below, and without the type of a field, which is looked up when all nodes are there.
def Content.bare : Content → Content
  | package _ => package []
  | message .. => message [] [] []
  | field data => field { data with resolved := none }
  | service methods _ => service methods []
  | content => content

def Node.bare (n : Node) : Node :=
  { n with content := n.content.bare }

namespace Content

variable {c : Content}

@[simp]
theorem kind_bare : c.bare.kind = c.kind := by
  cases c <;> rfl

@[simp]
theorem bare_link (id : NodeId) (k : Kind) : (c.link id k).bare = c.bare := by
  cases c <;> cases k <;> rfl

theorem field?_bare : c.bare.field? = c.field?.map ({ · with resolved := none }) := by
  cases c <;> rfl

theorem bare_mapField {f : Field → Field}
    (hf : ∀ d, { f d with resolved := none } = f { d with resolved := none }) :
    (c.mapField f).bare = c.bare.mapField f := by
  cases c <;> simp [mapField, bare, hf]

end Content

namespace Graph

variable {g h : Graph}

def outline (g : Graph) : List Node :=
  g.nodes.toList.map Node.bare

@[simp]
theorem length_outline : g.outline.length = g.size := by
  simp [outline, size]

theorem getElem?_outline (id : NodeId) : g.outline[id]? = (g.node? id).map Node.bare := by
  simp [outline, node?]

section Reading

variable {id : NodeId} {n : Node} (hn : g.outline[id]? = some n)
include hn

theorem name_of_outline : g.name id = n.name := by
  have ⟨m, hm, heq⟩ := Option.map_eq_some_iff.mp (getElem?_outline id ▸ hn)
  simp [name, hm, ← heq, Node.bare]

theorem parent?_of_outline : g.parent? id = n.parent := by
  have ⟨m, hm, heq⟩ := Option.map_eq_some_iff.mp (getElem?_outline id ▸ hn)
  simp [parent?, hm, ← heq, Node.bare]

theorem kind?_of_outline : g.kind? id = some n.content.kind := by
  have ⟨m, hm, heq⟩ := Option.map_eq_some_iff.mp (getElem?_outline id ▸ hn)
  simp [kind?, hm, ← heq, Node.bare]

theorem field?_of_outline : (g.field? id).map ({ · with resolved := none }) = n.content.field? := by
  have ⟨m, hm, heq⟩ := Option.map_eq_some_iff.mp (getElem?_outline id ▸ hn)
  simp [field?, hm, ← heq, Node.bare, Content.field?_bare]

end Reading

theorem kind?_at {before after : List Node} {n : Node} (ho : g.outline = before ++ n :: after) :
    g.kind? before.length = some n.content.kind :=
  kind?_of_outline (by simp [ho])

theorem getElem?_concat (x : Node) (id : NodeId) :
    (g.outline ++ [x])[id]? = if id = g.size then some x else (g.node? id).map Node.bare := by
  rw [← getElem?_outline]
  rcases Nat.lt_trichotomy id g.size with hl | hl | hl
  · rw [List.getElem?_append_left (by simpa using hl), if_neg (Nat.ne_of_lt hl)]
  · simp [hl]
  · rw [if_neg (Nat.ne_of_gt hl), List.getElem?_eq_none (by simpa using hl),
      List.getElem?_eq_none (by simpa using hl.le)]

-- A new node comes last, and the node above it says nothing more than before.
theorem outline_insert {above id : NodeId} {name : String} {c : Content} (hc : c.bare = c)
    (hi : g.insert above name c = .ok (h, id)) :
    h.outline = g.outline ++ [{ name, parent := some above, content := c }] := by
  have ⟨n, hn, _, _, _, hnode⟩ := insert_cases hi
  apply List.ext_getElem?
  intro j
  rw [getElem?_outline, hnode, getElem?_concat]
  split
  case isTrue => simp [Node.bare, hc]
  case isFalse =>
    split
    case isTrue ha => simp [ha, hn, Node.bare]
    case isFalse   => rfl

theorem outline_modify {id : NodeId} {f : Node → Node} (f' : Node → Node)
    (hf : ∀ n, (f n).bare = f' n.bare) :
    (g.modify id f).outline = g.outline.modify id f' := by
  apply List.ext_getElem?
  intro j
  rw [getElem?_outline, node?_modify, List.getElem?_modify, getElem?_outline]
  split
  case isTrue hj => cases hn : g.node? j <;> simp_all
  case isFalse => simp

-- What an outline does not tell can change.
theorem outline_modify_bare {place : NodeId} {f : Node → Node} (hf : ∀ n, (f n).bare = n.bare) :
    (g.modify place f).outline = g.outline := by
  rw [outline_modify id hf, List.modify_id]

theorem outline_modify_at {before after : List Node} {n : Node} {f : Node → Node}
    (ho : g.outline = before ++ n :: after) (f' : Node → Node) (hf : ∀ n, (f n).bare = f' n.bare) :
    (g.modify before.length f).outline = before ++ f' n :: after := by
  rw [outline_modify f' hf, ho, List.modify_eq_take_cons_drop (by simp)]
  simp

-- The places of the nodes that say they stand below `above`, in one of its lists.
def listed (nodes : List Node) (σ : Slot) (above : NodeId) : List NodeId :=
  (List.range nodes.length).filter fun id =>
    nodes[id]?.any fun n => n.parent = some above ∧ n.content.kind.slot = σ

-- A graph has no other lists than its outline tells.
theorem WellFormed.slot_eq_listed (w : g.WellFormed) (σ : Slot) (above : NodeId) :
    g.slot σ above = listed g.outline σ above := by
  rw [w.slot_eq, listed, length_outline, ids]
  refine List.filter_congr fun id hid => ?_
  obtain ⟨n, hn⟩ : ∃ n, g.outline[id]? = some n :=
    ⟨_, List.getElem?_eq_getElem (by simpa using hid)⟩
  rw [parent?_of_outline hn, kind?_of_outline hn, hn]
  simp

end Graph

theorem mapIdx_eq_self {α : Type} {f : Nat → α → α} {l : List α}
    (h : ∀ i a, l[i]? = some a → f i a = a) : l.mapIdx f = l := by
  apply List.mapIdx_eq_iff.mpr
  intro i
  cases ha : l[i]?
  case none   => rfl
  case some a => simp [h i a ha]

-- A field as a member of a group.
def Node.join (group : NodeId) (n : Node) : Node :=
  { n with content := n.content.mapField ({ · with oneof := some group }) }

theorem Graph.outline_addOneof {g h : Graph} {message id : NodeId} {name : String}
    {members : List NodeId} (he : g.addOneof message name members = .ok (h, id)) :
    h.outline = (g.outline ++ [({ name, parent := some message, content := .oneof members } : Node)]).mapIdx
      fun j n => if j ∈ members then n.join g.size else n := by
  have ⟨added, hi, _, heq⟩ := addOneof_cases he
  have ⟨_, _, _, hid, _⟩ := insert_cases hi
  apply List.ext_getElem?
  intro j
  rw [List.getElem?_mapIdx, ← outline_insert rfl hi, getElem?_outline, getElem?_outline, heq,
    node?_foldl_modifyField (f := ({ · with oneof := some id })) (fun _ => rfl)]
  split <;> cases added.node? j
  all_goals simp_all [Node.bare, Node.join, Content.bare_mapField]

-- The field of a spec, in a group of its message or in none.
def FieldSpec.field (spec : FieldSpec) (oneof : Option NodeId) : Field where
  typeName := spec.typeName
  number := spec.number
  rule := (spec.rule.bind Rule.ofName?).getD .optional
  proto3Optional := spec.proto3Optional
  keyType := spec.keyType
  oneof := oneof

def MethodSpec.method (spec : MethodSpec) (name : String) : Method where
  name := name
  request := spec.request
  response := spec.response
  requestStream := spec.requestStream
  responseStream := spec.responseStream

namespace Descriptor

-- What the parts of a descriptor make it: a message with fields, or else an enum with values, or else
-- a service with methods, or else a package.
def content (d : Descriptor) : Content :=
  match d.fields, d.values, d.methods with
  | some _, _, _ => .message [] [] []
  | none, some values, _ => .enum (values.map fun (name, number) => ⟨name, number⟩)
  | none, none, some methods => .service (methods.map fun (name, spec) => spec.method name) []
  | none, none, none => .package []

def kind (d : Descriptor) : Kind :=
  d.content.kind

section Message

-- A message at place `id` has its fields at the next places, and its groups after them.
variable (id : NodeId) (fields : List (String × FieldSpec))

def fieldPlace? (name : String) : Option NodeId :=
  (fields.findIdx? (·.1 = name)).map (id + 1 + ·)

def memberPlaces (names : List String) : List NodeId :=
  names.filterMap (fieldPlace? id fields)

-- The place of the group that has the field at a place among its members.
def groupPlace? (oneofs : List (String × List String)) (field : NodeId) : Option NodeId :=
  (oneofs.findIdx? (field ∈ memberPlaces id fields ·.2)).map (id + 1 + fields.length + ·)

def fieldNode (group : Option NodeId) (f : String × FieldSpec) : Node :=
  { name := f.1, parent := some id, content := .field (f.2.field group) }

def fieldNodes (oneofs : List (String × List String)) : List Node :=
  fields.mapIdx fun i f => fieldNode id (groupPlace? id fields oneofs (id + 1 + i)) f

def oneofNode (o : String × List String) : Node :=
  { name := o.1, parent := some id, content := .oneof (memberPlaces id fields o.2) }

def oneofNodes (oneofs : List (String × List String)) : List Node :=
  oneofs.map (oneofNode id fields)

def bodyNodes (oneofs : List (String × List String)) : List Node :=
  fieldNodes id fields oneofs ++ oneofNodes id fields oneofs

@[simp]
theorem length_fieldNodes (oneofs : List (String × List String)) :
    (fieldNodes id fields oneofs).length = fields.length := by
  simp [fieldNodes]

@[simp]
theorem length_oneofNodes (oneofs : List (String × List String)) :
    (oneofNodes id fields oneofs).length = oneofs.length := by
  simp [oneofNodes]

variable {id fields} {name : String} {names : List String} {p : NodeId}
  {oneofs : List (String × List String)}

-- The first field with a name is the one that the name stands for.
theorem exists_of_fieldPlace? (hp : fieldPlace? id fields name = some p) :
    ∃ i f, p = id + 1 + i ∧ fields[i]? = some f ∧ f.1 = name := by
  have ⟨i, hi, heq⟩ := Option.map_eq_some_iff.mp hp
  have ⟨hl, hf, _⟩ := List.findIdx?_eq_some_iff_getElem.mp hi
  exact ⟨i, fields[i], heq.symm, List.getElem?_eq_getElem hl, by simpa using hf⟩

theorem isSome_fieldPlace?_iff : (fieldPlace? id fields name).isSome ↔ ∃ f ∈ fields, f.1 = name := by
  simp [fieldPlace?]

theorem mem_memberPlaces_iff (hp : fieldPlace? id fields name = some p) :
    p ∈ memberPlaces id fields names ↔ name ∈ names := by
  rw [memberPlaces, List.mem_filterMap]
  constructor
  · intro ⟨name', hn, hp'⟩
    have ⟨i, f, hi, hf, hname⟩ := exists_of_fieldPlace? hp
    have ⟨i', f', hi', hf', hname'⟩ := exists_of_fieldPlace? hp'
    have : i = i' := Nat.add_left_cancel (hi.symm.trans hi')
    rw [this, hf', Option.some.injEq] at hf
    rwa [← hname, ← hf, hname']
  · exact fun hn => ⟨name, hn, hp⟩

theorem bounds_of_mem_memberPlaces (hp : p ∈ memberPlaces id fields names) :
    id + 1 ≤ p ∧ p < id + 1 + fields.length := by
  have ⟨_, _, hp⟩ := List.mem_filterMap.mp hp
  have ⟨i, f, hi, hf, _⟩ := exists_of_fieldPlace? hp
  have ⟨hl, _⟩ := List.getElem?_eq_some_iff.mp hf
  exact hi ▸ ⟨Nat.le_add_right _ _, Nat.add_lt_add_left hl _⟩

theorem groupPlace?_eq_none_iff :
    groupPlace? id fields oneofs p = none ↔ ∀ o ∈ oneofs, p ∉ memberPlaces id fields o.2 := by
  simp [groupPlace?]

-- Where a field is in no group yet, a new group takes it in.
theorem groupPlace?_concat
    (hn : p ∈ memberPlaces id fields names → groupPlace? id fields oneofs p = none) :
    groupPlace? id fields (oneofs ++ [(name, names)]) p =
      if p ∈ memberPlaces id fields names then some (id + 1 + fields.length + oneofs.length)
      else groupPlace? id fields oneofs p := by
  rw [groupPlace?, List.findIdx?_append, Option.map_or, ← groupPlace?]
  split
  case isTrue hp  => simp [hn hp, hp]
  case isFalse hp => simp [hp]

theorem fieldNodes_join (name : String)
    (hf : ∀ p ∈ memberPlaces id fields names, groupPlace? id fields oneofs p = none) :
    (fieldNodes id fields oneofs).mapIdx (fun i n => if i + 1 + id ∈ memberPlaces id fields names then
      n.join (id + 1 + fields.length + oneofs.length) else n) =
        fieldNodes id fields (oneofs ++ [(name, names)]) := by
  rw [fieldNodes, fieldNodes, List.mapIdx_mapIdx]
  congr 1
  funext i f
  have hi : i + 1 + id = id + 1 + i := by omega
  rw [Function.comp_apply, hi, groupPlace?_concat (hf _)]
  split <;> rfl

-- A new group comes last, and its members are in it.
theorem bodyNodes_concat {before : List Node} {head : Node}
    (hf : ∀ p ∈ memberPlaces before.length fields names,
      groupPlace? before.length fields oneofs p = none) :
    (before ++ head :: bodyNodes before.length fields oneofs ++
      [oneofNode before.length fields (name, names)]).mapIdx (fun j n =>
        if j ∈ memberPlaces before.length fields names then
          n.join (before.length + 1 + fields.length + oneofs.length) else n) =
      before ++ head :: bodyNodes before.length fields (oneofs ++ [(name, names)]) := by
  have low {p : Nat} (hp : p ∈ memberPlaces before.length fields names) : before.length + 1 ≤ p :=
    (bounds_of_mem_memberPlaces hp).left
  have high {p : Nat} (hp : p ∈ memberPlaces before.length fields names) :
      p < before.length + 1 + fields.length :=
    (bounds_of_mem_memberPlaces hp).right
  -- only the fields have places at which a member can be
  have first : before.mapIdx (fun j n => if j ∈ memberPlaces before.length fields names then
      n.join (before.length + 1 + fields.length + oneofs.length) else n) = before := by
    refine mapIdx_eq_self fun j n hj => if_neg fun hm => ?_
    have ⟨hl, _⟩ := List.getElem?_eq_some_iff.mp hj
    exact absurd (low hm) (by omega)
  have second : 0 + before.length ∉ memberPlaces before.length fields names := fun hm =>
    absurd (low hm) (by omega)
  have last (i : Nat) : i + fields.length + 1 + before.length ∉ memberPlaces before.length fields names :=
    fun hm => absurd (high hm) (by omega)
  simp only [bodyNodes, List.mapIdx_append, List.mapIdx_cons, List.mapIdx_nil, List.append_assoc,
    List.cons_append, length_fieldNodes, first, second, last, fieldNodes_join name hf, if_false]
  rw [mapIdx_eq_self fun _ _ _ => rfl]
  simp [oneofNodes]

end Message

-- The fields and groups of a declaration at place `id`.
def body (id : NodeId) (d : Descriptor) : List Node :=
  d.fields.elim [] fun fields => bodyNodes id fields d.oneofs

-- A declaration at place `id`, with its fields and groups.
def ownNodes (parent id : NodeId) (name : String) (d : Descriptor) : List Node :=
  { name, parent := some parent, file := d.filename, content := d.content } :: d.body id

mutual

-- A declaration at place `id` with all that is in it.
def nodes (parent id : NodeId) (name : String) : Descriptor → List Node
  | ⟨filename, nested, fields, oneofs, values, methods⟩ =>
    let own := ownNodes parent id name ⟨filename, [], fields, oneofs, values, methods⟩
    own ++ nodesBelow id (id + own.length) nested

-- Declarations from place `id` on, one after the other.
def nodesBelow (parent id : NodeId) : List (String × Descriptor) → List Node
  | [] => []
  | (name, d) :: rest =>
    let first := nodes parent id name d
    first ++ nodesBelow parent (id + first.length) rest

end

-- The root, and all declarations below it.
def outline (d : Descriptor) : List Node :=
  { name := "", parent := none, file := d.filename, content := .package [] } ::
    nodesBelow Graph.root 1 d.nested

-- The nodes below a node.
inductive Below : Descriptor → Descriptor → Prop
  | child {d c : Descriptor} {name : String} : (name, c) ∈ d.nested → Below c d
  | deeper {d c x : Descriptor} {name : String} : (name, c) ∈ d.nested → Below x c → Below x d

-- What the parts of a node have to keep to: the rules of fields, and the fields that groups name.
structure SoundParts (d : Descriptor) : Prop where
  rules : ∀ fields ∈ d.fields, ∀ f ∈ fields, ∀ rule ∈ f.2.rule,
    rule ∈ ["optional", "required", "repeated"]
  members : ∀ fields ∈ d.fields, ∀ o ∈ d.oneofs, ∀ name ∈ o.2, ∃ f ∈ fields, f.1 = name
  apart : d.kind = .message → d.oneofs.Pairwise fun o o' => ∀ name ∈ o.2, name ∉ o'.2

-- And what may stand in a node: only messages and enums in a message or in a service, and nothing in
-- an enum.
structure Sound (d : Descriptor) : Prop extends SoundParts d where
  types_only : d.kind = .message ∨ d.kind = .service →
    ∀ c ∈ d.nested, c.2.kind = .message ∨ c.2.kind = .enum
  closed : d.kind = .enum → d.nested = []

variable {d : Descriptor}

theorem kind_mem : d.kind ∈ [Kind.message, .enum, .service, .package] := by
  unfold kind content
  split <;> simp [Content.kind]

theorem package_admits : Kind.package.admits d.kind := by
  have hd := d.kind_mem
  revert hd
  cases d.kind <;> decide

theorem admits_iff {c : Descriptor} : d.kind.admits c.kind = true ↔
    (d.kind = .message ∨ d.kind = .service → c.kind = .message ∨ c.kind = .enum) ∧ d.kind ≠ .enum := by
  have hd := d.kind_mem
  have hc := c.kind_mem
  revert hd hc
  cases d.kind <;> cases c.kind <;> decide

-- Only messages have parts that something can be wrong with.
theorem soundParts_of_no_fields (hf : d.fields = none) : d.SoundParts where
  rules := by simp [hf]
  members := by simp [hf]
  apart hk := by
    unfold kind content at hk
    rw [hf] at hk
    split at hk <;> simp_all [Content.kind]

theorem soundParts_iff {fields : List (String × FieldSpec)} (hf : d.fields = some fields) :
    d.SoundParts ↔
      (∀ f ∈ fields, ∀ rule ∈ f.2.rule, rule ∈ ["optional", "required", "repeated"]) ∧
      (∀ o ∈ d.oneofs, ∀ name ∈ o.2, ∃ f ∈ fields, f.1 = name) ∧
      d.oneofs.Pairwise fun o o' => ∀ name ∈ o.2, name ∉ o'.2 := by
  constructor
  · intro s
    have hk : d.kind = .message := by simp [kind, content, hf, Content.kind]
    exact ⟨s.rules fields hf, s.members fields hf, s.apart hk⟩
  · rintro ⟨rules, members, apart⟩
    constructor
    case rules   => simpa [hf] using rules
    case members => simpa [hf] using members
    case apart   => exact fun _ => apart

theorem sound_iff : d.Sound ↔ d.SoundParts ∧ ∀ c ∈ d.nested, d.kind.admits c.2.kind := by
  constructor
  · intro s
    refine ⟨s.toSoundParts, fun c hc => admits_iff.mpr ⟨fun hk => s.types_only hk c hc, fun hk => ?_⟩⟩
    rw [s.closed hk] at hc
    contradiction
  · intro ⟨parts, ha⟩
    refine ⟨parts, fun hk c hc => (admits_iff.mp (ha c hc)).left hk, fun hk => ?_⟩
    refine List.eq_nil_iff_forall_not_mem.mpr fun c hc => ?_
    exact (admits_iff.mp (ha c hc)).right hk

theorem forall_below_iff {P : Descriptor → Prop} : (∀ x, x.Below d → P x) ↔
    ∀ c ∈ d.nested, P c.2 ∧ ∀ x, x.Below c.2 → P x := by
  constructor
  · exact fun h c hc => ⟨h _ (.child hc), fun x hx => h x (.deeper hc hx)⟩
  · intro h x hx
    cases hx
    case child hc     => exact (h _ hc).left
    case deeper hx hc => exact (h _ hc).right x hx

-- A node and all nodes below it are sound, told of its children.
theorem sound_tree_iff : (d.Sound ∧ ∀ x : Descriptor, x.Below d → x.Sound) ↔
    d.SoundParts ∧ ∀ c ∈ d.nested,
      d.kind.admits c.2.kind ∧ c.2.Sound ∧ ∀ x : Descriptor, x.Below c.2 → x.Sound := by
  rw [sound_iff, forall_below_iff, and_assoc]
  refine and_congr_right fun _ => ?_
  simp only [forall_and]

end Descriptor

end ProtoTypings
