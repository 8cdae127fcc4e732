import Mathlib
import ProtoTypings.Schema.Graph

namespace ProtoTypings

theorem exists_of_bind_eq_ok {ε α β : Type} {x : Except ε α} {f : α → Except ε β} {b : β}
    (h : x >>= f = .ok b) : ∃ a, x = .ok a ∧ f a = .ok b := by
  cases x
  case error => contradiction
  case ok a  => exact ⟨a, rfl, h⟩

theorem exists_of_map_eq_ok {ε α β : Type} {x : Except ε α} {f : α → β} {b : β}
    (h : x.map f = .ok b) : ∃ a, x = .ok a ∧ f a = b := by
  cases x
  case error => contradiction
  case ok a  => exact ⟨a, rfl, by injection h⟩

-- The lists in which a node has the nodes below it.
inductive Slot where
  | declarations
  | fields
  | oneofs
  deriving DecidableEq

-- The list in which a node of a kind is entered.
def Kind.slot : Kind → Slot
  | field | mapField => .fields
  | oneof => .oneofs
  | _ => .declarations

theorem Kind.slot_of_isType {k : Kind} (h : k.isType = true) : k.slot = .declarations := by
  cases k <;> simp_all [isType, slot]

namespace Content

def slot : Slot → Content → List NodeId
  | .declarations, c => c.children
  | .fields, message fields _ _ => fields
  | .oneofs, message _ oneofs _ => oneofs
  | _, _ => []

theorem field_not_admits (data : Field) (k : Kind) : (field data).kind.admits k = false := by
  cases h : data.keyType <;> simp [kind, h, Kind.admits]

theorem slot_link {c : Content} {k : Kind} (h : c.kind.admits k) (id : NodeId) (σ : Slot) :
    (c.link id k).slot σ = c.slot σ ++ if k.slot = σ then [id] else [] := by
  cases c
  case field data => simp [field_not_admits] at h
  all_goals
    cases k <;> cases σ <;>
      simp_all [link, slot, children, kind, Kind.admits, Kind.slot, Kind.isType]

@[simp]
theorem kind_link {c : Content} (id : NodeId) (k : Kind) : (c.link id k).kind = c.kind := by
  cases c <;> cases k <;> rfl

-- Methods are no nodes.
theorem kind_ne_method (c : Content) : c.kind ≠ .method := by
  cases c
  case field data => cases h : data.keyType <;> simp [kind, h]
  all_goals simp [kind]

theorem kind_mapField {c : Content} {f : Field → Field} (h : ∀ d, (f d).keyType = d.keyType) :
    (c.mapField f).kind = c.kind := by
  cases c <;> simp [mapField, kind, h]

@[simp]
theorem slot_mapField {c : Content} {f : Field → Field} (σ : Slot) :
    (c.mapField f).slot σ = c.slot σ := by
  cases c <;> cases σ <;> rfl

end Content

namespace Graph

-- A call that changes a graph.
inductive Edit where
  | addPackage (parent : NodeId) (name : String)
  | addMessage (parent : NodeId) (name : String)
  | addEnum (parent : NodeId) (name : String) (values : List EnumValue)
  | addService (parent : NodeId) (name : String)
  | addField (message : NodeId) (name : String) (field : Field)
  | addMethod (service : NodeId) (method : Method)
  | addOneof (message : NodeId) (name : String) (members : List NodeId)
  | setFile (id : NodeId) (file : String)
  | resolve (field target : NodeId)

def edit (g : Graph) : Edit → Except SchemaError Graph
  | .addPackage parent name => (g.addPackage parent name).map Prod.fst
  | .addMessage parent name => (g.addMessage parent name).map Prod.fst
  | .addEnum parent name values => (g.addEnum parent name values).map Prod.fst
  | .addService parent name => (g.addService parent name).map Prod.fst
  | .addField message name field => (g.addField message name field).map Prod.fst
  | .addMethod service method => g.addMethod service method
  | .addOneof message name members => (g.addOneof message name members).map Prod.fst
  | .setFile id file => .ok (g.setFile id file)
  | .resolve field target => g.resolve field target

-- The graphs that can be built, starting from the root alone.
inductive Reachable : Graph → Prop
  | empty : Reachable .empty
  | edit {g h : Graph} {e : Edit} : Reachable g → g.edit e = .ok h → Reachable h

variable {g h : Graph}

-- The graph that a list of calls builds, if none of them fails.
def ofEdits (edits : List Edit) : Except SchemaError Graph :=
  edits.foldlM edit empty

theorem reachable_of_foldlM (r : g.Reachable) {edits : List Edit} (he : edits.foldlM edit g = .ok h) :
    h.Reachable := by
  induction edits generalizing g
  case nil =>
    cases he
    exact r
  case cons e edits hi =>
    rw [List.foldlM_cons] at he
    have ⟨i, hs, he⟩ := exists_of_bind_eq_ok he
    exact hi (r.edit hs) he

theorem reachable_of_ofEdits (edits : List Edit) (he : ofEdits edits = .ok g) : g.Reachable :=
  reachable_of_foldlM .empty he

def slot (g : Graph) (σ : Slot) (id : NodeId) : List NodeId :=
  (g.node? id).elim [] (·.content.slot σ)

theorem slot_declarations (id : NodeId) : g.slot .declarations id = g.children id :=
  rfl

theorem node?_modify (id j : NodeId) (f : Node → Node) :
    (g.modify id f).node? j = if id = j then (g.node? j).map f else g.node? j :=
  Array.getElem?_modify

theorem node?_eq_none_iff (id : NodeId) : g.node? id = none ↔ g.size ≤ id :=
  Array.getElem?_eq_none_iff

theorem lt_size_of_kind? {id : NodeId} {k : Kind} (hk : g.kind? id = some k) : id < g.size := by
  by_contra h
  simp [kind?, (node?_eq_none_iff id).mpr (Nat.le_of_not_lt h)] at hk

-- Two graphs that differ at most in names, files, and what fields, enums and services are about.
structure SameShape (g h : Graph) : Prop where
  size : h.size = g.size
  parent : ∀ id, h.parent? id = g.parent? id
  kind : ∀ id, h.kind? id = g.kind? id
  slot : ∀ σ id, h.slot σ id = g.slot σ id

-- One graph is the other with a new node in it.
structure Grown (g : Graph) (above : NodeId) (k : Kind) (h : Graph) : Prop where
  size : h.size = g.size + 1
  parent : ∀ id, h.parent? id = if id = g.size then some above else g.parent? id
  kind : ∀ id, h.kind? id = if id = g.size then some k else g.kind? id
  slot : ∀ σ id, h.slot σ id = g.slot σ id ++ if id = above ∧ k.slot = σ then [g.size] else []
  admitted : ∃ j, g.kind? above = some j ∧ j.admits k

namespace SameShape

theorem refl (g : Graph) : SameShape g g :=
  ⟨rfl, fun _ => rfl, fun _ => rfl, fun _ _ => rfl⟩

theorem trans {i : Graph} (e : SameShape g h) (e' : SameShape h i) : SameShape g i where
  size := e'.size.trans e.size
  parent id := (e'.parent id).trans (e.parent id)
  kind id := (e'.kind id).trans (e.kind id)
  slot σ id := (e'.slot σ id).trans (e.slot σ id)

end SameShape

theorem Grown.trans_sameShape {i : Graph} {above : NodeId} {k : Kind}
    (e : Grown g above k h) (e' : SameShape h i) : Grown g above k i where
  size := e'.size.trans e.size
  parent id := (e'.parent id).trans (e.parent id)
  kind id := (e'.kind id).trans (e.kind id)
  slot σ id := (e'.slot σ id).trans (e.slot σ id)
  admitted := e.admitted

-- The nodes of one graph are in the other, below the same nodes and of the same kinds.
structure Extends (g h : Graph) : Prop where
  parent : ∀ {id}, id < g.size → h.parent? id = g.parent? id
  kind : ∀ {id}, id < g.size → h.kind? id = g.kind? id

theorem SameShape.extends (e : SameShape g h) : Extends g h :=
  ⟨fun _ => e.parent _, fun _ => e.kind _⟩

theorem Grown.extends {above : NodeId} {k : Kind} (e : Grown g above k h) : Extends g h where
  parent hl := by rw [e.parent, if_neg (Nat.ne_of_lt hl)]
  kind hl := by rw [e.kind, if_neg (Nat.ne_of_lt hl)]

theorem modify_sameShape {id : NodeId} {f : Node → Node} (hp : ∀ n, (f n).parent = n.parent)
    (hc : ∀ n, g.node? id = some n →
      (f n).content.kind = n.content.kind ∧ ∀ σ, (f n).content.slot σ = n.content.slot σ) :
    SameShape g (g.modify id f) where
  size := Array.size_modify
  parent j := by
    simp only [parent?, node?_modify]
    split <;> cases g.node? j <;> simp [hp]
  kind j := by
    simp only [kind?, node?_modify]
    split <;> cases hn : g.node? j <;> simp_all
  slot σ j := by
    simp only [slot, node?_modify]
    split <;> cases hn : g.node? j <;> simp_all

theorem modifyField_sameShape {id : NodeId} {f : Field → Field}
    (hf : ∀ d, (f d).keyType = d.keyType) : SameShape g (g.modifyField id f) :=
  modify_sameShape (fun _ => rfl) fun _ _ => ⟨Content.kind_mapField hf, fun _ => by simp⟩

theorem setFile_sameShape (id : NodeId) (file : String) : SameShape g (g.setFile id file) :=
  modify_sameShape (fun _ => rfl) fun _ _ => ⟨rfl, fun _ => rfl⟩

theorem foldl_modifyField_sameShape {ids : List NodeId} {f : Field → Field}
    (hf : ∀ d, (f d).keyType = d.keyType) :
    SameShape g (ids.foldl (fun h id => h.modifyField id f) g) := by
  induction ids generalizing g
  case nil           => exact .refl g
  case cons id _ hi  => exact (modifyField_sameShape hf).trans hi

-- What an insertion does: a new node stands at the end, and the node above it is linked to it.
theorem insert_cases {above id : NodeId} {name : String} {c : Content}
    (hi : g.insert above name c = .ok (h, id)) : ∃ n, g.node? above = some n ∧
      n.content.kind.admits c.kind ∧ id = g.size ∧ h.size = g.size + 1 ∧
      ∀ j, h.node? j = if j = g.size then some { name, parent := some above, content := c }
        else if j = above then some { n with content := n.content.link g.size c.kind }
        else g.node? j := by
  simp only [insert] at hi
  split at hi
  case h_1 => contradiction
  case h_2 n hn =>
    split at hi <;> simp only [reduceCtorEq, Except.ok.injEq, Prod.mk.injEq] at hi
    have ⟨hh, hid⟩ := hi
    refine ⟨n, hn, ‹_›, hid.symm, by simp [← hh, size, modify], fun j => ?_⟩
    have ha : above < g.size := by
      by_contra ha
      simp [(node?_eq_none_iff above).mpr (Nat.le_of_not_lt ha)] at hn
    rw [← hh, node?_modify]
    simp only [node?, size, Array.getElem?_push] at hn ha ⊢
    by_cases h₁ : j = g.nodes.size
    · simp [h₁, Nat.ne_of_lt ha]
    · by_cases h₂ : j = above
      · simp [h₂, hn, Nat.ne_of_lt ha]
      · simp [h₁, h₂, Ne.symm h₂]

-- A new node is entered in the list of its parent, and all else stays as it was.
theorem insert_grown {above id : NodeId} {name : String} {c : Content} (hc : ∀ σ, c.slot σ = [])
    (hi : g.insert above name c = .ok (h, id)) : Grown g above c.kind h := by
  have ⟨n, hn, ha, _, hs, hnode⟩ := insert_cases hi
  have hk : g.kind? above = some n.content.kind := by simp [kind?, hn]
  have hl := lt_size_of_kind? hk
  constructor
  case size => exact hs
  case parent =>
    intro j
    simp only [parent?, hnode]
    split <;> [rfl; split <;> simp_all]
  case kind =>
    intro j
    simp only [kind?, hnode]
    split <;> [rfl; split <;> simp_all]
  case slot =>
    intro σ j
    simp only [slot, hnode]
    by_cases h₁ : j = g.size
    · simp [h₁, hc, (node?_eq_none_iff _).mpr le_rfl, Nat.ne_of_gt hl]
    · by_cases h₂ : j = above <;> simp_all [Content.slot_link]
  case admitted => exact ⟨n.content.kind, hk, ha⟩

theorem addMethod_cases {service : NodeId} {method : Method} (he : g.addMethod service method = .ok h) :
    ∃ n methods nested, g.node? service = some n ∧ n.content = .service methods nested ∧
      h = g.modify service fun n => { n with content := .service (methods ++ [method]) nested } := by
  simp only [addMethod] at he
  split at he <;> [contradiction; skip]
  case _ n hn =>
    split at he <;> [skip; contradiction]
    case _ methods nested hs =>
      injection he with he
      exact ⟨n, methods, nested, hn, hs, he.symm⟩

theorem addMethod_sameShape {service : NodeId} {method : Method}
    (he : g.addMethod service method = .ok h) : SameShape g h := by
  have ⟨n, methods, nested, hn, hs, heq⟩ := addMethod_cases he
  refine heq ▸ modify_sameShape (fun _ => rfl) fun n' hn' => ?_
  cases hn.symm.trans hn'
  exact hs ▸ ⟨rfl, fun σ => by cases σ <;> rfl⟩

theorem resolve_cases {field target : NodeId} (he : g.resolve field target = .ok h) :
    g.isType target = true ∧ (g.field? field).isSome ∧
      h = g.modifyField field ({ · with resolved := some target }) := by
  simp only [resolve] at he
  split at he <;> try contradiction
  case h_3 ht _ =>
    split at he <;> [contradiction; split at he <;> [skip; contradiction]]
    injection he with he
    exact ⟨by simp_all [isType], ‹_›, he.symm⟩

theorem resolve_sameShape {field target : NodeId} (he : g.resolve field target = .ok h) :
    SameShape g h := by
  have ⟨_, _, heq⟩ := resolve_cases he
  exact heq ▸ modifyField_sameShape fun _ => rfl

theorem forM_eq_ok_iff {ε α : Type} {f : α → Except ε Unit} {l : List α} :
    l.forM f = .ok () ↔ ∀ a ∈ l, f a = .ok () := by
  induction l
  case nil => simp [pure, Except.pure]
  case cons a l hi =>
    rw [List.forM, List.forall_mem_cons, ← hi]
    cases f a <;> simp [bind, Except.bind]

theorem checkMember_eq_ok_iff {message field : NodeId} {oneof : String} :
    g.checkMember message oneof field = .ok () ↔
      ∃ d, g.field? field = some d ∧ g.parent? field = some message ∧ d.oneof = none := by
  unfold checkMember
  split
  case h_1 d _ =>
    split <;> [cases hd : d.oneof <;> simp_all; simp_all]
  case h_2 => simp_all

theorem addOneof_cases {message id : NodeId} {name : String} {members : List NodeId}
    (he : g.addOneof message name members = .ok (h, id)) :
    ∃ added, g.insert message name (.oneof members) = .ok (added, id) ∧
      (∀ f ∈ members, g.checkMember message name f = .ok ()) ∧
      h = members.foldl (fun h member => h.modifyField member ({ · with oneof := some id })) added := by
  have ⟨(added, _), hi, he⟩ := exists_of_bind_eq_ok he
  have ⟨_, hc, he⟩ := exists_of_bind_eq_ok he
  simp only [pure, Except.pure, Except.ok.injEq, Prod.mk.injEq] at he
  have ⟨hh, hid⟩ := he
  subst hid
  exact ⟨added, hi, forM_eq_ok_iff.mp hc, hh.symm⟩

theorem addOneof_grown {message id : NodeId} {name : String} {members : List NodeId}
    (he : g.addOneof message name members = .ok (h, id)) : Grown g message .oneof h := by
  have ⟨_, hi, _, heq⟩ := addOneof_cases he
  have hg := insert_grown (by rintro ⟨⟩ <;> rfl) hi
  exact heq ▸ hg.trans_sameShape (foldl_modifyField_sameShape fun _ => rfl)

-- What an edit does to the shape of a graph: nothing, or it adds a single node.
theorem edit_shape {e : Edit} (he : g.edit e = .ok h) :
    SameShape g h ∨ ∃ above k, Grown g above k h := by
  cases e
  case addMethod => exact .inl <| addMethod_sameShape he
  case resolve   => exact .inl <| resolve_sameShape he
  case setFile id file =>
    injection he with he
    exact .inl <| he ▸ setFile_sameShape id file
  case addOneof =>
    have ⟨(_, _), he, rfl⟩ := exists_of_map_eq_ok he
    exact .inr ⟨_, _, addOneof_grown he⟩
  all_goals
    have ⟨(_, _), he, rfl⟩ := exists_of_map_eq_ok he
    exact .inr ⟨_, _, insert_grown (by rintro ⟨⟩ <;> rfl) he⟩

-- What holds of the nodes of every graph that can be built. A list of a node has the nodes that are
-- to stand in it, each once and in the order in which they were added.
structure WellFormed (g : Graph) : Prop where
  root_kind : g.kind? root = some .package
  root_parent : g.parent? root = none
  has_parent : ∀ {id}, id ≠ root → id < g.size → ∃ p, g.parent? id = some p
  parent_lt : ∀ {id p}, g.parent? id = some p → p < id
  admitted : ∀ {id p}, g.parent? id = some p →
    ∃ j k, g.kind? p = some j ∧ g.kind? id = some k ∧ j.admits k
  slot_eq : ∀ σ p, g.slot σ p =
    g.ids.filter fun id => g.parent? id = some p ∧ (g.kind? id).map Kind.slot = some σ

theorem empty_wellFormed : WellFormed .empty where
  root_kind := rfl
  root_parent := rfl
  has_parent hn hl := absurd (Nat.lt_one_iff.mp hl) hn
  parent_lt {id p} hp := by cases id <;> simp [empty, parent?, node?] at hp
  admitted {id p} hp := by cases id <;> simp [empty, parent?, node?] at hp
  slot_eq σ p := by
    have hs : Graph.empty.slot σ p = [] := by cases p <;> cases σ <;> rfl
    rw [hs, eq_comm, List.filter_eq_nil_iff]
    intro id hid
    cases List.mem_singleton.mp hid
    simp [empty, parent?, node?]

namespace WellFormed

theorem of_sameShape (w : g.WellFormed) (e : SameShape g h) : h.WellFormed where
  root_kind := e.kind root ▸ w.root_kind
  root_parent := e.parent root ▸ w.root_parent
  has_parent hn hl := e.parent _ ▸ w.has_parent hn (e.size ▸ hl)
  parent_lt hp := w.parent_lt (e.parent _ ▸ hp)
  admitted hp := by simpa only [e.kind] using w.admitted (e.parent _ ▸ hp)
  slot_eq σ p := by simpa only [e.slot, e.parent, e.kind, ids, e.size] using w.slot_eq σ p

theorem of_grown {above : NodeId} {k : Kind} (w : g.WellFormed) (e : Grown g above k h) :
    h.WellFormed := by
  have ⟨j, hj, ha⟩ := e.admitted
  have old := e.extends
  have hr := lt_size_of_kind? w.root_kind
  constructor
  case root_kind => exact old.kind hr ▸ w.root_kind
  case root_parent => exact old.parent hr ▸ w.root_parent
  case has_parent =>
    intro id hn hl
    rw [e.parent]
    split
    case isTrue => exact ⟨above, rfl⟩
    case isFalse hne =>
      have hl := Nat.lt_succ_iff.mp (e.size ▸ hl)
      exact w.has_parent hn (Nat.lt_of_le_of_ne hl hne)
  case parent_lt =>
    intro id p hp
    rw [e.parent] at hp
    split at hp
    case isTrue hid =>
      cases hp
      exact hid ▸ lt_size_of_kind? hj
    case isFalse => exact w.parent_lt hp
  case admitted =>
    intro id p hp
    rw [e.parent] at hp
    split at hp
    case isTrue hid =>
      cases hp
      exact ⟨j, k, old.kind (lt_size_of_kind? hj) ▸ hj, by rw [e.kind, if_pos hid], ha⟩
    case isFalse =>
      have ⟨i, i', hi, hi', h⟩ := w.admitted hp
      exact ⟨i, i', old.kind (lt_size_of_kind? hi) ▸ hi, old.kind (lt_size_of_kind? hi') ▸ hi', h⟩
  case slot_eq =>
    intro σ p
    rw [e.slot, w.slot_eq, ids, ids, e.size, List.range_succ, List.filter_append]
    congr 1
    · apply List.filter_congr
      intro id hid
      rw [old.parent (List.mem_range.mp hid), old.kind (List.mem_range.mp hid)]
    · have hn : h.parent? g.size = some above := by simp [e.parent]
      have hk : h.kind? g.size = some k := by simp [e.kind]
      by_cases hp : p = above
      · simp [List.filter_singleton, hn, hk, hp]
      · simp [hn, hp, Ne.symm hp]

end WellFormed

theorem Reachable.wellFormed (r : g.Reachable) : g.WellFormed := by
  induction r
  case empty => exact empty_wellFormed
  case edit he hi =>
    cases edit_shape he
    case inl e => exact hi.of_sameShape e
    case inr e =>
      have ⟨_, _, e⟩ := e
      exact hi.of_grown e

end Graph

end ProtoTypings
