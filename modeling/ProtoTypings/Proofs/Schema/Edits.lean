import Mathlib
import ProtoTypings.Proofs.Schema.Links

namespace ProtoTypings

-- What a node of one kind has room for.
inductive Kind.Holds : Kind → Kind → Prop
  | declaration {k : Kind} : k ∈ [package, message, enum, service] → Holds package k
  | nested {j k : Kind} : j ∈ [message, service] → k ∈ [message, enum] → Holds j k
  | method : Holds service method
  | part {k : Kind} : k ∈ [field, mapField, oneof] → Holds message k

theorem Kind.admits_iff_holds {j k : Kind} : j.admits k = true ↔ j.Holds k := by
  constructor
  · intro h
    cases j <;> cases k <;> first
      | contradiction
      | exact .declaration (by decide)
      | exact .nested (by decide) (by decide)
      | exact .method
      | exact .part (by decide)
  · intro h
    cases h
    case declaration h => fin_cases h <;> rfl
    case nested h h'   => fin_cases h <;> fin_cases h' <;> rfl
    case method        => rfl
    case part h        => fin_cases h <;> rfl

theorem Kind.holds_oneof_iff {k : Kind} : k.Holds .oneof ↔ k = .message := by
  rw [← admits_iff_holds]
  cases k <;> decide

-- A node is entered at the end of one list of the node above it.
inductive Content.Enters (child : NodeId) : Kind → Content → Content → Prop
  | declaration {k : Kind} {children : List NodeId} : k ∈ [.package, .message, .enum, .service] →
    Enters child k (.package children) (.package (children ++ [child]))
  | field {k : Kind} {fields oneofs nested : List NodeId} : k ∈ [.field, .mapField] →
    Enters child k (.message fields oneofs nested) (.message (fields ++ [child]) oneofs nested)
  | oneof {fields oneofs nested : List NodeId} :
    Enters child .oneof (.message fields oneofs nested) (.message fields (oneofs ++ [child]) nested)
  | nested {k : Kind} {fields oneofs nested : List NodeId} : k ∈ [.message, .enum] →
    Enters child k (.message fields oneofs nested) (.message fields oneofs (nested ++ [child]))
  | serviced {k : Kind} {methods : List Method} {nested : List NodeId} : k ∈ [.message, .enum] →
    Enters child k (.service methods nested) (.service methods (nested ++ [child]))

-- Methods are entered apart from nodes.
theorem Content.enters_link {c : Content} {k : Kind} (child : NodeId) (h : c.kind.admits k = true)
    (hk : k ≠ .method) : c.Enters child k (c.link child k) := by
  cases c
  case field data => simp [field_not_admits] at h
  all_goals
    cases k <;> first
      | contradiction
      | exact .declaration (by decide)
      | exact .field (by decide)
      | exact .oneof
      | exact .nested (by decide)
      | exact .serviced (by decide)

namespace Graph

namespace Edit

-- What an edit puts into a node: the node, and the name and the kind of what is put there.
def child? : Edit → Option (NodeId × String × Kind)
  | addPackage parent name => some (parent, name, .package)
  | addMessage parent name => some (parent, name, .message)
  | addEnum parent name _ => some (parent, name, .enum)
  | addService parent name => some (parent, name, .service)
  | addField message name field => some (message, name, if field.keyType.isSome then .mapField else .field)
  | addMethod service method => some (service, method.name, .method)
  | addOneof message name _ => some (message, name, .oneof)
  | setFile .. | resolve .. => none

-- The node that an edit adds.
def added? : Edit → Option Node
  | addPackage parent name => some { name, parent := some parent, content := .package [] }
  | addMessage parent name => some { name, parent := some parent, content := .message [] [] [] }
  | addEnum parent name values => some { name, parent := some parent, content := .enum values }
  | addService parent name => some { name, parent := some parent, content := .service [] [] }
  | addField message name field => some { name, parent := some message, content := .field field }
  | addOneof message name members => some { name, parent := some message, content := .oneof members }
  | addMethod .. | setFile .. | resolve .. => none

-- The nodes that an edit is about.
def nodes : Edit → List NodeId
  | addOneof message _ members => message :: members
  | setFile id _ => [id]
  | resolve field target => [field, target]
  | e => e.child?.elim [] fun child => [child.1]

-- The nodes with new content.
def touched : Edit → List NodeId
  | addOneof message _ members => message :: members
  | resolve field _ => [field]
  | e => e.child?.elim [] fun child => [child.1]

-- The file that a node is given.
def file? (id : NodeId) : Edit → Option String
  | setFile id' file => if id' = id then some file else none
  | _ => none

-- A field of a message that is in no group.
def Free (g : Graph) (message field : NodeId) : Prop :=
  ∃ data, g.field? field = some data ∧ g.parent? field = some message ∧ data.oneof = none

-- Why an edit can not be made. The members of a group are looked at one after another.
inductive Fault (g : Graph) : Edit → SchemaError → Prop
  | misplaced {e : Edit} {parent : NodeId} {name : String} {above k : Kind} :
    e.child? = some (parent, name, k) → g.kind? parent = some above → ¬above.Holds k →
      Fault g e (.misplaced (g.fullName parent) above name k)
  | unknownMember {message member : NodeId} {name : String} {front back : List NodeId} :
    g.kind? message = some .message → (∀ f ∈ front, Free g message f) →
      (∀ data, g.field? member = some data → g.parent? member ≠ some message) →
      Fault g (addOneof message name (front ++ member :: back))
        (.unknownMember (g.fullName message) name (g.fullName member))
  | alreadyGrouped {message member group : NodeId} {name : String} {front back : List NodeId} {data : Field} :
    g.kind? message = some .message → (∀ f ∈ front, Free g message f) →
      g.field? member = some data → g.parent? member = some message → data.oneof = some group →
      Fault g (addOneof message name (front ++ member :: back))
        (.alreadyGrouped (g.fullName member) (g.name group))
  | notAType {field target : NodeId} {k : Kind} : g.kind? target = some k → k.isType = false →
      Fault g (resolve field target) (.notAType (g.fullName target) k)
  | notAField {field target : NodeId} {k : Kind} : g.isType target = true → g.field? field = none →
      g.kind? field = some k → Fault g (resolve field target) (.notAType (g.fullName field) k)

-- What becomes of the content of a node.
inductive Alters (g : Graph) (id : NodeId) : Edit → Content → Content → Prop
  | enter {e : Edit} {name : String} {k : Kind} {c c' : Content} :
    e.child? = some (id, name, k) → c.Enters g.size k c' → Alters g id e c c'
  | method {method : Method} {methods : List Method} {nested : List NodeId} :
    Alters g id (addMethod id method) (.service methods nested) (.service (methods ++ [method]) nested)
  | group {message : NodeId} {name : String} {members : List NodeId} {data : Field} : id ∈ members →
    Alters g id (addOneof message name members) (.field data) (.field { data with oneof := some g.size })
  | resolve {target : NodeId} {data : Field} :
    Alters g id (resolve id target) (.field data) (.field { data with resolved := some target })
  | keep {e : Edit} {c : Content} : id ∉ e.touched → Alters g id e c c

-- All that a successful edit does to a graph.
structure Changes (e : Edit) (g h : Graph) : Prop where
  old : ∀ {id n}, g.node? id = some n → ∃ n', h.node? id = some n' ∧ n'.name = n.name ∧
    n'.parent = n.parent ∧ n'.file = (e.file? id).or n.file ∧ Alters g id e n.content n'.content
  new : ∀ {id}, g.size ≤ id → h.node? id = if id = g.size then e.added? else none

end Edit

variable {g h : Graph} {err : SchemaError}

theorem exists_node {id : NodeId} (hl : id < g.size) : ∃ n, g.node? id = some n :=
  Option.ne_none_iff_exists'.mp fun hn => Nat.not_le_of_lt hl ((node?_eq_none_iff id).mp hn)

theorem lt_size_of_node? {id : NodeId} {n : Node} (hn : g.node? id = some n) : id < g.size := by
  by_contra hl
  simp [(node?_eq_none_iff id).mpr (Nat.le_of_not_lt hl)] at hn

theorem exists_content_of_field? {id : NodeId} {n : Node} (hn : g.node? id = some n)
    (hf : (g.field? id).isSome) : ∃ data, n.content = .field data := by
  rw [field?, hn, Option.bind_some] at hf
  cases hc : n.content
  case field data => exact ⟨data, rfl⟩
  all_goals simp [hc, Content.field?] at hf

-- When an edit fails, and with which error.

theorem map_eq_error_iff {ε α β : Type} {x : Except ε α} {f : α → β} {e : ε} :
    x.map f = .error e ↔ x = .error e := by
  cases x <;> simp [Except.map]

theorem forM_eq_error_iff {ε α : Type} {f : α → Except ε Unit} {l : List α} {e : ε} :
    l.forM f = .error e ↔ ∃ front a back, l = front ++ a :: back ∧ (∀ b ∈ front, f b = .ok ()) ∧
      f a = .error e := by
  induction l
  case nil => simp [pure, Except.pure]
  case cons a l hi =>
    rw [List.forM]
    cases hf : f a
    case error e' =>
      constructor
      · rintro ⟨⟩
        exact ⟨[], a, l, rfl, by simp, hf⟩
      · rintro ⟨front, b, back, hl, hok, hb⟩
        cases front
        case nil =>
          cases hl
          exact (hf.symm.trans hb)
        case cons => simp_all
    case ok u =>
      refine hi.trans ⟨?_, ?_⟩
      · rintro ⟨front, b, back, rfl, hok, hb⟩
        exact ⟨a :: front, b, back, rfl, List.forall_mem_cons.mpr ⟨hf, hok⟩, hb⟩
      · rintro ⟨front, b, back, hl, hok, hb⟩
        cases front
        case nil => simp_all
        case cons c front =>
          cases hl
          exact ⟨front, b, back, rfl, (List.forall_mem_cons.mp hok).right, hb⟩

theorem insert_eq_error_iff {parent : NodeId} {name : String} {c : Content} (hl : parent < g.size) :
    g.insert parent name c = .error err ↔ ∃ above, g.kind? parent = some above ∧ ¬above.Holds c.kind ∧
      err = .misplaced (g.fullName parent) above name c.kind := by
  obtain ⟨n, hn⟩ := exists_node hl
  simp only [insert, hn, kind?, Option.map_some, Option.some.injEq, exists_eq_left']
  rw [← Kind.admits_iff_holds]
  by_cases ha : n.content.kind.admits c.kind = true
  case pos => simp [ha]
  case neg => simp [ha, eq_comm]

theorem addMethod_eq_error_iff {service : NodeId} {method : Method} (hl : service < g.size) :
    g.addMethod service method = .error err ↔ ∃ above, g.kind? service = some above ∧
      ¬above.Holds .method ∧ err = .misplaced (g.fullName service) above method.name .method := by
  obtain ⟨n, hn⟩ := exists_node hl
  simp only [addMethod, hn, kind?, Option.map_some, Option.some.injEq, exists_eq_left']
  rw [← Kind.admits_iff_holds]
  cases hc : n.content
  case service    => simp [Content.kind, Kind.admits]
  case field data => simp [Content.field_not_admits, eq_comm]
  all_goals simp [Content.kind, Kind.admits, Kind.isType, eq_comm]

theorem checkMember_eq_error_iff {message field : NodeId} {name : String} :
    g.checkMember message name field = .error err ↔
      ((∀ data, g.field? field = some data → g.parent? field ≠ some message) ∧
        err = .unknownMember (g.fullName message) name (g.fullName field)) ∨
      ∃ data group, g.field? field = some data ∧ g.parent? field = some message ∧
        data.oneof = some group ∧ err = .alreadyGrouped (g.fullName field) (g.name group) := by
  unfold checkMember
  cases hf : g.field? field
  case none => simp [eq_comm]
  case some data =>
    dsimp only
    by_cases hp : g.parent? field = some message
    case neg => simp [hp, eq_comm]
    case pos => cases ho : data.oneof <;> simp [hp, ho, eq_comm]

namespace Edit

variable {e : Edit}

-- Only a group has anything else to be checked than where it is to stand.
theorem fault_iff_of_child? {parent : NodeId} {name : String} {k : Kind}
    (hc : e.child? = some (parent, name, k)) (hg : ∀ message name members, e ≠ addOneof message name members) :
    e.Fault g err ↔ ∃ above, g.kind? parent = some above ∧ ¬above.Holds k ∧
      err = .misplaced (g.fullName parent) above name k := by
  constructor
  · rintro (⟨hc', hk, hh⟩ | _ | _ | _ | _)
    · cases hc.symm.trans hc'
      exact ⟨_, hk, hh, rfl⟩
    · exact absurd rfl (hg _ _ _)
    · exact absurd rfl (hg _ _ _)
    all_goals contradiction
  · rintro ⟨above, hk, hh, rfl⟩
    exact .misplaced hc hk hh

theorem fault_addOneof_iff {message : NodeId} {name : String} {members : List NodeId} :
    (addOneof message name members).Fault g err ↔
      (∃ above, g.kind? message = some above ∧ ¬above.Holds .oneof ∧
        err = .misplaced (g.fullName message) above name .oneof) ∨
      (g.kind? message = some .message ∧ members.forM (g.checkMember message name) = .error err) := by
  have free (f : NodeId) : g.checkMember message name f = .ok () ↔ Free g message f := checkMember_eq_ok_iff
  simp only [forM_eq_error_iff, checkMember_eq_error_iff, free]
  constructor
  · rintro (⟨⟨⟩, hk, hh⟩ | ⟨hk, hf, hm⟩ | ⟨hk, hf, hm, hp, ho⟩)
    · exact .inl ⟨_, hk, hh, rfl⟩
    · exact .inr ⟨hk, _, _, _, rfl, hf, .inl ⟨hm, rfl⟩⟩
    · exact .inr ⟨hk, _, _, _, rfl, hf, .inr ⟨_, _, hm, hp, ho, rfl⟩⟩
  · rintro (⟨above, hk, hh, rfl⟩ | ⟨hk, front, f, back, rfl, hf, ⟨hm, rfl⟩ | ⟨data, group, hm, hp, ho, rfl⟩⟩)
    · exact .misplaced rfl hk hh
    · exact .unknownMember hk hf hm
    · exact .alreadyGrouped hk hf hm hp ho

theorem fault_resolve_iff {field target : NodeId} :
    (resolve field target).Fault g err ↔
      (∃ k, g.kind? target = some k ∧ k.isType = false ∧ err = .notAType (g.fullName target) k) ∨
      (g.isType target = true ∧ g.field? field = none ∧
        ∃ k, g.kind? field = some k ∧ err = .notAType (g.fullName field) k) := by
  constructor
  · rintro (⟨⟨⟩, _, _⟩ | _ | _ | ⟨hk, ht⟩ | ⟨ht, hf, hk⟩)
    · exact .inl ⟨_, hk, ht, rfl⟩
    · exact .inr ⟨ht, hf, _, hk, rfl⟩
  · rintro (⟨k, hk, ht, rfl⟩ | ⟨ht, hf, k, hk, rfl⟩)
    · exact .notAType hk ht
    · exact .notAField ht hf hk

end Edit

theorem resolve_eq_error_iff {field target : NodeId} (hf : field < g.size) (ht : target < g.size) :
    g.resolve field target = .error err ↔
      (∃ k, g.kind? target = some k ∧ k.isType = false ∧ err = .notAType (g.fullName target) k) ∨
      (g.isType target = true ∧ g.field? field = none ∧
        ∃ k, g.kind? field = some k ∧ err = .notAType (g.fullName field) k) := by
  obtain ⟨n, hn⟩ := exists_node hf
  obtain ⟨n', hn'⟩ := exists_node ht
  have hk : g.kind? field = some n.content.kind := by simp [kind?, hn]
  have hk' : g.kind? target = some n'.content.kind := by simp [kind?, hn']
  simp only [resolve, isType, hk, hk', Option.any_some, Option.some.injEq, exists_eq_left']
  cases n'.content.kind.isType
  case false => simp [eq_comm]
  case true  => cases g.field? field <;> simp [eq_comm]

theorem addOneof_eq_error_iff {message : NodeId} {name : String} {members : List NodeId}
    (hl : message < g.size) : g.addOneof message name members = .error err ↔
      (∃ above, g.kind? message = some above ∧ ¬above.Holds .oneof ∧
        err = .misplaced (g.fullName message) above name .oneof) ∨
      (g.kind? message = some .message ∧ members.forM (g.checkMember message name) = .error err) := by
  have misplaced (e : SchemaError) : g.insert message name (.oneof members) = .error e ↔
      ∃ above, g.kind? message = some above ∧ ¬above.Holds .oneof ∧
        e = .misplaced (g.fullName message) above name .oneof := insert_eq_error_iff hl
  rw [← misplaced, addOneof]
  cases hi : g.insert message name (.oneof members)
  case error e =>
    obtain ⟨above, hk, hh, _⟩ := (misplaced e).mp hi
    have hne : g.kind? message ≠ some .message := by
      rw [hk, ne_eq, Option.some.injEq]
      exact fun h => hh (Kind.holds_oneof_iff.mpr h)
    simp [hne, bind, Except.bind]
  case ok found =>
    obtain ⟨n, hn, ha, _⟩ := insert_cases hi
    have hk : g.kind? message = some .message := by
      simp [kind?, hn, Kind.holds_oneof_iff.mp (Kind.admits_iff_holds.mp ha)]
    cases members.forM (g.checkMember message name) <;> simp [hk, bind, Except.bind, pure, Except.pure]

-- An edit of nodes that exist fails for a fault of it, and for nothing else.
theorem edit_eq_error_iff {e : Edit} (hl : ∀ id ∈ e.nodes, id < g.size) :
    g.edit e = .error err ↔ e.Fault g err := by
  cases e
  case addOneof message name members =>
    rw [edit, map_eq_error_iff, addOneof_eq_error_iff (hl _ List.mem_cons_self), Edit.fault_addOneof_iff]
  case resolve field target =>
    rw [edit, resolve_eq_error_iff (hl field (by simp [Edit.nodes])) (hl target (by simp [Edit.nodes])),
      Edit.fault_resolve_iff]
  case addMethod service method =>
    rw [edit, addMethod_eq_error_iff (hl service (by simp [Edit.nodes, Edit.child?])),
      Edit.fault_iff_of_child? rfl (by simp)]
  case setFile id file =>
    simp only [edit, reduceCtorEq, false_iff]
    rintro (⟨⟨⟩, _, _⟩ | _)
  all_goals
    rw [edit, map_eq_error_iff, Edit.fault_iff_of_child? rfl (by simp)]
    exact insert_eq_error_iff (hl _ (by simp [Edit.nodes, Edit.child?]))

-- What a successful edit changes.

section Changes

variable {e : Edit}

theorem changes_of_insert {parent id : NodeId} {name : String} {c : Content}
    (hi : g.insert parent name c = .ok (h, id)) (hc : e.child? = some (parent, name, c.kind))
    (ha : e.added? = some { name, parent := some parent, content := c }) (ht : e.touched = [parent])
    (hf : ∀ id, e.file? id = none) : e.Changes g h := by
  obtain ⟨n, hn, admits, _, _, hnode⟩ := insert_cases hi
  constructor
  case old =>
    intro id n' hn'
    rw [hnode, if_neg (Nat.ne_of_lt (lt_size_of_node? hn'))]
    by_cases hp : id = parent
    case pos =>
      subst hp
      cases hn.symm.trans hn'
      refine ⟨_, if_pos rfl, rfl, rfl, by simp [hf], .enter hc (Content.enters_link _ admits ?_)⟩
      exact c.kind_ne_method
    case neg => exact ⟨n', by rw [if_neg hp, hn'], rfl, rfl, by simp [hf], .keep (by simp [ht, hp])⟩
  case new =>
    intro id hs
    have hp : id ≠ parent := Nat.ne_of_gt (Nat.lt_of_lt_of_le (lt_size_of_node? hn) hs)
    rw [hnode, ha, if_neg hp, (node?_eq_none_iff id).mpr hs]

theorem changes_of_modify {id : NodeId} {f : Node → Node} (ha : e.added? = none)
    (hf : ∀ n, g.node? id = some n → (f n).name = n.name ∧ (f n).parent = n.parent ∧
      (f n).file = (e.file? id).or n.file ∧ e.Alters g id n.content (f n).content)
    (hk : ∀ j, j ≠ id → e.file? j = none ∧ j ∉ e.touched) : e.Changes g (g.modify id f) := by
  constructor
  case old =>
    intro j n hn
    rw [node?_modify]
    by_cases hj : id = j
    case pos =>
      subst hj
      exact ⟨f n, by rw [if_pos rfl, hn, Option.map_some], hf n hn⟩
    case neg =>
      obtain ⟨file, untouched⟩ := hk j (Ne.symm hj)
      exact ⟨n, by rw [if_neg hj, hn], rfl, rfl, by rw [file, Option.none_or], .keep untouched⟩
  case new =>
    intro j hs
    rw [node?_modify, (node?_eq_none_iff j).mpr hs, ha]
    simp

theorem isSome_field?_of_checked {message field : NodeId} {name : String}
    (h : g.checkMember message name field = .ok ()) : (g.field? field).isSome := by
  obtain ⟨data, hd, _⟩ := checkMember_eq_ok_iff.mp h
  simp [hd]

-- What has room for a group is no field, and so no member of it.
theorem notMem_of_checked {message id : NodeId} {name : String} {members : List NodeId}
    (hi : g.insert message name (.oneof members) = .ok (h, id))
    (checked : ∀ f ∈ members, g.checkMember message name f = .ok ()) : message ∉ members := by
  intro hm
  obtain ⟨n, hn, admits, _⟩ := insert_cases hi
  obtain ⟨data, hd⟩ := exists_content_of_field? hn (isSome_field?_of_checked (checked message hm))
  rw [hd, Content.field_not_admits] at admits
  contradiction

theorem changes_of_addOneof {message id : NodeId} {name : String} {members : List NodeId}
    (ho : g.addOneof message name members = .ok (h, id)) : (Edit.addOneof message name members).Changes g h := by
  obtain ⟨added, hi, checked, rfl⟩ := addOneof_cases ho
  obtain ⟨n, hn, admits, hid, _, hnode⟩ := insert_cases hi
  have hm : message ∉ members := notMem_of_checked hi checked
  have grouped (j : NodeId) := node?_foldl_modifyField (g := added) (f := ({ · with oneof := some id }))
    (fun _ => rfl) members j
  constructor
  case old =>
    intro j n' hn'
    rw [grouped, hnode, if_neg (Nat.ne_of_lt (lt_size_of_node? hn'))]
    by_cases hj : j ∈ members
    case pos =>
      have hne : j ≠ message := fun h => hm (h ▸ hj)
      obtain ⟨data, hd⟩ := exists_content_of_field? hn' (isSome_field?_of_checked (checked j hj))
      rw [if_pos hj, if_neg hne, hn', hd, hid]
      exact ⟨_, rfl, rfl, rfl, rfl, by simpa [hd, Content.mapField] using .group hj⟩
    case neg =>
      rw [if_neg hj]
      by_cases hp : j = message
      case pos =>
        subst hp
        cases hn.symm.trans hn'
        exact ⟨_, if_pos rfl, rfl, rfl, rfl, .enter rfl (Content.enters_link _ admits (by simp))⟩
      case neg => exact ⟨n', by rw [if_neg hp, hn'], rfl, rfl, rfl, .keep (by simp [Edit.touched, hp, hj])⟩
  case new =>
    intro j hs
    have hj : j ∉ members := by
      intro hj
      obtain ⟨data, hd, _⟩ := checkMember_eq_ok_iff.mp (checked j hj)
      exact Nat.not_le_of_lt (lt_size_of_field? hd) hs
    have hp : j ≠ message := Nat.ne_of_gt (Nat.lt_of_lt_of_le (lt_size_of_node? hn) hs)
    rw [grouped, if_neg hj, hnode, if_neg hp, (node?_eq_none_iff j).mpr hs]
    rfl

theorem edit_changes (he : g.edit e = .ok h) : e.Changes g h := by
  cases e
  case addOneof =>
    obtain ⟨⟨_, _⟩, ho, rfl⟩ := exists_of_map_eq_ok he
    exact changes_of_addOneof ho
  case addMethod service method =>
    obtain ⟨n, methods, nested, hn, hc, rfl⟩ := addMethod_cases he
    refine changes_of_modify rfl (fun n' hn' => ⟨rfl, rfl, rfl, ?_⟩)
      fun j hj => ⟨rfl, by simpa [Edit.touched, Edit.child?] using hj⟩
    cases hn.symm.trans hn'
    exact hc ▸ .method
  case setFile id file =>
    cases he
    refine changes_of_modify rfl (fun n hn => ⟨rfl, rfl, ?_, .keep ?_⟩) fun j hj => ⟨?_, ?_⟩
    · simp [Edit.file?]
    · simp [Edit.touched, Edit.child?]
    · simp [Edit.file?, Ne.symm hj]
    · simp [Edit.touched, Edit.child?]
  case resolve field target =>
    obtain ⟨_, hf, rfl⟩ := resolve_cases he
    refine changes_of_modify rfl (fun n hn => ⟨rfl, rfl, rfl, ?_⟩)
      fun j hj => ⟨rfl, by simpa [Edit.touched] using hj⟩
    obtain ⟨data, hd⟩ := exists_content_of_field? hn hf
    rw [hd]
    exact .resolve
  all_goals
    obtain ⟨⟨_, _⟩, hi, rfl⟩ := exists_of_map_eq_ok he
    exact changes_of_insert hi rfl rfl rfl fun _ => rfl

end Changes

end Graph

-- The steps of edits, and what they check first.

namespace Graph

def push (g : Graph) (n : Node) : Graph :=
  ⟨g.nodes.push n⟩

-- Whether a node has room for another one.
def checkPlace (g : Graph) (parent : NodeId) (name : String) (k : Kind) : Except SchemaError Unit :=
  match g.node? parent with
  | none => .error (.noSuchNode parent)
  | some above =>
    if above.content.kind.admits k then .ok ()
    else .error (.misplaced (g.fullName parent) above.content.kind name k)

theorem checkPlace_eq {g : Graph} (parent : NodeId) (name : String) (c : Content) :
    g.checkPlace parent name c.kind = (g.insert parent name c).map fun _ => () := by
  rw [checkPlace, insert]
  cases g.node? parent
  case none => rfl
  case some above =>
    dsimp only
    split <;> rfl

theorem insert_eq_of_ok {g : Graph} {parent : NodeId} {name : String} {c : Content} {found : Graph × NodeId}
    (hi : g.insert parent name c = .ok found) :
    found = ((g.push { name, parent := some parent, content := c }).modify parent fun n =>
      { n with content := n.content.link g.size c.kind }, g.size) := by
  rw [insert] at hi
  split at hi <;> [contradiction; skip]
  split at hi <;> [skip; contradiction]
  exact (Except.ok.inj hi).symm

-- Whether a field can point at a node.
def checkTarget (g : Graph) (target : NodeId) : Except SchemaError Unit :=
  match g.kind? target with
  | none => .error (.noSuchNode target)
  | some k => if k.isType then .ok () else .error (.notAType (g.fullName target) k)

-- Whether a node can point at its type.
def checkField (g : Graph) (field : NodeId) : Except SchemaError Unit :=
  match g.kind? field with
  | none => .error (.noSuchNode field)
  | some k => if (g.field? field).isSome then .ok () else .error (.notAType (g.fullName field) k)

variable {g h : Graph}

theorem ext_node? (heq : ∀ id, g.node? id = h.node? id) : g = h := by
  cases g
  cases h
  exact congrArg mk (Array.ext_getElem? heq)

theorem modify_congr {id : NodeId} {f f' : Node → Node} (hf : ∀ n, g.node? id = some n → f n = f' n) :
    g.modify id f = g.modify id f' := by
  refine ext_node? fun j => ?_
  rw [node?_modify, node?_modify]
  by_cases hj : id = j
  case pos =>
    subst hj
    rw [if_pos rfl, if_pos rfl]
    exact Option.map_congr fun n hn => hf n hn
  case neg => rw [if_neg hj, if_neg hj]

theorem modify_comm {a b : NodeId} (hne : a ≠ b) (f f' : Node → Node) :
    (g.modify a f).modify b f' = (g.modify b f').modify a f := by
  refine ext_node? fun j => ?_
  simp only [node?_modify]
  by_cases ha : a = j
  case pos => simp [← ha, hne.symm]
  case neg => simp [ha]

theorem foldl_modifyField_modify {id : NodeId} {members : List NodeId} (hm : id ∉ members)
    (f : Field → Field) (f' : Node → Node) :
    members.foldl (fun h member => h.modifyField member f) (g.modify id f') =
      (members.foldl (fun h member => h.modifyField member f) g).modify id f' := by
  induction members generalizing g
  case nil => rfl
  case cons member members hi =>
    simp only [List.mem_cons, not_or] at hm
    obtain ⟨hne, hm⟩ := hm
    rw [List.foldl_cons, List.foldl_cons, ← hi hm, modifyField, modify_comm hne, modifyField]

end Graph

-- Work on one graph that is changed in place. What is changed before an error stays changed.
abbrev Builder : Type → Type :=
  EStateM SchemaError Graph

namespace Builder

def push (parent : NodeId) (name : String) (content : Content) : Builder NodeId := do
  let g ← get
  set (g.push { name, parent := some parent, content })
  return g.size

def update (id : NodeId) (f : Node → Node) : Builder Unit :=
  modify fun g => g.modify id f

def link (parent child : NodeId) (k : Kind) : Builder Unit :=
  update parent fun n => { n with content := n.content.link child k }

-- A check of the graph as it is.
def check (p : Graph → Except SchemaError Unit) : Builder Unit := do
  match p (← get) with
  | .ok _ => return
  | .error e => throw e

def insert (parent : NodeId) (name : String) (content : Content) : Builder NodeId := do
  check fun g => g.checkPlace parent name content.kind
  let id ← push parent name content
  link parent id content.kind
  return id

def addOneof (message : NodeId) (name : String) (members : List NodeId) : Builder NodeId := do
  check fun g => g.checkPlace message name .oneof
  members.forM fun member => check fun g => g.checkMember message name member
  let id ← push message name (.oneof members)
  members.forM fun member => modify fun g => g.modifyField member ({ · with oneof := some id })
  link message id .oneof
  return id

def addMethod (service : NodeId) (method : Method) : Builder Unit := do
  check fun g => g.checkPlace service method.name .method
  update service fun n =>
    match n.content with
    | .service methods nested => { n with content := .service (methods ++ [method]) nested }
    | _ => n

def resolve (field target : NodeId) : Builder Unit := do
  check fun g => g.checkTarget target
  check fun g => g.checkField field
  modify fun g => g.modifyField field ({ · with resolved := some target })

-- Makes an edit, and returns the node that it adds.
def perform : Graph.Edit → Builder (Option NodeId)
  | .addPackage parent name => some <$> insert parent name (.package [])
  | .addMessage parent name => some <$> insert parent name (.message [] [] [])
  | .addEnum parent name values => some <$> insert parent name (.enum values)
  | .addService parent name => some <$> insert parent name (.service [] [])
  | .addField message name field => some <$> insert message name (.field field)
  | .addMethod service method => do addMethod service method; return none
  | .addOneof message name members => some <$> addOneof message name members
  | .setFile id file => do update id ({ · with file := some file }); return none
  | .resolve field target => do resolve field target; return none

variable {α : Type} {g : Graph}

-- The outcome in place of a computation that gives a new graph.
def commit (g : Graph) : Except SchemaError (Graph × α) → EStateM.Result SchemaError Graph α
  | .ok (h, a) => .ok a h
  | .error e => .error e g

theorem run_check_bind (p : Graph → Except SchemaError Unit) (x : Builder α) :
    (check p >>= fun _ => x).run g = match p g with
      | .ok _ => x.run g
      | .error e => .error e g := by
  simp only [check, EStateM.run_bind, EStateM.run_get]
  cases p g <;> rfl

theorem run_checks_bind (members : List NodeId) (p : NodeId → Graph → Except SchemaError Unit)
    (x : Builder α) :
    ((members.forM fun member => check (p member)) >>= fun _ => x).run g =
      match members.forM fun member => p member g with
      | .ok _ => x.run g
      | .error e => .error e g := by
  induction members
  case nil => rfl
  case cons member members hi =>
    rw [List.forM, List.forM, bind_assoc, run_check_bind]
    cases p member g
    case ok    => exact hi
    case error => rfl

theorem run_modifies (members : List NodeId) (f : NodeId → Graph → Graph) :
    (members.forM fun member => (modify (f member) : Builder Unit)).run g =
      .ok () (members.foldl (fun h member => f member h) g) := by
  induction members generalizing g
  case nil => rfl
  case cons member members hi => exact hi

theorem run_insert (parent : NodeId) (name : String) (content : Content) :
    (insert parent name content).run g = commit g (g.insert parent name content) := by
  rw [insert, run_check_bind, Graph.checkPlace, Graph.insert]
  cases g.node? parent
  case none => rfl
  case some above =>
    dsimp only
    cases above.content.kind.admits content.kind <;> rfl

theorem run_addMethod (service : NodeId) (method : Method) :
    (addMethod service method).run g = commit g ((g.addMethod service method).map (·, ())) := by
  rw [addMethod, run_check_bind, Graph.checkPlace, Graph.addMethod]
  cases hn : g.node? service
  case none => rfl
  case some above =>
    dsimp only
    cases hc : above.content
    case service methods nested =>
      refine congrArg (EStateM.Result.ok ()) (Graph.modify_congr fun n hn' => ?_)
      cases hn.symm.trans hn'
      rw [hc]
    case field data =>
      rw [Content.field_not_admits]
      rfl
    all_goals rfl

theorem run_resolve {field : NodeId} (target : NodeId) (hf : field < g.size) :
    (resolve field target).run g = commit g ((g.resolve field target).map (·, ())) := by
  obtain ⟨n, hn⟩ := Graph.exists_node hf
  have hk : g.kind? field = some n.content.kind := by simp [Graph.kind?, hn]
  rw [resolve, run_check_bind, Graph.checkTarget, Graph.resolve, hk]
  cases ht : g.kind? target
  case none => rfl
  case some k =>
    dsimp only
    cases k.isType
    case false => rfl
    case true =>
      rw [if_pos rfl]
      dsimp only
      rw [run_check_bind, Graph.checkField, hk]
      dsimp only
      cases g.field? field <;> rfl

theorem run_addOneof (message : NodeId) (name : String) (members : List NodeId) :
    (addOneof message name members).run g = commit g (g.addOneof message name members) := by
  have place : g.checkPlace message name .oneof = (g.insert message name (.oneof members)).map fun _ => () :=
    Graph.checkPlace_eq message name (.oneof members)
  rw [addOneof, run_check_bind, place, Graph.addOneof]
  cases hi : g.insert message name (.oneof members)
  case error => rfl
  case ok found =>
    simp only [Except.map]
    rw [run_checks_bind]
    cases hc : members.forM (g.checkMember message name)
    case error => rfl
    case ok =>
      have hm := Graph.notMem_of_checked hi (Graph.forM_eq_ok_iff.mp hc)
      rw [Graph.insert_eq_of_ok hi]
      have pushed : (push message name (.oneof members)).run g =
        .ok g.size (g.push { name, parent := some message, content := .oneof members }) := rfl
      simp only [EStateM.run_bind, pushed, run_modifies]
      exact congrArg (EStateM.Result.ok g.size) (Graph.foldl_modifyField_modify hm _ _).symm

theorem run_some {x : Builder NodeId} {r : Except SchemaError (Graph × NodeId)} (hx : x.run g = commit g r)
    (hr : ∀ found, r = .ok found → found.2 = g.size) :
    (some <$> x).run g = commit g ((r.map Prod.fst).map (·, some g.size)) := by
  rw [EStateM.run_map, hx]
  cases r
  case error => rfl
  case ok found => exact congrArg (EStateM.Result.ok · found.1) (congrArg some (hr found rfl))

-- In place, an edit comes to what it gives, or leaves all as it was.
theorem run_perform {e : Graph.Edit} (hl : ∀ id ∈ e.nodes, id < g.size) :
    (perform e).run g = commit g ((g.edit e).map (·, e.added?.map fun _ => g.size)) := by
  cases e
  case setFile id file => rfl
  case addMethod service method =>
    rw [perform, EStateM.run_bind, run_addMethod, Graph.edit]
    cases g.addMethod service method <;> rfl
  case resolve field target =>
    rw [perform, EStateM.run_bind, run_resolve target (hl field (by simp [Graph.Edit.nodes])), Graph.edit]
    cases g.resolve field target <;> rfl
  case addOneof message name members =>
    refine run_some (run_addOneof message name members) fun found ho => ?_
    obtain ⟨added, hi, _⟩ := Graph.addOneof_cases ho
    exact congrArg Prod.snd (Graph.insert_eq_of_ok hi)
  all_goals exact run_some (run_insert _ _ _) fun found hi => by rw [Graph.insert_eq_of_ok hi]

end Builder

-- An edit of nodes that exist fails for a fault of it and leaves the graph as it is, or it has no fault and
-- changes what it names.
theorem edits_atomic {g : Graph} {e : Graph.Edit} (hl : ∀ id ∈ e.nodes, id < g.size) :
    (∃ err, e.Fault g err ∧ g.edit e = .error err ∧ (Builder.perform e).run g = .error err g) ∨
    (∀ err, ¬e.Fault g err) ∧ ∃ h, g.edit e = .ok h ∧ e.Changes g h ∧
      (Builder.perform e).run g = .ok (e.added?.map fun _ => g.size) h := by
  have run := Builder.run_perform hl
  cases he : g.edit e
  case error err =>
    rw [he] at run
    exact .inl ⟨err, (Graph.edit_eq_error_iff hl).mp he, rfl, run⟩
  case ok h =>
    rw [he] at run
    refine .inr ⟨fun err fault => ?_, h, rfl, Graph.edit_changes he, run⟩
    cases he.symm.trans ((Graph.edit_eq_error_iff hl).mpr fault)

-- A member that is in a group already is found out after another one that is free.
theorem edits_atomic_account :
    (∃ err, (Graph.Edit.addOneof 1 "access" [4, 2]).Fault Graph.account err ∧
      Graph.account.edit (.addOneof 1 "access" [4, 2]) = .error err ∧
      (Builder.perform (.addOneof 1 "access" [4, 2])).run Graph.account = .error err Graph.account) ∧
    ∃ h, Graph.account.edit (.addOneof 1 "access" [4]) = .ok h ∧
      (Graph.Edit.addOneof 1 "access" [4]).Changes Graph.account h ∧
      (Builder.perform (.addOneof 1 "access" [4])).run Graph.account = .ok (some 8) h := by
  constructor
  · refine (edits_atomic (by decide)).resolve_right ?_
    rintro ⟨_, h, he, _⟩
    cases he
  · refine ((edits_atomic (by decide)).resolve_left ?_).right
    rintro ⟨err, _, he, _⟩
    cases he

end ProtoTypings
