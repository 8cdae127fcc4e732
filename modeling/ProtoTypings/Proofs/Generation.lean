import Mathlib
import ProtoTypings.Generation
import ProtoTypings.Proofs.Mapping
import ProtoTypings.Proofs.Registry

namespace ProtoTypings

-- Hooks that leave declarations alone, because there is none for interfaces and none for members.
structure Hooks.Plain (h : Hooks) : Prop where
  interface : h.interface = .none
  member : h.member = .none

theorem Hooks.Plain.of_none {h : Hooks} (hooks : h = .none) : h.Plain :=
  ⟨by rw [hooks]; rfl, by rw [hooks]; rfl⟩

-- A reference to a declared type somewhere in an interface.
def Interface.Refers (i : Interface) (name : String) : Prop :=
  (∃ member ∈ i.members, member.type.Refers name) ∨
    ∃ param ∈ i.params, ∃ t, (param.bound = some t ∨ param.fallback = some t) ∧ t.Refers name

theorem Graph.fields_of_not_isMessage {g : Graph} {id : NodeId} (h : g.isMessage id = false) :
    g.fields id = [] := by
  cases hn : g.node? id
  case none   => simp [fields, hn]
  case some n => cases hc : n.content <;> simp_all [fields, isMessage, kind?, Content.kind]

theorem Graph.exists_enumValues? {g : Graph} {id : NodeId} (ht : g.isType id = true)
    (hm : g.isMessage id = false) : ∃ values, g.enumValues? id = some values := by
  cases hn : g.node? id
  case none   => simp [isType, kind?, hn] at ht
  case some n =>
    cases hc : n.content
    case enum values => exact ⟨values, by simp [enumValues?, hn, hc]⟩
    case field data  =>
      cases hk : data.keyType <;> simp [isType, kind?, hn, hc, Content.kind, hk, Kind.isType] at ht
    all_goals simp [isType, isMessage, kind?, hn, hc, Content.kind, Kind.isType] at ht hm

-- The declaration of a registered type: an interface for a message, and for an enum an enum or an
-- alias for the union of its values.
inductive Entry.DeclaredBy (g : Graph) (style : EnumStyle) (e : Entry) : Declaration → Prop
  | interface {members : List Member} : g.isMessage e.node = true →
    DeclaredBy g style e (.interface { name := e.name, members })
  | enum {values : List EnumValue} : style = .enum → g.enumValues? e.node = some values →
    DeclaredBy g style e (.enum {
      name := e.name
      members := values.map fun v => (Identifier.enumKey (g.name e.node) v.name, v.name) })
  | union {values : List EnumValue} : style = .union → g.enumValues? e.node = some values →
    DeclaredBy g style e (.typeAlias { name := e.name, type := .literals (values.map EnumValue.name) })

theorem Entry.DeclaredBy.name_eq {g : Graph} {style : EnumStyle} {e : Entry} {d : Declaration} :
    e.DeclaredBy g style d → d.name = e.name
  | interface _ | enum _ _ | union _ _ => rfl

-- The file under an output root.
def GeneratedFile.placed (root : String) (file : GeneratedFile) : GeneratedFile :=
  { file with path := OutputPath.under root file.path }

-- The generated files with the given texts; where there is no text, there is no file.
def Registry.filesWith (r : Registry) (textOf : String → Option String) : List GeneratedFile :=
  r.files.filterMap fun path => (textOf path).map fun text => ⟨path, text⟩

namespace Generation

variable {run : Generation} {r : Registry} {path : String} {m : Mapping}

theorem build_eq_of_registry (h : run.registry.result = .ok r) :
    Registry.build run.graph run.settings = .ok r := by
  cases hc : (Registry.collect {} run.graph run.settings).collision
  case some => simp [registry, hc] at h
  case none =>
    have h : (Registry.collect {} run.graph run.settings).registry = r := by simpa [registry, hc] using h
    simp [Registry.build, hc, h]

theorem enumFor_ne_interface {e : Entry} {values : List EnumValue} {i : Interface} :
    run.enumFor e values ≠ .interface i := by
  rw [enumFor]
  split <;> simp

theorem enumFor_declaredBy {e : Entry} {values : List EnumValue}
    (hv : run.graph.enumValues? e.node = some values) :
    e.DeclaredBy run.graph run.settings.enumStyle (run.enumFor e values) := by
  rw [enumFor]
  split
  case h_1 hs => exact .enum hs hv
  case h_2 hs => exact .union hs hv

section Cites

variable (plain : run.hooks.Plain)
include plain

theorem memberFor_cites (r : Registry) (path : String) (field : NodeId) :
    (run.memberFor (run.mapping r path) field).Cites path
      (fun member? name => ∃ member, member? = some member ∧ member.type.Refers name)
      {e | (run.mapping r path).Reaches [] field e} := by
  refine (Mapping.memberOf_cites (m := run.mapping r path) plain.member [] field).map fun member? name => ?_
  cases member? <;> simp

theorem interfaceFor_cites (owner : Entry) : (run.interfaceFor (run.mapping r path) owner).Cites path
    (fun i? name => ∃ i, i? = some i ∧ i.Refers name)
    {e | ∃ field ∈ run.graph.fields owner.node, (run.mapping r path).Reaches [] field e} := by
  refine ((Draft.Cites.each fun field _ => memberFor_cites plain r path field).map fun _ _ => ?_).consult ?_
  · simp [Interface.Refers]
  · simp [interfaceOffer, plain.interface]

-- Only messages have fields, so an enum cites nothing.
theorem declarationFor_cites (owner : Entry) : (run.declarationFor (run.mapping r path) owner).Cites path
    (fun d? name => ∃ i, d? = some (.interface i) ∧ i.Refers name)
    {e | ∃ field ∈ run.graph.fields owner.node, (run.mapping r path).Reaches [] field e} := by
  rw [declarationFor]
  split
  case h_1 values hv =>
    refine (Draft.Cites.pure fun name => ?_).congr fun e => ?_
    · simp [enumFor_ne_interface]
    · simp [Graph.fields_of_not_isMessage (Graph.not_isMessage_of_enumValues? hv)]
  case h_2 =>
    split
    case isTrue =>
      refine (interfaceFor_cites plain owner).map fun i? name => ?_
      cases i? <;> simp
    case isFalse hm =>
      refine (Draft.Cites.pure fun name => ?_).congr fun e => ?_
      · simp
      · simp [Graph.fields_of_not_isMessage (Bool.eq_false_iff.mpr hm)]

theorem declarations_cites (entries : List Entry) : (run.declarations r path entries).Cites path
    (fun body name => ∃ i, .interface i ∈ body ∧ i.Refers name)
    {e | ∃ owner ∈ entries, ∃ field ∈ run.graph.fields owner.node,
      (run.mapping r path).Reaches [] field e} := by
  refine (Draft.Cites.each fun owner _ => declarationFor_cites plain owner).map fun found name => ?_
  simp

end Cites

section Results

variable {owner : Entry} {entries : List Entry} {body : List Declaration}

section

variable (plain : run.hooks.Plain)
include plain

theorem interfaceFor_result : (run.interfaceFor m owner).result =
    (Draft.each (run.memberFor m) (run.graph.fields owner.node)).result.map fun members =>
      some { name := owner.name, members := members.filterMap id } := by
  rw [interfaceFor, Draft.consult_result_of_none (by simp [interfaceOffer, plain.interface])]
  cases h : (Draft.each (run.memberFor m) (run.graph.fields owner.node)).result
  all_goals simp [bind, h, Except.map]

-- The interface of a message has the members for its fields.
theorem exists_members_of_interface {i : Interface}
    (h : (run.declarationFor m owner).result = .ok (some (.interface i))) :
    ∃ members, (Draft.each (run.memberFor m) (run.graph.fields owner.node)).result = .ok members ∧
      i = { name := owner.name, members := members.filterMap id } := by
  rw [declarationFor] at h
  split at h
  case h_1 =>
    injection h with h
    injection h with h
    exact absurd h enumFor_ne_interface
  case h_2 =>
    split at h
    case isFalse => exact nomatch h
    case isTrue =>
      rw [← Draft.map_eq_bind, Draft.result_map, interfaceFor_result plain] at h
      cases hm : (Draft.each (run.memberFor m) (run.graph.fields owner.node)).result
      case error => simp [hm, Except.map] at h
      case ok members =>
        simp only [hm, Except.map, Except.ok.injEq, Option.map_some, Option.some.injEq,
          Declaration.interface.injEq] at h
        exact ⟨members, rfl, h.symm⟩

theorem declarationFor_of_isMessage (hm : run.graph.isMessage owner.node = true) :
    ∃ members, (run.declarationFor (run.mapping r path) owner).result =
      .ok (some (.interface { name := owner.name, members })) := by
  have hf (field : NodeId) : ∃ member?, (run.memberFor (run.mapping r path) field).result = .ok member? :=
    (memberFor_cites plain r path field).result.imp fun _ => And.left
  have ⟨members, h⟩ := Draft.exists_each_ok fun field (_ : field ∈ run.graph.fields owner.node) => hf field
  rw [declarationFor]
  split
  case h_1 hv => simp [Graph.not_isMessage_of_enumValues? hv] at hm
  case h_2 =>
    rw [if_pos hm, ← Draft.map_eq_bind, Draft.result_map, interfaceFor_result plain, h]
    exact ⟨_, rfl⟩

theorem declarationFor_of_isType (ht : run.graph.isType owner.node = true) :
    ∃ d, (run.declarationFor (run.mapping r path) owner).result = .ok (some d) ∧
      owner.DeclaredBy run.graph run.settings.enumStyle d := by
  cases hm : run.graph.isMessage owner.node
  case true =>
    obtain ⟨members, h⟩ := declarationFor_of_isMessage plain hm
    exact ⟨_, h, .interface hm⟩
  case false =>
    have ⟨values, hv⟩ := Graph.exists_enumValues? ht hm
    exact ⟨run.enumFor owner values, by simp [declarationFor, hv], enumFor_declaredBy hv⟩

end

-- The declarations of a generated file.
def draftOf (run : Generation) (r : Registry) (path : String) : Draft (List Declaration) :=
  run.declarations r path (r.entries.filter (·.path = path))

-- The text of a generated file with the given declarations, as a hook for files is offered it.
def contentOf (run : Generation) (r : Registry) (path : String) (body : List Declaration) : String :=
  (run.sourceFile path (run.draftOf r path).uses body).render .default

theorem fileFor_result {text? : Option String} (hd : (run.draftOf r path).result = .ok body)
    (ht : (run.reviewed path (r.entries.filter (·.path = path)) (run.contentOf r path body)).result =
      .ok text?) :
    (run.fileFor r (path, r.entries.filter (·.path = path))).result =
      .ok (text?.map fun text => ⟨path, text⟩) := by
  have hr : (run.render r path (r.entries.filter (·.path = path))).result =
      .ok (run.contentOf r path body) := by
    simp only [draftOf] at hd
    simp [render, hd, Except.map, contentOf, draftOf]
  rw [fileFor, Draft.result_bind_of_ok hr, Draft.result_bind_of_ok ht]
  cases text? <;> rfl

-- The files of a run: those of the generated paths that the hook for files leaves, their index, and
-- those that another hook adds.
theorem files_of_reviewed {bodyOf : String → List Declaration} {textOf : String → Option String}
    (hb : Registry.build run.graph run.settings = .ok r)
    (hd : ∀ path ∈ r.files, (run.draftOf r path).result = .ok (bodyOf path))
    (ht : ∀ path ∈ r.files, (run.reviewed path (r.entries.filter (·.path = path))
      (run.contentOf r path (bodyOf path))).result = .ok (textOf path)) :
    run.files.result = (run.customFiles r).result.map fun custom =>
      (r.filesWith textOf).map (GeneratedFile.placed run.settings.outputPath) ++
        run.indexFile ((r.filesWith textOf).map GeneratedFile.path) ++ custom := by
  have hr : run.registry.result = .ok r := by
    have ⟨hc, hr⟩ := Registry.build_eq_ok_iff.mp hb
    simp [registry, hc, hr]
  have hf : (Draft.each (run.fileFor r) r.byFile).result =
      .ok (r.files.map fun path => (textOf path).map fun text => ⟨path, text⟩) := by
    rw [Draft.each_ok_iff, Registry.byFile, List.forall₂_map_left_iff, List.forall₂_map_right_iff,
      List.forall₂_same]
    exact fun path hp => fileFor_result (hd path hp) (ht path hp)
  rw [files, Draft.result_bind_of_ok hr, Draft.result_bind_of_ok hf]
  cases hc : (run.customFiles r).result
  case error     => simp [bind, hc, Except.map]
  case ok custom =>
    rw [Draft.result_bind_of_ok hc, List.filterMap_map, Function.id_comp]
    rfl

-- All files of a run without hooks: one for each generated path, and the index.
theorem files_result (hooks : run.hooks = .none) (hb : Registry.build run.graph run.settings = .ok r) :
    ∃ bodyOf : String → List Declaration,
      (∀ path, (run.draftOf r path).result = .ok (bodyOf path)) ∧
      run.files.result = .ok (r.files.map (fun path =>
        ⟨OutputPath.under run.settings.outputPath path,
          (run.sourceFile path (run.draftOf r path).uses (bodyOf path)).render .default⟩) ++
        run.indexFile r.files) := by
  have h (path : String) : ∃ body, (run.draftOf r path).result = .ok body :=
    (declarations_cites (.of_none hooks) _).result.imp fun _ => And.left
  choose bodyOf h using h
  refine ⟨bodyOf, h, ?_⟩
  have ht (path : String) (_ : path ∈ r.files) : (run.reviewed path (r.entries.filter (·.path = path))
      (run.contentOf r path (bodyOf path))).result = .ok (some (run.contentOf r path (bodyOf path))) := by
    simp [reviewed, hooks, Hooks.none]
  rw [files_of_reviewed hb (fun path _ => h path) ht]
  simp [customFiles, hooks, Hooks.none, contentOf, Except.map, Registry.filesWith, GeneratedFile.placed,
    Function.comp_def]

end Results

end Generation

end ProtoTypings
