import Mathlib
import ProtoTypings.Proofs.Schema.Lines
import ProtoTypings.Proofs.Schema.Loading

namespace ProtoTypings

theorem eq_ok_of_toOption {ε α : Type} {x : Except ε α} {a : α} (h : x.toOption = some a) : x = .ok a := by
  cases x
  case error => contradiction
  case ok    => exact congrArg _ (Option.some.inj h)

namespace Graph

variable {g h : Graph} {id f : NodeId}

-- Two graphs with the same declarations, which differ at most in files and in what is inside the nodes.
structure SameTree (g h : Graph) : Prop extends SameShape g h where
  name : ∀ id, h.name id = g.name id

namespace SameTree

theorem refl (g : Graph) : SameTree g g :=
  { SameShape.refl g with name := fun _ => rfl }

theorem trans {i : Graph} (e : SameTree g h) (e' : SameTree h i) : SameTree g i :=
  { e.toSameShape.trans e'.toSameShape with name := fun id => (e'.name id).trans (e.name id) }

variable (e : SameTree g h)
include e

theorem ancestors_eq : h.ancestors = g.ancestors := by
  have go (steps : Nat) : ∀ id, ancestors.go h steps id = ancestors.go g steps id := by
    induction steps
    case zero => exact fun _ => rfl
    case succ steps hi =>
      intro id
      rw [ancestors.go, ancestors.go, e.parent]
      cases g.parent? id
      case none   => rfl
      case some p => exact congrArg _ (hi p)
  exact funext fun id => go id id

theorem findTypeFrom_eq : h.findTypeFrom = g.findTypeFrom := by
  have hk : h.kind? = g.kind? := funext e.kind
  have hc : h.children = g.children := funext (e.slot .declarations)
  have hn : h.name = g.name := funext e.name
  funext path start
  simp only [findTypeFrom, findFrom, isType, hk, hc, hn]

theorem lookup?_eq : h.lookup? = g.lookup? := by
  funext scope typeName
  rw [lookup?, lookup?, e.findTypeFrom_eq, e.ancestors_eq]

end SameTree

theorem modifyField_sameTree {F : Field → Field} (hf : ∀ d, (F d).keyType = d.keyType) :
    SameTree g (g.modifyField id F) where
  toSameShape := modifyField_sameShape hf
  name j := by
    simp only [name, modifyField, node?_modify]
    split <;> cases g.node? j <;> rfl

-- What the type of a field stands for.
def target? (g : Graph) (f : NodeId) (data : Field) : Option NodeId :=
  (g.parent? f).bind (g.lookup? · data.typeName)

theorem SameTree.target?_eq (e : SameTree g h) : h.target? = g.target? := by
  funext f data
  rw [target?, target?, e.parent, e.lookup?_eq]

-- A field points at what its type stands for, if that is a type, and as before if it is not.
def settle (g : Graph) (f : NodeId) (data : Field) : Field :=
  { data with resolved := (g.target? f data).or data.resolved }

theorem settle_settle (data : Field) : g.settle f (g.settle f data) = g.settle f data := by
  have : g.target? f (g.settle f data) = g.target? f data := rfl
  rw [settle, this, settle]
  cases g.target? f data <;> rfl

theorem resolveOne_spec (he : resolveOne g id = .ok h) : SameTree g h ∧
    ∀ f, h.field? f = if f = id then (g.field? f).map (g.settle f) else g.field? f := by
  -- nothing happens to a node without a type to look up, and `settle` leaves it alone
  have same (hs : (g.field? id).map (g.settle id) = g.field? id) : SameTree g g ∧
      ∀ f, g.field? f = if f = id then (g.field? f).map (g.settle f) else g.field? f := by
    refine ⟨.refl g, fun f => ?_⟩
    split
    case isTrue hf => rw [hf, hs]
    case isFalse   => rfl
  unfold resolveOne at he
  split at he
  case h_2 hn =>
    cases he
    apply same
    cases hf : g.field? id
    case none => rfl
    case some data =>
      have hp : g.parent? id = none := Option.eq_none_iff_forall_ne_some.mpr fun p => hn data p hf
      simp [settle, target?, hp]
  case h_1 data message hf hp =>
    split at he
    case h_2 hl =>
      cases he
      apply same
      simp [hf, settle, target?, hp, hl]
    case h_1 target hl =>
      have ⟨_, _, heq⟩ := resolve_cases he
      subst heq
      refine ⟨modifyField_sameTree fun _ => rfl, fun f => ?_⟩
      rw [field?_modifyField]
      by_cases hfid : f = id
      · subst hfid
        simp [hf, settle, target?, hp, hl]
      · rw [if_neg hfid, if_neg (Ne.symm hfid)]

-- It makes no difference whether other fields are resolved before or after one.
theorem resolveAll_spec {ids : List NodeId} (he : ids.foldlM resolveOne g = .ok h) : SameTree g h ∧
    ∀ f, h.field? f = if f ∈ ids then (g.field? f).map (g.settle f) else g.field? f := by
  induction ids generalizing g
  case nil =>
    cases he
    exact ⟨.refl _, by simp⟩
  case cons id ids hi =>
    rw [List.foldlM_cons] at he
    have ⟨i, hs, he⟩ := exists_of_bind_eq_ok he
    have ⟨e, hf⟩ := resolveOne_spec hs
    have ⟨e', hf'⟩ := hi he
    refine ⟨e.trans e', fun f => ?_⟩
    have settle_eq : i.settle f = g.settle f := by
      funext data
      rw [settle, settle, e.target?_eq]
    rw [hf', hf, settle_eq]
    by_cases hid : f = id
    case neg => simp [hid]
    case pos =>
      have twice : g.settle f ∘ g.settle f = g.settle f := funext settle_settle
      rw [if_pos hid, if_pos (List.mem_cons.mpr (.inl hid)), Option.map_map, twice, ite_self]

-- The fields of the graph point at nothing yet.
def Unresolved (g : Graph) : Prop :=
  ∀ f data, g.field? f = some data → data.resolved = none

namespace Unresolved

variable (u : g.Unresolved) {above message service : NodeId} {name : String}
include u

theorem insert {c : Content} (hc : ∀ data ∈ c.field?, data.resolved = none)
    (hi : g.insert above name c = .ok (h, id)) : h.Unresolved := by
  intro f data hf
  rw [field?_insert hi] at hf
  split at hf
  case isTrue  => exact hc data hf
  case isFalse => exact u f data hf

theorem addOneof {members : List NodeId} (he : g.addOneof message name members = .ok (h, id)) :
    h.Unresolved := by
  obtain ⟨added, hi, _, heq⟩ := addOneof_cases he
  have ua : added.Unresolved := u.insert (by simp [Content.field?]) hi
  intro f data hf
  rw [heq, field?_foldl_modifyField (f := ({ · with oneof := some id })) fun _ => rfl] at hf
  split at hf
  case isFalse => exact ua f data hf
  case isTrue =>
    obtain ⟨d, hd, hdf⟩ := Option.map_eq_some_iff.mp hf
    rw [← hdf]
    exact ua f d hd

theorem addMethod {method : Method} (he : g.addMethod service method = .ok h) : h.Unresolved := by
  have ⟨n, methods, nested, hn, hs, heq⟩ := addMethod_cases he
  intro f data hf
  rw [heq, field?_modify fun n' hn' => ?_] at hf
  · exact u f data hf
  · cases hn.symm.trans hn'
    simp [hs, Content.field?]

theorem setFile? (file : Option String) : (g.setFile? id file).Unresolved := by
  cases file
  case none => exact u
  case some file =>
    intro f data hf
    have same : (g.setFile id file).field? f = g.field? f := by
      apply field?_modify
      exact fun _ _ => rfl
    exact u f data (same.symm.trans hf)

theorem loadFields {fields : List (String × FieldSpec)} (he : loadFields message g fields = .ok h) :
    h.Unresolved := by
  induction fields generalizing g
  case nil =>
    cases he
    exact u
  case cons f fields hi =>
    have ⟨rule, _, he⟩ := exists_of_bind_eq_ok he
    have ⟨(i, _), ha, he⟩ := exists_of_bind_eq_ok he
    refine hi (u.insert (fun data hd => ?_) ha) he
    cases hd
    rfl

theorem loadOneofs {oneofs : List (String × List String)} (he : loadOneofs message g oneofs = .ok h) :
    h.Unresolved := by
  induction oneofs generalizing g
  case nil =>
    cases he
    exact u
  case cons o oneofs hi =>
    have ⟨members, _, he⟩ := exists_of_bind_eq_ok he
    have ⟨(i, _), ha, he⟩ := exists_of_bind_eq_ok he
    exact hi (u.addOneof ha) he

theorem loadMethods {methods : List (String × MethodSpec)} (he : loadMethods service g methods = .ok h) :
    h.Unresolved := by
  induction methods generalizing g
  case nil =>
    cases he
    exact u
  case cons m methods hi =>
    have ⟨i, ha, he⟩ := exists_of_bind_eq_ok he
    exact hi (u.addMethod ha) he

theorem loadHead {d : Descriptor} (he : g.loadHead above name d = .ok (h, id)) : h.Unresolved := by
  unfold Graph.loadHead at he
  split at he
  case h_1 fields _ _ =>
    obtain ⟨⟨i, _⟩, ha, he⟩ := exists_of_bind_eq_ok he
    obtain ⟨j, hf, he⟩ := exists_of_bind_eq_ok he
    obtain ⟨k, ho, he⟩ := exists_of_bind_eq_ok he
    cases he
    exact ((u.insert (by simp [Content.field?]) ha).loadFields hf).loadOneofs ho
  case h_2 => exact u.insert (by simp [Content.field?]) he
  case h_3 =>
    obtain ⟨⟨i, _⟩, ha, he⟩ := exists_of_bind_eq_ok he
    obtain ⟨j, hm, he⟩ := exists_of_bind_eq_ok he
    cases he
    exact (u.insert (by simp [Content.field?]) ha).loadMethods hm
  case h_4 => exact u.insert (by simp [Content.field?]) he

end Unresolved

mutual

theorem loadNode_unresolved {g h : Graph} {above : NodeId} {name : String} (u : g.Unresolved) :
    (d : Descriptor) → loadNode above name g d = .ok h → h.Unresolved
  | ⟨filename, nested, fields, oneofs, values, methods⟩, he => by
    rw [loadNode] at he
    have ⟨(i, id), hh, he⟩ := exists_of_bind_eq_ok he
    exact loadChildren_unresolved ((u.loadHead hh).setFile? filename) nested he

theorem loadChildren_unresolved {g h : Graph} {above : NodeId} (u : g.Unresolved) :
    (ds : List (String × Descriptor)) → loadChildren above g ds = .ok h → h.Unresolved
  | [], he => by
    rw [loadChildren] at he
    cases he
    exact u
  | (name, d) :: rest, he => by
    rw [loadChildren] at he
    have ⟨i, hn, he⟩ := exists_of_bind_eq_ok he
    exact loadChildren_unresolved (loadNode_unresolved u d hn) rest he

end

theorem empty_unresolved : Unresolved .empty := by
  intro f data hf
  cases f <;> simp [empty, field?, node?, Content.field?] at hf

theorem eq_message_of_admits {j k : Kind} (ha : j.admits k = true) (hk : k = .field ∨ k = .mapField) :
    j = .message := by
  rcases hk with rfl | rfl <;> cases j <;> simp_all [Kind.admits, Kind.isType]

theorem kind_of_field? {data : Field} {k : Kind} (hf : g.field? f = some data) (hk : g.kind? f = some k) :
    k = .field ∨ k = .mapField := by
  have ⟨n, hn, hc⟩ := Option.bind_eq_some_iff.mp hf
  cases hcn : n.content <;> simp_all [Content.field?, kind?, Content.kind]
  cases hd : data.keyType <;> simp_all

-- A field stands in a message.
theorem WellFormed.exists_message (w : g.WellFormed) {data : Field} (hf : g.field? f = some data) :
    ∃ message, g.parent? f = some message ∧ g.isMessage message = true := by
  have hr : f ≠ root := by
    rintro rfl
    cases kind_of_field? hf w.root_kind <;> contradiction
  have ⟨message, hp⟩ := w.has_parent hr (lt_size_of_field? hf)
  have ⟨j, k, hj, hk, ha⟩ := w.admitted hp
  exact ⟨message, hp, by simp [isMessage, hj, eq_message_of_admits ha (kind_of_field? hf hk)]⟩

theorem field_slot {data : Field} (hf : g.field? f = some data) :
    (g.kind? f).map Kind.slot = some .fields := by
  have ⟨n, hn, _⟩ := Option.bind_eq_some_iff.mp hf
  have hk : g.kind? f = some n.content.kind := by simp [kind?, hn]
  rw [hk]
  rcases kind_of_field? hf hk with h | h <;> simp [h, Kind.slot]

-- In a loaded graph, every field points at what its type stands for in its message.
theorem resolved_eq {d : Descriptor} (hg : ofDescriptor d = .ok g) {data : Field}
    (hf : g.field? f = some data) :
    ∃ message, g.parent? f = some message ∧ g.isMessage message = true ∧
      data.resolved = g.lookup? message data.typeName := by
  have ⟨b, _⟩ := (ofDescriptor_meets d).post_of_ok hg
  have ⟨message, hp, hm⟩ := b.reachable.wellFormed.exists_message hf
  have ⟨i, hl, hr⟩ := exists_of_bind_eq_ok hg
  have u : i.Unresolved := loadChildren_unresolved (empty_unresolved.setFile? d.filename) d.nested hl
  have ⟨e, settled⟩ := resolveAll_spec hr
  have hid : f ∈ i.ids := List.mem_range.mpr (e.size ▸ lt_size_of_field? hf)
  rw [settled, if_pos hid] at hf
  have ⟨before, hb, heq⟩ := Option.map_eq_some_iff.mp hf
  refine ⟨message, hp, hm, ?_⟩
  rw [← heq, settle, u f before hb, target?, ← e.parent, hp, e.lookup?_eq, Option.or_none]
  rfl

-- The type that a name stands for is that of the innermost scope that has one of the name, and fields point
-- at the types that theirs stand for in their messages.
theorem lookup_innermost {d : Descriptor} (keyed : d.Everywhere Descriptor.Keyed)
    (plain : d.Everywhere Descriptor.Plain) (hg : ofDescriptor d = .ok g) :
    (∀ scope name t, g.Declares scope → (g.lookup? scope name = some t ↔ g.Denotes scope name t)) ∧
      ∀ f data, g.field? f = some data → ∃ message, g.parent? f = some message ∧
        g.isMessage message = true ∧ data.resolved = g.lookup? message data.typeName := by
  have ⟨b, ho⟩ := (ofDescriptor_meets d).post_of_ok hg
  have w := b.reachable.wellFormed
  have n := named_of_outline w ho keyed plain
  exact ⟨fun scope name t hs => n.lookup?_eq_some_iff w hs, fun f data hf => resolved_eq hg hf⟩

-- A schema where names are found in different scopes: `Kind` is an enum in the message and a message outside
-- of it; `crate` is a package in the next scope, and a message only in the root.
def crates : Json :=
  .object [(some "nested", .object [
    (some "depot", .object [(some "nested", .object [
      (some "Kind", .object [(some "fields", .object [])]),
      (some "crate", .object [(some "nested", .object [
        (some "Crate", .object [
          (some "fields", .object [
            (some "kind", .array [.text (some "Kind")]),
            (some "outer", .array [.text (some ".depot.Kind")]),
            (some "self", .array [.text (some "crate.Crate")]),
            (some "other", .array [.text (some "crate")])]),
          (some "nested", .object [
            (some "Kind", .object [(some "values", .object [(some "WOOD", .number (some 0))])])])])])])])]),
    (some "crate", .object [(some "fields", .object [])])])]

theorem lookup_innermost_crates : ∃ d g, Descriptor.ofJson? Descriptor.maxDepth crates = some d ∧
    d.Everywhere Descriptor.Plain ∧ ofDescriptor d = .ok g ∧
    g.Denotes 4 "Kind" 9 ∧ g.Denotes 4 ".depot.Kind" 2 ∧ g.Denotes 4 "crate.Crate" 4 ∧
    g.Denotes 4 "crate" 10 ∧
    ∃ data, g.field? 8 = some data ∧ data.typeName = "crate" ∧ data.resolved = some 10 := by
  have check : (Descriptor.ofJson? Descriptor.maxDepth crates).any (fun d =>
      decide (d.Everywhere Descriptor.Plain) && (ofDescriptor d).toOption.any fun g =>
        decide (g.lookup? 4 "Kind" = some 9 ∧ g.lookup? 4 ".depot.Kind" = some 2 ∧
          g.lookup? 4 "crate.Crate" = some 4 ∧ g.lookup? 4 "crate" = some 10 ∧
          (g.kind? 4).map Kind.slot = some .declarations ∧ g.parent? 8 = some 4 ∧
          (g.field? 8).map Field.typeName = some "crate")) = true := by
    decide +kernel
  have ⟨d, hd, check⟩ := Option.any_eq_true .. |>.mp check
  have ⟨plain, check⟩ := Bool.and_eq_true .. |>.mp check
  have ⟨g, hg, check⟩ := Option.any_eq_true .. |>.mp check
  have ⟨kind, outer, self, other, scope, parent, type⟩ := of_decide_eq_true check
  have hg := eq_ok_of_toOption hg
  have plain := of_decide_eq_true plain
  have ⟨denotes, resolved⟩ := lookup_innermost (Descriptor.ofJson?_keyed hd) plain hg
  have ⟨data, hf, type⟩ := Option.map_eq_some_iff.mp type
  have ⟨message, hm, _, hr⟩ := resolved 8 data hf
  cases parent.symm.trans hm
  exact ⟨d, g, hd, plain, hg, (denotes _ _ _ scope).mp kind, (denotes _ _ _ scope).mp outer,
    (denotes _ _ _ scope).mp self, (denotes _ _ _ scope).mp other, data, hf, type, by rw [hr, type, other]⟩

-- A full name, with a dot in front or without, finds the declaration that it is the full name of, and nothing
-- else does.
theorem find_fullName {d : Descriptor} (keyed : d.Everywhere Descriptor.Keyed)
    (plain : d.Everywhere Descriptor.Plain) (hg : ofDescriptor d = .ok g) :
    (∀ id, g.Declares id → g.find? (g.fullName id) = some id ∧ g.find? ("." ++ g.fullName id) = some id) ∧
      (∀ s id, g.find? s = some id → g.Declares id ∧ g.fullName id = (Text.stripFront? "." s).getD s) ∧
      ∀ a b, g.Declares a → g.Declares b → g.fullName a = g.fullName b → a = b := by
  obtain ⟨b, ho⟩ := (ofDescriptor_meets d).post_of_ok hg
  have w := b.reachable.wellFormed
  have n := named_of_outline w ho keyed plain
  have found (id : NodeId) (hd : g.Declares id) : g.find? (g.fullName id) = some id := by
    have undotted : Text.stripFront? "." (g.fullName id) = none := by
      refine Option.eq_none_iff_forall_ne_some.mpr fun rest h => ?_
      exact n.fullName_ne_dot w hd rest (Text.stripFront?_eq_some_iff.mp h)
    exact (n.find?_eq_some_iff w).mpr ⟨hd, by rw [undotted, Option.getD_none]⟩
  refine ⟨fun id hd => ⟨found id hd, ?_⟩, fun s id => (n.find?_eq_some_iff w).mp, fun a b ha hb h => ?_⟩
  · have dotted : Text.stripFront? "." ("." ++ g.fullName id) = some (g.fullName id) :=
      Text.stripFront?_eq_some_iff.mpr rfl
    exact (n.find?_eq_some_iff w).mpr ⟨hd, by rw [dotted, Option.getD_some]⟩
  · exact Option.some.inj ((found a ha).symm.trans (h ▸ found b hb))

theorem find_fullName_crates : ∃ d g, Descriptor.ofJson? Descriptor.maxDepth crates = some d ∧
    d.Everywhere Descriptor.Plain ∧ ofDescriptor d = .ok g ∧
    g.find? "" = some root ∧ g.find? "." = some root ∧
    g.find? ".depot.crate" = some 3 ∧ g.find? "depot.crate.Crate.Kind" = some 9 ∧
    g.fullName 9 = "depot.crate.Crate.Kind" ∧ g.find? "crate.Crate" = none := by
  have check : (Descriptor.ofJson? Descriptor.maxDepth crates).any (fun d =>
      decide (d.Everywhere Descriptor.Plain) && (ofDescriptor d).toOption.any fun g =>
        decide (g.fullName root = "" ∧ g.fullName 3 = "depot.crate" ∧ g.find? "crate.Crate" = none ∧
          (g.kind? root).map Kind.slot = some .declarations ∧ (g.kind? 3).map Kind.slot = some .declarations ∧
          g.find? "depot.crate.Crate.Kind" = some 9)) = true := by
    decide +kernel
  obtain ⟨d, hd, check⟩ := Option.any_eq_true .. |>.mp check
  obtain ⟨plain, check⟩ := Bool.and_eq_true .. |>.mp check
  obtain ⟨g, hg, check⟩ := Option.any_eq_true .. |>.mp check
  obtain ⟨top, package, missing, declaredTop, declaredPackage, enum⟩ := of_decide_eq_true check
  have hg := eq_ok_of_toOption hg
  have plain := of_decide_eq_true plain
  obtain ⟨found, named, _⟩ := find_fullName (Descriptor.ofJson?_keyed hd) plain hg
  obtain ⟨foundTop, dottedTop⟩ := found root declaredTop
  have dottedPackage := (found 3 declaredPackage).right
  rw [top] at foundTop dottedTop
  rw [package] at dottedPackage
  exact ⟨d, g, hd, plain, hg, foundTop, dottedTop, dottedPackage, enum, (named _ _ enum).right, missing⟩

end Graph

end ProtoTypings
