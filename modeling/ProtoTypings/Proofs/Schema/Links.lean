import Mathlib
import ProtoTypings.Proofs.Schema.Tree

namespace ProtoTypings

namespace Content

def members? : Content → Option (List NodeId)
  | oneof members => some members
  | _ => none

variable {c : Content}

@[simp]
theorem field?_link (id : NodeId) (k : Kind) : (c.link id k).field? = c.field? := by
  cases c <;> cases k <;> rfl

@[simp]
theorem members?_link (id : NodeId) (k : Kind) : (c.link id k).members? = c.members? := by
  cases c <;> cases k <;> rfl

@[simp]
theorem field?_mapField (f : Field → Field) : (c.mapField f).field? = c.field?.map f := by
  cases c <;> rfl

theorem mapField_mapField {f : Field → Field} (hf : ∀ d, f (f d) = f d) :
    (c.mapField f).mapField f = c.mapField f := by
  cases c <;> simp [mapField, hf]

@[simp]
theorem members?_mapField (f : Field → Field) : (c.mapField f).members? = c.members? := by
  cases c <;> rfl

end Content

namespace Graph

variable {g h : Graph}

theorem oneofMembers?_eq (id : NodeId) :
    g.oneofMembers? id = (g.node? id).bind fun n => n.content.members? := by
  unfold oneofMembers?
  cases g.node? id
  case none => rfl
  case some n => cases hc : n.content <;> simp [hc, Content.members?]

theorem lt_size_of_field? {id : NodeId} {data : Field} (hf : g.field? id = some data) : id < g.size := by
  by_contra hl
  simp [field?, (node?_eq_none_iff id).mpr (Nat.le_of_not_lt hl)] at hf

theorem lt_size_of_oneofMembers? {id : NodeId} {members : List NodeId}
    (hm : g.oneofMembers? id = some members) : id < g.size := by
  by_contra hl
  simp [oneofMembers?_eq, (node?_eq_none_iff id).mpr (Nat.le_of_not_lt hl)] at hm

section Modify

theorem field?_modify {id : NodeId} {f : Node → Node}
    (hf : ∀ n, g.node? id = some n → (f n).content.field? = n.content.field?) (j : NodeId) :
    (g.modify id f).field? j = g.field? j := by
  simp only [field?, node?_modify]
  split <;> cases hn : g.node? j <;> simp_all

theorem oneofMembers?_modify {id : NodeId} {f : Node → Node}
    (hf : ∀ n, g.node? id = some n → (f n).content.members? = n.content.members?) (j : NodeId) :
    (g.modify id f).oneofMembers? j = g.oneofMembers? j := by
  simp only [oneofMembers?_eq, node?_modify]
  split <;> cases hn : g.node? j <;> simp_all

variable {f : Field → Field}

theorem field?_modifyField (id j : NodeId) :
    (g.modifyField id f).field? j = if id = j then (g.field? j).map f else g.field? j := by
  simp only [field?, modifyField, node?_modify]
  split <;> cases g.node? j <;> simp

theorem oneofMembers?_modifyField (id j : NodeId) :
    (g.modifyField id f).oneofMembers? j = g.oneofMembers? j :=
  oneofMembers?_modify (fun _ _ => Content.members?_mapField f) j

-- A field may be listed twice.
theorem node?_foldl_modifyField (hf : ∀ d, f (f d) = f d) (ids : List NodeId) (j : NodeId) :
    (ids.foldl (fun h id => h.modifyField id f) g).node? j = if j ∈ ids then
      (g.node? j).map fun n => { n with content := n.content.mapField f } else g.node? j := by
  induction ids generalizing g
  case nil => simp
  case cons id ids hi =>
    rw [List.foldl_cons, hi, modifyField, node?_modify]
    by_cases hj : id = j
    · cases g.node? j <;> simp [hj, Content.mapField_mapField hf]
    · simp [hj, Ne.symm hj]

theorem field?_foldl_modifyField (hf : ∀ d, f (f d) = f d) (ids : List NodeId) (j : NodeId) :
    (ids.foldl (fun h id => h.modifyField id f) g).field? j =
      if j ∈ ids then (g.field? j).map f else g.field? j := by
  simp only [field?, node?_foldl_modifyField hf]
  split <;> cases g.node? j <;> simp

theorem oneofMembers?_foldl_modifyField (hf : ∀ d, f (f d) = f d) (ids : List NodeId) (j : NodeId) :
    (ids.foldl (fun h id => h.modifyField id f) g).oneofMembers? j = g.oneofMembers? j := by
  simp only [oneofMembers?_eq, node?_foldl_modifyField hf]
  split <;> cases g.node? j <;> simp

end Modify

section Insert

variable {above id : NodeId} {name : String} {c : Content} (hi : g.insert above name c = .ok (h, id))
include hi

theorem field?_insert (j : NodeId) : h.field? j = if j = g.size then c.field? else g.field? j := by
  have ⟨n, hn, _, _, _, hnode⟩ := insert_cases hi
  simp only [field?, hnode]
  split <;> [rfl; split <;> simp_all]

theorem oneofMembers?_insert (j : NodeId) :
    h.oneofMembers? j = if j = g.size then c.members? else g.oneofMembers? j := by
  have ⟨n, hn, _, _, _, hnode⟩ := insert_cases hi
  simp only [oneofMembers?_eq, hnode]
  split <;> [rfl; split <;> simp_all]

-- There is nothing at the place of a node before it is added.
theorem field?_insert_of_none (hc : c.field? = none) (j : NodeId) : h.field? j = g.field? j := by
  rw [field?_insert hi, hc]
  split
  case isTrue hj => simp [hj, field?, (node?_eq_none_iff _).mpr le_rfl]
  case isFalse   => rfl

theorem oneofMembers?_insert_of_none (hc : c.members? = none) (j : NodeId) :
    h.oneofMembers? j = g.oneofMembers? j := by
  rw [oneofMembers?_insert hi, hc]
  split
  case isTrue hj => simp [hj, oneofMembers?_eq, (node?_eq_none_iff _).mpr le_rfl]
  case isFalse   => rfl

end Insert

theorem Extends.isType (e : Extends g h) {id : NodeId} (ht : g.isType id = true) : h.isType id = true := by
  have ⟨k, hk, _⟩ := Option.any_eq_true .. |>.mp ht
  rwa [Graph.isType, e.kind (lt_size_of_kind? hk)]

-- A oneof group has a field of its message among its members.
def Groups (g : Graph) (o f : NodeId) : Prop :=
  ∃ members, g.oneofMembers? o = some members ∧ f ∈ members ∧ g.parent? o = g.parent? f

theorem Extends.groups_iff (e : Extends g h) {o f : NodeId} (hf : f < g.size)
    (hm : h.oneofMembers? o = g.oneofMembers? o) : h.Groups o f ↔ g.Groups o f := by
  refine exists_congr fun members => ?_
  rw [hm, e.parent hf]
  refine and_congr_right fun hg => ?_
  rw [e.parent (lt_size_of_oneofMembers? hg)]

-- A new group has its members and no others.
theorem Grown.groups_new_iff {message f : NodeId} {new : List NodeId} (e : Grown g message .oneof h)
    (hc : ∀ f ∈ new, ∃ d, g.field? f = some d ∧ g.parent? f = some message ∧ d.oneof = none)
    (hm : h.oneofMembers? g.size = some new) : h.Groups g.size f ↔ f ∈ new := by
  constructor
  · intro ⟨members, hg, hin, _⟩
    rw [hm, Option.some.injEq] at hg
    exact hg ▸ hin
  · intro hin
    have ⟨d, hd, hp, _⟩ := hc f hin
    refine ⟨new, hm, hin, ?_⟩
    rw [e.extends.parent (lt_size_of_field? hd), hp, e.parent, if_pos rfl]

-- What fields know about groups and types, and groups about fields.
structure Linked (g : Graph) : Prop where
  grouped : ∀ {f data o}, g.field? f = some data → (data.oneof = some o ↔ g.Groups o f)
  member : ∀ {o members f}, g.oneofMembers? o = some members → f ∈ members →
    (g.field? f).isSome ∧ g.parent? o = g.parent? f
  resolved : ∀ {f data t}, g.field? f = some data → data.resolved = some t → g.isType t = true

theorem empty_linked : Linked .empty where
  grouped {f data o} hf := by cases f <;> simp [empty, field?, node?, Content.field?] at hf
  member {o members f} hm := by
    cases o <;> simp [empty, oneofMembers?_eq, node?, Content.members?] at hm
  resolved {f data t} hf := by cases f <;> simp [empty, field?, node?, Content.field?] at hf

namespace Linked

variable (l : g.Linked)
include l

-- Fields may be pointed at types, and nodes may be added that are neither fields nor groups.
theorem of_map (e : Extends g h) {F : NodeId → Field → Field}
    (hf : ∀ id, h.field? id = (g.field? id).map (F id)) (ho : ∀ id d, (F id d).oneof = d.oneof)
    (hr : ∀ id d t, (F id d).resolved = some t → d.resolved = some t ∨ g.isType t = true)
    (hm : ∀ id, h.oneofMembers? id = g.oneofMembers? id) : h.Linked where
  grouped {f data o} hd := by
    have ⟨d, hd, heq⟩ := Option.map_eq_some_iff.mp (hf f ▸ hd)
    rw [← heq, ho, l.grouped hd, e.groups_iff (lt_size_of_field? hd) (hm o)]
  member {o members f} hg hin := by
    rw [hm] at hg
    have ⟨hs, hp⟩ := l.member hg hin
    have ⟨d, hd⟩ := Option.isSome_iff_exists.mp hs
    rw [hf, hd, e.parent (lt_size_of_field? hd), e.parent (lt_size_of_oneofMembers? hg)]
    exact ⟨rfl, hp⟩
  resolved {f data t} hd ht := by
    have ⟨d, hd, heq⟩ := Option.map_eq_some_iff.mp (hf f ▸ hd)
    cases hr f d t (heq ▸ ht)
    case inl ht => exact e.isType (l.resolved hd ht)
    case inr ht => exact e.isType ht

theorem of_same (e : Extends g h) (hf : ∀ id, h.field? id = g.field? id)
    (hm : ∀ id, h.oneofMembers? id = g.oneofMembers? id) : h.Linked := by
  refine l.of_map e (F := fun _ => id) (fun id => ?_) (fun _ _ => rfl) (fun _ _ _ => .inl) hm
  rw [hf, Option.map_id_fun]
  rfl

theorem of_field (e : Extends g h) {new : Field} (hr : new.resolved = none) (ho : new.oneof = none)
    (hf : ∀ id, h.field? id = if id = g.size then some new else g.field? id)
    (hm : ∀ id, h.oneofMembers? id = g.oneofMembers? id) : h.Linked where
  grouped {f data o} hd := by
    rw [hf] at hd
    split at hd
    case isTrue hid =>
      cases hd
      -- no group has a member that was not there
      simp only [ho, reduceCtorEq, false_iff]
      intro ⟨members, hg, hin, _⟩
      have ⟨_, hd⟩ := Option.isSome_iff_exists.mp (l.member (hm o ▸ hg) hin).left
      exact absurd hid (Nat.ne_of_lt (lt_size_of_field? hd))
    case isFalse => rw [l.grouped hd, e.groups_iff (lt_size_of_field? hd) (hm o)]
  member {o members f} hg hin := by
    rw [hm] at hg
    have ⟨hs, hp⟩ := l.member hg hin
    have ⟨d, hd⟩ := Option.isSome_iff_exists.mp hs
    have hl := lt_size_of_field? hd
    rw [hf, if_neg (Nat.ne_of_lt hl), hd, e.parent hl, e.parent (lt_size_of_oneofMembers? hg)]
    exact ⟨rfl, hp⟩
  resolved {f data t} hd ht := by
    rw [hf] at hd
    split at hd
    case isTrue  =>
      cases hd
      simp [hr] at ht
    case isFalse => exact e.isType (l.resolved hd ht)

-- The members of a new group were in none before.
theorem of_oneof {message : NodeId} {new : List NodeId} (e : Grown g message .oneof h)
    (hc : ∀ f ∈ new, ∃ d, g.field? f = some d ∧ g.parent? f = some message ∧ d.oneof = none)
    (hf : ∀ id, h.field? id =
      if id ∈ new then (g.field? id).map ({ · with oneof := some g.size }) else g.field? id)
    (hm : ∀ id, h.oneofMembers? id = if id = g.size then some new else g.oneofMembers? id) :
    h.Linked where
  grouped {f data o} hd := by
    have hnew : h.Groups g.size f ↔ f ∈ new := e.groups_new_iff hc (by rw [hm, if_pos rfl])
    have hold (hid : o ≠ g.size) : h.oneofMembers? o = g.oneofMembers? o := by rw [hm, if_neg hid]
    rw [hf] at hd
    split at hd
    case isTrue hin =>
      have ⟨d, hd', _, hn⟩ := hc f hin
      rw [hd', Option.map_some, Option.some.injEq] at hd
      by_cases hid : o = g.size
      case pos => simp [hid, hnew, hin, ← hd]
      case neg =>
        rw [e.extends.groups_iff (lt_size_of_field? hd') (hold hid), ← l.grouped hd', hn, ← hd]
        simp [Ne.symm hid]
    case isFalse hin =>
      by_cases hid : o = g.size
      case pos =>
        rw [hid, hnew, iff_false_right hin]
        intro ho
        have ⟨_, hg, _⟩ := (l.grouped hd).mp ho
        exact Nat.lt_irrefl _ (lt_size_of_oneofMembers? hg)
      case neg => rw [l.grouped hd, e.extends.groups_iff (lt_size_of_field? hd) (hold hid)]
  member {o members f} hg hin := by
    rw [hm] at hg
    split at hg
    case isTrue hid =>
      cases hg
      have ⟨d, hd, hp, _⟩ := hc f hin
      rw [hf, if_pos hin, hd, hid, e.extends.parent (lt_size_of_field? hd), hp]
      exact ⟨rfl, by simp [e.parent]⟩
    case isFalse hid =>
      have ⟨hs, hp⟩ := l.member hg hin
      have ⟨d, hd⟩ := Option.isSome_iff_exists.mp hs
      rw [hf, hd, e.extends.parent (lt_size_of_field? hd), e.extends.parent (lt_size_of_oneofMembers? hg)]
      refine ⟨?_, hp⟩
      split <;> rfl
  resolved {f data t} hd ht := by
    rw [hf] at hd
    split at hd
    case isTrue hin =>
      have ⟨d, hd, heq⟩ := Option.map_eq_some_iff.mp hd
      exact e.extends.isType (l.resolved hd (by rw [← heq] at ht; exact ht))
    case isFalse => exact e.extends.isType (l.resolved hd ht)

-- What an insertion adds that is neither a field nor a group changes no links.
theorem of_insert {above id : NodeId} {name : String} {c : Content} (hs : ∀ σ, c.slot σ = [])
    (hf : c.field? = none) (hm : c.members? = none) (hi : g.insert above name c = .ok (h, id)) :
    h.Linked :=
  l.of_same (insert_grown hs hi).extends (field?_insert_of_none hi hf) (oneofMembers?_insert_of_none hi hm)

theorem of_addMethod {service : NodeId} {method : Method} (he : g.addMethod service method = .ok h) :
    h.Linked := by
  have ⟨n, methods, nested, hn, hs, heq⟩ := addMethod_cases he
  refine l.of_same (addMethod_sameShape he).extends (fun j => ?_) (fun j => ?_)
  · refine heq ▸ field?_modify (fun n' hn' => ?_) j
    cases hn.symm.trans hn'
    simp [hs, Content.field?]
  · refine heq ▸ oneofMembers?_modify (fun n' hn' => ?_) j
    cases hn.symm.trans hn'
    simp [hs, Content.members?]

theorem of_addOneof {message id : NodeId} {name : String} {members : List NodeId}
    (he : g.addOneof message name members = .ok (h, id)) : h.Linked := by
  have ⟨added, hi, hc, heq⟩ := addOneof_cases he
  have ⟨_, _, _, hid, _⟩ := insert_cases hi
  subst hid
  refine l.of_oneof (addOneof_grown he) (fun f hin => checkMember_eq_ok_iff.mp (hc f hin))
    (fun j => ?_) fun j => ?_
  · rw [heq, field?_foldl_modifyField (f := ({ · with oneof := some g.size })) (fun _ => rfl),
      field?_insert_of_none hi rfl]
  · rw [heq, oneofMembers?_foldl_modifyField (f := ({ · with oneof := some g.size })) (fun _ => rfl),
      oneofMembers?_insert hi]
    rfl

theorem of_resolve {field target : NodeId} (he : g.resolve field target = .ok h) : h.Linked := by
  have ⟨ht, _, heq⟩ := resolve_cases he
  subst heq
  refine l.of_map (resolve_sameShape he).extends
    (F := fun id d => if field = id then { d with resolved := some target } else d)
    (fun j => ?_) (fun j d => ?_) (fun j d t => ?_) (oneofMembers?_modifyField field)
  · rw [field?_modifyField]
    split <;> simp
  · split <;> rfl
  · split
    case isFalse => exact .inl
    case isTrue =>
      intro heq
      exact .inr (Option.some.inj heq ▸ ht)

end Linked

-- A field that is added points at no type and is in no group; that is left to later edits.
def Edit.Fresh : Edit → Prop
  | addField _ _ field => field.resolved = none ∧ field.oneof = none
  | _ => True

-- The graphs that can be built with fresh fields only.
inductive Built : Graph → Prop
  | empty : Built .empty
  | edit {g h : Graph} {e : Edit} : Built g → e.Fresh → g.edit e = .ok h → Built h

theorem Built.reachable (b : g.Built) : g.Reachable := by
  induction b
  case empty         => exact .empty
  case edit _ he hi  => exact hi.edit he

theorem edit_linked {e : Edit} (l : g.Linked) (hf : e.Fresh) (he : g.edit e = .ok h) : h.Linked := by
  cases e
  case addMethod => exact l.of_addMethod he
  case resolve   => exact l.of_resolve he
  case setFile id file =>
    injection he with he
    subst he
    exact l.of_same (setFile_sameShape id file).extends (field?_modify fun _ _ => rfl)
      (oneofMembers?_modify fun _ _ => rfl)
  case addField message name field =>
    have ⟨(_, _), hi, rfl⟩ := exists_of_map_eq_ok he
    exact l.of_field (insert_grown (by rintro ⟨⟩ <;> rfl) hi).extends hf.left hf.right
      (field?_insert hi) (oneofMembers?_insert_of_none hi rfl)
  case addOneof message name members =>
    have ⟨(_, _), ho, rfl⟩ := exists_of_map_eq_ok he
    exact l.of_addOneof ho
  all_goals
    have ⟨(_, _), hi, rfl⟩ := exists_of_map_eq_ok he
    exact l.of_insert (by rintro ⟨⟩ <;> rfl) rfl rfl hi

theorem Built.linked (b : g.Built) : g.Linked := by
  induction b
  case empty         => exact empty_linked
  case edit hf he hi => exact edit_linked hi hf he

theorem built_of_foldlM (edits : List Edit) (hf : ∀ e ∈ edits, e.Fresh) (b : g.Built)
    (he : edits.foldlM edit g = .ok h) : h.Built := by
  induction edits generalizing g
  case nil =>
    cases he
    exact b
  case cons e edits hi =>
    have ⟨hf, hfs⟩ := List.forall_mem_cons.mp hf
    rw [List.foldlM_cons] at he
    have ⟨i, hs, he⟩ := exists_of_bind_eq_ok he
    exact hi hfs (b.edit hf hs) he

-- What the nodes of a graph say about each other. A list of a node has those and only those nodes that
-- say they stand below it, the list that is meant for their kind.
structure Consistent (g : Graph) : Prop where
  rooted : root < g.size ∧ ∀ id < g.size, g.parent? id = none ↔ id = root
  parent_lt : ∀ {id p}, g.parent? id = some p → p < id
  admitted : ∀ {id p}, g.parent? id = some p →
    ∃ j k, g.kind? p = some j ∧ g.kind? id = some k ∧ j.admits k
  listed : ∀ σ p id, (g.slot σ p).count id =
    if g.parent? id = some p ∧ (g.kind? id).map Kind.slot = some σ then 1 else 0
  ordered : ∀ σ p, (g.slot σ p).Pairwise (· < ·)
  grouped : ∀ {f data}, g.field? f = some data → ∀ o, data.oneof = some o ↔ g.Groups o f
  member : ∀ {o members f}, g.oneofMembers? o = some members → f ∈ members →
    (g.field? f).isSome ∧ g.parent? o = g.parent? f
  resolved : ∀ {f data t}, g.field? f = some data → data.resolved = some t → g.isType t = true
  climbs : ∀ {id}, id < g.size → (g.lineage id).IsChain (fun a b => g.parent? a = some b) ∧
    (g.lineage id).getLast? = some root ∧ (g.ancestors id).length ≤ id

theorem built_consistent (b : g.Built) : g.Consistent := by
  have w := b.reachable.wellFormed
  have l := b.linked
  constructor
  case rooted =>
    refine ⟨lt_size_of_kind? w.root_kind, fun id hl => ⟨w.eq_root_of_no_parent hl, ?_⟩⟩
    rintro rfl
    exact w.root_parent
  case parent_lt => exact w.parent_lt
  case admitted  => exact w.admitted
  case listed =>
    intro σ p id
    rw [(w.slot_nodup σ p).count]
    exact if_congr w.mem_slot_iff rfl rfl
  case ordered  => exact w.slot_sorted
  case grouped  => exact fun hf _ => l.grouped hf
  case member   => exact l.member
  case resolved => exact l.resolved
  case climbs =>
    intro id hl
    have ⟨hc, hr⟩ := w.lineage_climbs hl
    exact ⟨hc, hr, w.length_ancestors_le id⟩

-- A message with a group that lists one of its fields twice, a map, and a field of a type that is added
-- after it.
def account : Graph :=
  ⟨#[{ name := "", parent := none, content := .package [1, 6] },
     { name := "Account", parent := some 0, content := .message [2, 3, 4] [5] [7] },
     { name := "mail", parent := some 1, content := .field { typeName := "string", oneof := some 5 } },
     { name := "phone", parent := some 1, content := .field { typeName := "string", oneof := some 5 } },
     { name := "roles", parent := some 1,
       content := .field { typeName := "Role", keyType := some "string", resolved := some 7 } },
     { name := "contact", parent := some 1, content := .oneof [3, 2, 3] },
     { name := "Accounts", parent := some 0, file := some "account.proto", content := .service [] [] },
     { name := "Role", parent := some 1, content := .enum [⟨"OWNER", 0⟩] }]⟩

theorem built_consistent_account : account.Built ∧ account.Consistent := by
  have b : account.Built := by
    refine built_of_foldlM [.addMessage 0 "Account", .addField 1 "mail" { typeName := "string" },
      .addField 1 "phone" { typeName := "string" },
      .addField 1 "roles" { typeName := "Role", keyType := some "string" },
      .addOneof 1 "contact" [3, 2, 3], .addService 0 "Accounts", .addEnum 1 "Role" [⟨"OWNER", 0⟩],
      .setFile 6 "account.proto", .resolve 4 7] ?_ .empty rfl
    simp [Edit.Fresh]
  exact ⟨b, built_consistent b⟩

end Graph

end ProtoTypings
