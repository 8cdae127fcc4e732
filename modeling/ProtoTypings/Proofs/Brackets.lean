import Mathlib
import ProtoTypings.Proofs.Schema.Resolution
import ProtoTypings.Proofs.Unfolding

namespace ProtoTypings

-- One place in a list has a marked element, and no other has.
def MarkedAt {α : Type} (l : List α) (marked : α → Prop) (i : Nat) : Prop :=
  ∀ j, (∃ a, l[j]? = some a ∧ marked a) ↔ j = i

theorem MarkedAt.unique {α : Type} {l : List α} {marked : α → Prop} {i j : Nat} (h : MarkedAt l marked i)
    (h' : MarkedAt l marked j) : i = j :=
  (h' i).mp ((h i).mpr rfl)

namespace Graph

variable {g : Graph} {message group f : NodeId} {listed order members : List NodeId}

def openMark (g : Graph) (group : NodeId) : String :=
  "start oneof \"" ++ g.name group ++ "\""

def closeMark (g : Graph) (group : NodeId) : String :=
  "end oneof \"" ++ g.name group ++ "\""

theorem openMark_inj {o : NodeId} : g.openMark group = g.openMark o ↔ g.name group = g.name o :=
  (String.append_left_inj _).trans (String.append_right_inj _)

theorem closeMark_inj {o : NodeId} : g.closeMark group = g.closeMark o ↔ g.name group = g.name o :=
  (String.append_left_inj _).trans (String.append_right_inj _)

-- The marks of a group are at the first and at the last of some fields, and nowhere else.
structure Brackets (g : Graph) (message group : NodeId) (members : List Member) (order : List NodeId) :
    Prop where
  opened : ∃ i f, order.head? = some f ∧ (g.fields message)[i]? = some f ∧
    MarkedAt members (fun member => g.openMark group ∈ member.leading) i
  closed : ∃ i f, order.getLast? = some f ∧ (g.fields message)[i]? = some f ∧
    MarkedAt members (fun member => member.trailing = some (g.closeMark group)) i

-- A group with members, none of which stands for nothing but an optional field.
structure GroupOf (g : Graph) (message group : NodeId) (listed : List NodeId) : Prop where
  parent : g.parent? group = some message
  members : g.oneofMembers? group = some listed
  ne_nil : listed ≠ []
  plain : ∀ f ∈ listed, ∀ data, g.field? f = some data → data.proto3Optional = false

-- Some fields of a message, in the order of the message.
def declared (g : Graph) (message : NodeId) (listed : List NodeId) : List NodeId :=
  (g.fields message).filter (· ∈ listed)

theorem brackets_iff {members : List Member} (b : g.Brackets message group members listed) :
    g.Brackets message group members order ↔
      order.head? = listed.head? ∧ order.getLast? = listed.getLast? := by
  obtain ⟨i, f, hf, hi, opened⟩ := b.opened
  obtain ⟨j, f', hf', hj, closed⟩ := b.closed
  constructor
  · intro b'
    obtain ⟨i', e, he, hi', opened'⟩ := b'.opened
    obtain ⟨j', e', he', hj', closed'⟩ := b'.closed
    cases opened.unique opened'
    cases closed.unique closed'
    exact ⟨by rw [he, hf, ← hi', hi], by rw [he', hf', ← hj', hj]⟩
  · rintro ⟨hh, hl⟩
    exact ⟨⟨i, f, hh.trans hf, hi, opened⟩, ⟨j, f', hl.trans hf', hj, closed⟩⟩

section

variable (w : g.WellFormed)
include w

theorem WellFormed.mem_fields_iff : f ∈ g.fields message ↔
    g.parent? f = some message ∧ ∃ data, g.field? f = some data := by
  rw [← slot_fields, w.mem_slot_iff]
  refine and_congr_right fun _ => ⟨fun hs => ?_, ?_⟩
  · obtain ⟨k, hk, hs⟩ := Option.map_eq_some_iff.mp hs
    obtain ⟨n, hn, rfl⟩ := Option.map_eq_some_iff.mp hk
    cases hc : n.content
    case field data => exact ⟨data, by simp [field?, hn, hc, Content.field?]⟩
    all_goals simp [hc, Content.kind, Kind.slot] at hs
  · rintro ⟨data, hd⟩
    exact field_slot hd

theorem WellFormed.map_fst_fieldsOf : (g.fieldsOf message).map Prod.fst = g.fields message := by
  have known (f : NodeId) (hf : f ∈ g.fields message) : ∃ data, g.field? f = some data :=
    (w.mem_fields_iff.mp hf).right
  rw [fieldsOf]
  generalize g.fields message = fields at known
  induction fields
  case nil => rfl
  case cons f fields hi =>
    obtain ⟨⟨data, hd⟩, known⟩ := List.forall_mem_cons.mp known
    simp [hd, hi known]

-- The fields of a message are sorted, so the first of some fields does not come after the last of them.
theorem WellFormed.le_of_declared {i j : Nat} {e : NodeId} (hf : (g.declared message listed).head? = some f)
    (he : (g.declared message listed).getLast? = some e) (hi : (g.fields message)[i]? = some f)
    (hj : (g.fields message)[j]? = some e) : i ≤ j := by
  have sorted : (g.fields message).Pairwise (· < ·) := slot_fields message ▸ w.slot_sorted .fields message
  have le : f ≤ e := by
    obtain ⟨rest, hd⟩ := List.head?_eq_some_iff.mp hf
    have sorted : (g.declared message listed).Pairwise (· < ·) := sorted.filter _
    have below : ∀ x ∈ rest, f < x := (List.pairwise_cons.mp (hd ▸ sorted)).left
    have mem : e ∈ f :: rest := hd ▸ List.mem_of_getLast? he
    rcases List.mem_cons.mp mem with rfl | mem
    · exact le_rfl
    · exact (below e mem).le
  by_contra hlt
  obtain ⟨li, rfl⟩ := List.getElem?_eq_some_iff.mp hi
  obtain ⟨lj, rfl⟩ := List.getElem?_eq_some_iff.mp hj
  exact Nat.not_lt_of_le le (List.pairwise_iff_getElem.mp sorted j i lj li (Nat.lt_of_not_le hlt))

end

theorem kind?_of_oneofMembers? {o : NodeId} (ho : g.oneofMembers? o = some members) :
    g.kind? o = some .oneof := by
  rw [oneofMembers?] at ho
  split at ho <;> [skip; contradiction]
  case h_1 hc =>
    obtain ⟨n, hn, hc⟩ := Option.map_eq_some_iff.mp hc
    simp [kind?, hn, hc, Content.kind]

section Loaded

variable {d : Descriptor} (keyed : d.Everywhere Descriptor.Keyed) (loaded : ofDescriptor d = .ok g)
include keyed loaded

-- Groups of one message are told apart by their names.
theorem eq_of_group_name_eq {o o' : NodeId} {members members' : List NodeId}
    (ho : g.oneofMembers? o = some members) (ho' : g.oneofMembers? o' = some members')
    (hp : g.parent? o = some message) (hp' : g.parent? o' = some message) (hn : g.name o = g.name o') :
    o = o' := by
  obtain ⟨b, outline⟩ := (ofDescriptor_meets d).post_of_ok loaded
  have w := b.reachable.wellFormed
  apply eq_of_key_line_eq w outline keyed (lt_size_of_oneofMembers? ho) (lt_size_of_oneofMembers? ho')
  rw [w.line_of_parent hp, w.line_of_parent hp']
  simp [Label.key, label, hn, kind?_of_oneofMembers? ho, kind?_of_oneofMembers? ho']

end Loaded

end Graph

namespace Mapping

variable {m : Mapping} {message group f : NodeId} {listed : List NodeId} {data : Field} {d : Descriptor}

theorem oneofMarks_of_oneof (ho : data.oneof = some group) (hm : m.graph.oneofMembers? group = some listed) :
    m.oneofMarks f data = if data.proto3Optional then ([], none) else
      (if listed.head? = some f then [m.graph.openMark group] else [],
        if listed.getLast? = some f then some (m.graph.closeMark group) else none) := by
  rw [oneofMarks, ho]
  dsimp only
  rw [hm]
  rfl

-- A member of the group has its marks if it is the first or the last in the list.
theorem oneofMarks_of_mem (l : m.graph.Linked) (hg : m.graph.GroupOf message group listed) (hf : f ∈ listed)
    (hd : m.graph.field? f = some data) : m.oneofMarks f data =
      (if listed.head? = some f then [m.graph.openMark group] else [],
        if listed.getLast? = some f then some (m.graph.closeMark group) else none) := by
  have groups : m.graph.Groups group f := ⟨listed, hg.members, hf, (l.member hg.members hf).right⟩
  rw [oneofMarks_of_oneof ((l.grouped hd).mpr groups) hg.members, hg.plain f hf data hd]
  rfl

-- The marks of other fields are those of other groups.
theorem oneofMarks_of_notMem (l : m.graph.Linked) (hg : m.graph.GroupOf message group listed)
    (apart : ∀ o members, m.graph.oneofMembers? o = some members → m.graph.parent? o = some message →
      m.graph.name o = m.graph.name group → o = group)
    (hp : m.graph.parent? f = some message) (hf : f ∉ listed) (hd : m.graph.field? f = some data) :
    m.graph.openMark group ∉ (m.oneofMarks f data).1 ∧
      (m.oneofMarks f data).2 ≠ some (m.graph.closeMark group) := by
  cases ho : data.oneof
  case none => simp [oneofMarks, ho]
  case some o =>
    obtain ⟨members, hm, hmem, hpo⟩ := (l.grouped hd).mp ho
    have hne : m.graph.name o ≠ m.graph.name group := by
      intro hn
      cases apart o members hm (hpo.trans hp) hn
      cases hg.members.symm.trans hm
      exact hf hmem
    have opens : m.graph.openMark group ≠ m.graph.openMark o := mt Graph.openMark_inj.mp hne.symm
    have closes : m.graph.closeMark o ≠ m.graph.closeMark group := mt Graph.closeMark_inj.mp hne
    rw [oneofMarks_of_oneof ho hm]
    split
    case isTrue => simp
    case isFalse =>
      constructor
      · split <;> simp [opens]
      · split <;> simp [closes]

-- The members are those of the fields, in the same order.
theorem map_name_of_membersWith (w : m.graph.WellFormed) (hooks : m.hooks.member = none) {inline : Inliner}
    {members : List Member} (h : (m.membersWith inline message).result = .ok members) :
    members.map Property.name =
      (m.graph.fields message).map fun f => Identifier.ofField (m.graph.name f) := by
  have each := membersWith_result hooks h
  rw [← w.map_fst_fieldsOf, List.map_map]
  clear h
  generalize m.graph.fieldsOf message = fields at each
  induction each
  case nil => rfl
  case cons f member fields members head _ hi =>
    obtain ⟨_, type, _, rfl⟩ := head
    rw [List.map_cons, List.map_cons, hi]
    rfl

-- One field has a mark, and so one member has it.
theorem markedAt_of_membersWith (w : m.graph.WellFormed) (hooks : m.hooks.member = none) {inline : Inliner}
    {members : List Member} (h : (m.membersWith inline message).result = .ok members) {marked : Member → Prop}
    (hm : ∀ id data type, id ∈ m.graph.fields message → m.graph.field? id = some data →
      (marked (m.defaultMember id data type) ↔ id = f)) {i : Nat} (hi : (m.graph.fields message)[i]? = some f) :
    MarkedAt members marked i := by
  have each := membersWith_result hooks h
  have at_ (j : Nat) : (m.graph.fields message)[j]? = (m.graph.fieldsOf message)[j]?.map Prod.fst := by
    rw [← w.map_fst_fieldsOf, List.getElem?_map]
  have nodup : (m.graph.fields message).Nodup := Graph.slot_fields message ▸ w.slot_nodup .fields message
  intro j
  constructor
  · rintro ⟨member, hj, marks⟩
    obtain ⟨e, he, hd, type, _, rfl⟩ := exists_of_forall₂ each.flip hj
    have hj : (m.graph.fields message)[j]? = some e.1 := by rw [at_, he, Option.map_some]
    have hf : e.1 = f := (hm _ _ _ (List.mem_of_getElem? hj) hd).mp marks
    have hl : j < (m.graph.fields message).length := (List.getElem?_eq_some_iff.mp hj).1
    exact (List.getElem?_inj hl nodup).mp (by rw [hj, hi, hf])
  · rintro rfl
    obtain ⟨e, he, rfl⟩ := Option.map_eq_some_iff.mp ((at_ j).symm.trans hi)
    obtain ⟨member, hj, hd, type, _, rfl⟩ := exists_of_forall₂ each he
    exact ⟨_, hj, (hm _ _ _ (List.mem_of_getElem? hi) hd).mpr rfl⟩

section Loaded

variable (keyed : d.Everywhere Descriptor.Keyed) (loaded : Graph.ofDescriptor d = .ok m.graph)
include keyed loaded

-- The marks are at the ends of the list of the group.
theorem marks_iff (hg : m.graph.GroupOf message group listed) {id : NodeId}
    (hid : id ∈ m.graph.fields message) (hd : m.graph.field? id = some data) :
    (m.graph.openMark group ∈ (m.oneofMarks id data).1 ↔ listed.head? = some id) ∧
      ((m.oneofMarks id data).2 = some (m.graph.closeMark group) ↔ listed.getLast? = some id) := by
  obtain ⟨b, _⟩ := (Graph.ofDescriptor_meets d).post_of_ok loaded
  by_cases hf : id ∈ listed
  case pos =>
    rw [oneofMarks_of_mem b.linked hg hf hd]
    simp
  case neg =>
    obtain ⟨hp, _⟩ := b.reachable.wellFormed.mem_fields_iff.mp hid
    obtain ⟨opens, closes⟩ := oneofMarks_of_notMem b.linked hg (fun o members ho hpo =>
      Graph.eq_of_group_name_eq keyed loaded ho hg.members hpo hg.parent) hp hf hd
    refine ⟨iff_of_false opens fun h => ?_, iff_of_false closes fun h => ?_⟩
    · exact hf (List.mem_of_head? h)
    · exact hf (List.mem_of_getLast? h)

theorem brackets_of_membersOf (hooks : m.hooks.member = none) {stack : List NodeId} {members : List Member}
    (hg : m.graph.GroupOf message group listed) (h : (m.membersOf stack message).result = .ok members) :
    m.graph.Brackets message group members listed := by
  obtain ⟨b, _⟩ := (Graph.ofDescriptor_meets d).post_of_ok loaded
  have w := b.reachable.wellFormed
  have place (id : NodeId) (hid : id ∈ listed) : ∃ i : Nat, (m.graph.fields message)[i]? = some id := by
    obtain ⟨hf, hp⟩ := b.linked.member hg.members hid
    have hid := w.mem_fields_iff.mpr ⟨hp.symm.trans hg.parent, Option.isSome_iff_exists.mp hf⟩
    exact List.mem_iff_getElem?.mp hid
  obtain ⟨first, hfirst⟩ := Option.ne_none_iff_exists'.mp (mt List.head?_eq_none_iff.mp hg.ne_nil)
  obtain ⟨last, hlast⟩ := Option.ne_none_iff_exists'.mp (mt List.getLast?_eq_none_iff.mp hg.ne_nil)
  constructor
  case opened =>
    obtain ⟨i, hi⟩ := place first (List.mem_of_head? hfirst)
    refine ⟨i, first, hfirst, hi, markedAt_of_membersWith w hooks h (fun id data type hid hd => ?_) hi⟩
    exact (marks_iff keyed loaded hg hid hd).left.trans (by simp [hfirst, eq_comm])
  case closed =>
    obtain ⟨j, hj⟩ := place last (List.mem_of_getLast? hlast)
    refine ⟨j, last, hlast, hj, markedAt_of_membersWith w hooks h (fun id data type hid hd => ?_) hj⟩
    exact (marks_iff keyed loaded hg hid hd).right.trans (by simp [hlast, eq_comm])

end Loaded

end Mapping

-- The marks enclose the group in the order of the message just if its list has the same ends there. They
-- are then in the right order.
theorem oneof_brackets_iff {d : Descriptor} {m : Mapping} (keyed : d.Everywhere Descriptor.Keyed)
    (loaded : Graph.ofDescriptor d = .ok m.graph) (hooks : m.hooks.member = none) (stack : List NodeId)
    {message group : NodeId} {listed : List NodeId} (hg : m.graph.GroupOf message group listed) :
    ∃ members, (m.membersOf stack message).result = .ok members ∧
      members.map Property.name =
        (m.graph.fields message).map (fun f => Identifier.ofField (m.graph.name f)) ∧
      m.graph.Brackets message group members listed ∧
      (m.graph.Brackets message group members (m.graph.declared message listed) ↔
        (m.graph.declared message listed).head? = listed.head? ∧
        (m.graph.declared message listed).getLast? = listed.getLast?) ∧
      (m.graph.Brackets message group members (m.graph.declared message listed) →
        ∃ i j, MarkedAt members (fun member => m.graph.openMark group ∈ member.leading) i ∧
          MarkedAt members (fun member => member.trailing = some (m.graph.closeMark group)) j ∧ i ≤ j) := by
  obtain ⟨members, h, _⟩ :=
    (Mapping.membersWith_cites hooks message (Mapping.inlineType_cites hooks stack)).result
  have b := Mapping.brackets_of_membersOf keyed loaded hooks hg h
  obtain ⟨built, _⟩ := (Graph.ofDescriptor_meets d).post_of_ok loaded
  have w := built.reachable.wellFormed
  refine ⟨members, h, Mapping.map_name_of_membersWith w hooks h, b, Graph.brackets_iff b, fun placed => ?_⟩
  obtain ⟨i, f, hf, hi, opened⟩ := placed.opened
  obtain ⟨j, e, he, hj, closed⟩ := placed.closed
  exact ⟨i, j, opened, closed, w.le_of_declared hf he hi hj⟩

-- A message with two groups. The list of one of them is not in the order of the fields; that of the other
-- has a field twice, but starts and ends with the right ones.
def Descriptor.checkout : Descriptor where
  nested := [("Checkout", {
    fields := some [
      ("card", { typeName := "string", number := 1 }), ("home", { typeName := "string", number := 2 }),
      ("cash", { typeName := "bool", number := 3 }), ("shop", { typeName := "string", number := 4 }),
      ("office", { typeName := "string", number := 5 })]
    oneofs := [("payment", ["cash", "card"]), ("delivery", ["home", "shop", "home", "office"])] })]

def Graph.checkout : Graph :=
  ⟨#[{ name := "", parent := none, content := .package [1] },
     { name := "Checkout", parent := some 0, content := .message [2, 3, 4, 5, 6] [7, 8] [] },
     { name := "card", parent := some 1,
       content := .field { typeName := "string", number := 1, oneof := some 7 } },
     { name := "home", parent := some 1,
       content := .field { typeName := "string", number := 2, oneof := some 8 } },
     { name := "cash", parent := some 1,
       content := .field { typeName := "bool", number := 3, oneof := some 7 } },
     { name := "shop", parent := some 1,
       content := .field { typeName := "string", number := 4, oneof := some 8 } },
     { name := "office", parent := some 1,
       content := .field { typeName := "string", number := 5, oneof := some 8 } },
     { name := "payment", parent := some 1, content := .oneof [4, 2] },
     { name := "delivery", parent := some 1, content := .oneof [3, 5, 3, 6] }]⟩

theorem Graph.checkout_loaded : ofDescriptor Descriptor.checkout = .ok Graph.checkout :=
  eq_ok_of_toOption (by decide +kernel)

theorem Graph.checkout_group {group : NodeId} {listed : List NodeId}
    (hp : Graph.checkout.parent? group = some 1) (hm : Graph.checkout.oneofMembers? group = some listed)
    (hne : listed ≠ [])
    (hf : ∀ f ∈ listed, (Graph.checkout.field? f).all (fun data => !data.proto3Optional) = true) :
    Graph.checkout.GroupOf 1 group listed :=
  ⟨hp, hm, hne, fun f hl data hd => by simpa [hd] using hf f hl⟩

def Mapping.checkout : Mapping where
  graph := Graph.checkout
  registry := ⟨[]⟩
  wellKnown := WellKnown.withOverrides []
  path := "checkout.ts"

theorem oneof_brackets_iff_checkout : Graph.checkout.GroupOf 1 8 [3, 5, 3, 6] ∧
    ∃ members, (Mapping.checkout.membersOf [] 1).result = .ok members ∧
      Graph.checkout.declared 1 [3, 5, 3, 6] = [3, 5, 6] ∧
      Graph.checkout.Brackets 1 8 members (Graph.checkout.declared 1 [3, 5, 3, 6]) := by
  have group : Graph.checkout.GroupOf 1 8 [3, 5, 3, 6] :=
    Graph.checkout_group rfl rfl (List.cons_ne_nil _ _) (by decide)
  have keyed : Descriptor.checkout.Everywhere Descriptor.Keyed := by decide +kernel
  obtain ⟨members, h, _, _, placed, _⟩ :=
    oneof_brackets_iff (m := Mapping.checkout) keyed Graph.checkout_loaded rfl [] group
  exact ⟨group, members, h, rfl, placed.mpr ⟨rfl, rfl⟩⟩

-- The payment is closed before it is opened.
theorem oneof_brackets_misplaced : Graph.ofDescriptor Descriptor.checkout = .ok Mapping.checkout.graph ∧
    Graph.checkout.GroupOf 1 7 [4, 2] ∧
    (∀ members, (Mapping.checkout.membersOf [] 1).result = .ok members →
      ¬Graph.checkout.Brackets 1 7 members (Graph.checkout.declared 1 [4, 2])) ∧
    (Mapping.checkout.membersOf [] 1).result.toOption.map
        (List.map fun member => (member.name, member.leading, member.trailing)) =
      some [("card", [], some "end oneof \"payment\""), ("home", ["start oneof \"delivery\""], none),
        ("cash", ["start oneof \"payment\""], none), ("shop", [], none),
        ("office", [], some "end oneof \"delivery\"")] := by
  have group : Graph.checkout.GroupOf 1 7 [4, 2] :=
    Graph.checkout_group rfl rfl (List.cons_ne_nil _ _) (by decide)
  have keyed : Descriptor.checkout.Everywhere Descriptor.Keyed := by decide +kernel
  refine ⟨Graph.checkout_loaded, group, fun members h placed => ?_, by decide +kernel⟩
  have b := Mapping.brackets_of_membersOf (m := Mapping.checkout) keyed Graph.checkout_loaded rfl group h
  cases ((Graph.brackets_iff b).mp placed).left

end ProtoTypings
