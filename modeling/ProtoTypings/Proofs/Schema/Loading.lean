import Mathlib
import ProtoTypings.Proofs.Schema.Outline
import ProtoTypings.Schema.Loading

namespace ProtoTypings

-- A computation succeeds exactly if `valid` holds, and then with a result that has the property `post`.
inductive Meets {ε α : Type} (valid : Prop) (post : α → Prop) : Except ε α → Prop
  | ok {a : α} : valid → post a → Meets valid post (.ok a)
  | error {e : ε} : ¬valid → Meets valid post (.error e)

namespace Meets

variable {ε α β : Type} {valid valid' : Prop} {post : α → Prop} {x : Except ε α}

theorem of_iff (hv : (∃ a, x = .ok a) ↔ valid) (hp : ∀ a, x = .ok a → post a) :
    Meets valid post x := by
  cases x
  case error e => exact .error fun h => nomatch hv.mpr h
  case ok a    => exact .ok (hv.mp ⟨a, rfl⟩) (hp a rfl)

theorem exists_ok_iff (m : Meets valid post x) : (∃ a, x = .ok a) ↔ valid := by
  cases m
  case ok a hv _ => exact iff_of_true ⟨a, rfl⟩ hv
  case error hv  => exact iff_of_false (fun h => nomatch h) hv

theorem post_of_ok (m : Meets valid post x) {a : α} (hx : x = .ok a) : post a := by
  cases m
  case ok hp => exact (Except.ok.inj hx) ▸ hp
  case error => contradiction

theorem exists_ok (m : Meets valid post x) (hv : valid) : ∃ a, x = .ok a ∧ post a := by
  have ⟨a, hx⟩ := m.exists_ok_iff.mpr hv
  exact ⟨a, hx, m.post_of_ok hx⟩

theorem congr {post' : α → Prop} (m : Meets valid post x) (hv : valid ↔ valid')
    (hp : ∀ a, post a → post' a) : Meets valid' post' x := by
  cases m
  case ok a h hq => exact .ok (hv.mp h) (hp a hq)
  case error h   => exact .error (hv.not.mp h)

-- The second of two computations may rely on what the first has achieved.
theorem bind {q : β → Prop} {f : α → Except ε β} (m : Meets valid post x)
    (h : valid → ∀ a, x = .ok a → post a → Meets valid' q (f a)) :
    Meets (valid ∧ valid') q (x >>= f) := by
  cases m
  case ok a hv hp =>
    exact (h hv a rfl hp).congr (and_iff_right hv).symm fun _ => id
  case error hv => exact .error fun hn => hv hn.left

-- The second of two computations may always succeed after the first.
theorem bind_ok {q : β → Prop} {f : α → Except ε β} (m : Meets valid post x)
    (h : ∀ a, post a → ∃ b, f a = .ok b ∧ q b) : Meets valid q (x >>= f) := by
  cases m
  case error hv => exact .error hv
  case ok a hv hp =>
    have ⟨b, hb, hq⟩ := h a hp
    change Meets valid q (f a)
    exact hb ▸ .ok hv hq

end Meets

theorem Rule.isSome_ofName?_iff {name : String} :
    (ofName? name).isSome ↔ name ∈ ["optional", "required", "repeated"] := by
  unfold ofName?
  split <;> simp_all

-- Looking for one of consecutive places by what stands there.
theorem find?_range' {α : Type} {p : Nat → Bool} {q : α → Bool} {start : Nat} {l : List α}
    (h : ∀ i a, l[i]? = some a → p (start + i) = q a) :
    (List.range' start l.length).find? p = (l.findIdx? q).map (start + ·) := by
  induction l generalizing start
  case nil => rfl
  case cons a l hi =>
    have ha : p start = q a := h 0 a rfl
    rw [List.length_cons, List.range'_succ, List.find?_cons, List.findIdx?_cons, ha, hi fun i b hb => ?_]
    · cases q a
      case true  => rfl
      case false => cases l.findIdx? q <;> simp [Nat.add_assoc, Nat.add_comm 1]
    · rw [← h (i + 1) b hb]
      congr 1
      omega

namespace Graph

variable {g h : Graph} {k : Kind}

theorem ruleOf_meets (message : NodeId) (name : String) (spec : FieldSpec) :
    Meets (∀ rule ∈ spec.rule, rule ∈ ["optional", "required", "repeated"])
      (fun rule => rule = (spec.field none).rule) (g.ruleOf message name spec.rule) := by
  cases hr : spec.rule
  case none => exact .ok (by simp) (by simp [FieldSpec.field, hr])
  case some text =>
    simp only [ruleOf]
    split
    case h_1 rule ho =>
      refine .ok ?_ (by simp [FieldSpec.field, hr, ho])
      rintro _ ⟨⟩
      exact Rule.isSome_ofName?_iff.mp (by simp [ho])
    case h_2 ho =>
      refine .error fun h => ?_
      have hs := Rule.isSome_ofName?_iff.mpr (h text rfl)
      simp [ho] at hs

theorem insert_meets (name : String) {above : NodeId} {c : Content} (hk : g.kind? above = some k)
    (hc : c.bare = c) :
    Meets (k.admits c.kind) (fun (h, id) => id = g.size ∧
      h.outline = g.outline ++ [{ name, parent := some above, content := c }]) (g.insert above name c) := by
  refine .of_iff ⟨?_, fun ha => ?_⟩ ?_
  · rintro ⟨⟨h, id⟩, hi⟩
    obtain ⟨n, hn, ha, _⟩ := insert_cases hi
    simp only [kind?, hn, Option.map_some, Option.some.injEq] at hk
    exact hk ▸ ha
  · obtain ⟨n, hn, hkn⟩ := Option.map_eq_some_iff.mp hk
    simp [insert, hn, hkn, ha]
  · rintro ⟨h, id⟩ hi
    obtain ⟨_, _, _, hid, _⟩ := insert_cases hi
    exact ⟨hid, outline_insert hc hi⟩

theorem exists_addOneof_iff {message : NodeId} {name : String} {members : List NodeId}
    (hk : g.kind? message = some .message) : (∃ a, g.addOneof message name members = .ok a) ↔
      ∀ f ∈ members, g.checkMember message name f = .ok () := by
  constructor
  · intro ⟨⟨h, id⟩, he⟩
    have ⟨_, _, hc, _⟩ := addOneof_cases he
    exact hc
  · intro hc
    have ⟨(h, id), hi, _⟩ := (insert_meets name hk (c := .oneof members) rfl).exists_ok rfl
    simp only [addOneof, hi, forM_eq_ok_iff.mpr hc]
    exact ⟨_, rfl⟩

theorem slot_fields (id : NodeId) : g.slot .fields id = g.fields id := by
  unfold slot fields
  cases g.node? id
  case none => rfl
  case some n => cases hc : n.content <;> simp [hc, Content.slot]

-- A message that is being loaded: a graph ends in it, those of its fields that are there, and those
-- of its groups.
structure Opened (g : Graph) (before : List Node) (head : Node) (fields : List (String × FieldSpec))
    (oneofs : List (String × List String)) : Prop where
  built : g.Built
  message : head.content.kind = .message
  outline : g.outline = before ++ head :: Descriptor.bodyNodes before.length fields oneofs
  fields : g.fields before.length = List.range' (before.length + 1) fields.length

namespace Opened

variable {before : List Node} {head : Node} {fields : List (String × FieldSpec)}
  {oneofs : List (String × List String)}

section

variable (o : g.Opened before head fields oneofs)
include o

theorem kind? : g.kind? before.length = some .message := by
  rw [kind?_at o.outline, o.message]

theorem field_at {i : Nat} {f : String × FieldSpec} (hf : fields[i]? = some f) :
    g.outline[before.length + 1 + i]? = some (Descriptor.fieldNode before.length
      (Descriptor.groupPlace? before.length fields oneofs (before.length + 1 + i)) f) := by
  have ⟨hl, _⟩ := List.getElem?_eq_some_iff.mp hf
  rw [o.outline, Descriptor.bodyNodes, List.getElem?_append_right (by omega), Nat.add_assoc,
    Nat.add_sub_cancel_left, Nat.add_comm 1, List.getElem?_cons_succ,
    List.getElem?_append_left (by simpa using hl)]
  simp [Descriptor.fieldNodes, hf, Nat.add_assoc, Nat.add_comm 1]

theorem find_field (name : String) : (g.fields before.length).find? (g.name · = name) =
    Descriptor.fieldPlace? before.length fields name := by
  rw [o.fields, Descriptor.fieldPlace?]
  apply find?_range'
  intro i f hf
  rw [name_of_outline (o.field_at hf)]
  rfl

theorem membersOf (oneof : String) (names : List String) :
    Meets (∀ name ∈ names, ∃ f ∈ fields, f.1 = name)
      (fun members => members = Descriptor.memberPlaces before.length fields names)
      (g.membersOf before.length oneof names) := by
  induction names
  case nil => exact .ok (by simp) rfl
  case cons name names hi =>
    rw [List.forall_mem_cons, Graph.membersOf, o.find_field, ← Descriptor.isSome_fieldPlace?_iff]
    cases hp : Descriptor.fieldPlace? before.length fields name
    case none => exact .error fun h => nomatch h.left
    case some p =>
      refine (hi.bind fun _ members _ hm => .ok trivial ?_).congr (by simp) fun _ => id
      simp [Descriptor.memberPlaces, hp, hm]

theorem checkMember_iff {oneof name : String} {p : NodeId}
    (hp : Descriptor.fieldPlace? before.length fields name = some p) :
    g.checkMember before.length oneof p = .ok () ↔
      Descriptor.groupPlace? before.length fields oneofs p = none := by
  have ⟨i, f, heq, hf, _⟩ := Descriptor.exists_of_fieldPlace? hp
  have hn := o.field_at hf
  rw [← heq] at hn
  have ⟨d, hd, hdf⟩ := Option.map_eq_some_iff.mp (field?_of_outline hn)
  have hg : d.oneof = Descriptor.groupPlace? before.length fields oneofs p := congrArg Field.oneof hdf
  rw [checkMember_eq_ok_iff, ← hg]
  constructor
  · intro ⟨d', hd', _, ho⟩
    rw [hd, Option.some.injEq] at hd'
    rw [hd', ho]
  · exact fun ho => ⟨d, hd, parent?_of_outline hn, ho⟩

-- The members of a group are free exactly if no other group names them.
theorem members_free_iff {oneof : String} {names : List String}
    (hn : ∀ name ∈ names, ∃ f ∈ fields, f.1 = name) :
    (∀ p ∈ Descriptor.memberPlaces before.length fields names,
      g.checkMember before.length oneof p = .ok ()) ↔ ∀ o ∈ oneofs, ∀ name ∈ o.2, name ∉ names := by
  constructor
  · intro hc group hg name hin hin'
    have hs : (Descriptor.fieldPlace? before.length fields name).isSome :=
      Descriptor.isSome_fieldPlace?_iff.mpr (hn name hin')
    have ⟨p, hp⟩ := Option.isSome_iff_exists.mp hs
    have hfree := (o.checkMember_iff hp).mp (hc p ((Descriptor.mem_memberPlaces_iff hp).mpr hin'))
    have hnot := Descriptor.groupPlace?_eq_none_iff.mp hfree group hg
    exact hnot ((Descriptor.mem_memberPlaces_iff hp).mpr hin)
  · intro ha p hm
    have ⟨name, hin, hp⟩ := List.mem_filterMap.mp hm
    rw [o.checkMember_iff hp, Descriptor.groupPlace?_eq_none_iff]
    intro group hg hm'
    exact ha group hg name ((Descriptor.mem_memberPlaces_iff hp).mp hm') hin

theorem size : g.size = before.length + 1 + fields.length + oneofs.length := by
  rw [← length_outline, o.outline, Descriptor.bodyNodes]
  simp only [List.length_append, List.length_cons, Descriptor.length_fieldNodes,
    Descriptor.length_oneofNodes]
  omega

end

theorem addOneof (o : g.Opened before head fields oneofs) (name : String) {names : List String}
    (hn : ∀ name ∈ names, ∃ f ∈ fields, f.1 = name) :
    Meets (∀ o ∈ oneofs, ∀ name ∈ o.2, name ∉ names)
      (fun (h, _) => h.Opened before head fields (oneofs ++ [(name, names)]))
      (g.addOneof before.length name (Descriptor.memberPlaces before.length fields names)) := by
  refine .of_iff ((exists_addOneof_iff o.kind?).trans (o.members_free_iff hn)) ?_
  rintro ⟨h, id⟩ he
  have hc := (exists_addOneof_iff o.kind?).mp ⟨_, he⟩
  have hg := addOneof_grown he
  constructor
  case message => exact o.message
  case built =>
    refine o.built.edit
      (e := .addOneof before.length name (Descriptor.memberPlaces before.length fields names)) trivial ?_
    simp [edit, he, Except.map]
  case fields =>
    rw [← slot_fields, hg.slot, slot_fields, o.fields]
    simp [Kind.slot]
  case outline =>
    rw [outline_addOneof he, o.outline, o.size]
    refine Descriptor.bodyNodes_concat fun p hp => ?_
    obtain ⟨_, _, hp'⟩ := List.mem_filterMap.mp hp
    exact (o.checkMember_iff hp').mp (hc p hp)

theorem addField (o : g.Opened before head fields []) (name : String) (spec : FieldSpec) :
    ∃ h, g.addField before.length name (spec.field none) = .ok (h, g.size) ∧
      h.Opened before head (fields ++ [(name, spec)]) [] := by
  have ha : Kind.admits .message (Content.field (spec.field none)).kind := by
    cases hk : spec.keyType <;> simp [Content.kind, FieldSpec.field, hk, Kind.admits]
  obtain ⟨⟨h, id⟩, hi, hid, ho⟩ := (insert_meets name o.kind? rfl).exists_ok ha
  have hg := insert_grown (by rintro ⟨⟩ <;> rfl) hi
  have hs : (Content.field (spec.field none)).kind.slot = .fields := by
    cases hk : spec.keyType <;> simp [Content.kind, FieldSpec.field, hk, Kind.slot]
  subst hid
  refine ⟨h, hi, ?_⟩
  constructor
  case message => exact o.message
  case built =>
    refine o.built.edit (e := .addField before.length name (spec.field none)) ⟨rfl, rfl⟩ ?_
    simp [edit, Graph.addField, hi, Except.map]
  case outline =>
    rw [ho, o.outline]
    simp [Descriptor.bodyNodes, Descriptor.fieldNodes, Descriptor.fieldNode, Descriptor.oneofNodes,
      Descriptor.groupPlace?, List.mapIdx_concat]
  case fields =>
    rw [← slot_fields, hg.slot, slot_fields, o.fields, o.size, hs]
    simp [List.range'_concat]

theorem loadFields (o : g.Opened before head fields []) (rest : List (String × FieldSpec)) :
    Meets (∀ f ∈ rest, ∀ rule ∈ f.2.rule, rule ∈ ["optional", "required", "repeated"])
      (fun h => h.Opened before head (fields ++ rest) []) (loadFields before.length g rest) := by
  induction rest generalizing g fields
  case nil => exact .ok (by simp) (by simpa using o)
  case cons f rest hi =>
    rw [List.forall_mem_cons, Graph.loadFields]
    refine (ruleOf_meets before.length f.1 f.2).bind fun _ rule _ hr => ?_
    have ⟨h, he, oh⟩ := o.addField f.1 f.2
    subst hr
    change Meets _ _ (g.addField before.length f.1 (f.2.field none) >>= fun (g, _) =>
      Graph.loadFields before.length g rest)
    rw [he]
    exact (hi oh).congr Iff.rfl (by simp)

theorem loadOneofs (o : g.Opened before head fields oneofs) (rest : List (String × List String)) :
    Meets ((∀ o ∈ rest, ∀ name ∈ o.2, ∃ f ∈ fields, f.1 = name) ∧
        (∀ o ∈ oneofs, ∀ o' ∈ rest, ∀ name ∈ o.2, name ∉ o'.2) ∧
        rest.Pairwise fun o o' => ∀ name ∈ o.2, name ∉ o'.2)
      (fun h => h.Opened before head fields (oneofs ++ rest)) (loadOneofs before.length g rest) := by
  induction rest generalizing g oneofs
  case nil => exact .ok (by simp) (by simpa using o)
  case cons group rest hi =>
    have step : Meets _ (fun h : Graph => h.Opened before head fields (oneofs ++ [group] ++ rest))
        (Graph.loadOneofs before.length g (group :: rest)) :=
      (o.membersOf group.1 group.2).bind fun known members _ hm => hm ▸
        (o.addOneof group.1 known).bind fun _ (_, _) _ oh => hi oh
    refine step.congr ?_ (by simp)
    simp only [List.forall_mem_append, List.forall_mem_cons, List.pairwise_cons]
    grind

end Opened

-- A message that was just added has no fields yet.
theorem opened_of_insert (b : g.Built) {above id : NodeId} {name : String}
    (hi : g.insert above name (.message [] [] []) = .ok (h, id)) :
    h.Opened g.outline { name, parent := some above, content := .message [] [] [] } [] [] := by
  have ⟨_, _, _, _, _, hnode⟩ := insert_cases hi
  constructor
  case built =>
    refine b.edit (e := .addMessage above name) trivial ?_
    simp [edit, addMessage, hi, Except.map]
  case message => rfl
  case outline => exact outline_insert rfl hi
  case fields  => simp [fields, hnode]

theorem addMethod_ok {before : List Node} (head : Node) {methods : List Method} (b : g.Built)
    (ho : g.outline = before ++ [{ head with content := .service methods [] }]) (method : Method) :
    ∃ h, g.addMethod before.length method = .ok h ∧ h.Built ∧
      h.outline = before ++ [{ head with content := .service (methods ++ [method]) [] }] := by
  have hn : g.outline[before.length]? = some { head with content := .service methods [] } := by simp [ho]
  have ⟨n, hn, heq⟩ := Option.map_eq_some_iff.mp (getElem?_outline before.length ▸ hn)
  have ⟨nested, hc⟩ : ∃ nested, n.content = .service methods nested := by
    have hb : n.content.bare = .service methods [] := congrArg Node.content heq
    cases hc : n.content <;> simp_all [Content.bare]
  have he : g.addMethod before.length method = .ok (g.modify before.length fun n =>
      { n with content := .service (methods ++ [method]) nested }) := by
    simp [addMethod, hn, hc]
  refine ⟨_, he, b.edit (e := .addMethod before.length method) trivial he, ?_⟩
  exact outline_modify_at ho ({ · with content := .service (methods ++ [method]) [] }) fun _ => rfl

theorem loadMethods_ok {before : List Node} (head : Node) {methods : List Method} (b : g.Built)
    (ho : g.outline = before ++ [{ head with content := .service methods [] }])
    (rest : List (String × MethodSpec)) :
    ∃ h, loadMethods before.length g rest = .ok h ∧ h.Built ∧
      h.outline = before ++ [{ head with
        content := .service (methods ++ rest.map fun (name, spec) => spec.method name) [] }] := by
  induction rest generalizing g methods
  case nil => exact ⟨g, rfl, b, by simpa using ho⟩
  case cons m rest hi =>
    have ⟨g', he, b', ho'⟩ := addMethod_ok head b ho (m.2.method m.1)
    have ⟨h, hl, bh, hoh⟩ := hi b' ho'
    refine ⟨h, ?_, bh, by simpa using hoh⟩
    change (g.addMethod before.length (m.2.method m.1) >>= fun g => loadMethods before.length g rest) = _
    rw [he]
    exact hl

section Declaration

variable {above : NodeId} (b : g.Built) (hk : g.kind? above = some k) (name : String)
include b hk

-- Packages and enums, and services without their methods, are one node.
theorem declare_meets {c : Content} {e : Edit} (hc : c.bare = c) (hf : e.Fresh)
    (he : g.edit e = (g.insert above name c).map Prod.fst) :
    Meets (k.admits c.kind) (fun (h, id) => id = g.size ∧ h.Built ∧
      h.outline = g.outline ++ [{ name, parent := some above, content := c }]) (g.insert above name c) := by
  refine .of_iff (insert_meets name hk hc).exists_ok_iff fun (h, id) hi => ?_
  have ⟨hid, ho⟩ := (insert_meets name hk hc).post_of_ok hi
  exact ⟨hid, b.edit hf (by rw [he, hi]; rfl), ho⟩

theorem loadMessage_meets (fields : List (String × FieldSpec)) (oneofs : List (String × List String)) :
    Meets (k.admits .message ∧
        (∀ f ∈ fields, ∀ rule ∈ f.2.rule, rule ∈ ["optional", "required", "repeated"]) ∧
        (∀ o ∈ oneofs, ∀ name ∈ o.2, ∃ f ∈ fields, f.1 = name) ∧
        oneofs.Pairwise fun o o' => ∀ name ∈ o.2, name ∉ o'.2)
      (fun (h, id) => id = g.size ∧ h.Built ∧ h.outline = g.outline ++
        { name, parent := some above, content := .message [] [] [] } ::
          Descriptor.bodyNodes g.size fields oneofs)
      (do
        let (g, id) ← g.addMessage above name
        let g ← loadFields id g fields
        return (← loadOneofs id g oneofs, id)) := by
  refine (insert_meets name hk (c := .message [] [] []) rfl).bind fun _ (h, id) hi ⟨hid, _⟩ => ?_
  have o := opened_of_insert b hi
  subst hid
  rw [← length_outline]
  refine (o.loadFields fields).bind fun _ h _ o => ?_
  refine .congr ((o.loadOneofs oneofs).bind fun _ h _ o => .ok trivial ?_) (by simp) fun _ => id
  exact ⟨rfl, o.built, o.outline⟩

theorem loadService_meets (methods : List (String × MethodSpec)) :
    Meets (k.admits .service)
      (fun (h, id) => id = g.size ∧ h.Built ∧ h.outline = g.outline ++
        [⟨name, some above, none, .service (methods.map fun (name, spec) => spec.method name) []⟩])
      (do
        let (g, id) ← g.addService above name
        return (← loadMethods id g methods, id)) := by
  have added := declare_meets b hk name (c := .service [] []) (e := .addService above name) rfl trivial rfl
  refine added.bind_ok fun (h, id) ⟨hid, bh, ho⟩ => ?_
  have ⟨i, hl, bi, hoi⟩ := loadMethods_ok ⟨name, some above, none, .service [] []⟩ bh ho methods
  rw [length_outline] at hl
  simp only [hid, hl]
  exact ⟨_, rfl, rfl, bi, hoi⟩

theorem loadHead_meets (d : Descriptor) :
    Meets (k.admits d.kind ∧ d.SoundParts)
      (fun (h, id) => id = g.size ∧ h.Built ∧
        h.outline = g.outline ++ { name, parent := some above, content := d.content } :: d.body g.size)
      (g.loadHead above name d) := by
  cases hf : d.fields
  case some fields =>
    rw [Descriptor.soundParts_iff hf]
    simp only [loadHead, Descriptor.kind, Descriptor.content, Descriptor.body, hf]
    exact loadMessage_meets b hk name fields d.oneofs
  case none =>
    have parts := Descriptor.soundParts_of_no_fields hf
    simp only [parts, and_true]
    cases hv : d.values
    case some values =>
      simp only [loadHead, Descriptor.kind, Descriptor.content, Descriptor.body, hf, hv]
      exact declare_meets b hk name (e := .addEnum above name _) rfl trivial rfl
    case none =>
      cases hm : d.methods
      case some methods =>
        simp only [loadHead, Descriptor.kind, Descriptor.content, Descriptor.body, hf, hv, hm]
        exact loadService_meets b hk name methods
      case none =>
        simp only [loadHead, Descriptor.kind, Descriptor.content, Descriptor.body, hf, hv, hm]
        exact declare_meets b hk name (e := .addPackage above name) rfl trivial rfl

end Declaration

theorem Built.setFile? (b : g.Built) (id : NodeId) (file : Option String) : (g.setFile? id file).Built := by
  cases file
  case none      => exact b
  case some file => exact b.edit (e := .setFile id file) trivial rfl

theorem outline_setFile? {before after : List Node} {n : Node} (ho : g.outline = before ++ n :: after)
    (hn : n.file = none) (file : Option String) :
    (g.setFile? before.length file).outline = before ++ { n with file } :: after := by
  cases file
  case none      => rw [Graph.setFile?, ho, ← hn]
  case some file => exact outline_modify_at ho ({ · with file := some file }) fun _ => rfl

-- A node is still of its kind when more nodes come after it.
theorem kind?_of_outline_append {id : NodeId} {after : List Node} (hk : g.kind? id = some k)
    (ho : h.outline = g.outline ++ after) : h.kind? id = some k := by
  have hl := lt_size_of_kind? hk
  have hn : g.outline[id]? = some (g.outline.get ⟨id, by simpa using hl⟩) := by simp
  have hn' : h.outline[id]? = some (g.outline.get ⟨id, by simpa using hl⟩) := by
    rw [ho, List.getElem?_append_left (by simpa using hl), hn]
  rw [kind?_of_outline hn', ← hk, kind?_of_outline hn]

mutual

theorem loadNode_meets {g : Graph} {k : Kind} {above : NodeId} (b : g.Built) (hk : g.kind? above = some k)
    (name : String) : (d : Descriptor) →
      Meets (k.admits d.kind ∧ d.Sound ∧ ∀ x : Descriptor, x.Below d → x.Sound)
        (fun h => h.Built ∧ h.outline = g.outline ++ d.nodes above g.size name) (loadNode above name g d)
  | ⟨filename, nested, fields, oneofs, values, methods⟩ => by
    rw [loadNode, Descriptor.sound_tree_iff, ← and_assoc]
    -- what is nested in a declaration plays no part in the node itself
    refine (loadHead_meets b hk name ⟨filename, nested, fields, oneofs, values, methods⟩).bind
      fun _ (h, id) _ ⟨hid, bh, ho⟩ => ?_
    have own := outline_setFile? ho rfl filename
    have hk' := kind?_at own
    rw [length_outline, ← hid] at own hk'
    refine (loadChildren_meets (bh.setFile? id filename) hk' nested).congr Iff.rfl ?_
    intro i ⟨bi, hi⟩
    have hs := length_outline.symm.trans (congrArg List.length own)
    rw [hi, own, hs, hid, List.append_assoc, List.length_append, length_outline, Descriptor.nodes]
    exact ⟨bi, rfl⟩

theorem loadChildren_meets {g : Graph} {k : Kind} {above : NodeId} (b : g.Built)
    (hk : g.kind? above = some k) : (ds : List (String × Descriptor)) →
      Meets (∀ c ∈ ds, k.admits c.2.kind ∧ c.2.Sound ∧ ∀ x : Descriptor, x.Below c.2 → x.Sound)
        (fun h => h.Built ∧ h.outline = g.outline ++ Descriptor.nodesBelow above g.size ds)
        (loadChildren above g ds)
  | [] => .ok (by simp) ⟨b, by simp [Descriptor.nodesBelow]⟩
  | (name, d) :: rest => by
    rw [loadChildren, List.forall_mem_cons]
    refine (loadNode_meets b hk name d).bind fun _ h _ ⟨bh, ho⟩ => ?_
    refine (loadChildren_meets bh (kind?_of_outline_append hk ho) rest).congr Iff.rfl ?_
    intro h' ⟨bh', ho'⟩
    have hs : h.size = g.size + (d.nodes above g.size name).length := by
      rw [← length_outline, ho, List.length_append, length_outline]
    rw [ho', ho, hs, List.append_assoc, Descriptor.nodesBelow]
    exact ⟨bh', rfl⟩

end

theorem isType_of_findTypeFrom {path : String} {start target : NodeId}
    (hf : g.findTypeFrom path start = some target) : g.isType target = true := by
  simp only [findTypeFrom, Option.filter_eq_some_iff] at hf
  exact hf.right

theorem isType_of_lookup? {scope target : NodeId} {typeName : String}
    (hl : g.lookup? scope typeName = some target) : g.isType target = true := by
  unfold lookup? at hl
  split at hl
  case h_1 => exact isType_of_findTypeFrom hl
  case h_2 =>
    have ⟨_, _, hf⟩ := List.exists_of_findSome?_eq_some hl
    exact isType_of_findTypeFrom hf

theorem resolve_ok {field target : NodeId} (ht : g.isType target = true) (hf : (g.field? field).isSome) :
    g.resolve field target = .ok (g.modifyField field ({ · with resolved := some target })) := by
  have ⟨k, hk, hkt⟩ := Option.any_eq_true .. |>.mp ht
  have ⟨data, hd⟩ := Option.isSome_iff_exists.mp hf
  have ⟨n, hn, _⟩ := Option.bind_eq_some_iff.mp hd
  have hkf : g.kind? field = some n.content.kind := by simp [kind?, hn]
  simp [resolve, hk, hkf, hkt, hf]

-- Only types are looked up, so that pointing fields at them goes well.
theorem resolveOne_ok (b : g.Built) (id : NodeId) :
    ∃ h, resolveOne g id = .ok h ∧ h.Built ∧ h.outline = g.outline := by
  unfold resolveOne
  split
  case h_2 => exact ⟨g, rfl, b, rfl⟩
  case h_1 data message hf hp =>
    split
    case h_2 => exact ⟨g, rfl, b, rfl⟩
    case h_1 target hl =>
      have he := resolve_ok (isType_of_lookup? hl) (Option.isSome_of_eq_some hf)
      refine ⟨_, he, b.edit (e := .resolve id target) trivial he, ?_⟩
      refine outline_modify_bare fun n => ?_
      cases hc : n.content <;> simp [Node.bare, Content.bare, Content.mapField, hc]

theorem resolveAll_ok (b : g.Built) (ids : List NodeId) :
    ∃ h, ids.foldlM resolveOne g = .ok h ∧ h.Built ∧ h.outline = g.outline := by
  induction ids generalizing g
  case nil => exact ⟨g, rfl, b, rfl⟩
  case cons id ids hi =>
    have ⟨g', he, b', ho'⟩ := resolveOne_ok b id
    have ⟨h, hh, bh, ho⟩ := hi b'
    refine ⟨h, ?_, bh, ho.trans ho'⟩
    rw [List.foldlM_cons, he]
    exact hh

theorem ofDescriptor_meets (d : Descriptor) :
    Meets (∀ x : Descriptor, x.Below d → x.Sound) (fun g => g.Built ∧ g.outline = d.outline)
      (ofDescriptor d) := by
  have top : (empty.setFile? root d.filename).outline =
      [{ name := "", parent := none, file := d.filename, content := .package [] }] :=
    outline_setFile? (show empty.outline = [] ++ [_] from rfl) rfl d.filename
  have hk : (empty.setFile? root d.filename).kind? root = some .package :=
    kind?_at (show _ = [] ++ [_] from top)
  have children := loadChildren_meets (Built.empty.setFile? root d.filename) hk d.nested
  have hs : (empty.setFile? root d.filename).size = 1 := by rw [← length_outline, top]; rfl
  have valid : (∀ c ∈ d.nested, Kind.package.admits c.2.kind ∧ c.2.Sound ∧
      ∀ x : Descriptor, x.Below c.2 → x.Sound) ↔ ∀ x : Descriptor, x.Below d → x.Sound := by
    rw [Descriptor.forall_below_iff]
    exact forall₂_congr fun c _ => and_iff_right Descriptor.package_admits
  refine (children.congr valid fun _ => id).bind_ok fun g ⟨b, ho⟩ => ?_
  have ⟨h, he, bh, hoh⟩ := resolveAll_ok b g.ids
  refine ⟨h, he, bh, ?_⟩
  rw [hoh, ho, top, hs]
  rfl

-- Loading succeeds exactly if every node below the root is sound. The graph then has the nodes of the
-- outline of the descriptor and no others, each in the list of the node above it that is meant for it.
theorem loading_exact (d : Descriptor) :
    ((∃ g, ofDescriptor d = .ok g) ↔ ∀ x : Descriptor, x.Below d → x.Sound) ∧
      ∀ g, ofDescriptor d = .ok g →
        g.outline = d.outline ∧ ∀ σ id, g.slot σ id = listed d.outline σ id := by
  have m := ofDescriptor_meets d
  refine ⟨m.exists_ok_iff, fun g hg => ?_⟩
  have ⟨b, ho⟩ := m.post_of_ok hg
  exact ⟨ho, ho ▸ b.reachable.wellFormed.slot_eq_listed⟩

-- A message with a map, two groups, one of them empty, and an enum in it; and a service with a message
-- in it.
def orders : Descriptor where
  nested := [("shop", {
    filename := some "shop.proto"
    nested := [
      ("Order", {
        nested := [("State", { values := some [("NEW", 0), ("PAID", 1)] })]
        fields := some [
          ("state", { typeName := "State", number := 1, rule := some "required" }),
          ("card", { typeName := "string", number := 2 }),
          ("cash", { typeName := "bool", number := 3 }),
          ("items", { typeName := "Orders.Item", number := 4, keyType := some "string" })]
        oneofs := [("payment", ["cash", "card"]), ("discount", [])] }),
      ("Orders", {
        nested := [("Item", { fields := some [] })]
        methods := some [("place", { request := "Order", response := "Order" })] })] })]

theorem loading_exact_orders : (∀ x : Descriptor, x.Below orders → x.Sound) ∧
    ∃ g, ofDescriptor orders = .ok g ∧ g.outline = orders.outline ∧ g.size = 12 ∧
      g.slot .declarations 1 = [2, 10] ∧ g.slot .fields 2 = [3, 4, 5, 6] ∧ g.slot .oneofs 2 = [7, 8] := by
  have ⟨g, hg⟩ : ∃ g, ofDescriptor orders = .ok g := by
    have ok : (ofDescriptor orders).isOk = true := by decide +kernel
    cases hg : ofDescriptor orders
    case error => simp [hg, Except.isOk, Except.toBool] at ok
    case ok g  => exact ⟨g, rfl⟩
  have ⟨ho, hs⟩ := (loading_exact orders).right g hg
  refine ⟨(loading_exact orders).left.mp ⟨g, hg⟩, g, hg, ho, ?_, ?_, ?_, ?_⟩
  · rw [← length_outline, ho]
    rfl
  all_goals
    rw [hs]
    rfl

end Graph

end ProtoTypings
