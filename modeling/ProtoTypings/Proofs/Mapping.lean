import Mathlib
import ProtoTypings.Mapping
import ProtoTypings.Proofs.Draft

namespace ProtoTypings

-- A reference to a declared type somewhere in an expression. Names in raw code do not count.
inductive TypeExpr.Refers : TypeExpr → String → Prop
  | reference {name : String} : Refers (.reference name) name
  | union {items : List TypeExpr} {t : TypeExpr} {name : String} :
    t ∈ items → Refers t name → Refers (.union items) name
  | array {t : TypeExpr} {name : String} : Refers t name → Refers (.array t) name
  | key {k v : TypeExpr} {name : String} : Refers k name → Refers (.record k v) name
  | value {k v : TypeExpr} {name : String} : Refers v name → Refers (.record k v) name
  | object {members : List (Property TypeExpr)} {m : Property TypeExpr} {name : String} :
    m ∈ members → Refers m.type name → Refers (.object members) name

namespace TypeExpr

variable {name : String}

@[simp]
theorem refers_reference_iff {n : String} : (reference n).Refers name ↔ n = name :=
  ⟨fun | .reference => rfl, fun h => h ▸ .reference⟩

@[simp]
theorem not_refers_raw {text : String} : ¬(raw text).Refers name :=
  nofun

@[simp]
theorem not_refers_any : ¬any.Refers name :=
  nofun

@[simp]
theorem not_refers_literals {values : List String} : ¬(literals values).Refers name := by
  intro h
  cases h
  case union hm h =>
    have ⟨_, _, ht⟩ := List.mem_map.mp hm
    exact nomatch ht ▸ h

@[simp]
theorem refers_array_iff {t : TypeExpr} : (array t).Refers name ↔ t.Refers name :=
  ⟨fun | .array h => h, .array⟩

@[simp]
theorem refers_record_iff {k v : TypeExpr} : (record k v).Refers name ↔ k.Refers name ∨ v.Refers name :=
  ⟨fun | .key h => .inl h | .value h => .inr h, fun | .inl h => .key h | .inr h => .value h⟩

@[simp]
theorem refers_object_iff {members : List (Property TypeExpr)} :
    (object members).Refers name ↔ ∃ m ∈ members, m.type.Refers name :=
  ⟨fun | .object hm h => ⟨_, hm, h⟩, fun ⟨_, hm, h⟩ => .object hm h⟩

end TypeExpr

-- A draft for the file `path` that succeeds, mentions the names of just the entries in `cited`, and
-- uses those of them that other files declare.
structure Draft.Cites {α : Type} (path : String) (mentions : α → String → Prop) (cited : Set Entry)
    (d : Draft α) : Prop where
  result : ∃ a, d.result = .ok a ∧ ∀ name, mentions a name ↔ ∃ e ∈ cited, e.name = name
  uses : ∀ u, u ∈ d.uses ↔ ∃ e ∈ cited, e.path ≠ path ∧ u = ⟨e.path, e.name⟩

namespace Draft.Cites

variable {α β : Type} {path : String} {cited : Set Entry} {d : Draft α}
  {mentions : α → String → Prop} {mentions' : β → String → Prop}

theorem pure {a : α} (h : ∀ name, ¬mentions a name) : Cites path mentions ∅ (pure a) where
  result := ⟨a, rfl, by simp [h]⟩
  uses := by simp

theorem congr {cited' : Set Entry} (h : Cites path mentions cited d) (hc : ∀ e, e ∈ cited' ↔ e ∈ cited) :
    Cites path mentions cited' d :=
  Set.ext hc ▸ h

theorem note_bind {e : Event} (h : Cites path mentions cited d) :
    Cites path mentions cited (note e >>= fun _ => d) :=
  ⟨h.result, h.uses⟩

theorem map {f : α → β} (h : Cites path mentions cited d)
    (hf : ∀ a name, mentions' (f a) name ↔ mentions a name) :
    Cites path mentions' cited (f <$> d) where
  result := by
    have ⟨a, ha, hm⟩ := h.result
    refine ⟨f a, by simp [result_map, ha, Except.map], fun name => ?_⟩
    rw [hf, hm]
  uses u := by rw [uses_map, h.uses]

theorem consult {o : Offer α} (ho : o.hook = none) (h : Cites path mentions cited d) :
    Cites path (fun a? name => ∃ a, a? = some a ∧ mentions a name) cited (consult o d) := by
  have ⟨a, ha, hm⟩ := h.result
  constructor
  case result => exact ⟨some a, by simp [consult_result_of_none ho, ha, Except.map], by simp [hm]⟩
  case uses => exact fun u => by rw [consult_uses_of_none ho ha, h.uses]

theorem each {f : β → Draft α} {cited : β → Set Entry} {l : List β}
    (h : ∀ b ∈ l, Cites path mentions (cited b) (f b)) :
    Cites path (fun as name => ∃ a ∈ as, mentions a name) {e | ∃ b ∈ l, e ∈ cited b} (each f l) := by
  have ⟨as, has⟩ := exists_each_ok fun b hb => (h b hb).result.imp fun _ => And.left
  constructor
  case uses =>
    intro u
    simp only [each_uses has, List.mem_flatMap, Set.mem_ofPred_eq]
    constructor
    · intro ⟨b, hb, hu⟩
      have ⟨e, he, hu⟩ := ((h b hb).uses u).mp hu
      exact ⟨e, ⟨b, hb, he⟩, hu⟩
    · intro ⟨e, ⟨b, hb, he⟩, hu⟩
      exact ⟨b, hb, ((h b hb).uses u).mpr ⟨e, he, hu⟩⟩
  case result =>
    refine ⟨as, has, fun name => ?_⟩
    simp only [mem_of_each_ok has, Set.mem_ofPred_eq]
    constructor
    · intro ⟨a, ⟨b, hb, ha⟩, hm⟩
      have ⟨_, ha', hc⟩ := (h b hb).result
      cases ha.symm.trans ha'
      have ⟨e, he, hn⟩ := (hc name).mp hm
      exact ⟨e, ⟨b, hb, he⟩, hn⟩
    · intro ⟨e, ⟨b, hb, he⟩, hn⟩
      have ⟨a, ha, hc⟩ := (h b hb).result
      exact ⟨a, ⟨b, hb, ha⟩, (hc name).mpr ⟨e, he, hn⟩⟩

end Draft.Cites

theorem Graph.not_isMessage_of_enumValues? {g : Graph} {id : NodeId} {values : List EnumValue}
    (h : g.enumValues? id = some values) : g.isMessage id = false := by
  simp only [Graph.enumValues?] at h
  split at h
  case h_1 hc =>
    obtain ⟨n, hn, hc⟩ := Option.map_eq_some_iff.mp hc
    simp [Graph.isMessage, Graph.kind?, hn, hc, Content.kind]
  case h_2 => contradiction

namespace Mapping

-- The declared types that one comes to from a field: the type of the field itself, or those of the
-- fields of a message that is written out in its place. A message in the stack is not gone through
-- again, and nothing is behind a well-known type.
inductive Reaches (m : Mapping) : (stack : List NodeId) → (field : NodeId) → Entry → Prop
  | declared {stack : List NodeId} {id target : NodeId} {field : Field} {e : Entry} :
    m.graph.field? id = some field → field.resolved = some target →
      m.wellKnown.code? field.typeName = none → m.registry.lookup? target = some e →
      Reaches m stack id e
  | inlined {stack : List NodeId} {id target next : NodeId} {field : Field} {e : Entry} :
    m.graph.field? id = some field → field.resolved = some target →
      m.wellKnown.code? field.typeName = none → m.registry.lookup? target = none →
      m.graph.isMessage target = true → target ∉ stack → next ∈ m.graph.fields target →
      Reaches m (target :: stack) next e → Reaches m stack id e

variable {m : Mapping} {stack : List NodeId} {inline : Inliner}

-- What is cited where a message is written out.
def behind (m : Mapping) (stack : List NodeId) (message : NodeId) : Set Entry :=
  {e | message ∉ stack ∧ ∃ next ∈ m.graph.fields message, m.Reaches (message :: stack) next e}

theorem reaches_iff {id : NodeId} {field : Field} {e : Entry} (hf : m.graph.field? id = some field) :
    m.Reaches stack id e ↔
      m.wellKnown.code? field.typeName = none ∧ ∃ target, field.resolved = some target ∧
        (m.registry.lookup? target = some e ∨
          m.registry.lookup? target = none ∧ m.graph.isMessage target = true ∧
            e ∈ m.behind stack target) := by
  constructor
  · rintro (⟨hf', hr, hw, hl⟩ | ⟨hf', hr, hw, hl, hm, hs, hn, h⟩)
    · cases hf.symm.trans hf'
      exact ⟨hw, _, hr, .inl hl⟩
    · cases hf.symm.trans hf'
      exact ⟨hw, _, hr, .inr ⟨hl, hm, hs, _, hn, h⟩⟩
  · rintro ⟨hw, target, hr, hl | ⟨hl, hm, hs, next, hn, h⟩⟩
    · exact .declared hf hr hw hl
    · exact .inlined hf hr hw hl hm hs hn h

theorem not_reaches_of_field?_eq_none {id : NodeId} {e : Entry} (hf : m.graph.field? id = none) :
    ¬m.Reaches stack id e := by
  rintro (⟨hf', _⟩ | ⟨hf', _⟩) <;> exact nomatch hf.symm.trans hf'

theorem reference_cites (e : Entry) : (m.reference e).Cites m.path TypeExpr.Refers {e} := by
  simp only [reference]
  split
  case isTrue h =>
    exact ⟨⟨_, rfl, by simp⟩, fun u => by simp [bind, Draft.use, pure, h]⟩
  case isFalse h =>
    exact ⟨⟨_, rfl, by simp⟩, fun u => by simp [pure, h]⟩

theorem unknownType_cites (id : NodeId) (field : Field) :
    (m.unknownType id field).Cites m.path TypeExpr.Refers ∅ :=
  (Draft.Cites.pure fun _ => TypeExpr.not_refers_any).note_bind

-- The type of a value cites what the field leads to, if a message that is written out cites what is
-- behind it.
theorem valueType_cites {id : NodeId} {field : Field} (hf : m.graph.field? id = some field)
    (hi : ∀ message, m.graph.isMessage message = true →
      (inline id message).Cites m.path TypeExpr.Refers (m.behind stack message)) :
    (m.valueType inline id field).Cites m.path TypeExpr.Refers {e | m.Reaches stack id e} := by
  have known (code : String) : (pure (.raw code) : Draft TypeExpr).Cites m.path TypeExpr.Refers ∅ :=
    .pure fun _ => TypeExpr.not_refers_raw
  rw [valueType]
  split
  case h_1 target heq =>
    have ⟨hr, hl⟩ : field.resolved = some target ∧ m.registry.lookup? target = none := by simpa using heq
    cases hv : m.graph.enumValues? target
    case some values =>
      refine (Draft.Cites.pure fun _ => TypeExpr.not_refers_literals).congr fun e => ?_
      simp [reaches_iff hf, hr, hl, m.graph.not_isMessage_of_enumValues? hv]
    case none =>
      cases hw : m.wellKnown.code? field.typeName
      case some code => exact (known code).congr fun e => by simp [reaches_iff hf, hw]
      case none =>
        dsimp only
        split
        case isTrue hm =>
          exact (hi target hm).congr fun e => by simp [reaches_iff hf, hr, hl, hw, hm]
        case isFalse hm =>
          exact (unknownType_cites id field).congr fun e => by simp [reaches_iff hf, hr, hl, hm]
  case h_2 target entry heq =>
    have ⟨hr, hl⟩ : field.resolved = some target ∧ m.registry.lookup? target = some entry := by
      simpa using heq
    cases hw : m.wellKnown.code? field.typeName
    case some code => exact (known code).congr fun e => by simp [reaches_iff hf, hw]
    case none =>
      refine (reference_cites entry).congr fun e => ?_
      simp [reaches_iff hf, hr, hl, hw, @eq_comm _ e]
  case h_3 heq =>
    have hc (e : Entry) : e ∈ {e | m.Reaches stack id e} ↔ e ∈ (∅ : Set Entry) := by
      simp [reaches_iff hf, Option.map_eq_none_iff.mp heq]
    split
    · exact (known _).congr hc
    · exact (unknownType_cites id field).congr hc

theorem not_refers_keyExpr {keyType name : String} : ¬(m.keyExpr keyType).Refers name := by
  rw [keyExpr]
  split <;> simp

theorem fieldType_cites {id : NodeId} {field : Field} {cited : Set Entry}
    (h : (m.valueType inline id field).Cites m.path TypeExpr.Refers cited) :
    (m.fieldType inline id field).Cites m.path TypeExpr.Refers cited := by
  refine h.map fun value name => ?_
  cases field.keyType <;> dsimp only <;> split <;> simp [not_refers_keyExpr]

variable (hooks : m.hooks.member = none)
include hooks

theorem memberWith_cites {id : NodeId}
    (hi : ∀ message, m.graph.isMessage message = true →
      (inline id message).Cites m.path TypeExpr.Refers (m.behind stack message)) :
    (m.memberWith inline id).Cites m.path
      (fun member? name => ∃ member, member? = some member ∧ member.type.Refers name)
      {e | m.Reaches stack id e} := by
  rw [memberWith]
  cases hf : m.graph.field? id
  case none =>
    refine (Draft.Cites.pure fun name => by simp).congr fun e => ?_
    simp [not_reaches_of_field?_eq_none hf]
  case some field =>
    refine ((fieldType_cites (valueType_cites hf hi)).map fun _ _ => ?_).consult ?_
    · rfl
    · simp [memberOffer, hooks]

theorem membersWith_cites (message : NodeId)
    (hi : ∀ field message, m.graph.isMessage message = true →
      (inline field message).Cites m.path TypeExpr.Refers (m.behind stack message)) :
    (m.membersWith inline message).Cites m.path
      (fun members name => ∃ member ∈ members, member.type.Refers name)
      {e | ∃ field ∈ m.graph.fields message, m.Reaches stack field e} := by
  refine (Draft.Cites.each fun field _ => memberWith_cites hooks (hi field)).map fun _ _ => ?_
  simp

-- By the recursion of `inlineType`: the stack holds the messages around the one that is written out.
theorem inlineType_cites (stack : List NodeId) (field message : NodeId)
    (hm : m.graph.isMessage message = true) :
    (m.inlineType stack field message).Cites m.path TypeExpr.Refers (m.behind stack message) := by
  rw [inlineType]
  split
  case isTrue hs =>
    refine (Draft.Cites.pure fun _ => TypeExpr.not_refers_any).note_bind.congr fun e => ?_
    simp [behind, hs]
  case isFalse hs =>
    have _ := m.remaining_cons_lt hm hs
    have h := membersWith_cites hooks message (inlineType_cites (message :: stack))
    refine (h.map fun _ _ => TypeExpr.refers_object_iff).congr fun e => ?_
    simp [behind, hs]
termination_by m.remaining stack
decreasing_by assumption

theorem memberOf_cites (stack : List NodeId) (field : NodeId) :
    (m.memberOf stack field).Cites m.path
      (fun member? name => ∃ member, member? = some member ∧ member.type.Refers name)
      {e | m.Reaches stack field e} :=
  memberWith_cites hooks (inlineType_cites hooks stack field)

end Mapping

end ProtoTypings
