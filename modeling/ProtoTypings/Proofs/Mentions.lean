import Mathlib
import ProtoTypings.Proofs.References

namespace ProtoTypings

theorem TypeExpr.memberReferences_eq (members : List Member) :
    memberReferences members = members.flatMap Property.references := by
  induction members
  case nil => rfl
  case cons member members hi => rw [memberReferences, hi, List.flatMap_cons, Property.references]

theorem flatMap_filterMap_id {α β : Type} (f : α → List β) (l : List (Option α)) :
    (l.filterMap id).flatMap f = l.flatMap (·.elim [] f) := by
  induction l
  case nil => rfl
  case cons a? l hi =>
    cases a?
    case none   => exact hi
    case some a => exact congrArg (f a ++ ·) hi

namespace Draft

variable {α β : Type} {path : String} {d : Draft α} {mentions : α → List String}
  {mentions' : β → List String}

theorem mem_restrict_iff {keep : String → Bool} {uses : List Use} {u : Use} :
    u ∈ restrict keep uses ↔ u ∈ uses ∧ keep u.name = true := by
  rw [restrict, Imports.mem_uses_retain_iff, Imports.mem_uses_ofUses_iff]

-- A draft for the file `path` that, if it has a value, uses only names of other files, and only those
-- that the value mentions.
def Backed (path : String) (mentions : α → List String) (d : Draft α) : Prop :=
  ∀ a, d.result = .ok a → ∀ u ∈ d.uses, u.path ≠ path ∧ u.name ∈ mentions a

namespace Backed

theorem of_no_uses (h : d.uses = []) : d.Backed path mentions := by
  simp [Backed, h]

theorem map {f : α → β} (h : d.Backed path mentions) (hf : ∀ a, mentions a ⊆ mentions' (f a)) :
    (f <$> d).Backed path mentions' := by
  intro b hb u hu
  have ⟨a, ha, heq⟩ := exists_of_map_eq_ok (result_map f ▸ hb)
  have ⟨hp, hn⟩ := h a ha u (uses_map f ▸ hu)
  exact ⟨hp, heq ▸ hf a hn⟩

theorem each {f : β → Draft α} {l : List β} (h : ∀ b ∈ l, (f b).Backed path mentions) :
    (each f l).Backed path (·.flatMap mentions) := by
  intro as has u hu
  rw [each_uses has, List.mem_flatMap] at hu
  have ⟨b, hb, hu⟩ := hu
  have ⟨a, ha, hf⟩ := exists_of_each_ok has hb
  have ⟨hp, hn⟩ := h b hb a hf u hu
  exact ⟨hp, List.mem_flatMap.mpr ⟨a, ha, hn⟩⟩

-- A replacement takes over only what it mentions, and a dropped value leaves nothing.
theorem consult {o : Offer α} (h : d.Backed path o.references) :
    (consult o d).Backed path (·.elim [] o.references) := by
  intro a? ha u hu
  have ⟨value, hv, hc⟩ := consult_cases ha
  rcases hc with ⟨rfl, heq⟩ | ⟨custom, rfl, heq⟩ | ⟨rfl, heq⟩
  · exact h value hv u (heq ▸ hu)
  · have ⟨hu, hk⟩ := mem_restrict_iff.mp (heq ▸ hu)
    exact ⟨(h value hv u hu).left, by simpa using hk⟩
  · simp [heq] at hu

end Backed

end Draft

namespace Mapping

variable {m : Mapping} {inline : Inliner}

theorem reference_backed (e : Entry) : (m.reference e).Backed m.path TypeExpr.references := by
  rw [reference]
  split
  case isFalse => exact .of_no_uses rfl
  case isTrue hp =>
    intro t ht u hu
    cases ht
    cases List.mem_singleton.mp hu
    exact ⟨hp, List.mem_singleton.mpr rfl⟩

theorem valueType_backed (id : NodeId) (field : Field)
    (hi : ∀ message, (inline id message).Backed m.path TypeExpr.references) :
    (m.valueType inline id field).Backed m.path TypeExpr.references := by
  rw [valueType]
  split
  case h_1 target _ =>
    split
    case h_1 => exact .of_no_uses rfl
    case h_2 =>
      split
      case h_1 => exact .of_no_uses rfl
      case h_2 =>
        split
        case isTrue  => exact hi target
        case isFalse => exact .of_no_uses rfl
  case h_2 entry _ =>
    split
    case h_1 => exact .of_no_uses rfl
    case h_2 => exact reference_backed entry
  case h_3 =>
    split
    case h_1 => exact .of_no_uses rfl
    case h_2 => exact .of_no_uses rfl

theorem fieldType_backed {id : NodeId} {field : Field}
    (h : (m.valueType inline id field).Backed m.path TypeExpr.references) :
    (m.fieldType inline id field).Backed m.path TypeExpr.references := by
  refine h.map fun value name hn => ?_
  cases field.keyType <;> dsimp only <;> split <;> simp [TypeExpr.references, hn]

theorem memberWith_backed (id : NodeId)
    (hi : ∀ message, (inline id message).Backed m.path TypeExpr.references) :
    (m.memberWith inline id).Backed m.path (·.elim [] Property.references) := by
  rw [memberWith]
  split
  case h_1 => exact .of_no_uses rfl
  case h_2 field _ =>
    refine Draft.Backed.consult (o := m.memberOffer id) ?_
    exact (fieldType_backed (valueType_backed id field hi)).map fun _ => List.Subset.refl _

theorem membersWith_backed (message : NodeId)
    (hi : ∀ field message, (inline field message).Backed m.path TypeExpr.references) :
    (m.membersWith inline message).Backed m.path (·.flatMap Property.references) := by
  refine (Draft.Backed.each fun field _ => memberWith_backed field (hi field)).map fun members? => ?_
  rw [flatMap_filterMap_id]
  exact List.Subset.refl _

-- By the recursion of `inlineType`.
theorem inlineType_backed (stack : List NodeId) (field message : NodeId) :
    (m.inlineType stack field message).Backed m.path TypeExpr.references := by
  rw [inlineType]
  split
  case isTrue => exact .of_no_uses rfl
  case isFalse hs =>
    split
    case isFalse => exact .of_no_uses rfl
    case isTrue hm =>
      have _ := m.remaining_cons_lt hm hs
      refine (membersWith_backed message (inlineType_backed (message :: stack))).map fun members => ?_
      rw [TypeExpr.references, TypeExpr.memberReferences_eq]
      exact List.Subset.refl _
termination_by m.remaining stack
decreasing_by assumption

theorem memberOf_backed (stack : List NodeId) (field : NodeId) :
    (m.memberOf stack field).Backed m.path (·.elim [] Property.references) :=
  memberWith_backed field (inlineType_backed stack field)

end Mapping

namespace Generation

variable {run : Generation} {r : Registry} {path : String} {m : Mapping} {entries : List Entry}

theorem memberFor_backed (field : NodeId) :
    (run.memberFor m field).Backed m.path (·.elim [] Property.references) := by
  refine (Mapping.memberOf_backed [] field).map fun member? => ?_
  cases member? <;> exact List.Subset.refl _

theorem members_backed (e : Entry) :
    ((fun members => ({ name := e.name, members := members.filterMap id } : Interface)) <$>
      Draft.each (run.memberFor m) (run.graph.fields e.node)).Backed m.path Interface.references := by
  refine (Draft.Backed.each fun field _ => memberFor_backed field).map fun members? => ?_
  rw [← flatMap_filterMap_id]
  exact fun name hn => List.mem_append_left _ (List.mem_append_left _ hn)

end Generation

end ProtoTypings
