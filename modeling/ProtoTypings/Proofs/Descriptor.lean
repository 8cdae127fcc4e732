import Mathlib
import ProtoTypings.Proofs.Schema.Outline

namespace ProtoTypings

theorem exists_of_mem_mapM {α β : Type} {f : α → Option β} {l : List α} {bs : List β} {b : β}
    (h : l.mapM f = some bs) (hb : b ∈ bs) : ∃ a ∈ l, f a = some b := by
  induction l generalizing bs
  case nil =>
    cases h
    contradiction
  case cons a l hi =>
    rw [List.mapM_cons] at h
    have ⟨b', hb', h⟩ := Option.bind_eq_some_iff.mp h
    have ⟨bs', hbs, h⟩ := Option.bind_eq_some_iff.mp h
    cases h
    cases List.mem_cons.mp hb
    case inl heq => exact ⟨a, List.mem_cons_self, heq ▸ hb'⟩
    case inr hb =>
      have ⟨a', ha, h⟩ := hi hbs hb
      exact ⟨a', List.mem_cons_of_mem _ ha, h⟩

namespace Descriptor

mutual

-- Facts about all descriptors can be shown from the innermost ones outwards.
theorem tree_induction {P : Descriptor → Prop} (step : ∀ d : Descriptor, (∀ c ∈ d.nested, P c.2) → P d) :
    (d : Descriptor) → P d
  | ⟨filename, nested, fields, oneofs, values, methods⟩ =>
    step ⟨filename, nested, fields, oneofs, values, methods⟩ (forall_mem_tree step nested)

theorem forall_mem_tree {P : Descriptor → Prop} (step : ∀ d : Descriptor, (∀ c ∈ d.nested, P c.2) → P d) :
    (ds : List (String × Descriptor)) → ∀ c ∈ ds, P c.2
  | [] => by simp
  | (_, d) :: rest => List.forall_mem_cons.mpr ⟨tree_induction step d, forall_mem_tree step rest⟩

end

variable {P : Descriptor → Prop} {d : Descriptor}

-- A node and all nodes below it have a property.
def Everywhere (P : Descriptor → Prop) (d : Descriptor) : Prop :=
  P d ∧ ∀ x : Descriptor, x.Below d → P x

theorem everywhere_iff : d.Everywhere P ↔ P d ∧ ∀ c ∈ d.nested, c.2.Everywhere P :=
  and_congr_right fun _ => forall_below_iff

-- No key comes twice in a table of the node.
structure Keyed (d : Descriptor) : Prop where
  nested : (d.nested.map Prod.fst).Nodup
  fields : ∀ fields ∈ d.fields, (fields.map Prod.fst).Nodup
  oneofs : (d.oneofs.map Prod.fst).Nodup

-- What is declared in the node has names, and no dots in them.
def Plain (d : Descriptor) : Prop :=
  ∀ c ∈ d.nested, c.1 ≠ "" ∧ '.' ∉ c.1.toList

theorem keyed_iff : d.Keyed ↔ (d.nested.map Prod.fst).Nodup ∧
    (∀ fields ∈ d.fields, (fields.map Prod.fst).Nodup) ∧ (d.oneofs.map Prod.fst).Nodup where
  mp  := fun ⟨nested, fields, oneofs⟩ => ⟨nested, fields, oneofs⟩
  mpr := fun ⟨nested, fields, oneofs⟩ => ⟨nested, fields, oneofs⟩

instance : DecidablePred Keyed :=
  fun _ => decidable_of_iff' _ keyed_iff

instance : DecidablePred Plain :=
  fun d => inferInstanceAs (Decidable (∀ c ∈ d.nested, c.1 ≠ "" ∧ '.' ∉ c.1.toList))

mutual

def decideEverywhere (P : Descriptor → Prop) [DecidablePred P] : (d : Descriptor) → Decidable (d.Everywhere P)
  | ⟨filename, nested, fields, oneofs, values, methods⟩ =>
    have := decideBelow P nested
    decidable_of_iff' (P ⟨filename, nested, fields, oneofs, values, methods⟩ ∧ ∀ c ∈ nested, c.2.Everywhere P)
      everywhere_iff

def decideBelow (P : Descriptor → Prop) [DecidablePred P] :
    (ds : List (String × Descriptor)) → Decidable (∀ c ∈ ds, c.2.Everywhere P)
  | [] => isTrue (by simp)
  | (_, d) :: rest =>
    have := decideEverywhere P d
    have := decideBelow P rest
    decidable_of_iff' (d.Everywhere P ∧ ∀ c ∈ rest, c.2.Everywhere P) List.forall_mem_cons

end

instance [DecidablePred P] : DecidablePred (Everywhere P) :=
  decideEverywhere P

section Tables

variable {α : Type} {key : String} {value : α} {c : String × α} {entries table : List (String × α)}
  {read : Json → Option α} {json : Json}

theorem mem_upsert (h : c ∈ upsert key value table) : c = (key, value) ∨ c ∈ table := by
  induction table
  case nil => exact .inl (List.mem_singleton.mp h)
  case cons entry rest hi =>
    by_cases hk : entry.1 = key
    · rw [upsert, if_pos hk] at h
      exact (List.mem_cons.mp h).imp_right (List.mem_cons_of_mem _)
    · rw [upsert, if_neg hk] at h
      cases List.mem_cons.mp h
      case inl h => exact .inr (h ▸ List.mem_cons_self)
      case inr h => exact (hi h).imp_right (List.mem_cons_of_mem _)

theorem upsert_nodup (hn : (table.map Prod.fst).Nodup) : ((upsert key value table).map Prod.fst).Nodup := by
  induction table
  case nil => simp [upsert]
  case cons entry rest hi =>
    have ⟨hk, hn⟩ := List.nodup_cons.mp hn
    by_cases heq : entry.1 = key
    · rw [upsert, if_pos heq]
      exact List.nodup_cons.mpr ⟨heq ▸ hk, hn⟩
    · rw [upsert, if_neg heq]
      refine List.nodup_cons.mpr ⟨fun hm => ?_, hi hn⟩
      have ⟨c, hc, hck⟩ := List.mem_map.mp hm
      cases mem_upsert hc
      case inl h => exact heq (hck.symm.trans (congrArg Prod.fst h))
      case inr h => exact hk (List.mem_map.mpr ⟨c, h, hck⟩)

theorem foldl_upsert_nodup (hn : (table.map Prod.fst).Nodup) :
    ((entries.foldl (fun table (key, value) => upsert key value table) table).map Prod.fst).Nodup := by
  induction entries generalizing table
  case nil              => exact hn
  case cons entry _ hi  => exact hi (upsert_nodup hn)

theorem mem_foldl_upsert (h : c ∈ entries.foldl (fun table (key, value) => upsert key value table) table) :
    c ∈ entries ∨ c ∈ table := by
  induction entries generalizing table
  case nil => exact .inr h
  case cons entry entries hi =>
    rcases hi h with h | h
    · exact .inl (List.mem_cons_of_mem _ h)
    · cases mem_upsert h
      case inl h => exact .inl (h ▸ List.mem_cons_self)
      case inr h => exact .inr h

-- A table has each of its keys once, and for values what was read.
theorem table?_spec (h : table? read json = some table) :
    (table.map Prod.fst).Nodup ∧ ∀ c ∈ table, ∃ j, read j = some c.2 := by
  cases json
  case object members =>
    have ⟨entries, he, h⟩ := Option.bind_eq_some_iff.mp h
    cases h
    refine ⟨foldl_upsert_nodup List.nodup_nil, fun c hc => ?_⟩
    have hc := (mem_foldl_upsert hc).resolve_right List.not_mem_nil
    have ⟨(key, j), _, hr⟩ := exists_of_mem_mapM he hc
    have ⟨_, _, hr⟩ := Option.bind_eq_some_iff.mp hr
    have ⟨value, hv, hr⟩ := Option.bind_eq_some_iff.mp hr
    cases hr
    exact ⟨j, hv⟩
  all_goals contradiction

theorem nodup_of_inside {depth : Nat} {read : Nat → Json → Option α}
    (h : inside depth (fun depth => table? (read depth)) json = some table) : (table.map Prod.fst).Nodup := by
  cases depth
  case zero       => contradiction
  case succ depth => exact (table?_spec h).left

theorem default?_cases {json? : Option Json} {a : α} (h : default? a read json? = some value) :
    value = a ∨ ∃ j, read j = some value := by
  cases json?
  case none   => exact .inl (Option.some.inj h.symm)
  case some j => exact .inr ⟨j, h⟩

theorem exists_of_optional? {json? : Option Json} {value? : Option α}
    (h : optional? read json? = some value?) (hv : value ∈ value?) : ∃ j, read j = some value := by
  unfold optional? at h
  split at h
  case h_3 j _ =>
    have ⟨a, ha, heq⟩ := Option.map_eq_some_iff.mp h
    cases heq.trans hv
    exact ⟨j, ha⟩
  all_goals
    cases h
    contradiction

end Tables

section Nodes

variable {nested? : Json → Option (List (String × Descriptor))} {depth : Nat} {json : Json}

theorem node?_keyed (h : node? nested? depth json = some d)
    (hn : ∀ j ds, nested? j = some ds → (ds.map Prod.fst).Nodup ∧ ∀ c ∈ ds, c.2.Everywhere Keyed) :
    d.Everywhere Keyed := by
  have ⟨parts, _, h⟩ := Option.bind_eq_some_iff.mp h
  split at h <;> [skip; contradiction]
  case h_1 filename nested fields oneofs values methods _ =>
    have ⟨_, _, h⟩ := Option.bind_eq_some_iff.mp h
    have ⟨ds, hd, h⟩ := Option.bind_eq_some_iff.mp h
    have ⟨_, hf, h⟩ := Option.bind_eq_some_iff.mp h
    have ⟨_, ho, h⟩ := Option.bind_eq_some_iff.mp h
    have ⟨_, _, h⟩ := Option.bind_eq_some_iff.mp h
    have ⟨_, _, h⟩ := Option.bind_eq_some_iff.mp h
    cases h
    have ⟨keys, below⟩ : (ds.map Prod.fst).Nodup ∧ ∀ c ∈ ds, c.2.Everywhere Keyed := by
      rcases default?_cases hd with rfl | ⟨j, hj⟩
      · simp
      · exact hn j _ hj
    refine everywhere_iff.mpr ⟨⟨keys, fun fields hm => ?_, ?_⟩, below⟩
    · have ⟨j, hj⟩ := exists_of_optional? hf hm
      exact nodup_of_inside hj
    · rcases default?_cases ho with heq | ⟨j, hj⟩
      · exact heq ▸ List.nodup_nil
      · exact nodup_of_inside hj

-- By the recursion of `ofJson?`, on the number of containers that may be opened.
theorem ofJson?_keyed (h : ofJson? depth json = some d) : d.Everywhere Keyed := by
  induction depth using Nat.twoStepInduction generalizing json d
  case zero => contradiction
  case one  => exact node?_keyed h fun _ _ hj => nomatch hj
  case more depth hi _ =>
    refine node?_keyed h fun j ds hj => ?_
    have ⟨keys, values⟩ := table?_spec hj
    refine ⟨keys, fun c hc => ?_⟩
    have ⟨j, hj⟩ := values c hc
    exact hi hj

end Nodes

end Descriptor

end ProtoTypings
