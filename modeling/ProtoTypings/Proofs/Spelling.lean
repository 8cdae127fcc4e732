import Mathlib
import ProtoTypings.Proofs.Composition
import ProtoTypings.Proofs.EnumKey
import ProtoTypings.Proofs.Members
import ProtoTypings.Proofs.Schema.Edits
import ProtoTypings.Proofs.Schema.Names
import ProtoTypings.Proofs.Splitting

namespace ProtoTypings

namespace Identifier

-- A name as schemas have it: a letter in front, and behind it letters, digits and underscores.
def Spelled (name : String) : Prop :=
  name.toList.head?.any Char.isAlpha = true ∧ name.toList.all Template.isNameChar = true

instance : DecidablePred Spelled :=
  fun _ => inferInstanceAs (Decidable (_ ∧ _))

-- A name that can be written in code without quotes, and has no other characters than those of schemas.
structure Sound (name : String) : Prop where
  ne_empty : name ≠ ""
  chars : ∀ c ∈ name.toList, Template.isNameChar c = true
  head : name.toList.head?.any Char.isDigit = false
  valid : isValid name = true

theorem isPart_of_isNameChar {c : Char} (h : Template.isNameChar c = true) : isPart c = true := by
  rcases Bool.or_eq_true .. |>.mp h with h | h
  · simp [isPart, Text.isAlphanumeric_of_isAlphanum h]
  · simp [isPart, h]

theorem isValid_iff {name : String} (chars : ∀ c ∈ name.toList, Template.isNameChar c = true) :
    isValid name = true ↔ name ≠ "" ∧ name.toList.head?.any Char.isDigit = false := by
  have parts : ∀ c ∈ name.toList, isPart c = true := fun c hc => isPart_of_isNameChar (chars c hc)
  rw [isValid, ne_eq, ← String.toList_eq_nil_iff]
  cases hn : name.toList
  case nil => simp
  case cons c cs =>
    rw [hn, ← List.all_eq_true] at parts
    simp [parts]

theorem sound_iff {name : String} (chars : ∀ c ∈ name.toList, Template.isNameChar c = true) :
    Sound name ↔ isValid name = true where
  mp sound := sound.valid
  mpr valid := ⟨(isValid_iff chars).mp valid |>.left, chars, (isValid_iff chars).mp valid |>.right, valid⟩

end Identifier

namespace Word

variable {c : Char} {cs : List Char} {w : Word}

-- The first of some words has a letter in front.
def Lead (ws : List Word) : Prop :=
  ∃ c w rest, ws = (c :: w) :: rest ∧ c.isAlpha = true

theorem Lead.append {vs ws : List Word} (h : Lead vs) : Lead (vs ++ ws) := by
  obtain ⟨c, w, rest, rfl, hc⟩ := h
  exact ⟨c, w, rest ++ ws, rfl, hc⟩

theorem Lead.lower {ws : List Word} (h : Lead ws) : Lead (ws.map Word.lower) := by
  obtain ⟨c, w, rest, rfl, hc⟩ := h
  exact ⟨c.toLower, w.map Char.toLower, rest.map Word.lower, rfl, by simpa using hc⟩

theorem isNameChar_of_isAlphanum (hc : c.isAlphanum = true) : Template.isNameChar c = true := by
  simp [Template.isNameChar, hc]

theorem Plain.isNameChar (p : w.Plain) : ∀ x ∈ w, Template.isNameChar x = true :=
  fun x hx => isNameChar_of_isAlphanum (p.alphanum x hx)

end Word

namespace Casing

open Word (Lead)

variable {casing : Casing} {ws : List Word}

end Casing

namespace Identifier

variable {value field : String}

end Identifier

namespace Graph

open Identifier (Spelled Sound)

variable {g : Graph} {s : Settings} {id : NodeId} {ignored : List String}

-- No edit gives the root a name.
theorem Reachable.name_root (reachable : g.Reachable) : g.name root = "" := by
  have unnamed : ∃ n, g.node? root = some n ∧ n.name = "" := by
    induction reachable
    case empty => exact ⟨_, rfl, rfl⟩
    case edit he hi =>
      obtain ⟨n, hn, h⟩ := hi
      obtain ⟨n', hn', hname, _⟩ := (edit_changes he).old hn
      exact ⟨n', hn', hname.trans h⟩
  obtain ⟨n, hn, h⟩ := unnamed
  simp [name, hn, h]

-- All that is declared has a name as schemas have it, and all fields have.
structure Spelt (g : Graph) : Prop where
  declared : ∀ id, g.Declares id → id ≠ root → Spelled (g.name id)
  fields : ∀ id data, g.field? id = some data → Spelled (g.name id)

theorem Spelt.parentNames (spelt : g.Spelt) (reachable : g.Reachable) (ignored : List String)
    (ht : g.isType id = true) :
    ∀ name ∈ g.parentNames ignored id, Spelled name := by
  intro name hn
  rw [parentNames_eq] at hn
  obtain ⟨a, ha, rfl⟩ := List.mem_map.mp hn
  obtain ⟨ha, named⟩ := List.mem_filter.mp ha
  have hl : a ∈ g.lineage id := List.mem_cons_of_mem _ (List.mem_reverse.mp ha)
  refine spelt.declared a (reachable.wellFormed.declares_of_mem_lineage (declares_of_isType ht) hl) ?_
  rintro rfl
  simp [reachable.name_root] at named

theorem spelt_iff : g.Spelt ↔ ∀ id ∈ g.ids, (g.Declares id → id ≠ root → Spelled (g.name id)) ∧
    ((g.field? id).isSome = true → Spelled (g.name id)) := by
  constructor
  · rintro ⟨declared, fields⟩ id _
    refine ⟨declared id, fun h => ?_⟩
    obtain ⟨data, hf⟩ := Option.isSome_iff_exists.mp h
    exact fields id data hf
  · intro h
    refine ⟨fun id hd => (h id (List.mem_range.mpr hd.lt_size)).left hd, fun id data hf => ?_⟩
    exact (h id (List.mem_range.mpr (lt_size_of_field? hf))).right (by simp [hf])

instance (g : Graph) : DecidablePred g.Declares :=
  fun id => inferInstanceAs (Decidable ((g.kind? id).map Kind.slot = some .declarations))

instance : DecidablePred Spelt :=
  fun _ => decidable_of_iff' _ spelt_iff

end Graph

namespace Generation

open Identifier (Spelled Sound)

variable {run : Generation} {r : Registry} {path : String} {body : List Declaration}

end Generation

end ProtoTypings
