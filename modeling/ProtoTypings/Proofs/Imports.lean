import Mathlib
import ProtoTypings.Imports

namespace ProtoTypings.Imports

variable {i : Imports} {path name : String} {groups : List (String × List String)}

-- Every file has one group, and every group has names, each of them once.
structure Tidy (i : Imports) : Prop where
  files_nodup : (i.groups.map Prod.fst).Nodup
  names_ne_nil : ∀ group ∈ i.groups, group.snd ≠ []
  names_nodup : ∀ group ∈ i.groups, group.snd.Nodup

theorem mem_addName_iff {n : String} {names : List String} :
    n ∈ addName name names ↔ n = name ∨ n ∈ names := by
  simp only [addName, List.contains_iff_mem]
  split <;> grind

theorem addName_nodup {names : List String} (hn : names.Nodup) : (addName name names).Nodup := by
  simp only [addName, List.contains_iff_mem]
  split
  case isTrue    => exact hn
  case isFalse h => simpa using hn.concat h

theorem addName_ne_nil {names : List String} : addName name names ≠ [] :=
  List.ne_nil_of_mem (mem_addName_iff.mpr (.inl rfl))

theorem mem_uses_iff {u : Use} : u ∈ i.uses ↔ ∃ names, (u.path, names) ∈ i.groups ∧ u.name ∈ names := by
  obtain ⟨path, name⟩ := u
  simp [uses]

theorem fst_addTo {file : String} :
    file ∈ (addTo path name groups).map Prod.fst ↔ file = path ∨ file ∈ groups.map Prod.fst := by
  induction groups
  case nil => simp [addTo]
  case cons group rest hi =>
    by_cases h : group.fst = path
    · simp [addTo, h]
    · simp only [addTo, h, if_false, List.map_cons, List.mem_cons, hi]
      exact or_left_comm

theorem mem_uses_add_iff {u v : Use} : u ∈ (i.add v).uses ↔ u = v ∨ u ∈ i.uses := by
  obtain ⟨path, name⟩ := v
  obtain ⟨groups⟩ := i
  simp only [add]
  induction groups
  case nil => simp [addTo, uses]
  case cons group rest hi =>
    simp only [uses, List.flatMap_cons, List.mem_append] at hi ⊢
    by_cases h : group.fst = path
    · obtain ⟨u, n⟩ := u
      subst h
      simp only [addTo, if_true, List.flatMap_cons, List.mem_append, List.mem_map, mem_addName_iff]
      grind
    · simp only [addTo, h, if_false, List.flatMap_cons, List.mem_append, hi]
      exact or_left_comm

theorem mem_uses_addAll_iff {u : Use} {us : List Use} : u ∈ (i.addAll us).uses ↔ u ∈ i.uses ∨ u ∈ us := by
  induction us generalizing i
  case nil => simp [addAll]
  case cons v us hi =>
    have : i.addAll (v :: us) = (i.add v).addAll us := rfl
    rw [this, hi, mem_uses_add_iff, List.mem_cons, or_assoc, or_left_comm]

theorem mem_uses_ofUses_iff {u : Use} {us : List Use} : u ∈ (ofUses us).uses ↔ u ∈ us := by
  rw [ofUses, mem_uses_addAll_iff]
  simp [uses]

-- A use is entered in the group of its file, or in a new group.
theorem addTo_cases {group : String × List String} (h : group ∈ addTo path name groups) :
    group ∈ groups ∨ group = (path, [name]) ∨
      ∃ names, (path, names) ∈ groups ∧ group = (path, addName name names) := by
  induction groups
  case nil => exact .inr <| .inl <| List.mem_singleton.mp h
  case cons g rest hi =>
    obtain ⟨p, names⟩ := g
    simp only [addTo] at h
    split at h
    case isTrue hp =>
      cases List.mem_cons.mp h
      case inl h => exact .inr <| .inr ⟨names, hp ▸ List.mem_cons_self, hp ▸ h⟩
      case inr h => exact .inl <| List.mem_cons_of_mem _ h
    case isFalse =>
      cases List.mem_cons.mp h
      case inl h => exact .inl <| h ▸ List.mem_cons_self
      case inr h =>
        rcases hi h with h | h | ⟨names, hm, h⟩
        · exact .inl <| List.mem_cons_of_mem _ h
        · exact .inr <| .inl h
        · exact .inr <| .inr ⟨names, List.mem_cons_of_mem _ hm, h⟩

namespace Tidy

theorem empty : Tidy {} :=
  ⟨List.nodup_nil, by simp, by simp⟩

theorem addTo_files_nodup (hn : (groups.map Prod.fst).Nodup) :
    ((addTo path name groups).map Prod.fst).Nodup := by
  induction groups
  case nil => simp [addTo]
  case cons group rest hi =>
    by_cases h : group.fst = path
    · simpa [addTo, h] using hn
    · simp only [addTo, h, if_false, List.map_cons, List.nodup_cons, fst_addTo] at hn ⊢
      exact ⟨fun hm => hn.left (hm.resolve_left id), hi hn.right⟩

theorem add (t : i.Tidy) (u : Use) : (i.add u).Tidy where
  files_nodup := addTo_files_nodup t.files_nodup
  names_ne_nil group hg := by
    rcases addTo_cases hg with h | rfl | ⟨names, _, rfl⟩
    · exact t.names_ne_nil group h
    · simp
    · exact addName_ne_nil
  names_nodup group hg := by
    rcases addTo_cases hg with h | rfl | ⟨names, h, rfl⟩
    · exact t.names_nodup group h
    · simp
    · exact addName_nodup (t.names_nodup _ h)

theorem addAll (t : i.Tidy) (us : List Use) : (i.addAll us).Tidy := by
  induction us generalizing i
  case nil          => exact t
  case cons u us hi => exact hi (t.add u)

theorem ofUses (us : List Use) : (Imports.ofUses us).Tidy :=
  empty.addAll us

end Tidy

section Merge

variable {j : Imports} {u v : Use} {us vs : List Use}

theorem addAll_append : i.addAll (us ++ vs) = (i.addAll us).addAll vs :=
  List.foldl_append

theorem path_mem_files (hu : u ∈ i.uses) : u.path ∈ i.groups.map Prod.fst := by
  have ⟨names, hg, _⟩ := mem_uses_iff.mp hu
  exact List.mem_map.mpr ⟨(u.path, names), hg, rfl⟩

-- A use that is there already changes nothing.
theorem add_of_mem (hn : (i.groups.map Prod.fst).Nodup) (hu : u ∈ i.uses) : i.add u = i := by
  obtain ⟨groups⟩ := i
  have ⟨names, hg, hm⟩ := mem_uses_iff.mp hu
  clear hu
  simp only [add, mk.injEq] at hn hg ⊢
  induction groups
  case nil => contradiction
  case cons group rest hi =>
    have ⟨hp, hn⟩ := List.nodup_cons.mp hn
    cases List.mem_cons.mp hg
    case inl heq => simp [addTo, ← heq, addName, hm]
    case inr hg =>
      have hne : group.fst ≠ u.path := by
        rintro heq
        exact hp (List.mem_map.mpr ⟨_, hg, heq.symm⟩)
      simp [addTo, hne, hi hn hg]

-- Uses of two files can change places, once the file of the first one has its group.
theorem add_add_comm (hu : u.path ∈ i.groups.map Prod.fst) (hne : v.path ≠ u.path) :
    (i.add u).add v = (i.add v).add u := by
  obtain ⟨groups⟩ := i
  simp only [add, mk.injEq] at hu ⊢
  induction groups
  case nil => contradiction
  case cons group rest hi =>
    by_cases h₁ : group.fst = u.path
    · simp [addTo, h₁, hne.symm]
    · have hr : u.path ∈ rest.map Prod.fst := by simpa [Ne.symm h₁] using hu
      by_cases h₂ : group.fst = v.path
      · simp [addTo, h₂, hne]
      · simp [addTo, h₁, h₂, hi hr]

theorem addAll_add_comm (hu : u.path ∈ i.groups.map Prod.fst) (hv : ∀ v ∈ vs, v.path ≠ u.path) :
    (i.add u).addAll vs = (i.addAll vs).add u := by
  induction vs generalizing i
  case nil => rfl
  case cons v vs hi =>
    have ⟨hne, hv⟩ := List.forall_mem_cons.mp hv
    have hu' : u.path ∈ (i.add v).groups.map Prod.fst := fst_addTo.mpr (.inr hu)
    change ((i.add u).add v).addAll vs = ((i.add v).addAll vs).add u
    rw [add_add_comm hu hne, hi hu' hv]

theorem uses_cons (group : String × List String) :
    uses ⟨group :: groups⟩ = group.snd.map (Use.mk group.fst) ++ uses ⟨groups⟩ :=
  rfl

theorem Tidy.of_cons {group : String × List String} (t : Tidy ⟨group :: groups⟩) : Tidy ⟨groups⟩ where
  files_nodup := (List.nodup_cons.mp t.files_nodup).right
  names_ne_nil group hg := t.names_ne_nil group (List.mem_cons_of_mem _ hg)
  names_nodup group hg := t.names_nodup group (List.mem_cons_of_mem _ hg)

-- Imports can be merged before or after a use is added to them. The induction is on their groups; only
-- the group of the file that the use names is not passed over.
theorem addAll_uses_add (ti : i.Tidy) (tj : j.Tidy) (u : Use) :
    i.addAll (j.add u).uses = (i.addAll j.uses).add u := by
  obtain ⟨groups⟩ := j
  induction groups generalizing i
  case nil => rfl
  case cons group rest hi =>
    by_cases hp : group.fst = u.path
    case neg =>
      have h : Imports.add ⟨group :: rest⟩ u = ⟨group :: (Imports.add ⟨rest⟩ u).groups⟩ := by
        simp [Imports.add, addTo, hp]
      rw [h, uses_cons, uses_cons, addAll_append, addAll_append, ← hi (ti.addAll _) tj.of_cons]
    case pos =>
      by_cases hn : u.name ∈ group.snd
      case pos =>
        have hu : u ∈ uses ⟨group :: rest⟩ := mem_uses_iff.mpr ⟨group.snd, by simp [← hp], hn⟩
        rw [add_of_mem tj.files_nodup hu, add_of_mem (ti.addAll _).files_nodup]
        exact mem_uses_addAll_iff.mpr (.inr hu)
      case neg =>
        have h : Imports.add ⟨group :: rest⟩ u = ⟨(group.fst, group.snd ++ [u.name]) :: rest⟩ := by
          simp [Imports.add, addTo, hp, addName, hn]
        have hv (v : Use) (hv : v ∈ uses ⟨rest⟩) : v.path ≠ u.path := by
          rw [← hp]
          rintro heq
          exact (List.nodup_cons.mp tj.files_nodup).left (heq ▸ path_mem_files hv)
        have hu : u.path ∈ (i.addAll (group.snd.map (Use.mk group.fst))).groups.map Prod.fst := by
          have ⟨name, hm⟩ := List.exists_mem_of_ne_nil _ (tj.names_ne_nil group List.mem_cons_self)
          have hm : Use.mk group.fst name ∈ group.snd.map (Use.mk group.fst) := List.mem_map_of_mem hm
          exact hp ▸ path_mem_files (u := ⟨group.fst, name⟩) (mem_uses_addAll_iff.mpr (.inr hm))
        rw [h, uses_cons, uses_cons, addAll_append, addAll_append, List.map_append, addAll_append,
          ← addAll_add_comm hu hv, hp]
        rfl

theorem addAll_uses_addAll (ti : i.Tidy) (tj : j.Tidy) (us : List Use) :
    i.addAll (j.addAll us).uses = (i.addAll j.uses).addAll us := by
  induction us generalizing j
  case nil => rfl
  case cons u us hi =>
    change i.addAll ((j.add u).addAll us).uses = ((i.addAll j.uses).add u).addAll us
    rw [hi (tj.add u), addAll_uses_add ti tj]

theorem addAll_uses_ofUses (t : i.Tidy) (us : List Use) : i.addAll (ofUses us).uses = i.addAll us :=
  addAll_uses_addAll t .empty us

end Merge

section Retain

variable {keep : String → Bool}

theorem mem_uses_retain_iff {u : Use} : u ∈ (i.retain keep).uses ↔ u ∈ i.uses ∧ keep u.name = true := by
  rw [mem_uses_iff, mem_uses_iff]
  simp only [retain, List.mem_filter, List.mem_map, Prod.mk.injEq, Prod.exists]
  constructor
  · rintro ⟨_, ⟨⟨path, names, hg, rfl, rfl⟩, _⟩, hn⟩
    have ⟨hn, hk⟩ := List.mem_filter.mp hn
    exact ⟨⟨names, hg, hn⟩, hk⟩
  · intro ⟨⟨names, hg, hn⟩, hk⟩
    exact ⟨_, ⟨⟨u.path, names, hg, rfl, rfl⟩, by simpa using ⟨u.name, hn, hk⟩⟩, List.mem_filter.mpr ⟨hn, hk⟩⟩

theorem Tidy.retain_eq_self (t : i.Tidy) (hk : ∀ u ∈ i.uses, keep u.name = true) : i.retain keep = i := by
  obtain ⟨groups⟩ := i
  have kept (group : String × List String) (hg : group ∈ groups) :
      (group.fst, group.snd.filter keep) = group := by
    rw [List.filter_eq_self.mpr fun name hn => hk ⟨group.fst, name⟩ (mem_uses_iff.mpr ⟨_, hg, hn⟩)]
  rw [retain, mk.injEq, List.map_congr_left kept, List.map_id', List.filter_eq_self]
  intro group hg
  simpa using t.names_ne_nil group hg

end Retain

-- Uses that make no difference to what is imported in the end, nor to the order of it.
def Alike (us vs : List Use) : Prop :=
  ∀ i : Imports, i.Tidy → i.addAll us = i.addAll vs

namespace Alike

variable {us us' vs vs' : List Use}

theorem refl (us : List Use) : Alike us us :=
  fun _ _ => rfl

theorem trans (h : Alike us vs) (h' : Alike vs vs') : Alike us vs' :=
  fun i t => (h i t).trans (h' i t)

theorem append (h : Alike us vs) (h' : Alike us' vs') : Alike (us ++ us') (vs ++ vs') := by
  intro i t
  rw [addAll_append, addAll_append, h i t, h' _ (t.addAll vs)]

theorem ofUses_eq (h : Alike us vs) : ofUses us = ofUses vs :=
  h {} .empty

end Alike

end ProtoTypings.Imports
