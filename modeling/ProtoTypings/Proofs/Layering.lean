import Mathlib
import ProtoTypings.Proofs.Imports

namespace ProtoTypings

namespace Imports

variable {i j : Imports} {path name : String} {us : List Use}

section Order

-- The names that are used from a file, in the order of their first use.
def namesFrom (path : String) (us : List Use) : List String :=
  ((us.filter fun u => u.path = path).map Use.name).eraseDups

-- The files in the order of their first use, each with its names.
def inOrder (us : List Use) : List (String × List String) :=
  (us.map Use.path).eraseDups.map fun path => (path, namesFrom path us)

theorem eraseDups_concat (names : List String) (name : String) :
    (names ++ [name]).eraseDups = addName name names.eraseDups := by
  rw [List.eraseDups_append, addName]
  by_cases h : name ∈ names <;> simp [List.removeAll, List.eraseDups_cons, h]

theorem namesFrom_concat (u : Use) : namesFrom path (us ++ [u]) =
    if path = u.path then addName u.name (namesFrom path us) else namesFrom path us := by
  by_cases h : path = u.path
  · simp [namesFrom, h, eraseDups_concat]
  · simp [namesFrom, h, Ne.symm h]

theorem namesFrom_eq_nil (h : path ∉ us.map Use.path) : namesFrom path us = [] := by
  have none : us.filter (fun u => u.path = path) = [] := by
    rw [List.filter_eq_nil_iff]
    intro u hu heq
    exact h (List.mem_map.mpr ⟨u, hu, of_decide_eq_true heq⟩)
  simp [namesFrom, none]

-- Entering a use in groups that are given by their files. A file that has no group yet has no names either.
theorem addTo_map {paths : List String} {names : String → List String} (hn : paths.Nodup)
    (new : path ∉ paths → names path = []) : addTo path name (paths.map fun p => (p, names p)) =
      (addName path paths).map fun p => (p, if p = path then addName name (names p) else names p) := by
  induction paths
  case nil => simp [addTo, addName, new]
  case cons p paths hi =>
    obtain ⟨hp, hn⟩ := List.nodup_cons.mp hn
    by_cases h : p = path
    case pos =>
      subst h
      have others : ∀ q ∈ paths, q ≠ p := fun q hq heq => hp (heq ▸ hq)
      simp +contextual [addTo, addName, others]
    case neg =>
      have entered : addName path (p :: paths) = p :: addName path paths := by
        simp only [addName, List.contains_cons, beq_eq_false_iff_ne.mpr (Ne.symm h), Bool.false_or]
        split <;> rfl
      have new : path ∉ paths → names path = [] := fun hm => new (by simp [hm, Ne.symm h])
      simp [addTo, h, entered, hi hn new]

theorem groups_ofUses (us : List Use) : (ofUses us).groups = inOrder us := by
  induction us using List.reverseRecOn
  case nil => rfl
  case append_singleton us u hi =>
    have files : (us.map Use.path).eraseDups.Nodup := by
      simpa [hi, inOrder, Function.comp_def] using (Tidy.ofUses us).files_nodup
    have new (h : u.path ∉ (us.map Use.path).eraseDups) : namesFrom u.path us = [] :=
      namesFrom_eq_nil (mt List.mem_eraseDups.mpr h)
    have step : (ofUses (us ++ [u])).groups = addTo u.path u.name (ofUses us).groups := by
      rw [ofUses, addAll_append]
      rfl
    rw [step, hi, inOrder, addTo_map files new, inOrder, List.map_append, List.map_singleton, eraseDups_concat]
    simp only [namesFrom_concat]

end Order

section Merge

variable {front back : List (String × List String)} {names : List String}

theorem merge_assoc (ti : i.Tidy) (tj : j.Tidy) (k : Imports) :
    (i.merge j).merge k = i.merge (j.merge k) :=
  (addAll_uses_addAll ti tj k.uses).symm

-- Uses that are there already change nothing.
theorem addAll_of_subset (t : i.Tidy) (h : ∀ u ∈ us, u ∈ i.uses) : i.addAll us = i := by
  induction us
  case nil => rfl
  case cons u us hi =>
    obtain ⟨hu, h⟩ := List.forall_mem_cons.mp h
    change (i.add u).addAll us = i
    rw [add_of_mem t.files_nodup hu, hi h]

theorem merge_self (t : i.Tidy) : i.merge i = i :=
  addAll_of_subset t fun _ => id

theorem addTo_append (h : path ∉ front.map Prod.fst) :
    addTo path name (front ++ back) = front ++ addTo path name back := by
  induction front
  case nil => rfl
  case cons group front hi =>
    obtain ⟨hne, h⟩ := not_or.mp (mt List.mem_cons.mpr h)
    simp [addTo, Ne.symm hne, hi h]

-- The names of a new file make up its group.
theorem addAll_names (hp : path ∉ front.map Prod.fst) (hne : names ≠ []) (hn : names.Nodup) :
    addAll ⟨front⟩ (names.map (Use.mk path)) = ⟨front ++ [(path, names)]⟩ := by
  induction names using List.reverseRecOn
  case nil => contradiction
  case append_singleton names name hi =>
    obtain ⟨hn, -, new⟩ := List.nodup_append.mp hn
    have new : name ∉ names := fun hm => new name hm name List.mem_cons_self rfl
    rw [List.map_append, addAll_append]
    by_cases hne : names = []
    case pos =>
      subst hne
      change Imports.mk (addTo path name front) = _
      have behind : addTo path name (front ++ []) = front ++ addTo path name [] := addTo_append hp
      simpa [addTo] using behind
    case neg =>
      rw [hi hne hn]
      change Imports.mk (addTo path name (front ++ [(path, names)])) = _
      rw [addTo_append hp]
      simp [addTo, addName, new]

-- Tidy imports come out of their own uses again. The group that is entered last is the last one.
theorem ofUses_uses (t : i.Tidy) : ofUses i.uses = i := by
  obtain ⟨groups⟩ := i
  induction groups using List.reverseRecOn
  case nil => rfl
  case append_singleton front group hi =>
    have files : (front.map Prod.fst ++ [group.fst]).Nodup := by simpa using t.files_nodup
    obtain ⟨files, -, new⟩ := List.nodup_append.mp files
    obtain ⟨nonempty, hne⟩ := List.forall_mem_append.mp t.names_ne_nil
    obtain ⟨nodup, hn⟩ := List.forall_mem_append.mp t.names_nodup
    have split : uses ⟨front ++ [group]⟩ = uses ⟨front⟩ ++ group.snd.map (Use.mk group.fst) := by simp [uses]
    have hp : group.fst ∉ front.map Prod.fst := fun hm => new _ hm _ List.mem_cons_self rfl
    have rest : addAll {} (uses ⟨front⟩) = ⟨front⟩ := hi ⟨files, nonempty, nodup⟩
    rw [split, ofUses, addAll_append, rest]
    exact addAll_names hp (hne group List.mem_cons_self) (hn group List.mem_cons_self)

theorem empty_merge (t : i.Tidy) : merge {} i = i :=
  ofUses_uses t

end Merge

theorem Tidy.retain (t : i.Tidy) (keep : String → Bool) : (i.retain keep).Tidy where
  files_nodup := by
    have files : ((i.groups.map fun g => (g.fst, g.snd.filter keep)).map Prod.fst).Nodup := by
      simpa [Function.comp_def] using t.files_nodup
    exact files.sublist (List.filter_sublist.map Prod.fst)
  names_ne_nil group hg := by
    simpa using (List.mem_filter.mp hg).right
  names_nodup group hg := by
    obtain ⟨old, ho, rfl⟩ := List.mem_map.mp (List.mem_filter.mp hg).left
    exact (t.names_nodup old ho).filter keep

-- What can be reached from no imports by adding, merging and retaining.
inductive Collected : Imports → Prop
  | empty : Collected {}
  | add {i : Imports} (u : Use) : Collected i → Collected (i.add u)
  | merge {i j : Imports} : Collected i → Collected j → Collected (i.merge j)
  | retain {i : Imports} (keep : String → Bool) : Collected i → Collected (i.retain keep)

theorem Collected.tidy (h : Collected i) : i.Tidy := by
  induction h
  case empty            => exact .empty
  case add u _ hi       => exact hi.add u
  case merge j _ _ hi _ => exact hi.addAll j.uses
  case retain keep _ hi => exact hi.retain keep

-- Uses that are collected in parts, and how the parts are merged.
inductive Layers where
  | part (uses : List Use)
  | merged (first second : Layers)

namespace Layers

-- The parts in order.
def parts : Layers → List (List Use)
  | part uses => [uses]
  | merged first second => first.parts ++ second.parts

def imports : Layers → Imports
  | part uses => ofUses uses
  | merged first second => first.imports.merge second.imports

theorem imports_eq (l : Layers) : l.imports = ofUses l.parts.flatten := by
  induction l
  case part uses => simp [imports, parts]
  case merged first second hi₁ hi₂ =>
    rw [imports, hi₁, hi₂, merge, addAll_uses_ofUses (.ofUses _), parts, List.flatten_append]
    exact addAll_append.symm

end Layers

end Imports

open Imports in
theorem imports_layered :
    (∀ l : Layers, l.imports = ofUses l.parts.flatten) ∧
    (∀ uses : List Use, (ofUses uses).groups = inOrder uses) ∧
    (∀ i j : Imports, i.Collected → j.Collected → ∀ k, (i.merge j).merge k = i.merge (j.merge k)) ∧
    ∀ i : Imports, i.Collected → merge {} i = i ∧ i.merge {} = i ∧ i.merge i = i ∧ i.Tidy := by
  refine ⟨Layers.imports_eq, groups_ofUses, fun i j hi hj => merge_assoc hi.tidy hj.tidy, fun i hi => ?_⟩
  exact ⟨empty_merge hi.tidy, rfl, merge_self hi.tidy, hi.tidy⟩

open Imports in
theorem imports_layered_teams : ∃ team roles : Imports,
    team = add {} ⟨"team.ts", "Team"⟩ ∧
    roles = retain (merge (add (add {} ⟨"role.ts", "Role"⟩) ⟨"team.ts", "TeamKind"⟩) team) (· ≠ "Role") ∧
    team.Collected ∧ roles.Collected ∧ roles.groups = [("team.ts", ["TeamKind", "Team"])] ∧
    (team.merge roles).merge team = team.merge (roles.merge team) ∧
    (team.merge roles).groups = [("team.ts", ["Team", "TeamKind"])] ∧
    merge {} roles = roles ∧ roles.merge roles = roles ∧ roles.Tidy := by
  have ht : (add {} ⟨"team.ts", "Team"⟩).Collected := .add _ .empty
  have hs : (add (add {} ⟨"role.ts", "Role"⟩) ⟨"team.ts", "TeamKind"⟩).Collected := .add _ (.add _ .empty)
  have hr := Collected.retain (· ≠ "Role") (.merge hs ht)
  obtain ⟨-, -, assoc, laws⟩ := imports_layered
  obtain ⟨empty, -, self, tidy⟩ := laws _ hr
  exact ⟨_, _, rfl, rfl, ht, hr, rfl, assoc _ _ ht hr _, rfl, empty, self, tidy⟩

end ProtoTypings
