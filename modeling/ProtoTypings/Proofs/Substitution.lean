import Mathlib
import ProtoTypings.Proofs.Template

namespace ProtoTypings

namespace Template

variable {cs front template : List Char} {vars : List Variable} {pad : Bool}

-- A hole of a template, at its place.
@[ext]
structure Occurrence (template : List Char) where
  before : List Char
  name : List Char
  spelling : List Char
  after : List Char
  spells : Spells name spelling
  placed : template = before ++ (spelling ++ after)

-- The text of a variable in place of a hole.
def valueText (pad : Bool) (v : Variable) : List Char :=
  if pad then ' ' :: v.value.toList ++ [' '] else v.value.toList

namespace Occurrence

variable {o o' : Occurrence template}

def start (o : Occurrence template) : Nat :=
  o.before.length

def stop (o : Occurrence template) : Nat :=
  o.before.length + o.spelling.length

-- The first variable that has the name of the hole.
def filler? (vars : List Variable) (o : Occurrence template) : Option Variable :=
  vars.find? fun v => v.name.toList == o.name

def value (vars : List Variable) (pad : Bool) (o : Occurrence template) : List Char :=
  (o.filler? vars).elim o.spelling (valueText pad)

theorem fill_eq_value (o : Occurrence template) :
    Piece.fill vars pad (.hole o.name o.spelling) = o.value vars pad := by
  simp only [Piece.fill, value, filler?]
  cases vars.find? fun v => v.name.toList == o.name <;> rfl

theorem eq_of_before_eq (h : o.before = o'.before) : o = o' := by
  have same : o.spelling ++ o.after = o'.spelling ++ o'.after := by
    have := o.placed.symm.trans o'.placed
    rwa [h, List.append_cancel_left_eq] at this
  obtain ⟨name, spelling, after⟩ := o.spells.unique o'.spells same
  exact Occurrence.ext h name spelling after

-- Of two holes the one that starts first ends before the other one starts.
theorem stop_le_of_start_lt (h : o.start < o'.start) : o.stop ≤ o'.start := by
  have same := o.placed.symm.trans o'.placed
  rcases List.append_eq_append_iff.mp same with ⟨between, hb, ha⟩ | ⟨between, hb, _⟩
  · have hne : between ≠ [] := by
      rintro rfl
      simp [start, hb] at h
    obtain ⟨gap, rfl, _⟩ := o'.spells.not_overlap o.spells hne ha.symm
    simp [start, stop, hb]
  · simp [start, hb] at h

theorem disjoint (o o' : Occurrence template) : o = o' ∨ o.stop ≤ o'.start ∨ o'.stop ≤ o.start := by
  rcases Nat.lt_trichotomy o.start o'.start with h | h | h
  · exact .inr (.inl (stop_le_of_start_lt h))
  · have same := o.placed.symm.trans o'.placed
    exact .inl (eq_of_before_eq (List.append_inj same h).left)
  · exact .inr (.inr (stop_le_of_start_lt h))

-- The hole in a template that has more text in front.
def shift (front : List Char) (o : Occurrence cs) : Occurrence (front ++ cs) where
  before := front ++ o.before
  name := o.name
  spelling := o.spelling
  after := o.after
  spells := o.spells
  placed := by rw [List.append_assoc, ← o.placed]

@[simp]
theorem start_shift (o : Occurrence cs) : (o.shift front).start = front.length + o.start := by
  simp [start, shift]

@[simp]
theorem stop_shift (o : Occurrence cs) : (o.shift front).stop = front.length + o.stop := by
  simp [stop, shift, Nat.add_assoc]

@[simp]
theorem value_shift (o : Occurrence cs) : (o.shift front).value vars pad = o.value vars pad :=
  rfl

-- The hole that a template starts with.
def leading {name spelling : List Char} (hs : Spells name spelling) (after : List Char) :
    Occurrence (spelling ++ after) :=
  ⟨[], name, spelling, after, hs, rfl⟩

end Occurrence

-- A template from a position on, with some holes replaced that follow it in order.
def replaceFrom (value : Occurrence template → List Char) :
    (position : Nat) → List (Occurrence template) → List Char
  | position, [] => template.drop position
  | position, o :: os =>
    (template.drop position).take (o.start - position) ++ value o ++ replaceFrom value o.stop os

section Replace

variable {os : List (Occurrence cs)}

theorem replaceFrom_shift (position : Nat) :
    replaceFrom (Occurrence.value vars pad) (front.length + position) (os.map (Occurrence.shift front)) =
      replaceFrom (Occurrence.value vars pad) position os := by
  induction os generalizing position
  case nil          => simp [replaceFrom]
  case cons o os hi => simp [replaceFrom, hi, Nat.add_sub_add_left]

-- Text in front of all holes stays.
theorem replaceFrom_zero_shift :
    replaceFrom (Occurrence.value vars pad) 0 (os.map (Occurrence.shift front)) =
      front ++ replaceFrom (Occurrence.value vars pad) 0 os := by
  cases os
  case nil       => simp [replaceFrom]
  case cons o os => simp [replaceFrom, replaceFrom_shift, List.take_length_add_append]

end Replace

-- The holes that variables fill, from left to right.
structure Filled (vars : List Variable) (holes : List (Occurrence template)) : Prop where
  ordered : holes.Pairwise fun o o' => o.stop ≤ o'.start
  complete : ∀ o, o ∈ holes ↔ (o.filler? vars).isSome = true

section Filled

variable {c : Char} {rest name spelling after : List Char} {holes : List (Occurrence cs)}

theorem Occurrence.exists_shift {o : Occurrence (front ++ cs)} {between : List Char}
    (h : o.before = front ++ between) : ∃ o' : Occurrence cs, o = o'.shift front := by
  have placed : cs = between ++ (o.spelling ++ o.after) := by
    have := o.placed
    rwa [h, List.append_assoc, List.append_cancel_left_eq] at this
  exact ⟨⟨between, o.name, o.spelling, o.after, o.spells, placed⟩, Occurrence.ext h rfl rfl rfl⟩

-- A plain character in front belongs to no hole.
theorem Occurrence.exists_shift_plain (hh : hole? (c :: rest) = none) (o : Occurrence ([c] ++ rest)) :
    ∃ o' : Occurrence rest, o = o'.shift [c] := by
  have placed := o.placed
  cases hb : o.before
  case nil =>
    rw [hb, List.nil_append] at placed
    rw [← List.singleton_append, placed, hole?_of_spells o.spells] at hh
    contradiction
  case cons d between =>
    rw [hb] at placed
    obtain ⟨rfl, -⟩ := List.cons.inj placed
    exact exists_shift hb

-- A hole in front is one of them, and the others are behind it.
theorem Occurrence.eq_or_exists_shift (hs : Spells name spelling) (o : Occurrence (spelling ++ after)) :
    o = .leading hs after ∨ ∃ o' : Occurrence after, o = o'.shift spelling := by
  by_cases hb : o.before = []
  case pos => exact .inl (eq_of_before_eq hb)
  case neg =>
    obtain ⟨between, h, -⟩ := o.spells.not_overlap hs hb o.placed.symm
    exact .inr (exists_shift h)

theorem ordered_shift (h : holes.Pairwise fun o o' => o.stop ≤ o'.start) (front : List Char) :
    (holes.map (Occurrence.shift front)).Pairwise fun o o' => o.stop ≤ o'.start := by
  rw [List.pairwise_map]
  exact h.imp fun h => by simpa using h

theorem Filled.shift (f : Filled vars holes) (all : ∀ o : Occurrence (front ++ cs),
      (o.filler? vars).isSome = true → ∃ o' : Occurrence cs, o = o'.shift front) :
    Filled vars (holes.map (Occurrence.shift front)) where
  ordered := ordered_shift f.ordered front
  complete o := by
    constructor
    · intro hm
      obtain ⟨o', ho, rfl⟩ := List.mem_map.mp hm
      exact (f.complete o').mp ho
    · intro filled
      obtain ⟨o', rfl⟩ := all o filled
      exact List.mem_map_of_mem ((f.complete o').mpr filled)

theorem Filled.leading {holes : List (Occurrence after)} (f : Filled vars holes) (hs : Spells name spelling)
    (known : ((Occurrence.leading hs after).filler? vars).isSome = true) :
    Filled vars (.leading hs after :: holes.map (Occurrence.shift spelling)) where
  ordered := by
    refine List.pairwise_cons.mpr ⟨List.forall_mem_map.mpr fun o _ => ?_, ordered_shift f.ordered spelling⟩
    simp [Occurrence.leading, Occurrence.stop]
  complete o := by
    rw [List.mem_cons]
    rcases o.eq_or_exists_shift hs with rfl | ⟨o', rfl⟩
    · exact iff_of_true (.inl rfl) known
    · constructor
      · rintro (heq | hm)
        · rw [heq]
          exact known
        · obtain ⟨o'', ho, heq⟩ := List.mem_map.mp hm
          rw [← heq]
          exact (f.complete o'').mp ho
      · exact fun filled => .inr (List.mem_map_of_mem ((f.complete o').mpr filled))

-- The search from left to right finds the holes in order, and puts the values in their places.
theorem exists_filled (vars : List Variable) (pad : Bool) (template : List Char) :
    ∃ holes : List (Occurrence template), Filled vars holes ∧
      (pieces template).flatMap (Piece.fill vars pad) = replaceFrom (Occurrence.value vars pad) 0 holes := by
  induction template using induction
  case nil =>
    have none (o : Occurrence []) : False := holeFree_nil o.before o.spelling o.after o.name o.placed o.spells
    exact ⟨[], ⟨.nil, fun o => (none o).elim⟩, rfl⟩
  case plain c rest hh hi =>
    obtain ⟨holes, filled, hr⟩ := hi
    refine ⟨holes.map (Occurrence.shift [c]), filled.shift fun o _ => o.exists_shift_plain hh, ?_⟩
    rw [pieces_cons hh, List.flatMap_cons, hr]
    exact replaceFrom_zero_shift.symm
  case hole name spelling after hs hi =>
    obtain ⟨holes, filled, hr⟩ := hi
    have fill : Piece.fill vars pad (.hole name spelling) = (Occurrence.leading hs after).value vars pad :=
      (Occurrence.leading hs after).fill_eq_value
    rw [hs.pieces_append, List.flatMap_cons, hr, fill]
    cases hf : (Occurrence.leading hs after).filler? vars
    case none =>
      refine ⟨holes.map (Occurrence.shift spelling), filled.shift fun o known => ?_, ?_⟩
      · refine (o.eq_or_exists_shift hs).resolve_left ?_
        rintro rfl
        simp [hf] at known
      · rw [replaceFrom_zero_shift, Occurrence.value, hf]
        rfl
    case some v =>
      refine ⟨_, filled.leading hs (by rw [hf]; rfl), ?_⟩
      have stop : (Occurrence.leading hs after).stop = spelling.length + 0 := by
        simp [Occurrence.leading, Occurrence.stop]
      rw [replaceFrom, stop, replaceFrom_shift]
      simp [Occurrence.leading, Occurrence.start]

end Filled

end Template

open Template in
theorem render_replaces (template : String) (vars : List Variable) (pad : Bool) :
    (∀ o o' : Occurrence template.toList, o = o' ∨ o.stop ≤ o'.start ∨ o'.stop ≤ o.start) ∧
    ∃ holes : List (Occurrence template.toList), Filled vars holes ∧
      render template vars pad =
        Text.trim (String.ofList (replaceFrom (Occurrence.value vars pad) 0 holes)) := by
  obtain ⟨holes, filled, replaced⟩ := exists_filled vars pad template.toList
  exact ⟨Occurrence.disjoint, holes, filled, by rw [render, replaced]⟩

-- A value stays as it is, even if it looks like a hole, and so does a hole that no variable fills.
example : Template.render "\x7b\x7b\x7btype\x7d\x7d\x7d \x7b\x7bother\x7d\x7d"
    [⟨"type", "\x7b\x7bfile\x7d\x7d"⟩, ⟨"file", "a.proto"⟩, ⟨"type", "User"⟩] false =
    "\x7b\x7b\x7bfile\x7d\x7d\x7d \x7b\x7bother\x7d\x7d" := by decide +kernel

end ProtoTypings
