import Mathlib
import ProtoTypings.Proofs.Naming

namespace ProtoTypings

namespace Text

variable (p : Char → Bool) (cs : List Char)

theorem exists_eq_append_dropWhile : ∃ front, cs = front ++ cs.dropWhile p ∧ ∀ c ∈ front, p c = true :=
  ⟨cs.takeWhile p, List.takeWhile_append_dropWhile.symm, fun _ => List.mem_takeWhile_imp⟩

-- Trimming takes off what it finds at both ends, and nothing else.
theorem exists_eq_append_trimChars : ∃ front back, cs = front ++ trimChars p cs ++ back ∧
    (∀ c ∈ front, p c = true) ∧ ∀ c ∈ back, p c = true := by
  obtain ⟨front, hf, front_p⟩ := exists_eq_append_dropWhile p cs
  obtain ⟨back, hb, back_p⟩ := exists_eq_append_dropWhile p (cs.dropWhile p).reverse
  refine ⟨front, back.reverse, ?_, front_p, fun c hc => back_p c (List.mem_reverse.mp hc)⟩
  have kept : cs.dropWhile p = trimChars p cs ++ back.reverse := by
    simpa [trimChars, dropWhileEnd] using congrArg List.reverse hb
  rw [List.append_assoc, ← kept, ← hf]

end Text

namespace Template

variable {cs rest before after name name' spelling spelling' : List Char} {c : Char}

-- What can stand for a name in a hole.
structure IsName (name : List Char) : Prop where
  start : name.head?.any isNameStart = true
  chars : ∀ c ∈ name, isNameChar c = true

-- How a hole is written: its name between double braces, with any blanks around it.
inductive Spells (name : List Char) : List Char → Prop
  | mk {front back : List Char} :
    IsName name → (∀ c ∈ front, Text.isBlank c = true) → (∀ c ∈ back, Text.isBlank c = true) →
      Spells name ('{' :: '{' :: (front ++ (name ++ (back ++ ['}', '}']))))

theorem not_isNameChar_of_isBlank (h : Text.isBlank c = true) : isNameChar c = false := by
  have hc : c ≠ '_' := by
    rintro rfl
    contradiction
  simp [isNameChar, Word.not_isAlphanum_of_isBlank h, hc]

theorem IsName.exists_cons (h : IsName name) : ∃ c rest, name = c :: rest ∧ Text.isBlank c = false := by
  obtain ⟨c, hc, _⟩ := (Option.any_eq_true _ _).mp h.start
  obtain ⟨rest, rfl⟩ := List.head?_eq_some_iff.mp hc
  refine ⟨c, rest, rfl, Bool.eq_false_iff.mpr fun hb => ?_⟩
  simpa [not_isNameChar_of_isBlank hb] using h.chars c List.mem_cons_self

theorem exists_spells_of_hole? (h : hole? cs = some (name, after)) :
    ∃ spelling, Spells name spelling ∧ cs = spelling ++ after := by
  unfold hole? at h
  split at h <;> [skip; contradiction]
  case h_1 rest =>
    obtain ⟨front, hf, front_blank⟩ := Text.exists_eq_append_dropWhile Text.isBlank rest
    dsimp only at h
    generalize rest.dropWhile Text.isBlank = named at h hf
    have hn : named = named.takeWhile isNameChar ++ named.dropWhile isNameChar :=
      List.takeWhile_append_dropWhile.symm
    obtain ⟨back, hb, back_blank⟩ :=
      Text.exists_eq_append_dropWhile Text.isBlank (named.dropWhile isNameChar)
    split at h <;> [skip; contradiction]
    case isTrue start =>
      split at h <;> [skip; contradiction]
      case h_1 close =>
        cases h
        refine ⟨_, .mk ⟨start, fun _ => List.mem_takeWhile_imp⟩ front_blank back_blank, ?_⟩
        rw [close] at hb
        rw [hb] at hn
        nth_rewrite 1 [hf, hn]
        simp

theorem hole?_of_spells (h : Spells name spelling) (after : List Char) :
    hole? (spelling ++ after) = some (name, after) := by
  cases h
  case mk front back hn hf hb =>
    obtain ⟨c, chars, hname, hc⟩ := hn.exists_cons
    have named : (front ++ (name ++ (back ++ '}' :: '}' :: after))).dropWhile Text.isBlank =
        name ++ (back ++ '}' :: '}' :: after) := by
      rw [List.dropWhile_append_of_pos hf, hname]
      simp [hc]
    have close : (back ++ '}' :: '}' :: after).dropWhile Text.isBlank = '}' :: '}' :: after :=
      List.dropWhile_append_of_pos hb
    have ended : ∃ d tail, back ++ '}' :: '}' :: after = d :: tail ∧ isNameChar d = false := by
      cases back
      case nil         => exact ⟨'}', '}' :: after, rfl, rfl⟩
      case cons d back => exact ⟨d, _, rfl, not_isNameChar_of_isBlank (hb d List.mem_cons_self)⟩
    obtain ⟨d, tail, htail, hd⟩ := ended
    have shape : '{' :: '{' :: (front ++ (name ++ (back ++ ['}', '}']))) ++ after =
        '{' :: '{' :: (front ++ (name ++ (back ++ '}' :: '}' :: after))) := by simp
    rw [htail] at named close
    simp [shape, hole?, htail, named, close, hd, hn.start, List.takeWhile_append_of_pos hn.chars,
      List.dropWhile_append_of_pos hn.chars]

-- No brace opens inside a hole.
theorem Spells.exists_eq (h : Spells name spelling) :
    ∃ inner, inner ≠ [] ∧ '{' ∉ inner ∧ spelling = '{' :: '{' :: inner := by
  cases h
  case mk hn hf hb =>
    refine ⟨_, by simp, ?_, rfl⟩
    have brace : ¬isNameChar '{' = true := by decide
    have blank : ¬Text.isBlank '{' = true := by decide
    simp only [List.mem_append, not_or]
    exact ⟨blank ∘ hf _, brace ∘ hn.chars _, blank ∘ hb _, by decide⟩

theorem Spells.unique (h : Spells name spelling) (h' : Spells name' spelling') {after' : List Char}
    (heq : spelling ++ after = spelling' ++ after') :
    name = name' ∧ spelling = spelling' ∧ after = after' := by
  have found := hole?_of_spells h after
  rw [heq, hole?_of_spells h' after', Option.some.injEq, Prod.mk.injEq] at found
  obtain ⟨rfl, rfl⟩ := found
  exact ⟨rfl, List.append_cancel_right heq, rfl⟩

-- A hole that starts before another one ends before it.
theorem Spells.not_overlap (h : Spells name spelling) (h' : Spells name' spelling') {after' : List Char}
    (hne : before ≠ []) (heq : before ++ (spelling ++ after) = spelling' ++ after') :
    ∃ between, before = spelling' ++ between ∧ after' = between ++ (spelling ++ after) := by
  obtain ⟨inner, hi, _, rfl⟩ := h.exists_eq
  obtain ⟨inner', hi', hb, rfl⟩ := h'.exists_eq
  rcases List.append_eq_append_iff.mp heq with ⟨cut, hcut, hafter⟩ | between
  · cases cut
    case nil => exact ⟨[], by simpa using hcut.symm, by simpa using hafter.symm⟩
    case cons c cut =>
      obtain ⟨rfl, hafter⟩ : c = '{' ∧ '{' :: (inner ++ after) = cut ++ after' := by
        simpa [eq_comm] using hafter
      -- the second hole would open at the second brace of the first one, or inside it
      cases before
      case nil => contradiction
      case cons d before =>
        cases before
        case nil =>
          obtain ⟨e, inner', rfl⟩ := List.exists_cons_of_ne_nil hi'
          simp only [List.cons_append, List.nil_append, List.cons.injEq, true_and] at hcut
          simp [← hcut.right] at hafter
          simp [← hafter.left] at hb
        case cons e before => simp_all
  · exact between

-- The pieces of a template, found from left to right.

theorem piecesFrom_eq (skip : Nat) (cs : List Char) : piecesFrom skip cs = pieces (cs.drop skip) := by
  induction cs generalizing skip
  case nil => cases skip <;> rfl
  case cons c rest hi =>
    cases skip
    case zero      => rfl
    case succ skip => exact hi skip

@[simp]
theorem pieces_nil : pieces [] = [] :=
  rfl

theorem pieces_cons (h : hole? (c :: rest) = none) : pieces (c :: rest) = .plain c :: pieces rest := by
  simp [pieces, piecesFrom, h]

theorem Spells.pieces_append (h : Spells name spelling) (after : List Char) :
    pieces (spelling ++ after) = .hole name spelling :: pieces after := by
  obtain ⟨inner, _, _, rfl⟩ := h.exists_eq
  have found := hole?_of_spells h after
  have length : ('{' :: (inner ++ after)).length + 1 - after.length = ('{' :: '{' :: inner).length := by
    simp
    omega
  have taken : ('{' :: '{' :: (inner ++ after)).take ('{' :: '{' :: inner).length = '{' :: '{' :: inner :=
    List.take_left
  have skipped : ('{' :: (inner ++ after)).drop (('{' :: '{' :: inner).length - 1) = after := by simp
  simp only [List.cons_append] at found ⊢
  rw [pieces, piecesFrom, found]
  simp only [length, taken, piecesFrom_eq, skipped]

-- A text without any hole in it.
def HoleFree (cs : List Char) : Prop :=
  ∀ before spelling after name, cs = before ++ (spelling ++ after) → ¬Spells name spelling

-- A hole of a template, and the plain text between it and the next one.
structure Segment where
  name : List Char
  spelling : List Char
  text : List Char

-- How a template is made up of plain text and holes.
structure Layout (template : List Char) where
  front : List Char
  segments : List Segment
  spelled : template = front ++ segments.flatMap fun s => s.spelling ++ s.text
  front_holeFree : HoleFree front
  holes : ∀ s ∈ segments, Spells s.name s.spelling ∧ HoleFree s.text

theorem HoleFree.tail (h : HoleFree (c :: cs)) : HoleFree cs :=
  fun before spelling after name heq => h (c :: before) spelling after name (by rw [heq, List.cons_append])

-- What follows plain text does not make a hole of it.
theorem HoleFree.pieces_append {text rest : List Char} (h : HoleFree text)
    (hr : rest = [] ∨ ∃ name spelling after, Spells name spelling ∧ rest = spelling ++ after) :
    pieces (text ++ rest) = text.map .plain ++ pieces rest := by
  induction text
  case nil => rfl
  case cons c text hi =>
    have none : hole? (c :: (text ++ rest)) = none := by
      by_contra hne
      obtain ⟨⟨name', after'⟩, found⟩ := Option.ne_none_iff_exists'.mp hne
      obtain ⟨spelling', hs', heq⟩ := exists_spells_of_hole? found
      rcases hr with rfl | ⟨name, spelling, after, hs, rfl⟩
      · exact h [] spelling' after' name' (by simpa using heq) hs'
      · obtain ⟨between, hb, _⟩ := hs.not_overlap hs' (List.cons_ne_nil c text) heq
        exact h [] spelling' between name' hb hs'
    rw [List.cons_append, pieces_cons none, hi h.tail]
    rfl

namespace Layout

variable {template : List Char} (l : Layout template)

theorem pieces_eq : pieces template = l.front.map .plain ++
    l.segments.flatMap fun s => .hole s.name s.spelling :: s.text.map .plain := by
  obtain ⟨front, segments, rfl, hf, hs⟩ := l
  induction segments generalizing front
  case nil => simpa using hf.pieces_append (.inl rfl)
  case cons s segments hi =>
    obtain ⟨⟨spells, ht⟩, hs⟩ := List.forall_mem_cons.mp hs
    have rest := hi s.text ht hs
    rw [hf.pieces_append (.inr ⟨s.name, s.spelling, _, spells, by simp; rfl⟩)]
    simp only [List.flatMap_cons, List.append_assoc] at rest ⊢
    rw [spells.pieces_append, rest]
    simp

end Layout

-- A template is empty, or starts with a hole or with a plain character.
theorem induction {P : List Char → Prop} (nil : P [])
    (hole : ∀ {name spelling after}, Spells name spelling → P after → P (spelling ++ after))
    (plain : ∀ {c rest}, hole? (c :: rest) = none → P rest → P (c :: rest)) (cs : List Char) : P cs := by
  induction h : cs.length using Nat.strong_induction_on generalizing cs
  case h n hi =>
    cases cs
    case nil => exact nil
    case cons c rest =>
      cases hh : hole? (c :: rest)
      case none => exact plain hh (hi rest.length (by simp [← h]) rest rfl)
      case some found =>
        obtain ⟨spelling, hs, heq⟩ := exists_spells_of_hole? hh
        obtain ⟨inner, _, _, rfl⟩ := hs.exists_eq
        rw [heq] at h ⊢
        refine hole hs (hi found.2.length ?_ found.2 rfl)
        simp at h
        omega

theorem holeFree_nil : HoleFree [] := by
  intro before spelling after name heq hs
  obtain ⟨inner, _, _, rfl⟩ := hs.exists_eq
  simp at heq

theorem exists_layout (template : List Char) : Nonempty (Layout template) := by
  induction template using induction
  case nil => exact ⟨⟨[], [], rfl, holeFree_nil, by simp⟩⟩
  case hole name spelling after hs hi =>
    obtain ⟨front, segments, rfl, hf, hr⟩ := hi
    exact ⟨⟨[], ⟨name, spelling, front⟩ :: segments, by simp, holeFree_nil,
      List.forall_mem_cons.mpr ⟨⟨hs, hf⟩, hr⟩⟩⟩
  case plain c rest hh hi =>
    obtain ⟨front, segments, rfl, hf, hr⟩ := hi
    refine ⟨⟨c :: front, segments, rfl, fun before spelling after name heq hs => ?_, hr⟩⟩
    cases before
    case nil =>
      rw [← List.cons_append, heq, List.nil_append, List.append_assoc, hole?_of_spells hs] at hh
      contradiction
    case cons d before => exact hf before spelling after name (List.cons.inj heq).right hs

-- Every hole that a template has is found.
theorem Spells.mem_pieces (hs : Spells name spelling) {template : List Char}
    (h : template = before ++ (spelling ++ after)) : .hole name spelling ∈ pieces template := by
  induction template using induction generalizing before
  case nil =>
    exact absurd hs (holeFree_nil before spelling after name h)
  case hole name' spelling' after' hs' hi =>
    rw [hs'.pieces_append]
    by_cases hb : before = []
    case pos =>
      obtain ⟨rfl, rfl, rfl⟩ := hs'.unique hs (by simpa [hb] using h)
      exact List.mem_cons_self
    case neg =>
      obtain ⟨between, _, ha⟩ := hs.not_overlap hs' hb h.symm
      exact List.mem_cons_of_mem _ (hi ha)
  case plain c rest hh hi =>
    rw [pieces_cons hh]
    cases before
    case nil =>
      rw [h, List.nil_append, hole?_of_spells hs] at hh
      contradiction
    case cons d before => exact List.mem_cons_of_mem _ (hi (List.cons.inj h).right)

theorem Layout.exists_segment {template : List Char} (l : Layout template) (hs : Spells name spelling)
    (h : template = before ++ (spelling ++ after)) : ∃ s ∈ l.segments, s.name = name := by
  have mem := hs.mem_pieces h
  rw [l.pieces_eq, List.mem_append, List.mem_flatMap] at mem
  simp only [List.mem_map, reduceCtorEq, and_false, exists_false, false_or, List.mem_cons, or_false,
    Piece.hole.injEq] at mem
  obtain ⟨s, hm, hn, _⟩ := mem
  exact ⟨s, hm, hn.symm⟩

end Template

end ProtoTypings
