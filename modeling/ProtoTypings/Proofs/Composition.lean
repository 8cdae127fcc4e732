import Mathlib
import ProtoTypings.Proofs.Collision
import ProtoTypings.Proofs.Placeholder

namespace ProtoTypings

section Blocks

variable {ι α : Type} {f f' : ι → List α} {xs : List ι}

theorem eq_of_flatMap_eq (hl : ∀ x ∈ xs, (f x).length = (f' x).length)
    (h : xs.flatMap f = xs.flatMap f') : ∀ x ∈ xs, f x = f' x := by
  induction xs
  case nil => simp
  case cons x xs hi =>
    obtain ⟨hx, hl⟩ := List.forall_mem_cons.mp hl
    obtain ⟨heq, h⟩ := List.append_inj h hx
    exact List.forall_mem_cons.mpr ⟨heq, hi hl h⟩

theorem flatMap_ne_of_length_lt (hle : ∀ x ∈ xs, (f x).length ≤ (f' x).length)
    (hlt : ∃ x ∈ xs, (f x).length < (f' x).length) : xs.flatMap f ≠ xs.flatMap f' := by
  intro h
  have lt := List.sum_lt_sum _ _ hle hlt
  rw [← List.length_flatMap, ← List.length_flatMap, h] at lt
  exact lt.false

end Blocks

namespace Word

variable {a b sep sep' cs : List Char}

-- What holds the words on both sides of it apart.
structure Separates (sep : List Char) : Prop where
  ne_nil : sep ≠ []
  not_alphanum : ∀ c ∈ sep, c.isAlphanum = false

theorem split_append_left (h : ∀ c ∈ sep, c.isAlphanum = false) : split (sep ++ b) = split b := by
  induction sep
  case nil => rfl
  case cons c sep hi =>
    obtain ⟨hc, hs⟩ := List.forall_mem_cons.mp h
    simp [split, hc, hi hs]

theorem Separates.split_append (h : Separates sep) : split (a ++ (sep ++ b)) = split a ++ split b := by
  obtain ⟨c, sep, rfl⟩ := List.exists_cons_of_ne_nil h.ne_nil
  obtain ⟨hc, hs⟩ := List.forall_mem_cons.mp h.not_alphanum
  rw [List.cons_append, split_append_separator hc, split_append_left hs]

theorem separates_space : Separates [' '] :=
  ⟨List.cons_ne_nil _ _, List.forall_mem_singleton.mpr rfl⟩

end Word

namespace Template

variable {vars : List Variable} {template : List Char} {name spelling : List Char}

-- The words of a hole and of the text behind it, if a hole stands for the words given for its name.
def Segment.words (values : List Char → List Word) (s : Segment) : List Word :=
  values s.name ++ Word.split s.text

def Layout.words (l : Layout template) (values : List Char → List Word) : List Word :=
  Word.split l.front ++ l.segments.flatMap (Segment.words values)

-- A hole is filled with a text that has the given words, and that is held apart from what is around it.
def Fills (filled : List Char) (words : List Word) : Prop :=
  ∃ sep value sep', filled = sep ++ (value ++ sep') ∧ Word.Separates sep ∧ Word.Separates sep' ∧
    Word.split value = words

theorem Fills.split_append {filled a b : List Char} {words : List Word} (h : Fills filled words) :
    Word.split (a ++ (filled ++ b)) = Word.split a ++ (words ++ Word.split b) := by
  obtain ⟨sep, value, sep', rfl, hs, hs', rfl⟩ := h
  simp only [List.append_assoc]
  rw [hs.split_append, hs'.split_append]

theorem Spells.fills (h : Spells name spelling) : Fills spelling (Word.split name) := by
  cases h
  case mk front back hn hf hb =>
    have front_sep : Word.Separates ('{' :: '{' :: front) := by
      refine ⟨List.cons_ne_nil _ _, ?_⟩
      simp only [List.forall_mem_cons]
      exact ⟨rfl, rfl, fun c hc => Word.not_isAlphanum_of_isBlank (hf c hc)⟩
    have back_sep : Word.Separates (back ++ ['}', '}']) := by
      refine ⟨by simp, ?_⟩
      simp only [List.forall_mem_append, List.forall_mem_cons]
      exact ⟨fun c hc => Word.not_isAlphanum_of_isBlank (hb c hc), rfl, rfl, by simp⟩
    exact ⟨_, name, _, rfl, front_sep, back_sep, rfl⟩

theorem fills_pad (value : String) : Fills (' ' :: value.toList ++ [' ']) (Word.split value.toList) :=
  ⟨[' '], value.toList, [' '], rfl, Word.separates_space, Word.separates_space, rfl⟩

-- The words in front of a hole are settled when it is filled.
theorem split_segments {fill : Segment → List Char} {values : Segment → List Word} {segments : List Segment}
    (h : ∀ s ∈ segments, Fills (fill s) (values s)) (front : List Char) :
    Word.split (front ++ segments.flatMap fun s => fill s ++ s.text) =
      Word.split front ++ segments.flatMap fun s => values s ++ Word.split s.text := by
  induction segments generalizing front
  case nil => simp
  case cons s segments hi =>
    obtain ⟨hs, h⟩ := List.forall_mem_cons.mp h
    simp only [List.flatMap_cons, List.append_assoc]
    rw [hs.split_append, hi h]

theorem Layout.split_render {template : String} (l : Layout template.toList)
    {values : List Char → List Word}
    (h : ∀ s ∈ l.segments, Fills (Piece.fill vars true (.hole s.name s.spelling)) (values s.name)) :
    Word.split (render template vars true).toList = l.words values := by
  have plain (text : List Char) : (text.map Piece.plain).flatMap (Piece.fill vars true) = text := by
    simp [List.flatMap_map, Piece.fill]
  rw [render, Word.split_trim, String.toList_ofList, l.pieces_eq]
  simp only [List.flatMap_append, List.flatMap_assoc, List.flatMap_cons, plain]
  exact split_segments h l.front

section

variable {values values' : List Char → List Word}
  (same : ∀ other, other ≠ name → values other = values' other)
include same

theorem Segment.length_words_le (hle : (values name).length ≤ (values' name).length) (s : Segment) :
    ((s.words values).map Word.lower).length ≤ ((s.words values').map Word.lower).length := by
  by_cases hn : s.name = name
  case pos => simpa [words, hn] using hle
  case neg => simp [words, same s.name hn]

-- From the words of a template one can tell the words of a name that it has a hole for.
theorem Layout.eq_of_words_eq (l : Layout template) (hs : ∃ s ∈ l.segments, s.name = name)
    (h : (l.words values).map Word.lower = (l.words values').map Word.lower) :
    (values name).map Word.lower = (values' name).map Word.lower := by
  obtain ⟨s, hm, rfl⟩ := hs
  simp only [words, List.map_append, List.map_flatMap] at h
  have h := List.append_cancel_left h
  have same' (other : List Char) (hn : other ≠ s.name) : values' other = values other :=
    (same other hn).symm
  have length : (values s.name).length = (values' s.name).length := by
    rcases Nat.lt_trichotomy (values s.name).length (values' s.name).length with hlt | heq | hlt
    · refine absurd h (flatMap_ne_of_length_lt (fun s _ => s.length_words_le same hlt.le) ⟨s, hm, ?_⟩)
      simpa [Segment.words] using hlt
    · exact heq
    · refine absurd h.symm (flatMap_ne_of_length_lt (fun s _ => s.length_words_le same' hlt.le) ⟨s, hm, ?_⟩)
      simpa [Segment.words] using hlt
  have block := eq_of_flatMap_eq (fun s _ => (s.length_words_le same length.le).antisymm
    (s.length_words_le same' length.ge)) h s hm
  simp only [Segment.words, List.map_append] at block
  exact List.append_cancel_right block

end

end Template

namespace Graph

open Template

variable {g : Graph} {ignored : List String} {id : NodeId}

-- The words that a hole in the template for a name stands for. A hole that has no value stands for its name.
def holeWords (g : Graph) (ignored : List String) (id : NodeId) (name : List Char) : List Word :=
  if name = "parentNodeNames".toList then
    ((g.ancestors id).reverse.filter fun a => g.name a ≠ "" ∧ g.name a ∉ ignored).flatMap fun a =>
      Word.split (g.name a).toList
  else if name = "typeName".toList then Word.split (g.name id).toList
  else Word.split name

theorem fills_holeWords {name spelling : List Char} (h : Spells name spelling) :
    Fills (Piece.fill (g.nameVariables ignored id) true (.hole name spelling))
      (g.holeWords ignored id name) := by
  rw [holeWords]
  by_cases hp : name = "parentNodeNames".toList
  case pos =>
    subst hp
    have value := fills_pad (" ".intercalate (g.parentNames ignored id))
    rw [Word.split_intercalate, parentNames_eq, List.flatMap_map] at value
    rw [if_pos rfl, nameVariables, ← filling, Frame.fill_parents, parentNames_eq]
    exact value
  case neg =>
    rw [if_neg hp]
    by_cases ht : name = "typeName".toList
    case pos =>
      subst ht
      rw [if_pos rfl, nameVariables, ← filling, Frame.fill_type]
      exact fills_pad (g.name id)
    case neg =>
      have free : (Piece.hole name spelling).isFilled = false :=
        Bool.or_eq_false_iff.mpr ⟨decide_eq_false hp, decide_eq_false ht⟩
      rw [if_neg ht, nameVariables, ← filling, Frame.fill_of_not_isFilled free]
      exact h.fills

theorem holeWords_typeName : g.holeWords ignored id "typeName".toList = Word.split (g.name id).toList := by
  rw [holeWords, if_neg (by decide), if_pos rfl]

-- The names around a type are all that the other holes depend on.
theorem holeWords_congr {id' : NodeId} (ha : g.ancestors id = g.ancestors id') {name : List Char}
    (hn : name ≠ "typeName".toList) : g.holeWords ignored id name = g.holeWords ignored id' name := by
  rw [holeWords, holeWords, if_neg hn, if_neg hn, ha]

theorem split_render {template : String} (l : Layout template.toList) :
    Word.split (Template.render template (g.nameVariables ignored id) true).toList =
      l.words (g.holeWords ignored id) :=
  l.split_render fun segment hm => fills_holeWords (l.holes segment hm).left

-- Every template of settings without a problem has a hole for the name of the type.
theorem exists_segment_of_problem?_eq_none {s : Settings} (hs : s.problem? = none)
    (l : Layout (g.templateOf s id).toList) :
    ∃ segment ∈ l.segments, segment.name = "typeName".toList := by
  have passed : Settings.hasTypeName (g.templateOf s id).toList = true := by
    simp only [Settings.problem?] at hs
    split at hs <;> [cases hs; skip]
    split at hs <;> [cases hs; skip]
    split at hs <;> [cases hs; skip]
    rw [templateOf]
    split <;> simp_all
  obtain ⟨_, _, _, _, _, _, spells, heq⟩ := Settings.exists_holeBehind_of_hasTypeName passed
  rw [← List.append_assoc] at heq
  exact l.exists_segment spells heq

theorem WellFormed.ancestors_congr {id' : NodeId} (w : g.WellFormed) (hp : g.parent? id = g.parent? id') :
    g.ancestors id = g.ancestors id' := by
  cases h : g.parent? id
  case none   => rw [ancestors_of_no_parent h, ancestors_of_no_parent (hp ▸ h)]
  case some p => rw [w.ancestors_of_parent h, w.ancestors_of_parent (hp ▸ h)]

end Graph

theorem names_composed {s : Settings} (hs : s.problem? = none) (g : Graph) (id : NodeId) :
    g.typeName s id = (g.casingOf s id).apply (g.nameText s id) ∧
    Nonempty (Template.Layout (g.templateOf s id).toList) ∧
    (∀ l : Template.Layout (g.templateOf s id).toList,
      Word.split (g.nameText s id).toList = l.words (g.holeWords s.ignoredParents id) ∧
      ∃ segment ∈ l.segments, segment.name = "typeName".toList) ∧
    ∀ id', g.Reachable → g.kind? id = g.kind? id' → g.parent? id = g.parent? id' →
      lowerWords (g.name id) ≠ lowerWords (g.name id') → g.typeName s id ≠ g.typeName s id' := by
  have own (l : Template.Layout (g.templateOf s id).toList) :
      ∃ segment ∈ l.segments, segment.name = "typeName".toList :=
    Graph.exists_segment_of_problem?_eq_none hs l
  refine ⟨Graph.typeName_eq, Template.exists_layout _, fun l => ⟨Graph.split_render l, own l⟩, ?_⟩
  intro id' reachable hk hp hne hname
  have ha : g.ancestors id = g.ancestors id' := reachable.wellFormed.ancestors_congr hp
  have ht : g.templateOf s id = g.templateOf s id' := by rw [Graph.templateOf, Graph.templateOf, hk]
  have hc : g.casingOf s id = g.casingOf s id' := by rw [Graph.casingOf, Graph.casingOf, hk]
  obtain ⟨l⟩ := Template.exists_layout (g.templateOf s id).toList
  rw [Graph.typeName_eq_iff hc, Graph.nameText, Graph.nameText, ← ht, lowerWords_eq_iff, Graph.split_render l,
    Graph.split_render l] at hname
  have words := l.eq_of_words_eq (fun _ => Graph.holeWords_congr ha) (own l) hname
  rw [Graph.holeWords_typeName, Graph.holeWords_typeName] at words
  exact hne (lowerWords_eq_iff.mpr words)

-- A template with plain text, with values right next to it, and with a hole that has no value.
def Settings.versioned : Settings where
  typeTemplate := "\x7b\x7b parentNodeNames \x7d\x7dV2\x7b\x7bstable_part\x7d\x7d\x7b\x7btypeName\x7d\x7dList"

theorem names_composed_teams : Settings.versioned.problem? = none ∧ Graph.teams.Reachable ∧
    (∃ l : Template.Layout (Graph.teams.templateOf .versioned 2).toList,
      Word.split (Graph.teams.nameText .versioned 2).toList = l.words (Graph.teams.holeWords [] 2) ∧
      ∃ segment ∈ l.segments, segment.name = "typeName".toList) ∧
    Graph.teams.typeName .versioned 2 = "AppV2StablePartUserList" ∧
    lowerWords (Graph.teams.name 2) ≠ lowerWords (Graph.teams.name 11) ∧
    Graph.teams.typeName .versioned 2 ≠ Graph.teams.typeName .versioned 11 := by
  have passed : Settings.versioned.problem? = none := by decide +kernel
  have words : lowerWords (Graph.teams.name 2) ≠ lowerWords (Graph.teams.name 11) := by decide +kernel
  obtain ⟨_, ⟨l⟩, composed, distinct⟩ := names_composed passed Graph.teams 2
  refine ⟨passed, Graph.teams_reachable, ⟨l, composed l⟩, by decide +kernel, words, ?_⟩
  exact distinct 11 Graph.teams_reachable rfl rfl words

end ProtoTypings
