import Mathlib
import ProtoTypings.Text.Affix

namespace ProtoTypings.Text

variable {c : Char} {sep s piece : String} {pieces : List String}

-- A piece of a split list has no separators in it, and none of its neighbours is anything else.
theorem mem_splitOnP_iff {α : Type} {p : α → Bool} {piece l : List α} :
    piece ∈ l.splitOnP p ↔ (∀ a ∈ piece, p a = false) ∧
      ∃ front back, l = front ++ piece ++ back ∧ front.getLast?.all p = true ∧ back.head?.all p = true := by
  constructor
  · -- What is passed without a separator is kept as the beginning of the next piece.
    have pieces (start : List α) (hs : ∀ a ∈ start, p a = false) (h : piece ∈ (start ++ l).splitOnP p) :
        (∀ a ∈ piece, p a = false) ∧ ∃ front back, start ++ l = front ++ piece ++ back ∧
          front.getLast?.all p = true ∧ back.head?.all p = true := by
      induction l generalizing start
      case nil =>
        rw [List.append_nil, List.splitOnP_eq_singleton hs, List.mem_singleton] at h
        subst h
        exact ⟨hs, [], [], by simp, rfl, rfl⟩
      case cons a l hi =>
        by_cases ha : p a = true
        case neg =>
          have hs' : ∀ b ∈ start ++ [a], p b = false :=
            List.forall_mem_append.mpr ⟨hs, List.forall_mem_singleton.mpr (Bool.eq_false_iff.mpr ha)⟩
          rw [List.append_cons] at h ⊢
          exact hi (start ++ [a]) hs' h
        case pos =>
          rw [List.splitOnP_append_cons_of_forall_mem hs a ha, List.mem_cons] at h
          rcases h with rfl | h
          · exact ⟨hs, [], a :: l, by simp, rfl, ha⟩
          · obtain ⟨hp, front, back, rfl, hf, hb⟩ := hi [] (by simp) h
            refine ⟨hp, start ++ a :: front, back, by simp, ?_, hb⟩
            cases hl : front.getLast? <;> simp_all [List.getLast?_cons]
    exact pieces [] (by simp)
  · rintro ⟨hp, front, back, rfl, hf, hb⟩
    have first : piece ∈ (piece ++ back).splitOnP p := by
      cases back
      case nil => simp [List.splitOnP_eq_singleton hp]
      case cons a back =>
        rw [List.splitOnP_append_cons_of_forall_mem hp a hb]
        exact List.mem_cons_self
    rcases List.eq_nil_or_concat' front with rfl | ⟨front, a, rfl⟩
    · exact first
    · have ha : p a = true := by simpa using hf
      rw [List.append_assoc, List.append_assoc, List.singleton_append, List.splitOnP_append_cons _ _ ha]
      exact List.mem_append_right _ first

theorem isSome_stripFront?_iff {front : String} :
    (stripFront? front s).isSome = true ↔ front.toList <+: s.toList := by
  rw [stripFront?, Option.isSome_map, Option.isSome_iff_exists]
  simp only [afterFront?_eq_some_iff]
  exact exists_congr fun _ => eq_comm

theorem cut_ne_nil (c : Char) (s : String) : cut c s ≠ [] := by
  simp [cut, List.splitOn_ne_nil]

theorem cut_of_notMem (hs : c ∉ s.toList) : cut c s = [s] := by
  simp [cut, List.splitOn_eq_singleton hs]

theorem notMem_of_mem_cut (h : piece ∈ cut c s) : c ∉ piece.toList := by
  obtain ⟨l, hl, rfl⟩ := List.mem_map.mp h
  rw [List.splitOn_eq_splitOnP, mem_splitOnP_iff] at hl
  rw [String.toList_ofList]
  exact fun hc => absurd (hl.left c hc) (by simp)

theorem notMem_of_mem_lines (h : piece ∈ lines s) : '\n' ∉ piece.toList := by
  have dropped (l : List Char) : lines.dropReturn l ⊆ l := by
    rw [lines.dropReturn]
    split
    case h_1 r hr =>
      rw [← List.reverse_reverse l, hr, List.reverse_cons]
      exact List.subset_append_left _ _
    case h_2 => exact List.Subset.refl l
  rw [lines] at h
  split at h
  case h_1 => contradiction
  case h_2 final ended heq =>
    have notMem (l : List Char) (hl : l ∈ final :: ended) : '\n' ∉ l := by
      rw [← heq, List.mem_reverse] at hl
      simpa using notMem_of_mem_cut (List.mem_map_of_mem hl)
    have whole (hp : piece ∈ ended.reverse.map fun l => String.ofList (lines.dropReturn l)) :
        '\n' ∉ piece.toList := by
      obtain ⟨l, hl, rfl⟩ := List.mem_map.mp hp
      rw [String.toList_ofList]
      exact fun hc => notMem l (List.mem_cons_of_mem _ (List.mem_reverse.mp hl)) (dropped l hc)
    dsimp only at h
    split at h
    case isTrue => exact whole h
    case isFalse =>
      rcases List.mem_append.mp h with h | h
      · exact whole h
      · rw [List.mem_singleton.mp h, String.toList_ofList]
        exact notMem final List.mem_cons_self

section Intercalate

variable {α β : Type} {sep : List α} {pieces : List (List α)}

theorem map_intercalate (f : α → β) :
    (sep.intercalate pieces).map f = (sep.map f).intercalate (pieces.map (List.map f)) := by
  induction pieces
  case nil => rfl
  case cons first pieces hi =>
    cases pieces
    case nil => simp
    case cons => simpa [List.intercalate_cons_cons] using hi

theorem intercalate_cons (first : List α) :
    sep.intercalate (first :: pieces) = first ++ sep.intercalate ([] :: pieces) := by
  cases pieces <;> simp [List.intercalate_cons_cons]

theorem forall_mem_intercalate {P : α → Prop} (hs : ∀ a ∈ sep, P a) (h : ∀ piece ∈ pieces, ∀ a ∈ piece, P a) :
    ∀ a ∈ sep.intercalate pieces, P a := by
  induction pieces
  case nil => simp
  case cons first pieces hi =>
    obtain ⟨hf, h⟩ := List.forall_mem_cons.mp h
    cases pieces
    case nil => simpa using hf
    case cons =>
      rw [List.intercalate_cons_cons]
      exact List.forall_mem_append.mpr ⟨List.forall_mem_append.mpr ⟨hf, hs⟩, hi h⟩

theorem mem_intercalate {piece : List α} {a : α} (hp : piece ∈ pieces) (ha : a ∈ piece) :
    a ∈ sep.intercalate pieces := by
  induction pieces
  case nil => contradiction
  case cons first pieces hi =>
    rcases List.mem_cons.mp hp with rfl | hp
    · rw [intercalate_cons]
      exact List.mem_append_left _ ha
    · rw [List.intercalate_cons_of_ne_nil (List.ne_nil_of_mem hp)]
      exact List.mem_append_right _ (hi hp)

end Intercalate

section Separator

variable (hs : sep.toList = [c])
include hs

theorem intercalate_cut (s : String) : sep.intercalate (cut c s) = s := by
  apply String.toList_injective
  simp [cut, hs, Function.comp_def, List.intercalate_splitOn]

theorem cut_append (front back : String) : cut c (front ++ sep ++ back) = cut c front ++ cut c back := by
  simp [cut, hs, List.splitOn_append_cons_self]

-- Pieces come back when they are put together and cut.
theorem cut_intercalate (hp : ∀ piece ∈ pieces, c ∉ piece.toList) (hne : pieces ≠ []) :
    cut c (sep.intercalate pieces) = pieces := by
  have h : (pieces.map String.toList).map String.ofList = pieces := by simp [Function.comp_def]
  rw [cut, String.toList_intercalate, hs, List.splitOn_intercalate c (by simpa using hp) (by simpa using hne), h]

end Separator

-- A text without the character only makes the last piece longer.
theorem exists_cut_append {back : String} (hb : c ∉ back.toList) (front : String) :
    ∃ init last, cut c front = init ++ [last] ∧ cut c (front ++ back) = init ++ [last ++ back] := by
  have hs : (String.singleton c).toList = [c] := by simp
  obtain ⟨init, last, hc⟩ := List.eq_nil_or_concat' (cut c front) |>.resolve_left (cut_ne_nil c front)
  refine ⟨init, last, hc, ?_⟩
  have longer : front ++ back = (String.singleton c).intercalate (init ++ [last ++ back]) := by
    rw [← intercalate_cut hs front, hc]
    by_cases hi : init = []
    case pos => simp [hi]
    case neg => simp [String.intercalate_append_of_ne_nil hi, String.append_assoc]
  have hp : ∀ piece ∈ init ++ [last], c ∉ piece.toList := fun _ hp => notMem_of_mem_cut (hc ▸ hp)
  rw [longer]
  refine cut_intercalate hs ?_ (by simp)
  simp only [List.forall_mem_append, List.forall_mem_singleton] at hp ⊢
  exact ⟨hp.left, by simp [hp.right, hb]⟩

end ProtoTypings.Text
