import Mathlib
import ProtoTypings.Proofs.Casing

namespace ProtoTypings

namespace Word

-- A text and its words, character by character.
inductive Splits : List Char → List Word → Prop
  | nil : Splits [] []
  | separator {c : Char} {cs : List Char} {ws : List Word} : c.isAlphanum = false → Splits cs ws → Splits (c :: cs) ws
  | single {c : Char} {cs : List Char} {ws : List Word} : c.isAlphanum = true → goesOn c cs = false → Splits cs ws →
    Splits (c :: cs) ([c] :: ws)
  | joined {c : Char} {cs : List Char} {w : Word} {ws : List Word} : c.isAlphanum = true → goesOn c cs = true →
    Splits cs (w :: ws) → Splits (c :: cs) ((c :: w) :: ws)

variable {a b cs : List Char} {c x y : Char} {w : Word} {ws : List Word}

theorem exists_of_goesOn (h : goesOn c cs = true) : ∃ d rest, cs = d :: rest ∧ d.isAlphanum = true := by
  cases cs
  case nil => contradiction
  case cons d rest => exact ⟨d, rest, rfl, (Bool.and_eq_true .. |>.mp h).left⟩

theorem splits_split (cs : List Char) : Splits cs (split cs) := by
  induction cs
  case nil => exact .nil
  case cons c cs hi =>
    rw [split]
    split
    case isTrue hc => exact .separator (by simpa using hc) hi
    case isFalse hc =>
      have hc : c.isAlphanum = true := by simpa using hc
      split
      case isFalse off => exact .single hc (by simpa using off) hi
      case isTrue on =>
        obtain ⟨d, rest, rfl, hd⟩ := exists_of_goesOn on
        obtain ⟨w, ws, h⟩ := List.exists_cons_of_ne_nil (split_cons_ne_nil hd)
        rw [h] at hi ⊢
        exact .joined hc on hi

namespace Splits

theorem split_eq (h : Splits cs ws) : split cs = ws := by
  induction h
  case nil => rfl
  case separator hc _ hi  => simp [split, hc, hi]
  case single hc off _ hi => simp [split, hc, off, hi]
  case joined hc on _ hi  => simp [split, hc, on, hi]

theorem flatten (h : Splits cs ws) : ws.flatten = cs.filter Char.isAlphanum := by
  induction h
  case nil => rfl
  case separator hc _ hi => simp [hc, hi]
  case single hc _ _ hi  => simp [hc, hi]
  case joined hc _ _ hi  => simpa [hc] using hi

-- The first word begins with the text.
theorem exists_cons (h : Splits (c :: cs) ws) (hc : c.isAlphanum = true) :
    ∃ w rest, ws = (c :: w) :: rest ∧ w <+: cs := by
  generalize ht : c :: cs = text at h
  induction h generalizing c cs
  case nil => contradiction
  case separator hn _ _ =>
    cases ht
    simp [hc] at hn
  case single ws _ _ _ _ =>
    cases ht
    exact ⟨[], ws, rfl, List.nil_prefix⟩
  case joined w ws _ on _ hi =>
    cases ht
    obtain ⟨d, rest, rfl, hd⟩ := exists_of_goesOn on
    obtain ⟨v, vs, h, front⟩ := hi hd rfl
    cases h
    exact ⟨d :: v, ws, rfl, (List.prefix_cons_inj d).mpr front⟩

end Splits

-- What follows a character can only make another word start there.
theorem startsAt_none {after : Option Char} (h : startsAt x y after = false) : startsAt x y none = false := by
  simp_all [startsAt]

theorem goesOn_of_front (h : w <+: cs) (hw : w ≠ []) (on : goesOn c cs = true) : goesOn c w = true := by
  obtain ⟨rest, rfl⟩ := h
  cases w
  case nil => contradiction
  case cons d w =>
    cases w
    case cons => exact on
    case nil =>
      simp only [goesOn, List.cons_append, List.nil_append, Bool.and_eq_true, Bool.not_eq_true'] at on ⊢
      exact ⟨on.left, startsAt_none on.right⟩

namespace Splits

theorem whole (h : Splits cs ws) : ∀ w ∈ ws, Splits w [w] := by
  induction h
  case nil => simp
  case separator hi => exact hi
  case single c _ _ hc _ _ hi =>
    exact List.forall_mem_cons.mpr ⟨.single hc rfl .nil, hi⟩
  case joined c cs w ws hc on h hi =>
    obtain ⟨d, rest, rfl, hd⟩ := exists_of_goesOn on
    obtain ⟨v, vs, shape, front⟩ := h.exists_cons hd
    cases shape
    obtain ⟨hw, hi⟩ := List.forall_mem_cons.mp hi
    have inner : goesOn c (d :: v) = true :=
      goesOn_of_front ((List.prefix_cons_inj d).mpr front) (List.cons_ne_nil _ _) on
    exact List.forall_mem_cons.mpr ⟨.joined hc inner hw, hi⟩

end Splits

-- The characters of words, each with the number of its word, where the first word has the number `n`.
def numbered (n : Nat) : List Word → List (Char × Nat)
  | [] => []
  | w :: ws => w.map (·, n) ++ numbered (n + 1) ws

-- Neighbours get the numbers of different words where the first one does not go on with the second.
theorem Splits.neighbours (h : Splits (a ++ x :: y :: b) ws) (hx : x.isAlphanum = true) (hy : y.isAlphanum = true)
    (n : Nat) :
    ∃ (front back : List (Char × Nat)) (i j : Nat), numbered n ws = front ++ (x, i) :: (y, j) :: back ∧
      front.map Prod.fst = a.filter Char.isAlphanum ∧ (i ≠ j ↔ goesOn x (y :: b) = false) := by
  induction a generalizing n ws
  case nil =>
    cases h
    case separator hn _ => simp [hx] at hn
    case single h off =>
      obtain ⟨v, vs, rfl, -⟩ := h.exists_cons hy
      exact ⟨[], _, n, n + 1, rfl, rfl, by simp [off]⟩
    case joined h on =>
      obtain ⟨v, vs, shape, -⟩ := h.exists_cons hy
      cases shape
      exact ⟨[], _, n, n, rfl, rfl, by simp [on]⟩
  case cons c a hi =>
    cases h
    case separator hc h =>
      obtain ⟨front, back, i, j, hn, letters, h⟩ := hi h n
      exact ⟨front, back, i, j, hn, by simpa [hc] using letters, h⟩
    case single hc h _ =>
      obtain ⟨front, back, i, j, hn, letters, h⟩ := hi h (n + 1)
      exact ⟨(c, n) :: front, back, i, j, by simp [numbered, hn], by simpa [hc] using letters, h⟩
    case joined hc h _ =>
      obtain ⟨front, back, i, j, hn, letters, h⟩ := hi h n
      exact ⟨(c, n) :: front, back, i, j, by simpa [numbered] using hn, by simpa [hc] using letters, h⟩

-- A word ends before a letter in uppercase behind one in lowercase or a digit, and before the last one of
-- an acronym.
theorem goesOn_eq_false_iff (hy : y.isAlphanum = true) : goesOn x (y :: b) = false ↔
    ((x.isLower = true ∨ x.isDigit = true) ∧ y.isUpper = true) ∨
      (x.isUpper = true ∧ y.isUpper = true ∧ ∃ z rest, b = z :: rest ∧ z.isLower = true) := by
  have starts : goesOn x (y :: b) = false ↔ startsAt x y b.head? = true := by simp [goesOn, hy]
  rw [starts]
  cases b <;> simp [startsAt, and_assoc]

end Word

theorem map_toList_words (s : String) : (words s).map String.toList = Word.split s.toList := by
  simp [words, Function.comp_def]

theorem words_cut_locally (s : String) :
    String.join (words s) = String.ofList (s.toList.filter Char.isAlphanum) ∧
    (∀ w ∈ words s, w ≠ "" ∧ words w = [w]) ∧
    (∀ (a b : List Char) (x y : Char), s.toList = a ++ x :: y :: b → x.isAlphanum = true → y.isAlphanum = true →
      ∃ (front back : List (Char × Nat)) (i j : Nat),
        Word.numbered 0 ((words s).map String.toList) = front ++ (x, i) :: (y, j) :: back ∧
        front.map Prod.fst = a.filter Char.isAlphanum ∧
        (i ≠ j ↔ ((x.isLower = true ∨ x.isDigit = true) ∧ y.isUpper = true) ∨
          (x.isUpper = true ∧ y.isUpper = true ∧ ∃ z rest, b = z :: rest ∧ z.isLower = true))) ∧
    ∀ (a b : String) (c : Char), c.isAlphanum = false → words (a ++ String.singleton c ++ b) = words a ++ words b := by
  have splits : Word.Splits s.toList (Word.split s.toList) := Word.splits_split _
  refine ⟨?letters, ?whole, ?neighbours, ?separator⟩
  case letters =>
    apply String.toList_injective
    rw [String.toList_join, List.flatMap_def, map_toList_words, splits.flatten, String.toList_ofList]
  case whole =>
    refine List.forall_mem_map.mpr fun w hw => ⟨?_, ?_⟩
    · simpa using (Word.split_plain w hw).ne_nil
    · rw [words, String.toList_ofList, (splits.whole w hw).split_eq, List.map_singleton]
  case neighbours =>
    intro a b x y hs hx hy
    rw [hs] at splits
    rw [map_toList_words, hs, ← Word.goesOn_eq_false_iff hy]
    exact splits.neighbours hx hy 0
  case separator =>
    intro a b c hc
    simp [words, Word.split_append_separator hc]

-- The acronym ends before its last letter, and the digit goes with the letters before it.
theorem words_cut_locally_acronym : words "HTTPServer2Go-v1" = ["HTTP", "Server2", "Go", "v1"] ∧
    words "HTTP" = ["HTTP"] ∧ words "HTTPServer2Go-v1" = words "HTTPServer2Go" ++ words "v1" ∧
    ∃ (front back : List (Char × Nat)) (i j : Nat), Word.numbered 0 ((words "HTTPServer2Go-v1").map String.toList) =
      front ++ ('P', i) :: ('S', j) :: back ∧ front.map Prod.fst = ['H', 'T', 'T'] ∧ i ≠ j := by
  have cut : words "HTTPServer2Go-v1" = ["HTTP", "Server2", "Go", "v1"] := by decide +kernel
  obtain ⟨-, whole, neighbours, separator⟩ := words_cut_locally "HTTPServer2Go-v1"
  obtain ⟨front, back, i, j, hn, letters, h⟩ :=
    neighbours "HTT".toList "erver2Go-v1".toList 'P' 'S' (by decide) rfl rfl
  refine ⟨cut, (whole "HTTP" (by simp [cut])).right, separator "HTTPServer2Go" "v1" '-' rfl,
    front, back, i, j, hn, letters, h.mpr (.inr ⟨rfl, rfl, 'e', "rver2Go-v1".toList, by decide, rfl⟩)⟩

end ProtoTypings
