import Mathlib
import ProtoTypings.Proofs.Pieces

namespace ProtoTypings

section Split

variable {α β : Type} {p q : α → Bool}

theorem splitOnP_map (f : α → β) (p : β → Bool) (l : List α) :
    (l.map f).splitOnP p = (l.splitOnP (p ∘ f)).map (List.map f) := by
  induction l
  case nil => rfl
  case cons a l hi =>
    rw [List.map_cons, List.splitOnP_cons_eq_if_modifyHead, List.splitOnP_cons_eq_if_modifyHead, hi]
    split
    case isTrue h  => simp [h]
    case isFalse h =>
      rw [Function.comp_apply, if_neg h]
      cases l.splitOnP (p ∘ f) <;> simp

theorem mem_of_mem_splitOnP {l piece : List α} {a : α} (hp : piece ∈ l.splitOnP p) (ha : a ∈ piece) : a ∈ l := by
  obtain ⟨-, front, back, rfl, -, -⟩ := Text.mem_splitOnP_iff.mp hp
  simp [ha]

-- Cutting at some of the ends first makes no difference.
theorem splitOnP_eq_flatMap (h : ∀ a, q a = true → p a = true) (l : List α) :
    l.splitOnP p = (l.splitOnP q).flatMap (List.splitOnP p) := by
  induction l
  case nil => rfl
  case cons a l hi =>
    rw [List.splitOnP_cons_eq_if_modifyHead, List.splitOnP_cons_eq_if_modifyHead, hi]
    by_cases hq : q a = true
    case pos => simp [hq, h a hq]
    case neg =>
      rw [if_neg hq]
      cases hs : l.splitOnP q
      case nil => exact absurd hs (List.splitOnP_ne_nil _ _)
      case cons first rest =>
        rw [List.modifyHead_cons, List.flatMap_cons, List.flatMap_cons, List.splitOnP_cons_eq_if_modifyHead]
        split
        case isTrue  => rfl
        case isFalse =>
          cases hf : first.splitOnP p
          case nil  => exact absurd hf (List.splitOnP_ne_nil _ _)
          case cons => rfl

-- Where two lists meet, the last piece of the one goes on with the first piece of the other.
theorem exists_splitOnP_append (p : α → Bool) (l l' : List α) : ∃ init last first tail,
    l.splitOnP p = init ++ [last] ∧ l'.splitOnP p = first :: tail ∧
      (l ++ l').splitOnP p = init ++ (last ++ first) :: tail := by
  obtain ⟨first, tail, hf⟩ := List.exists_cons_of_ne_nil (List.splitOnP_ne_nil p l')
  induction l
  case nil => exact ⟨[], [], first, tail, rfl, hf, by simpa using hf⟩
  case cons a l hi =>
    obtain ⟨init, last, _, _, hl, hf', happ⟩ := hi
    cases hf.symm.trans hf'
    rw [List.cons_append, List.splitOnP_cons_eq_if_modifyHead, List.splitOnP_cons_eq_if_modifyHead, hl, happ]
    split
    case isTrue  => exact ⟨[] :: init, last, first, tail, rfl, hf, rfl⟩
    case isFalse =>
      cases init
      case nil          => exact ⟨[], a :: last, first, tail, rfl, hf, rfl⟩
      case cons b init  => exact ⟨(a :: b) :: init, last, first, tail, rfl, hf, rfl⟩

end Split

-- Where a character of generated code comes from.
inductive Origin where
  | code
  | comment
  deriving DecidableEq, Repr

abbrev Traced := List (Char × Origin)

namespace Traced

def code (s : String) : Traced :=
  s.toList.map (·, .code)

def comment (s : String) : Traced :=
  s.toList.map (·, .comment)

-- Rows with a line feed behind each.
def ofRows (rows : List Traced) : Traced :=
  rows.flatMap (· ++ code "\n")

-- A header, the rows below it, and code behind them.
def block (header : Traced) (rows : List Traced) (close : String) : Traced :=
  header ++ (code "\n" ++ (ofRows rows ++ code close))

-- The code without the origins of its characters.
def chars (t : Traced) : List Char :=
  t.map Prod.fst

-- Whether there is text of a comment in a line.
def Carries (line : Traced) : Prop :=
  ∃ c, (c, .comment) ∈ line

variable {t u : Traced}

@[simp]
theorem chars_nil : chars [] = [] :=
  rfl

@[simp]
theorem chars_append : chars (t ++ u) = t.chars ++ u.chars :=
  List.map_append

@[simp]
theorem chars_code (s : String) : (code s).chars = s.toList := by
  simp [chars, code, Function.comp_def]

@[simp]
theorem chars_comment (s : String) : (comment s).chars = s.toList := by
  simp [chars, comment, Function.comp_def]

-- Rows and lines with the same text still have the same text after both are changed in the same way.
theorem map_chars_map {f : Traced → Traced} {g : String → String} {rows : List Traced} {lines : List String}
    (h : rows.map chars = lines.map String.toList)
    (hf : ∀ row line, row.chars = line.toList → (f row).chars = (g line).toList) :
    (rows.map f).map chars = (lines.map g).map String.toList := by
  rw [← List.forall₂_eq_eq_eq, List.forall₂_map_left_iff, List.forall₂_map_right_iff] at h ⊢
  rw [List.forall₂_map_left_iff, List.forall₂_map_right_iff]
  exact h.imp hf

theorem chars_ofRows {rows : List Traced} {lines : List String} (h : rows.map chars = lines.map String.toList) :
    (ofRows rows).chars = (String.join (lines.map (· ++ "\n"))).toList := by
  induction lines generalizing rows
  case nil =>
    cases List.map_eq_nil_iff.mp h
    rfl
  case cons line lines hi =>
    obtain ⟨row, rows, rfl, hr, h⟩ := List.map_eq_cons_iff.mp h
    rw [ofRows, List.flatMap_cons, ← ofRows, chars_append, chars_append, chars_code, hr, hi h]
    simp [String.join_cons]

theorem chars_block {header : Traced} {head close : String} {rows : List Traced} {lines : List String}
    (hh : header.chars = head.toList) (hr : rows.map chars = lines.map String.toList) :
    (block header rows close).chars = (head ++ "\n" ++ String.join (lines.map (· ++ "\n")) ++ close).toList := by
  simp [block, hh, chars_ofRows hr]

theorem chars_intercalate (sep : String) (ts : List Traced) :
    chars ((code sep).intercalate ts) = sep.toList.intercalate (ts.map chars) := by
  induction ts
  case nil => rfl
  case cons t rest hi =>
    cases rest
    case nil => simp
    case cons u rest =>
      rw [List.map_cons, List.map_cons, List.intercalate_cons_cons, List.intercalate_cons_cons, chars_append,
        chars_append, chars_code, hi, List.map_cons]

theorem not_carries_code (s : String) : ¬(code s).Carries := by
  simp [Carries, code]

theorem carries_append : (t ++ u).Carries ↔ t.Carries ∨ u.Carries := by
  simp [Carries, exists_or]

end Traced

-- The characters that indent a line.
def isIndent (c : Char) : Bool :=
  c == ' ' || c == '\t'

-- Whether a line begins, after its indentation, with two slashes.
def opensComment (line : List Char) : Bool :=
  ['/', '/'].isPrefixOf (line.dropWhile isIndent)

-- What ends a line. A line feed always does, and nothing that a comment begins with.
structure LineEnds where
  isEnd : Char → Bool
  feed : isEnd '\n' = true
  slash : isEnd '/' = false
  indent : ∀ c, isIndent c = true → isEnd c = false

namespace LineEnds

def feeds : LineEnds where
  isEnd c := c == '\n'
  feed := rfl
  slash := rfl
  indent c h := by
    rcases Bool.or_eq_true_iff.mp h with h | h <;> rw [eq_of_beq h] <;> rfl

-- The characters that end a line comment in TypeScript.
def typescript : LineEnds where
  isEnd c := c ∈ ['\n', '\r', '\u2028', '\u2029']
  feed := by decide
  slash := by decide
  indent c h := by
    rcases Bool.or_eq_true_iff.mp h with h | h <;> rw [eq_of_beq h] <;> decide

variable (ends : LineEnds)

def lines (t : Traced) : List Traced :=
  t.splitOnP fun x => ends.isEnd x.1

-- All lines with text of a comment begin with slashes.
def Shielded (t : Traced) : Prop :=
  ∀ line ∈ ends.lines t, line.Carries → opensComment line.chars = true

-- A comment whose lines after the first are empty or begin with slashes of their own.
def Tame (comment : String) : Prop :=
  ∀ line ∈ (comment.toList.splitOnP ends.isEnd).tail, line = [] ∨ opensComment line = true

instance : DecidablePred ends.Tame :=
  fun _ => inferInstanceAs (Decidable (∀ line ∈ _, _))

-- Code that begins and ends outside of comments. Its comments are shielded under the given condition.
structure Framed (t : Traced) (condition : Prop) : Prop where
  starts : ∀ line ∈ (ends.lines t).head?, ¬line.Carries
  stops : ∀ line ∈ (ends.lines t).getLast?, ¬line.Carries
  shielded : ends.Shielded t ↔ condition

variable {ends} {t u : Traced} {c : Char} {origin : Origin} {P Q : Prop}

theorem lines_append_end (hc : ends.isEnd c = true) :
    ends.lines (t ++ (c, origin) :: u) = ends.lines t ++ ends.lines u :=
  List.splitOnP_append_cons t u hc

theorem not_carries_of_mem_lines {line : Traced} (ht : ¬t.Carries) (hl : line ∈ ends.lines t) : ¬line.Carries :=
  fun ⟨c, hc⟩ => ht ⟨c, mem_of_mem_splitOnP hl hc⟩

theorem framed_of_not_carries (ht : ¬t.Carries) : ends.Framed t True where
  starts _ hl := not_carries_of_mem_lines ht (List.mem_of_head? hl)
  stops _ hl := not_carries_of_mem_lines ht (List.mem_of_getLast? hl)
  shielded := iff_of_true (fun _ hl hc => absurd hc (not_carries_of_mem_lines ht hl)) trivial

theorem framed_code (s : String) : ends.Framed (.code s) True :=
  framed_of_not_carries (Traced.not_carries_code s)

namespace Framed

theorem congr (h : ends.Framed t P) (hc : P ↔ Q) : ends.Framed t Q :=
  ⟨h.starts, h.stops, h.shielded.trans hc⟩

theorem self (h : ends.Framed t P) : ends.Framed t (ends.Shielded t) :=
  h.congr h.shielded.symm

-- The line in the middle is made of two lines without comments.
theorem append (ht : ends.Framed t P) (hu : ends.Framed u Q) : ends.Framed (t ++ u) (P ∧ Q) := by
  obtain ⟨init, last, first, tail, hl, hf, happ⟩ := exists_splitOnP_append (fun x => ends.isEnd x.1) t u
  have quiet_last : ¬Traced.Carries last := ht.stops last (by simp [lines, hl])
  have quiet_first : ¬Traced.Carries first := hu.starts first (by simp [lines, hf])
  have quiet : ¬Traced.Carries (last ++ first) := by simp [Traced.carries_append, quiet_last, quiet_first]
  constructor
  case starts =>
    intro line h
    cases init
    case nil =>
      obtain rfl : last ++ first = line := by simpa [lines, happ] using h
      exact quiet
    case cons => exact ht.starts line (by simpa [lines, hl, happ] using h)
  case stops =>
    intro line h
    cases tail
    case nil =>
      obtain rfl : last ++ first = line := by simpa [lines, happ] using h
      exact quiet
    case cons => exact hu.stops line (by simpa [lines, hf, happ, List.getLast?_cons] using h)
  case shielded =>
    rw [← ht.shielded, ← hu.shielded]
    simp [Shielded, lines, hl, hf, happ, or_imp, forall_and, quiet, quiet_last, quiet_first]

-- Pieces with code between them.
theorem intercalate {ι : Type} {f : ι → Traced} {condition : ι → Prop} {l : List ι} (sep : String)
    (h : ∀ i ∈ l, ends.Framed (f i) (condition i)) :
    ends.Framed ((Traced.code sep).intercalate (l.map f)) (∀ i ∈ l, condition i) := by
  induction l
  case nil => exact (framed_of_not_carries (by simp [Traced.Carries])).congr (by simp)
  case cons i rest hi =>
    have first := h i List.mem_cons_self
    have others := hi fun j hj => h j (List.mem_cons_of_mem _ hj)
    cases rest
    case nil => exact (by simpa using first : ends.Framed _ (condition i)).congr (by simp)
    case cons j rest =>
      rw [List.map_cons, List.map_cons, List.intercalate_cons_cons, ← List.map_cons]
      refine ((first.append (framed_code sep)).append others).congr ?_
      simp

end Framed

theorem shielded_nil : ends.Shielded [] :=
  (framed_code "").shielded.mpr trivial

theorem shielded_iff_of_lines {l : List Traced} (h : ends.lines t = l.flatMap ends.lines) :
    ends.Shielded t ↔ ∀ piece ∈ l, ends.Shielded piece := by
  simp only [Shielded, h, List.mem_flatMap]
  exact ⟨fun h piece hp line hl => h line ⟨piece, hp, hl⟩, fun h line ⟨piece, hp, hl⟩ => h piece hp line hl⟩

-- It makes no difference to cut the code at its line feeds first.
theorem shielded_iff_forall_rows :
    ends.Shielded t ↔ ∀ row ∈ t.splitOnP (·.1 == '\n'), ends.Shielded row := by
  refine shielded_iff_of_lines (splitOnP_eq_flatMap (fun x hx => ?_) t)
  rw [eq_of_beq hx]
  exact ends.feed

theorem lines_ofRows (rows : List Traced) (close : Traced) :
    ends.lines (.ofRows rows ++ close) = rows.flatMap ends.lines ++ ends.lines close := by
  induction rows
  case nil => rfl
  case cons row rest hi =>
    rw [Traced.ofRows, List.flatMap_cons, List.flatMap_cons, List.append_assoc, List.append_assoc,
      List.append_assoc, ← hi]
    exact lines_append_end ends.feed

theorem framed_ofRows (rows : List Traced) (close : String) :
    ends.Framed (.code "\n" ++ (.ofRows rows ++ .code close)) (∀ row ∈ rows, ends.Shielded row) := by
  have last : ends.Framed (.code close) True := framed_code close
  have cut : ends.lines (.code "\n" ++ (.ofRows rows ++ .code close)) =
      [] :: rows.flatMap ends.lines ++ ends.lines (.code close) := by
    rw [List.cons_append, ← lines_ofRows]
    exact lines_append_end (t := []) ends.feed
  constructor
  case starts => simp [cut, Traced.Carries]
  case stops =>
    intro line hl
    have ne : ends.lines (.code close) ≠ [] := List.splitOnP_ne_nil _ _
    rw [cut, List.getLast?_append_of_ne_nil _ ne] at hl
    exact last.stops line hl
  case shielded =>
    have quiet : ends.Shielded (.code close) := last.shielded.mpr trivial
    have pieces : ends.lines (.code "\n" ++ (.ofRows rows ++ .code close)) =
        ([] :: rows ++ [Traced.code close]).flatMap ends.lines := by
      rw [cut, List.flatMap_append, List.flatMap_singleton]
      rfl
    rw [shielded_iff_of_lines pieces]
    simp [or_imp, forall_and, quiet, shielded_nil]

theorem Framed.block {header : Traced} (h : ends.Framed header P) (rows : List Traced) (close : String) :
    ends.Framed (.block header rows close) (P ∧ ∀ row ∈ rows, ends.Shielded row) :=
  h.append (framed_ofRows rows close)

-- Code within a line stands in front of the first line of what follows.
theorem exists_lines_code_append {s : String} (hs : ∀ c ∈ s.toList, ends.isEnd c = false) (t : Traced) :
    ∃ first tail, ends.lines t = first :: tail ∧ ends.lines (.code s ++ t) = (.code s ++ first) :: tail := by
  obtain ⟨init, last, first, tail, hl, hf, happ⟩ :=
    exists_splitOnP_append (fun x => ends.isEnd x.1) (Traced.code s) t
  have one : (Traced.code s).splitOnP (fun x => ends.isEnd x.1) = [] ++ [Traced.code s] := by
    refine List.splitOnP_eq_singleton fun x hx => ?_
    obtain ⟨c, hc, rfl⟩ := List.mem_map.mp hx
    exact hs c hc
  obtain ⟨rfl, h⟩ := List.append_inj' (hl.symm.trans one) rfl
  cases h
  exact ⟨first, tail, hf, happ⟩

-- Indentation in front of a row changes nothing.
theorem shielded_indented {blanks : String} (hb : ∀ c ∈ blanks.toList, isIndent c = true) :
    ends.Shielded (.code blanks ++ t) ↔ ends.Shielded t := by
  obtain ⟨first, tail, ht, happ⟩ := exists_lines_code_append (fun c hc => ends.indent c (hb c hc)) t
  have carries : (Traced.code blanks ++ first).Carries ↔ first.Carries := by
    simp [Traced.carries_append, Traced.not_carries_code]
  have opens : opensComment (Traced.code blanks ++ first).chars = opensComment first.chars := by
    rw [Traced.chars_append, Traced.chars_code, opensComment, List.dropWhile_append_of_pos hb, opensComment]
  simp only [Shielded, ht, happ, List.forall_mem_cons, carries, opens]

theorem lines_comment (c : String) :
    ends.lines (.comment c) = (c.toList.splitOnP ends.isEnd).map (List.map (·, .comment)) :=
  splitOnP_map _ _ _

-- The slashes are in front of the first line only.
theorem shielded_comment {c : String} : ends.Shielded (.code "// " ++ .comment c) ↔ ends.Tame c := by
  have slashes : ∀ c ∈ "// ".toList, ends.isEnd c = false := by
    simp [ends.slash, ends.indent ' ' rfl]
  obtain ⟨first, tail, hc, happ⟩ := exists_lines_code_append slashes (.comment c)
  rw [lines_comment] at hc
  obtain ⟨_, rest, hs, rfl, rfl⟩ := List.map_eq_cons_iff.mp hc
  have opens (line : Traced) : opensComment (Traced.code "// " ++ line).chars = true := by
    simp [opensComment, isIndent]
  have carries (line : List Char) : Traced.Carries (line.map (·, .comment)) ↔ line ≠ [] := by
    simp [Traced.Carries, List.eq_nil_iff_forall_not_mem]
  have chars (line : List Char) : Traced.chars (line.map (·, .comment)) = line := by
    simp [Traced.chars, Function.comp_def]
  simp only [Shielded, Tame, happ, hs, List.tail_cons, List.forall_mem_cons, opens, implies_true, true_and,
    List.forall_mem_map, carries, chars, ne_eq, or_iff_not_imp_left]

end LineEnds

end ProtoTypings
