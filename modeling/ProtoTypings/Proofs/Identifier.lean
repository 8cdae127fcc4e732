import Mathlib
import ProtoTypings.Proofs.Pieces
import ProtoTypings.Typing.Identifier

namespace ProtoTypings.Identifier

variable {word text : String}

-- Identifier characters, and nothing else. Such a word may begin with a digit.
structure IsWord (word : String) : Prop where
  nonempty : word ≠ ""
  parts : ∀ c ∈ word.toList, isPart c = true

-- A word that stands in a text and goes on at neither end.
structure WordOf (word text : String) : Prop extends IsWord word where
  maximal : ∃ front back : List Char, text.toList = front ++ word.toList ++ back ∧
    front.getLast?.all (!isPart ·) = true ∧ back.head?.all (!isPart ·) = true

-- There is no word in the text.
def Wordless (text : String) : Prop :=
  text.toList.all (!isPart ·) = true

theorem wordless_iff : Wordless text ↔ ∀ c ∈ text.toList, isPart c = false := by
  simp [Wordless]

theorem mem_inText_iff : word ∈ inText text ↔ WordOf word text := by
  have piece : word ∈ inText text ↔ word ≠ "" ∧ word.toList ∈ text.toList.splitOnP (!isPart ·) := by
    simp only [inText, List.mem_map, List.mem_filter, decide_eq_true_eq]
    constructor
    · rintro ⟨cs, ⟨hs, hne⟩, rfl⟩
      exact ⟨by simpa using hne, by simpa using hs⟩
    · rintro ⟨hne, hs⟩
      exact ⟨word.toList, ⟨hs, by simpa using hne⟩, String.ofList_toList⟩
  rw [piece, Text.mem_splitOnP_iff]
  simp only [Bool.not_eq_false']
  exact ⟨fun ⟨hne, hp, h⟩ => ⟨⟨hne, hp⟩, h⟩, fun ⟨⟨hne, hp⟩, h⟩ => ⟨hne, hp, h⟩⟩

theorem inText_of_isWord (h : IsWord word) : inText word = [word] := by
  have whole : word.toList.splitOnP (!isPart ·) = [word.toList] :=
    List.splitOnP_eq_singleton (by simpa using h.parts)
  simp [inText, whole, h.nonempty]

theorem inText_ofList_append {c : Char} (hc : isPart c = false) (front back : List Char) :
    inText (String.ofList (front ++ c :: back)) = inText (String.ofList front) ++ inText (String.ofList back) := by
  simp [inText, List.splitOnP_append_cons, hc]

theorem inText_wordless_append (sep : String) (hs : Wordless sep) (text : String) :
    inText (sep ++ text) = inText text := by
  have skipped (cs : List Char) (h : ∀ c ∈ cs, isPart c = false) :
      inText (String.ofList (cs ++ text.toList)) = inText text := by
    induction cs
    case nil => simp
    case cons c cs hi =>
      obtain ⟨hc, h⟩ := List.forall_mem_cons.mp h
      exact (inText_ofList_append hc [] _).trans (hi h)
  rw [← skipped sep.toList (wordless_iff.mp hs), ← String.toList_append, String.ofList_toList]

-- Words do not run together where something else is between them.
theorem inText_between (sep : String) (hs : Wordless sep) (hne : sep ≠ "") (front back : String) :
    inText (front ++ sep ++ back) = inText front ++ inText back := by
  obtain ⟨c, cs, hc⟩ := List.exists_cons_of_ne_nil (String.toList_eq_nil_iff.not.mpr hne)
  rw [wordless_iff, hc] at hs
  obtain ⟨first, rest⟩ := List.forall_mem_cons.mp hs
  have text : front ++ sep ++ back = String.ofList (front.toList ++ c :: (String.ofList cs ++ back).toList) := by
    apply String.toList_injective
    simp [hc]
  rw [text, inText_ofList_append first, String.ofList_toList, String.ofList_toList,
    inText_wordless_append _ (wordless_iff.mpr (by simpa using rest))]

theorem inText_append_wordless (sep : String) (hs : Wordless sep) (text : String) :
    inText (text ++ sep) = inText text := by
  by_cases hne : sep = ""
  case pos => simp [hne]
  case neg => simpa [inText] using inText_between sep hs hne text ""

theorem inText_intercalate (sep : String) (hs : Wordless sep) (hne : sep ≠ "") (pieces : List String) :
    inText (sep.intercalate pieces) = pieces.flatMap inText := by
  induction pieces
  case nil => rfl
  case cons piece pieces hi =>
    by_cases hp : pieces = []
    case pos => simp [hp]
    case neg => rw [String.intercalate_cons_of_ne_nil hp, inText_between sep hs hne, hi, List.flatMap_cons]

theorem inText_lines (text : String) : (Text.cut '\n' text).flatMap inText = inText text := by
  rw [← inText_intercalate "\n" rfl (by decide), Text.intercalate_cut rfl]

-- The backslashes of a quoted text stand only where a word has ended.
theorem inText_quote (value : String) : inText (quote value) = inText value := by
  have escaped (front cs : List Char) :
      inText (String.ofList (front ++ escape cs)) = inText (String.ofList (front ++ cs)) := by
    induction cs generalizing front
    case nil => rfl
    case cons c cs hi =>
      rw [escape]
      split
      case isFalse =>
        rw [List.append_cons, List.append_cons front c cs]
        exact hi (front ++ [c])
      case isTrue h =>
        have hc : isPart c = false := by rcases h with rfl | rfl <;> rfl
        have behind : inText (String.ofList (c :: escape cs)) = inText (String.ofList cs) :=
          (inText_ofList_append hc [] _).trans (hi [])
        rw [inText_ofList_append rfl, inText_ofList_append hc, behind]
  have text : quote value = "'" ++ String.ofList (escape value.toList) ++ "'" := by
    apply String.toList_injective
    simp [quote]
  have body : inText (String.ofList (escape value.toList)) = inText value := by
    simpa using escaped [] value.toList
  rw [text, inText_append_wordless "'" rfl, inText_wordless_append "'" rfl, body]

end ProtoTypings.Identifier
