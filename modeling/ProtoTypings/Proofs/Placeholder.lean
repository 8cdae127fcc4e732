import Mathlib
import ProtoTypings.Proofs.Template

namespace ProtoTypings

namespace Template

variable {name spelling after : List Char}

-- Rendering puts the value of the variable into the text.
def Substitutes (name : String) (template : String) : Prop :=
  ∃ spelling, .hole name.toList spelling ∈ pieces template.toList

-- A hole that just `k` more opening braces stand right before.
def HoleBehind (k : Nat) (name template : List Char) : Prop :=
  ∃ outer spelling after, outer.getLast? ≠ some '{' ∧ Spells name spelling ∧
    template = outer ++ (List.replicate k '{' ++ (spelling ++ after))

-- A hole with nothing but pairs of opening braces right before it.
def PairedHole (name template : String) : Prop :=
  ∃ k, Even k ∧ HoleBehind k name.toList template.toList

theorem exists_eq_append_replicate (c : Char) (cs : List Char) :
    ∃ outer k, outer.getLast? ≠ some c ∧ cs = outer ++ List.replicate k c := by
  induction cs using List.reverseRecOn
  case nil => exact ⟨[], 0, by simp, rfl⟩
  case append_singleton cs d hi =>
    by_cases hd : d = c
    case neg => exact ⟨cs ++ [d], 0, by simpa using hd, by simp⟩
    case pos =>
      obtain ⟨outer, k, ho, rfl⟩ := hi
      exact ⟨outer, k + 1, ho, by rw [hd, List.replicate_succ', List.append_assoc]⟩

theorem exists_spells_of_mem_pieces {template : List Char} (h : .hole name spelling ∈ pieces template) :
    Spells name spelling ∧ ∃ before after, template = before ++ (spelling ++ after) := by
  induction template using induction
  case nil => contradiction
  case hole name' spelling' after hs hi =>
    rw [hs.pieces_append] at h
    rcases List.mem_cons.mp h with h | h
    · cases h
      exact ⟨hs, [], after, rfl⟩
    · obtain ⟨spells, before, after', rfl⟩ := hi h
      exact ⟨spells, spelling' ++ before, after', by simp⟩
  case plain c rest hh hi =>
    rw [pieces_cons hh] at h
    obtain ⟨spells, before, after, rfl⟩ := hi (by simpa using h)
    exact ⟨spells, c :: before, after, rfl⟩

theorem substitutes_iff {name template : String} :
    Substitutes name template ↔ ∃ k, HoleBehind k name.toList template.toList := by
  constructor
  case mp =>
    rintro ⟨spelling, h⟩
    obtain ⟨spells, before, after, ht⟩ := exists_spells_of_mem_pieces h
    obtain ⟨outer, k, ho, rfl⟩ := exists_eq_append_replicate '{' before
    exact ⟨k, outer, spelling, after, ho, spells, by rw [ht, List.append_assoc]⟩
  case mpr =>
    rintro ⟨k, outer, spelling, after, _, spells, ht⟩
    rw [← List.append_assoc] at ht
    exact ⟨spelling, spells.mem_pieces ht⟩

theorem not_isBlank_of_isNameChar {c : Char} (h : isNameChar c = true) : ¬Text.isBlank c = true :=
  fun hb => by simp [not_isNameChar_of_isBlank hb] at h

-- Trimming the inside of a hole leaves its name.
theorem IsName.trimChars_eq (hn : IsName name) {front back : List Char}
    (hf : ∀ c ∈ front, Text.isBlank c = true) (hb : ∀ c ∈ back, Text.isBlank c = true) :
    Text.trimChars Text.isBlank (front ++ (name ++ back)) = name := by
  obtain ⟨first, tail, hname, blank⟩ := hn.exists_cons
  have hne : name.reverse ≠ [] := by simp [hname]
  obtain ⟨last, init, hlast⟩ := List.exists_cons_of_ne_nil hne
  have mem : last ∈ name := List.mem_reverse.mp (hlast ▸ List.mem_cons_self)
  have starts : (name ++ back).dropWhile Text.isBlank = name ++ back := by simp [hname, blank]
  have ends : name.reverse.dropWhile Text.isBlank = name.reverse := by
    rw [hlast, List.dropWhile_cons_of_neg (not_isBlank_of_isNameChar (hn.chars last mem))]
  have hb' : ∀ c ∈ back.reverse, Text.isBlank c = true := fun c hc => hb c (List.mem_reverse.mp hc)
  rw [Text.trimChars, List.dropWhile_append_of_pos hf, starts, Text.dropWhileEnd, List.reverse_append,
    List.dropWhile_append_of_pos hb', ends, List.reverse_reverse]

end Template

namespace Settings

open Template

variable {inner outer rest spelling template : List Char} {c : Char}

theorem exists_of_beforeClose? {cs inner : List Char} (h : beforeClose? cs = some inner) :
    ∃ after, cs = inner ++ '}' :: '}' :: after := by
  fun_induction beforeClose? cs generalizing inner
  case case1 => contradiction
  case case2 after =>
    cases h
    exact ⟨after, rfl⟩
  case case3 c rest _ hi =>
    obtain ⟨inner, hc, rfl⟩ := Option.map_eq_some_iff.mp h
    obtain ⟨after, rfl⟩ := hi hc
    exact ⟨after, rfl⟩

theorem isName_typeName : IsName "typeName".toList where
  start := rfl
  chars := List.all_eq_true.mp rfl

-- What is between braces and reads `typeName` when it is trimmed makes a hole of them.
theorem exists_spells_of_beforeClose? {cs inner : List Char} (h : beforeClose? cs = some inner)
    (ht : Text.trimChars Text.isBlank inner = "typeName".toList) :
    ∃ spelling after, Spells "typeName".toList spelling ∧ '{' :: '{' :: cs = spelling ++ after := by
  obtain ⟨after, rfl⟩ := exists_of_beforeClose? h
  obtain ⟨front, back, hi, hf, hb⟩ := Text.exists_eq_append_trimChars Text.isBlank inner
  rw [ht] at hi
  refine ⟨_, after, .mk isName_typeName hf hb, ?_⟩
  rw [hi]
  simp

theorem beforeClose?_append (h : '}' ∉ inner) (after : List Char) :
    beforeClose? (inner ++ '}' :: '}' :: after) = some inner := by
  induction inner
  case nil => rfl
  case cons c inner hi =>
    obtain ⟨hc, hn⟩ := not_or.mp (mt List.mem_cons.mpr h)
    rw [List.cons_append, beforeClose?, hi hn, Option.map_some]
    rintro _ rfl
    contradiction

theorem hasTypeName_cons (h : c = '{' → rest.head? ≠ some '{') :
    hasTypeName (c :: rest) = hasTypeName rest := by
  rw [hasTypeName]
  rintro _ rfl rfl
  exact h rfl rfl

theorem hasTypeName_pair (h : hasTypeName rest = true) : hasTypeName ('{' :: '{' :: rest) = true := by
  rw [hasTypeName, h, Bool.or_true]

theorem hasTypeName_of_spells (h : Spells "typeName".toList spelling) (after : List Char) :
    hasTypeName (spelling ++ after) = true := by
  cases h
  case mk front back hn hf hb =>
    have brace : ¬Text.isBlank '}' = true := by decide
    have inside : '}' ∉ front ++ ("typeName".toList ++ back) := by
      simp only [List.mem_append, not_or]
      exact ⟨brace ∘ hf _, by decide, brace ∘ hb _⟩
    have shape : '{' :: '{' :: (front ++ ("typeName".toList ++ (back ++ ['}', '}']))) ++ after =
        '{' :: '{' :: (front ++ ("typeName".toList ++ back) ++ '}' :: '}' :: after) := by simp
    rw [shape, hasTypeName, beforeClose?_append inside, Option.any_some, hn.trimChars_eq hf hb]
    rfl

-- The search goes on right behind a text that does not end in an opening brace, whatever pairs it finds there.
theorem hasTypeName_append (ho : outer.getLast? ≠ some '{') (h : hasTypeName rest = true) :
    hasTypeName (outer ++ rest) = true := by
  induction outer using hasTypeName.induct
  case case1 => exact h
  case case2 outer hi =>
    cases outer
    case nil  => contradiction
    case cons => exact hasTypeName_pair (hi (by simpa using ho))
  case case3 c outer pair hi =>
    cases outer
    case nil =>
      rw [List.cons_append, hasTypeName_cons fun hc => absurd hc (by simpa using ho)]
      exact h
    case cons d outer =>
      rw [List.cons_append, hasTypeName_cons, hi (by simpa using ho)]
      rintro rfl hd
      cases hd
      exact pair outer rfl rfl

theorem hasTypeName_replicate (n : Nat) (h : hasTypeName rest = true) :
    hasTypeName (List.replicate (n + n) '{' ++ rest) = true := by
  induction n
  case zero => exact h
  case succ n hi =>
    rw [show n + 1 + (n + 1) = n + n + 2 by omega]
    exact hasTypeName_pair hi

-- A hole that the search finds stands behind pairs of braces only.
theorem exists_holeBehind_of_hasTypeName (h : hasTypeName template = true) :
    ∃ k, Even k ∧ HoleBehind k "typeName".toList template := by
  fun_induction hasTypeName template
  case case1 => contradiction
  case case2 rest hi =>
    rcases Bool.or_eq_true_iff.mp h with here | further
    · obtain ⟨inner, hc, ht⟩ := (Option.any_eq_true _ _).mp here
      obtain ⟨spelling, after, spells, heq⟩ := exists_spells_of_beforeClose? hc (of_decide_eq_true ht)
      exact ⟨0, Even.zero, [], spelling, after, by simp, spells, heq⟩
    · obtain ⟨k, even, outer, spelling, after, ho, spells, rfl⟩ := hi further
      cases outer
      case nil => exact ⟨k + 2, even.add (by decide), [], spelling, after, ho, spells, rfl⟩
      case cons c outer =>
        exact ⟨k, even, '{' :: '{' :: c :: outer, spelling, after, by simpa using ho, spells, rfl⟩
  case case3 c rest pair hi =>
    obtain ⟨k, even, outer, spelling, after, ho, spells, rfl⟩ := hi h
    cases outer
    case cons d outer => exact ⟨k, even, c :: d :: outer, spelling, after, by simpa using ho, spells, rfl⟩
    case nil =>
      -- a brace follows, so this is none
      obtain ⟨inner, _, _, rfl⟩ := spells.exists_eq
      have hc : c ≠ '{' := by
        rintro rfl
        cases k
        case zero => exact pair _ rfl rfl
        case succ => exact pair _ rfl rfl
      exact ⟨k, even, [c], _, after, by simpa using hc, spells, rfl⟩

theorem hasTypeName_iff {template : String} :
    hasTypeName template.toList = true ↔ PairedHole "typeName" template := by
  constructor
  case mp => exact exists_holeBehind_of_hasTypeName
  case mpr =>
    rintro ⟨_, ⟨n, rfl⟩, outer, spelling, after, ho, spells, heq⟩
    rw [heq]
    exact hasTypeName_append ho (hasTypeName_replicate n (hasTypeName_of_spells spells after))

-- A template is rejected if no hole is found in it, and that for enums only if the one for types has passed.
theorem missingPlaceholder_iff {s : Settings} {template : String} :
    (∃ key, s.problem? = some (.missingPlaceholder key template)) ↔
      isBlankText s.outputPath = false ∧ ¬PairedHole "typeName" template ∧
      (template = s.typeTemplate ∨ template = s.enumTemplate ∧ PairedHole "typeName" s.typeTemplate) := by
  rw [← hasTypeName_iff, ← hasTypeName_iff, problem?]
  cases isBlankText s.outputPath
  case true => simp
  case false =>
    cases ht : hasTypeName s.typeTemplate.toList
    case false =>
      constructor
      · rintro ⟨_, ⟨⟩⟩
        exact ⟨rfl, by simp [ht], .inl rfl⟩
      · rintro ⟨-, -, rfl | ⟨-, h⟩⟩
        · exact ⟨_, rfl⟩
        · contradiction
    case true =>
      cases he : hasTypeName s.enumTemplate.toList
      case false =>
        constructor
        · rintro ⟨_, ⟨⟩⟩
          exact ⟨rfl, by simp [he], .inr ⟨rfl, rfl⟩⟩
        · rintro ⟨-, missed, rfl | ⟨rfl, -⟩⟩
          · exact absurd ht missed
          · exact ⟨_, rfl⟩
      case true =>
        constructor
        · rintro ⟨_, h⟩
          simp only [Bool.not_true, Bool.false_eq_true, if_false] at h
          split at h <;> [cases h; skip]
          split at h <;> cases h
        · rintro ⟨-, missed, rfl | ⟨rfl, -⟩⟩
          · exact absurd ht missed
          · exact absurd he missed

end Settings

theorem type_name_found_iff (template : String) :
    (Template.Substitutes "typeName" template ↔
      ∃ k, Template.HoleBehind k "typeName".toList template.toList) ∧
    (Settings.hasTypeName template.toList = true ↔ Template.PairedHole "typeName" template) ∧
    ∀ s : Settings, (∃ key, s.problem? = some (.missingPlaceholder key template)) ↔
      Settings.isBlankText s.outputPath = false ∧ ¬Template.PairedHole "typeName" template ∧
      (template = s.typeTemplate ∨ template = s.enumTemplate ∧ Template.PairedHole "typeName" s.typeTemplate) :=
  ⟨Template.substitutes_iff, Settings.hasTypeName_iff, fun _ => Settings.missingPlaceholder_iff⟩

-- The braces around the hole are plain text, and yet the hole is not found.
theorem type_name_missed : ∃ template : String, template = "\x7b\x7b\x7btypeName\x7d\x7d\x7d" ∧
    Template.Substitutes "typeName" template ∧
    Template.render template [⟨"typeName", "User"⟩] false = "\x7bUser\x7d" ∧
    Settings.hasTypeName template.toList = false ∧
    ({ typeTemplate := template } : Settings).problem? =
      some (.missingPlaceholder "type_name_template" template) := by
  refine ⟨_, rfl, ⟨"\x7b\x7btypeName\x7d\x7d".toList, ?_⟩, ?_, ?_, ?_⟩ <;> decide +kernel

end ProtoTypings
