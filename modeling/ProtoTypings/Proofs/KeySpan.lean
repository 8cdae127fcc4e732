import Mathlib
import ProtoTypings.Proofs.Pieces
import ProtoTypings.Settings.KeySpan
import ProtoTypings.Template

namespace ProtoTypings

namespace Span

-- What a search can look for: it is on a single line, and no lead can be taken for a part of it.
structure Solid (needle : List Char) : Prop where
  ne_nil : needle ≠ []
  lead : ∀ c ∈ needle, isLead c = false
  unbroken : '\n' ∉ needle

-- The text begins with the needle, and this is given a value.
def Given (needle cs : List Char) : Prop :=
  ∃ after, cs = needle ++ after ∧ isAssigned after = true

section Search

variable {needle cs leads after line rest : List Char} {c : Char} {offset skip : Nat} {atStart : Bool}

theorem byteLength_append (cs ds : List Char) : byteLength (cs ++ ds) = byteLength cs + byteLength ds := by
  induction cs
  case nil => simp [byteLength]
  case cons c cs hi => simp [byteLength, hi, Nat.add_assoc]

theorem findFrom_hit (hn : needle ≠ []) (assigned : isAssigned after = true) :
    findFrom needle 0 offset true (needle ++ after) = some ⟨offset, byteLength needle⟩ := by
  cases needle
  case nil => contradiction
  case cons c needle =>
    rw [List.cons_append, findFrom, ← List.cons_append, Text.afterFront?_eq_some_iff.mpr rfl]
    simp [assigned]

-- The rest of an occurrence is on the same line.
theorem unbroken_take (unbroken : '\n' ∉ needle) (shape : c :: cs = needle ++ after) :
    '\n' ∉ cs.take (needle.length - 1) := by
  cases needle
  case nil => simp
  case cons d needle =>
    obtain ⟨-, rfl⟩ := List.cons.inj shape
    simpa using fun hm => unbroken (List.mem_cons_of_mem _ hm)

-- Behind something else than leads, nothing is found on the same line, passed over or not.
theorem findFrom_skip (unbroken : '\n' ∉ needle) (h : '\n' ∉ cs.take skip) :
    findFrom needle skip offset false cs = findFrom needle 0 offset false cs := by
  induction cs generalizing skip offset
  case nil => cases skip <;> rfl
  case cons c cs hi =>
    cases skip
    case zero => rfl
    case succ skip =>
      obtain ⟨hc, h⟩ := not_or.mp (List.mem_cons.not.mp h)
      have off : (c == '\n' || (false && isLead c)) = false := by simpa using Ne.symm hc
      rw [findFrom, off, hi h, findFrom]
      split
      case h_1 after ha =>
        rw [if_neg (by simp), off]
        exact (hi (unbroken_take unbroken (Text.afterFront?_eq_some_iff.mp ha))).symm
      case h_2 => rw [off]

theorem findFrom_miss (solid : Solid needle) (h : atStart = true → ¬Given needle (c :: cs)) :
    findFrom needle 0 offset atStart (c :: cs) =
      findFrom needle 0 (offset + c.utf8Size) (c == '\n' || (atStart && isLead c)) cs := by
  rw [findFrom]
  split
  case h_2 => rfl
  case h_1 after ha =>
    have shape := Text.afterFront?_eq_some_iff.mp ha
    have hc : c ∈ needle := by
      obtain ⟨d, tail, rfl⟩ := List.exists_cons_of_ne_nil solid.ne_nil
      simp [(List.cons.inj shape).left]
    have newline : c ≠ '\n' := by
      rintro rfl
      exact solid.unbroken hc
    have off : (c == '\n' || (atStart && isLead c)) = false := by simp [newline, solid.lead c hc]
    have missed : ¬(atStart && isAssigned after) = true := by
      rw [Bool.and_eq_true]
      rintro ⟨hs, assigned⟩
      exact h hs ⟨after, shape, assigned⟩
    rw [if_neg missed, off, findFrom_skip solid.unbroken (unbroken_take solid.unbroken shape)]

theorem not_given_of_notMem (solid : Solid needle) (hc : c ∉ needle) : ¬Given needle (c :: cs) := by
  rintro ⟨after, shape, -⟩
  obtain ⟨d, tail, rfl⟩ := List.exists_cons_of_ne_nil solid.ne_nil
  simp [(List.cons.inj shape).left] at hc

theorem findFrom_newline (solid : Solid needle) :
    findFrom needle 0 offset atStart ('\n' :: cs) = findFrom needle 0 (offset + 1) true cs :=
  findFrom_miss solid fun _ => not_given_of_notMem solid solid.unbroken

theorem findFrom_leads (solid : Solid needle) (h : ∀ c ∈ leads, isLead c = true) :
    findFrom needle 0 offset true (leads ++ cs) = findFrom needle 0 (offset + byteLength leads) true cs := by
  induction leads generalizing offset
  case nil => rfl
  case cons c leads hi =>
    obtain ⟨hc, h⟩ := List.forall_mem_cons.mp h
    have other : c ∉ needle := fun hm => by simp [solid.lead c hm] at hc
    rw [List.cons_append, findFrom_miss solid fun _ => not_given_of_notMem solid other, byteLength, ← Nat.add_assoc,
      ← hi h]
    simp [hc]

theorem findFrom_rest (solid : Solid needle) (h : '\n' ∉ rest) :
    findFrom needle 0 offset false (rest ++ cs) = findFrom needle 0 (offset + byteLength rest) false cs := by
  induction rest generalizing offset
  case nil => rfl
  case cons c rest hi =>
    obtain ⟨hc, h⟩ := not_or.mp (List.mem_cons.not.mp h)
    have off : (c == '\n' || (false && isLead c)) = false := by simpa using Ne.symm hc
    rw [List.cons_append, findFrom_miss solid (by simp), off, byteLength, ← Nat.add_assoc, hi h]

theorem isAssigned_iff : isAssigned cs = true ↔
    ∃ blanks rest, (∀ c ∈ blanks, c ∈ [' ', '\t']) ∧ cs = blanks ++ '=' :: rest := by
  have blank (c : Char) : (c == ' ' || c == '\t') = true ↔ c ∈ [' ', '\t'] := by simp
  rw [isAssigned, decide_eq_true_iff]
  constructor
  · intro h
    obtain ⟨rest, h⟩ := List.head?_eq_some_iff.mp h
    refine ⟨cs.takeWhile fun c => c == ' ' || c == '\t', rest, fun c hc => (blank c).mp ?_, ?_⟩
    · simpa using List.mem_takeWhile_imp hc
    · rw [← h, List.takeWhile_append_dropWhile]
  · rintro ⟨blanks, rest, hb, rfl⟩
    rw [List.dropWhile_append_of_pos fun c hc => (blank c).mpr (hb c hc)]
    rfl

-- What is not broken over lines and stands at the beginning of a text, stands on its first line.
theorem exists_of_append_eq {front : List Char} (unbroken : '\n' ∉ front) (ht : ∀ c ∈ rest.head?, c = '\n')
    (h : line ++ rest = front ++ after) : ∃ more, line = front ++ more := by
  rcases List.append_eq_append_iff.mp h with ⟨more, rfl, hr⟩ | ⟨more, h, -⟩
  · cases hm : more
    case nil => exact ⟨[], by simp⟩
    case cons c _ =>
      have hc : c = '\n' := ht c (by simp [hr, hm])
      simp [hm, hc] at unbroken
  · exact ⟨more, h⟩

theorem given_of_append (solid : Solid needle) (ht : ∀ c ∈ rest.head?, c = '\n') (h : Given needle (line ++ rest)) :
    Given needle line := by
  obtain ⟨after, shape, assigned⟩ := h
  obtain ⟨blanks, value, hb, rfl⟩ := isAssigned_iff.mp assigned
  have unbroken : '\n' ∉ needle ++ blanks ++ ['='] := by
    have hb : '\n' ∉ blanks := fun hm => by simpa using hb _ hm
    simp [solid.unbroken, hb]
  have front : line ++ rest = needle ++ blanks ++ ['='] ++ value := by simpa using shape
  obtain ⟨more, rfl⟩ := exists_of_append_eq unbroken ht front
  exact ⟨blanks ++ '=' :: more, by simp, isAssigned_iff.mpr ⟨blanks, more, hb, rfl⟩⟩

theorem Given.append (h : Given needle cs) (rest : List Char) : Given needle (cs ++ rest) := by
  obtain ⟨after, rfl, assigned⟩ := h
  obtain ⟨blanks, value, hb, rfl⟩ := isAssigned_iff.mp assigned
  exact ⟨blanks ++ '=' :: (value ++ rest), by simp, isAssigned_iff.mpr ⟨blanks, value ++ rest, hb, rfl⟩⟩

end Search

-- Nothing but leads stands before the needle on the line, and an equals sign, after blanks, behind it.
def AssignsAfter (leads needle line : String) : Prop :=
  (∀ c ∈ leads.toList, c ∈ [' ', '\t', '{', ',']) ∧
    ∃ blanks rest, (∀ c ∈ blanks.toList, c ∈ [' ', '\t']) ∧ line = leads ++ needle ++ blanks ++ "=" ++ rest

def Assigns (needle line : String) : Prop :=
  ∃ leads, AssignsAfter leads needle line

-- The needle on the first line that assigns it, and what stands before it.
inductive First (needle : String) : List String → String → Prop
  | here {leads line : String} {lines : List String} : AssignsAfter leads needle line →
    First needle (line :: lines) leads
  | later {line front : String} {lines : List String} : ¬Assigns needle line → First needle lines front →
    First needle (line :: lines) (line ++ "\n" ++ front)

-- The span selects the needle, in bytes, on the first line of the source that assigns it.
def Marks (source needle : String) (span : Span) : Prop :=
  ∃ front back, First needle (Text.cut '\n' source) front ∧ source = front ++ needle ++ back ∧
    span = ⟨front.utf8ByteSize, needle.utf8ByteSize⟩

section Lines

variable {needle leads line source : String} {lines : List String} {rest : List Char} {offset : Nat} {span : Span}

theorem byteLength_toList (s : String) : byteLength s.toList = s.utf8ByteSize := by
  have length (cs : List Char) : byteLength cs = String.utf8Len cs := by
    induction cs
    case nil => rfl
    case cons c cs hi => simp [byteLength, hi, Nat.add_comm]
  rw [length, ← String.utf8ByteSize_ofList, String.ofList_toList]

theorem utf8ByteSize_line (line front : String) :
    (line ++ "\n" ++ front).utf8ByteSize = line.utf8ByteSize + (1 + front.utf8ByteSize) := by
  have newline : "\n".utf8ByteSize = 1 := rfl
  rw [String.utf8ByteSize_append, String.utf8ByteSize_append, newline, Nat.add_assoc]

theorem assignsAfter_iff : AssignsAfter leads needle line ↔ (∀ c ∈ leads.toList, isLead c = true) ∧
    ∃ cs, line.toList = leads.toList ++ cs ∧ Given needle.toList cs := by
  have lead (c : Char) : isLead c = true ↔ c ∈ [' ', '\t', '{', ','] := by simp [isLead, or_assoc]
  simp only [AssignsAfter, lead]
  refine and_congr_right fun _ => ?_
  constructor
  · rintro ⟨blanks, rest, hb, rfl⟩
    refine ⟨needle.toList ++ (blanks.toList ++ '=' :: rest.toList), by simp, _, rfl, ?_⟩
    exact isAssigned_iff.mpr ⟨blanks.toList, rest.toList, hb, rfl⟩
  · rintro ⟨_, shape, after, rfl, assigned⟩
    obtain ⟨blanks, rest, hb, rfl⟩ := isAssigned_iff.mp assigned
    refine ⟨String.ofList blanks, String.ofList rest, by simpa using hb, ?_⟩
    apply String.toList_injective
    simp [shape]

theorem findFrom_of_assignsAfter (solid : Solid needle.toList) (h : AssignsAfter leads needle line) :
    findFrom needle.toList 0 offset true (line.toList ++ rest) =
      some ⟨offset + leads.utf8ByteSize, needle.utf8ByteSize⟩ := by
  obtain ⟨hl, cs, shape, given⟩ := assignsAfter_iff.mp h
  obtain ⟨after, h, assigned⟩ := given.append rest
  rw [shape, List.append_assoc, findFrom_leads solid hl, h, findFrom_hit solid.ne_nil assigned, byteLength_toList,
    byteLength_toList]

theorem findFrom_of_not_assigns (solid : Solid needle.toList) (unbroken : '\n' ∉ line.toList)
    (h : ¬Assigns needle line) (offset : Nat) (ht : ∀ c ∈ rest.head?, c = '\n') :
    ∃ atStart, findFrom needle.toList 0 offset true (line.toList ++ rest) =
      findFrom needle.toList 0 (offset + line.utf8ByteSize) atStart rest := by
  obtain ⟨leads, cs, shape, hl, hc⟩ : ∃ leads cs, line.toList = leads ++ cs ∧ (∀ c ∈ leads, isLead c = true) ∧
      ∀ c ∈ cs.head?, isLead c = false := by
    refine ⟨_, _, (List.takeWhile_append_dropWhile (p := isLead)).symm, fun c hc => List.mem_takeWhile_imp hc, ?_⟩
    intro c hc
    simpa [Option.mem_def.mp hc] using List.head?_dropWhile_not isLead line.toList
  rw [shape, List.append_assoc, findFrom_leads solid hl, ← byteLength_toList, shape, byteLength_append,
    ← Nat.add_assoc]
  cases cs
  case nil => exact ⟨true, rfl⟩
  case cons c cs =>
    have given : ¬Given needle.toList (c :: (cs ++ rest)) := by
      intro given
      refine h ⟨String.ofList leads, assignsAfter_iff.mpr ⟨by simpa using hl, c :: cs, by simp [shape], ?_⟩⟩
      exact given_of_append solid ht given
    have other : isLead c = false := hc c rfl
    rw [shape] at unbroken
    simp only [List.mem_append, List.mem_cons, not_or] at unbroken
    obtain ⟨-, newline, unbroken⟩ := unbroken
    have off : (c == '\n' || (true && isLead c)) = false := by simp [other, Ne.symm newline]
    refine ⟨false, ?_⟩
    rw [List.cons_append, findFrom_miss solid fun _ => given, off, findFrom_rest solid unbroken, byteLength,
      ← Nat.add_assoc]

theorem first_cons_iff (h : ¬Assigns needle line) {text : String} : First needle (line :: lines) text ↔
    ∃ front, First needle lines front ∧ text = line ++ "\n" ++ front := by
  constructor
  · intro first
    cases first
    case here ha     => exact absurd ⟨_, ha⟩ h
    case later first => exact ⟨_, first, rfl⟩
  · rintro ⟨front, first, rfl⟩
    exact .later h first

theorem findFrom_line_iff (solid : Solid needle.toList) (h : Assigns needle line) :
    findFrom needle.toList 0 offset true (line.toList ++ rest) = some span ↔
      ∃ front, First needle (line :: lines) front ∧ span = ⟨offset + front.utf8ByteSize, needle.utf8ByteSize⟩ := by
  constructor
  · intro found
    obtain ⟨leads, h⟩ := h
    rw [findFrom_of_assignsAfter solid h] at found
    exact ⟨leads, .here h, (Option.some.inj found).symm⟩
  · rintro ⟨front, first, rfl⟩
    cases first
    case here ha => exact findFrom_of_assignsAfter solid ha
    case later => contradiction

theorem findFrom_intercalate (solid : Solid needle.toList) (unbroken : ∀ line ∈ lines, '\n' ∉ line.toList)
    (hne : lines ≠ []) : findFrom needle.toList 0 offset true ("\n".intercalate lines).toList = some span ↔
      ∃ front, First needle lines front ∧ span = ⟨offset + front.utf8ByteSize, needle.utf8ByteSize⟩ := by
  induction lines generalizing offset
  case nil => contradiction
  case cons line lines hi =>
    obtain ⟨hl, hs⟩ := List.forall_mem_cons.mp unbroken
    by_cases h : Assigns needle line
    case pos =>
      have text : "\n".intercalate (line :: lines) = line ++ "\n".intercalate ("" :: lines) := by
        rw [← String.intercalate_cons_append, String.append_empty]
      rw [text, String.toList_append]
      exact findFrom_line_iff solid h
    case neg =>
      simp only [first_cons_iff h]
      cases lines
      case nil =>
        have ht : ∀ c ∈ ([] : List Char).head?, c = '\n' := by simp
        obtain ⟨_, found⟩ := findFrom_of_not_assigns solid hl h offset ht
        rw [List.append_nil, findFrom] at found
        refine iff_of_false (by simp [found]) ?_
        rintro ⟨_, ⟨_, ⟨⟩, _⟩, _⟩
      case cons next lines =>
        have text : ("\n".intercalate (line :: next :: lines)).toList =
            line.toList ++ '\n' :: ("\n".intercalate (next :: lines)).toList := by
          rw [String.intercalate_cons_cons]
          simp
        have ht : ∀ c ∈ ('\n' :: ("\n".intercalate (next :: lines)).toList).head?, c = '\n' := by simp
        obtain ⟨_, found⟩ := findFrom_of_not_assigns solid hl h offset ht
        rw [text, found, findFrom_newline solid, hi hs (List.cons_ne_nil _ _)]
        constructor
        · rintro ⟨front, first, rfl⟩
          exact ⟨_, ⟨front, first, rfl⟩, by rw [utf8ByteSize_line, Nat.add_assoc, Nat.add_assoc]⟩
        · rintro ⟨_, ⟨front, first, rfl⟩, rfl⟩
          exact ⟨front, first, by rw [utf8ByteSize_line, Nat.add_assoc, Nat.add_assoc]⟩

theorem First.exists_eq {front : String} (first : First needle lines front) :
    ∃ back, "\n".intercalate lines = front ++ needle ++ back := by
  induction first
  case here lines h =>
    obtain ⟨-, blanks, rest, -, rfl⟩ := h
    exact ⟨"\n".intercalate ((blanks ++ "=" ++ rest) :: lines), by simp [String.append_assoc]⟩
  case later line front lines _ first hi =>
    obtain ⟨back, hb⟩ := hi
    refine ⟨back, ?_⟩
    rw [String.intercalate_cons_of_ne_nil (by rintro rfl; cases first), hb]
    simp [String.append_assoc]

theorem exists_first_iff : (∃ front, First needle lines front) ↔ ∃ line ∈ lines, Assigns needle line := by
  constructor
  · rintro ⟨front, first⟩
    induction first
    case here line _ h => exact ⟨line, List.mem_cons_self, _, h⟩
    case later hi =>
      obtain ⟨line, hl, h⟩ := hi
      exact ⟨line, List.mem_cons_of_mem _ hl, h⟩
  · rintro ⟨line, hl, h⟩
    induction lines
    case nil => contradiction
    case cons next lines hi =>
      by_cases hn : Assigns needle next
      case pos =>
        obtain ⟨leads, hn⟩ := hn
        exact ⟨leads, .here hn⟩
      case neg =>
        obtain ⟨front, first⟩ := hi (List.mem_of_ne_of_mem (by rintro rfl; exact hn h) hl)
        exact ⟨_, .later hn first⟩

theorem findFrom_eq_some_iff (solid : Solid needle.toList) :
    findFrom needle.toList 0 0 true source.toList = some span ↔ span.Marks source needle := by
  have text : "\n".intercalate (Text.cut '\n' source) = source := Text.intercalate_cut rfl source
  have unbroken : ∀ line ∈ Text.cut '\n' source, '\n' ∉ line.toList := fun line hl => Text.notMem_of_mem_cut hl
  rw [← text, findFrom_intercalate solid unbroken (Text.cut_ne_nil '\n' source), text]
  simp only [Nat.zero_add, Marks]
  constructor
  · rintro ⟨front, first, rfl⟩
    obtain ⟨back, hb⟩ := first.exists_eq
    exact ⟨front, back, first, text ▸ hb, rfl⟩
  · rintro ⟨front, _, first, _, rfl⟩
    exact ⟨front, first, rfl⟩

theorem isSome_findFrom_iff (solid : Solid needle.toList) :
    (findFrom needle.toList 0 0 true source.toList).isSome = true ↔
      ∃ line ∈ Text.cut '\n' source, Assigns needle line := by
  rw [← exists_first_iff, Option.isSome_iff_exists]
  simp only [findFrom_eq_some_iff solid]
  constructor
  · rintro ⟨_, front, _, first, -⟩
    exact ⟨front, first⟩
  · rintro ⟨front, first⟩
    obtain ⟨back, hb⟩ := first.exists_eq
    exact ⟨_, front, back, first, by rwa [Text.intercalate_cut rfl] at hb, rfl⟩

end Lines

theorem solid_of_chars {cs : List Char} (hne : cs ≠ []) (h : ∀ c ∈ cs, Template.isNameChar c = true ∨ c = '"') :
    Solid cs := by
  have others : [' ', '\t', '{', ',', '\n'].all (fun c => !Template.isNameChar c && c != '"') = true := by decide
  have other (c : Char) (hc : c ∈ cs) : c ∉ [' ', '\t', '{', ',', '\n'] := by
    intro hm
    have hn := List.all_eq_true.mp others c hm
    rcases h c hc with h | h <;> simp [h] at hn
  refine ⟨hne, fun c hc => ?_, fun hm => other _ hm (by simp)⟩
  have ho := other c hc
  simp only [List.mem_cons, List.not_mem_nil, or_false, not_or] at ho
  simp [isLead, ho]

theorem key_spans_exact (source key : String) (hne : key ≠ "")
    (chars : ∀ c ∈ key.toList, Template.isNameChar c = true) :
    ((ofKey? source key).isSome = true ↔
      ∃ line ∈ Text.cut '\n' source, Assigns ("\"" ++ key ++ "\"") line ∨ Assigns key line) ∧
    ∀ span, ofKey? source key = some span ↔ span.Marks source ("\"" ++ key ++ "\"") ∨
      (∀ line ∈ Text.cut '\n' source, ¬Assigns ("\"" ++ key ++ "\"") line) ∧ span.Marks source key := by
  have bare : Solid key.toList := solid_of_chars (by simpa using hne) fun c hc => .inl (chars c hc)
  have quoted : Solid ("\"" ++ key ++ "\"").toList := by
    refine solid_of_chars (by simp) fun c hc => ?_
    simp only [String.toList_append, List.mem_append] at hc
    rcases hc with (hc | hc) | hc
    · exact .inr (by simpa using hc)
    · exact .inl (chars c hc)
    · exact .inr (by simpa using hc)
  have search : ofKey? source key = (findFrom ("\"" ++ key ++ "\"").toList 0 0 true source.toList).or
      (findFrom key.toList 0 0 true source.toList) := by
    simp [ofKey?]
  rw [search]
  constructor
  · rw [Option.isSome_or, Bool.or_eq_true, isSome_findFrom_iff quoted, isSome_findFrom_iff bare]
    simp only [and_or_left, exists_or]
  · intro span
    rw [Option.or_eq_some_iff, findFrom_eq_some_iff quoted, findFrom_eq_some_iff bare,
      ← Option.not_isSome_iff_eq_none, isSome_findFrom_iff quoted]
    simp only [not_exists, not_and]

-- The key stands in a value, in front of a longer key, bare, and at last in quotes.
def roots : String :=
  "é = 'root'\nroot_x = 1\nroot = 2\n, \"root\"\t= 3"

theorem key_spans_exact_roots : ofKey? roots "root" = some ⟨34, 6⟩ ∧
    (⟨34, 6⟩ : Span).Marks roots ("\"" ++ "root" ++ "\"") := by
  have chars : ∀ c ∈ "root".toList, Template.isNameChar c = true := List.all_eq_true.mp (by decide)
  have found : ofKey? roots "root" = some ⟨34, 6⟩ := by decide +kernel
  refine ⟨found, ?_⟩
  rcases ((key_spans_exact roots "root" (by decide) chars).right ⟨34, 6⟩).mp found with h | ⟨-, h⟩
  · exact h
  · obtain ⟨_, _, _, _, h⟩ := h
    have size : 6 = "root".utf8ByteSize := congrArg Span.length h
    exact absurd size (by decide)

end Span

end ProtoTypings
