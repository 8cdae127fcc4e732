import Mathlib
import ProtoTypings.Proofs.Rendering

namespace ProtoTypings

namespace Identifier

-- A text with another one in the place of a character.
def substitute (c : Char) (new cs : List Char) : List Char :=
  cs.flatMap fun d => if d = c then new else [d]

-- Backslashes are doubled first, so that those in front of quotes are not.
theorem escape_eq_substitute (cs : List Char) :
    escape cs = substitute '\'' ['\\', '\''] (substitute '\\' ['\\', '\\'] cs) := by
  induction cs
  case nil => rfl
  case cons c cs hi =>
    simp only [substitute, List.flatMap_cons, List.flatMap_append] at hi ⊢
    rw [escape, hi]
    by_cases hb : c = '\\'
    case pos => simp [hb]
    case neg => by_cases hq : c = '\'' <;> simp [hb, hq]

end Identifier

namespace Literal

variable {cs value rest next : List Char}

-- Reads a literal behind its opening quote: its value, and what follows its closing quote. A backslash makes the
-- next character a part of the value.
def value? : List Char → Option (List Char × List Char)
  | [] => none
  | '\'' :: rest => some ([], rest)
  | '\\' :: c :: rest => (value? rest).map fun (value, rest) => (c :: value, rest)
  | c :: rest => (value? rest).map fun (value, rest) => (c :: value, rest)

theorem length_lt_of_value? (h : value? cs = some (value, rest)) : rest.length < cs.length := by
  fun_induction value? cs generalizing value
  case case1 => contradiction
  case case2 =>
    obtain ⟨-, rfl⟩ := Prod.mk.inj (Option.some.inj h)
    exact Nat.lt_succ_self _
  case case3 hi | case4 hi =>
    obtain ⟨⟨_, _⟩, hv, h⟩ := Option.map_eq_some_iff.mp h
    obtain ⟨-, rfl⟩ := Prod.mk.inj h
    exact (hi hv).trans (by simp)

def literal? (cs : List Char) : Option (List Char × List Char) :=
  (Text.afterFront? ['\''] cs).bind value?

theorem length_lt_of_literal? (h : literal? cs = some (value, rest)) : rest.length < cs.length := by
  obtain ⟨body, hb, h⟩ := Option.bind_eq_some_iff.mp h
  rw [Text.afterFront?_eq_some_iff.mp hb]
  exact (length_lt_of_value? h).trans (by simp)

theorem length_lt_of_bar (hl : literal? cs = some (value, rest)) (hb : Text.afterFront? " | ".toList rest = some next) :
    next.length < cs.length := by
  have shorter := length_lt_of_literal? hl
  rw [Text.afterFront?_eq_some_iff.mp hb, List.length_append] at shorter
  omega

-- Reads a whole text as literals with bars between them.
def union? (cs : List Char) : Option (List String) :=
  match hl : literal? cs with
  | none => none
  | some (value, []) => some [String.ofList value]
  | some (value, rest) =>
    match hb : Text.afterFront? " | ".toList rest with
    | none => none
    | some next =>
      have : next.length < cs.length := length_lt_of_bar hl hb
      (union? next).map (String.ofList value :: ·)
termination_by cs.length

theorem union?_last (h : literal? cs = some (value, [])) : union? cs = some [String.ofList value] := by
  rw [union?]
  split <;> simp_all

theorem union?_bar (h : literal? cs = some (value, " | ".toList ++ next)) :
    union? cs = (union? next).map (String.ofList value :: ·) := by
  rw [union?]
  split
  case h_1 hl => simp [h] at hl
  case h_2 hl => simp [h] at hl
  case h_3 hl =>
    obtain ⟨rfl, rfl⟩ := Prod.mk.inj (Option.some.inj (h.symm.trans hl))
    have bar : Text.afterFront? " | ".toList (" | ".toList ++ next) = some next := Text.afterFront?_eq_some_iff.mpr rfl
    split
    case h_1 hb => cases bar.symm.trans hb
    case h_2 hb =>
      cases bar.symm.trans hb
      rfl

theorem value?_escape (cs rest : List Char) :
    value? (Identifier.escape cs ++ '\'' :: rest) = some (cs, rest) := by
  induction cs
  case nil => rfl
  case cons c cs hi =>
    rw [Identifier.escape]
    split
    case isTrue => simp [value?, hi]
    case isFalse hc =>
      obtain ⟨hb, hq⟩ := not_or.mp hc
      rw [List.cons_append, value?, hi]
      · rfl
      · exact hq
      · exact fun _ _ h _ => hb h

theorem literal?_quote (value : String) (rest : List Char) :
    literal? ((Identifier.quote value).toList ++ rest) = some (value.toList, rest) := by
  have text : (Identifier.quote value).toList ++ rest =
      ['\''] ++ (Identifier.escape value.toList ++ '\'' :: rest) := by
    simp [Identifier.quote]
  rw [literal?, Text.afterFront?_eq_some_iff.mpr text, Option.bind_some, value?_escape]

theorem union?_intercalate {values : List String} (h : values ≠ []) :
    union? (" | ".intercalate (values.map Identifier.quote)).toList = some values := by
  induction values
  case nil => contradiction
  case cons value values hi =>
    cases values
    case nil =>
      have last := literal?_quote value []
      rw [List.append_nil] at last
      simpa using union?_last last
    case cons second values =>
      rw [List.map_cons, String.intercalate_cons_of_ne_nil (by simp), String.toList_append, String.toList_append,
        List.append_assoc, union?_bar (literal?_quote value _), hi (by simp)]
      simp

end Literal

namespace TypeExpr

variable {values : List String}

theorem render_literals (h : values ≠ []) (indent : Indent) :
    (literals values).render indent = " | ".intercalate (values.map Identifier.quote) := by
  cases values
  case nil => contradiction
  case cons =>
    rw [literals, List.map_cons, render, ← List.map_cons, renderItems_eq, List.map_map]
    exact congrArg _ (List.map_congr_left fun value _ => by rw [Function.comp_apply, render])

theorem literals_read_back (h : values ≠ []) (indent : Indent) :
    Literal.union? ((literals values).render indent).toList = some values ∧
      ∀ others, others ≠ [] → others ≠ values →
        (literals others).render indent ≠ (literals values).render indent := by
  have back {values : List String} (h : values ≠ []) :
      Literal.union? ((literals values).render indent).toList = some values := by
    rw [render_literals h, Literal.union?_intercalate h]
  refine ⟨back h, fun others ho hne same => hne ?_⟩
  exact Option.some.inj ((back ho).symm.trans (same ▸ back h))

-- Values with quotes, with a backslash at the end, with a bar between quotes, and without characters.
theorem literals_read_back_marks :
    (literals ["it's", "c:\\", "a' | 'b", ""]).render .default = "'it\\'s' | 'c:\\\\' | 'a\\' | \\'b' | ''" ∧
      Literal.union? "'it\\'s' | 'c:\\\\' | 'a\\' | \\'b' | ''".toList = some ["it's", "c:\\", "a' | 'b", ""] ∧
      (literals ["a' | 'b"]).render .default ≠ (literals ["a", "b"]).render .default := by
  have text : (literals ["it's", "c:\\", "a' | 'b", ""]).render .default =
      "'it\\'s' | 'c:\\\\' | 'a\\' | \\'b' | ''" := by
    decide +kernel
  refine ⟨text, text ▸ (literals_read_back (by simp) .default).left, ?_⟩
  exact (literals_read_back (by simp) .default).right _ (by simp) (by simp)

end TypeExpr

end ProtoTypings
