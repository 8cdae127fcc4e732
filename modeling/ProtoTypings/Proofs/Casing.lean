import Mathlib
import ProtoTypings.Casing

namespace ProtoTypings

namespace Word

variable {cs a b : List Char} {c x : Char} {w : Word} {ws : List Word}

theorem not_isDigit_of_isAlpha (h : c.isAlpha = true) : c.isDigit = false := by
  rw [Bool.eq_false_iff]
  intro hd
  simp only [Char.isAlpha, Char.isUpper, Char.isLower, Char.isDigit, Bool.or_eq_true, Bool.and_eq_true,
    decide_eq_true_eq, UInt32.le_iff_toNat_le, ge_iff_le, Char.toNat_val, Char.reduceToNat] at h hd
  omega

theorem isDigit_toLower : c.toLower.isDigit = c.isDigit := by
  cases hu : c.isUpper
  case false => rw [Char.toLower_eq_of_not_isUpper (by simp [hu])]
  case true =>
    have ha : c.isAlpha = true := by simp [Char.isAlpha, hu]
    rw [not_isDigit_of_isAlpha ha, not_isDigit_of_isAlpha (by simpa using ha)]

theorem toLower_of_isDigit (hd : c.isDigit = true) : c.toLower = c := by
  refine Char.toLower_eq_of_not_isUpper fun hu => ?_
  simp [not_isDigit_of_isAlpha (c := c) (by simp [Char.isAlpha, hu])] at hd

theorem isDigit_toUpper : c.toUpper.isDigit = c.isDigit := by
  cases hl : c.isLower
  case false => rw [Char.toUpper_eq_of_not_isLower (by simp [hl])]
  case true =>
    have ha : c.isAlpha = true := by simp [Char.isAlpha, hl]
    rw [not_isDigit_of_isAlpha ha, not_isDigit_of_isAlpha (by simpa using ha)]

theorem toUpper_of_isDigit (hd : c.isDigit = true) : c.toUpper = c := by
  refine Char.toUpper_eq_of_not_isLower fun hl => ?_
  simp [not_isDigit_of_isAlpha (c := c) (by simp [Char.isAlpha, hl])] at hd

theorem isAlphanum_toLower : c.toLower.isAlphanum = c.isAlphanum := by
  simp [Char.isAlphanum, isDigit_toLower]

theorem isAlphanum_toUpper : c.toUpper.isAlphanum = c.isAlphanum := by
  simp [Char.isAlphanum, isDigit_toUpper]

theorem ne_underscore (hc : c.isAlphanum = true) : c ≠ '_' := by
  rintro rfl
  exact nomatch hc

-- What makes up a word.
structure Plain (w : Word) : Prop where
  ne_nil : w ≠ []
  alphanum : ∀ c ∈ w, c.isAlphanum = true

theorem goesOn_append_separator (hx : x.isAlphanum = false) :
    goesOn c (a ++ x :: b) = goesOn c a := by
  cases a
  case nil => simp [goesOn, hx]
  case cons d rest =>
    cases rest
    case cons => rfl
    case nil =>
      have hl : x.isLower = false := by
        simp only [Char.isAlphanum, Char.isAlpha, Bool.or_eq_false_iff] at hx
        exact hx.left.right
      simp [goesOn, startsAt, hl]

theorem split_cons_ne_nil (hc : c.isAlphanum = true) : split (c :: cs) ≠ [] := by
  induction cs generalizing c
  case nil => simp [split, hc, goesOn]
  case cons d rest hi =>
    rw [split]
    split
    case isTrue h => simp [hc] at h
    case isFalse =>
      split
      case isTrue hg =>
        simp only [goesOn, Bool.and_eq_true] at hg
        exact List.modifyHead_eq_nil_iff.not.mpr (hi hg.left)
      case isFalse => exact List.cons_ne_nil _ _

-- A character that belongs to no word separates the words on both sides of it.
theorem split_append_separator (hx : x.isAlphanum = false) :
    split (a ++ x :: b) = split a ++ split b := by
  induction a
  case nil => simp [split, hx]
  case cons c rest hi =>
    rw [List.cons_append, split, split, goesOn_append_separator hx, hi]
    split
    case isTrue => rfl
    case isFalse =>
      split
      case isFalse => rfl
      case isTrue hg =>
        cases rest
        case nil => simp [goesOn] at hg
        case cons d rest =>
          simp only [goesOn, Bool.and_eq_true] at hg
          have hne : split (d :: rest) ≠ [] := split_cons_ne_nil hg.left
          have ⟨w, ws, h⟩ := List.exists_cons_of_ne_nil hne
          rw [h]
          rfl

theorem split_eq_nil (h : ∀ c ∈ cs, c.isAlphanum = false) : split cs = [] := by
  induction cs
  case nil => rfl
  case cons c rest hi =>
    have ⟨hc, hr⟩ := List.forall_mem_cons.mp h
    simp [split, hc, hi hr]

theorem split_append_of_not_alphanum (h : ∀ c ∈ b, c.isAlphanum = false) : split (a ++ b) = split a := by
  cases b
  case nil => rw [List.append_nil]
  case cons c rest =>
    have ⟨hc, hr⟩ := List.forall_mem_cons.mp h
    rw [split_append_separator hc, split_eq_nil hr, List.append_nil]

theorem Plain.cons (hc : c.isAlphanum = true) (hw : ∀ c ∈ w, c.isAlphanum = true) : Plain (c :: w) :=
  ⟨List.cons_ne_nil _ _, List.forall_mem_cons.mpr ⟨hc, hw⟩⟩

-- A word stays one, in whatever case its letters are.
theorem Plain.lower (p : w.Plain) : w.lower.Plain where
  ne_nil := by simpa [Word.lower] using p.ne_nil
  alphanum := by simpa [Word.lower, isAlphanum_toLower] using p.alphanum

theorem Plain.upper (p : w.Plain) : w.upper.Plain where
  ne_nil := by simpa [Word.upper] using p.ne_nil
  alphanum := by simpa [Word.upper, isAlphanum_toUpper] using p.alphanum

theorem split_plain : ∀ w ∈ split cs, w.Plain := by
  induction cs
  case nil => simp [split]
  case cons c rest hi =>
    rw [split]
    split
    case isTrue => exact hi
    case isFalse hc =>
      have hc : c.isAlphanum = true := by simpa using hc
      split
      case isFalse => exact List.forall_mem_cons.mpr ⟨.cons hc (by simp), hi⟩
      case isTrue =>
        cases h : split rest
        case nil => simp
        case cons w ws =>
          have ⟨hw, hws⟩ := List.forall_mem_cons.mp (h ▸ hi)
          exact List.forall_mem_cons.mpr ⟨.cons hc hw.alphanum, hws⟩

-- A character at which another word of a joined name starts.
def breaksAt (c : Char) : Bool :=
  c == '_' || c.isUpper

-- The words of a joined name, in lowercase.
def regroup : List Char → List Word
  | [] => []
  | c :: rest =>
    if c = '_' then regroup rest
    else if rest.head?.all breaksAt then [c.toLower] :: regroup rest
    else (regroup rest).modifyHead (c.toLower :: ·)

-- A word in front of a joined name: it ends where another one starts, and else the first word of the
-- name goes on with it.
def leading (w : Word) (rest : List Char) : List Word :=
  if rest.head?.all breaksAt then lower w :: regroup rest
  else (regroup rest).modifyHead (lower w ++ ·)

theorem regroup_append {rest : List Char} (hc : c ≠ '_') (hw : ∀ d ∈ w, breaksAt d = false) :
    regroup (c :: w ++ rest) = leading (c :: w) rest := by
  induction w generalizing c
  case nil => simp [regroup, leading, hc, lower]
  case cons d w hi =>
    have ⟨hd, hw⟩ := List.forall_mem_cons.mp hw
    have hne : d ≠ '_' := by
      rintro rfl
      exact nomatch hd
    have hh : ((d :: w ++ rest).head?.all breaksAt) = false := hd
    rw [List.cons_append, regroup, if_neg hc, if_neg (by simpa using hh), hi hne hw, leading, leading]
    split <;> simp [lower, Function.comp_def]

theorem breaksAt_toUpper (hc : c.isAlphanum = true) (hd : c.isDigit = false) : breaksAt c.toUpper = true := by
  have ha : c.isAlpha = true := by simpa [Char.isAlphanum, hd] using hc
  simp [breaksAt, ha]

theorem not_breaksAt_toLower (hc : c.isAlphanum = true) : breaksAt c.toLower = false := by
  simp [breaksAt, ne_underscore (isAlphanum_toLower.trans hc)]

theorem not_breaksAt_lower (hw : ∀ c ∈ w, c.isAlphanum = true) : ∀ d ∈ lower w, breaksAt d = false := by
  intro d hd
  have ⟨c, hc, heq⟩ := List.mem_map.mp hd
  exact heq ▸ not_breaksAt_toLower (hw c hc)

theorem lower_cons : lower (c :: w) = c.toLower :: lower w :=
  rfl

@[simp]
theorem lower_lower : lower (lower w) = lower w := by
  simp [lower]

@[simp]
theorem lower_upper : lower (upper w) = lower w := by
  simp [lower, upper]

@[simp]
theorem upper_lower : upper (lower w) = upper w := by
  simp [lower, upper]

@[simp]
theorem capital_lower : capital (lower w) = capital w := by
  cases w <;> simp [lower, capital]

@[simp]
theorem humped_lower : humped (lower w) = humped w := by
  cases w
  case nil => rfl
  case cons c w =>
    rw [lower_cons, humped, humped, lower_lower, isDigit_toLower, Char.toUpper_toLower_eq_toUpper]
    split
    case isTrue hd => rw [toLower_of_isDigit hd]
    case isFalse   => rfl

section Leading

variable {rest : List Char}

theorem leading_of_breaksAt (hr : rest.head?.all breaksAt = true) :
    leading w rest = lower w :: regroup rest :=
  if_pos hr

theorem leading_congr {v : Word} (h : lower w = lower v) : leading w rest = leading v rest := by
  rw [leading, leading, h]

theorem regroup_lower (hw : w.Plain) : regroup (lower w ++ rest) = leading w rest := by
  cases w
  case nil => exact absurd rfl hw.ne_nil
  case cons c w =>
    have ⟨hc, ha⟩ := List.forall_mem_cons.mp hw.alphanum
    rw [lower_cons, regroup_append (ne_underscore (isAlphanum_toLower.trans hc)) (not_breaksAt_lower ha)]
    exact leading_congr (by simp [lower])

theorem regroup_capital (hw : w.Plain) : regroup (capital w ++ rest) = leading w rest := by
  cases w
  case nil => exact absurd rfl hw.ne_nil
  case cons c w =>
    have ⟨hc, ha⟩ := List.forall_mem_cons.mp hw.alphanum
    rw [capital, regroup_append (ne_underscore (isAlphanum_toUpper.trans hc)) (not_breaksAt_lower ha)]
    exact leading_congr (by simp [lower])

-- The hump of a word starts with a letter in uppercase, or else with an underscore.
theorem regroup_humped (hw : w.Plain) : regroup (humped w ++ rest) = leading w rest := by
  cases w
  case nil => exact absurd rfl hw.ne_nil
  case cons c w =>
    have ⟨hc, ha⟩ := List.forall_mem_cons.mp hw.alphanum
    rw [humped]
    split
    case isFalse => exact regroup_capital hw
    case isTrue =>
      rw [List.cons_append, regroup, if_pos rfl, regroup_append (ne_underscore hc) (not_breaksAt_lower ha)]
      exact leading_congr (by simp [lower])

theorem exists_humped (hw : w.Plain) : ∃ c cs, humped w = c :: cs ∧ breaksAt c = true := by
  cases w
  case nil => exact absurd rfl hw.ne_nil
  case cons c w =>
    have hc := hw.alphanum c List.mem_cons_self
    rw [humped]
    split
    case isTrue => exact ⟨'_', _, rfl, rfl⟩
    case isFalse hd => exact ⟨c.toUpper, _, rfl, breaksAt_toUpper hc (by simpa using hd)⟩

theorem head_humped (hw : w.Plain) : (humped w ++ rest).head?.all breaksAt = true := by
  obtain ⟨c, cs, h, hc⟩ := exists_humped hw
  simp [h, hc]

variable (hw : ∀ w ∈ ws, w.Plain) (hr : rest.head?.all breaksAt = true)
include hw hr

theorem head_flatMap_humped : (ws.flatMap humped ++ rest).head?.all breaksAt = true := by
  cases ws
  case nil => exact hr
  case cons w ws =>
    rw [List.flatMap_cons, List.append_assoc]
    exact head_humped (hw w List.mem_cons_self)

theorem regroup_flatMap_humped : regroup (ws.flatMap humped ++ rest) = ws.map lower ++ regroup rest := by
  induction ws
  case nil => rfl
  case cons w ws hi =>
    have ⟨hw, hws⟩ := List.forall_mem_cons.mp hw
    rw [List.flatMap_cons, List.append_assoc, regroup_humped hw, leading_of_breaksAt (head_flatMap_humped hws hr),
      hi hws]
    rfl

end Leading

end Word

namespace Casing

variable {c d : Casing} {w : Word} {ws vs : List Word}

theorem snake_cons_cons {v : Word} :
    snake.joinWords (w :: v :: ws) = w.lower ++ '_' :: snake.joinWords (v :: ws) := by
  simp [joinWords, List.intercalate]

theorem constant_cons_cons {v : Word} :
    constant.joinWords (w :: v :: ws) = w.upper ++ '_' :: constant.joinWords (v :: ws) := by
  simp [joinWords, List.intercalate]

-- Words in constant case are those in snake case, in uppercase.
theorem lower_constant : Word.lower (constant.joinWords ws) = snake.joinWords ws := by
  induction ws
  case nil => rfl
  case cons w ws hi =>
    cases ws
    case nil => simp [joinWords]
    case cons =>
      rw [constant_cons_cons, snake_cons_cons, ← hi]
      simp [Word.lower, Word.upper]

theorem lower_snake : Word.lower (snake.joinWords ws) = snake.joinWords ws := by
  rw [← lower_constant, Word.lower_lower]

theorem regroup_snake (hp : ∀ w ∈ ws, w.Plain) : Word.regroup (snake.joinWords ws) = ws.map Word.lower := by
  induction ws
  case nil => rfl
  case cons w ws hi =>
    have ⟨hw, hws⟩ := List.forall_mem_cons.mp hp
    cases ws
    case nil =>
      have h : Word.regroup (w.lower ++ []) = [w.lower] := Word.regroup_lower hw
      simpa [joinWords] using h
    case cons v ws =>
      have hr : ('_' :: snake.joinWords (v :: ws)).head?.all Word.breaksAt = true := rfl
      rw [snake_cons_cons, Word.regroup_lower hw, Word.leading_of_breaksAt hr, Word.regroup, if_pos rfl, hi hws]
      rfl

-- What follows a joined name can only change its last word.
theorem regroup_pascal_concat (hp : ∀ v ∈ ws ++ [w], v.Plain) (rest : List Char) :
    Word.regroup (pascal.joinWords (ws ++ [w]) ++ rest) = ws.map Word.lower ++ w.leading rest := by
  have ⟨hws, hw⟩ := List.forall_mem_append.mp hp
  have hw : w.Plain := hw w List.mem_cons_self
  cases ws
  case nil => simp [joinWords, Word.regroup_capital hw]
  case cons u ws =>
    have ⟨hu, hws⟩ := List.forall_mem_cons.mp hws
    have hr : (w.humped ++ rest).head?.all Word.breaksAt = true := Word.head_humped hw
    rw [List.cons_append, joinWords, List.flatMap_append, List.flatMap_singleton, List.append_assoc,
      List.append_assoc, Word.regroup_capital hu, Word.leading_of_breaksAt (Word.head_flatMap_humped hws hr),
      Word.regroup_flatMap_humped hws hr, Word.regroup_humped hw]
    rfl

theorem regroup_pascal_append {rest : List Char} (hw : ∀ w ∈ ws, w.Plain)
    (hr : rest.head?.all Word.breaksAt = true) :
    Word.regroup (pascal.joinWords ws ++ rest) = ws.map Word.lower ++ Word.regroup rest := by
  rcases ws.eq_nil_or_concat' with rfl | ⟨ws, w, rfl⟩
  · rfl
  · simp [regroup_pascal_concat hw, Word.leading_of_breaksAt hr]

theorem regroup_joinWords (hc : c ≠ constant) (hw : ∀ w ∈ ws, w.Plain) :
    Word.regroup (c.joinWords ws) = ws.map Word.lower := by
  have hr : ([] : List Char).head?.all Word.breaksAt = true := rfl
  cases c
  case constant => exact absurd rfl hc
  case snake    => exact regroup_snake hw
  case pascal   => simpa [Word.regroup] using regroup_pascal_append hw hr
  case camel =>
    cases ws
    case nil => rfl
    case cons w ws =>
      have ⟨hw, hws⟩ := List.forall_mem_cons.mp hw
      have hh := Word.head_flatMap_humped hws hr
      have h := Word.regroup_flatMap_humped hws hr
      rw [List.append_nil] at hh h
      rw [joinWords, Word.regroup_lower hw, Word.leading_of_breaksAt hh, h, Word.regroup, List.append_nil]
      rfl

-- Casings that tell words apart in the same way: where a name has no letters in lowercase, the
-- letters in uppercase do not tell where a word starts.
def Alike (c d : Casing) : Prop :=
  (c ≠ constant ∧ d ≠ constant) ∨ (c ∈ [constant, snake] ∧ d ∈ [constant, snake])

instance : DecidableRel Alike :=
  fun _ _ => inferInstanceAs (Decidable (_ ∨ _))

theorem lower_joinWords (hc : c ∈ [constant, snake]) : Word.lower (c.joinWords ws) = snake.joinWords ws := by
  rcases List.mem_pair.mp hc with rfl | rfl
  · exact lower_constant
  · exact lower_snake

-- Alike casings give two lists of words one name only if they differ in nothing but case.
theorem map_lower_eq_of_joinWords_eq (ha : c.Alike d) (hw : ∀ w ∈ ws, w.Plain) (hv : ∀ v ∈ vs, v.Plain)
    (h : c.joinWords ws = d.joinWords vs) : ws.map Word.lower = vs.map Word.lower := by
  cases ha
  case inl ha => rw [← regroup_joinWords ha.left hw, ← regroup_joinWords ha.right hv, h]
  case inr ha =>
    have h := congrArg Word.lower h
    rw [lower_joinWords ha.left, lower_joinWords ha.right] at h
    rw [← regroup_snake hw, ← regroup_snake hv, h]

theorem joinWords_map_lower : c.joinWords (ws.map Word.lower) = c.joinWords ws := by
  cases c <;> cases ws <;> simp [joinWords, List.flatMap_map, Function.comp_def]

theorem joinWords_eq_of_map_lower_eq (h : ws.map Word.lower = vs.map Word.lower) :
    c.joinWords ws = c.joinWords vs := by
  rw [← joinWords_map_lower, h, joinWords_map_lower]

theorem alike_self (c : Casing) : c.Alike c := by
  cases c <;> decide

end Casing

-- The words of a text without regard to the case of their letters.
def lowerWords (s : String) : List String :=
  (words s).map String.toLower

theorem toLower_ofList (w : Word) : (String.ofList w).toLower = String.ofList w.lower := by
  apply String.toList_injective
  simp [String.toLower, Word.lower]

theorem lowerWords_eq (s : String) :
    lowerWords s = ((Word.split s.toList).map Word.lower).map String.ofList := by
  simp [lowerWords, words, toLower_ofList]

theorem lowerWords_eq_iff {s t : String} : lowerWords s = lowerWords t ↔
    (Word.split s.toList).map Word.lower = (Word.split t.toList).map Word.lower := by
  rw [lowerWords_eq, lowerWords_eq]
  exact List.map_inj_right fun _ _ => String.ofList_injective

namespace Casing

variable {c : Casing} {s t : String}

-- What a casing keeps of a text, and all that it keeps, are the words up to case.
theorem apply_eq_iff : c.apply s = c.apply t ↔ lowerWords s = lowerWords t := by
  rw [lowerWords_eq_iff]
  constructor
  · intro h
    exact map_lower_eq_of_joinWords_eq c.alike_self Word.split_plain Word.split_plain
      (String.ofList_injective h)
  · intro h
    exact congrArg String.ofList (joinWords_eq_of_map_lower_eq h)

end Casing

theorem casing_collisions (c d : Casing) (s t : String) :
    (c.apply s = c.apply t ↔ d.apply s = d.apply t) ∧
      (c.apply s = c.apply t ↔ lowerWords s = lowerWords t) :=
  ⟨Casing.apply_eq_iff.trans Casing.apply_eq_iff.symm, Casing.apply_eq_iff⟩

end ProtoTypings
