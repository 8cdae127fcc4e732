import Mathlib
import ProtoTypings.Proofs.Casing

namespace ProtoTypings

namespace Word

variable {c d : Char} {rest : List Char} {w : Word}

theorem goesOn_of_not_isUpper (hd : d.isAlphanum = true) (hu : d.isUpper = false) :
    goesOn c (d :: rest) = true := by
  simp [goesOn, startsAt, hd, hu]

-- Without letters in uppercase there is no place for another word to start at.
theorem split_of_not_isUpper (hp : w.Plain) (hu : ∀ c ∈ w, c.isUpper = false) : split w = [w] := by
  obtain ⟨hne, ha⟩ := hp
  induction w
  case nil => exact absurd rfl hne
  case cons c w hi =>
    cases w
    case nil => simp [split, goesOn, ha c List.mem_cons_self]
    case cons d w =>
      obtain ⟨hc, ha⟩ := List.forall_mem_cons.mp ha
      obtain ⟨-, hu⟩ := List.forall_mem_cons.mp hu
      have on : goesOn c (d :: w) = true :=
        goesOn_of_not_isUpper (ha d List.mem_cons_self) (hu d List.mem_cons_self)
      rw [split, hi hu (List.cons_ne_nil d w) ha]
      simp [hc, on]

theorem split_lower (hp : w.Plain) : split (lower w) = [lower w] :=
  split_of_not_isUpper hp.lower <| List.forall_mem_map.mpr fun c _ => c.isUpper_toLower_eq_false

end Word

namespace Casing

variable {ws : List Word}

-- The underscores hold the words of a name in snake case apart, and nothing else does.
theorem split_snake (hp : ∀ w ∈ ws, w.Plain) : Word.split (snake.joinWords ws) = ws.map Word.lower := by
  have underscore : '_'.isAlphanum = false := rfl
  induction ws
  case nil => rfl
  case cons w ws hi =>
    obtain ⟨hw, hws⟩ := List.forall_mem_cons.mp hp
    cases ws
    case nil => simpa [joinWords] using Word.split_lower hw
    case cons v ws =>
      rw [snake_cons_cons, Word.split_append_separator underscore, Word.split_lower hw, hi hws]
      rfl

theorem words_snake (s : String) : words (snake.apply s) = lowerWords s := by
  rw [words, apply, String.toList_ofList, split_snake Word.split_plain, lowerWords_eq]

theorem lowerWords_snake (s : String) : lowerWords (snake.apply s) = lowerWords s := by
  rw [lowerWords, words_snake, lowerWords_eq]
  simp [toLower_ofList]

end Casing

theorem snake_normal_form (s : String) :
    (∀ c : Casing, c.apply (Casing.snake.apply s) = c.apply s) ∧
      Casing.snake.apply (Casing.snake.apply s) = Casing.snake.apply s ∧
      words (Casing.snake.apply s) = (words s).map String.toLower := by
  have same (c : Casing) : c.apply (Casing.snake.apply s) = c.apply s :=
    Casing.apply_eq_iff.mpr (Casing.lowerWords_snake s)
  exact ⟨same, same .snake, Casing.words_snake s⟩

end ProtoTypings
