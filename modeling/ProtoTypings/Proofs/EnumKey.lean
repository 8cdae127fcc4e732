import Mathlib
import ProtoTypings.Generation
import ProtoTypings.Proofs.Casing

namespace ProtoTypings

namespace Word

variable {w more : Word}

theorem Plain.exists_head (hw : w.Plain) : ∃ c, w.head? = some c ∧ c.isAlphanum = true := by
  obtain ⟨c, cs, rfl⟩ := List.exists_cons_of_ne_nil hw.ne_nil
  exact ⟨c, rfl, hw.alphanum c List.mem_cons_self⟩

theorem exists_regroup_cons {c : Char} (hc : c ≠ '_') (rest : List Char) :
    ∃ w ws, regroup (c :: rest) = (c.toLower :: w) :: ws := by
  induction rest generalizing c
  case nil => exact ⟨[], [], by simp [regroup, hc]⟩
  case cons d rest hi =>
    rw [regroup, if_neg hc]
    split
    case isTrue => exact ⟨[], _, rfl⟩
    case isFalse hd =>
      have hne : d ≠ '_' := by
        rintro rfl
        exact hd rfl
      obtain ⟨w, ws, h⟩ := hi hne
      exact ⟨d.toLower :: w, ws, by rw [h, List.modifyHead_cons]⟩

theorem capital_append (hw : w ≠ []) : capital (w ++ more) = capital w ++ lower more := by
  cases w
  case nil  => contradiction
  case cons => simp [capital, lower]

theorem humped_append (hw : w ≠ []) : humped (w ++ more) = humped w ++ lower more := by
  cases w
  case nil => contradiction
  case cons =>
    rw [List.cons_append, humped, humped]
    split <;> simp [lower]

theorem capital_of_digit (h : w.head?.any Char.isDigit = true) : capital w = lower w := by
  cases w
  case nil => rfl
  case cons c w =>
    have hd : c.isDigit = true := by simpa using h
    rw [capital, lower_cons, toUpper_of_isDigit hd, toLower_of_isDigit hd]

theorem humped_of_not_digit (h : ¬w.head?.any Char.isDigit = true) : humped w = capital w := by
  cases w
  case nil  => rfl
  case cons c w =>
    have hd : ¬c.isDigit = true := by simpa using h
    rw [humped, if_neg hd, capital]

end Word

section Attach

variable {es vs front rest : List String} {v last more : String}

def startsDigit (w : String) : Bool :=
  w.toList.head?.any Char.isDigit

-- The words of a joined name with another one right behind it: a digit goes on with the word before it.
def attach (es : List String) : List String → List String
  | [] => es
  | v :: vs => if startsDigit v then es.modifyLast (· ++ v) ++ vs else es ++ v :: vs

theorem attach_concat (h : startsDigit v = true) :
    attach (front ++ [last]) (v :: vs) = front ++ (last ++ v) :: vs := by
  simp [attach, h, List.modifyLast_concat]

-- The first words are those that the second ones have in front, except that the last of them goes on with
-- a digit there.
def endInside : List String → List String → Bool
  | e :: es, v :: vs =>
    if es = [] then (Text.stripFront? e v).any startsDigit
    else e = v && endInside es vs
  | _, _ => false

theorem endInside_append (h : startsDigit more = true) :
    endInside (front ++ [last]) (front ++ (last ++ more) :: rest) = true := by
  induction front
  case nil         => simp [endInside, Text.stripFront?_eq_some_iff.mpr rfl, h]
  case cons _ _ hi => simp [endInside, hi]

theorem exists_of_endInside (h : endInside es vs = true) : ∃ front last more rest,
    es = front ++ [last] ∧ vs = front ++ (last ++ more) :: rest ∧ startsDigit more = true := by
  induction es generalizing vs
  case nil => contradiction
  case cons e es hi =>
    cases vs
    case nil => contradiction
    case cons v vs =>
      rw [endInside] at h
      split at h
      case isTrue hn =>
        obtain ⟨more, hm, hd⟩ := Option.any_eq_true .. |>.mp h
        exact ⟨[], e, more, vs, by rw [hn]; rfl, by rw [Text.stripFront?_eq_some_iff.mp hm]; rfl, hd⟩
      case isFalse =>
        obtain ⟨rfl, hs⟩ : e = v ∧ endInside es vs = true := by simpa using h
        obtain ⟨front, last, more, rest, rfl, rfl, hd⟩ := hi hs
        exact ⟨e :: front, last, more, rest, rfl, rfl, hd⟩

theorem endInside_iff : endInside es vs = true ↔
    es ≠ [] ∧ ∃ w ws, startsDigit w = true ∧ vs = attach es (w :: ws) := by
  constructor
  case mp =>
    intro h
    obtain ⟨front, last, more, rest, rfl, rfl, hd⟩ := exists_of_endInside h
    exact ⟨by simp, more, rest, hd, (attach_concat hd).symm⟩
  case mpr =>
    rintro ⟨hne, w, ws, hd, rfl⟩
    rcases es.eq_nil_or_concat' with rfl | ⟨front, last, rfl⟩
    case inl => contradiction
    case inr => rw [attach_concat hd, endInside_append hd]

end Attach

section Joined

variable {es vs : List String}

-- Words as they stand in a name.
def joined (ws : List String) : String :=
  String.ofList (Casing.pascal.joinWords (ws.map String.toList))

-- Words as they follow others in a name.
def humps (ws : List String) : String :=
  String.ofList (ws.flatMap fun w => Word.humped w.toList)

theorem joined_append (h : es ≠ []) : joined (es ++ vs) = joined es ++ humps vs := by
  obtain ⟨e, es, rfl⟩ := List.exists_cons_of_ne_nil h
  apply String.toList_injective
  simp [joined, humps, Casing.joinWords, List.flatMap_map]

theorem joined_attach (he : ∀ w ∈ es, Word.Plain w.toList) (hne : es ≠ []) :
    joined (attach es vs) = joined es ++ joined vs := by
  apply String.toList_injective
  cases vs
  case nil => simp [attach, joined, Casing.joinWords]
  case cons v vs =>
    by_cases hd : startsDigit v = true
    case neg =>
      rw [attach, if_neg hd, joined_append hne]
      simp [joined, humps, Casing.joinWords, List.flatMap_map, Word.humped_of_not_digit hd]
    case pos =>
      rcases es.eq_nil_or_concat' with rfl | ⟨front, last, rfl⟩
      case inl => contradiction
      case inr =>
        have hl : last.toList ≠ [] := (he last (by simp)).ne_nil
        rw [attach_concat hd]
        cases front
        case nil =>
          simp [joined, Casing.joinWords, List.flatMap_map, Word.capital_append hl, Word.capital_of_digit hd]
        case cons =>
          simp [joined, Casing.joinWords, List.flatMap_map, Word.humped_append hl, Word.capital_of_digit hd]

theorem head_joined {w : String} {c : Char} (hw : w.toList.head? = some c) :
    (joined (w :: vs)).toList.head? = some c.toUpper := by
  obtain ⟨cs, h⟩ := List.head?_eq_some_iff.mp hw
  simp [joined, Casing.joinWords, Word.capital, h]

end Joined

section LowerWords

variable {s e u v rest : String} {ws : List String}

theorem plain_of_mem_lowerWords {w : String} (h : w ∈ lowerWords s) : Word.Plain w.toList := by
  rw [lowerWords_eq, List.map_map] at h
  obtain ⟨u, hu, rfl⟩ := List.mem_map.mp h
  have plain := Word.split_plain u hu
  constructor
  case ne_nil   => simpa [Word.lower] using plain.ne_nil
  case alphanum => simpa [Word.lower, Word.isAlphanum_toLower] using plain.alphanum

theorem lowerWords_eq_regroup (s : String) :
    lowerWords s = (Word.regroup (Casing.pascal.apply s).toList).map String.ofList := by
  rw [Casing.apply, String.toList_ofList, Casing.regroup_joinWords (by decide) Word.split_plain, lowerWords_eq]

theorem pascal_eq (s : String) : Casing.pascal.apply s = joined (lowerWords s) := by
  simp [joined, Casing.apply, lowerWords_eq, Function.comp_def, Casing.joinWords_map_lower]

theorem pascal_eq_empty_iff : Casing.pascal.apply s = "" ↔ lowerWords s = [] := by
  constructor
  · intro h
    rw [lowerWords_eq_regroup, h]
    rfl
  · intro h
    rw [pascal_eq, h]
    rfl

theorem pascal_of_lowerWords (h : lowerWords v = lowerWords e ++ ws) (he : lowerWords e ≠ []) :
    Casing.pascal.apply v = Casing.pascal.apply e ++ humps ws := by
  rw [pascal_eq, pascal_eq, h, joined_append he]

theorem pascal_of_attach (h : lowerWords v = attach (lowerWords e) ws) (he : lowerWords e ≠ []) :
    Casing.pascal.apply v = Casing.pascal.apply e ++ joined ws := by
  rw [pascal_eq, pascal_eq, h, joined_attach (fun _ => plain_of_mem_lowerWords) he]

-- What follows a name starts with a word of its own, or with a digit that goes on with its last word.
theorem lowerWords_of_breaksAt (h : Casing.pascal.apply v = Casing.pascal.apply e ++ rest)
    (hr : rest.toList.head?.all Word.breaksAt = true) :
    lowerWords v = lowerWords e ++ (Word.regroup rest.toList).map String.ofList := by
  rw [lowerWords_eq_regroup, h, String.toList_append, Casing.apply, String.toList_ofList,
    Casing.regroup_pascal_append Word.split_plain hr, List.map_append, ← lowerWords_eq]

theorem lowerWords_of_startsDigit (h : Casing.pascal.apply v = Casing.pascal.apply e ++ rest)
    (he : lowerWords e ≠ []) (hr : startsDigit rest = true) : ∃ w ws, startsDigit w = true ∧
      (Word.regroup rest.toList).map String.ofList = w :: ws ∧
      lowerWords v = attach (lowerWords e) (w :: ws) := by
  obtain ⟨d, hd, digit⟩ := Option.any_eq_true .. |>.mp hr
  obtain ⟨t, ht⟩ := List.head?_eq_some_iff.mp hd
  have hb : Word.breaksAt d = false := by
    rw [← Word.toLower_of_isDigit digit]
    exact Word.not_breaksAt_toLower (by simp [Char.isAlphanum, digit])
  have hne : d ≠ '_' := by
    rintro rfl
    contradiction
  obtain ⟨more, tail, hm⟩ := Word.exists_regroup_cons hne t
  have hs : startsDigit (String.ofList (d.toLower :: more)) = true := by
    simpa [startsDigit, Word.isDigit_toLower] using digit
  refine ⟨_, tail.map String.ofList, hs, by rw [ht, hm, List.map_cons], ?_⟩
  rcases (Word.split e.toList).eq_nil_or_concat' with he' | ⟨ws, w, he'⟩
  case inl => simp [lowerWords_eq, he'] at he
  case inr =>
    have front : lowerWords e = ws.map (String.ofList ∘ Word.lower) ++ [String.ofList w.lower] := by
      simp [lowerWords_eq, he']
    have plain : ∀ u ∈ ws ++ [w], u.Plain := he' ▸ Word.split_plain
    rw [front, attach_concat hs, lowerWords_eq_regroup, h, String.toList_append, Casing.apply,
      String.toList_ofList, he', ht, Casing.regroup_pascal_concat plain, Word.leading]
    simp [hb, hm]

theorem pascal_append_iff (he : lowerWords e ≠ []) :
    Casing.pascal.apply u = Casing.pascal.apply e ++ Casing.pascal.apply v ↔
      lowerWords u = attach (lowerWords e) (lowerWords v) := by
  constructor
  case mpr =>
    intro h
    rw [pascal_of_attach h he, ← pascal_eq]
  case mp =>
    intro h
    cases hv : lowerWords v
    case nil =>
      rw [pascal_eq_empty_iff.mpr hv, String.append_empty] at h
      exact Casing.apply_eq_iff.mp h
    case cons w ws =>
      obtain ⟨c, hc, alphanum⟩ := (plain_of_mem_lowerWords (hv ▸ List.mem_cons_self)).exists_head
      have hp : (Casing.pascal.apply v).toList.head? = some c.toUpper := by rw [pascal_eq, hv, head_joined hc]
      by_cases hd : startsDigit w = true
      case pos =>
        have digit : c.isDigit = true := by simpa [startsDigit, hc] using hd
        have hs : startsDigit (Casing.pascal.apply v) = true := by
          simp [startsDigit, hp, Word.isDigit_toUpper, digit]
        obtain ⟨_, _, -, hg, hu⟩ := lowerWords_of_startsDigit h he hs
        rw [hu, ← hg, ← lowerWords_eq_regroup, hv]
      case neg =>
        have digit : c.isDigit = false := by simpa [startsDigit, hc] using hd
        have hb : (Casing.pascal.apply v).toList.head?.all Word.breaksAt = true := by
          simp [hp, Word.breaksAt_toUpper alphanum digit]
        rw [lowerWords_of_breaksAt h hb, ← lowerWords_eq_regroup, hv, attach, if_neg hd]

end LowerWords

namespace Identifier

variable {enum value u v : String}

section Words

variable {es us vs : List String}

-- The words of a value have those of its enum in front, and more behind them.
def Stutters (es ws : List String) : Prop :=
  es ≠ [] ∧ es <+: ws ∧ es ≠ ws

-- Where the words of the enum end, the value goes on with a digit in the middle of a word.
def CutsWord (es ws : List String) : Prop :=
  es ≠ [] ∧ ∃ v vs, startsDigit v = true ∧ ws = attach es (v :: vs)

-- The values whose keys are without the name of the enum.
def Shortened (es ws : List String) : Prop :=
  Stutters es ws ∨ CutsWord es ws

-- The words of a value are those of the enum and then those of another value, whose key is all of it. A digit
-- there is told from the same digit at the beginning of a name.
def Repeats (es us vs : List String) : Prop :=
  es ≠ [] ∧ us = es ++ vs ∧ (vs.head?.any fun v => !startsDigit v) = true ∧ ¬Stutters es vs

-- Two values that get one key if neither cuts a word.
def Meet (es us vs : List String) : Prop :=
  us = vs ∨ Repeats es us vs ∨ Repeats es vs us

instance : DecidableRel Stutters :=
  fun _ _ => inferInstanceAs (Decidable (_ ∧ _))

instance : DecidableRel CutsWord :=
  fun _ _ => decidable_of_iff _ endInside_iff

instance (es us vs : List String) : Decidable (Repeats es us vs) :=
  inferInstanceAs (Decidable (_ ∧ _))

instance (es us vs : List String) : Decidable (Meet es us vs) :=
  inferInstanceAs (Decidable (_ ∨ _))

-- The last word of the enum is a longer one in the value.
theorem CutsWord.not_stutters (h : CutsWord es us) : ¬Stutters es us := by
  rintro ⟨-, front_of, -⟩
  obtain ⟨he, v, vs, hd, rfl⟩ := h
  rcases es.eq_nil_or_concat' with rfl | ⟨front, last, rfl⟩
  case inl => contradiction
  case inr =>
    rw [attach_concat hd, List.prefix_append_right_inj, List.cons_prefix_cons] at front_of
    have hv : "" = v := (String.append_right_inj last).mp (String.append_empty.trans front_of.left)
    rw [← hv] at hd
    contradiction

theorem attach_of_head (h : (vs.head?.any fun v => !startsDigit v) = true) : attach es vs = es ++ vs := by
  obtain ⟨v, hv, letter⟩ := Option.any_eq_true .. |>.mp h
  obtain ⟨rest, rfl⟩ := List.head?_eq_some_iff.mp hv
  rw [attach, if_neg (by simpa using letter)]

theorem head_of_attach (whole : ¬CutsWord es (attach es vs)) (he : es ≠ []) (hv : vs ≠ []) :
    (vs.head?.any fun v => !startsDigit v) = true := by
  obtain ⟨v, rest, rfl⟩ := List.exists_cons_of_ne_nil hv
  have letter : ¬startsDigit v = true := fun digit => whole ⟨he, v, rest, digit, rfl⟩
  simpa using letter

theorem Repeats.stutters (h : Repeats es us vs) : Stutters es us := by
  obtain ⟨he, rfl, head, -⟩ := h
  refine ⟨he, List.prefix_append es vs, fun heq => ?_⟩
  rw [List.self_eq_append_right.mp heq] at head
  contradiction

theorem Repeats.not_stutters (h : Repeats es us vs) : ¬Stutters es vs :=
  h.right.right.right

end Words

section Quoting

theorem escape_injective : Function.Injective escape := by
  intro cs ds h
  induction cs generalizing ds
  case nil =>
    cases ds
    case nil => rfl
    case cons d ds =>
      rw [escape, escape] at h
      split at h <;> contradiction
  case cons c cs hi =>
    cases ds
    case nil =>
      rw [escape, escape] at h
      split at h <;> contradiction
    case cons d ds =>
      rw [escape, escape] at h
      split at h <;> split at h <;> simp only [List.cons.injEq] at h
      case isTrue.isTrue       => rw [h.right.left, hi h.right.right]
      case isTrue.isFalse hd   => exact absurd (.inl h.left.symm) hd
      case isFalse.isTrue hc _ => exact absurd (.inl h.left) hc
      case isFalse.isFalse     => rw [h.left, hi h.right]

theorem quote_injective : Function.Injective quote := by
  intro s t h
  have h := String.ofList_injective h
  apply String.toList_injective
  apply escape_injective
  simpa using h

theorem quote_ne_of_isValid {s t : String} (h : isValid s = true) : quote t ≠ s := by
  rintro rfl
  rw [isValid, quote, String.toList_ofList] at h
  simp [isPart, Text.isAlphanumeric] at h

theorem isPart_of_isValid {name : String} (h : isValid name = true) :
    ∀ c ∈ name.toList, isPart c = true := by
  rw [isValid] at h
  split at h
  case h_1 => contradiction
  case h_2 hn =>
    rw [hn]
    exact List.all_eq_true.mp (Bool.and_eq_true .. |>.mp h).right

theorem escape_of_isPart {cs : List Char} (h : ∀ c ∈ cs, isPart c = true) : escape cs = cs := by
  induction cs
  case nil => rfl
  case cons c cs hi =>
    obtain ⟨hc, h⟩ := List.forall_mem_cons.mp h
    rw [escape, if_neg, hi h]
    rintro (rfl | rfl) <;> revert hc <;> decide

-- A key in quotes is none of those without.
theorem enumKey_eq_iff_shortKey_eq : enumKey enum u = enumKey enum v ↔ shortKey enum u = shortKey enum v := by
  rw [enumKey, enumKey]
  constructor
  case mpr =>
    intro h
    rw [h]
  case mp =>
    intro h
    split at h <;> split at h
    case isTrue.isTrue          => exact h
    case isTrue.isFalse valid _ => exact absurd h.symm (quote_ne_of_isValid valid)
    case isFalse.isTrue valid   => exact absurd h (quote_ne_of_isValid valid)
    case isFalse.isFalse        => exact quote_injective h

end Quoting

theorem startsWord_eq (s : String) :
    startsWord s = s.toList.head?.any fun c => Word.breaksAt c || c.isDigit := by
  rw [startsWord]
  congr 1
  funext c
  rw [Word.breaksAt, Bool.or_comm, Bool.or_assoc]

theorem startsWord_humps {ws : List String} (hw : ∀ w ∈ ws, Word.Plain w.toList) (hne : ws ≠ []) :
    startsWord (humps ws) = true := by
  cases ws
  case nil => contradiction
  case cons w ws =>
    obtain ⟨c, cs, h, hc⟩ := Word.exists_humped (hw w List.mem_cons_self)
    simp [startsWord_eq, humps, h, hc]

-- The enum ends where a word of the value does.
theorem stutters_of_breaksAt {rest : String} (h : Casing.pascal.apply value = Casing.pascal.apply enum ++ rest)
    (he : lowerWords enum ≠ []) (hr : rest ≠ "") (hb : rest.toList.head?.all Word.breaksAt = true) :
    Stutters (lowerWords enum) (lowerWords value) := by
  refine ⟨he, ⟨_, (lowerWords_of_breaksAt h hb).symm⟩, fun heq => hr ?_⟩
  rw [← String.append_right_inj (Casing.pascal.apply enum), ← h, String.append_empty,
    Casing.apply_eq_iff.mpr heq.symm]

theorem Stutters.exists_pascal (h : Stutters (lowerWords enum) (lowerWords value)) :
    ∃ rest, Casing.pascal.apply value = Casing.pascal.apply enum ++ rest ∧ startsWord rest = true := by
  obtain ⟨he, ⟨ws, hw⟩, hne⟩ := h
  refine ⟨humps ws, pascal_of_lowerWords hw.symm he, startsWord_humps (fun w hm => ?_) ?_⟩
  · exact plain_of_mem_lowerWords (hw ▸ List.mem_append_right _ hm)
  · rintro rfl
    exact hne (by simpa using hw)

theorem CutsWord.exists_pascal (h : CutsWord (lowerWords enum) (lowerWords value)) :
    ∃ rest, Casing.pascal.apply value = Casing.pascal.apply enum ++ rest ∧ startsWord rest = true := by
  obtain ⟨he, w, ws, hd, hw⟩ := h
  obtain ⟨c, hc, digit⟩ := Option.any_eq_true .. |>.mp hd
  refine ⟨joined (w :: ws), pascal_of_attach hw he, ?_⟩
  simp [startsWord_eq, head_joined hc, Word.isDigit_toUpper, digit]

theorem shortened_iff : Shortened (lowerWords enum) (lowerWords value) ↔ lowerWords enum ≠ [] ∧
    ∃ rest, Casing.pascal.apply value = Casing.pascal.apply enum ++ rest ∧ startsWord rest = true := by
  constructor
  case mp =>
    rintro (h | h) <;> exact ⟨h.left, h.exists_pascal⟩
  case mpr =>
    rintro ⟨he, rest, hp, hs⟩
    rw [startsWord_eq] at hs
    obtain ⟨c, hc, hb⟩ := Option.any_eq_true .. |>.mp hs
    rcases Bool.or_eq_true .. |>.mp hb with hb | hd
    case inl =>
      refine .inl (stutters_of_breaksAt hp he ?_ (by simp [hc, hb]))
      rintro rfl
      contradiction
    case inr =>
      obtain ⟨w, ws, hw, -, hv⟩ := lowerWords_of_startsDigit hp he (by simp [startsDigit, hc, hd])
      exact .inr ⟨he, w, ws, hw, hv⟩

theorem shortKey_of_shortened (h : Shortened (lowerWords enum) (lowerWords value)) :
    Casing.pascal.apply value = Casing.pascal.apply enum ++ shortKey enum value ∧
      startsWord (shortKey enum value) = true := by
  obtain ⟨he, rest, hp, hs⟩ := shortened_iff.mp h
  have hk : shortKey enum value = rest := by
    simp [shortKey, Text.stripFront?_eq_some_iff.mpr hp, pascal_eq_empty_iff, he, hs]
  exact ⟨by rw [hk, hp], hk ▸ hs⟩

theorem shortKey_of_not_shortened (h : ¬Shortened (lowerWords enum) (lowerWords value)) :
    shortKey enum value = Casing.pascal.apply value := by
  rw [shortKey]
  split
  case h_2 => rfl
  case h_1 rest hk =>
    apply if_neg
    rintro ⟨he, hs⟩
    have hp := Text.stripFront?_eq_some_iff.mp hk
    exact h (shortened_iff.mpr ⟨mt pascal_eq_empty_iff.mpr he, rest, hp, hs⟩)

theorem shortKey_of_not_stutters (whole : ¬CutsWord (lowerWords enum) (lowerWords value))
    (h : ¬Stutters (lowerWords enum) (lowerWords value)) : shortKey enum value = Casing.pascal.apply value :=
  shortKey_of_not_shortened (not_or.mpr ⟨h, whole⟩)

-- Only one of the two keys is without the name of the enum.
theorem shortKey_eq_iff_repeats (hu : Stutters (lowerWords enum) (lowerWords u))
    (whole : ¬CutsWord (lowerWords enum) (lowerWords v)) (hv : ¬Stutters (lowerWords enum) (lowerWords v)) :
    shortKey enum u = shortKey enum v ↔ Repeats (lowerWords enum) (lowerWords u) (lowerWords v) := by
  have he : lowerWords enum ≠ [] := hu.left
  obtain ⟨hp, hs⟩ := shortKey_of_shortened (.inl hu)
  constructor
  case mp =>
    intro h
    rw [h, shortKey_of_not_stutters whole hv] at hp hs
    have hw := (pascal_append_iff he).mp hp
    have hne : lowerWords v ≠ [] := by
      intro hn
      rw [pascal_eq_empty_iff.mpr hn] at hs
      contradiction
    have head := head_of_attach (fun cuts => cuts.not_stutters (hw ▸ hu)) he hne
    exact ⟨he, hw.trans (attach_of_head head), head, hv⟩
  case mpr =>
    rintro ⟨-, hw, head, -⟩
    rw [← attach_of_head head, ← pascal_append_iff he] at hw
    rw [shortKey_of_not_stutters whole hv, ← String.append_right_inj (Casing.pascal.apply enum), ← hp, hw]

theorem shortKey_eq_iff (whole : ¬CutsWord (lowerWords enum) (lowerWords u))
    (whole' : ¬CutsWord (lowerWords enum) (lowerWords v)) :
    shortKey enum u = shortKey enum v ↔ Meet (lowerWords enum) (lowerWords u) (lowerWords v) := by
  by_cases hu : Stutters (lowerWords enum) (lowerWords u)
  case pos =>
    have hr' : ¬Repeats (lowerWords enum) (lowerWords v) (lowerWords u) := fun h => h.not_stutters hu
    by_cases hv : Stutters (lowerWords enum) (lowerWords v)
    case pos =>
      have hr : ¬Repeats (lowerWords enum) (lowerWords u) (lowerWords v) := fun h => h.not_stutters hv
      have hk : shortKey enum u = shortKey enum v ↔ lowerWords u = lowerWords v := by
        rw [← Casing.apply_eq_iff (c := .pascal), (shortKey_of_shortened (.inl hu)).left,
          (shortKey_of_shortened (.inl hv)).left, String.append_right_inj]
      simp [hk, Meet, hr, hr']
    case neg =>
      have hw : lowerWords u ≠ lowerWords v := fun h => hv (h ▸ hu)
      simp [shortKey_eq_iff_repeats hu whole' hv, Meet, hw, hr']
  case neg =>
    have hr : ¬Repeats (lowerWords enum) (lowerWords u) (lowerWords v) := fun h => hu h.stutters
    by_cases hv : Stutters (lowerWords enum) (lowerWords v)
    case pos =>
      have hw : lowerWords u ≠ lowerWords v := fun h => hu (h ▸ hv)
      simp [eq_comm.trans (shortKey_eq_iff_repeats hv whole hu), Meet, hw, hr]
    case neg =>
      have hr' : ¬Repeats (lowerWords enum) (lowerWords v) (lowerWords u) := fun h => hv h.stutters
      simp [shortKey_of_not_stutters whole hu, shortKey_of_not_stutters whole' hv, Casing.apply_eq_iff, Meet, hr, hr']

theorem enumKey_eq_iff (whole : ¬CutsWord (lowerWords enum) (lowerWords u))
    (whole' : ¬CutsWord (lowerWords enum) (lowerWords v)) :
    enumKey enum u = enumKey enum v ↔ Meet (lowerWords enum) (lowerWords u) (lowerWords v) := by
  rw [enumKey_eq_iff_shortKey_eq, shortKey_eq_iff whole whole']

end Identifier

theorem Generation.declarationFor_enum (run : Generation) {e : Entry} {values : List EnumValue}
    (hv : run.graph.enumValues? e.node = some values) (style : run.settings.enumStyle = .enum) (m : Mapping) :
    (run.declarationFor m e).result = .ok (some (.enum {
      name := e.name
      members := values.map fun v => (Identifier.enumKey (run.graph.name e.node) v.name, v.name) })) := by
  simp only [declarationFor, hv, enumFor, style]
  rfl

theorem enum_keys_nodup_iff (run : Generation) {e : Entry} {values : List EnumValue}
    (hv : run.graph.enumValues? e.node = some values) (style : run.settings.enumStyle = .enum) (m : Mapping)
    (whole : ∀ v ∈ values, ¬Identifier.CutsWord (lowerWords (run.graph.name e.node)) (lowerWords v.name)) :
    ∃ decl, (run.declarationFor m e).result = .ok (some (.enum decl)) ∧
      decl.members.map Prod.snd = values.map EnumValue.name ∧
      ((decl.members.map Prod.fst).Nodup ↔
        (values.map fun v => lowerWords v.name).Pairwise fun us vs =>
          ¬Identifier.Meet (lowerWords (run.graph.name e.node)) us vs) := by
  refine ⟨_, run.declarationFor_enum hv style m, by simp [Function.comp_def], ?_⟩
  simp only [List.map_map, List.Nodup, List.pairwise_map, Function.comp_apply]
  refine List.Pairwise.iff_of_mem fun {u v} hu hv => not_congr ?_
  exact Identifier.enumKey_eq_iff (whole u hu) (whole v hv)

-- A schema of one enum.
def Generation.ofEnum (name : String) (values : List EnumValue) : Generation where
  graph := ⟨#[{ name := "", parent := none, content := .package [1] },
    { name := "shop", parent := some 0, file := some "shop.proto", content := .package [2] },
    { name := name, parent := some 1, content := .enum values }]⟩
  settings := { enumStyle := .enum }

-- The keys are `Unspecified`, `Admin`, `TeamLead`, `RolesAll` and `_2`.
theorem enum_keys_nodup_iff_roles : ∃ (values : List EnumValue) (m : Mapping) (e : Entry) (decl : EnumDecl),
    values.map EnumValue.name = ["ROLE_UNSPECIFIED", "ROLE_ADMIN", "TEAM_LEAD", "ROLES_ALL", "ROLE_2"] ∧
    (Generation.ofEnum "Role" values).graph.enumValues? e.node = some values ∧
    (∀ v ∈ values, ¬Identifier.CutsWord (lowerWords "Role") (lowerWords v.name)) ∧
    ((Generation.ofEnum "Role" values).declarationFor m e).result = .ok (some (.enum decl)) ∧
    decl.members.map Prod.snd = values.map EnumValue.name ∧ (decl.members.map Prod.fst).Nodup := by
  let values : List EnumValue :=
    [⟨"ROLE_UNSPECIFIED", 0⟩, ⟨"ROLE_ADMIN", 1⟩, ⟨"TEAM_LEAD", 2⟩, ⟨"ROLES_ALL", 3⟩, ⟨"ROLE_2", 4⟩]
  let run := Generation.ofEnum "Role" values
  let e := Entry.of run.graph run.settings 2
  have hv : run.graph.enumValues? e.node = some values := rfl
  have words : values.map (fun v => lowerWords v.name) =
      [["role", "unspecified"], ["role", "admin"], ["team", "lead"], ["roles", "all"], ["role", "2"]] := by
    decide +kernel
  have role : lowerWords "Role" = ["role"] := by decide +kernel
  have whole : ∀ v ∈ values, ¬Identifier.CutsWord (lowerWords "Role") (lowerWords v.name) := by
    have whole : ∀ ws ∈ values.map fun v => lowerWords v.name, ¬Identifier.CutsWord (lowerWords "Role") ws := by
      rw [words, role]
      decide +kernel
    exact fun v hv => whole (lowerWords v.name) (List.mem_map_of_mem hv)
  have apart : (values.map fun v => lowerWords v.name).Pairwise fun us vs =>
      ¬Identifier.Meet (lowerWords "Role") us vs := by
    rw [words, role]
    decide +kernel
  obtain ⟨decl, hd, hn, hk⟩ := enum_keys_nodup_iff run hv rfl (run.mapping {} "shop.ts") whole
  exact ⟨values, run.mapping {} "shop.ts", e, decl, rfl, hv, whole, hd, hn, hk.mpr apart⟩

-- Two values that differ only in the name of the enum, and two that differ only in letter case.
theorem enum_keys_repeat : ∃ (values : List EnumValue) (m : Mapping) (e : Entry) (decl : EnumDecl),
    (values.map EnumValue.name).Nodup ∧
    (Generation.ofEnum "Role" values).graph.enumValues? e.node = some values ∧
    ((Generation.ofEnum "Role" values).declarationFor m e).result = .ok (some (.enum decl)) ∧
    decl.members.map Prod.fst = ["Admin", "Admin", "TeamLead", "TeamLead"] := by
  let values : List EnumValue := [⟨"ROLE_ADMIN", 0⟩, ⟨"ADMIN", 1⟩, ⟨"TEAM_LEAD", 2⟩, ⟨"TeamLead", 3⟩]
  let run := Generation.ofEnum "Role" values
  let e := Entry.of run.graph run.settings 2
  have h := run.declarationFor_enum (e := e) rfl rfl (run.mapping {} "shop.ts")
  exact ⟨values, _, e, _, by decide +kernel, rfl, h, by decide +kernel⟩

namespace Identifier

variable {enum value : String}

-- What is left of a value if nothing but whole words is taken off: one with the words of the enum in front
-- is without them, and any other is all there.
def LeavesWords (enum value key : String) : Prop :=
  if Stutters (lowerWords enum) (lowerWords value) then
    Casing.pascal.apply value = Casing.pascal.apply enum ++ key
  else key = Casing.pascal.apply value

theorem CutsWord.startsDigit_shortKey (h : CutsWord (lowerWords enum) (lowerWords value)) :
    startsDigit (shortKey enum value) = true := by
  obtain ⟨he, w, ws, hd, hw⟩ := h
  have hk : shortKey enum value = joined (w :: ws) := by
    rw [← String.append_right_inj (Casing.pascal.apply enum), ← pascal_of_attach hw he]
    exact (shortKey_of_shortened (.inr ⟨he, w, ws, hd, hw⟩)).left.symm
  obtain ⟨c, hc, digit⟩ := Option.any_eq_true .. |>.mp hd
  simp [hk, startsDigit, head_joined hc, Word.isDigit_toUpper, digit]

theorem leavesWords_of_not_cutsWord (h : ¬CutsWord (lowerWords enum) (lowerWords value)) :
    LeavesWords enum value (shortKey enum value) := by
  rw [LeavesWords]
  split
  case isTrue hs  => exact (shortKey_of_shortened (.inl hs)).left
  case isFalse hs => exact shortKey_of_not_stutters h hs

theorem CutsWord.not_leavesWords (h : CutsWord (lowerWords enum) (lowerWords value)) :
    ¬LeavesWords enum value (shortKey enum value) := by
  rw [LeavesWords, if_neg h.not_stutters]
  intro whole
  have taken := (shortKey_of_shortened (.inr h)).left
  rw [whole] at taken
  have none : "" = Casing.pascal.apply enum :=
    (String.append_left_inj (Casing.pascal.apply value)).mp (String.empty_append.trans taken)
  exact h.left (pascal_eq_empty_iff.mp none.symm)

end Identifier

theorem enum_keys_leave_words_iff (enum value : String) :
    (Identifier.LeavesWords enum value (Identifier.shortKey enum value) ↔
      ¬Identifier.CutsWord (lowerWords enum) (lowerWords value)) ∧
    (Identifier.CutsWord (lowerWords enum) (lowerWords value) →
      Casing.pascal.apply value = Casing.pascal.apply enum ++ Identifier.shortKey enum value ∧
      startsDigit (Identifier.shortKey enum value) = true) := by
  refine ⟨⟨fun h cuts => cuts.not_leavesWords h, Identifier.leavesWords_of_not_cutsWord⟩, fun cuts => ?_⟩
  exact ⟨(Identifier.shortKey_of_shortened (.inr cuts)).left, cuts.startsDigit_shortKey⟩

theorem enum_key_cuts_word : lowerWords "Role" = ["role"] ∧ lowerWords "ROLE2" = ["role2"] ∧
    Identifier.shortKey "Role" "ROLE2" = "2" ∧
    ¬Identifier.LeavesWords "Role" "ROLE2" (Identifier.shortKey "Role" "ROLE2") := by
  have role : lowerWords "Role" = ["role"] := by decide +kernel
  have role2 : lowerWords "ROLE2" = ["role2"] := by decide +kernel
  have cuts : Identifier.CutsWord (lowerWords "Role") (lowerWords "ROLE2") := by
    rw [role, role2]
    decide +kernel
  exact ⟨role, role2, by decide +kernel, cuts.not_leavesWords⟩

end ProtoTypings
