import Mathlib
import ProtoTypings.Proofs.EnumKey
import ProtoTypings.Proofs.Rendering

namespace ProtoTypings

namespace Text

def quotes : List Char := ['\'', '"']

def brackets : List (Char × Char) := [('{', '}'), ('<', '>'), ('(', ')'), ('[', ']')]

-- The characters that open or close something.
def marks : List Char := quotes ++ brackets.map Prod.fst ++ brackets.map Prod.snd

-- Code in which all that is opened is closed again, by what belongs to it.
inductive Closed : List Char → Prop
  | nil : Closed []
  | bare {c : Char} {cs : List Char} : c ∉ marks → Closed cs → Closed (c :: cs)
  | quoted {q : Char} {body cs : List Char} : q ∈ quotes → q ∉ body → Closed cs → Closed (q :: (body ++ q :: cs))
  | bracketed {l r : Char} {body cs : List Char} : (l, r) ∈ brackets → Closed body → Closed cs →
    Closed (l :: (body ++ r :: cs))

-- A character stands in a text outside of all brackets and quotes.
def Outside (c : Char) (text : String) : Prop :=
  ∃ front back, text.toList = front ++ c :: back ∧ Closed front

namespace Closed

variable {cs ds front : List Char} {pieces : List (List Char)}

theorem of_bare (h : ∀ c ∈ cs, c ∉ marks) : Closed cs := by
  induction cs
  case nil => exact .nil
  case cons c cs hi =>
    obtain ⟨hc, h⟩ := List.forall_mem_cons.mp h
    exact .bare hc (hi h)

theorem of_text {text : String} (h : text.toList.all (· ∉ marks) = true) : Closed text.toList :=
  of_bare (by simpa using h)

theorem append (hc : Closed cs) (hd : Closed ds) : Closed (cs ++ ds) := by
  induction hc
  case nil => exact hd
  case bare hm _ hi => exact .bare hm hi
  case quoted hq hb _ hi =>
    rw [List.cons_append, List.append_assoc, List.cons_append]
    exact .quoted hq hb hi
  case bracketed hb body _ _ hi =>
    rw [List.cons_append, List.append_assoc, List.cons_append]
    exact .bracketed hb body hi

theorem flatten (h : ∀ piece ∈ pieces, Closed piece) : Closed pieces.flatten := by
  induction pieces
  case nil => exact .nil
  case cons piece pieces hi =>
    obtain ⟨hp, h⟩ := List.forall_mem_cons.mp h
    exact hp.append (hi h)

theorem intercalate (hc : Closed cs) (h : ∀ piece ∈ pieces, Closed piece) : Closed (cs.intercalate pieces) := by
  induction pieces
  case nil => exact .nil
  case cons piece pieces hi =>
    obtain ⟨hp, h⟩ := List.forall_mem_cons.mp h
    cases pieces
    case nil => simpa using hp
    case cons =>
      rw [List.intercalate_cons_cons]
      exact (hp.append hc).append (hi h)

theorem within {l r : Char} (hb : (l, r) ∈ brackets) (hc : Closed cs) : Closed (l :: (cs ++ [r])) :=
  .bracketed hb hc .nil

-- Characters that open and close nothing can be put behind every line end.
theorem indented (hf : ∀ c ∈ front, c ∉ marks) (hc : Closed cs) :
    Closed (cs.flatMap fun c => if c = '\n' then c :: front else [c]) := by
  have kept {c : Char} (hm : c ∈ marks) : (if c = '\n' then c :: front else [c]) = [c] := by
    refine if_neg ?_
    rintro rfl
    revert hm
    decide
  induction hc
  case nil => exact .nil
  case bare c cs hm _ hi =>
    rw [List.flatMap_cons]
    refine append (of_bare ?_) hi
    split <;> simp_all
  case quoted q body cs hq hb _ hi =>
    have hm : q ∈ marks := by simp [marks, hq]
    rw [List.flatMap_cons, List.flatMap_append, List.flatMap_cons, kept hm]
    refine .quoted hq (fun hq => ?_) hi
    obtain ⟨c, hc, hq⟩ := List.mem_flatMap.mp hq
    split at hq
    case isTrue =>
      rcases List.mem_cons.mp hq with rfl | hq
      · exact hb hc
      · exact hf q hq hm
    case isFalse => exact hb (List.mem_singleton.mp hq ▸ hc)
  case bracketed l r body cs hb _ _ hi hj =>
    have hl : l ∈ marks := by
      have := List.mem_map_of_mem (f := Prod.fst) hb
      simp_all [marks]
    have hr : r ∈ marks := by
      have := List.mem_map_of_mem (f := Prod.snd) hb
      simp_all [marks]
    rw [List.flatMap_cons, List.flatMap_append, List.flatMap_cons, kept hl, kept hr]
    exact .bracketed hb hi hj

end Closed

-- The lines of a text, each with the same in front of it.
theorem flatMap_splitOn (front cs : List Char) :
    ((cs.splitOn '\n').flatMap fun line => front ++ line ++ ['\n']) =
      front ++ (cs.flatMap fun c => if c = '\n' then c :: front else [c]) ++ ['\n'] := by
  rw [List.splitOn_eq_splitOnP]
  induction cs
  case nil => simp
  case cons c cs hi =>
    rw [List.splitOnP_cons_eq_if_modifyHead]
    by_cases hc : c = '\n'
    case pos => simp_all
    case neg =>
      cases hs : cs.splitOnP (· == '\n')
      case nil => exact absurd hs (List.splitOnP_ne_nil _ _)
      case cons line lines => simp_all

theorem closed_join_cut {front text : String} (hf : ∀ c ∈ front.toList, c ∉ marks) (hc : Closed text.toList) :
    Closed (String.join ((cut '\n' text).map fun line => front ++ line ++ "\n")).toList := by
  have lines : (String.join ((cut '\n' text).map fun line => front ++ line ++ "\n")).toList =
      front.toList ++ (text.toList.flatMap fun c => if c = '\n' then c :: front.toList else [c]) ++ ['\n'] := by
    rw [← flatMap_splitOn]
    simp [cut, List.flatMap_map]
  rw [lines]
  exact ((Closed.of_bare hf).append (hc.indented hf)).append (.bare (by decide) .nil)

end Text

namespace TypeExpr

open Text

variable {c q l r : Char} {cs body front rest : List Char} {depth : Int}

theorem hasTopLevelPipe_bare (hc : c ∉ marks) : hasTopLevelPipe depth none (c :: cs) =
    (decide (c = '|' ∧ depth = 0) || hasTopLevelPipe depth none cs) := by
  simp only [marks, quotes, brackets, List.map_cons, List.map_nil, List.cons_append, List.nil_append,
    List.mem_cons, List.not_mem_nil, or_false, not_or] at hc
  by_cases hp : c = '|' ∧ depth = 0 <;> simp [hasTopLevelPipe, hc, hp]

-- A quoted text is passed over.
theorem hasTopLevelPipe_quoted (hq : q ∈ quotes) (hb : q ∉ body) :
    hasTopLevelPipe depth none (q :: (body ++ q :: cs)) = hasTopLevelPipe depth none cs := by
  have inside : hasTopLevelPipe depth (some q) (body ++ q :: cs) = hasTopLevelPipe depth none cs := by
    induction body
    case nil => simp [hasTopLevelPipe]
    case cons c body hi =>
      obtain ⟨hc, hb⟩ := not_or.mp (List.mem_cons.not.mp hb)
      rw [List.cons_append, hasTopLevelPipe, if_neg (Ne.symm hc), hi hb]
  rw [hasTopLevelPipe, if_pos (by simpa [quotes] using hq), inside]

theorem hasTopLevelPipe_opening (hb : (l, r) ∈ brackets) :
    hasTopLevelPipe depth none (l :: cs) = hasTopLevelPipe (depth + 1) none cs := by
  simp only [brackets, List.mem_cons, Prod.mk.injEq, List.not_mem_nil, or_false] at hb
  rcases hb with ⟨rfl, -⟩ | ⟨rfl, -⟩ | ⟨rfl, -⟩ | ⟨rfl, -⟩ <;> simp [hasTopLevelPipe]

theorem hasTopLevelPipe_closing (hb : (l, r) ∈ brackets) :
    hasTopLevelPipe depth none (r :: cs) = hasTopLevelPipe (depth - 1) none cs := by
  simp only [brackets, List.mem_cons, Prod.mk.injEq, List.not_mem_nil, or_false] at hb
  rcases hb with ⟨-, rfl⟩ | ⟨-, rfl⟩ | ⟨-, rfl⟩ | ⟨-, rfl⟩ <;> simp [hasTopLevelPipe]

-- After closed code, the scan goes on at the depth at which it came there.
theorem hasTopLevelPipe_append (hc : Closed front) : hasTopLevelPipe depth none (front ++ rest) =
    (hasTopLevelPipe depth none front || hasTopLevelPipe depth none rest) := by
  induction hc generalizing depth rest
  case nil => simp [hasTopLevelPipe]
  case bare hm _ hi => rw [List.cons_append, hasTopLevelPipe_bare hm, hasTopLevelPipe_bare hm, hi, Bool.or_assoc]
  case quoted hq hb _ hi =>
    rw [List.cons_append, List.append_assoc, List.cons_append, hasTopLevelPipe_quoted hq hb,
      hasTopLevelPipe_quoted hq hb, hi]
  case bracketed hb _ _ hi hj =>
    rw [List.cons_append, List.append_assoc, List.cons_append, hasTopLevelPipe_opening hb,
      hasTopLevelPipe_opening hb, hi, hi, hasTopLevelPipe_closing hb, hasTopLevelPipe_closing hb,
      add_sub_cancel_right, hj, Bool.or_assoc]

theorem hasTopLevelPipe_inside (hc : Closed cs) (hd : 0 < depth) : hasTopLevelPipe depth none cs = false := by
  induction hc generalizing depth
  case nil => rfl
  case bare hm _ hi         => simp [hasTopLevelPipe_bare hm, hi hd, hd.ne']
  case quoted hq hb _ hi    => rw [hasTopLevelPipe_quoted hq hb, hi hd]
  case bracketed hb body _ hi hj =>
    rw [hasTopLevelPipe_opening hb, hasTopLevelPipe_append body, hi (by omega), hasTopLevelPipe_closing hb,
      add_sub_cancel_right, hj hd, Bool.or_false]

theorem hasTopLevelPipe_bracketed (hb : (l, r) ∈ brackets) (hc : Closed body) :
    hasTopLevelPipe 0 none (l :: (body ++ r :: cs)) = hasTopLevelPipe 0 none cs := by
  rw [hasTopLevelPipe_opening hb, hasTopLevelPipe_append hc, hasTopLevelPipe_inside hc (by decide),
    hasTopLevelPipe_closing hb, Bool.false_or]
  rfl

-- In closed code, the scan finds the bars that are outside of all brackets and quotes.
theorem outside_iff {text : String} (hc : Closed text.toList) :
    Outside '|' text ↔ hasTopLevelPipe 0 none text.toList = true := by
  constructor
  case mp =>
    rintro ⟨front, back, h, hf⟩
    rw [h, hasTopLevelPipe_append hf, hasTopLevelPipe_bare (by decide)]
    simp
  case mpr =>
    rw [Outside]
    generalize text.toList = cs at hc
    intro h
    induction hc
    case nil => simp [hasTopLevelPipe] at h
    case bare c cs hm _ hi =>
      rw [hasTopLevelPipe_bare hm, Bool.or_eq_true, decide_eq_true_iff] at h
      rcases h with ⟨rfl, -⟩ | h
      · exact ⟨[], cs, rfl, .nil⟩
      · obtain ⟨front, back, rfl, hf⟩ := hi h
        exact ⟨c :: front, back, rfl, .bare hm hf⟩
    case quoted q body cs hq hb _ hi =>
      rw [hasTopLevelPipe_quoted hq hb] at h
      obtain ⟨front, back, rfl, hf⟩ := hi h
      exact ⟨q :: (body ++ q :: front), back, by simp, .quoted hq hb hf⟩
    case bracketed l r body cs hb inner _ _ hi =>
      rw [hasTopLevelPipe_bracketed hb inner] at h
      obtain ⟨front, back, rfl, hf⟩ := hi h
      exact ⟨l :: (body ++ r :: front), back, by simp, .bracketed hb inner hf⟩

theorem hasTopLevelPipe_of_bare (h : ∀ c ∈ cs, c ∉ '|' :: marks) : hasTopLevelPipe depth none cs = false := by
  induction cs
  case nil => rfl
  case cons c cs hi =>
    obtain ⟨hc, h⟩ := List.forall_mem_cons.mp h
    obtain ⟨hp, hm⟩ := not_or.mp (List.mem_cons.not.mp hc)
    simp [hasTopLevelPipe_bare hm, hp, hi h]

theorem notMem_of_isPart (hc : Identifier.isPart c = true) : c ∉ '|' :: marks := by
  have others : ('|' :: marks).all (!Identifier.isPart ·) = true := by decide
  intro hm
  simpa [hc] using List.all_eq_true.mp others c hm

theorem closed_word {name : String} (h : Identifier.isValid name = true) : Closed name.toList :=
  .of_bare fun c hc hm => notMem_of_isPart (Identifier.isPart_of_isValid h c hc) (List.mem_cons_of_mem _ hm)

-- The text of a literal is a quoted text without quotes inside.
theorem exists_quote_body {value : String} (h : Identifier.isValid value = true) :
    ∃ body, (Identifier.quote value).toList = '\'' :: (body ++ ['\'']) ∧ '\'' ∉ body := by
  have parts := Identifier.isPart_of_isValid h
  refine ⟨value.toList, by simp [Identifier.quote, Identifier.escape_of_isPart parts], fun hq => ?_⟩
  have part := parts _ hq
  revert part
  decide

-- Expressions without code that is taken as it stands, with identifiers for names and literals, and without
-- comments.
inductive Simple : TypeExpr → Prop
  | reference {name : String} : Identifier.isValid name = true → Simple (.reference name)
  | literal {value : String} : Identifier.isValid value = true → Simple (.literal value)
  | union {items : List TypeExpr} : (∀ t ∈ items, Simple t) → Simple (.union items)
  | array {item : TypeExpr} : Simple item → Simple (.array item)
  | record {key value : TypeExpr} : Simple key → Simple value → Simple (.record key value)
  | object {members : List Member} :
    (∀ m ∈ members, Identifier.isValid m.name = true ∧ m.leading = [] ∧ m.trailing = none) →
    (∀ m ∈ members, Simple m.type) → Simple (.object members)

-- A union of several types is all there is in a union, and this in further ones and in arrays.
inductive Hides : TypeExpr → Prop
  | several {items : List TypeExpr} : 1 < items.length → Hides (.union [.union items])
  | single {t : TypeExpr} : Hides t → Hides (.union [t])
  | array {t : TypeExpr} : Hides t → Hides (.array t)

variable {t item : TypeExpr} {indent : Indent}

theorem Hides.isUnion_eq_false (h : t.Hides) : t.isUnion = false := by
  cases h <;> rfl

theorem hides_union_iff (simple : item.Simple) : (union [item]).Hides ↔ item.isUnion = true ∨ item.Hides := by
  constructor
  case mp =>
    intro h
    cases h
    case several h => exact .inl (by simpa [isUnion] using h)
    case single h  => exact .inr h
  case mpr =>
    rintro (h | h)
    · cases simple
      case union items _ => exact .several (by simpa [isUnion] using h)
      all_goals simp [isUnion] at h
    · exact .single h

theorem hides_array_iff : (array item).Hides ↔ item.Hides :=
  ⟨fun h => by cases h; assumption, .array⟩

theorem closed_member {m : Member} (named : Identifier.isValid m.name = true)
    (bare : m.leading = [] ∧ m.trailing = none) (hc : Closed (m.type.render indent).toList) :
    Closed (String.join ((renderMember indent m).map fun line => indent.one ++ line ++ "\n")).toList := by
  obtain ⟨name, type, isOptional, leading, trailing⟩ := m
  obtain ⟨rfl, rfl⟩ := bare
  rw [renderMember, List.map_nil, List.nil_append]
  refine closed_join_cut (fun c hc hm => ?_) ?_
  · have others : marks.all (!isIndent ·) = true := by decide
    simpa [Indent.isIndent_of_mem_one hc] using List.all_eq_true.mp others c hm
  · have mark : Closed (if isOptional = true then "?" else "").toList := by
      cases isOptional <;> exact .of_text (by decide)
    have colon : Closed ": ".toList := .of_text (by decide)
    have close : Closed ";".toList := .of_text (by decide)
    simpa using ((((closed_word named).append mark).append colon).append hc).append close

theorem exists_object_body {members : List Member}
    (named : ∀ m ∈ members, Identifier.isValid m.name = true ∧ m.leading = [] ∧ m.trailing = none)
    (hc : ∀ m ∈ members, Closed (m.type.render indent).toList) :
    ∃ body, ((object members).render indent).toList = '{' :: (body ++ ['}']) ∧ Closed body := by
  have lines : Closed (String.join ((members.flatMap (renderMember indent)).map fun line =>
      indent.one ++ line ++ "\n")).toList := by
    rw [String.toList_join, List.map_flatMap, List.flatMap_assoc, List.flatMap_def]
    refine .flatten (List.forall_mem_map.mpr fun m hm => ?_)
    rw [← String.toList_join]
    exact closed_member (named m hm).left (named m hm).right (hc m hm)
  cases members
  case nil => exact ⟨[], by simp [render], .nil⟩
  case cons =>
    refine ⟨_, ?_, .bare (c := '\n') (by decide) lines⟩
    rw [render, block, renderMembers_eq]
    simp

theorem closed_render (simple : t.Simple) (indent : Indent) : Closed (t.render indent).toList := by
  induction simple
  case reference h => rw [render]; exact closed_word h
  case literal h =>
    obtain ⟨body, h, hb⟩ := exists_quote_body h
    rw [render, h]
    exact .quoted (by decide) hb .nil
  case union items _ hi =>
    cases items
    case nil => rw [render]; exact .of_text (by decide)
    case cons =>
      rw [render, renderItems_eq, String.toList_intercalate]
      exact .intercalate (.of_text (by decide)) (by simpa using hi)
  case array item _ hi =>
    have suffix : Closed "[]".toList := .within (by decide) .nil
    rw [render]
    split
    case isTrue  => simpa using (hi.within (l := '(') (r := ')') (by decide)).append suffix
    case isFalse => simpa using hi.append suffix
  case record key value _ _ hk hv =>
    have front : Closed "Record".toList := .of_text (by decide)
    have comma : Closed ", ".toList := .of_text (by decide)
    simpa [render] using front.append (((hk.append comma).append hv).within (l := '<') (r := '>') (by decide))
  case object members named _ hi =>
    obtain ⟨body, h, hb⟩ := exists_object_body named hi
    exact h ▸ hb.within (by decide)

-- The scan finds a bar in the text of unions of several types, and of those that hide one.
theorem hasTopLevelPipe_render (simple : t.Simple) :
    hasTopLevelPipe 0 none (t.render indent).toList = true ↔ t.isUnion = true ∨ t.Hides := by
  have other {t : TypeExpr} (hu : t.isUnion = false) (hn : ¬t.Hides)
      (hp : hasTopLevelPipe 0 none (t.render indent).toList = false) :
      hasTopLevelPipe 0 none (t.render indent).toList = true ↔ t.isUnion = true ∨ t.Hides := by
    simp [hu, hn, hp]
  induction simple
  case reference h =>
    refine other rfl (by rintro ⟨⟩) ?_
    rw [render, hasTopLevelPipe_of_bare fun c hc => notMem_of_isPart (Identifier.isPart_of_isValid h c hc)]
  case literal h =>
    refine other rfl (by rintro ⟨⟩) ?_
    obtain ⟨body, h, hb⟩ := exists_quote_body h
    rw [render, h, hasTopLevelPipe_quoted (by decide) hb, hasTopLevelPipe]
  case union items simple hi =>
    cases items
    case nil => exact other rfl (by rintro ⟨⟩) (by rw [render]; decide)
    case cons first rest =>
      have hf : first.Simple := simple first List.mem_cons_self
      cases hr : rest
      case nil =>
        have same : (union [first]).render indent = first.render indent := by simp [render, renderItems_eq]
        rw [same, hides_union_iff hf]
        simpa [isUnion] using hi first List.mem_cons_self
      case cons second rest =>
        refine iff_of_true ?_ (.inl (by simp [isUnion]))
        simp only [render, renderItems_eq, String.toList_intercalate, List.map_cons, List.intercalate_cons_cons,
          List.append_assoc]
        rw [hasTopLevelPipe_append (closed_render hf indent)]
        simp [hasTopLevelPipe]
  case array item simple hi =>
    have closed := closed_render simple indent
    have suffix : hasTopLevelPipe 0 none "[]".toList = false := by decide
    rw [hides_array_iff, render]
    cases hu : item.isUnion
    case true =>
      have text : ("(" ++ item.render indent ++ ")[]").toList =
          '(' :: ((item.render indent).toList ++ ')' :: "[]".toList) := by
        simp
      rw [if_pos rfl, text, hasTopLevelPipe_bracketed (by decide) closed, suffix]
      have shown : ¬item.Hides := fun h => by simp [h.isUnion_eq_false] at hu
      simp [isUnion, shown]
    case false =>
      rw [hu] at hi
      rw [if_neg (by simp), String.toList_append, hasTopLevelPipe_append closed, suffix, Bool.or_false]
      exact hi
  case record key value hk hv _ _ =>
    have comma : Closed ", ".toList := .of_text (by decide)
    have inner := ((closed_render hk indent).append comma).append (closed_render hv indent)
    have front : Closed "Record".toList := .of_text (by decide)
    have text : ((record key value).render indent).toList = "Record".toList ++
        '<' :: ((key.render indent).toList ++ ", ".toList ++ (value.render indent).toList ++ ['>']) := by
      simp [render]
    refine other rfl (by rintro ⟨⟩) ?_
    rw [text, hasTopLevelPipe_append front, hasTopLevelPipe_bracketed (by decide) inner]
    decide
  case object members named simple hi =>
    obtain ⟨body, h, hb⟩ := exists_object_body named fun m hm => closed_render (simple m hm) indent
    refine other rfl (by rintro ⟨⟩) ?_
    rw [h, hasTopLevelPipe_bracketed (by decide) hb, hasTopLevelPipe]

-- An array has its items in parentheses if their text has a bar outside of all brackets and quotes, and only then.
structure Guarded (indent : Indent) (item : TypeExpr) : Prop where
  parentheses : (array item).render indent = "(" ++ item.render indent ++ ")[]" ↔
    Outside '|' (item.render indent)
  plain : ¬Outside '|' (item.render indent) → (array item).render indent = item.render indent ++ "[]"

theorem outside_render_iff (simple : t.Simple) (indent : Indent) :
    Outside '|' (t.render indent) ↔ t.isUnion = true ∨ t.Hides :=
  (outside_iff (closed_render simple indent)).trans (hasTopLevelPipe_render simple)

theorem parentheses_ne (text : String) : text ++ "[]" ≠ "(" ++ text ++ ")[]" := by
  intro h
  have lengths := congrArg (·.toList.length) h
  simp at lengths

-- Only the bar of a hidden union is missed.
theorem array_guarded_iff (simple : item.Simple) (indent : Indent) : item.Guarded indent ↔ ¬item.Hides := by
  have outside := outside_render_iff simple indent
  cases hu : item.isUnion
  case true =>
    have text : (array item).render indent = "(" ++ item.render indent ++ ")[]" := by
      rw [render, if_pos hu]
    have shown : ¬item.Hides := fun h => by simp [h.isUnion_eq_false] at hu
    have bar := outside.mpr (.inl hu)
    exact iff_of_true ⟨iff_of_true text bar, fun h => absurd bar h⟩ shown
  case false =>
    have text : (array item).render indent = item.render indent ++ "[]" := by
      rw [render, if_neg (by simp [hu])]
    have hidden : Outside '|' (item.render indent) ↔ item.Hides := by simpa [hu] using outside
    rw [← hidden]
    constructor
    · intro guarded bar
      exact parentheses_ne _ (text.symm.trans (guarded.parentheses.mpr bar))
    · intro bar
      exact ⟨iff_of_false (text ▸ parentheses_ne _) bar, fun _ => text⟩

-- A union with brackets, quotes and another union inside.
def rates : TypeExpr :=
  .union [.reference "Rate", .object [
    { name := "per", type := .array (.union [.literal "day", .literal "hour"]) },
    { name := "by", type := .record (.reference "Zone") (.reference "Rate"), isOptional := true }]]

theorem array_guarded_iff_rates : rates.Simple ∧ ¬rates.Hides ∧ rates.Guarded .tab ∧
    (array rates).render .tab =
      "(Rate | \x7b\n\tper: ('day' | 'hour')[];\n\tby?: Record<Zone, Rate>;\n\x7d)[]" := by
  have simple : rates.Simple := by
    have units : (union [literal "day", literal "hour"]).Simple :=
      .union (by simpa using ⟨.literal (by decide), .literal (by decide)⟩)
    have zones : (record (reference "Zone") (reference "Rate")).Simple :=
      .record (.reference (by decide)) (.reference (by decide))
    have named : Identifier.isValid "per" = true ∧ Identifier.isValid "by" = true := by decide
    refine .union (List.forall_mem_cons.mpr ⟨.reference (by decide), List.forall_mem_singleton.mpr ?_⟩)
    exact .object (by simpa using named) (by simpa using ⟨units.array, zones⟩)
  have shown : ¬rates.Hides := by rintro ⟨⟩
  exact ⟨simple, shown, (array_guarded_iff simple .tab).mpr shown, by decide +kernel⟩

-- A union with nothing but a union inside.
def choice : TypeExpr :=
  .union [.union [.reference "A", .reference "B"]]

theorem array_unguarded : choice.Simple ∧ Outside '|' (choice.render .default) ∧
    (array choice).render .default = "A | B[]" ∧ ¬choice.Guarded .default := by
  have simple : choice.Simple :=
    .union (by simpa using .union (by simpa using ⟨.reference (by decide), .reference (by decide)⟩))
  have bar : Outside '|' (choice.render .default) :=
    (outside_render_iff simple _).mpr (.inr (.several (by decide)))
  have text : (array choice).render .default = "A | B[]" := by decide +kernel
  refine ⟨simple, bar, text, fun guarded => ?_⟩
  have parentheses := guarded.parentheses.mpr bar
  revert parentheses
  decide +kernel

end TypeExpr

end ProtoTypings
