import Mathlib
import ProtoTypings.Proofs.Casing
import ProtoTypings.Proofs.Registry
import ProtoTypings.Settings.Validation

namespace ProtoTypings

namespace Word

variable {cs : List Char} {p : Char → Bool}

-- Trimming takes no words away.
theorem split_trimChars (hp : ∀ c, p c = true → c.isAlphanum = false) :
    split (Text.trimChars p cs) = split cs := by
  have front (cs : List Char) : split (cs.dropWhile p) = split cs := by
    induction cs
    case nil => rfl
    case cons c rest hi =>
      cases hc : p c
      case false => simp [hc]
      case true  => simp [hc, hi, split, hp c hc]
  rw [← front cs, Text.trimChars, Text.dropWhileEnd]
  have h := List.takeWhile_append_dropWhile (p := p) (l := (cs.dropWhile p).reverse)
  have h := congrArg List.reverse h
  rw [List.reverse_append, List.reverse_reverse] at h
  nth_rewrite 2 [← h]
  refine (split_append_of_not_alphanum fun c hc => ?_).symm
  exact hp c (List.mem_takeWhile_imp (List.mem_reverse.mp hc))

theorem not_isAlphanum_of_isBlank {c : Char} (h : Text.isBlank c = true) : c.isAlphanum = false := by
  rw [Bool.eq_false_iff]
  intro ha
  simp only [Char.isAlphanum, Char.isAlpha, Char.isUpper, Char.isLower, Char.isDigit, Bool.or_eq_true,
    Bool.and_eq_true, decide_eq_true_eq, UInt32.le_iff_toNat_le, ge_iff_le, Char.toNat_val,
    Char.reduceToNat] at ha
  simp only [Text.isBlank, Bool.or_eq_true, Bool.and_eq_true, decide_eq_true_eq, beq_iff_eq] at h
  omega

theorem split_trim {text : String} : split (Text.trim text).toList = split text.toList := by
  rw [Text.trim, String.toList_ofList]
  exact split_trimChars fun _ => not_isAlphanum_of_isBlank

theorem split_intercalate (names : List String) :
    split (" ".intercalate names).toList = names.flatMap fun name => split name.toList := by
  have space : ' '.isAlphanum = false := rfl
  rw [String.toList_intercalate]
  induction names
  case nil => rfl
  case cons name names hi =>
    cases names
    case nil => simp
    case cons next names =>
      have h : " ".toList.intercalate ((name :: next :: names).map String.toList) =
          name.toList ++ ' ' :: " ".toList.intercalate ((next :: names).map String.toList) := by
        simp [List.intercalate]
      rw [h, split_append_separator space, hi]
      rfl

end Word

namespace Template

-- The text of pieces that no variable fills.
def plainText (pieces : List Piece) : List Char :=
  pieces.flatMap (Piece.fill [] true)

-- A hole that has a value in a name.
def Piece.isFilled : Piece → Bool
  | plain _ => false
  | hole name _ => name = "parentNodeNames".toList || name = "typeName".toList

-- The values for the holes of a name.
def filling (parents type : String) : List Variable :=
  [⟨"parentNodeNames", parents⟩, ⟨"typeName", type⟩]

-- The layout of a template that has the names around a type right in front of its own name.
structure Frame (template : String) where
  before : List Piece
  parents : List Char
  between : List Piece
  type : List Char
  after : List Piece
  pieces_eq : pieces template.toList = before ++ .hole "parentNodeNames".toList parents :: between ++
    .hole "typeName".toList type :: after
  rest_unfilled : ∀ p ∈ before ++ between ++ after, p.isFilled = false
  between_wordless : Word.split (plainText between) = []

namespace Frame

variable {template : String} (f : Frame template)

-- The words in front of the names, and those behind them.
def front : List Word :=
  (Word.split (plainText f.before)).map Word.lower

def back : List Word :=
  (Word.split (plainText f.after)).map Word.lower

section Filling

variable {parents type : String} {spelling : List Char}

theorem fill_of_not_isFilled {p : Piece} (h : p.isFilled = false) :
    p.fill (filling parents type) true = p.fill [] true := by
  cases p
  case plain => rfl
  case hole name spelling =>
    simp only [Piece.isFilled, Bool.or_eq_false_iff, decide_eq_false_iff_not] at h
    have hp : ("parentNodeNames".toList == name) = false := beq_false_of_ne (Ne.symm h.left)
    have ht : ("typeName".toList == name) = false := beq_false_of_ne (Ne.symm h.right)
    simp only [Piece.fill, filling, List.find?_cons, hp, ht, List.find?_nil]

theorem flatMap_fill {pieces : List Piece} (h : ∀ p ∈ pieces, p.isFilled = false) :
    pieces.flatMap (Piece.fill (filling parents type) true) = plainText pieces :=
  List.flatMap_congr fun p hp => fill_of_not_isFilled (h p hp)

theorem fill_parents : Piece.fill (filling parents type) true (.hole "parentNodeNames".toList spelling) =
    ' ' :: parents.toList ++ [' '] := by
  simp only [Piece.fill, filling, List.find?_cons, BEq.rfl, ↓reduceIte]

theorem fill_type : Piece.fill (filling parents type) true (.hole "typeName".toList spelling) =
    ' ' :: type.toList ++ [' '] := by
  have h : ("parentNodeNames".toList == "typeName".toList) = false := rfl
  simp only [Piece.fill, filling, List.find?_cons, h, BEq.rfl, ↓reduceIte]

end Filling

-- The words of a filled template are those of the values, between those of the template.
theorem words_render (parents type : String) :
    (Word.split (render template (filling parents type) true).toList).map Word.lower =
      f.front ++ (Word.split parents.toList ++ Word.split type.toList).map Word.lower ++ f.back := by
  have h := f.rest_unfilled
  simp only [List.forall_mem_append] at h
  have ⟨⟨hb, hm⟩, ha⟩ := h
  have text : (pieces template.toList).flatMap (Piece.fill (filling parents type) true) =
      plainText f.before ++ ' ' :: (parents.toList ++ ' ' :: (plainText f.between ++ ' ' ::
        (type.toList ++ ' ' :: plainText f.after))) := by
    rw [f.pieces_eq]
    simp only [List.flatMap_append, List.flatMap_cons, flatMap_fill hb, flatMap_fill hm, flatMap_fill ha,
      fill_parents, fill_type, List.append_assoc, List.cons_append, List.nil_append]
  have space : ' '.isAlphanum = false := rfl
  rw [render, Word.split_trim, String.toList_ofList, text, Word.split_append_separator space,
    Word.split_append_separator space, Word.split_append_separator space, Word.split_append_separator space,
    f.between_wordless]
  simp [front, back]

end Frame

-- The template that no setting changes is nothing but the names.
def Frame.standard : Frame Settings.defaultTemplate where
  before := []
  parents := "\x7b\x7bparentNodeNames\x7d\x7d".toList
  between := []
  type := "\x7b\x7btypeName\x7d\x7d".toList
  after := []
  pieces_eq := by decide +kernel
  rest_unfilled := by simp
  between_wordless := rfl

end Template

namespace Graph

variable {g : Graph} {s : Settings} {id id' : NodeId} {ignored : List String}

-- What a name is made of: the words of the names around a type and those of its own name.
def nameWords (g : Graph) (ignored : List String) (id : NodeId) : List Word :=
  (Word.split (" ".intercalate (g.parentNames ignored id)).toList ++
    Word.split (g.name id).toList).map Word.lower

theorem words_name {template : String} (f : Template.Frame template) :
    (Word.split (Template.render template (g.nameVariables ignored id) true).toList).map Word.lower =
      f.front ++ g.nameWords ignored id ++ f.back :=
  f.words_render _ _

def templateOf (g : Graph) (s : Settings) (id : NodeId) : String :=
  if g.kind? id = some .enum then s.enumTemplate else s.typeTemplate

def casingOf (g : Graph) (s : Settings) (id : NodeId) : Casing :=
  if g.kind? id = some .enum then s.enumCasing else s.typeCasing

theorem typeName_eq :
    g.typeName s id = g.nameFrom (g.templateOf s id) (g.casingOf s id) s.ignoredParents id := by
  rw [typeName, templateOf, casingOf]
  split <;> rfl

theorem canonicalName_eq_iff_nameWords_eq :
    g.canonicalName id = g.canonicalName id' ↔ g.nameWords [] id = g.nameWords [] id' := by
  rw [canonicalName, canonicalName, nameFrom, nameFrom, Casing.apply_eq_iff, lowerWords_eq_iff,
    words_name .standard, words_name .standard, List.append_left_inj, List.append_right_inj]

theorem parentNames_eq : g.parentNames ignored id =
    ((g.ancestors id).reverse.filter fun a => g.name a ≠ "" ∧ g.name a ∉ ignored).map g.name := by
  rw [parentNames, List.filter_map, ← List.map_reverse, ← List.filter_reverse]
  congr 2
  funext a
  simp

-- The words of the names of nodes that are above one another, from the outermost on. Ignored names are left out.
def wordsAbove (g : Graph) (ignored : List String) (nodes : List NodeId) : List Word :=
  (nodes.reverse.filter fun a => g.name a ≠ "" ∧ g.name a ∉ ignored).flatMap fun a =>
    (Word.split (g.name a).toList).map Word.lower

theorem wordsAbove_append (lower upper : List NodeId) :
    g.wordsAbove ignored (lower ++ upper) = g.wordsAbove ignored upper ++ g.wordsAbove ignored lower := by
  simp [wordsAbove]

theorem wordsAbove_of_kept {nodes : List NodeId} (h : ∀ a ∈ nodes, g.name a ∉ ignored) :
    g.wordsAbove ignored nodes = g.wordsAbove [] nodes := by
  have kept : ∀ a ∈ nodes.reverse,
      decide (g.name a ≠ "" ∧ g.name a ∉ ignored) = decide (g.name a ≠ "" ∧ g.name a ∉ []) := by
    intro a ha
    simp [h a (List.mem_reverse.mp ha)]
  rw [wordsAbove, wordsAbove, List.filter_congr kept]

theorem nameWords_eq_append (ignored : List String) (id : NodeId) : g.nameWords ignored id =
    g.wordsAbove ignored (g.ancestors id) ++ (Word.split (g.name id).toList).map Word.lower := by
  rw [nameWords, Word.split_intercalate, parentNames_eq, wordsAbove, List.flatMap_map, List.map_append,
    List.map_flatMap]

-- What is left out is above both of two types: until the ways up from them have met, no name is ignored.
def IgnoresAbove (g : Graph) (ignored : List String) (id id' : NodeId) : Prop :=
  ∃ own own' common, g.ancestors id = own ++ common ∧ g.ancestors id' = own' ++ common ∧
    ∀ a ∈ own ++ own', g.name a ∉ ignored

-- The words that are left out come back in front of both names.
theorem IgnoresAbove.nameWords_eq (a : g.IgnoresAbove ignored id id')
    (h : g.nameWords ignored id = g.nameWords ignored id') : g.nameWords [] id = g.nameWords [] id' := by
  obtain ⟨own, own', common, ha, ha', kept⟩ := a
  obtain ⟨kept, kept'⟩ := List.forall_mem_append.mp kept
  simp only [nameWords_eq_append, ha, ha', wordsAbove_append, wordsAbove_of_kept kept, wordsAbove_of_kept kept',
    List.append_assoc] at h ⊢
  rw [List.append_cancel_left h]

-- The text that the casing of a name is applied to.
def nameText (g : Graph) (s : Settings) (id : NodeId) : String :=
  Template.render (g.templateOf s id) (g.nameVariables s.ignoredParents id) true

theorem lowerWords_nameText_eq (alike : (g.casingOf s id).Alike (g.casingOf s id'))
    (h : g.typeName s id = g.typeName s id') : lowerWords (g.nameText s id) = lowerWords (g.nameText s id') := by
  rw [typeName_eq, typeName_eq] at h
  refine lowerWords_eq_iff.mpr (Casing.map_lower_eq_of_joinWords_eq alike Word.split_plain Word.split_plain ?_)
  exact String.ofList_injective h

theorem typeName_eq_iff (same : g.casingOf s id = g.casingOf s id') :
    g.typeName s id = g.typeName s id' ↔ lowerWords (g.nameText s id) = lowerWords (g.nameText s id') := by
  rw [typeName_eq, typeName_eq, same]
  exact Casing.apply_eq_iff

-- Two types whose templates put the same words around their names.
def FramedAlike (g : Graph) (s : Settings) (id id' : NodeId) : Prop :=
  ∃ (f : Template.Frame (g.templateOf s id)) (f' : Template.Frame (g.templateOf s id')),
    f.front = f'.front ∧ f.back = f'.back

theorem FramedAlike.lowerWords_nameText_eq_iff (framed : g.FramedAlike s id id') :
    lowerWords (g.nameText s id) = lowerWords (g.nameText s id') ↔
      g.nameWords s.ignoredParents id = g.nameWords s.ignoredParents id' := by
  obtain ⟨f, f', hf, hb⟩ := framed
  rw [lowerWords_eq_iff, nameText, nameText, words_name f, words_name f', hf, hb, List.append_left_inj,
    List.append_right_inj]

end Graph

-- What is known of two different entries, and what it takes for them to have one name.
structure Registry.Apart (g : Graph) (s : Settings) (e e' : Entry) : Prop where
  key : e.key ≠ e'.key
  -- whatever the templates are, a name tells the words of the filled template
  words : (g.casingOf s e.node).Alike (g.casingOf s e'.node) → e.name = e'.name →
    lowerWords (g.nameText s e.node) = lowerWords (g.nameText s e'.node)
  words_iff : g.casingOf s e.node = g.casingOf s e'.node →
    (e.name = e'.name ↔ lowerWords (g.nameText s e.node) = lowerWords (g.nameText s e'.node))
  -- these words are those of the names that are not ignored
  names_iff : g.FramedAlike s e.node e'.node →
    (lowerWords (g.nameText s e.node) = lowerWords (g.nameText s e'.node) ↔
      g.nameWords s.ignoredParents e.node = g.nameWords s.ignoredParents e'.node)
  -- and with all names in it, the key has the same words, so that only the schema file is another one
  file : g.FramedAlike s e.node e'.node → (g.casingOf s e.node).Alike (g.casingOf s e'.node) →
    g.IgnoresAbove s.ignoredParents e.node e'.node → e.name = e'.name →
      e.key.name = e'.key.name ∧ e.key.file ≠ e'.key.file

theorem names_distinct {g : Graph} {s : Settings} {r : Registry} (hb : Registry.build g s = .ok r)
    {e e' : Entry} (he : e ∈ r.entries) (he' : e' ∈ r.entries) (hne : e ≠ e') : Registry.Apart g s e e' := by
  have key : e.key ≠ e'.key := fun h =>
    hne (List.inj_on_of_nodup_map (Registry.build_keys_nodup hb) he he' h)
  have heq := Registry.build_entry_eq hb he
  have heq' := Registry.build_entry_eq hb he'
  have name : e.name = g.typeName s e.node := congrArg Entry.name heq
  have name' : e'.name = g.typeName s e'.node := congrArg Entry.name heq'
  constructor
  case key => exact key
  case words =>
    rw [name, name']
    exact Graph.lowerWords_nameText_eq
  case words_iff =>
    rw [name, name']
    exact Graph.typeName_eq_iff
  case names_iff => exact Graph.FramedAlike.lowerWords_nameText_eq_iff
  case file =>
    intro framed alike above hn
    rw [name, name'] at hn
    have words := framed.lowerWords_nameText_eq_iff.mp (Graph.lowerWords_nameText_eq alike hn)
    have canonical : e.key.name = e'.key.name := by
      rw [heq, heq']
      exact Graph.canonicalName_eq_iff_nameWords_eq.mpr (above.nameWords_eq words)
    exact ⟨canonical, fun file => key (TypeKey.mk.injEq .. |>.mpr ⟨file, canonical⟩)⟩

-- Types of one schema file, one of them in a service.
def Graph.shop : Graph :=
  ⟨#[{ name := "", parent := none, content := .package [1] },
     { name := "shop", parent := some 0, file := some "shop.proto", content := .package [2, 3, 5] },
     { name := "Cart", parent := some 1, content := .message [] [] [] },
     { name := "Depot", parent := some 1, content := .service [] [4] },
     { name := "Cart", parent := some 3, content := .message [] [] [] },
     { name := "Order", parent := some 1, content := .enum [⟨"NEW", 0⟩] }]⟩

-- The package is ignored, and the names of enums are in another casing.
def Settings.shop : Settings where
  ignoredParents := ["shop"]
  enumCasing := .snake

theorem names_distinct_shop : ∃ (r : Registry) (e e' : Entry),
    Registry.build Graph.shop .shop = .ok r ∧ e ∈ r.entries ∧ e' ∈ r.entries ∧ e.node = 4 ∧ e'.node = 5 ∧
    e.key.file = e'.key.file ∧ Registry.Apart Graph.shop .shop e e' ∧ e.name ≠ e'.name := by
  have hb : Registry.build Graph.shop .shop = .ok ⟨[2, 4, 5].map (Entry.of Graph.shop .shop)⟩ := rfl
  have he : Entry.of Graph.shop .shop 4 ∈ [2, 4, 5].map (Entry.of Graph.shop .shop) :=
    List.mem_map_of_mem (by simp)
  have he' : Entry.of Graph.shop .shop 5 ∈ [2, 4, 5].map (Entry.of Graph.shop .shop) :=
    List.mem_map_of_mem (by simp)
  have hne : Entry.of Graph.shop .shop 4 ≠ Entry.of Graph.shop .shop 5 := fun h => nomatch congrArg Entry.node h
  have apart := names_distinct hb he he' hne
  have framed : Graph.shop.FramedAlike .shop 4 5 := ⟨Template.Frame.standard, Template.Frame.standard, rfl, rfl⟩
  have above : Graph.shop.IgnoresAbove ["shop"] 4 5 := ⟨[3], [], [1, 0], rfl, rfl, by decide⟩
  have alike : (Graph.shop.casingOf .shop 4).Alike (Graph.shop.casingOf .shop 5) := by decide
  exact ⟨_, _, _, hb, he, he', rfl, rfl, rfl, apart, fun hn => (apart.file framed alike above hn).right rfl⟩

-- One schema file under two spellings of its path.
def Graph.mirror : Graph :=
  ⟨#[{ name := "", parent := none, content := .package [1, 3] },
     { name := "shop", parent := some 0, file := some "shop.proto", content := .package [2] },
     { name := "Cart", parent := some 1, content := .message [] [] [] },
     { name := "Shop", parent := some 0, file := some "/shop.proto", content := .package [4] },
     { name := "Cart", parent := some 3, content := .message [] [] [] }]⟩

-- Types whose names have the same letters in words of another length.
def Graph.letters : Graph :=
  ⟨#[{ name := "", parent := none, content := .package [1, 2, 3] },
     { name := "A_B", parent := some 0, content := .message [] [] [] },
     { name := "A", parent := some 0, content := .enum [⟨"NONE", 0⟩] },
     { name := "Ab", parent := some 0, content := .enum [⟨"NONE", 0⟩] }]⟩

-- Types whose names have the same words in another order.
def Graph.anagrams : Graph :=
  ⟨#[{ name := "", parent := none, content := .package [1, 3, 5] },
     { name := "x_b", parent := some 0, content := .package [2] },
     { name := "a", parent := some 1, content := .message [] [] [] },
     { name := "b", parent := some 0, content := .package [4] },
     { name := "a_x", parent := some 3, content := .message [] [] [] },
     { name := "b_x_a", parent := some 0, content := .message [] [] [] }]⟩

-- Some file declares a name twice, under settings that nothing is wrong with.
def Graph.Repeats (g : Graph) (s : Settings) : Prop :=
  s.problem? = none ∧ ∃ r ∈ (Registry.build g s).toOption, ∃ e ∈ r.entries, ∃ e' ∈ r.entries,
    e ≠ e' ∧ e.path = e'.path ∧ e.name = e'.name

instance : DecidableRel Graph.Repeats :=
  fun _ _ => inferInstanceAs (Decidable (_ ∧ _))

-- Names are repeated where one file is spelled in two ways, where a name above only one of two types is ignored,
-- where the names around a type do not stand right in front of its own, and where templates or casings differ.
theorem names_repeat : Graph.mirror.Repeats {} ∧
    Graph.shop.Repeats { ignoredParents := ["Depot"] } ∧
    Graph.shop.Repeats { typeTemplate := "\x7b\x7btypeName\x7d\x7d" } ∧
    Graph.anagrams.Repeats
      { typeTemplate := "\x7b\x7btypeName\x7d\x7d\x7b\x7bparentNodeNames\x7d\x7d" } ∧
    Graph.anagrams.Repeats
      { typeTemplate := "\x7b\x7bparentNodeNames\x7d\x7dX\x7b\x7btypeName\x7d\x7d" } ∧
    Graph.letters.Repeats { enumTemplate := Settings.defaultTemplate ++ "B" } ∧
    Graph.letters.Repeats { enumCasing := .constant } := by
  decide +kernel

end ProtoTypings
