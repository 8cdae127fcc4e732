import Mathlib
import ProtoTypings.Proofs.Pieces
import ProtoTypings.Proofs.Schema.Tree

namespace ProtoTypings

namespace Graph

variable {g : Graph} {a b c id p scope t : NodeId} {name : String} {front back : List String}

-- Packages, messages, enums and services.
def Declares (g : Graph) (id : NodeId) : Prop :=
  (g.kind? id).map Kind.slot = some .declarations

theorem declares_of_isType (ht : g.isType id = true) : g.Declares id := by
  have ⟨k, hk, ht⟩ := Option.any_eq_true .. |>.mp ht
  simp [Declares, hk, Kind.slot_of_isType ht]

theorem Declares.lt_size (hd : g.Declares id) : id < g.size := by
  have ⟨_, hk, _⟩ := Option.map_eq_some_iff.mp hd
  exact lt_size_of_kind? hk

namespace WellFormed

variable (w : g.WellFormed)
include w

theorem declares_root : g.Declares root := by
  simp [Declares, w.root_kind, Kind.slot]

-- Only declarations have other nodes below them.
theorem declares_parent (hp : g.parent? id = some p) : g.Declares p := by
  have ⟨j, k, hj, _, ha⟩ := w.admitted hp
  cases j <;> simp_all [Declares, Kind.admits, Kind.slot]

theorem declares_of_mem_lineage (hd : g.Declares id) (ha : a ∈ g.lineage id) : g.Declares a := by
  induction id using w.parent_induction
  case top id hp =>
    rw [lineage, ancestors_of_no_parent hp] at ha
    exact List.mem_singleton.mp ha ▸ hd
  case child id p hp hi =>
    rw [lineage, w.ancestors_of_parent hp] at ha
    cases List.mem_cons.mp ha
    case inl ha => exact ha ▸ hd
    case inr ha => exact hi (w.declares_parent hp) ha

theorem eq_root_or_parent (hd : g.Declares id) : id = root ∨ ∃ p, g.parent? id = some p := by
  cases hp : g.parent? id
  case none   => exact .inl (w.eq_root_of_no_parent hd.lt_size hp)
  case some p => exact .inr ⟨p, rfl⟩

theorem ne_root_of_parent (hp : g.parent? id = some p) : id ≠ root := by
  rintro rfl
  simp [w.root_parent] at hp

theorem ne_root_of_isType (ht : g.isType id = true) : id ≠ root := by
  rintro rfl
  simp [isType, w.root_kind, Kind.isType] at ht

end WellFormed

-- The names of the declarations of a graph, as a schema gives them.
structure Named (g : Graph) : Prop where
  root_name : g.name root = ""
  nonempty : ∀ {id}, g.Declares id → id ≠ root → g.name id ≠ ""
  dotless : ∀ {id}, g.Declares id → '.' ∉ (g.name id).toList
  apart : ∀ {a b p}, g.Declares a → g.Declares b → g.parent? a = some p → g.parent? b = some p →
    g.name a = g.name b → a = b

-- The names that a full name is made of.
def path (g : Graph) (id : NodeId) : List String :=
  ((g.lineage id).reverse.map g.name).filter (· ≠ "")

theorem fullName_eq (id : NodeId) : g.fullName id = ".".intercalate (g.path id) :=
  rfl

theorem empty_notMem_path : "" ∉ g.path id := by
  simp [path]

-- A name as a scope has it: with the full name of the scope in front, which the root does not have.
def qualify (g : Graph) (scope : NodeId) (name : String) : String :=
  if scope = root then name else g.fullName scope ++ "." ++ name

-- The type that a name stands for in a scope. With a dot in front it is the full name; without, the scopes
-- are tried from the given one up to the root.
inductive Denotes (g : Graph) (scope : NodeId) (name : String) (t : NodeId) : Prop
  | absolute : g.isType t = true → name = "." ++ g.fullName t → Denotes g scope name t
  | relative {inner outer : List NodeId} {a : NodeId} : g.isType t = true →
    (∀ rest, name ≠ "." ++ rest) → g.lineage scope = inner ++ a :: outer →
    g.fullName t = g.qualify a name →
    (∀ b ∈ inner, ∀ u, g.isType u = true → g.fullName u ≠ g.qualify b name) → Denotes g scope name t

-- The full names of all types.
def typeNames (g : Graph) : List String :=
  (g.ids.filter (g.isType ·)).map g.fullName

theorem mem_typeNames_iff {s : String} : s ∈ g.typeNames ↔ ∃ t, g.isType t = true ∧ g.fullName t = s := by
  rw [typeNames, List.mem_map]
  refine exists_congr fun t => and_congr_left fun _ => ?_
  rw [List.mem_filter]
  exact and_iff_right_of_imp fun ht => List.mem_range.mpr (declares_of_isType ht).lt_size

-- The full names that a name can stand for in a scope, the innermost first.
def candidates (g : Graph) (scope : NodeId) (name : String) : List String :=
  match Text.stripFront? "." name with
  | some rest => [rest]
  | none => (g.lineage scope).map (g.qualify · name)

namespace Named

variable (n : g.Named) (w : g.WellFormed)
include n w

theorem path_root : g.path root = [] := by
  simp [path, lineage, WellFormed.ancestors_of_no_parent w.root_parent, n.root_name]

theorem path_of_parent (hd : g.Declares id) (hp : g.parent? id = some p) :
    g.path id = g.path p ++ [g.name id] := by
  have hne := n.nonempty hd (w.ne_root_of_parent hp)
  rw [path, lineage, w.ancestors_of_parent hp, List.reverse_cons, List.map_append, List.filter_append]
  simp [path, hne]

theorem dotless_of_mem_path (hd : g.Declares id) (hn : name ∈ g.path id) : '.' ∉ name.toList := by
  have ⟨hn, _⟩ := List.mem_filter.mp hn
  have ⟨a, ha, heq⟩ := List.mem_map.mp hn
  exact heq ▸ n.dotless (w.declares_of_mem_lineage hd (List.mem_reverse.mp ha))

theorem path_eq_nil_iff (hd : g.Declares id) : g.path id = [] ↔ id = root := by
  constructor
  · intro h
    cases w.eq_root_or_parent hd
    case inl hr => exact hr
    case inr hp =>
      have ⟨p, hp⟩ := hp
      simp [n.path_of_parent w hd hp] at h
  · rintro rfl
    exact n.path_root w

-- By induction from the root downwards.
theorem eq_of_path_eq (ha : g.Declares a) (hb : g.Declares b) (h : g.path a = g.path b) : a = b := by
  induction a using w.parent_induction generalizing b
  case top a hp =>
    cases w.eq_root_or_parent ha
    case inr hp' => simp [hp] at hp'
    case inl hr =>
      rw [hr, n.path_root w, eq_comm, n.path_eq_nil_iff w hb] at h
      rw [hr, h]
  case child a p hp hi =>
    rw [n.path_of_parent w ha hp] at h
    cases w.eq_root_or_parent hb
    case inl hr => simp [hr, n.path_root w] at h
    case inr hq =>
      have ⟨q, hq⟩ := hq
      rw [n.path_of_parent w hb hq] at h
      have ⟨h, hn⟩ := List.append_inj' h rfl
      have heq := hi (w.declares_parent hp) (w.declares_parent hq) h
      exact n.apart ha hb (heq ▸ hp) hq (List.singleton_inj.mp hn)

-- The first names of a path lead to a declaration, too.
theorem exists_of_path_append (hd : g.Declares id) (h : g.path id = front ++ back) :
    ∃ c, g.Declares c ∧ g.path c = front := by
  induction id using w.parent_induction generalizing back
  case top id hp =>
    cases w.eq_root_or_parent hd
    case inr hp' => simp [hp] at hp'
    case inl hr =>
      rw [hr, n.path_root w, eq_comm, List.append_eq_nil_iff] at h
      exact ⟨root, w.declares_root, by rw [n.path_root w, h.left]⟩
  case child id p hp hi =>
    cases back using List.reverseRecOn
    case nil => exact ⟨id, hd, by rw [h, List.append_nil]⟩
    case append_singleton back name =>
      rw [n.path_of_parent w hd hp, ← List.append_assoc] at h
      exact hi (w.declares_parent hp) (List.append_inj' h rfl).left

theorem find_child_iff :
    (g.children a).find? (g.name · = name) = some c ↔ c ∈ g.children a ∧ g.name c = name := by
  constructor
  · intro h
    exact ⟨List.mem_of_find?_eq_some h, by simpa using List.find?_some h⟩
  · intro ⟨hc, hn⟩
    have found : ((g.children a).find? (g.name · = name)).isSome := List.find?_isSome.mpr ⟨c, hc, by simpa⟩
    have ⟨b, hb⟩ := Option.isSome_iff_exists.mp found
    have hm : g.name b = name := by simpa using List.find?_some hb
    have ⟨hp, hd⟩ := w.mem_children_iff.mp (List.mem_of_find?_eq_some hb)
    have ⟨hp', hd'⟩ := w.mem_children_iff.mp hc
    rw [hb, n.apart hd hd' hp hp' (hm.trans hn.symm)]

-- One step down adds one name.
theorem mem_children_iff_path (ha : g.Declares a) : c ∈ g.children a ∧ g.name c = name ↔
    g.Declares c ∧ g.path c = g.path a ++ [name] := by
  constructor
  · intro ⟨hc, hn⟩
    have ⟨hp, hd⟩ := w.mem_children_iff.mp hc
    exact ⟨hd, hn ▸ n.path_of_parent w hd hp⟩
  · intro ⟨hd, h⟩
    cases w.eq_root_or_parent hd
    case inl hr => simp [hr, n.path_root w] at h
    case inr hp =>
      have ⟨p, hp⟩ := hp
      rw [n.path_of_parent w hd hp] at h
      have ⟨h, hn⟩ := List.append_inj' h rfl
      have heq := n.eq_of_path_eq w (w.declares_parent hp) ha h
      exact ⟨w.mem_children_iff.mpr ⟨heq ▸ hp, hd⟩, List.singleton_inj.mp hn⟩

-- The induction is on the segments that are left.
theorem follow_iff (ha : g.Declares a) (segments : List String) :
    segments.foldlM (fun at_ segment => (g.children at_).find? (g.name · = segment)) a = some t ↔
      g.Declares t ∧ g.path t = g.path a ++ segments := by
  induction segments generalizing a
  case nil =>
    rw [List.foldlM_nil, List.append_nil]
    constructor
    · rintro ⟨⟩
      exact ⟨ha, rfl⟩
    · intro ⟨ht, h⟩
      exact congrArg some (n.eq_of_path_eq w ha ht h.symm)
  case cons segment segments hi =>
    rw [List.foldlM_cons, Option.bind_eq_bind, Option.bind_eq_some_iff]
    simp only [n.find_child_iff w, n.mem_children_iff_path w ha]
    constructor
    · intro ⟨c, ⟨hc, hpc⟩, hf⟩
      have ⟨ht, h⟩ := (hi hc).mp hf
      exact ⟨ht, by simp [h, hpc]⟩
    · intro ⟨ht, h⟩
      rw [List.append_cons] at h
      have ⟨c, hc, hpc⟩ := n.exists_of_path_append w ht h
      exact ⟨c, ⟨hc, hpc⟩, (hi hc).mpr ⟨ht, hpc ▸ h⟩⟩

theorem cut_fullName (hd : g.Declares id) (hr : id ≠ root) : Text.cut '.' (g.fullName id) = g.path id := by
  rw [fullName_eq]
  refine Text.cut_intercalate rfl (fun x hx => n.dotless_of_mem_path w hd hx) ?_
  exact (n.path_eq_nil_iff w hd).not.mpr hr

theorem eq_of_fullName_eq (ha : g.isType a = true) (hb : g.isType b = true)
    (h : g.fullName a = g.fullName b) : a = b := by
  have hda := declares_of_isType ha
  have hdb := declares_of_isType hb
  apply n.eq_of_path_eq w hda hdb
  rw [← n.cut_fullName w hda (w.ne_root_of_isType ha), h, n.cut_fullName w hdb (w.ne_root_of_isType hb)]

theorem fullName_eq_empty_iff (hd : g.Declares id) : g.fullName id = "" ↔ id = root := by
  constructor
  · intro h
    by_contra hr
    have cut := n.cut_fullName w hd hr
    rw [h, Text.cut_of_notMem (by simp)] at cut
    exact empty_notMem_path (cut ▸ List.mem_singleton_self "")
  · rintro rfl
    rw [fullName_eq, n.path_root w]
    rfl

-- All names on the path of a declaration have something in them, the first one, too.
theorem fullName_ne_dot (hd : g.Declares id) (rest : String) : g.fullName id ≠ "." ++ rest := by
  intro h
  have hr : id ≠ root := fun hr => by
    simp [(n.fullName_eq_empty_iff w hd).mpr hr] at h
  have cut := n.cut_fullName w hd hr
  rw [h, ← String.empty_append (s := "."), Text.cut_append rfl, Text.cut_of_notMem (by simp)] at cut
  exact empty_notMem_path (cut ▸ List.mem_append_left _ (List.mem_singleton_self ""))

theorem find?_eq_some_iff {s : String} : g.find? s = some t ↔
    g.Declares t ∧ g.fullName t = (Text.stripFront? "." s).getD s := by
  rw [find?]
  generalize (Text.stripFront? "." s).getD s = full
  by_cases he : full = ""
  case pos =>
    rw [if_pos he, he, Option.some_inj]
    constructor
    · rintro rfl
      exact ⟨w.declares_root, (n.fullName_eq_empty_iff w w.declares_root).mpr rfl⟩
    · rintro ⟨hd, h⟩
      exact ((n.fullName_eq_empty_iff w hd).mp h).symm
  case neg =>
    rw [if_neg he, findFrom, n.follow_iff w w.declares_root, n.path_root w, List.nil_append]
    refine and_congr_right fun hd => ?_
    constructor
    · intro h
      rw [fullName_eq, h, Text.intercalate_cut rfl]
    · rintro rfl
      exact (n.cut_fullName w hd ((n.fullName_eq_empty_iff w hd).not.mp he)).symm

theorem cut_qualify (ha : g.Declares a) (name : String) :
    Text.cut '.' (g.qualify a name) = g.path a ++ Text.cut '.' name := by
  have dot : ".".toList = ['.'] := rfl
  rw [qualify]
  split
  case isTrue hr  => rw [hr, n.path_root w, List.nil_append]
  case isFalse hr => rw [Text.cut_append dot, n.cut_fullName w ha hr]

theorem fullName_eq_qualify_iff (ha : g.Declares a) (ht : g.isType t = true) :
    g.fullName t = g.qualify a name ↔ g.path t = g.path a ++ Text.cut '.' name := by
  have hd := declares_of_isType ht
  rw [← n.cut_qualify w ha, ← n.cut_fullName w hd (w.ne_root_of_isType ht)]
  have dot : ".".toList = ['.'] := rfl
  constructor
  · exact congrArg _
  · intro h
    rw [← Text.intercalate_cut dot (g.fullName t), h, Text.intercalate_cut dot]

theorem findTypeFrom_iff (ha : g.Declares a) : g.findTypeFrom name a = some t ↔
    g.isType t = true ∧ g.fullName t = g.qualify a name := by
  rw [findTypeFrom, Option.filter_eq_some_iff, findFrom, n.follow_iff w ha, and_comm]
  refine and_congr_right fun ht => ?_
  rw [n.fullName_eq_qualify_iff w ha ht]
  exact and_iff_right (declares_of_isType ht)

theorem findTypeFrom_eq_none_iff (ha : g.Declares a) : g.findTypeFrom name a = none ↔
    ∀ u, g.isType u = true → g.fullName u ≠ g.qualify a name := by
  simp only [Option.eq_none_iff_forall_ne_some, ne_eq, n.findTypeFrom_iff w ha, not_and]

theorem lookup?_eq_some_iff (hs : g.Declares scope) :
    g.lookup? scope name = some t ↔ g.Denotes scope name t := by
  rw [lookup?]
  split
  case h_1 rest hr =>
    have hr := Text.stripFront?_eq_some_iff.mp hr
    rw [n.findTypeFrom_iff w w.declares_root, qualify, if_pos rfl]
    constructor
    · intro ⟨ht, h⟩
      exact .absolute ht (h ▸ hr)
    · intro h
      cases h
      case relative hn _ _ _ => exact absurd hr (hn rest)
      case absolute ht h     => exact ⟨ht, by simpa using h.symm.trans hr⟩
  case h_2 hr =>
    have hn (rest : String) : name ≠ "." ++ rest := fun h => by
      simp [Text.stripFront?_eq_some_iff.mpr h] at hr
    have declared {inner outer : List NodeId} {x : NodeId} (hl : g.lineage scope = inner ++ x :: outer) :
        g.Declares x ∧ ∀ y ∈ inner, g.Declares y := by
      have hd (y : NodeId) (hy : y ∈ inner ++ x :: outer) := w.declares_of_mem_lineage hs (hl ▸ hy)
      exact ⟨hd x (by simp), fun y hy => hd y (by simp [hy])⟩
    change (g.lineage scope).findSome? (g.findTypeFrom name) = some t ↔ _
    rw [List.findSome?_eq_some_iff]
    constructor
    · intro ⟨inner, a, outer, hl, ha, hi⟩
      have ⟨hda, hdi⟩ := declared hl
      have ⟨ht, h⟩ := (n.findTypeFrom_iff w hda).mp ha
      exact .relative ht hn hl h fun b hb => (n.findTypeFrom_eq_none_iff w (hdi b hb)).mp (hi b hb)
    · intro h
      cases h
      case absolute _ h => exact absurd h (hn _)
      case relative inner outer a ht _ hl h hi =>
        have ⟨hda, hdi⟩ := declared hl
        refine ⟨inner, a, outer, hl, (n.findTypeFrom_iff w hda).mpr ⟨ht, h⟩, fun b hb => ?_⟩
        exact (n.findTypeFrom_eq_none_iff w (hdi b hb)).mpr (hi b hb)

theorem findTypeFrom_fullName (ha : g.Declares a) : (g.findTypeFrom name a).map g.fullName =
    if g.qualify a name ∈ g.typeNames then some (g.qualify a name) else none := by
  cases hf : g.findTypeFrom name a
  case some t =>
    have ⟨ht, h⟩ := (n.findTypeFrom_iff w ha).mp hf
    rw [if_pos (mem_typeNames_iff.mpr ⟨t, ht, h⟩), ← h]
    rfl
  case none =>
    have hn := (n.findTypeFrom_eq_none_iff w ha).mp hf
    rw [if_neg fun hm => ?_]
    · rfl
    · have ⟨t, ht, h⟩ := mem_typeNames_iff.mp hm
      exact hn t ht h

-- The full name of what is looked up is the first candidate that is the full name of a type.
theorem lookup?_fullName (hs : g.Declares scope) : (g.lookup? scope name).map g.fullName =
    (g.candidates scope name).find? (· ∈ g.typeNames) := by
  rw [lookup?, candidates]
  cases Text.stripFront? "." name
  case some rest => simp [n.findTypeFrom_fullName w w.declares_root, qualify, List.find?_singleton]
  case none =>
    have hd : ∀ x ∈ g.lineage scope, g.Declares x := fun x hx => w.declares_of_mem_lineage hs hx
    change ((g.lineage scope).findSome? _).map _ = _
    generalize g.lineage scope = scopes at hd ⊢
    induction scopes
    case nil => rfl
    case cons x rest hi =>
      have ⟨hx, hd⟩ := List.forall_mem_cons.mp hd
      have found : (g.findTypeFrom name x).map g.fullName = _ := n.findTypeFrom_fullName w hx
      rw [List.findSome?_cons, List.map_cons, List.find?_cons]
      by_cases hm : g.qualify x name ∈ g.typeNames
      case pos =>
        rw [if_pos hm] at found
        have ⟨t, ht, heq⟩ := Option.map_eq_some_iff.mp found
        simp [ht, heq, hm]
      case neg =>
        rw [if_neg hm] at found
        rw [Option.map_eq_none_iff.mp found, decide_eq_false hm]
        exact hi hd

end Named

end Graph

end ProtoTypings
