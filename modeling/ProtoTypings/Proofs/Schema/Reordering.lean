import Mathlib
import ProtoTypings.Proofs.Schema.Resolution

namespace ProtoTypings

namespace Descriptor

-- The same declarations in another order, at any depth.
inductive Shuffle : List (String × Descriptor) → List (String × Descriptor) → Prop
  | nil : Shuffle [] []
  | cons {name : String} {d : Descriptor} {nested rest rest' : List (String × Descriptor)} :
    Shuffle d.nested nested → Shuffle rest rest' →
      Shuffle ((name, d) :: rest) ((name, { d with nested }) :: rest')
  | swap (a b : String × Descriptor) (rest : List (String × Descriptor)) :
    Shuffle (a :: b :: rest) (b :: a :: rest)
  | trans {ds ds' ds'' : List (String × Descriptor)} : Shuffle ds ds' → Shuffle ds' ds'' → Shuffle ds ds''

-- Descriptors that differ only in the order of declarations.
inductive Reordered : Descriptor → Descriptor → Prop
  | of_shuffle {d : Descriptor} {nested : List (String × Descriptor)} :
    Shuffle d.nested nested → Reordered d { d with nested }

namespace Shuffle

variable {ds ds' : List (String × Descriptor)} {P : Descriptor → Prop}

theorem symm (s : Shuffle ds ds') : Shuffle ds' ds := by
  induction s
  case nil => exact .nil
  case cons name d nested rest rest' _ _ hn hr =>
    obtain ⟨filename, _, fields, oneofs, values, methods⟩ := d
    exact .cons (d := ⟨filename, nested, fields, oneofs, values, methods⟩) hn hr
  case swap a b rest => exact .swap b a rest
  case trans hi hi' => exact .trans hi' hi

theorem heads_perm (s : Shuffle ds ds') :
    (ds.map fun c => (c.1, c.2.kind)).Perm (ds'.map fun c => (c.1, c.2.kind)) := by
  induction s
  case nil           => exact .nil
  case cons _ hr     => exact .cons _ hr
  case swap a b rest => exact .swap _ _ _
  case trans hi hi'  => exact hi.trans hi'

theorem linesBelow_perm (s : Shuffle ds ds') (above : List Label) :
    (linesBelow above ds).Perm (linesBelow above ds') := by
  induction s generalizing above
  case nil => exact .nil
  case cons name d nested rest rest' _ _ hn hr =>
    rw [linesBelow, linesBelow, lines_eq, lines_eq]
    exact ((hn _).append_left _).append (hr above)
  case swap a b rest =>
    rw [linesBelow, linesBelow, linesBelow, linesBelow]
    exact List.perm_append_comm_assoc _ _ _
  case trans hi hi' => exact (hi above).trans (hi' above)

-- What a node keeps when its declarations change places, all nodes keep.
theorem everywhere (keeps : ∀ {d : Descriptor} {nested}, Shuffle d.nested nested → P d → P { d with nested })
    (s : Shuffle ds ds') (hp : ∀ c ∈ ds, c.2.Everywhere P) : ∀ c ∈ ds', c.2.Everywhere P := by
  induction s
  case nil => exact hp
  case cons sn _ hn hr =>
    have ⟨hd, hp⟩ := List.forall_mem_cons.mp hp
    have ⟨pd, pc⟩ := everywhere_iff.mp hd
    exact List.forall_mem_cons.mpr ⟨everywhere_iff.mpr ⟨keeps sn pd, hn pc⟩, hr hp⟩
  case swap a b rest =>
    have ⟨ha, hp⟩ := List.forall_mem_cons.mp hp
    have ⟨hb, hp⟩ := List.forall_mem_cons.mp hp
    exact List.forall_mem_cons.mpr ⟨hb, List.forall_mem_cons.mpr ⟨ha, hp⟩⟩
  case trans hi hi' => exact hi' (hi hp)

variable {d : Descriptor} {nested : List (String × Descriptor)} (s : Shuffle d.nested nested)
include s

theorem keyed (k : d.Keyed) : Keyed { d with nested } where
  nested := by
    have perm := s.heads_perm.map Prod.fst
    simp only [List.map_map] at perm
    exact perm.nodup_iff.mp k.nested
  fields := k.fields
  oneofs := k.oneofs

theorem plain (p : d.Plain) : Plain { d with nested } := by
  intro c hc
  have ⟨c', hc', heq⟩ := List.mem_map.mp (s.heads_perm.mem_iff.mpr (List.mem_map_of_mem hc))
  exact (congrArg Prod.fst heq) ▸ p c' hc'

theorem sound (h : d.Sound) : Sound { d with nested } where
  rules := h.rules
  members := h.members
  apart := h.apart
  types_only hk c hc := by
    have ⟨c', hc', heq⟩ := List.mem_map.mp (s.heads_perm.mem_iff.mpr (List.mem_map_of_mem hc))
    have := h.types_only hk c' hc'
    rwa [(Prod.mk.inj heq).right] at this
  closed hk := by
    have perm := s.heads_perm
    rw [h.closed hk] at perm
    exact List.map_eq_nil_iff.mp perm.nil_eq.symm

end Shuffle

namespace Reordered

variable {d d' : Descriptor} {P : Descriptor → Prop} (r : d.Reordered d')
include r

theorem symm : d'.Reordered d := by
  cases r
  case of_shuffle nested s =>
    obtain ⟨filename, _, fields, oneofs, values, methods⟩ := d
    exact .of_shuffle (d := ⟨filename, nested, fields, oneofs, values, methods⟩) s.symm

theorem everywhere (keeps : ∀ {d : Descriptor} {nested}, Shuffle d.nested nested → P d → P { d with nested })
    (hp : d.Everywhere P) : d'.Everywhere P := by
  cases r
  case of_shuffle s =>
    have ⟨pd, pc⟩ := everywhere_iff.mp hp
    exact everywhere_iff.mpr ⟨keeps s pd, s.everywhere keeps pc⟩

theorem allLines_perm : d.allLines.Perm d'.allLines := by
  cases r
  case of_shuffle s => exact .cons _ (s.linesBelow_perm _)

theorem sound_below (h : ∀ x : Descriptor, x.Below d → x.Sound) : ∀ x : Descriptor, x.Below d' → x.Sound := by
  cases r
  case of_shuffle s => exact forall_below_iff.mpr (s.everywhere Shuffle.sound (forall_below_iff.mp h))

end Reordered

end Descriptor

namespace Graph

-- Nodes of two graphs that tell the same, and above which the same is told.
structure Matched (g h : Graph) (a b : NodeId) : Prop where
  left : a < g.size
  right : b < h.size
  line : g.line a = h.line b

variable {g h : Graph} {a b : NodeId} {s : Settings}

namespace Matched

variable (m : Matched g h a b)
include m

theorem symm : Matched h g b a :=
  ⟨m.right, m.left, m.line.symm⟩

theorem label_eq : g.label a = h.label b :=
  (List.cons.inj m.line).left

theorem above_eq : (g.ancestors a).map g.label = (h.ancestors b).map h.label :=
  (List.cons.inj m.line).right

theorem name_eq : g.name a = h.name b :=
  congrArg Label.name m.label_eq

theorem kind?_eq : g.kind? a = h.kind? b :=
  congrArg Label.kind m.label_eq

theorem isType_eq : g.isType a = h.isType b := by
  rw [isType, isType, m.kind?_eq]

theorem declares_iff : g.Declares a ↔ h.Declares b := by
  rw [Declares, Declares, m.kind?_eq]

theorem names_above : (g.ancestors a).map g.name = (h.ancestors b).map h.name := by
  simpa [Function.comp_def, label] using congrArg (List.map Label.name) m.above_eq

theorem fullName_eq : g.fullName a = h.fullName b := by
  rw [fullName, fullName, List.map_reverse, List.map_reverse, List.map_cons, List.map_cons, m.name_eq,
    m.names_above]

theorem sourceFile?_eq : g.sourceFile? a = h.sourceFile? b := by
  have file (g : Graph) (id : NodeId) : g.sourceFile? id = (g.line id).findSome? Label.file := by
    rw [Graph.line, List.findSome?_map]
    rfl
  rw [file, file, m.line]

end Matched

-- A graph where every node can be told by its line, and every field points at what its type stands for.
structure Regular (g : Graph) : Prop where
  wellFormed : g.WellFormed
  named : g.Named
  apart : ∀ {a b}, a < g.size → b < g.size → Label.key (g.line a) = Label.key (g.line b) → a = b
  resolved : ∀ {f data}, g.field? f = some data → ∃ message, g.parent? f = some message ∧
    g.isMessage message = true ∧ data.resolved = g.lookup? message data.typeName

theorem regular_of_ofDescriptor {d : Descriptor} (keyed : d.Everywhere Descriptor.Keyed)
    (plain : d.Everywhere Descriptor.Plain) (hg : ofDescriptor d = .ok g) : g.Regular := by
  have ⟨b, ho⟩ := (ofDescriptor_meets d).post_of_ok hg
  have w := b.reachable.wellFormed
  exact ⟨w, named_of_outline w ho keyed plain, eq_of_key_line_eq w ho keyed, resolved_eq hg⟩

-- Graphs with the same nodes at other places.
structure Rearranged (g h : Graph) : Prop where
  left : g.Regular
  right : h.Regular
  exists_right : ∀ {a}, a < g.size → ∃ b, Matched g h a b
  exists_left : ∀ {b}, b < h.size → ∃ a, Matched g h a b

namespace Rearranged

variable (r : Rearranged g h) {p q c : NodeId} {name : String}
include r

theorem symm : Rearranged h g where
  left := r.right
  right := r.left
  exists_right hl := (r.exists_left hl).imp fun _ => Matched.symm
  exists_left hl := (r.exists_right hl).imp fun _ => Matched.symm

theorem eq_of_matched (m : Matched g h a b) (m' : Matched g h a c) : b = c := by
  apply r.right.apart m.right m'.right
  rw [← m.line, m'.line]

-- Nodes below nodes that match match as well, and the other way round.
theorem exists_parent (m : Matched g h a b) (hp : g.parent? a = some p) :
    ∃ q, h.parent? b = some q ∧ Matched g h p q := by
  have w := r.left.wellFormed
  have w' := r.right.wellFormed
  have above := m.above_eq
  rw [w.ancestors_of_parent hp] at above
  cases hq : h.parent? b
  case none => simp [WellFormed.ancestors_of_no_parent hq, lineage] at above
  case some q =>
    rw [w'.ancestors_of_parent hq] at above
    have hl := (w.parent_lt hp).trans m.left
    have hr := (w'.parent_lt hq).trans m.right
    exact ⟨q, rfl, hl, hr, above⟩

theorem root_matched : Matched g h root root := by
  have ⟨b, m⟩ := r.exists_right (lt_size_of_kind? r.left.wellFormed.root_kind)
  cases hq : h.parent? b
  case none => exact r.right.wellFormed.eq_root_of_no_parent m.right hq ▸ m
  case some q =>
    have ⟨p, hp, _⟩ := r.symm.exists_parent m.symm hq
    simp [r.left.wellFormed.root_parent] at hp

theorem eq_root_iff (m : Matched g h a b) : a = root ↔ b = root := by
  constructor
  · rintro rfl
    exact r.eq_of_matched m r.root_matched
  · rintro rfl
    exact r.symm.eq_of_matched m.symm r.root_matched.symm

theorem qualify_eq (m : Matched g h a b) : g.qualify a name = h.qualify b name := by
  rw [qualify, qualify, m.fullName_eq]
  exact if_congr (r.eq_root_iff m) rfl rfl

-- The scopes around nodes that match match one by one.
theorem lineage_matched (m : Matched g h a b) : (g.lineage a).Forall₂ (Matched g h) (h.lineage b) := by
  induction a using r.left.wellFormed.parent_induction generalizing b
  case top a hp =>
    have ha := r.left.wellFormed.eq_root_of_no_parent m.left hp
    have hb := (r.eq_root_iff m).mp ha
    rw [lineage, lineage, WellFormed.ancestors_of_no_parent hp,
      WellFormed.ancestors_of_no_parent (hb ▸ r.right.wellFormed.root_parent)]
    exact .cons m .nil
  case child a p hp hi =>
    obtain ⟨q, hq, mq⟩ := r.exists_parent m hp
    rw [lineage, lineage, r.left.wellFormed.ancestors_of_parent hp, r.right.wellFormed.ancestors_of_parent hq]
    exact .cons m (hi mq)

theorem candidates_eq (m : Matched g h a b) : g.candidates a name = h.candidates b name := by
  rw [candidates, candidates]
  cases Text.stripFront? "." name
  case some rest => rfl
  case none =>
    have scopes : ((g.lineage a).map (g.qualify · name)).Forall₂ (· = ·)
        ((h.lineage b).map (h.qualify · name)) := by
      rw [List.forall₂_map_left_iff, List.forall₂_map_right_iff]
      exact (r.lineage_matched m).imp fun _ _ mx => r.qualify_eq mx
    rwa [List.forall₂_eq_eq_eq] at scopes

theorem typeNames_subset : g.typeNames ⊆ h.typeNames := by
  intro s hs
  have ⟨t, ht, heq⟩ := mem_typeNames_iff.mp hs
  have ⟨t', m⟩ := r.exists_right (declares_of_isType ht).lt_size
  exact mem_typeNames_iff.mpr ⟨t', m.isType_eq ▸ ht, m.fullName_eq ▸ heq⟩

-- In scopes that match a name stands for types of one full name.
theorem lookup?_fullName_eq (m : Matched g h a b) (hd : g.Declares a) :
    (g.lookup? a name).map g.fullName = (h.lookup? b name).map h.fullName := by
  rw [r.left.named.lookup?_fullName r.left.wellFormed hd,
    r.right.named.lookup?_fullName r.right.wellFormed (m.declares_iff.mp hd), r.candidates_eq m]
  congr 1
  funext s
  exact decide_eq_decide.mpr ⟨fun hs => r.typeNames_subset hs, fun hs => r.symm.typeNames_subset hs⟩

-- Messages of one full name match.
theorem matched_of_fullName_eq (ha : g.isMessage a = true) (hb : h.isMessage b = true)
    (hn : g.fullName a = h.fullName b) : Matched g h a b := by
  have isType {g : Graph} {a : NodeId} (ha : g.isMessage a = true) : g.isType a = true := by
    simp [Graph.isType, of_decide_eq_true ha, Kind.isType]
  obtain ⟨c, m⟩ := r.exists_right (declares_of_isType (isType ha)).lt_size
  have hc : h.isType c = true := m.isType_eq ▸ isType ha
  have heq := r.right.named.eq_of_fullName_eq r.right.wellFormed hc (isType hb) (m.fullName_eq.symm.trans hn)
  exact heq ▸ m

-- Fields of one name in messages of one full name match.
theorem field_matched {data data' : Field} (hf : g.field? a = some data) (hf' : h.field? b = some data')
    (hp : g.parent? a = some p) (hq : h.parent? b = some q) (mp : Matched g h p q)
    (hn : g.name a = h.name b) : Matched g h a b := by
  have ⟨c, m⟩ := r.exists_right (lt_size_of_field? hf)
  have ⟨q', hq', mq⟩ := r.exists_parent m hp
  cases r.eq_of_matched mp mq
  have heq : c = b := by
    apply r.right.apart m.right (lt_size_of_field? hf')
    have slot : (h.kind? c).map Kind.slot = (h.kind? b).map Kind.slot := by
      rw [← m.kind?_eq, field_slot hf, field_slot hf']
    rw [r.right.wellFormed.line_of_parent hq', r.right.wellFormed.line_of_parent hq]
    simp [Label.key, label, slot, ← m.name_eq, hn]
  exact heq ▸ m

end Rearranged

-- The full name of the message of a field.
def owner? (g : Graph) (f : NodeId) : Option String :=
  (g.parent? f).map g.fullName

-- Graphs with the same fields, by the names of their messages and their own names, and with the same types
-- for them, by their full names.
structure SameFields (g h : Graph) : Prop where
  exists_right : ∀ {f data}, g.field? f = some data → ∃ f' data', h.field? f' = some data' ∧
    g.owner? f = h.owner? f' ∧ g.name f = h.name f'
  exists_left : ∀ {f' data'}, h.field? f' = some data' → ∃ f data, g.field? f = some data ∧
    g.owner? f = h.owner? f' ∧ g.name f = h.name f'
  resolved : ∀ {f data f' data'}, g.field? f = some data → h.field? f' = some data' →
    g.owner? f = h.owner? f' → g.name f = h.name f' →
      data.resolved.map g.fullName = data'.resolved.map h.fullName

namespace Rearranged

variable (r : Rearranged g h) {f f' : NodeId} {data data' : Field}
include r

theorem exists_field (hf : g.field? f = some data) : ∃ f' data', h.field? f' = some data' ∧
    g.owner? f = h.owner? f' ∧ g.name f = h.name f' := by
  have ⟨f', m⟩ := r.exists_right (lt_size_of_field? hf)
  have ⟨message, hp, _⟩ := r.left.resolved hf
  have ⟨q, hq, mq⟩ := r.exists_parent m hp
  have typeName : (g.field? f).map Field.typeName = (h.field? f').map Field.typeName :=
    congrArg Label.typeName m.label_eq
  rw [hf] at typeName
  have ⟨data', hf', _⟩ := Option.map_eq_some_iff.mp typeName.symm
  exact ⟨f', data', hf', by rw [owner?, owner?, hp, hq, Option.map_some, Option.map_some, mq.fullName_eq],
    m.name_eq⟩

theorem resolved_eq (hf : g.field? f = some data) (hf' : h.field? f' = some data')
    (ho : g.owner? f = h.owner? f') (hn : g.name f = h.name f') :
    data.resolved.map g.fullName = data'.resolved.map h.fullName := by
  have ⟨p, hp, hm, hr⟩ := r.left.resolved hf
  have ⟨q, hq, hm', hr'⟩ := r.right.resolved hf'
  rw [owner?, owner?, hp, hq, Option.map_some, Option.map_some, Option.some.injEq] at ho
  have mp := r.matched_of_fullName_eq hm hm' ho
  have m := r.field_matched hf hf' hp hq mp hn
  have typeName : (g.field? f).map Field.typeName = (h.field? f').map Field.typeName :=
    congrArg Label.typeName m.label_eq
  rw [hf, hf', Option.map_some, Option.map_some, Option.some.injEq] at typeName
  rw [hr, hr', typeName]
  exact r.lookup?_fullName_eq mp (r.left.wellFormed.declares_parent hp)

theorem sameFields : SameFields g h where
  exists_right := r.exists_field
  exists_left hf := by
    have ⟨f, data, hf, ho, hn⟩ := r.symm.exists_field hf
    exact ⟨f, data, hf, ho.symm, hn.symm⟩
  resolved := r.resolved_eq

end Rearranged

end Graph

namespace Descriptor.Reordered

variable {d d' : Descriptor} (r : d.Reordered d')
include r

theorem loads_iff : (∃ g, Graph.ofDescriptor d = .ok g) ↔ ∃ g, Graph.ofDescriptor d' = .ok g := by
  rw [(Graph.ofDescriptor_meets d).exists_ok_iff, (Graph.ofDescriptor_meets d').exists_ok_iff]
  exact ⟨r.sound_below, r.symm.sound_below⟩

theorem rearranged (keyed : d.Everywhere Keyed) (plain : d.Everywhere Plain) {g h : Graph}
    (hg : Graph.ofDescriptor d = .ok g) (hh : Graph.ofDescriptor d' = .ok h) : g.Rearranged h := by
  have left := Graph.regular_of_ofDescriptor keyed plain hg
  have keyed' := r.everywhere Shuffle.keyed keyed
  have plain' := r.everywhere Shuffle.plain plain
  have right := Graph.regular_of_ofDescriptor keyed' plain' hh
  have ⟨_, ho⟩ := (Graph.ofDescriptor_meets d).post_of_ok hg
  have ⟨_, ho'⟩ := (Graph.ofDescriptor_meets d').post_of_ok hh
  refine ⟨left, right, fun {a} hl => ?_, fun {b} hr => ?_⟩
  · have hm := r.allLines_perm.mem_iff.mp (Graph.line_mem_allLines left.wellFormed ho hl)
    have ⟨b, hr, heq⟩ := Graph.exists_line_eq right.wellFormed ho' hm
    exact ⟨b, hl, hr, heq.symm⟩
  · have hm := r.allLines_perm.mem_iff.mpr (Graph.line_mem_allLines right.wellFormed ho' hr)
    have ⟨a, hl, heq⟩ := Graph.exists_line_eq left.wellFormed ho hm
    exact ⟨a, hl, hr, heq⟩

end Descriptor.Reordered

end ProtoTypings
