import Mathlib
import ProtoTypings.Proofs.Descriptor
import ProtoTypings.Proofs.Schema.Names

namespace ProtoTypings

-- A node without its place, and without the places of others.
structure Label where
  name : String
  kind : Option Kind
  file : Option String := none
  -- the type of a field, as the schema spells it
  typeName : Option String := none

def Node.label (n : Node) : Label where
  name := n.name
  kind := some n.content.kind
  file := n.file
  typeName := n.content.field?.map Field.typeName

namespace Graph

variable {g : Graph} {id p : NodeId}

def label (g : Graph) (id : NodeId) : Label where
  name := g.name id
  kind := g.kind? id
  file := (g.node? id).bind Node.file
  typeName := (g.field? id).map Field.typeName

-- The labels from a node up to the root.
def line (g : Graph) (id : NodeId) : List Label :=
  (g.lineage id).map g.label

theorem label_of_outline {n : Node} (hn : g.outline[id]? = some n) : g.label id = n.label := by
  have ⟨m, hm, heq⟩ := Option.map_eq_some_iff.mp (getElem?_outline id ▸ hn)
  simp [label, name, kind?, field?, hm, ← heq, Node.label, Node.bare, Content.field?_bare, Function.comp_def]

theorem WellFormed.line_of_parent (w : g.WellFormed) (hp : g.parent? id = some p) :
    g.line id = g.label id :: g.line p := by
  rw [line, lineage, w.ancestors_of_parent hp, List.map_cons, line]

theorem WellFormed.line_root (w : g.WellFormed) : g.line root = [g.label root] := by
  rw [line, lineage, ancestors_of_no_parent w.root_parent, List.map_singleton]

end Graph

namespace Descriptor

def label (name : String) (d : Descriptor) : Label where
  name := name
  kind := some d.kind
  file := d.filename

def fieldLabel (f : String × FieldSpec) : Label where
  name := f.1
  kind := some (if f.2.keyType.isSome then .mapField else .field)
  typeName := some f.2.typeName

def oneofLabel (o : String × List String) : Label where
  name := o.1
  kind := some .oneof

-- The fields and groups of a declaration.
def parts (d : Descriptor) : List Label :=
  d.fields.elim [] fun fields => fields.map fieldLabel ++ d.oneofs.map oneofLabel

mutual

-- The lines of a declaration and of all that is in it, where `above` is the line of the node above.
def lines (above : List Label) (name : String) : Descriptor → List (List Label)
  | ⟨filename, nested, fields, oneofs, values, methods⟩ =>
    let d : Descriptor := ⟨filename, [], fields, oneofs, values, methods⟩
    let own := d.label name :: above
    own :: d.parts.map (· :: own) ++ linesBelow own nested

def linesBelow (above : List Label) : List (String × Descriptor) → List (List Label)
  | [] => []
  | (name, d) :: rest => lines above name d ++ linesBelow above rest

end

def rootLabel (d : Descriptor) : Label where
  name := ""
  kind := some .package
  file := d.filename

-- The lines of the root and of all declarations below it.
def allLines (d : Descriptor) : List (List Label) :=
  [d.rootLabel] :: linesBelow [d.rootLabel] d.nested

variable {d : Descriptor} {name : String} {above l : List Label} {ds : List (String × Descriptor)}

theorem lines_eq : d.lines above name =
    (d.label name :: above) :: d.parts.map (· :: d.label name :: above) ++
      linesBelow (d.label name :: above) d.nested := by
  obtain ⟨filename, nested, fields, oneofs, values, methods⟩ := d
  rw [lines]
  rfl

theorem nodes_eq (parent id : NodeId) : d.nodes parent id name = d.ownNodes parent id name ++
    nodesBelow id (id + (d.ownNodes parent id name).length) d.nested := by
  obtain ⟨filename, nested, fields, oneofs, values, methods⟩ := d
  rw [nodes]
  rfl

theorem mem_linesBelow_iff : l ∈ linesBelow above ds ↔ ∃ c ∈ ds, l ∈ c.2.lines above c.1 := by
  induction ds
  case nil => simp [linesBelow]
  case cons c rest hi => rw [linesBelow, List.mem_append, hi, List.exists_mem_cons_iff]

-- A line of a declaration goes on above it.
theorem exists_of_mem_lines (hl : l ∈ d.lines above name) : ∃ front, l = front ++ d.label name :: above := by
  induction d using tree_induction generalizing above name
  case step d hi =>
    rw [lines_eq, List.cons_append, List.mem_cons, List.mem_append, List.mem_map, mem_linesBelow_iff] at hl
    rcases hl with rfl | ⟨part, _, rfl⟩ | ⟨c, hc, hl⟩
    · exact ⟨[], rfl⟩
    · exact ⟨[part], rfl⟩
    · have ⟨front, heq⟩ := hi c hc hl
      exact ⟨front ++ [c.2.label c.1], by simp [heq]⟩

theorem exists_of_mem_linesBelow (hl : l ∈ linesBelow above ds) :
    ∃ c ∈ ds, ∃ front, l = front ++ c.2.label c.1 :: above := by
  have ⟨c, hc, hl⟩ := mem_linesBelow_iff.mp hl
  exact ⟨c, hc, exists_of_mem_lines hl⟩

theorem body_labels (id : NodeId) : (d.body id).map Node.label = d.parts := by
  rw [body, parts]
  cases d.fields
  case none => rfl
  case some fields =>
    have field (f : String × FieldSpec) (group : Option NodeId) :
        (fieldNode id group f).label = fieldLabel f := rfl
    have oneof (o : String × List String) : (oneofNode id fields o).label = oneofLabel o := rfl
    have fieldNodes_labels (oneofs : List (String × List String)) :
        (fieldNodes id fields oneofs).map Node.label = fields.map fieldLabel := by
      apply List.ext_getElem?
      intro i
      simp [fieldNodes, Function.comp_def, field]
    simp [bodyNodes, fieldNodes_labels, oneofNodes, Function.comp_def, oneof]

theorem parent_of_mem_body {id : NodeId} {n : Node} (hn : n ∈ d.body id) : n.parent = some id := by
  rw [body] at hn
  cases hf : d.fields
  case none => simp [hf] at hn
  case some fields =>
    rw [hf] at hn
    cases List.mem_append.mp hn
    case inl hn =>
      have ⟨_, _, heq⟩ := List.mem_mapIdx.mp hn
      exact heq ▸ rfl
    case inr hn =>
      have ⟨_, _, heq⟩ := List.mem_map.mp hn
      exact heq ▸ rfl

end Descriptor

namespace Graph

variable {g : Graph} {place p : NodeId} {n : Node} {nodes nodes' : List Node} {d : Descriptor} {name : String}

-- The nodes from a place on, without their lists.
def At (g : Graph) (place : NodeId) (nodes : List Node) : Prop :=
  ∀ i n, nodes[i]? = some n → g.outline[place + i]? = some n

namespace At

theorem head (h : g.At place (n :: nodes)) : g.outline[place]? = some n :=
  h 0 n rfl

theorem tail (h : g.At place (n :: nodes)) : g.At (place + 1) nodes := by
  intro i m hm
  rw [Nat.add_assoc, Nat.add_comm 1]
  exact h (i + 1) m hm

theorem left (h : g.At place (nodes ++ nodes')) : g.At place nodes := by
  intro i m hm
  have ⟨hl, _⟩ := List.getElem?_eq_some_iff.mp hm
  exact h i m (by rwa [List.getElem?_append_left hl])

theorem right (h : g.At place (nodes ++ nodes')) : g.At (place + nodes.length) nodes' := by
  intro i m hm
  rw [Nat.add_assoc]
  exact h _ m (by rwa [List.getElem?_append_right (by omega), Nat.add_sub_cancel_left])

variable (w : g.WellFormed)
include w

theorem line_head (h : g.At place (n :: nodes)) (hp : n.parent = some p) :
    g.line place = n.label :: g.line p := by
  rw [w.line_of_parent ((parent?_of_outline h.head).trans hp), label_of_outline h.head]

-- Nodes that all stand below one node.
theorem map_line_siblings (h : g.At place nodes) (hp : ∀ n ∈ nodes, n.parent = some p) :
    (List.range' place nodes.length).map g.line = (nodes.map Node.label).map (· :: g.line p) := by
  induction nodes generalizing place
  case nil => rfl
  case cons n nodes hi =>
    have ⟨hn, hp⟩ := List.forall_mem_cons.mp hp
    rw [List.length_cons, List.range'_succ, List.map_cons, h.line_head w hn, hi h.tail hp]
    rfl

theorem line_own (h : g.At place (d.ownNodes p place name)) : g.line place = d.label name :: g.line p := by
  have hf : d.content.field? = none := by
    unfold Descriptor.content
    split <;> rfl
  rw [h.line_head w rfl]
  simp [Node.label, Descriptor.label, Descriptor.kind, hf]

theorem map_line_ownNodes (h : g.At place (d.ownNodes p place name)) :
    (List.range' place (d.ownNodes p place name).length).map g.line =
      (d.label name :: g.line p) :: d.parts.map (· :: d.label name :: g.line p) := by
  have own := h.line_own w
  rw [Descriptor.ownNodes, List.length_cons, List.range'_succ, List.map_cons, own,
    h.tail.map_line_siblings w fun _ => Descriptor.parent_of_mem_body, Descriptor.body_labels, own]

omit w in
theorem map_line_nodesBelow {ds : List (String × Descriptor)}
    (h : g.At place (Descriptor.nodesBelow p place ds))
    (hi : ∀ c ∈ ds, ∀ {place}, g.At place (c.2.nodes p place c.1) →
      (List.range' place (c.2.nodes p place c.1).length).map g.line = c.2.lines (g.line p) c.1) :
    (List.range' place (Descriptor.nodesBelow p place ds).length).map g.line =
      Descriptor.linesBelow (g.line p) ds := by
  induction ds generalizing place
  case nil => rfl
  case cons c rest hr =>
    have ⟨hc, hi⟩ := List.forall_mem_cons.mp hi
    rw [Descriptor.nodesBelow] at h ⊢
    rw [List.length_append, ← List.range'_append_1, List.map_append, hc h.left, hr h.right hi,
      Descriptor.linesBelow]

-- By the recursion of `nodes`: the node itself, its fields and groups, and what is declared in it.
theorem map_line_nodes (h : g.At place (d.nodes p place name)) :
    (List.range' place (d.nodes p place name).length).map g.line = d.lines (g.line p) name := by
  induction d using Descriptor.tree_induction generalizing place p name
  case step d hi =>
    rw [Descriptor.nodes_eq] at h ⊢
    rw [List.length_append, ← List.range'_append_1, List.map_append, h.left.map_line_ownNodes w,
      h.right.map_line_nodesBelow fun c hc _ h => hi c hc h, h.left.line_own w, Descriptor.lines_eq]

end At

theorem at_root (ho : g.outline = d.outline) : g.At root d.outline := by
  intro i n hn
  rwa [ho, root, Nat.zero_add]

theorem label_root (ho : g.outline = d.outline) : g.label root = d.rootLabel :=
  label_of_outline (at_root ho).head

-- The lines of a graph are those of its descriptor, one for each node.
theorem map_line_ids (w : g.WellFormed) (ho : g.outline = d.outline) : g.ids.map g.line = d.allLines := by
  have top : g.line root = [d.rootLabel] := by rw [w.line_root, label_root ho]
  have below := (at_root ho).tail.map_line_nodesBelow fun c _ _ h => h.map_line_nodes w
  rw [ids, ← length_outline, ho, List.range_eq_range', Descriptor.outline, List.length_cons,
    List.range'_succ, List.map_cons, Descriptor.allLines, ← top]
  exact congrArg _ below

end Graph

-- The list a node is in, and the names on its line.
def Label.key (l : List Label) : Option Slot × List String :=
  ((l.head?.bind Label.kind).map Kind.slot, l.map Label.name)

namespace Descriptor

variable {d : Descriptor} {name : String} {above l : List Label} {ds : List (String × Descriptor)}

theorem label_slot (d : Descriptor) (name : String) :
    (d.label name).kind.map Kind.slot = some .declarations := by
  have hd := d.kind_mem
  revert hd
  rw [label]
  cases d.kind <;> simp [Kind.slot]

theorem fieldLabel_slot (f : String × FieldSpec) : (fieldLabel f).kind.map Kind.slot = some .fields := by
  rw [fieldLabel]
  split <;> rfl

theorem slot_of_mem_parts {x : Label} (hx : x ∈ d.parts) :
    x.kind.map Kind.slot = some .fields ∨ x.kind.map Kind.slot = some .oneofs := by
  rw [parts] at hx
  cases hf : d.fields
  case none => simp [hf] at hx
  case some fields =>
    rw [hf] at hx
    cases List.mem_append.mp hx
    case inl hx =>
      have ⟨f, _, heq⟩ := List.mem_map.mp hx
      exact .inl (heq ▸ fieldLabel_slot f)
    case inr hx =>
      have ⟨o, _, heq⟩ := List.mem_map.mp hx
      exact .inr (heq ▸ rfl)

-- Fields are told apart by their names, and so are groups.
theorem parts_nodup (k : d.Keyed) (above : List Label) :
    ((d.parts.map (· :: above)).map Label.key).Nodup := by
  have inj (σ : Slot) : Function.Injective fun name => (some σ, name :: above.map Label.name) :=
    fun _ _ h => (List.cons.inj (Prod.mk.inj h).right).left
  cases hf : d.fields
  case none => simp [parts, hf]
  case some fields =>
    have keys : (d.parts.map (· :: above)).map Label.key =
        (fields.map Prod.fst).map (fun name => (some .fields, name :: above.map Label.name)) ++
          (d.oneofs.map Prod.fst).map (fun name => (some .oneofs, name :: above.map Label.name)) := by
      simp [parts, hf, Label.key, Function.comp_def, fieldLabel_slot]
      simp [fieldLabel, oneofLabel, Kind.slot]
    rw [keys, List.nodup_append']
    refine ⟨(k.fields fields hf).map (inj _), k.oneofs.map (inj _), ?_⟩
    intro key hk hk'
    obtain ⟨_, _, heq⟩ := List.mem_map.mp hk
    obtain ⟨_, _, heq'⟩ := List.mem_map.mp hk'
    cases heq.trans heq'.symm

-- The names of two declarations are at the same place of the lines through them.
theorem linesBelow_nodup (hn : (ds.map Prod.fst).Nodup)
    (hc : ∀ c ∈ ds, ((c.2.lines above c.1).map Label.key).Nodup) :
    ((linesBelow above ds).map Label.key).Nodup := by
  induction ds
  case nil => exact List.nodup_nil
  case cons c rest hi =>
    have ⟨hnc, hn⟩ := List.nodup_cons.mp hn
    have ⟨hc, hr⟩ := List.forall_mem_cons.mp hc
    rw [linesBelow, List.map_append, List.nodup_append']
    refine ⟨hc, hi hn hr, ?_⟩
    intro key hk hk'
    have ⟨l, hl, heq⟩ := List.mem_map.mp hk
    have ⟨l', hl', heq'⟩ := List.mem_map.mp hk'
    have ⟨front, hf⟩ := exists_of_mem_lines hl
    have ⟨c', hc', front', hf'⟩ := exists_of_mem_linesBelow hl'
    have names : l.map Label.name = l'.map Label.name := congrArg Prod.snd (heq.trans heq'.symm)
    rw [hf, hf', List.map_append, List.map_append] at names
    have names := (List.cons.inj (List.append_inj' names (by simp)).right).left
    exact hnc (List.mem_map.mpr ⟨c', hc', names.symm⟩)

theorem lines_nodup (k : d.Everywhere Keyed) : ((d.lines above name).map Label.key).Nodup := by
  induction d using tree_induction generalizing above name
  case step d hi =>
    have ⟨kd, kc⟩ := everywhere_iff.mp k
    rw [lines_eq, List.map_append, List.map_cons, List.cons_append, List.nodup_cons, List.mem_append,
      List.nodup_append']
    refine ⟨?_, parts_nodup kd _, linesBelow_nodup kd.nested fun c hc => hi c hc (kc c hc), ?_⟩
    -- the line of the declaration itself is the shortest
    · rintro (hk | hk)
      · have ⟨l, hl, heq⟩ := List.mem_map.mp hk
        have ⟨x, _, hx⟩ := List.mem_map.mp hl
        have := congrArg (fun key => key.snd.length) heq
        simp [Label.key, ← hx] at this
      · have ⟨l, hl, heq⟩ := List.mem_map.mp hk
        have ⟨c, _, front, hf⟩ := exists_of_mem_linesBelow hl
        have := congrArg (fun key => key.snd.length) heq
        simp [Label.key, hf] at this
        omega
    -- a line as long as that of a part is that of another declaration
    · intro key hk hk'
      have ⟨l, hl, heq⟩ := List.mem_map.mp hk
      have ⟨x, hx, hlx⟩ := List.mem_map.mp hl
      have ⟨l', hl', heq'⟩ := List.mem_map.mp hk'
      have ⟨c, _, front, hf⟩ := exists_of_mem_linesBelow hl'
      have hkey : Label.key (x :: d.label name :: above) =
          Label.key (front ++ c.2.label c.1 :: d.label name :: above) := by
        rw [hlx, heq, ← hf, heq']
      have hlen := congrArg (fun key => key.snd.length) hkey
      have hnil : front = [] := by simpa [Label.key] using hlen
      have hslot : x.kind.map Kind.slot = some .declarations := by
        rw [hnil] at hkey
        exact (congrArg Prod.fst hkey).trans (label_slot c.2 c.1)
      rcases slot_of_mem_parts hx with h | h <;> simp [hslot] at h

theorem allLines_nodup (k : d.Everywhere Keyed) : (d.allLines.map Label.key).Nodup := by
  have ⟨kd, kc⟩ := everywhere_iff.mp k
  rw [allLines, List.map_cons, List.nodup_cons]
  refine ⟨fun hk => ?_, linesBelow_nodup kd.nested fun c hc => lines_nodup (kc c hc)⟩
  have ⟨l, hl, heq⟩ := List.mem_map.mp hk
  have ⟨c, _, front, hf⟩ := exists_of_mem_linesBelow hl
  have := congrArg (fun key => key.snd.length) heq
  simp [Label.key, hf] at this

theorem plain_of_mem_lines (pd : d.Everywhere Plain) (pn : name ≠ "" ∧ '.' ∉ name.toList)
    (hl : l ∈ d.lines above name) {x : Label} (hx : l.head? = some x)
    (hk : x.kind.map Kind.slot = some .declarations) : x.name ≠ "" ∧ '.' ∉ x.name.toList := by
  induction d using tree_induction generalizing above name
  case step d hi =>
    have ⟨pd, pc⟩ := everywhere_iff.mp pd
    rw [lines_eq, List.cons_append, List.mem_cons, List.mem_append, List.mem_map, mem_linesBelow_iff] at hl
    rcases hl with rfl | ⟨part, hp, rfl⟩ | ⟨c, hc, hl⟩
    · cases hx
      exact pn
    · cases hx
      rcases slot_of_mem_parts hp with h | h <;> simp [hk] at h
    · exact hi c hc (pc c hc) (pd c hc) hl

end Descriptor

namespace Graph

variable {g : Graph} {d : Descriptor} {id a b : NodeId} (w : g.WellFormed) (ho : g.outline = d.outline)
include w ho

theorem line_mem_allLines (hl : id < g.size) : g.line id ∈ d.allLines := by
  rw [← map_line_ids w ho]
  exact List.mem_map_of_mem (List.mem_range.mpr hl)

theorem exists_line_eq {l : List Label} (hl : l ∈ d.allLines) : ∃ id < g.size, g.line id = l := by
  rw [← map_line_ids w ho] at hl
  have ⟨id, hid, heq⟩ := List.mem_map.mp hl
  exact ⟨id, List.mem_range.mp hid, heq⟩

-- A node can be told by its line.
theorem eq_of_key_line_eq (k : d.Everywhere Descriptor.Keyed) (ha : a < g.size) (hb : b < g.size)
    (h : Label.key (g.line a) = Label.key (g.line b)) : a = b := by
  have hn := Descriptor.allLines_nodup k
  rw [← map_line_ids w ho, List.map_map] at hn
  exact List.inj_on_of_nodup_map hn (List.mem_range.mpr ha) (List.mem_range.mpr hb) h

theorem plain_name (pl : d.Everywhere Descriptor.Plain) (hd : g.Declares id) (hr : id ≠ root) :
    g.name id ≠ "" ∧ '.' ∉ (g.name id).toList := by
  obtain ⟨p, hp⟩ := (w.eq_root_or_parent hd).resolve_left hr
  have hl := line_mem_allLines w ho hd.lt_size
  rw [Descriptor.allLines, List.mem_cons, Descriptor.mem_linesBelow_iff] at hl
  rcases hl with hl | ⟨c, hc, hl⟩
  · rw [w.line_of_parent hp, line, lineage] at hl
    simp at hl
  · obtain ⟨pd, pc⟩ := Descriptor.everywhere_iff.mp pl
    exact Descriptor.plain_of_mem_lines (x := g.label id) (pc c hc) (pd c hc) hl rfl hd

theorem named_of_outline (k : d.Everywhere Descriptor.Keyed) (pl : d.Everywhere Descriptor.Plain) :
    g.Named := by
  have root_name : g.name root = "" := congrArg Label.name (label_root ho)
  constructor
  case root_name => exact root_name
  case nonempty  => exact fun hd hr => (plain_name w ho pl hd hr).left
  case dotless =>
    intro id hd
    by_cases hr : id = root
    · simp [hr, root_name]
    · exact (plain_name w ho pl hd hr).right
  case apart =>
    intro a b p ha hb hpa hpb hn
    apply eq_of_key_line_eq w ho k ha.lt_size hb.lt_size
    rw [w.line_of_parent hpa, w.line_of_parent hpb]
    simp [Label.key, label, hn, ha.trans hb.symm]

end Graph

end ProtoTypings
