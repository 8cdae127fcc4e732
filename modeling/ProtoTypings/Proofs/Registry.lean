import Mathlib
import ProtoTypings.Proofs.Schema.Tree
import ProtoTypings.Registry.Basic

namespace ProtoTypings

namespace Graph

-- A type with a declaration of its own: no message holds it, and no package above it is left out.
structure Registrable (g : Graph) (s : Settings) (id : NodeId) : Prop where
  is_type : g.isType id = true
  outer : g.isNested id = false
  kept : ∀ a ∈ g.ancestors id, a ≠ root → g.kind? a = some .package → s.ignores (g.name a) = false

theorem registrable_iff {g : Graph} {s : Settings} {id : NodeId} : g.Registrable s id ↔
    g.isType id = true ∧ g.isNested id = false ∧
      ∀ a ∈ g.ancestors id, a ≠ root → g.kind? a = some .package → s.ignores (g.name a) = false where
  mp  := fun ⟨is_type, outer, kept⟩ => ⟨is_type, outer, kept⟩
  mpr := fun ⟨is_type, outer, kept⟩ => ⟨is_type, outer, kept⟩

instance {g : Graph} {s : Settings} : DecidablePred (g.Registrable s) :=
  fun _ => decidable_of_iff' _ registrable_iff

-- A declaration that the walk comes to.
structure OnWalk (g : Graph) (s : Settings) (id : NodeId) : Prop where
  declaration : (g.kind? id).map Kind.slot = some .declarations
  outer : g.isNested id = false
  kept : ∀ a ∈ g.ancestors id, a ≠ root → g.kind? a = some .package → s.ignores (g.name a) = false

end Graph

-- The type that a stop of the walk is about.
def Visit.type? : Visit → Option NodeId
  | declared type => some type
  | ignored _ => none

namespace Graph

variable {g : Graph} {s : Settings}

theorem root_onWalk (w : g.WellFormed) : g.OnWalk s root where
  declaration := by simp [w.root_kind, Kind.slot]
  outer := by simp [isNested, w.root_parent]
  kept := by simp [WellFormed.ancestors_of_no_parent w.root_parent]

namespace OnWalk

variable {id : NodeId} (o : g.OnWalk s id)
include o

theorem registrable_iff_isType : g.Registrable s id ↔ g.isType id = true :=
  ⟨fun r => r.is_type, fun h => ⟨h, o.outer, o.kept⟩⟩

-- The walk goes on below a package that is not ignored, and below a service.
theorem child (w : g.WellFormed) {c : NodeId} (hc : c ∈ g.children id) (hm : g.isMessage id = false)
    (hi : id ≠ root → g.kind? id = some .package → s.ignores (g.name id) = false) :
    g.OnWalk s c := by
  have ⟨hp, hd⟩ := w.mem_children_iff.mp hc
  refine ⟨hd, by simp [isNested, hp, hm], ?_⟩
  rw [w.ancestors_of_parent hp]
  intro a ha
  cases List.mem_cons.mp ha
  case inl ha => exact ha ▸ hi
  case inr ha => exact o.kept a ha

end OnWalk

-- Nothing below an ignored package is registered.
theorem not_registrable_below_ignored (w : g.WellFormed) {id x : NodeId} {below : List NodeId}
    (d : DepthFirst g (g.children id) below) (hx : x ∈ below) (hk : g.kind? id = some .package)
    (hr : id ≠ root) (hi : s.ignores (g.name id) = true) : ¬g.Registrable s x := by
  intro r
  have ⟨c, hc, hl⟩ := d.exists_mem_lineage w hx
  have hp := (w.mem_children_iff.mp hc).left
  have ha : id ∈ g.ancestors x := by
    have : id ∈ g.lineage x := w.lineage_subset hl (by simp [lineage, w.ancestors_of_parent hp])
    exact (List.mem_cons.mp this).resolve_left (Nat.ne_of_lt (d.lt_of_mem_below w hx))
  simp [r.kept id ha hr hk] at hi

-- A node in a message that has another node below it is a message, too.
theorem isMessage_of_isNested (w : g.WellFormed) {id c : NodeId} (hn : g.isNested id = true)
    (hc : g.parent? c = some id) : g.isMessage id = true := by
  simp only [isNested, Option.any_eq_true, isMessage, decide_eq_true_eq] at hn ⊢
  have ⟨p, hp, hm⟩ := hn
  have ⟨j, k, hj, hk, ha⟩ := w.admitted hp
  have ⟨k', _, hk', _, ha'⟩ := w.admitted hc
  cases hm.symm.trans hj
  cases hk.symm.trans hk'
  cases k <;> simp_all [Kind.admits, Kind.isType]

-- What stands in a message is held by a message all the way down.
theorem isNested_below_message (w : g.WellFormed) {pending order : List NodeId}
    (d : DepthFirst g pending order) (hp : ∀ id ∈ pending, g.isNested id = true) :
    ∀ x ∈ order, g.isNested x = true := by
  induction d
  case nil => exact hp
  case cons id rest below after _ _ hb ha =>
    have hid := hp id List.mem_cons_self
    intro x hx
    cases List.mem_cons.mp hx
    case inl hx => exact hx ▸ hid
    case inr hx =>
      cases List.mem_append.mp hx
      case inr hx => exact ha (fun q hq => hp q (List.mem_cons_of_mem _ hq)) x hx
      case inl hx =>
        refine hb (fun c hc => ?_) x hx
        have hpc := (w.mem_children_iff.mp hc).left
        simp [isNested, hpc, isMessage_of_isNested w hid hpc]

theorem children_of_enum {id : NodeId} (hk : g.kind? id = some .enum) : g.children id = [] := by
  have ⟨n, hn, hc⟩ := Option.map_eq_some_iff.mp hk
  cases h : n.content <;> simp_all [children, Content.children, Content.kind]

-- A stop of the walk: what is found at a node and below it, given what is found below it in case
-- that the walk goes on there.
theorem visit_types (w : g.WellFormed) {id : NodeId} {below : List NodeId} {depth : Nat}
    (o : g.OnWalk s id) (d : DepthFirst g (g.children id) below)
    (enter : (∀ c ∈ g.children id, g.OnWalk s c) →
      ((g.children id).flatMap (visits.go g s depth)).filterMap Visit.type? =
        below.filter (g.Registrable s ·)) :
    (visits.go g s (depth + 1) id).filterMap Visit.type? =
      (id :: below).filter (g.Registrable s ·) := by
  obtain ⟨k, hk, hs⟩ := Option.map_eq_some_iff.mp o.declaration
  have hr := o.registrable_iff_isType
  cases k <;> simp only [Kind.slot, reduceCtorEq] at hs
  case package =>
    rw [List.filter_cons_of_neg (by simp [hr, isType, hk, Kind.isType])]
    simp only [visits.go, hk]
    split
    case isTrue hi =>
      rw [List.filter_eq_nil_iff.mpr fun x hx => by
        simpa using not_registrable_below_ignored w d hx hk hi.left hi.right]
      rfl
    case isFalse hi =>
      refine enter fun c hc => o.child w hc (by simp [isMessage, hk]) fun hn _ => ?_
      simpa [hn] using hi
  case service =>
    rw [List.filter_cons_of_neg (by simp [hr, isType, hk, Kind.isType])]
    simp only [visits.go, hk]
    exact enter fun c hc => o.child w hc (by simp [isMessage, hk]) (by simp [hk])
  case message =>
    have hb : below.filter (g.Registrable s ·) = [] := by
      refine List.filter_eq_nil_iff.mpr fun x hx => ?_
      have hn := isNested_below_message w d (fun c hc => ?_) x hx
      · simp only [decide_eq_true_eq]
        intro r
        simp [r.outer] at hn
      · simp [isNested, (w.mem_children_iff.mp hc).left, isMessage, hk]
    rw [List.filter_cons_of_pos (by simp [hr, isType, hk, Kind.isType]), hb]
    simp [visits.go, hk, o.outer, Visit.type?]
  case enum =>
    rw [children_of_enum hk] at d
    cases d
    rw [List.filter_cons_of_pos (by simp [hr, isType, hk, Kind.isType]), List.filter_nil]
    simp [visits.go, hk, o.outer, Visit.type?]
  case method =>
    obtain ⟨n, _, hm⟩ := Option.map_eq_some_iff.mp hk
    exact absurd hm n.content.kind_ne_method

-- The types that the walk declares are the ones to register, in depth-first order.
theorem visits_types (w : g.WellFormed) {pending order : List NodeId} (d : DepthFirst g pending order)
    {depth : Nat} (ho : ∀ id ∈ pending, g.OnWalk s id) (hd : ∀ id ∈ pending, g.size ≤ id + depth) :
    (pending.flatMap (visits.go g s depth)).filterMap Visit.type? =
      order.filter (g.Registrable s ·) := by
  induction d generalizing depth
  case nil => rfl
  case cons id rest below after d _ hb ha =>
    have o := ho id List.mem_cons_self
    have hs := hd id List.mem_cons_self
    cases depth
    case zero =>
      have ⟨_, hk, _⟩ := Option.map_eq_some_iff.mp o.declaration
      exact absurd (lt_size_of_kind? hk) (Nat.not_lt.mpr hs)
    case succ depth =>
      have hid := visit_types w o d fun hc => hb hc fun c hm => by
        have hlt := w.parent_lt (w.mem_children_iff.mp hm).left
        exact hs.trans (Nat.succ_add_eq_add_succ id depth ▸ Nat.add_le_add_right hlt depth)
      have hrest := ha (fun q hq => ho q (List.mem_cons_of_mem _ hq))
        (fun q hq => hd q (List.mem_cons_of_mem _ hq))
      rw [List.flatMap_cons, List.filterMap_append, hid, hrest, ← List.filter_append,
        List.cons_append]

-- Whatever the graph, only messages and enums are declared on the walk.
theorem isType_of_mem_go {depth : Nat} {id type : NodeId}
    (h : type ∈ (visits.go g s depth id).filterMap Visit.type?) : g.isType type = true := by
  induction depth generalizing id
  case zero => contradiction
  case succ depth hi =>
    have below (h : type ∈ ((g.children id).flatMap (visits.go g s depth)).filterMap Visit.type?) :
        g.isType type = true := by
      obtain ⟨v, hv, ht⟩ := List.mem_filterMap.mp h
      obtain ⟨child, _, hv⟩ := List.mem_flatMap.mp hv
      exact hi (List.mem_filterMap.mpr ⟨v, hv, ht⟩)
    have here (k : Kind) (hk : g.kind? id = some k) (ht : k.isType = true)
        (h : type ∈ (if g.isNested id then [] else [Visit.declared id]).filterMap Visit.type?) :
        g.isType type = true := by
      split at h
      case isTrue  => contradiction
      case isFalse =>
        cases List.mem_singleton.mp h
        simp [isType, hk, ht]
    simp only [visits.go] at h
    split at h
    case h_1 =>
      split at h
      case isTrue  => contradiction
      case isFalse => exact below h
    case h_2    => exact below h
    case h_3 hk => exact here _ hk rfl h
    case h_4 hk => exact here _ hk rfl h
    case h_5    => contradiction

theorem visits_eq (w : g.WellFormed) {order : List NodeId} (d : DepthFirst g [root] order) :
    (g.visits s).filterMap Visit.type? = order.filter (g.Registrable s ·) := by
  rw [← visits_types w d (by simpa using root_onWalk w) fun _ _ => Nat.le_add_left _ _,
    List.flatMap_singleton, visits]

end Graph

namespace Registry

variable {g : Graph} {s : Settings} {r r' : Registry} {e : Entry}

-- What an insertion can do: nothing, because the node has the key already, or it adds an entry with
-- a key of its own.
theorem insert_cases {isNew : Bool} (h : r.insert g e = .ok (r', isNew)) :
    (r' = r ∧ (∃ known ∈ r.entries, known.key = e.key ∧ known.node = e.node) ∧ isNew = false) ∨
      (r'.entries = r.entries ++ [e] ∧ (∀ known ∈ r.entries, known.key ≠ e.key) ∧ isNew = true) := by
  simp only [insert] at h
  split at h
  case h_1 known hf =>
    split at h <;> simp only [reduceCtorEq, Except.ok.injEq, Prod.mk.injEq] at h
    have hk := List.find?_some hf
    exact .inl ⟨h.left.symm, ⟨known, List.mem_of_find?_eq_some hf, by simpa using hk, ‹_›⟩, h.right.symm⟩
  case h_2 hf =>
    simp only [Except.ok.injEq, Prod.mk.injEq] at h
    exact .inr ⟨by rw [← h.left], by simpa using hf, h.right.symm⟩

theorem insert_of_mem (hk : (r.entries.map Entry.key).Nodup) (he : e ∈ r.entries) :
    r.insert g e = .ok (r, false) := by
  have hf : r.entries.find? (·.key = e.key) = some e := by
    cases hf : r.entries.find? (·.key = e.key)
    case none       => simpa using List.find?_eq_none.mp hf e he
    case some known =>
      have heq : known.key = e.key := by simpa using List.find?_some hf
      rw [List.inj_on_of_nodup_map hk (List.mem_of_find?_eq_some hf) he heq]
  simp [insert, hf]

theorem insert_keys_nodup {isNew : Bool} (h : r.insert g e = .ok (r', isNew))
    (hk : (r.entries.map Entry.key).Nodup) : (r'.entries.map Entry.key).Nodup := by
  cases insert_cases h
  case inl h => exact h.left ▸ hk
  case inr h =>
    rw [h.left, List.map_append, List.map_singleton, ← List.concat_eq_append]
    exact hk.concat (by simpa using h.right.left)

variable {visits : List Visit}

theorem filterMap_declared {id : NodeId} :
    (Visit.declared id :: visits).filterMap Visit.type? = id :: visits.filterMap Visit.type? :=
  rfl

theorem collectVisits_keys_nodup (hk : (r.entries.map Entry.key).Nodup) :
    ((collectVisits g s r visits).registry.entries.map Entry.key).Nodup := by
  induction visits generalizing r
  case nil => exact hk
  case cons v visits hi =>
    cases v
    case ignored => exact hi hk
    case declared id =>
      simp only [collectVisits]
      split
      case h_1   => exact hk
      case h_2 h => exact hi (insert_keys_nodup h hk)

-- Whatever the graph, only the types on the walk are entered.
theorem collectVisits_mem (he : e ∈ (collectVisits g s r visits).registry.entries) :
    e ∈ r.entries ∨ ∃ id ∈ visits.filterMap Visit.type?, e = Entry.of g s id := by
  induction visits generalizing r
  case nil => exact .inl he
  case cons v visits hi =>
    cases v
    case ignored => exact hi he
    case declared id =>
      rw [filterMap_declared]
      simp only [collectVisits] at he
      split at he
      case h_1 => exact .inl he
      case h_2 h =>
        rcases hi he with he | ⟨id', hm, he⟩
        case inr => exact .inr ⟨id', List.mem_cons_of_mem _ hm, he⟩
        case inl =>
          cases insert_cases h
          case inl h => exact .inl (h.left ▸ he)
          case inr h =>
            rw [h.left] at he
            cases List.mem_append.mp he
            case inl he => exact .inl he
            case inr he => exact .inr ⟨id, List.mem_cons_self, List.mem_singleton.mp he⟩

-- A walk by types that are not registered yet enters all of them, unless two types collide.
theorem collectVisits_entries (hn : (visits.filterMap Visit.type?).Nodup)
    (hd : ∀ id ∈ visits.filterMap Visit.type?, ∀ e ∈ r.entries, e.node ≠ id)
    (hc : (collectVisits g s r visits).collision = none) :
    (collectVisits g s r visits).registry.entries =
      r.entries ++ (visits.filterMap Visit.type?).map (Entry.of g s) := by
  induction visits generalizing r
  case nil => simp [collectVisits]
  case cons v visits hi =>
    cases v
    case ignored => exact hi hn hd hc
    case declared id =>
      rw [filterMap_declared] at hn hd ⊢
      have ⟨hid, hn⟩ := List.nodup_cons.mp hn
      have ⟨hnew, hd⟩ := List.forall_mem_cons.mp hd
      simp only [collectVisits] at hc ⊢
      split at hc <;> [contradiction; skip]
      case h_2 r' isNew h =>
        cases insert_cases h
        case inl h =>
          obtain ⟨-, ⟨known, hm, -, hid⟩, -⟩ := h
          exact absurd hid (hnew known hm)
        case inr h =>
          rw [hi hn _ hc, h.left]
          · simp
          · intro id' hid' e he
            rw [h.left] at he
            cases List.mem_append.mp he
            case inl he => exact hd id' hid' e he
            case inr he =>
              cases List.mem_singleton.mp he
              rintro rfl
              exact hid hid'

-- A walk by types that are registered changes nothing.
theorem collectVisits_of_registered (hk : (r.entries.map Entry.key).Nodup)
    (hr : ∀ id ∈ visits.filterMap Visit.type?, Entry.of g s id ∈ r.entries) :
    (collectVisits g s r visits).collision = none ∧ (collectVisits g s r visits).registry = r := by
  induction visits
  case nil => exact ⟨rfl, rfl⟩
  case cons v visits hi =>
    cases v
    case ignored => exact hi hr
    case declared id =>
      have ⟨hid, hr⟩ := List.forall_mem_cons.mp (filterMap_declared ▸ hr)
      simp only [collectVisits, insert_of_mem hk hid]
      exact hi hr

theorem lookup?_eq_none_iff {id : NodeId} : r.lookup? id = none ↔ ∀ e ∈ r.entries, e.node ≠ id := by
  simp [lookup?]

theorem mem_of_lookup? {id : NodeId} (h : r.lookup? id = some e) : e ∈ r.entries ∧ e.node = id :=
  ⟨by simpa using List.mem_of_find?_eq_some h, by simpa using List.find?_some h⟩

theorem lookup?_of_mem (hn : (r.entries.map Entry.node).Nodup) (he : e ∈ r.entries) :
    r.lookup? e.node = some e := by
  cases hl : r.lookup? e.node
  case none   => exact absurd rfl (lookup?_eq_none_iff.mp hl e he)
  case some f =>
    have ⟨hf, hid⟩ := mem_of_lookup? hl
    rw [List.inj_on_of_nodup_map hn hf he hid]

section Index

variable {index : Std.HashMap NodeId Nat}

-- Where the entry of a node stands.
structure Indexes (index : Std.HashMap NodeId Nat) (r : Registry) : Prop where
  bounded : ∀ (id : NodeId) (i : Nat), index[id]? = some i → i < r.size
  answers : ∀ id : NodeId, index[id]?.bind (r.entries[·]?) = r.lookup? id

theorem Indexes.contains_eq (h : Indexes index r) (id : NodeId) : index.contains id = r.contains id := by
  rw [contains, ← h.answers id, Std.HashMap.contains_eq_isSome_getElem?]
  cases hi : index[id]?
  case none   => rfl
  case some i => simpa [size] using h.bounded id i hi

theorem lookup?_append (id : NodeId) :
    lookup? ⟨r.entries ++ [e]⟩ id = if e.node = id then some e else r.lookup? id := by
  rw [lookup?, List.reverse_append, List.reverse_singleton, List.singleton_append, List.find?_cons]
  by_cases h : e.node = id <;> simp [h, lookup?]

-- An index that is kept along with the entries: it takes in the place of a new entry, and no other.
def reindex (r : Registry) (index : Std.HashMap NodeId Nat) (e : Entry) (isNew : Bool) : Std.HashMap NodeId Nat :=
  if isNew then index.insert e.node r.size else index

theorem insert_indexes {isNew : Bool} (h : r.insert g e = .ok (r', isNew)) (hi : Indexes index r) :
    Indexes (r.reindex index e isNew) r' := by
  rcases insert_cases h with ⟨rfl, -, rfl⟩ | ⟨he, -, rfl⟩
  case inl => exact hi
  case inr =>
    obtain rfl : r' = ⟨r.entries ++ [e]⟩ := congrArg Registry.mk he
    have found (id : NodeId) : (r.reindex index e true)[id]? = if e.node = id then some r.size else index[id]? := by
      simp [reindex, Std.HashMap.getElem?_insert]
    constructor
    case bounded =>
      intro id i hid
      rw [found] at hid
      split at hid
      case isTrue  => simpa [size] using (Option.some.inj hid).symm.le
      case isFalse => exact (hi.bounded id i hid).trans (by simp [size])
    case answers =>
      intro id
      rw [found, lookup?_append]
      split
      case isTrue  => simp [size]
      case isFalse =>
        rw [← hi.answers id]
        refine Option.bind_congr fun i hid => ?_
        exact List.getElem?_append_left (hi.bounded id i hid)

-- The index that a walk leaves behind.
def indexVisits (g : Graph) (s : Settings) :
    Registry → Std.HashMap NodeId Nat → List Visit → Std.HashMap NodeId Nat
  | _, index, [] => index
  | r, index, .ignored _ :: rest => indexVisits g s r index rest
  | r, index, .declared id :: rest =>
    match r.insert g (Entry.of g s id) with
    | .error _ => index
    | .ok (r', isNew) => indexVisits g s r' (r.reindex index (Entry.of g s id) isNew) rest

theorem collectVisits_indexes (hi : Indexes index r) :
    Indexes (indexVisits g s r index visits) (collectVisits g s r visits).registry := by
  induction visits generalizing r index
  case nil => exact hi
  case cons v visits step =>
    cases v
    case ignored => exact step hi
    case declared id =>
      rcases h : r.insert g (Entry.of g s id) with _ | ⟨r', isNew⟩
      case error =>
        simp only [collectVisits, indexVisits, h]
        exact hi
      case ok =>
        simp only [collectVisits, indexVisits, h]
        exact step (insert_indexes h hi)

end Index

theorem mem_files_iff {path : String} : path ∈ r.files ↔ ∃ e ∈ r.entries, e.path = path := by
  rw [files, List.mem_eraseDups, List.mem_map]

-- Files are in the order of their first entries.
theorem files_ordered : r.files.Pairwise fun p q =>
    (r.entries.map Entry.path).idxOf p < (r.entries.map Entry.path).idxOf q := by
  rw [files]
  induction r.entries.map Entry.path using List.reverseRecOn
  case nil => exact .nil
  case append_singleton paths path hi =>
    have before {p : String} (hp : p ∈ paths.eraseDups) : (paths ++ [path]).idxOf p = paths.idxOf p :=
      List.idxOf_append_of_mem (List.mem_eraseDups.mp hp)
    have hi : paths.eraseDups.Pairwise fun p q => (paths ++ [path]).idxOf p < (paths ++ [path]).idxOf q :=
      hi.imp_of_mem fun hp hq h => by rwa [before hp, before hq]
    rw [List.eraseDups_append]
    by_cases hp : path ∈ paths
    case pos => simpa [List.removeAll, hp] using hi
    case neg =>
      have new : ([path].removeAll paths).eraseDups = [path] := by
        simp [List.removeAll, hp, List.eraseDups_cons]
      rw [new, List.pairwise_append]
      refine ⟨hi, List.pairwise_singleton _ _, fun p hm q hq => ?_⟩
      rw [List.mem_singleton.mp hq, before hm, List.idxOf_append_of_notMem hp]
      exact Nat.lt_add_right _ (List.idxOf_lt_length_of_mem (List.mem_eraseDups.mp hm))

theorem files_nodup : r.files.Nodup := by
  refine files_ordered.imp fun h heq => ?_
  exact Nat.lt_irrefl _ (heq ▸ h)

theorem build_eq_ok_iff : build g s = .ok r ↔
    (collect {} g s).collision = none ∧ (collect {} g s).registry = r := by
  simp only [build]
  split <;> simp_all

-- What a registry knows about the types of a graph.
structure Exact (g : Graph) (s : Settings) (r : Registry) : Prop where
  nodes : ∀ id, (∃ e ∈ r.entries, e.node = id) ↔ g.Registrable s id
  once : (r.entries.map Entry.node).Nodup
  ordered : ∃ order, g.DepthFirst [Graph.root] order ∧
    r.entries = (order.filter (g.Registrable s ·)).map (Entry.of g s)
  found : ∀ e ∈ r.entries, r.lookup? e.node = some e ∧ r.contains e.node = true
  missed : ∀ id, ¬g.Registrable s id → r.lookup? id = none ∧ r.contains id = false
  -- an index by node that is kept from the first entry on gives the same answers
  indexed : ∀ id : NodeId, ((indexVisits g s {} ∅ (g.visits s))[id]?.bind fun i => r.entries[i]?) = r.lookup? id ∧
    (indexVisits g s {} ∅ (g.visits s)).contains id = r.contains id
  keys : (r.entries.map Entry.key).Nodup
  settled : (r.collect g s).collision = none ∧ (r.collect g s).registry = r

variable (w : g.WellFormed) (hb : build g s = .ok r)
include w hb

theorem build_entries {order : List NodeId} (d : g.DepthFirst [Graph.root] order) :
    r.entries = (order.filter (g.Registrable s ·)).map (Entry.of g s) := by
  have ⟨hc, hr⟩ := build_eq_ok_iff.mp hb
  have hn : ((g.visits s).filterMap Visit.type?).Nodup :=
    Graph.visits_eq w d ▸ (d.nodup_of_root w).filter _
  rw [← hr, collect, collectVisits_entries hn (by simp) hc, Graph.visits_eq w d, List.nil_append]

section

omit w

theorem build_keys_nodup : (r.entries.map Entry.key).Nodup :=
  (build_eq_ok_iff.mp hb).right ▸ collectVisits_keys_nodup List.nodup_nil

theorem build_indexes : Indexes (indexVisits g s {} ∅ (g.visits s)) r := by
  have none : Indexes ∅ ({} : Registry) := ⟨by simp, by simp [lookup?]⟩
  exact (build_eq_ok_iff.mp hb).right ▸ collectVisits_indexes none

theorem exists_visit_of_mem (he : e ∈ r.entries) :
    ∃ id ∈ (g.visits s).filterMap Visit.type?, e = Entry.of g s id :=
  (collectVisits_mem ((build_eq_ok_iff.mp hb).right ▸ he)).resolve_left List.not_mem_nil

theorem build_entry_eq (he : e ∈ r.entries) : e = Entry.of g s e.node := by
  have ⟨id, _, h⟩ := exists_visit_of_mem hb he
  rw [h]
  rfl

theorem build_isType (he : e ∈ r.entries) : g.isType e.node = true := by
  have ⟨id, hid, h⟩ := exists_visit_of_mem hb he
  rw [h]
  exact Graph.isType_of_mem_go hid

end

-- The entries of a registry that was built, one by one.
theorem mem_build_iff : e ∈ r.entries ↔ g.Registrable s e.node ∧ e = Entry.of g s e.node := by
  have ⟨order, d⟩ := Graph.DepthFirst.exists_of_wellFormed w [Graph.root]
  rw [build_entries w hb d]
  simp only [List.mem_map, List.mem_filter, decide_eq_true_eq]
  constructor
  · rintro ⟨id, ⟨_, hid⟩, rfl⟩
    exact ⟨hid, rfl⟩
  · intro ⟨hid, he⟩
    refine ⟨e.node, ⟨d.mem_of_declaration w ?_, hid⟩, he.symm⟩
    have ⟨k, hk, ht⟩ := Option.any_eq_true .. |>.mp hid.is_type
    simp [hk, Kind.slot_of_isType ht]

theorem build_nodes_nodup : (r.entries.map Entry.node).Nodup := by
  have ⟨order, d⟩ := Graph.DepthFirst.exists_of_wellFormed w [Graph.root]
  rw [build_entries w hb d, List.map_map]
  exact ((d.nodup_of_root w).filter _).map Function.injective_id

theorem collect_build : (r.collect g s).collision = none ∧ (r.collect g s).registry = r := by
  have ⟨order, d⟩ := Graph.DepthFirst.exists_of_wellFormed w [Graph.root]
  refine collectVisits_of_registered (build_keys_nodup hb) fun id hid => ?_
  rw [Graph.visits_eq w d] at hid
  rw [build_entries w hb d]
  exact List.mem_map_of_mem hid

end Registry

theorem registry_exact {g : Graph} {s : Settings} {r : Registry} (hg : g.Reachable)
    (hb : Registry.build g s = .ok r) : r.Exact g s := by
  have w := hg.wellFormed
  have nodes (id : NodeId) : (∃ e ∈ r.entries, e.node = id) ↔ g.Registrable s id := by
    constructor
    · rintro ⟨e, he, rfl⟩
      exact ((Registry.mem_build_iff w hb).mp he).left
    · exact fun hid => ⟨Entry.of g s id, (Registry.mem_build_iff w hb).mpr ⟨hid, rfl⟩, rfl⟩
  constructor
  case nodes => exact nodes
  case once => exact Registry.build_nodes_nodup w hb
  case ordered =>
    have ⟨order, d⟩ := Graph.DepthFirst.exists_of_wellFormed w [Graph.root]
    exact ⟨order, d, Registry.build_entries w hb d⟩
  case found =>
    intro e he
    have hl := Registry.lookup?_of_mem (Registry.build_nodes_nodup w hb) he
    exact ⟨hl, by simp [Registry.contains, hl]⟩
  case missed =>
    intro id hid
    have hl := Registry.lookup?_eq_none_iff.mpr fun e he h => hid ((nodes id).mp ⟨e, he, h⟩)
    exact ⟨hl, by simp [Registry.contains, hl]⟩
  case indexed =>
    have index := Registry.build_indexes hb
    exact fun id => ⟨index.answers id, index.contains_eq id⟩
  case keys => exact Registry.build_keys_nodup hb
  case settled => exact Registry.collect_build w hb

-- A schema with a message in a message, a message in a service, a package that is left out, and a
-- type that is added to its package after all the others.
def Graph.teams : Graph :=
  ⟨#[{ name := "", parent := none, content := .package [1, 7, 9] },
     { name := "app", parent := some 0, file := some "app.proto", content := .package [2, 4, 5, 11] },
     { name := "User", parent := some 1, content := .message [] [] [3] },
     { name := "Profile", parent := some 2, content := .message [] [] [] },
     { name := "Role", parent := some 1, content := .enum [⟨"ADMIN", 0⟩] },
     { name := "Teams", parent := some 1, content := .service [] [6] },
     { name := "Team", parent := some 5, content := .message [] [] [] },
     { name := "google", parent := some 0, content := .package [8] },
     { name := "Any", parent := some 7, content := .message [] [] [] },
     { name := "common", parent := some 0, content := .package [10] },
     { name := "Page", parent := some 9, content := .message [] [] [] },
     { name := "Late", parent := some 1, content := .message [] [] [] }]⟩

theorem Graph.teams_reachable : Graph.teams.Reachable :=
  reachable_of_ofEdits [.addPackage 0 "app", .addMessage 1 "User", .addMessage 2 "Profile",
    .addEnum 1 "Role" [⟨"ADMIN", 0⟩], .addService 1 "Teams", .addMessage 5 "Team",
    .addPackage 0 "google", .addMessage 7 "Any", .addPackage 0 "common", .addMessage 9 "Page",
    .addMessage 1 "Late", .setFile 1 "app.proto"] rfl

theorem registry_exact_teams : ∃ r : Registry,
    Registry.build Graph.teams { ignoredPackages := ["google"] } = .ok r ∧
    r.entries.map Entry.node = [2, 4, 6, 11, 10] ∧
    r.Exact Graph.teams { ignoredPackages := ["google"] } :=
  have hb : Registry.build Graph.teams { ignoredPackages := ["google"] } =
    .ok ⟨[2, 4, 6, 11, 10].map (Entry.of Graph.teams { ignoredPackages := ["google"] })⟩ := rfl
  ⟨_, hb, rfl, registry_exact Graph.teams_reachable hb⟩

end ProtoTypings
