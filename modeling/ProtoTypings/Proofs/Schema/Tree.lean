import Mathlib
import ProtoTypings.Proofs.Schema.Construction

namespace ProtoTypings.Graph

variable {g : Graph}

-- A node and the nodes above it, the nearest first.
def lineage (g : Graph) (id : NodeId) : List NodeId :=
  id :: g.ancestors id

-- The declarations below `pending`, depth first: a node, what is below it, and then its next
-- sibling.
inductive DepthFirst (g : Graph) : (pending order : List NodeId) → Prop
  | nil : DepthFirst g [] []
  | cons {id : NodeId} {rest below after : List NodeId} :
    DepthFirst g (g.children id) below → DepthFirst g rest after →
      DepthFirst g (id :: rest) (id :: (below ++ after))

namespace WellFormed

variable (w : g.WellFormed)
include w

-- Facts about all nodes can be shown from the root downwards.
theorem parent_induction {P : NodeId → Prop} (top : ∀ id, g.parent? id = none → P id)
    (child : ∀ id p, g.parent? id = some p → P p → P id) (id : NodeId) : P id := by
  induction id using Nat.strong_induction_on
  case _ id hi =>
    cases hp : g.parent? id
    case none   => exact top id hp
    case some p => exact child id p hp (hi p (w.parent_lt hp))

theorem eq_root_of_no_parent {id : NodeId} (hl : id < g.size) (hp : g.parent? id = none) : id = root := by
  by_contra hn
  have ⟨_, h⟩ := w.has_parent hn hl
  simp [hp] at h

-- The steps that a walk up has left over do not matter.
theorem ancestors_go_eq (id : NodeId) :
    ∀ {n m : Nat}, id ≤ n → id ≤ m → ancestors.go g n id = ancestors.go g m id := by
  induction id using w.parent_induction
  case top id hp =>
    intro n m _ _
    cases n <;> cases m <;> simp [ancestors.go, hp]
  case child id p hp hi =>
    intro n m hn hm
    have hl := w.parent_lt hp
    cases n <;> [exact absurd hl (by simp [Nat.le_zero.mp hn]); skip]
    cases m <;> [exact absurd hl (by simp [Nat.le_zero.mp hm]); skip]
    simp only [ancestors.go, hp]
    rw [hi (Nat.le_of_lt_succ (Nat.lt_of_lt_of_le hl hn)) (Nat.le_of_lt_succ (Nat.lt_of_lt_of_le hl hm))]

theorem ancestors_of_parent {id p : NodeId} (hp : g.parent? id = some p) :
    g.ancestors id = g.lineage p := by
  have hl := w.parent_lt hp
  cases id
  case zero   => contradiction
  case succ n =>
    rw [ancestors, ancestors.go, hp, lineage, ancestors]
    simp only [w.ancestors_go_eq p (Nat.le_of_lt_succ hl) le_rfl]

omit w in
theorem ancestors_of_no_parent {id : NodeId} (hp : g.parent? id = none) : g.ancestors id = [] := by
  cases id <;> simp [ancestors, ancestors.go, hp]

theorem lineage_subset {id a : NodeId} (ha : a ∈ g.lineage id) : g.lineage a ⊆ g.lineage id := by
  induction id using w.parent_induction
  case top id hp =>
    rw [lineage, ancestors_of_no_parent hp] at ha
    cases List.mem_singleton.mp ha
    exact List.Subset.refl _
  case child id p hp hi =>
    rw [lineage, w.ancestors_of_parent hp] at ha
    cases List.mem_cons.mp ha
    case inl ha => exact ha ▸ List.Subset.refl _
    case inr ha =>
      rw [lineage.eq_def g id, w.ancestors_of_parent hp]
      exact List.subset_cons_of_subset _ (hi ha)

theorem le_of_mem_lineage {id a : NodeId} (ha : a ∈ g.lineage id) : a ≤ id := by
  induction id using w.parent_induction
  case top id hp =>
    rw [lineage, ancestors_of_no_parent hp] at ha
    exact Nat.le_of_eq (List.mem_singleton.mp ha)
  case child id p hp hi =>
    rw [lineage, w.ancestors_of_parent hp] at ha
    cases List.mem_cons.mp ha
    case inl ha => exact Nat.le_of_eq ha
    case inr ha => exact (hi ha).trans (w.parent_lt hp).le

theorem length_ancestors_le (id : NodeId) : (g.ancestors id).length ≤ id := by
  induction id using w.parent_induction
  case top id hp => simp [ancestors_of_no_parent hp]
  case child id p hp hi =>
    rw [w.ancestors_of_parent hp, lineage, List.length_cons]
    exact Nat.succ_le_of_lt (Nat.lt_of_le_of_lt hi (w.parent_lt hp))

-- The way up goes from parent to parent, and ends at the root.
theorem lineage_climbs {id : NodeId} (hl : id < g.size) :
    (g.lineage id).IsChain (fun a b => g.parent? a = some b) ∧ (g.lineage id).getLast? = some root := by
  induction id using w.parent_induction
  case top id hp =>
    rw [lineage, ancestors_of_no_parent hp, w.eq_root_of_no_parent hl hp]
    exact ⟨.singleton _, rfl⟩
  case child id p hp hi =>
    have ⟨hc, hr⟩ := hi ((w.parent_lt hp).trans hl)
    rw [lineage, w.ancestors_of_parent hp]
    refine ⟨.cons_cons hp hc, ?_⟩
    rw [List.getLast?_cons, hr]
    rfl

-- At most one of the children of a node is on the way to another node.
theorem sibling_eq {id a b p : NodeId} (ha : a ∈ g.lineage id) (hb : b ∈ g.lineage id)
    (hap : g.parent? a = some p) (hbp : g.parent? b = some p) : a = b := by
  induction id using w.parent_induction
  case top id hp =>
    rw [lineage, ancestors_of_no_parent hp] at ha hb
    rw [List.mem_singleton.mp ha, List.mem_singleton.mp hb]
  case child id q hq hi =>
    rw [lineage, w.ancestors_of_parent hq] at ha hb
    -- a proper ancestor of a child of `p` is no child of `p`, because it does not come after `p`
    have above {c : NodeId} (hc : c ∈ g.lineage q) (hcp : g.parent? c = some p) : q ≠ p := by
      rintro rfl
      exact absurd (w.le_of_mem_lineage hc) (Nat.not_le.mpr (w.parent_lt hcp))
    cases List.mem_cons.mp ha <;> cases List.mem_cons.mp hb
    case inl.inl ha hb => rw [ha, hb]
    case inl.inr ha hb => exact absurd (Option.some.inj (hq.symm.trans (ha ▸ hap))) (above hb hbp)
    case inr.inl ha hb => exact absurd (Option.some.inj (hq.symm.trans (hb ▸ hbp))) (above ha hap)
    case inr.inr ha hb => exact hi ha hb

theorem mem_slot_iff {σ : Slot} {id p : NodeId} : id ∈ g.slot σ p ↔
    g.parent? id = some p ∧ (g.kind? id).map Kind.slot = some σ := by
  rw [w.slot_eq, List.mem_filter, decide_eq_true_eq]
  refine and_iff_right_of_imp fun ⟨hp, _⟩ => ?_
  have ⟨_, _, _, hk, _⟩ := w.admitted hp
  exact List.mem_range.mpr (lt_size_of_kind? hk)

theorem mem_children_iff {id p : NodeId} : id ∈ g.children p ↔
    g.parent? id = some p ∧ (g.kind? id).map Kind.slot = some .declarations := by
  rw [← slot_declarations, w.mem_slot_iff]

theorem slot_sorted (σ : Slot) (p : NodeId) : (g.slot σ p).Pairwise (· < ·) := by
  rw [w.slot_eq]
  exact List.pairwise_lt_range.filter _

theorem slot_nodup (σ : Slot) (p : NodeId) : (g.slot σ p).Nodup :=
  (w.slot_sorted σ p).imp Nat.ne_of_lt

theorem children_nodup (p : NodeId) : (g.children p).Nodup :=
  w.slot_nodup .declarations p

end WellFormed

theorem children_of_size_le {id : NodeId} (hs : g.size ≤ id) : g.children id = [] := by
  simp [children, (node?_eq_none_iff id).mpr hs]

namespace DepthFirst

variable {pending order : List NodeId}

-- Every list of nodes has such an order. The induction is on how far the nodes are from the last
-- node, which comes down with every step from a node to its children.
theorem exists_of_wellFormed (w : g.WellFormed) (pending : List NodeId) :
    ∃ order, DepthFirst g pending order := by
  have step (n : Nat) : ∀ pending : List NodeId, (∀ id ∈ pending, g.size ≤ id + n) →
      ∃ order, DepthFirst g pending order := by
    induction n
    all_goals
      intro pending hp
      induction pending
      case nil => exact ⟨_, .nil⟩
    case zero.cons id rest hi =>
      have ⟨after, ha⟩ := hi fun id hid => hp id (List.mem_cons_of_mem _ hid)
      have hs : g.size ≤ id := hp id List.mem_cons_self
      have hb : DepthFirst g (g.children id) [] := by
        rw [children_of_size_le hs]
        exact .nil
      exact ⟨_, .cons hb ha⟩
    case succ.cons n hn id rest hi =>
      have ⟨after, ha⟩ := hi fun id hid => hp id (List.mem_cons_of_mem _ hid)
      have ⟨below, hb⟩ := hn (g.children id) fun c hc => by
        have hl := w.parent_lt (w.mem_children_iff.mp hc).left
        have hs := hp id List.mem_cons_self
        exact hs.trans (Nat.succ_add_eq_add_succ id n ▸ Nat.add_le_add_right hl n)
      exact ⟨_, .cons hb ha⟩
  exact step g.size pending fun id _ => Nat.le_add_left _ _

theorem pending_subset (d : DepthFirst g pending order) : pending ⊆ order := by
  induction d
  case nil => exact List.Subset.refl _
  case cons _ hi =>
    exact List.cons_subset_cons _ (List.subset_append_of_subset_right _ hi)

theorem children_subset (d : DepthFirst g pending order) {id : NodeId} (hid : id ∈ order) :
    g.children id ⊆ order := by
  induction d
  case nil => contradiction
  case cons hd _ hb ha =>
    refine List.subset_cons_of_subset _ ?_
    cases List.mem_cons.mp hid
    case inl hid => exact hid ▸ List.subset_append_of_subset_left _ hd.pending_subset
    case inr hid =>
      cases List.mem_append.mp hid
      case inl hid => exact List.subset_append_of_subset_left _ (hb hid)
      case inr hid => exact List.subset_append_of_subset_right _ (ha hid)

-- All that is listed is below the nodes it was listed for.
theorem exists_mem_lineage (d : DepthFirst g pending order) (w : g.WellFormed) {id : NodeId}
    (hid : id ∈ order) : ∃ p ∈ pending, p ∈ g.lineage id := by
  induction d
  case nil => contradiction
  case cons p rest _ _ _ _ hb ha =>
    cases List.mem_cons.mp hid
    case inl hid => exact ⟨p, List.mem_cons_self, hid ▸ List.mem_cons_self⟩
    case inr hid =>
      cases List.mem_append.mp hid
      case inl hid =>
        have ⟨c, hc, hl⟩ := hb hid
        have hp := w.ancestors_of_parent (w.mem_children_iff.mp hc).left
        have hpc : p ∈ g.lineage c := by simp [lineage, hp]
        exact ⟨p, List.mem_cons_self, w.lineage_subset hl hpc⟩
      case inr hid =>
        have ⟨q, hq, hl⟩ := ha hid
        exact ⟨q, List.mem_cons_of_mem _ hq, hl⟩

theorem lt_of_mem_below {id x : NodeId} {below : List NodeId} (d : DepthFirst g (g.children id) below)
    (w : g.WellFormed) (hx : x ∈ below) : id < x := by
  have ⟨c, hc, hl⟩ := d.exists_mem_lineage w hx
  exact Nat.lt_of_lt_of_le (w.parent_lt (w.mem_children_iff.mp hc).left) (w.le_of_mem_lineage hl)

-- Siblings have nothing below them in common.
theorem nodup_of_siblings (d : DepthFirst g pending order) (w : g.WellFormed) {p : NodeId}
    (hp : ∀ id ∈ pending, g.parent? id = some p) (hn : pending.Nodup) : order.Nodup := by
  induction d generalizing p
  case nil => exact List.nodup_nil
  case cons id rest below after hd hd' hb ha =>
    have ⟨hid, hr⟩ := List.nodup_cons.mp hn
    have apart {x : NodeId} (hx : id ∈ g.lineage x) : x ∉ after := by
      intro hxa
      have ⟨q, hq, hl⟩ := hd'.exists_mem_lineage w hxa
      have := w.sibling_eq hx hl (hp id List.mem_cons_self) (hp q (List.mem_cons_of_mem _ hq))
      exact hid (this ▸ hq)
    refine List.nodup_cons.mpr ⟨?_, List.nodup_append'.mpr ⟨?_, ?_, ?_⟩⟩
    · intro hm
      cases List.mem_append.mp hm
      case inl hm => exact absurd (hd.lt_of_mem_below w hm) (Nat.lt_irrefl _)
      case inr hm => exact apart List.mem_cons_self hm
    · exact hb (fun c hc => (w.mem_children_iff.mp hc).left) (w.children_nodup id)
    · exact ha (fun q hq => hp q (List.mem_cons_of_mem _ hq)) hr
    · intro x hx
      have ⟨c, hc, hl⟩ := hd.exists_mem_lineage w hx
      have hpc := w.ancestors_of_parent (w.mem_children_iff.mp hc).left
      exact apart (w.lineage_subset hl (by simp [lineage, hpc]))

theorem nodup_of_root (d : DepthFirst g [root] order) (w : g.WellFormed) : order.Nodup := by
  cases d
  case cons below after hd ha =>
    cases ha
    rw [List.append_nil]
    refine List.nodup_cons.mpr ⟨fun h => absurd (hd.lt_of_mem_below w h) (Nat.lt_irrefl _), ?_⟩
    exact hd.nodup_of_siblings w (fun c hc => (w.mem_children_iff.mp hc).left) (w.children_nodup _)

-- From the root one comes by all declarations.
theorem mem_of_declaration (d : DepthFirst g [root] order) (w : g.WellFormed) {id : NodeId}
    (hk : (g.kind? id).map Kind.slot = some .declarations) : id ∈ order := by
  induction id using w.parent_induction
  case top id hp =>
    have ⟨_, hk, _⟩ := Option.map_eq_some_iff.mp hk
    exact w.eq_root_of_no_parent (lt_size_of_kind? hk) hp ▸ d.pending_subset List.mem_cons_self
  case child id p hp hi =>
    have ⟨j, k, hj, _, ha⟩ := w.admitted hp
    -- only declarations have other nodes below them
    have hj : (g.kind? p).map Kind.slot = some .declarations := by
      cases j <;> simp_all [Kind.admits, Kind.slot]
    exact d.children_subset (hi hj) (w.mem_children_iff.mpr ⟨hp, hk⟩)

end DepthFirst

end ProtoTypings.Graph
