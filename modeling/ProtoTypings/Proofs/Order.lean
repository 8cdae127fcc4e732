import Mathlib
import ProtoTypings.Proofs.Collision
import ProtoTypings.Proofs.Schema.Reordering

namespace ProtoTypings

namespace Graph

variable {g h : Graph} {a b a' b' : NodeId} {s : Settings}

namespace Matched

variable (m : Matched g h a b)
include m

theorem nameFrom_eq (template : String) (casing : Casing) (ignored : List String) :
    g.nameFrom template casing ignored a = h.nameFrom template casing ignored b := by
  rw [nameFrom, nameFrom, nameVariables, nameVariables, parentNames, parentNames, m.names_above, m.name_eq]

theorem typeName_eq : g.typeName s a = h.typeName s b := by
  rw [typeName, typeName, m.kind?_eq, m.nameFrom_eq, m.nameFrom_eq]

theorem outputPath_eq : g.outputPath s a = h.outputPath s b := by
  rw [outputPath, outputPath, m.sourceFile?_eq]

theorem typeKey_eq : TypeKey.of g a = TypeKey.of h b := by
  rw [TypeKey.of, TypeKey.of, m.sourceFile?_eq, canonicalName, canonicalName, m.nameFrom_eq]

end Matched

namespace Rearranged

variable (r : Rearranged g h)
include r

theorem isNested_eq (m : Matched g h a b) : g.isNested a = h.isNested b := by
  cases hp : g.parent? a
  case some p =>
    obtain ⟨q, hq, mq⟩ := r.exists_parent m hp
    simp [isNested, hp, hq, isMessage, mq.kind?_eq]
  case none =>
    cases hq : h.parent? b
    case none => simp [isNested, hp, hq]
    case some q =>
      obtain ⟨p, hp', _⟩ := r.symm.exists_parent m.symm hq
      simp [hp] at hp'

theorem exists_ancestor (m : Matched g h a b) (hb : b' ∈ h.ancestors b) :
    ∃ a' ∈ g.ancestors a, Matched g h a' b' := by
  have ⟨_, above⟩ := List.forall₂_cons.mp (r.lineage_matched m)
  generalize g.ancestors a = as, h.ancestors b = bs at above hb
  induction above
  case nil => contradiction
  case cons x y _ _ mx _ hi =>
    cases List.mem_cons.mp hb
    case inl hb => exact ⟨x, List.mem_cons_self, hb ▸ mx⟩
    case inr hb =>
      have ⟨a', ha, m⟩ := hi hb
      exact ⟨a', List.mem_cons_of_mem _ ha, m⟩

theorem registrable (m : Matched g h a b) (ha : g.Registrable s a) : h.Registrable s b where
  is_type := m.isType_eq ▸ ha.is_type
  outer := r.isNested_eq m ▸ ha.outer
  kept y hy hr hk := by
    have ⟨x, hx, mx⟩ := r.exists_ancestor m hy
    rw [← mx.name_eq]
    exact ha.kept x hx ((r.eq_root_iff mx).not.mpr hr) (mx.kind?_eq.trans hk)

theorem exists_clash (c : g.Clash s a a') : ∃ b b', h.Clash s b b' := by
  have ⟨b, m⟩ := r.exists_right (declares_of_isType c.registrable.is_type).lt_size
  have ⟨b', m'⟩ := r.exists_right (declares_of_isType c.registrable'.is_type).lt_size
  have key : TypeKey.of h b = TypeKey.of h b' := by
    rw [← m.typeKey_eq, ← m'.typeKey_eq]
    exact typeKey_eq_iff.mpr ⟨c.file, c.words⟩
  have ⟨file, words⟩ := typeKey_eq_iff.mp key
  refine ⟨b, b', ?_, r.registrable m c.registrable, r.registrable m' c.registrable', file, words⟩
  rintro rfl
  exact c.ne (r.symm.eq_of_matched m.symm m'.symm)

theorem build_ok {reg : Registry} (hb : Registry.build g s = .ok reg) :
    ∃ reg', Registry.build h s = .ok reg' := by
  cases hb' : Registry.build h s
  case ok reg' => exact ⟨reg', rfl⟩
  case error c =>
    have ⟨_, _, clash, _⟩ := Registry.build_clash r.right.wellFormed hb'
    have ⟨_, _, clash⟩ := r.symm.exists_clash clash
    have ⟨_, he⟩ := Registry.build_of_clash r.left.wellFormed clash
    simp [hb] at he

end Rearranged

end Graph

-- The types of a registry by their full names, with their generated names and files.
def Registry.located (reg : Registry) (g : Graph) : List (String × String × String) :=
  reg.entries.map fun e => (g.fullName e.node, e.name, e.path)

theorem Graph.Rearranged.located_subset {g h : Graph} (r : g.Rearranged h) {s : Settings}
    {reg reg' : Registry} (hb : Registry.build g s = .ok reg)
    (hb' : Registry.build h s = .ok reg') : reg.located g ⊆ reg'.located h := by
  intro x hx
  have ⟨e, he, heq⟩ := List.mem_map.mp hx
  have ⟨hr, hent⟩ := (Registry.mem_build_iff r.left.wellFormed hb).mp he
  have ⟨b, m⟩ := r.exists_right (Graph.declares_of_isType hr.is_type).lt_size
  have he' : Entry.of h s b ∈ reg'.entries :=
    (Registry.mem_build_iff r.right.wellFormed hb').mpr ⟨r.registrable m hr, rfl⟩
  refine List.mem_map.mpr ⟨_, he', ?_⟩
  rw [← heq, hent]
  simp [Entry.of, m.fullName_eq, m.typeName_eq, m.outputPath_eq]

-- What two descriptors load into differs in nothing but the places of nodes and the order of entries.
structure Graph.Alike (g h : Graph) : Prop where
  fields : g.SameFields h
  builds : ∀ s, (∃ reg, Registry.build g s = .ok reg) ↔ ∃ reg, Registry.build h s = .ok reg
  types : ∀ {s reg reg'}, Registry.build g s = .ok reg → Registry.build h s = .ok reg' →
    ∀ x, x ∈ reg.located g ↔ x ∈ reg'.located h

theorem Graph.Rearranged.alike {g h : Graph} (r : g.Rearranged h) : g.Alike h where
  fields := r.sameFields
  builds _ := ⟨fun ⟨_, hb⟩ => r.build_ok hb, fun ⟨_, hb⟩ => r.symm.build_ok hb⟩
  types hb hb' _ := ⟨fun hx => r.located_subset hb hb' hx, fun hx => r.symm.located_subset hb' hb hx⟩

theorem declaration_order_irrelevant {d d' : Descriptor} (r : d.Reordered d')
    (keyed : d.Everywhere Descriptor.Keyed) (plain : d.Everywhere Descriptor.Plain) :
    ((∃ g, Graph.ofDescriptor d = .ok g) ↔ ∃ g, Graph.ofDescriptor d' = .ok g) ∧
      ∀ g g', Graph.ofDescriptor d = .ok g → Graph.ofDescriptor d' = .ok g' → g.Alike g' :=
  ⟨r.loads_iff, fun _ _ hg hg' => (r.rearranged keyed plain hg hg').alike⟩

-- A message that comes before the type of one of its fields, with two types in it.
def Descriptor.parcels : Descriptor where
  nested := [("post", {
    nested := [
      ("Parcel", {
        nested := [("Mode", { values := some [("AIR", 0)] }), ("Box", { fields := some [] })]
        fields := some [("stamp", { typeName := "Stamp" }), ("mode", { typeName := "Mode" })] }),
      ("Stamp", { fields := some [] })] })]

-- The type comes before the message, and the types in the message have changed places.
def Descriptor.parcelsReordered : Descriptor where
  nested := [("post", {
    nested := [
      ("Stamp", { fields := some [] }),
      ("Parcel", {
        nested := [("Box", { fields := some [] }), ("Mode", { values := some [("AIR", 0)] })]
        fields := some [("stamp", { typeName := "Stamp" }), ("mode", { typeName := "Mode" })] })] })]

theorem declaration_order_irrelevant_parcels : Descriptor.parcels.Reordered Descriptor.parcelsReordered ∧
    ∃ g g' reg, Graph.ofDescriptor Descriptor.parcels = .ok g ∧
      Graph.ofDescriptor Descriptor.parcelsReordered = .ok g' ∧ g ≠ g' ∧
      Registry.build g {} = .ok reg ∧ g.Alike g' := by
  have r : Descriptor.parcels.Reordered Descriptor.parcelsReordered :=
    .of_shuffle (.cons (.trans (.cons (.swap _ _ _) (.cons .nil .nil)) (.swap _ _ _)) .nil)
  have keyed : Descriptor.parcels.Everywhere Descriptor.Keyed := by decide +kernel
  have plain : Descriptor.parcels.Everywhere Descriptor.Plain := by decide +kernel
  have check : (Graph.ofDescriptor Descriptor.parcels).toOption.any (fun g =>
      (Registry.build g {}).toOption.isSome &&
        (Graph.ofDescriptor Descriptor.parcelsReordered).toOption.any fun g' => decide (g ≠ g')) = true := by
    decide +kernel
  have ⟨g, hg, check⟩ := Option.any_eq_true .. |>.mp check
  have ⟨built, check⟩ := Bool.and_eq_true .. |>.mp check
  have ⟨reg, hb⟩ := Option.isSome_iff_exists.mp built
  have ⟨g', hg', check⟩ := Option.any_eq_true .. |>.mp check
  have hg := eq_ok_of_toOption hg
  have hg' := eq_ok_of_toOption hg'
  have ⟨_, alike⟩ := declaration_order_irrelevant r keyed plain
  exact ⟨r, g, g', reg, hg, hg', of_decide_eq_true check, eq_ok_of_toOption hb, alike g g' hg hg'⟩

end ProtoTypings
