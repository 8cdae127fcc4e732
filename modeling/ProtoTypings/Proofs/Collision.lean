import Mathlib
import ProtoTypings.Proofs.Naming

namespace ProtoTypings

namespace Graph

variable {g : Graph} {s : Settings} {id id' : NodeId}

-- The words that identify a type: those of the names above it from the outermost on, and then those
-- of its own name.
def fullWords (g : Graph) (id : NodeId) : List String :=
  (g.ancestors id).reverse.flatMap (fun a => words (g.name a)) ++ words (g.name id)

-- Two types that can not both be registered.
structure Clash (g : Graph) (s : Settings) (id id' : NodeId) : Prop where
  ne : id ≠ id'
  registrable : g.Registrable s id
  registrable' : g.Registrable s id'
  file : (g.sourceFile? id).getD "" = (g.sourceFile? id').getD ""
  words : (g.fullWords id).map String.toLower = (g.fullWords id').map String.toLower

-- Names without words, such as that of the root, do not matter.
theorem split_parentNames : Word.split (" ".intercalate (g.parentNames [] id)).toList =
    (g.ancestors id).reverse.flatMap fun a => Word.split (g.name a).toList := by
  rw [Word.split_intercalate, parentNames, ← List.filter_reverse, ← List.map_reverse]
  induction (g.ancestors id).reverse
  case nil => rfl
  case cons a ancestors hi =>
    rw [List.map_cons, List.filter_cons]
    by_cases hn : g.name a = ""
    case pos => simpa [hn, Word.split] using hi
    case neg => simpa [hn] using hi

theorem nameWords_eq : (g.nameWords [] id).map String.ofList = (g.fullWords id).map String.toLower := by
  rw [nameWords, split_parentNames, fullWords]
  simp [words, List.map_flatMap, toLower_ofList, Function.comp_def]

theorem canonicalName_eq_iff : g.canonicalName id = g.canonicalName id' ↔
    (g.fullWords id).map String.toLower = (g.fullWords id').map String.toLower := by
  have inj : Function.Injective String.ofList := fun _ _ => String.ofList_injective
  rw [← nameWords_eq, ← nameWords_eq, inj.list_map.eq_iff, canonicalName_eq_iff_nameWords_eq]

theorem typeKey_eq_iff : TypeKey.of g id = TypeKey.of g id' ↔
    (g.sourceFile? id).getD "" = (g.sourceFile? id').getD "" ∧
      (g.fullWords id).map String.toLower = (g.fullWords id').map String.toLower := by
  rw [TypeKey.of, TypeKey.of, TypeKey.mk.injEq, canonicalName_eq_iff]

end Graph

-- What is reported about two types that clash.
def Collision.of (g : Graph) (id id' : NodeId) : Collision where
  name := g.canonicalName id
  file := (g.sourceFile? id).getD ""
  first := g.fullName id
  second := g.fullName id'

namespace Registry

variable {g : Graph} {s : Settings} {r : Registry} {e : Entry} {c : Collision}

theorem insert_error (h : r.insert g e = .error c) : ∃ known ∈ r.entries, known.key = e.key ∧
    known.node ≠ e.node ∧ c = ⟨e.key.name, e.key.file, g.fullName known.node, g.fullName e.node⟩ := by
  simp only [insert] at h
  split at h <;> [skip; contradiction]
  case h_1 known hf =>
    split at h <;> [contradiction; skip]
    case isFalse hn =>
      have hk := List.find?_some hf
      exact ⟨known, List.mem_of_find?_eq_some hf, by simpa using hk, hn, by injection h with h; exact h.symm⟩

-- A walk by types that are to be registered stops only at a type that clashes with an earlier one. What
-- the induction keeps is that the entries are those of types to be registered.
theorem collectVisits_clash {visits : List Visit}
    (hr : ∀ e ∈ r.entries, g.Registrable s e.node ∧ e = Entry.of g s e.node)
    (hv : ∀ id ∈ visits.filterMap Visit.type?, g.Registrable s id)
    (hc : (collectVisits g s r visits).collision = some c) :
    ∃ id id', g.Clash s id id' ∧ c = .of g id id' := by
  induction visits generalizing r
  case nil => contradiction
  case cons v visits hi =>
    cases v
    case ignored => exact hi hr hv hc
    case declared id =>
      obtain ⟨hid, hv⟩ := List.forall_mem_cons.mp (filterMap_declared ▸ hv)
      simp only [collectVisits] at hc
      split at hc
      case h_1 collision h =>
        obtain ⟨known, hm, hk, hn, heq⟩ := insert_error h
        obtain ⟨hreg, hent⟩ := hr known hm
        rw [hent] at hk
        obtain ⟨hf, hw⟩ := Graph.typeKey_eq_iff.mp hk
        injection hc with hc
        refine ⟨known.node, id, ⟨hn, hreg, hid, hf, hw⟩, ?_⟩
        rw [← hc, heq, ← hk]
        rfl
      case h_2 h =>
        refine hi (fun e he => ?_) hv hc
        cases insert_cases h
        case inl h => exact hr e (h.left ▸ he)
        case inr h =>
          rw [h.left] at he
          cases List.mem_append.mp he
          case inl he => exact hr e he
          case inr he =>
            cases List.mem_singleton.mp he
            exact ⟨hid, rfl⟩

variable (w : g.WellFormed)
include w

theorem build_clash (hb : build g s = .error c) : ∃ id id', g.Clash s id id' ∧ c = .of g id id' := by
  have ⟨order, d⟩ := Graph.DepthFirst.exists_of_wellFormed w [Graph.root]
  simp only [build] at hb
  split at hb <;> [skip; contradiction]
  case h_1 collision hc =>
    injection hb with hb
    refine collectVisits_clash (by simp) (fun id hid => ?_) (hb ▸ hc)
    rw [Graph.visits_eq w d] at hid
    simpa using (List.mem_filter.mp hid).right

-- A registry with both of two types that clash would have one key twice.
theorem build_of_clash {id id' : NodeId} (h : g.Clash s id id') : ∃ c, build g s = .error c := by
  cases hb : build g s
  case error c => exact ⟨c, rfl⟩
  case ok r =>
    have he : Entry.of g s id ∈ r.entries := (mem_build_iff w hb).mpr ⟨h.registrable, rfl⟩
    have he' : Entry.of g s id' ∈ r.entries := (mem_build_iff w hb).mpr ⟨h.registrable', rfl⟩
    have hk : (Entry.of g s id).key = (Entry.of g s id').key := Graph.typeKey_eq_iff.mpr ⟨h.file, h.words⟩
    have heq := List.inj_on_of_nodup_map (build_keys_nodup hb) he he' hk
    exact absurd (congrArg Entry.node heq) h.ne

end Registry

theorem build_fails_iff_clash {g : Graph} {s : Settings} (hg : g.Reachable) :
    ((∃ c, Registry.build g s = .error c) ↔ ∃ id id', g.Clash s id id') ∧
      ∀ c, Registry.build g s = .error c → ∃ id id', g.Clash s id id' ∧ c = .of g id id' := by
  have w := hg.wellFormed
  refine ⟨⟨?_, ?_⟩, fun c hb => Registry.build_clash w hb⟩
  · rintro ⟨c, hb⟩
    have ⟨id, id', h, _⟩ := Registry.build_clash w hb
    exact ⟨id, id', h⟩
  · rintro ⟨id, id', h⟩
    exact Registry.build_of_clash w h

-- An acronym in one of two names that are cut into the same words, and a digit that stays with the
-- letters before it.
def Graph.servers : Graph :=
  ⟨#[{ name := "", parent := none, content := .package [1, 3] },
     { name := "net", parent := some 0, file := some "net.proto", content := .package [2, 5] },
     { name := "HTTPServer", parent := some 1, content := .message [] [] [] },
     { name := "Net", parent := some 0, file := some "net.proto", content := .package [4, 6] },
     { name := "http_server", parent := some 3, content := .enum [⟨"NONE", 0⟩] },
     { name := "V1", parent := some 1, content := .message [] [] [] },
     { name := "v_1", parent := some 3, content := .message [] [] [] }]⟩

theorem Graph.servers_reachable : Graph.servers.Reachable :=
  reachable_of_ofEdits [.addPackage 0 "net", .addMessage 1 "HTTPServer", .addPackage 0 "Net",
    .addEnum 3 "http_server" [⟨"NONE", 0⟩], .addMessage 1 "V1", .addMessage 3 "v_1",
    .setFile 1 "net.proto", .setFile 3 "net.proto"] rfl

theorem build_fails_iff_clash_servers : Graph.servers.Reachable ∧
    (∃ c, Registry.build Graph.servers {} = .error c ∧
      ∃ id id', Graph.servers.Clash {} id id' ∧ c = .of Graph.servers id id') ∧
    ¬∃ id id', Graph.servers.Clash { ignoredPackages := ["Net"] } id id' := by
  have r := Graph.servers_reachable
  have hc : (Registry.collect {} Graph.servers {}).collision = some (.of Graph.servers 2 4) := by
    decide +kernel
  have hn : (Registry.collect {} Graph.servers { ignoredPackages := ["Net"] }).collision = none := by
    decide +kernel
  have hb : Registry.build Graph.servers {} = .error (.of Graph.servers 2 4) := by
    simp only [Registry.build, hc]
  refine ⟨r, ⟨_, hb, (build_fails_iff_clash r).right _ hb⟩, ?_⟩
  rw [← (build_fails_iff_clash r).left]
  simp [Registry.build, hn]

end ProtoTypings
