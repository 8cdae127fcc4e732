import Mathlib
import ProtoTypings.Proofs.Location

namespace ProtoTypings

namespace OutputPath

variable {root path rest source p : String}

section Slashed

theorem slashed_append (front back : String) : slashed (front ++ back) = slashed front ++ slashed back := by
  apply String.toList_injective
  simp [slashed]

theorem notMem_slashed (path : String) : '\\' ∉ (slashed path).toList := by
  rw [slashed, String.toList_ofList, List.mem_map]
  rintro ⟨c, -, hc⟩
  split at hc
  case isTrue  => contradiction
  case isFalse => contradiction

theorem notMem_of_slashed_eq {front : String} (h : slashed source = front ++ rest) : '\\' ∉ rest.toList := by
  have clean := notMem_slashed source
  rw [h, String.toList_append, List.mem_append, not_or] at clean
  exact clean.right

theorem slashed_of_notMem (h : '\\' ∉ path.toList) : slashed path = path := by
  apply String.toList_injective
  rw [slashed, String.toList_ofList]
  refine (List.map_congr_left fun c hc => if_neg ?_).trans (List.map_id' _)
  rintro rfl
  contradiction

theorem relative_slashed (hs : p.toList.head? ≠ some '/') (hb : p.toList.head? ≠ some '\\') :
    Relative (slashed p) := by
  rw [Relative, slashed, String.toList_ofList, List.head?_map]
  cases h : p.toList.head?
  case none   => simp
  case some c =>
    rw [h, Ne, Option.some.injEq] at hs hb
    simp [hs, hb]

end Slashed

-- An input root as it is compared with paths.
def bareRoot (root : String) : String :=
  Text.dropBack '/' (slashed root)

-- What is left of a path when a root is taken off it: nothing if it is the root, and else what follows the
-- separator behind the root.
inductive Within (root : String) : (path rest : String) → Prop
  | itself : Within root root ""
  | inside (rest : String) : Within root (root ++ "/" ++ rest) rest

section Below

theorem below_append (h : rest = "" ∨ rest.toList.head? = some '/') : below root (root ++ rest) = rest := by
  rw [below, Text.stripFront?_eq_some_iff.mpr rfl]
  by_cases hr : root = ""
  case pos => simp [hr]
  case neg => exact if_pos ⟨hr, h⟩

theorem below_empty (path : String) : below "" path = path := by
  rw [below]
  split
  case h_1 => exact if_neg fun h => h.left rfl
  case h_2 => rfl

theorem Within.dropFront_below (h : Within root path rest) :
    Text.dropFront '/' (below root path) = Text.dropFront '/' rest := by
  cases h
  case itself =>
    have at_root : below root (root ++ "") = "" := below_append (.inl rfl)
    rw [String.append_empty] at at_root
    rw [at_root]
  case inside =>
    rw [String.append_assoc, below_append (.inr (by simp))]
    simp [Text.dropFront]

-- Nothing is taken off a path that only starts like the root.
theorem exists_within_of_below_ne (h : below root path ≠ path) : ∃ rest, Within root path rest := by
  rw [below] at h
  split at h
  case h_2 => contradiction
  case h_1 rest found =>
    obtain rfl := Text.stripFront?_eq_some_iff.mp found
    split at h
    case isFalse => contradiction
    case isTrue ends =>
      rcases ends.right with rfl | head
      · exact ⟨"", by simpa using Within.itself⟩
      · obtain ⟨cs, hc⟩ := List.head?_eq_some_iff.mp head
        have hr : rest = "/" ++ String.ofList cs := String.toList_injective (by simp [hc])
        exact ⟨String.ofList cs, by rw [hr, ← String.append_assoc]; exact .inside _⟩

theorem exists_eq_append_below (root path : String) : ∃ front, path = front ++ below root path := by
  rw [below]
  split
  case h_2 => exact ⟨"", String.empty_append.symm⟩
  case h_1 rest found =>
    split
    case isTrue  => exact ⟨root, Text.stripFront?_eq_some_iff.mp found⟩
    case isFalse => exact ⟨"", String.empty_append.symm⟩

theorem Within.exists_eq_append (h : Within root path rest) : ∃ front, path = front ++ rest := by
  cases h
  case itself => exact ⟨root, String.append_empty.symm⟩
  case inside => exact ⟨root ++ "/", rfl⟩

end Below

section Source

theorem ofSource_congr {root' source' : String}
    (h : relativeSource root source = relativeSource root' source') :
    ofSource root source = ofSource root' source' := by
  rw [ofSource_eq, ofSource_eq, h]

theorem relativeSource_empty (source : String) :
    relativeSource "" source = Text.dropFront '/' (slashed source) := by
  have root : Text.dropBack '/' (slashed "") = "" := rfl
  rw [relativeSource, root, below_empty]

-- Nothing but the root is taken off a path.
theorem ofSource_of_within (h : Within (bareRoot root) (slashed source) rest) :
    ofSource root source = ofSource "" rest := by
  obtain ⟨front, hf⟩ := h.exists_eq_append
  have clean : slashed rest = rest := slashed_of_notMem (notMem_of_slashed_eq hf)
  apply ofSource_congr
  rw [relativeSource_empty, clean]
  exact h.dropFront_below

theorem exists_within_of_ofSource_ne (h : ofSource root source ≠ ofSource "" source) :
    ∃ rest, Within (bareRoot root) (slashed source) rest := by
  refine exists_within_of_below_ne fun kept => h (ofSource_congr ?_)
  rw [relativeSource_empty, ← kept]
  rfl

theorem notMem_ofSource (root source : String) : '\\' ∉ (ofSource root source).toList := by
  have clean : '\\' ∉ (relativeSource root source).toList := by
    obtain ⟨front, hf⟩ := exists_eq_append_below (bareRoot root) (slashed source)
    rw [relativeSource, Text.dropFront, String.toList_ofList]
    exact fun hm => notMem_of_slashed_eq hf ((List.dropWhile_sublist _).mem hm)
  obtain ⟨stem, ho, hr⟩ := ofSource_cases root source
  have short : '\\' ∉ stem.toList := by
    rcases hr with hr | ⟨hr, -⟩ <;> rw [hr] at clean
    · exact fun hm => clean (by simp [hm])
    · exact clean
  rw [ho, String.toList_append, List.mem_append, not_or]
  exact ⟨short, by decide⟩

theorem dropFront_replicate_append (n : Nat) (h : Relative path) :
    Text.dropFront '/' (String.ofList (List.replicate n '/') ++ path) = path := by
  have run : ∀ c ∈ List.replicate n '/', (c == '/') = true := by simp
  have kept := dropFront_of_relative h
  rw [Text.dropFront] at kept ⊢
  rw [String.toList_append, String.toList_ofList, List.dropWhile_append_of_pos run, kept]

-- A path behind a root is within it, and the separators that the root ends in go with the path.
theorem exists_within (root path : String) : ∃ n, Within (bareRoot root) (slashed (root ++ "/" ++ path))
    (String.ofList (List.replicate n '/') ++ slashed path) := by
  obtain ⟨n, hn⟩ := Text.exists_eq_dropBack_append '/' (slashed root)
  have run : List.replicate n '/' ++ ['/'] = '/' :: List.replicate n '/' := by
    rw [← List.replicate_succ', List.replicate_succ]
  have slashes : String.ofList (List.replicate n '/') ++ "/" = "/" ++ String.ofList (List.replicate n '/') :=
    String.toList_injective (by simpa using run)
  have shape := calc slashed (root ++ "/" ++ path)
    _ = slashed root ++ "/" ++ slashed path := by rw [slashed_append, slashed_append]; rfl
    _ = bareRoot root ++ (String.ofList (List.replicate n '/') ++ "/") ++ slashed path := by
      rw [bareRoot, ← String.append_assoc, ← hn]
    _ = bareRoot root ++ "/" ++ (String.ofList (List.replicate n '/') ++ slashed path) := by
      rw [slashes]
      simp only [String.append_assoc]
  refine ⟨n, ?_⟩
  rw [shape]
  exact .inside _

theorem ofSource_root_append (hs : p.toList.head? ≠ some '/') (hb : p.toList.head? ≠ some '\\')
    {spelled : String} (same : bareRoot spelled = bareRoot root) :
    ofSource root (spelled ++ "/" ++ p ++ ".proto") = slashed p ++ ".ts" := by
  have ends : slashed (p ++ ".proto") = slashed p ++ sourceExtension := slashed_append p ".proto"
  have relative : Relative (slashed p ++ sourceExtension) :=
    relative_append (relative_slashed hs hb) (by decide)
  obtain ⟨n, within⟩ := exists_within spelled (p ++ ".proto")
  rw [same] at within
  have taken : relativeSource root (spelled ++ "/" ++ p ++ ".proto") = slashed p ++ sourceExtension := by
    rw [String.append_assoc, relativeSource]
    refine within.dropFront_below.trans ?_
    rw [ends, dropFront_replicate_append n relative]
  rw [ofSource_eq, taken, Text.stripBack?_eq_some_iff.mpr rfl]
  rfl

end Source

end OutputPath

open OutputPath in
theorem source_paths_match (root : String) :
    (∀ spelled p : String, bareRoot spelled = bareRoot root →
      p.toList.head? ≠ some '/' → p.toList.head? ≠ some '\\' →
        ofSource root (spelled ++ "/" ++ p ++ ".proto") = slashed p ++ ".ts" ∧
        toSource (ofSource root (spelled ++ "/" ++ p ++ ".proto")) = slashed p ++ ".proto") ∧
    ∀ source : String,
      (∃ stem, ofSource root source = stem ++ ".ts") ∧ '\\' ∉ (ofSource root source).toList ∧
      (ofSource root source).toList.head? ≠ some '/' ∧
      (∀ rest, Within (bareRoot root) (slashed source) rest → ofSource root source = ofSource "" rest) ∧
      (ofSource root source ≠ ofSource "" source → ∃ rest, Within (bareRoot root) (slashed source) rest) := by
  refine ⟨fun spelled p same hs hb => ?_, fun source => ?_⟩
  · have placed := ofSource_root_append hs hb same
    exact ⟨placed, by rw [placed, toSource]; exact congrArg (· ++ ".proto") (stem_append _)⟩
  · obtain ⟨stem, ho, -⟩ := ofSource_cases root source
    exact ⟨⟨stem, ho⟩, notMem_ofSource root source, ofSource_relative root source,
      fun _ => ofSource_of_within, exists_within_of_ofSource_ne⟩

open OutputPath in
theorem source_paths_match_auth :
    bareRoot "tmp/protos//" = "tmp/protos" ∧ bareRoot "tmp\\protos/" = "tmp/protos" ∧
    ofSource "tmp\\protos/" ("tmp/protos//" ++ "/" ++ "auth\\v1/user" ++ ".proto") = "auth/v1/user.ts" ∧
    toSource (ofSource "tmp\\protos/" ("tmp/protos//" ++ "/" ++ "auth\\v1/user" ++ ".proto")) =
      "auth/v1/user.proto" ∧
    Within (bareRoot "tmp\\protos/") (slashed "tmp/protos\\role.proto") "role.proto" ∧
    ofSource "tmp\\protos/" "tmp/protos\\role.proto" = ofSource "" "role.proto" := by
  obtain ⟨placed, free⟩ := source_paths_match "tmp\\protos/"
  have bare : bareRoot "tmp/protos//" = "tmp/protos" := by decide +kernel
  have bare' : bareRoot "tmp\\protos/" = "tmp/protos" := by decide +kernel
  obtain ⟨out, back⟩ := placed "tmp/protos//" "auth\\v1/user" (bare.trans bare'.symm) (by decide) (by decide)
  have within : Within (bareRoot "tmp\\protos/") (slashed "tmp/protos\\role.proto") "role.proto" := by
    rw [bare']
    exact .inside "role.proto"
  obtain ⟨-, -, -, below, -⟩ := free "tmp/protos\\role.proto"
  exact ⟨bare, bare', out.trans rfl, back.trans rfl, within, below _ within⟩

end ProtoTypings
