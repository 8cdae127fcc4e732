import Mathlib
import ProtoTypings.Host.Path
import ProtoTypings.Proofs.OutputPath
import ProtoTypings.Proofs.Pieces

namespace ProtoTypings

namespace Text

variable {c : Char} {s : String}

-- What is dropped from the end of a text is a run of the character.
theorem exists_eq_dropBack_append (c : Char) (s : String) :
    ∃ n, s = dropBack c s ++ String.ofList (List.replicate n c) := by
  have h := List.takeWhile_append_dropWhile (p := (· == c)) (l := s.toList.reverse)
  have run : ∀ d ∈ s.toList.reverse.takeWhile (· == c), d = c := fun d hd => by
    simpa using List.mem_takeWhile_imp hd
  rw [List.eq_replicate_of_mem run] at h
  refine ⟨(s.toList.reverse.takeWhile (· == c)).length, String.toList_injective ?_⟩
  simpa [dropBack, dropWhileEnd] using (congrArg List.reverse h).symm

theorem dropBack_eq_empty_iff : dropBack c s = "" ↔ s.toList.all (· == c) = true := by
  simp [dropBack, dropWhileEnd, ← String.toList_inj]

end Text

namespace OutputPath

open HostPath

variable {front back root s : String}

-- The segments of a path, without those that lead nowhere.
def segments (path : String) : List String :=
  (Text.cut '/' path).filter fun s => s ≠ "" && s ≠ "."

-- Where a path leads: whether it starts at the root of the host, and its way from there.
structure Location where
  absolute : Bool
  way : List String
  deriving DecidableEq

namespace Location

def of (path : String) : Location :=
  ⟨isAbsolute path, segments path⟩

@[simp]
theorem absolute_of (path : String) : (of path).absolute = isAbsolute path :=
  rfl

@[simp]
theorem way_of (path : String) : (of path).way = segments path :=
  rfl

-- Where a path leads from a place.
def descend (l : Location) (path : String) : Location :=
  { l with way := l.way ++ segments path }

end Location

section Segments

theorem segments_append (front back : String) :
    segments (front ++ "/" ++ back) = segments front ++ segments back := by
  rw [segments, Text.cut_append rfl, List.filter_append]
  rfl

theorem segments_slash_append (s : String) : segments ("/" ++ s) = segments s := by
  have h := segments_append "" s
  rwa [String.empty_append, show segments "" = [] from rfl, List.nil_append] at h

theorem segments_dot_append (s : String) : segments ("./" ++ s) = segments s := by
  have h := segments_append "." s
  rwa [show "." ++ "/" = "./" from rfl, show segments "." = [] from rfl, List.nil_append] at h

theorem segments_dropFront (s : String) : segments (Text.dropFront '/' s) = segments s := by
  have front (cs : List Char) : segments (String.ofList (cs.dropWhile (· == '/'))) =
      segments (String.ofList cs) := by
    induction cs
    case nil => rfl
    case cons c rest hi =>
      by_cases hc : c = '/'
      case neg => simp [hc]
      case pos =>
        have slash : String.ofList ('/' :: rest) = "/" ++ String.ofList rest := by
          apply String.toList_injective
          simp
        simp [hc, hi, slash, segments_slash_append]
  simpa [Text.dropFront] using front s.toList

theorem segments_append_replicate (s : String) (n : Nat) :
    segments (s ++ String.ofList (List.replicate n '/')) = segments s := by
  induction n generalizing s
  case zero => simp
  case succ n hi =>
    have step : s ++ String.ofList (List.replicate (n + 1) '/') =
        s ++ "/" ++ String.ofList (List.replicate n '/') := by
      simp [← String.toList_inj, List.replicate_succ]
    have last := segments_append s ""
    rw [String.append_empty, show segments "" = [] from rfl, List.append_nil] at last
    rw [step, hi, last]

theorem segments_dropBack (s : String) : segments (Text.dropBack '/' s) = segments s := by
  obtain ⟨n, h⟩ := Text.exists_eq_dropBack_append '/' s
  rw [h, segments_append_replicate, ← h]

end Segments

theorem isAbsolute_iff : isAbsolute s = true ↔ ∃ rest, s = "/" ++ rest := by
  rw [isAbsolute, decide_eq_true_eq]
  constructor
  · intro h
    obtain ⟨cs, hc⟩ := List.head?_eq_some_iff.mp h
    exact ⟨String.ofList cs, String.toList_injective (by simp [hc])⟩
  · rintro ⟨rest, rfl⟩
    simp

theorem isAbsolute_append (hf : front ≠ "") : isAbsolute (front ++ back) = isAbsolute front := by
  have hne : front.toList ≠ [] := by simpa using hf
  simp [isAbsolute, List.head?_append_of_ne_nil _ hne]

theorem isAbsolute_dropBack (h : Text.dropBack '/' s = "" → s = "") :
    isAbsolute (Text.dropBack '/' s) = isAbsolute s := by
  by_cases hb : Text.dropBack '/' s = ""
  case pos => rw [hb, h hb]
  case neg =>
    obtain ⟨n, hs⟩ := Text.exists_eq_dropBack_append '/' s
    nth_rewrite 2 [hs]
    rw [isAbsolute_append hb]

theorem not_isAbsolute_dropFront (s : String) : isAbsolute (Text.dropFront '/' s) = false := by
  simpa [isAbsolute, Relative] using dropFront_relative s

-- What is left of the root in front of a file.
def rootFront (root : String) : String :=
  let root := Text.dropBack '/' (slashed root)
  (Text.stripFront? "./" root).getD root

-- A root that starts with a dot and two separators, and does not end there.
def Strays (root : String) : Prop :=
  ∃ rest, Text.dropBack '/' (slashed root) = ".//" ++ rest

instance : DecidablePred Strays := fun root =>
  decidable_of_iff ((Text.stripFront? ".//" (Text.dropBack '/' (slashed root))).isSome = true) <| by
    simp [Strays, Option.isSome_iff_exists, Text.stripFront?_eq_some_iff]

theorem rootFront_cases (root : String) :
    Text.dropBack '/' (slashed root) = "./" ++ rootFront root ∨
      Text.dropBack '/' (slashed root) = rootFront root ∧ ¬Strays root := by
  rw [rootFront]
  cases h : Text.stripFront? "./" (Text.dropBack '/' (slashed root))
  case some rest => exact .inl (Text.stripFront?_eq_some_iff.mp h)
  case none =>
    refine .inr ⟨rfl, ?_⟩
    rintro ⟨rest, hr⟩
    rw [show ".//" = "./" ++ "/" from rfl, String.append_assoc, ← Text.stripFront?_eq_some_iff, h] at hr
    cases hr

theorem segments_rootFront (root : String) : segments (rootFront root) = segments (slashed root) := by
  rw [← segments_dropBack (slashed root)]
  cases rootFront_cases root
  case inl h => rw [h, segments_dot_append]
  case inr h => rw [h.left]

theorem under_eq (root relative : String) : under root relative =
    if slashed root ≠ "" ∧ (slashed root).toList.all (· == '/') then "/" ++ Text.dropFront '/' relative
    else if rootFront root = "" ∨ rootFront root = "." then Text.dropFront '/' relative
    else rootFront root ++ "/" ++ Text.dropFront '/' relative :=
  rfl

-- All segments are kept, whatever the root.
theorem segments_under (root relative : String) :
    segments (under root relative) = segments (slashed root) ++ segments relative := by
  rw [under_eq, ← segments_rootFront]
  split
  case isTrue h =>
    have hf : segments (rootFront root) = [] := by
      rw [segments_rootFront, ← segments_dropBack, Text.dropBack_eq_empty_iff.mpr h.right]
      rfl
    rw [segments_slash_append, segments_dropFront, hf, List.nil_append]
  case isFalse =>
    split
    case isFalse => rw [segments_append, segments_dropFront]
    case isTrue h =>
      have hf : segments (rootFront root) = [] := by
        cases h <;> simp only [*] <;> rfl
      rw [segments_dropFront, hf, List.nil_append]

theorem Strays.not_isAbsolute (h : Strays root) : isAbsolute (slashed root) = false := by
  obtain ⟨rest, h⟩ := h
  rw [← isAbsolute_dropBack (by simp [h]), h, isAbsolute_append (by decide)]
  rfl

theorem isAbsolute_rootFront_iff (h : Text.dropBack '/' (slashed root) = "" → slashed root = "") :
    isAbsolute (rootFront root) = true ↔ isAbsolute (slashed root) = true ∨ Strays root := by
  rw [← isAbsolute_dropBack h]
  cases rootFront_cases root
  case inr h => simp [h.left, h.right]
  case inl h =>
    have dot : isAbsolute ("./" ++ rootFront root) = false := by
      rw [isAbsolute_append (by decide)]
      rfl
    have strays : Strays root ↔ ∃ rest, rootFront root = "/" ++ rest := by
      rw [Strays, h, show ".//" = "./" ++ "/" from rfl]
      simp only [String.append_assoc, String.append_right_inj]
    simp [h, dot, strays, isAbsolute_iff]

-- Only a root that strays makes a path absolute that is not absolute itself.
theorem isAbsolute_under_iff (root relative : String) : isAbsolute (under root relative) = true ↔
    isAbsolute (slashed root) = true ∨ Strays root := by
  rw [under_eq]
  split
  case isTrue h =>
    have hr : isAbsolute (slashed root) = true := by
      obtain ⟨c, cs, hc⟩ := List.exists_cons_of_ne_nil (l := (slashed root).toList) (by simpa using h.left)
      have all := h.right
      simp only [hc, List.all_cons, Bool.and_eq_true, beq_iff_eq] at all
      simp [isAbsolute, hc, all.left]
    simp [hr, isAbsolute_iff]
  case isFalse h =>
    have hb : Text.dropBack '/' (slashed root) = "" → slashed root = "" := fun hb => by
      by_contra hne
      exact h ⟨hne, Text.dropBack_eq_empty_iff.mp hb⟩
    rw [← isAbsolute_rootFront_iff hb]
    split
    case isFalse hf => rw [String.append_assoc, isAbsolute_append (not_or.mp hf).left]
    case isTrue hf =>
      rw [not_isAbsolute_dropFront]
      cases hf <;> simp only [*] <;> decide

end OutputPath

open HostPath OutputPath

-- A file under the root is found where its path leads from the root, unless the root strays. Even then
-- nothing but the start of the way is changed.
theorem output_location_iff (root relative : String) :
    (Location.of (under root relative) = (Location.of (slashed root)).descend relative ↔ ¬Strays root) ∧
      (Location.of (under root relative)).way =
        (Location.of (slashed root)).way ++ (Location.of relative).way ∧
      ((Location.of (under root relative)).absolute = true ↔
        (Location.of (slashed root)).absolute = true ∨ Strays root) := by
  have way := segments_under root relative
  have absolute := isAbsolute_under_iff root relative
  simp only [Location.absolute_of, Location.way_of]
  refine ⟨?_, way, absolute⟩
  by_cases hs : Strays root
  case pos =>
    have ha : isAbsolute (under root relative) = true := absolute.mpr (.inr hs)
    simp [Location.of, Location.descend, ha, hs.not_isAbsolute, hs]
  case neg =>
    have ha : isAbsolute (under root relative) = isAbsolute (slashed root) := by
      rw [Bool.eq_iff_iff, absolute, or_iff_left hs]
    simp [Location.of, Location.descend, ha, way, hs]

-- A directory of the working directory becomes one of the host.
theorem output_location_strays : Strays ".//out" ∧ Location.of (slashed ".//out") = ⟨false, ["out"]⟩ ∧
    under ".//out" "user.ts" = "/out/user.ts" ∧
    Location.of (under ".//out" "user.ts") = ⟨true, ["out", "user.ts"]⟩ ∧
    Location.of (under ".//out" "user.ts") ≠ (Location.of (slashed ".//out")).descend "user.ts" := by
  decide +kernel

end ProtoTypings
