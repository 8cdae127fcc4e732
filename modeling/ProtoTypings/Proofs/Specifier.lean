import Mathlib
import ProtoTypings.Proofs.Location

namespace ProtoTypings

namespace OutputPath

variable {dir way : List String} {path source target : String}

-- One segment further from a directory, if that does not lead above the root.
def enter (dir : List String) (segment : String) : Option (List String) :=
  if segment = "" ∨ segment = "." then some dir
  else if segment = ".." then if dir = [] then none else some dir.dropLast
  else some (dir ++ [segment])

-- Where a specifier leads from a directory.
def resolve (dir : List String) (specifier : String) : Option (List String) :=
  (Text.cut '/' specifier).foldlM enter dir

-- A segment that leads to a directory or file of its name.
def Descends (segment : String) : Prop :=
  segment ≠ "." ∧ segment ≠ ".."

instance : DecidablePred Descends :=
  fun _ => inferInstanceAs (Decidable (_ ∧ _))

-- The path of a generated file that only leads down.
structure Straight (path : String) : Prop where
  extended : ∃ stem, path = stem ++ extension
  descends : ∀ s ∈ Text.cut '/' path, Descends s

-- Up from a directory, segment by segment, to one around it.
theorem foldlM_enter_up (above below : List String) :
    (List.replicate below.length "..").foldlM enter (above ++ below) = some above := by
  induction below using List.reverseRecOn
  case nil => simp
  case append_singleton below s hi =>
    have step : enter (above ++ (below ++ [s])) ".." = some (above ++ below) := by
      simp [enter, ← List.append_assoc]
    rw [List.length_append, List.length_singleton, List.replicate_succ, List.foldlM_cons, step]
    exact hi

theorem foldlM_enter_down (hw : ∀ s ∈ way, Descends s) (dir : List String) :
    way.foldlM enter dir = some (dir ++ way.filter (· ≠ "")) := by
  induction way generalizing dir
  case nil => simp
  case cons s way hi =>
    obtain ⟨hs, hw⟩ := List.forall_mem_cons.mp hw
    rw [List.foldlM_cons]
    by_cases he : s = ""
    case pos => simp [enter, he, hi hw]
    case neg => simp [enter, he, hs.left, hs.right, hi hw]

-- Two directories with what they share in front taken off, so that they differ from there on.
structure Fork (fromDir toDir common up down : List String) : Prop where
  from_eq : fromDir = common ++ up
  to_eq : toDir = common ++ down
  apart : up = [] ∨ up.head? ≠ down.head?

theorem exists_fork (fromDir toDir : List String) : ∃ common up down,
    Fork fromDir toDir common up down ∧ shared fromDir toDir = common.length := by
  fun_induction shared fromDir toDir
  case case1 as b bs hi =>
    obtain ⟨common, up, down, fork, hs⟩ := hi
    refine ⟨b :: common, up, down, ?_, by rw [hs, List.length_cons]⟩
    exact ⟨congrArg (b :: ·) fork.from_eq, congrArg (b :: ·) fork.to_eq, fork.apart⟩
  case case2 a as b bs hab => exact ⟨[], a :: as, b :: bs, ⟨rfl, rfl, by simp [hab]⟩, rfl⟩
  case case3 fromDir toDir hn =>
    refine ⟨[], fromDir, toDir, ⟨rfl, rfl, ?_⟩, rfl⟩
    cases fromDir
    case nil => exact .inl rfl
    case cons a as =>
      cases toDir
      case nil       => simp
      case cons b bs => exact absurd rfl (hn a as b bs rfl)

theorem exists_route (fromDir toDir : List String) : ∃ common up down, Fork fromDir toDir common up down ∧
    ∀ file, route fromDir toDir file = List.replicate up.length ".." ++ down ++ [file] := by
  obtain ⟨common, up, down, fork, hs⟩ := exists_fork fromDir toDir
  refine ⟨common, up, down, fork, fun file => ?_⟩
  rw [route, hs, fork.from_eq, fork.to_eq]
  simp

-- No way down from a directory leads to a file of another one, unless that is below it.
theorem Fork.append_ne {fromDir toDir common up down : List String}
    (fork : Fork fromDir toDir common up down) (hu : up ≠ []) {file : List String} (hf : file.length ≤ 1)
    (s : String) (rest : List String) : toDir ++ file ≠ fromDir ++ s :: rest := by
  intro h
  rw [fork.from_eq, fork.to_eq, List.append_assoc, List.append_assoc, List.append_cancel_left_eq] at h
  cases up
  case nil => contradiction
  case cons u up =>
    cases down
    case nil =>
      have := congrArg List.length h
      simp at this
      omega
    case cons d down =>
      have apart := fork.apart
      simp_all

-- The way up to what two directories share, and down again.
theorem foldlM_enter_route {fromDir toDir : List String} {file : String}
    (ht : ∀ s ∈ toDir, s ≠ "" ∧ Descends s) (hf : Descends file) :
    (route fromDir toDir file).foldlM enter fromDir = some (toDir ++ [file].filter (· ≠ "")) := by
  obtain ⟨common, up, down, fork, hr⟩ := exists_route fromDir toDir
  have hd : ∀ s ∈ down, s ≠ "" ∧ Descends s := fun s hs => ht s (by simp [fork.to_eq, hs])
  have descends : ∀ s ∈ down ++ [file], Descends s := by
    rw [List.forall_mem_append, List.forall_mem_singleton]
    exact ⟨fun s hs => (hd s hs).right, hf⟩
  have named : down.filter (· ≠ "") = down := by
    simpa [List.filter_eq_self] using fun s hs => (hd s hs).left
  calc
    (route fromDir toDir file).foldlM enter fromDir
    _ = (List.replicate up.length "..").foldlM enter (common ++ up) >>= (down ++ [file]).foldlM enter := by
      rw [hr, List.append_assoc, List.foldlM_append, ← fork.from_eq]
    _ = some (common ++ (down ++ [file]).filter (· ≠ "")) := by
      rw [foldlM_enter_up, Option.bind_eq_bind, Option.bind_some, foldlM_enter_down descends]
    _ = some (toDir ++ [file].filter (· ≠ "")) := by
      rw [List.filter_append, named, ← List.append_assoc, ← fork.to_eq]

theorem notMem_of_mem_directory {s : String} (hs : s ∈ directory path) : '/' ∉ s.toList :=
  Text.notMem_of_mem_cut (List.mem_of_mem_filter (List.mem_of_mem_dropLast hs))

theorem segments_of_ne_dot (h : ∀ s ∈ Text.cut '/' path, s ≠ ".") :
    segments path = (Text.cut '/' path).filter (· ≠ "") :=
  List.filter_congr fun s hs => by simp [h s hs]

namespace Straight

variable (h : Straight path)
include h

-- The pieces of a path, with and without the extension.
theorem exists_cut : ∃ init, Text.cut '/' path = init ++ [stem (fileName path) ++ extension] ∧
    Text.cut '/' (stem path) = init ++ [stem (fileName path)] := by
  obtain ⟨stem, hp⟩ := h.extended
  have hb : '/' ∉ extension.toList := by decide
  obtain ⟨init, file, hs, hc⟩ := Text.exists_cut_append hb stem
  rw [← hp] at hc
  have hn : OutputPath.stem (fileName path) = file := by
    rw [fileName, hc, List.getLast?_concat, Option.getD_some, stem_append]
  exact ⟨init, hn.symm ▸ hc, by rw [hn, hp, stem_append, hs]⟩

theorem dropLast_segments : (segments path).dropLast = directory path := by
  rw [segments_of_ne_dot fun s hs => (h.descends s hs).left, directory]

theorem descends_of_mem {s : String} (hs : s ∈ directory path) : s ≠ "" ∧ Descends s := by
  obtain ⟨hs, hne⟩ := List.mem_filter.mp (List.mem_of_mem_dropLast hs)
  exact ⟨by simpa using hne, h.descends s hs⟩

theorem notMem_stem : '/' ∉ (stem (fileName path)).toList := by
  obtain ⟨init, -, hs⟩ := h.exists_cut
  have hm : stem (fileName path) ∈ Text.cut '/' (stem path) := by simp [hs]
  exact Text.notMem_of_mem_cut hm

theorem segments_stem (hf : stem (fileName path) ≠ ".") :
    segments (stem path) = directory path ++ [stem (fileName path)].filter (· ≠ "") := by
  obtain ⟨init, hc, hs⟩ := h.exists_cut
  have hd : directory path = init.filter (· ≠ "") := by
    simp [directory, hc, extension]
  have ne_dot : ∀ s ∈ Text.cut '/' (stem path), s ≠ "." := by
    rw [hs, List.forall_mem_append, List.forall_mem_singleton]
    exact ⟨fun s hm => (h.descends s (by simp [hc, hm])).left, hf⟩
  rw [segments_of_ne_dot ne_dot, hs, List.filter_append, hd]

end Straight

-- The segments that lead from one file to another, and their text.
def routeTo (source target : String) : List String :=
  route (directory source) (directory target) (stem (fileName target))

def wayTo (source target : String) : String :=
  "/".intercalate (routeTo source target)

-- A text with two dots in front.
def Dotted (text : String) : Prop :=
  "..".toList <+: text.toList

theorem specifier_eq (source target : String) : specifier source target =
    if (Text.stripFront? ".." (wayTo source target)).isSome then wayTo source target
    else "./" ++ wayTo source target :=
  rfl

theorem specifier_cases (source target : String) :
    Dotted (wayTo source target) ∧ specifier source target = wayTo source target ∨
      ¬Dotted (wayTo source target) ∧ specifier source target = "./" ++ wayTo source target := by
  have dotted : (Text.stripFront? ".." (wayTo source target)).isSome ↔ Dotted (wayTo source target) := by
    exact Text.isSome_stripFront?_iff
  rw [specifier_eq]
  split
  case isTrue h  => exact .inl ⟨dotted.mp h, rfl⟩
  case isFalse h => exact .inr ⟨dotted.not.mp h, rfl⟩

theorem cut_wayTo (ht : Straight target) : Text.cut '/' (wayTo source target) = routeTo source target := by
  obtain ⟨common, up, down, fork, hr⟩ := exists_route (directory source) (directory target)
  have hd : ∀ s ∈ directory target, '/' ∉ s.toList := fun _ => notMem_of_mem_directory
  rw [fork.to_eq, List.forall_mem_append] at hd
  refine Text.cut_intercalate rfl ?_ (by simp [routeTo, route])
  rw [routeTo, hr]
  simp only [List.forall_mem_append, List.forall_mem_singleton]
  refine ⟨⟨fun s hs => ?_, hd.right⟩, ht.notMem_stem⟩
  rw [List.eq_of_mem_replicate hs]
  decide

-- The dot that marks a specifier as relative leads nowhere.
theorem resolve_specifier (ht : Straight target) (dir : List String) :
    resolve dir (specifier source target) = (routeTo source target).foldlM enter dir := by
  rw [resolve]
  cases specifier_cases source target
  case inl h => rw [h.right, cut_wayTo ht]
  case inr h =>
    have dot : Text.cut '/' ("./" ++ wayTo source target) = "." :: routeTo source target := by
      rw [show "./" = "." ++ "/" from rfl, Text.cut_append rfl, cut_wayTo ht, Text.cut_of_notMem (by decide),
        List.singleton_append]
    simp [h.right, dot, enter]

-- What is imported by its place and not by the name of a package.
def IsRelative (specifier : String) : Prop :=
  "./".toList <+: specifier.toList ∨ "../".toList <+: specifier.toList

instance : DecidablePred IsRelative :=
  fun _ => inferInstanceAs (Decidable (_ ∨ _))

theorem exists_toList_intercalate (s : String) (l : List String) :
    ∃ tail, ("/".intercalate (s :: l)).toList = s.toList ++ tail ∧ (tail = [] ∨ tail.head? = some '/') := by
  cases l
  case nil      => exact ⟨[], by simp, .inl rfl⟩
  case cons t l => exact ⟨'/' :: ("/".intercalate (t :: l)).toList, by simp, .inr rfl⟩

-- Whether a way has two dots in front is decided by its first segment.
theorem dotted_intercalate_iff {s : String} {l : List String} :
    Dotted ("/".intercalate (s :: l)) ↔ Dotted s := by
  obtain ⟨tail, h, ht⟩ := exists_toList_intercalate s l
  have ht : ∀ rest, ¬ '.' :: rest <+: tail := by
    rintro rest ⟨more, rfl⟩
    simp at ht
  rw [Dotted, Dotted, h]
  rcases s.toList with _ | ⟨c, _ | ⟨d, cs⟩⟩ <;> simp [ht]

theorem Dotted.not_isRelative {s : String} (hd : Dotted s) (hs : s ≠ "..") (hn : '/' ∉ s.toList)
    (l : List String) : ¬IsRelative ("/".intercalate (s :: l)) := by
  obtain ⟨tail, h, -⟩ := exists_toList_intercalate s l
  obtain ⟨cs, hc⟩ := hd
  rw [IsRelative, h, ← hc]
  cases cs
  case nil => exact absurd (String.toList_injective hc.symm) hs
  case cons c cs =>
    have hne : '/' ≠ c := by
      rintro rfl
      exact hn (by simp [← hc])
    simp [hne]

theorem isRelative_specifier_of_up {l : List String} (hr : routeTo source target = ".." :: l) (hl : l ≠ []) :
    IsRelative (specifier source target) := by
  cases specifier_cases source target
  case inr h =>
    rw [h.right]
    simp [IsRelative]
  case inl h =>
    rw [h.right, wayTo, hr, String.intercalate_cons_of_ne_nil hl]
    simp [IsRelative]

theorem isRelative_specifier_iff {s : String} {l : List String} (hr : routeTo source target = s :: l)
    (hs : s ≠ "..") (hn : '/' ∉ s.toList) : IsRelative (specifier source target) ↔ ¬Dotted s := by
  have hw : wayTo source target = "/".intercalate (s :: l) := by rw [wayTo, hr]
  rw [← dotted_intercalate_iff (l := l), ← hw]
  cases specifier_cases source target
  case inl h =>
    have hd : Dotted s := dotted_intercalate_iff.mp (hw ▸ h.left)
    rw [h.right, hw]
    exact iff_of_false (hd.not_isRelative hs hn l) (by simpa [dotted_intercalate_iff] using hd)
  case inr h =>
    refine iff_of_true ?_ h.left
    rw [h.right]
    simp [IsRelative]

end OutputPath

open OutputPath

theorem specifier_resolves {source target : String} (hs : Straight source) (ht : Straight target)
    (hf : Descends (stem (fileName target))) :
    resolve (segments source).dropLast (specifier source target) = some (segments (stem target)) := by
  rw [hs.dropLast_segments, resolve_specifier ht, routeTo,
    foldlM_enter_route (fun s => ht.descends_of_mem) hf, ht.segments_stem hf.left]

theorem specifier_resolves_team : ∃ source target, source = "auth/v1/user.ts" ∧ target = "auth//v12/team.ts" ∧
    Straight source ∧ Straight target ∧ Descends (stem (fileName target)) ∧
    specifier source target = "../v12/team" ∧ segments (stem target) = ["auth", "v12", "team"] ∧
    resolve (segments source).dropLast (specifier source target) = some (segments (stem target)) := by
  have hs : Straight "auth/v1/user.ts" := ⟨⟨"auth/v1/user", rfl⟩, by decide +kernel⟩
  have ht : Straight "auth//v12/team.ts" := ⟨⟨"auth//v12/team", rfl⟩, by decide +kernel⟩
  have hf : Descends (stem (fileName "auth//v12/team.ts")) := by decide +kernel
  exact ⟨_, _, rfl, rfl, hs, ht, hf, by decide +kernel, by decide +kernel, specifier_resolves hs ht hf⟩

-- The names that lead down to a file from a directory may have two dots in front. Then the specifier is
-- not marked as relative.
theorem specifier_relative_iff {source target : String} (hs : Straight source) (ht : Straight target)
    (hf : Descends (stem (fileName target))) : IsRelative (specifier source target) ↔
      ¬∃ s rest, segments (stem target) = (segments source).dropLast ++ s :: rest ∧ Dotted s := by
  rw [hs.dropLast_segments, ht.segments_stem hf.left]
  obtain ⟨common, up, down, fork, hr⟩ := exists_route (directory source) (directory target)
  cases up
  case cons u up =>
    have route : routeTo source target = ".." :: _ := hr _
    refine iff_of_true (isRelative_specifier_of_up route (by simp)) ?_
    rintro ⟨s, rest, h, -⟩
    refine fork.append_ne (by simp) ?_ s rest h
    exact List.length_filter_le _ _
  case nil =>
    have here : directory source = common := by simpa using fork.from_eq
    rw [fork.to_eq, here]
    cases down
    case nil =>
      rw [isRelative_specifier_iff (hr _) hf.right ht.notMem_stem]
      by_cases he : stem (fileName target) = ""
      case pos => simp [he, Dotted]
      case neg => simp [he]
    case cons d down =>
      have hd : d ∈ directory target := by simp [fork.to_eq]
      rw [isRelative_specifier_iff (hr _) (ht.descends_of_mem hd).right.right (notMem_of_mem_directory hd)]
      simp

theorem specifier_relative_iff_shared : ∃ source target,
    source = "auth/user.ts" ∧ target = "..shared/team.ts" ∧
    Straight source ∧ Straight target ∧ Descends (stem (fileName target)) ∧
    specifier source target = "../..shared/team" ∧
    (IsRelative (specifier source target) ↔
      ¬∃ s rest, segments (stem target) = (segments source).dropLast ++ s :: rest ∧ Dotted s) := by
  have hs : Straight "auth/user.ts" := ⟨⟨"auth/user", rfl⟩, by decide +kernel⟩
  have ht : Straight "..shared/team.ts" := ⟨⟨"..shared/team", rfl⟩, by decide +kernel⟩
  have hf : Descends (stem (fileName "..shared/team.ts")) := by decide +kernel
  exact ⟨_, _, rfl, rfl, hs, ht, hf, by decide +kernel, specifier_relative_iff hs ht hf⟩

-- A directory whose name has two dots in front is taken for the name of a package.
theorem specifier_not_relative : Straight "user.ts" ∧ Straight "..shared/team.ts" ∧
    Descends (stem (fileName "..shared/team.ts")) ∧
    specifier "user.ts" "..shared/team.ts" = "..shared/team" ∧
    ¬IsRelative (specifier "user.ts" "..shared/team.ts") := by
  refine ⟨⟨⟨"user", rfl⟩, ?_⟩, ⟨⟨"..shared/team", rfl⟩, ?_⟩, ?_⟩ <;> decide +kernel

end ProtoTypings
