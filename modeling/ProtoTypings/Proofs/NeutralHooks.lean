import Mathlib
import ProtoTypings.Proofs.Mentions

namespace ProtoTypings

-- An answer to an offer that leaves the offered value as it is.
def Answer.Neutral {α : Type} (value : α) (answer : Except String (Answer α)) : Prop :=
  answer = .ok .keep ∨ answer = .ok (.replace value)

-- Hooks with a neutral answer to a question about the graph `g`, or without files of their own.
def Hooks.Neutral (h : Hooks) (g : Graph) (r : Registry) : Question → Prop
  | .interface node name offer => ∀ hook ∈ h.interface, Answer.Neutral offer (hook g node name offer)
  | .member field message offer => ∀ hook ∈ h.member, Answer.Neutral offer (hook g field message offer)
  | .file path entries offer => ∀ hook ∈ h.file, Answer.Neutral offer (hook path entries offer)
  | .customFiles => ∀ hook ∈ h.customFiles, hook g r = .ok []

namespace Draft

variable {α β : Type} {d d' : Draft α} {P Q : Question → Prop}

-- Drafts with one and the same result, whose uses lead to the same imports.
structure Agrees (d d' : Draft α) : Prop where
  result : d.result = d'.result
  uses : Imports.Alike d.uses d'.uses

namespace Agrees

theorem refl (d : Draft α) : d.Agrees d :=
  ⟨rfl, .refl _⟩

theorem bind {f f' : α → Draft β} (h : d.Agrees d') (hf : ∀ a, d.result = .ok a → (f a).Agrees (f' a)) :
    (d >>= f).Agrees (d' >>= f') := by
  have hr := h.result
  cases hd : d.result
  case error e =>
    constructor
    case result => simp [Bind.bind, ← hr, hd]
    case uses   => simpa [Bind.bind, ← hr, hd] using h.uses
  case ok a =>
    have ha := hf a hd
    have hd' := hr ▸ hd
    constructor
    case result => rw [result_bind_of_ok hd, result_bind_of_ok hd', ha.result]
    case uses   => rw [uses_bind_of_ok hd, uses_bind_of_ok hd']; exact h.uses.append ha.uses

-- A replacement by the value itself keeps all its uses, because the value mentions them.
theorem consult {o o' : Offer α} {path : String} (h : d.Agrees d') (backed : d.Backed path o.references)
    (named : ∀ a, d.result = .ok a → o.name a ≠ "")
    (neutral : ∀ hook ∈ o.hook, ∀ a, d.result = .ok a → Answer.Neutral a (hook a)) (absent : o'.hook = none) :
    (consult o d).Agrees (consult o' d') := by
  have hr := h.result
  cases hd : d.result
  case error e =>
    have hd' := hr ▸ hd
    simp only [Draft.consult, hd, hd']
    exact ⟨rfl, .refl _⟩
  case ok a =>
    have hd' := hr ▸ hd
    cases ho : o.hook
    case none =>
      simp only [Draft.consult, hd, hd', ho, absent]
      exact ⟨rfl, h.uses⟩
    case some hook =>
      rcases neutral hook ho a hd with ha | ha
      case inl =>
        simp only [Draft.consult, hd, hd', ho, absent, ha]
        exact ⟨rfl, h.uses⟩
      case inr =>
        have kept : (Imports.ofUses d.uses).retain (o.references a).contains = .ofUses d.uses := by
          refine (Imports.Tidy.ofUses d.uses).retain_eq_self fun u hu => ?_
          simpa using (backed a hd u (Imports.mem_uses_ofUses_iff.mp hu)).right
        simp only [Draft.consult, hd, hd', ho, absent, ha, named a hd, if_false, restrict, kept]
        exact ⟨rfl, .trans (fun i t => i.addAll_uses_ofUses t d.uses) h.uses⟩

end Agrees

-- The drafts agree if the questions on the way to the first of them are all as `P` says.
def Follows (P : Question → Prop) (d d' : Draft α) : Prop :=
  (∀ q, .asked q ∈ d.events → P q) → d.Agrees d'

namespace Follows

theorem refl (P : Question → Prop) (d : Draft α) : d.Follows P d :=
  fun _ => .refl d

theorem mono (h : d.Follows P d') (hq : ∀ q, Q q → P q) : d.Follows Q d' :=
  fun asked => h fun q he => hq q (asked q he)

theorem bind {f f' : α → Draft β} (h : d.Follows P d') (hf : ∀ a, d.result = .ok a → (f a).Follows P (f' a)) :
    (d >>= f).Follows P (d' >>= f') := by
  intro asked
  refine (h fun q hq => asked q (events_subset_bind f hq)).bind fun a ha => ?_
  exact hf a ha fun q hq => asked q (events_subset_bind_of_ok ha hq)

theorem map (f : α → β) (h : d.Follows P d') : (f <$> d).Follows P (f <$> d') :=
  h.bind fun _ _ => .refl P _

theorem each {f f' : α → Draft β} {l : List α} (h : ∀ a ∈ l, (f a).Follows P (f' a)) :
    (each f l).Follows P (each f' l) := by
  induction l
  case nil => exact .refl P _
  case cons a rest hi =>
    obtain ⟨ha, hr⟩ := List.forall_mem_cons.mp h
    exact ha.bind fun _ _ => (hi hr).map _

theorem consult {o o' : Offer α} {path : String} (h : d.Follows P d') (backed : d.Backed path o.references)
    (named : ∀ a, d.result = .ok a → o.name a ≠ "")
    (neutral : ∀ hook ∈ o.hook, ∀ a, P (o.question a) → Answer.Neutral a (hook a)) (absent : o'.hook = none) :
    (consult o d).Follows P (consult o' d') := by
  intro asked
  have agrees := h fun q hq => asked q (events_subset_consult o hq)
  refine agrees.consult backed named (fun hook ho a ha => ?_) absent
  exact neutral hook ho a (asked _ (asked_mem_consult ha ho))

end Follows

end Draft

-- The mapping as it is without hooks.
def Mapping.unhooked (m : Mapping) : Mapping :=
  { m with hooks := .none }

namespace Mapping

-- The hooks of the mapping have a neutral answer to a question.
abbrev NeutralFor (m : Mapping) : Question → Prop :=
  m.hooks.Neutral m.graph m.registry

variable {m : Mapping} {inline inline' : Inliner} {P : Question → Prop}

theorem valueType_follows (id : NodeId) (field : Field)
    (hi : ∀ message, (inline id message).Follows P (inline' id message)) :
    (m.valueType inline id field).Follows P (m.valueType inline' id field) := by
  rw [valueType, valueType]
  cases field.resolved.map fun target => (target, m.registry.lookup? target)
  case none => exact .refl P _
  case some found =>
    obtain ⟨target, entry?⟩ := found
    cases entry?
    case some entry => exact .refl P _
    case none =>
      dsimp only
      cases m.graph.enumValues? target
      case some => exact .refl P _
      case none =>
        dsimp only
        cases m.wellKnown.code? field.typeName
        case some => exact .refl P _
        case none =>
          dsimp only
          split
          case isTrue  => exact hi target
          case isFalse => exact .refl P _

section

variable (named : ∀ f field, m.graph.field? f = some field → Identifier.ofField (m.graph.name f) ≠ "")

include named

theorem memberWith_follows (id : NodeId)
    (hi : ∀ message, (inline id message).Follows m.NeutralFor (inline' id message))
    (backed : ∀ message, (inline id message).Backed m.path TypeExpr.references) :
    (m.memberWith inline id).Follows m.NeutralFor (m.unhooked.memberWith inline' id) := by
  rw [memberWith, memberWith, show m.unhooked.graph = m.graph from rfl]
  cases hf : m.graph.field? id
  case none => exact .refl _ _
  case some field =>
    apply Draft.Follows.consult
    case absent => rfl
    case h => exact ((valueType_follows id field hi).map _).map _
    case backed => exact (fieldType_backed (valueType_backed id field backed)).map fun _ => List.Subset.refl _
    case named =>
      intro member h
      obtain ⟨type, _, heq⟩ := exists_of_map_eq_ok (Draft.result_map _ ▸ h)
      exact heq ▸ named id field hf
    case neutral =>
      intro hook hh member neutral
      obtain ⟨hook', hm, heq⟩ := Option.map_eq_some_iff.mp hh
      exact heq ▸ neutral hook' hm

theorem membersWith_follows (message : NodeId)
    (hi : ∀ field message, (inline field message).Follows m.NeutralFor (inline' field message))
    (backed : ∀ field message, (inline field message).Backed m.path TypeExpr.references) :
    (m.membersWith inline message).Follows m.NeutralFor (m.unhooked.membersWith inline' message) := by
  refine (Draft.Follows.each fun field _ => ?_).map _
  exact memberWith_follows named field (hi field) (backed field)

-- By the recursion of `inlineType`.
theorem inlineType_follows (stack : List NodeId) (field message : NodeId) :
    (m.inlineType stack field message).Follows m.NeutralFor (m.unhooked.inlineType stack field message) := by
  rw [inlineType, inlineType, show m.unhooked.graph = m.graph from rfl]
  split
  case isTrue => exact .refl _ _
  case isFalse hs =>
    split
    case isFalse => exact .refl _ _
    case isTrue hm =>
      have _ := m.remaining_cons_lt hm hs
      refine (membersWith_follows named message ?_ ?_).map _
      · exact inlineType_follows (message :: stack)
      · exact inlineType_backed (message :: stack)
termination_by m.remaining stack
decreasing_by assumption

theorem memberOf_follows (stack : List NodeId) (field : NodeId) :
    (m.memberOf stack field).Follows m.NeutralFor (m.unhooked.memberOf stack field) :=
  memberWith_follows named field (inlineType_follows named stack field) (inlineType_backed stack field)

end

end Mapping

-- The run as it is without hooks.
def Generation.unhooked (run : Generation) : Generation :=
  { run with hooks := .none }

namespace Generation

variable {run : Generation} {r : Registry} {path : String} {entries : List Entry}

-- A question about the run that its hooks have a neutral answer to.
def Neutral (run : Generation) (q : Question) : Prop :=
  ∀ r, Registry.build run.graph run.settings = .ok r → run.hooks.Neutral run.graph r q

theorem reviewed_follows (r : Registry) (path : String) (entries : List Entry) (content : String) :
    (run.reviewed path entries content).Follows (run.hooks.Neutral run.graph r)
      (run.unhooked.reviewed path entries content) := by
  intro neutral
  cases hh : run.hooks.file
  case none =>
    rw [reviewed, hh]
    exact .refl _
  case some hook =>
    have asked : .asked (.file path entries content) ∈ (run.reviewed path entries content).events := by
      rw [reviewed, hh]
      exact Draft.events_subset_bind _ List.mem_cons_self
    rw [reviewed, hh]
    rcases neutral _ asked hook hh with ha | ha
    all_goals
      simp only [ha]
      exact ⟨rfl, .refl _⟩

theorem customFiles_follows (r : Registry) :
    (run.customFiles r).Follows (run.hooks.Neutral run.graph r) (run.unhooked.customFiles r) := by
  intro neutral
  cases hh : run.hooks.customFiles
  case none =>
    rw [customFiles, hh]
    exact .refl _
  case some hook =>
    have asked : .asked .customFiles ∈ (run.customFiles r).events := by
      rw [customFiles, hh]
      exact Draft.events_subset_bind _ List.mem_cons_self
    rw [customFiles, hh]
    simp only [neutral _ asked hook hh]
    exact ⟨rfl, .refl _⟩

section

variable (named : ∀ f field, run.graph.field? f = some field → Identifier.ofField (run.graph.name f) ≠ "")

include named

theorem memberFor_follows (field : NodeId) : (run.memberFor (run.mapping r path) field).Follows
    (run.hooks.Neutral run.graph r) (run.unhooked.memberFor (run.unhooked.mapping r path) field) :=
  (Mapping.memberOf_follows (m := run.mapping r path) named [] field).map _

theorem interfaceFor_follows {e : Entry} (he : e.name ≠ "") :
    (run.interfaceFor (run.mapping r path) e).Follows (run.hooks.Neutral run.graph r)
      (run.unhooked.interfaceFor (run.unhooked.mapping r path) e) := by
  apply Draft.Follows.consult
  case absent => rfl
  case backed => exact members_backed e
  case h => exact (Draft.Follows.each fun field _ => memberFor_follows named field).map _
  case named =>
    intro i h
    obtain ⟨members, _, heq⟩ := exists_of_map_eq_ok (Draft.result_map _ ▸ h)
    exact heq ▸ he
  case neutral =>
    intro hook hh i neutral
    obtain ⟨hook', hm, heq⟩ := Option.map_eq_some_iff.mp hh
    exact heq ▸ neutral hook' hm

theorem declarationFor_follows {e : Entry} (he : e.name ≠ "") :
    (run.declarationFor (run.mapping r path) e).Follows (run.hooks.Neutral run.graph r)
      (run.unhooked.declarationFor (run.unhooked.mapping r path) e) := by
  rw [declarationFor, declarationFor, show run.unhooked.graph = run.graph from rfl]
  split
  case h_1 => exact .refl _ _
  case h_2 =>
    split
    case isFalse => exact .refl _ _
    case isTrue  => exact (interfaceFor_follows named he).map _

theorem declarations_follows (he : ∀ e ∈ entries, e.name ≠ "") :
    (run.declarations r path entries).Follows (run.hooks.Neutral run.graph r)
      (run.unhooked.declarations r path entries) := by
  refine (Draft.Follows.each fun e hm => ?_).map _
  exact declarationFor_follows named (he e hm)

theorem render_follows (he : ∀ e ∈ entries, e.name ≠ "") :
    (run.render r path entries).Follows (run.hooks.Neutral run.graph r)
      (run.unhooked.render r path entries) := by
  intro neutral
  have h : (run.declarations r path entries).Agrees (run.unhooked.declarations r path entries) :=
    declarations_follows named he neutral
  refine ⟨?_, .refl _⟩
  simp only [render, sourceFile, importStmts, h.result, h.uses.ofUses_eq]
  rfl

theorem fileFor_follows (he : ∀ e ∈ entries, e.name ≠ "") :
    (run.fileFor r (path, entries)).Follows (run.hooks.Neutral run.graph r)
      (run.unhooked.fileFor r (path, entries)) := by
  refine (render_follows named he).bind fun content _ => ?_
  exact (reviewed_follows r path entries content).bind fun _ _ => .refl _ _

end

-- Once the registry is built, every question is about it.
theorem files_follows
    (entries : ∀ r, Registry.build run.graph run.settings = .ok r → ∀ e ∈ r.entries, e.name ≠ "")
    (fields : ∀ f field, run.graph.field? f = some field → Identifier.ofField (run.graph.name f) ≠ "") :
    run.files.Follows run.Neutral run.unhooked.files := by
  refine (Draft.Follows.refl _ run.registry).bind fun r hr => ?_
  have built := build_eq_of_registry hr
  refine Draft.Follows.mono (P := run.hooks.Neutral run.graph r) ?_ fun q neutral => neutral r built
  refine Draft.Follows.bind (.each fun group hg => ?_) fun files _ => ?_
  · obtain ⟨path, _, heq⟩ := List.mem_map.mp hg
    refine heq ▸ fileFor_follows fields fun e he => ?_
    exact entries r built e (List.mem_of_mem_filter he)
  · exact (customFiles_follows r).bind fun _ _ => .refl _ _

end Generation

-- Files, contents and errors are those of the run without hooks. A replacement without a name is an error,
-- which is why names are not to be empty.
theorem neutral_hooks_invisible (run : Generation)
    (neutral : ∀ q, .asked q ∈ run.files.events → run.Neutral q)
    (entries : ∀ r, Registry.build run.graph run.settings = .ok r → ∀ e ∈ r.entries, e.name ≠ "")
    (fields : ∀ f field, run.graph.field? f = some field → Identifier.ofField (run.graph.name f) ≠ "") :
    run.files.result = run.unhooked.files.result :=
  (Generation.files_follows entries fields neutral).result

-- Some of what is offered is kept and some is replaced by itself. Other files than the two of the schema are
-- refused.
def Generation.mirroredBlog : Generation :=
  { Generation.blog with
    hooks := {
      interface := some fun _ _ name i => .ok (if name = "BlogPost" then .replace i else .keep)
      member := some fun g field _ member => .ok (if g.name field = "tags" then .keep else .replace member)
      file := some fun path _ content =>
        if path = "blog/post.ts" ∨ path = "site.ts" then .ok (.replace content) else .error "no such file"
      customFiles := some fun _ _ => .ok [] } }

-- The path of the file that an event asks about.
def Event.filePath? : Event → Option String
  | asked (.file path _ _) => some path
  | _ => none

theorem neutral_hooks_invisible_blog :
    (∀ q, .asked q ∈ Generation.mirroredBlog.files.events → Generation.mirroredBlog.Neutral q) ∧
    Generation.mirroredBlog.files.result = Generation.blog.files.result := by
  have paths : Generation.mirroredBlog.files.events.filterMap Event.filePath? = ["blog/post.ts", "site.ts"] := by
    decide +kernel
  have neutral : ∀ q, .asked q ∈ Generation.mirroredBlog.files.events → Generation.mirroredBlog.Neutral q := by
    rintro q asked r -
    cases q
    case interface node name offer =>
      rintro _ ⟨⟩
      by_cases h : name = "BlogPost" <;> simp [Answer.Neutral, h]
    case member field message offer =>
      rintro _ ⟨⟩
      by_cases h : Graph.blog.name field = "tags"
      · exact .inl (by simp [Generation.mirroredBlog, Generation.blog, h])
      · exact .inr (by simp [Generation.mirroredBlog, Generation.blog, h])
    case file path entries offer =>
      rintro _ ⟨⟩
      have known : path ∈ ["blog/post.ts", "site.ts"] := paths ▸ List.mem_filterMap.mpr ⟨_, asked, rfl⟩
      exact .inr (if_pos (by simpa using known))
    case customFiles =>
      rintro _ ⟨⟩
      rfl
  refine ⟨neutral, neutral_hooks_invisible Generation.mirroredBlog neutral ?_ ?_⟩
  · intro r hr
    have hb : Registry.build Graph.blog {} = .ok ⟨[3, 8, 9].map (Entry.of Graph.blog {})⟩ := rfl
    cases hb.symm.trans hr
    decide +kernel
  · intro f field hf
    have named : ∀ f ∈ Graph.blog.ids, (Graph.blog.field? f).isSome →
        Identifier.ofField (Graph.blog.name f) ≠ "" := by
      decide +kernel
    have lt : f < Graph.blog.size := by
      have ⟨node, hn, _⟩ := Option.bind_eq_some_iff.mp hf
      exact (Array.getElem?_eq_some_iff.mp hn).choose
    exact named f (List.mem_range.mpr lt) (Option.isSome_of_eq_some hf)

end ProtoTypings
