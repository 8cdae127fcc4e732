import Mathlib
import ProtoTypings.Proofs.Generation

namespace ProtoTypings

structure Mapper.State where
  -- the messages that are being written out, the innermost first
  inlining : List NodeId
  -- all that the stack has been, one change after another
  past : List (List NodeId) := []

-- There is no outcome if the mapper would have to go deeper than it may.
abbrev Mapper : Type → Type :=
  StateT Mapper.State Option

namespace Mapper

variable {α β : Type}

def inlining : Mapper (List NodeId) :=
  State.inlining <$> get

def State.change (s : State) (stack : List NodeId) : State where
  inlining := stack
  past := s.past ++ [stack]

def enter (message : NodeId) : Mapper Unit :=
  modify fun s => s.change (message :: s.inlining)

def leave : Mapper Unit :=
  modify fun s => s.change s.inlining.tail

-- The drafts for the elements of a list, one after another, up to the first that fails.
def each (f : α → Mapper (Draft β)) : List α → Mapper (Draft (List β))
  | [] => return pure []
  | a :: rest => do
    let d ← f a
    match d.result with
    | .error e => return { result := .error e, uses := d.uses, events := d.events }
    | .ok _ => do
      let ds ← each f rest
      return do
        let b ← d
        return b :: (← ds)

-- From the given stack the mapper comes to an outcome and back to the stack. On the way there are only
-- messages put on top of it, and none is there twice.
def Restores (stack : List NodeId) (x : Mapper α) (a : α) : Prop :=
  ∀ past, ∃ added, x.run ⟨stack, past⟩ = some (a, ⟨stack, past ++ added⟩) ∧
    ∀ opened ∈ added, opened.Nodup ∧ stack <:+ opened

namespace Restores

variable {stack : List NodeId} {x : Mapper α} {a : α} {b : β}

theorem pure (a : α) : Restores stack (pure a) a :=
  fun past => ⟨[], by simp, by simp⟩

theorem inlining : Restores stack inlining stack :=
  fun past => ⟨[], by simp [Mapper.inlining], by simp⟩

theorem bind {f : α → Mapper β} (hx : Restores stack x a) (hf : Restores stack (f a) b) :
    Restores stack (x >>= f) b := by
  intro past
  obtain ⟨added, hx, opened⟩ := hx past
  obtain ⟨added', hf, opened'⟩ := hf (past ++ added)
  refine ⟨added ++ added', ?_, fun stack' h => (List.mem_append.mp h).elim (opened _) (opened' _)⟩
  rw [StateT.run_bind, hx, Option.bind_eq_bind, Option.bind_some, hf, List.append_assoc]

theorem map (f : α → β) (hx : Restores stack x a) : Restores stack (f <$> x) (f a) := by
  rw [map_eq_pure_bind]
  exact hx.bind (pure _)

-- A message is put on the stack and taken off it again.
theorem within (f : α → β) {message : NodeId} (hn : stack.Nodup) (hs : message ∉ stack)
    (hx : Restores (message :: stack) x a) :
    Restores stack (do enter message; let a ← x; leave; return f a) (f a) := by
  intro past
  obtain ⟨added, hx, opened⟩ := hx (past ++ [message :: stack])
  refine ⟨(message :: stack) :: added ++ [stack], ?_, fun stack' h => ?_⟩
  · simp [enter, leave, State.change, hx]
  · have above : stack <:+ message :: stack := List.suffix_cons message stack
    cases List.mem_append.mp h
    case inr h => exact (List.mem_singleton.mp h).symm ▸ ⟨hn, List.suffix_rfl⟩
    case inl h =>
      cases List.mem_cons.mp h
      case inl h => exact h ▸ ⟨hn.cons hs, above⟩
      case inr h => exact ⟨(opened _ h).1, above.trans (opened _ h).2⟩

theorem each {f : α → Mapper (Draft β)} {g : α → Draft β} {l : List α}
    (h : ∀ a ∈ l, Restores stack (f a) (g a)) : Restores stack (each f l) (Draft.each g l) := by
  induction l
  case nil => exact pure _
  case cons a rest hi =>
    obtain ⟨ha, hr⟩ := List.forall_mem_cons.mp h
    refine ha.bind ?_
    cases hd : (g a).result
    case ok => exact (hi hr).bind (pure _)
    case error e =>
      have failed : Draft.each g (a :: rest) =
          { result := .error e, uses := (g a).uses, events := (g a).events } := by
        simp [Draft.each, Bind.bind, hd]
      rw [failed]
      exact pure _

end Restores

end Mapper

-- What a mapper is asked for: the type of a field, the member for it, or the members of a message.
inductive Request where
  | type (field : NodeId)
  | member (field : NodeId)
  | members (message : NodeId)

inductive Reply where
  | type (draft : Draft TypeExpr)
  | member (draft : Draft (Option Member))
  | members (draft : Draft (List Member))

namespace Mapping

variable (m : Mapping)

-- The message that is written out for a field, if there is one.
def inlined? (field : Field) : Option NodeId :=
  field.resolved.filter fun target =>
    (m.registry.lookup? target).isNone && (m.graph.enumValues? target).isNone &&
      (m.wellKnown.code? field.typeName).isNone && m.graph.isMessage target

section

variable (inline : (field message : NodeId) → Mapper (Draft TypeExpr))

def mapType (id : NodeId) (field : Field) : Mapper (Draft TypeExpr) :=
  match m.inlined? field with
  | none => return m.fieldType (fun _ _ => pure .any) id field
  | some message => do
    let d ← inline id message
    return m.fieldType (fun _ _ => d) id field

def mapMember (id : NodeId) : Mapper (Draft (Option Member)) :=
  match m.graph.field? id with
  | none => return pure none
  | some field => do
    let d ← m.mapType inline id field
    return Draft.consult (m.memberOffer id) (m.defaultMember id field <$> d)

def mapMembers (message : NodeId) : Mapper (Draft (List Member)) := do
  let d ← Mapper.each (m.mapMember inline) (m.graph.fields message)
  return List.filterMap id <$> d

end

-- Writes out a message, and the messages in it at most at the given depth.
def mapMessage : (depth : Nat) → (field message : NodeId) → Mapper (Draft TypeExpr)
  | 0, _, _ => failure
  | depth + 1, field, message => do
    let stack ← Mapper.inlining
    if message ∈ stack then
      return do
        Draft.note (.messageRecursive (m.graph.fullName field) (m.graph.fullName message))
        return .any
    else
      Mapper.enter message
      let d ← m.mapMembers (mapMessage depth) message
      Mapper.leave
      return .object <$> d

def serve (depth : Nat) : Request → Mapper Reply
  | .type id =>
    match m.graph.field? id with
    | some field => Reply.type <$> m.mapType (m.mapMessage depth) id field
    | none => return .type (pure .any)
  | .member id => Reply.member <$> m.mapMember (m.mapMessage depth) id
  | .members message => Reply.members <$> m.mapMembers (m.mapMessage depth) message

-- One mapper for all requests.
def serveAll (depth : Nat) (requests : List Request) : Mapper (List Reply) :=
  requests.mapM (m.serve depth)

-- The reply of the mapping when the given messages are being written out.
def reply (stack : List NodeId) : Request → Reply
  | .type id => .type (m.typeOf stack id)
  | .member id => .member (m.memberOf stack id)
  | .members message => .members (m.membersOf stack message)

-- Only the message that is written out for a field counts.
theorem fieldType_congr {inline inline' : Inliner} {id : NodeId} {field : Field}
    (h : ∀ message, m.inlined? field = some message → inline id message = inline' id message) :
    m.fieldType inline id field = m.fieldType inline' id field := by
  have value : m.valueType inline id field = m.valueType inline' id field := by
    rw [valueType, valueType]
    split
    case h_1 target heq =>
      split
      case h_1 => rfl
      case h_2 he =>
        split
        case h_1 => rfl
        case h_2 hw =>
          split
          case isFalse => rfl
          case isTrue hm =>
            refine h target ?_
            obtain ⟨_, hr, heq⟩ := Option.map_eq_some_iff.mp heq
            rw [Prod.mk.injEq] at heq
            obtain ⟨rfl, hl⟩ := heq
            simp [inlined?, hr, hl, he, hw, hm]
    all_goals rfl
  rw [fieldType, fieldType, value]

section

variable {m} {stack : List NodeId} {inline : (field message : NodeId) → Mapper (Draft TypeExpr)}
  {inline' : Inliner}

theorem mapType_restores {id : NodeId} (field : Field)
    (h : ∀ message, (inline id message).Restores stack (inline' id message)) :
    (m.mapType inline id field).Restores stack (m.fieldType inline' id field) := by
  rw [mapType]
  cases hi : m.inlined? field
  case none =>
    have same : m.fieldType (fun _ _ => pure .any) id field = m.fieldType inline' id field :=
      m.fieldType_congr fun message hm => nomatch hi.symm.trans hm
    exact same ▸ .pure _
  case some message =>
    have same : m.fieldType (fun _ _ => inline' id message) id field = m.fieldType inline' id field :=
      m.fieldType_congr fun message' hm => by rw [Option.some.inj (hi.symm.trans hm)]
    exact same ▸ (h message).bind (.pure _)

theorem mapMember_restores {id : NodeId}
    (h : ∀ message, (inline id message).Restores stack (inline' id message)) :
    (m.mapMember inline id).Restores stack (m.memberWith inline' id) := by
  rw [mapMember, memberWith]
  cases m.graph.field? id
  case none       => exact .pure _
  case some field => exact (mapType_restores field h).bind (.pure _)

theorem mapMembers_restores {message : NodeId}
    (h : ∀ field ∈ m.graph.fields message, ∀ target,
      (inline field target).Restores stack (inline' field target)) :
    (m.mapMembers inline message).Restores stack (m.membersWith inline' message) :=
  (Mapper.Restores.each fun field hf => mapMember_restores (h field hf)).bind (.pure _)

end

variable {m}

theorem inlineType_of_notMem {stack : List NodeId} (field : NodeId) {message : NodeId}
    (hs : message ∉ stack) : m.inlineType stack field message =
      .object <$> m.membersWith (m.inlineType (message :: stack)) message := by
  rw [inlineType, dif_neg hs]
  split
  case isTrue     => rfl
  case isFalse hm =>
    rw [membersWith, Graph.fields_of_not_isMessage (Bool.eq_false_iff.mpr hm)]
    rfl

-- Every message that is put on the stack leaves fewer messages to go.
theorem mapMessage_restores {stack : List NodeId} (hn : stack.Nodup) {depth : Nat}
    (hd : m.remaining stack < depth) (field message : NodeId) :
    (m.mapMessage depth field message).Restores stack (m.inlineType stack field message) := by
  induction depth generalizing stack field message
  case zero => exact absurd hd (Nat.not_lt_zero _)
  case succ depth hi =>
    refine Mapper.Restores.inlining.bind ?_
    by_cases hs : message ∈ stack
    case pos =>
      rw [if_pos hs, inlineType, dif_pos hs]
      exact .pure _
    case neg =>
      have members : (m.mapMembers (m.mapMessage depth) message).Restores (message :: stack)
          (m.membersWith (m.inlineType (message :: stack)) message) := by
        refine mapMembers_restores fun field hf target => hi (hn.cons hs) ?_ field target
        have hm : m.graph.isMessage message = true := by
          by_contra hm
          rw [Graph.fields_of_not_isMessage (Bool.eq_false_iff.mpr hm)] at hf
          contradiction
        exact Nat.lt_of_lt_of_le (m.remaining_cons_lt hm hs) (Nat.le_of_lt_succ hd)
      rw [if_neg hs, inlineType_of_notMem field hs]
      exact .within _ hn hs members

theorem serve_restores {stack : List NodeId} (hn : stack.Nodup) {depth : Nat}
    (hd : m.remaining stack < depth) (request : Request) :
    (m.serve depth request).Restores stack (m.reply stack request) := by
  have inline := mapMessage_restores hn hd
  cases request
  case type id =>
    rw [serve, reply, typeOf]
    cases m.graph.field? id
    case none       => exact .pure _
    case some field => exact (mapType_restores field (inline id)).map _
  case member id => exact (mapMember_restores (inline id)).map _
  case members message => exact (mapMembers_restores fun field _ => inline field).map _

end Mapping

-- Requests may be served in any order and number, and each reply is that of the mapping for the stack.
theorem mapper_restores_stack (m : Mapping) {stack : List NodeId} (hn : stack.Nodup) {depth : Nat}
    (hd : m.remaining stack < depth) (requests : List Request) (past : List (List NodeId)) :
    ∃ added, (m.serveAll depth requests).run ⟨stack, past⟩ =
        some (requests.map (m.reply stack), ⟨stack, past ++ added⟩) ∧
      ∀ opened ∈ added, opened.Nodup ∧ stack <:+ opened := by
  have served : (m.serveAll depth requests).Restores stack (requests.map (m.reply stack)) := by
    rw [Mapping.serveAll]
    induction requests
    case nil => exact .pure _
    case cons request rest hi =>
      rw [List.mapM_cons]
      exact (Mapping.serve_restores hn hd request).bind (hi.bind (.pure _))
  exact served past

-- Trees of branches, which refer to each other and to themselves.
def Graph.trees : Graph :=
  ⟨#[{ name := "", parent := none, content := .package [1] },
     { name := "Tree", parent := some 0, content := .message [2, 3] [] [4] },
     { name := "branches", parent := some 1,
       content := .field { typeName := ".Tree.Branch", rule := .repeated, resolved := some 4 } },
     { name := "label", parent := some 1, content := .field { typeName := "string" } },
     { name := "Branch", parent := some 1, content := .message [5, 6] [] [] },
     { name := "next", parent := some 4,
       content := .field { typeName := ".Tree.Branch", resolved := some 4 } },
     { name := "tree", parent := some 4,
       content := .field { typeName := ".Tree", resolved := some 1 } }]⟩

-- No type is registered, so all messages are written out. The hook fails on labels.
def Mapping.trees : Mapping where
  graph := Graph.trees
  registry := ⟨[]⟩
  wellKnown := WellKnown.withOverrides []
  hooks := { member := some fun g id _ _ => if g.name id = "label" then .error "no text" else .ok .keep }
  path := "tree.ts"

def Reply.fails : Reply → Bool
  | type d => d.result.toOption.isNone
  | member d => d.result.toOption.isNone
  | members d => d.result.toOption.isNone

theorem mapper_restores_stack_trees : ∃ added,
    (Mapping.trees.serveAll 8 [.members 4, .type 3, .member 6]).run ⟨[], []⟩ =
      some ([.members 4, .type 3, .member 6].map (Mapping.trees.reply []), ⟨[], added⟩) ∧
    (∀ opened ∈ added, opened.Nodup ∧ [] <:+ opened) ∧
    ((Mapping.trees.serveAll 8 [.members 4, .type 3, .member 6]).run ⟨[], []⟩).map
        (fun (replies, s) => (replies.map Reply.fails, s.past)) =
      some ([true, false, true], [[4], [1, 4], [4], [], [1], [4, 1], [1], []]) := by
  have deep : Mapping.trees.remaining [] < 8 := by decide
  obtain ⟨added, h, opened⟩ := mapper_restores_stack Mapping.trees List.nodup_nil deep
    [.members 4, .type 3, .member 6] []
  exact ⟨added, h, opened, by decide +kernel⟩

end ProtoTypings
