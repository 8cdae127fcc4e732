import ProtoTypings.Hooks
import ProtoTypings.Imports

namespace ProtoTypings

-- A piece of generated code under way or the reason why there is none, the names of other files that it
-- uses, and what happened so far.
structure Draft (α : Type) where
  result : Except GenerationError α
  uses : List Use := []
  events : List Event := []

namespace Draft

variable {α β : Type}

def fail (e : GenerationError) : Draft α :=
  { result := .error e }

def note (e : Event) : Draft Unit :=
  { result := .ok (), events := [e] }

def noteAll (es : List Event) : Draft Unit :=
  { result := .ok (), events := es }

def use (u : Use) : Draft Unit :=
  { result := .ok (), uses := [u] }

instance : Monad Draft where
  pure a := { result := .ok a }
  bind d f :=
    match d.result with
    | .error e => { result := .error e, uses := d.uses, events := d.events }
    | .ok a =>
      let next := f a
      { result := next.result, uses := d.uses ++ next.uses, events := d.events ++ next.events }

def ofExcept : Except GenerationError α → Draft α
  | .ok a => pure a
  | .error e => fail e

-- The draft for each element of a list, up to the first that fails.
def each (f : α → Draft β) : List α → Draft (List β)
  | [] => pure []
  | a :: rest => do
    let b ← f a
    return b :: (← each f rest)

-- The uses of the names that `keep` accepts, file by file. A file keeps its place even if its first
-- name is not kept.
def restrict (keep : String → Bool) (uses : List Use) : List Use :=
  ((Imports.ofUses uses).retain keep).uses

-- Offering a drafted value to a hook that may or may not be there.
structure Offer (α : Type) where
  kind : HookKind
  subject : String
  hook : Option (α → Except String (Answer α))
  question : α → Question
  name : α → String
  references : α → List String
  -- what is noted when the value is dropped
  dropped : List Event := []

def Offer.error (o : Offer α) (message : String) : GenerationError :=
  .hook o.kind o.subject message

-- The value after the hook has answered, or nothing if it was dropped. A replacement has a name, and
-- it keeps of the uses of the drafted value only those that it mentions; a dropped value and one that
-- failed keep none.
def consult (o : Offer α) (d : Draft α) : Draft (Option α) :=
  match d.result with
  | .error e => { result := .error e, events := d.events }
  | .ok value =>
    match o.hook with
    | none => { result := .ok (some value), uses := d.uses, events := d.events }
    | some hook =>
      let events := d.events ++ [.asked (o.question value)]
      match hook value with
      | .error message => { result := .error (o.error message), events }
      | .ok .keep => { result := .ok (some value), uses := d.uses, events }
      | .ok (.replace custom) =>
        if o.name custom = "" then
          { result := .error (o.error ("override has an empty " ++ o.kind.text ++ " name")), events }
        else
          { result := .ok (some custom)
            uses := restrict (o.references custom).contains d.uses
            events }
      | .ok .drop => { result := .ok none, events := events ++ o.dropped }

end Draft

end ProtoTypings
