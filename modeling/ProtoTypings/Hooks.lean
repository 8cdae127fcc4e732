import ProtoTypings.Registry.Basic

namespace ProtoTypings

-- What shall happen to a value that a hook is offered.
inductive Answer (α : Type) where
  | keep
  | replace (value : α)
  | drop

structure GeneratedFile where
  path : String
  content : String
  deriving DecidableEq, Repr

inductive HookKind where
  | interface
  | member
  | file
  | customFiles
  deriving DecidableEq, Repr

def HookKind.text : HookKind → String
  | interface => "interface"
  | member => "member"
  | file => "file"
  | customFiles => "custom files"

structure Hooks where
  interface : Option (Graph → (node : NodeId) → (name : String) → Interface →
    Except String (Answer Interface)) := none
  member : Option (Graph → (field message : NodeId) → Member → Except String (Answer Member)) := none
  file : Option ((path : String) → List Entry → (content : String) →
    Except String (Answer String)) := none
  customFiles : Option (Graph → Registry → Except String (List GeneratedFile)) := none

namespace Hooks

def none : Hooks := {}

-- Which of the hooks are there.
def installed (h : Hooks) : List (String × Bool) :=
  [("interface", h.interface.isSome), ("member", h.member.isSome), ("file", h.file.isSome),
   ("custom_files", h.customFiles.isSome)]

def summary (h : Hooks) : String :=
  "Hooks \x7b " ++ ", ".intercalate (h.installed.map fun (name, there) =>
    name ++ ": " ++ if there then "true" else "false") ++ " \x7d"

end Hooks

-- Why nothing is generated.
inductive GenerationError where
  | collision (collision : Collision)
  | hook (kind : HookKind) (subject message : String)
  deriving DecidableEq, Repr

def GenerationError.message : GenerationError → String
  | collision c => c.message
  | hook kind subject message => kind.text ++ " hook failed for " ++ subject ++ ": " ++ message

end ProtoTypings
