namespace ProtoTypings

-- One level of indentation in generated code.
inductive Indent where
  | spaces (width : Nat)
  | tab
  deriving DecidableEq, Repr

namespace Indent

-- A level has at most eight spaces.
def text : Indent → List Char
  | spaces width => List.replicate (min width 8) ' '
  | tab => ['\t']

def one (i : Indent) : String :=
  String.ofList i.text

-- The indentation of `depth` nested levels.
def nested (i : Indent) (depth : Nat) : String :=
  String.ofList (List.replicate depth i.text).flatten

def default : Indent := spaces 4

instance : Inhabited Indent := ⟨default⟩

end Indent

end ProtoTypings
