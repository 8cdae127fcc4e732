import ProtoTypings.Text.Blank

namespace ProtoTypings

structure Variable where
  name : String
  value : String

namespace Template

def isNameStart (c : Char) : Bool :=
  c.isAlpha || c == '_'

def isNameChar (c : Char) : Bool :=
  c.isAlphanum || c == '_'

-- Reads a hole at the beginning of a text: its name, and what follows the hole.
def hole? : List Char → Option (List Char × List Char)
  | '{' :: '{' :: rest =>
    let rest := rest.dropWhile Text.isBlank
    let name := rest.takeWhile isNameChar
    if name.head?.any isNameStart then
      match (rest.dropWhile isNameChar).dropWhile Text.isBlank with
      | '}' :: '}' :: rest => some (name, rest)
      | _ => none
    else none
  | _ => none

-- A template is a sequence of plain characters and holes; a hole keeps its spelling.
inductive Piece where
  | plain (c : Char)
  | hole (name spelling : List Char)
  deriving DecidableEq, Repr

-- The pieces of a text after its first `skip` characters. Holes are found from left to right and
-- do not overlap.
def piecesFrom : (skip : Nat) → List Char → List Piece
  | _, [] => []
  | skip + 1, _ :: rest => piecesFrom skip rest
  | 0, c :: rest =>
    match hole? (c :: rest) with
    | some (name, after) =>
      let spelling := (c :: rest).take (rest.length + 1 - after.length)
      .hole name spelling :: piecesFrom (spelling.length - 1) rest
    | none => .plain c :: piecesFrom 0 rest

def pieces (template : List Char) : List Piece :=
  piecesFrom 0 template

-- The text that stands for a piece. With `pad` a value has a space on each side, so that values of
-- neighbouring holes stay separate words.
def Piece.fill (vars : List Variable) (pad : Bool) : Piece → List Char
  | plain c => [c]
  | hole name spelling =>
    match vars.find? fun v => v.name.toList == name with
    | some v => if pad then ' ' :: v.value.toList ++ [' '] else v.value.toList
    | none => spelling

-- Fills the holes of a template and trims the result.
def render (template : String) (vars : List Variable) (pad : Bool) : String :=
  Text.trim (String.ofList ((pieces template.toList).flatMap (Piece.fill vars pad)))

end Template

end ProtoTypings
