import ProtoTypings.Text.Affix

namespace ProtoTypings

structure Span where
  offset : Nat
  length : Nat
  deriving DecidableEq, Repr

namespace Span

-- The characters that may stand before a key on its line.
def isLead (c : Char) : Bool :=
  c == ' ' || c == '\t' || c == '{' || c == ','

-- What follows a key: an equals sign, after spaces.
def isAssigned (cs : List Char) : Bool :=
  (cs.dropWhile fun c => c == ' ' || c == '\t').head? = some '='

def byteLength : List Char → Nat
  | [] => 0
  | c :: cs => c.utf8Size + byteLength cs

-- The first place where `needle` is a key, at or after the first `skip` characters of a text. The text
-- starts at the byte `offset`, and `line` says whether only leads stand before it on its line.
-- Occurrences of `needle` do not overlap.
def findFrom (needle : List Char) : (skip offset : Nat) → (line : Bool) → List Char → Option Span
  | _, _, _, [] => none
  | skip + 1, offset, line, c :: rest =>
    findFrom needle skip (offset + c.utf8Size) (c == '\n' || (line && isLead c)) rest
  | 0, offset, line, c :: rest =>
    match Text.afterFront? needle (c :: rest) with
    | some after =>
      if line && isAssigned after then some ⟨offset, byteLength needle⟩
      else
        findFrom needle (needle.length - 1) (offset + c.utf8Size)
          (c == '\n' || (line && isLead c)) rest
    | none => findFrom needle 0 (offset + c.utf8Size) (c == '\n' || (line && isLead c)) rest

-- The span of a key that is given a value, in double quotes if there is such a one, else bare.
def ofKey? (source key : String) : Option Span :=
  let cs := source.toList
  (findFrom ('"' :: key.toList ++ ['"']) 0 0 true cs).or (findFrom key.toList 0 0 true cs)

end Span

end ProtoTypings
