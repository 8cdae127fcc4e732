import ProtoTypings.Casing
import ProtoTypings.Text.Affix
import ProtoTypings.Text.Alphanumeric

namespace ProtoTypings.Identifier

def isPart (c : Char) : Bool :=
  Text.isAlphanumeric c || c == '_' || c == '$'

-- A text that can stand for a name without quotes.
def isValid (name : String) : Bool :=
  match name.toList with
  | [] => false
  | c :: cs => !c.isDigit && (c :: cs).all isPart

-- The maximal runs of identifier characters in a piece of code.
def inText (text : String) : List String :=
  ((text.toList.splitOnP fun c => !isPart c).filter (· ≠ [])).map String.ofList

def escape : List Char → List Char
  | [] => []
  | c :: cs => if c = '\\' ∨ c = '\'' then '\\' :: c :: escape cs else c :: escape cs

-- A text between single quotes, with a backslash before each quote and each backslash in it.
def quote (value : String) : String :=
  String.ofList ('\'' :: escape value.toList ++ ['\''])

-- The member that stands for a schema field.
def ofField (field : String) : String :=
  Casing.camel.apply field

-- What follows a whole word in the joined words of a name.
def startsWord (rest : String) : Bool :=
  rest.toList.head?.any fun c => c.isUpper || c.isDigit || c == '_'

-- The joined words of an enum value, without the words of the enum in front of them.
def shortKey (enum value : String) : String :=
  let key := Casing.pascal.apply value
  let front := Casing.pascal.apply enum
  match Text.stripFront? front key with
  | some rest => if front ≠ "" ∧ startsWord rest then rest else key
  | none => key

-- The key of an enum value in an enum declaration, quoted if it is not an identifier.
def enumKey (enum value : String) : String :=
  let key := shortKey enum value
  if isValid key then key else quote key

end ProtoTypings.Identifier
