namespace ProtoTypings

abbrev Word := List Char

namespace Word

-- A new word starts between two neighbouring letters or digits where an uppercase letter follows
-- a lowercase letter or a digit, and before the last uppercase letter of an acronym.
def startsAt (before at_ : Char) (after : Option Char) : Bool :=
  ((before.isLower || before.isDigit) && at_.isUpper) ||
    (before.isUpper && at_.isUpper && after.any Char.isLower)

-- The word of `c` goes on with the first character of what follows it.
def goesOn (c : Char) : List Char → Bool
  | [] => false
  | d :: rest => d.isAlphanum && !startsAt c d rest.head?

-- Only ASCII letters and digits belong to words.
def split : List Char → List Word
  | [] => []
  | c :: rest =>
    if !c.isAlphanum then split rest
    else if goesOn c rest then (split rest).modifyHead (c :: ·)
    else [c] :: split rest

def lower (w : Word) : Word :=
  w.map Char.toLower

def upper (w : Word) : Word :=
  w.map Char.toUpper

-- An uppercase letter in front, lowercase ones behind.
def capital : Word → Word
  | [] => []
  | c :: rest => c.toUpper :: lower rest

-- How a capitalised word follows another one: a digit in front is held off by an underscore.
def humped : Word → Word
  | [] => []
  | c :: rest => if c.isDigit then '_' :: c :: lower rest else c.toUpper :: lower rest

end Word

-- The words of a text, in order.
def words (s : String) : List String :=
  (Word.split s.toList).map String.ofList

inductive Casing where
  | camel
  | constant
  | pascal
  | snake
  deriving DecidableEq, Repr, Inhabited

namespace Casing

-- The name that a settings file gives a casing.
def name : Casing → String
  | camel => "camelCase"
  | constant => "constantCase"
  | pascal => "pascalCase"
  | snake => "snakeCase"

-- A name that is not the name of a casing.
structure Unknown where
  name : String

def Unknown.message (e : Unknown) : String :=
  "unknown case '" ++ e.name ++
    "', expected one of camelCase, constantCase, pascalCase, snakeCase"

def ofName? : String → Option Casing
  | "camelCase" => some camel
  | "constantCase" => some constant
  | "pascalCase" => some pascal
  | "snakeCase" => some snake
  | _ => none

def ofName (s : String) : Except Unknown Casing :=
  match ofName? s with
  | some casing => .ok casing
  | none => .error ⟨s⟩

@[simp]
theorem ofName?_name (c : Casing) : ofName? c.name = some c := by
  cases c <;> rfl

def joinWords : Casing → List Word → List Char
  | camel, [] => []
  | camel, w :: ws => w.lower ++ ws.flatMap Word.humped
  | constant, ws => ['_'].intercalate (ws.map Word.upper)
  | pascal, [] => []
  | pascal, w :: ws => w.capital ++ ws.flatMap Word.humped
  | snake, ws => ['_'].intercalate (ws.map Word.lower)

-- The text with its words joined in the casing.
def apply (c : Casing) (s : String) : String :=
  String.ofList (c.joinWords (Word.split s.toList))

end Casing

end ProtoTypings
