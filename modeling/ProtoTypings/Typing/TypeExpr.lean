import ProtoTypings.Code.Indent
import ProtoTypings.Typing.Identifier

namespace ProtoTypings

-- A property of an interface or an object type, over the expressions `τ` for its type. Comments are
-- given without the slashes in front of them.
structure Property (τ : Type) where
  name : String
  type : τ
  isOptional : Bool := false
  leading : List String := []
  trailing : Option String := none

inductive TypeExpr where
  -- code that is taken as it stands
  | raw (text : String)
  -- the name of a declared type
  | reference (name : String)
  -- a text as a type
  | literal (value : String)
  | union (items : List TypeExpr)
  | array (item : TypeExpr)
  | record (key value : TypeExpr)
  -- spread over lines, with the indentation counted from its own first line
  | object (members : List (Property TypeExpr))

abbrev Member := Property TypeExpr

namespace TypeExpr

-- The type that says nothing.
def any : TypeExpr := raw "any"

def literals (values : List String) : TypeExpr :=
  union (values.map literal)

-- Whether a piece of code has a `|` outside brackets and quotes, where `depth` brackets and the quote
-- `quoted` are open at its beginning. The depth may fall below zero.
def hasTopLevelPipe (depth : Int) (quoted : Option Char) : List Char → Bool
  | [] => false
  | c :: cs =>
    match quoted with
    | some q => hasTopLevelPipe depth (if c = q then none else some q) cs
    | none =>
      if c = '\'' ∨ c = '"' then hasTopLevelPipe depth (some c) cs
      else if c ∈ ['{', '<', '(', '['] then hasTopLevelPipe (depth + 1) none cs
      else if c ∈ ['}', '>', ')', ']'] then hasTopLevelPipe (depth - 1) none cs
      else if c = '|' ∧ depth = 0 then true
      else hasTopLevelPipe depth none cs

-- Whether the expression is a union at its top level.
def isUnion : TypeExpr → Bool
  | union items => items.length > 1
  | raw text => hasTopLevelPipe 0 none text.toList
  | _ => false

-- The lines of an object type between its braces, each one level deeper.
def block (indent : Indent) (lines : List String) : String :=
  "\x7b\n" ++ String.join (lines.map fun l => indent.one ++ l ++ "\n") ++ "\x7d"

mutual

def render (indent : Indent) : TypeExpr → String
  | raw text => text
  | reference name => name
  | literal value => Identifier.quote value
  | union [] => "never"
  | union (item :: items) => " | ".intercalate (renderItems indent (item :: items))
  | array item =>
    if item.isUnion then "(" ++ render indent item ++ ")[]" else render indent item ++ "[]"
  | record key value => "Record<" ++ render indent key ++ ", " ++ render indent value ++ ">"
  | object [] => "\x7b\x7d"
  | object (member :: members) => block indent (renderMembers indent (member :: members))

def renderItems (indent : Indent) : List TypeExpr → List String
  | [] => []
  | item :: items => render indent item :: renderItems indent items

def renderMembers (indent : Indent) : List (Property TypeExpr) → List String
  | [] => []
  | member :: members => renderMember indent member ++ renderMembers indent members

-- Comments stand on lines of their own above the property, or behind it.
def renderMember (indent : Indent) : Property TypeExpr → List String
  | ⟨name, type, isOptional, leading, trailing⟩ =>
    leading.map ("// " ++ ·) ++
      Text.cut '\n' (name ++ (if isOptional then "?" else "") ++ ": " ++ render indent type ++ ";" ++
        (trailing.map (" // " ++ ·)).getD "")

end

mutual

-- The names that the expression mentions, those in raw code and in object types included.
def references : TypeExpr → List String
  | raw text => Identifier.inText text
  | reference name => [name]
  | literal _ => []
  | union items => itemReferences items
  | array item => references item
  | record key value => references key ++ references value
  | object members => memberReferences members

def itemReferences : List TypeExpr → List String
  | [] => []
  | item :: items => references item ++ itemReferences items

def memberReferences : List (Property TypeExpr) → List String
  | [] => []
  | ⟨_, type, _, _, _⟩ :: members => references type ++ memberReferences members

end

end TypeExpr

namespace Property

-- The lines of a member, relative to the block around it.
def lines (m : Member) (indent : Indent) : List String :=
  TypeExpr.renderMember indent m

def references (m : Member) : List String :=
  m.type.references

end Property

end ProtoTypings
