import ProtoTypings.Text.Hex

namespace ProtoTypings

-- A number that is not an integer has no value, and neither has a text with an escaped half of a surrogate
-- pair. Both are well formed.
inductive Json where
  | null
  | bool (value : Bool)
  | number (value : Option Int)
  | text (value : Option String)
  | array (items : List Json)
  -- in the order of the document, with repeated keys
  | object (members : List (Option String × Json))
  deriving Repr

namespace Json

def isSpace (c : Char) : Bool :=
  c == ' ' || c == '\n' || c == '\t' || c == '\r'

def skip (cs : List Char) : List Char :=
  cs.dropWhile isSpace

-- A piece of a text: a character, or a code unit that an escape spells.
inductive Unit16 where
  | char (c : Char)
  | unit (n : Nat)
  deriving DecidableEq, Repr

def escape? : Char → Option Char
  | '"' => some '"'
  | '\\' => some '\\'
  | '/' => some '/'
  | 'b' => some '\x08'
  | 'f' => some '\x0c'
  | 'n' => some '\n'
  | 'r' => some '\r'
  | 't' => some '\t'
  | _ => none

-- The pieces of a text after its opening quote, and what follows its closing quote.
def textBody : List Char → Option (List Unit16 × List Char)
  | [] => none
  | '"' :: rest => some ([], rest)
  | '\\' :: 'u' :: a :: b :: c :: d :: rest => do
    let n ← Text.hexValue? [a, b, c, d]
    let (units, rest) ← textBody rest
    return (.unit n :: units, rest)
  | '\\' :: e :: rest => do
    let c ← escape? e
    let (units, rest) ← textBody rest
    return (.char c :: units, rest)
  | c :: rest =>
    if c < ' ' ∨ c = '\\' then none
    else do
      let (units, rest) ← textBody rest
      return (.char c :: units, rest)

-- The characters of a text; two code units of a surrogate pair are one character.
def decode : List Unit16 → Option (List Char)
  | [] => some []
  | .char c :: rest => (decode rest).map (c :: ·)
  | .unit n :: rest =>
    if n < 0xD800 ∨ 0xDFFF < n then (decode rest).map (Char.ofNat n :: ·)
    else match rest with
      | .unit m :: rest =>
        if n < 0xDC00 ∧ 0xDC00 ≤ m ∧ m ≤ 0xDFFF then
          (decode rest).map (Char.ofNat (0x10000 + (n - 0xD800) * 0x400 + (m - 0xDC00)) :: ·)
        else none
      | _ => none

def textValue (units : List Unit16) : Option String :=
  (decode units).map String.ofList

def digitsValue (digits : List Char) : Nat :=
  digits.foldl (fun n c => n * 10 + (c.toNat - '0'.toNat)) 0

-- A run of digits, at least one, and what follows it.
def digits1 (cs : List Char) : Option (List Char × List Char) :=
  match cs.takeWhile Char.isDigit with
  | [] => none
  | ds => some (ds, cs.dropWhile Char.isDigit)

def fraction : List Char → Option (Bool × List Char)
  | '.' :: rest => (digits1 rest).map fun (_, rest) => (true, rest)
  | rest => some (false, rest)

def exponent : List Char → Option (Bool × List Char)
  | c :: rest =>
    if c = 'e' ∨ c = 'E' then
      let rest := match rest with
        | '+' :: r => r
        | '-' :: r => r
        | r => r
      (digits1 rest).map fun (_, rest) => (true, rest)
    else some (false, c :: rest)
  | [] => some (false, [])

-- A number has a value if it is written as an integer and is not a negative zero.
def number? (cs : List Char) : Option (Option Int × List Char) := do
  let (negative, cs) := match cs with
    | '-' :: rest => (true, rest)
    | rest => (false, rest)
  let (digits, rest) ← digits1 cs
  if digits.head? = some '0' ∧ digits.length > 1 then none
  else
    let (broken, rest) ← fraction rest
    let (scaled, rest) ← exponent rest
    let n := digitsValue digits
    if broken || scaled || (negative && n == 0) then return (none, rest)
    else return (some (if negative then -(n : Int) else n), rest)

def keyword? (cs : List Char) : Option (Json × List Char) :=
  match cs with
  | 'n' :: 'u' :: 'l' :: 'l' :: rest => some (.null, rest)
  | 't' :: 'r' :: 'u' :: 'e' :: rest => some (.bool true, rest)
  | 'f' :: 'a' :: 'l' :: 's' :: 'e' :: rest => some (.bool false, rest)
  | _ => none

mutual

-- A value and what follows it. A step is taken for each value and each member, so twice as many
-- steps as there are characters are enough.
def value : (steps : Nat) → List Char → Option (Json × List Char)
  | 0, _ => none
  | steps + 1, cs =>
    match skip cs with
    | '"' :: rest => do
      let (units, rest) ← textBody rest
      return (.text (textValue units), rest)
    | '[' :: rest =>
      match skip rest with
      | ']' :: rest => some (.array [], rest)
      | rest => do
        let (items, rest) ← items steps rest
        return (.array items, rest)
    | '{' :: rest =>
      match skip rest with
      | '}' :: rest => some (.object [], rest)
      | rest => do
        let (members, rest) ← members steps rest
        return (.object members, rest)
    | c :: rest =>
      if c = '-' ∨ c.isDigit then do
        let (n, rest) ← number? (c :: rest)
        return (.number n, rest)
      else keyword? (c :: rest)
    | [] => none

def items : (steps : Nat) → List Char → Option (List Json × List Char)
  | 0, _ => none
  | steps + 1, cs => do
    let (item, rest) ← value steps cs
    match skip rest with
    | ',' :: rest => do
      let (more, rest) ← items steps rest
      return (item :: more, rest)
    | ']' :: rest => return ([item], rest)
    | _ => none

def members : (steps : Nat) → List Char → Option (List (Option String × Json) × List Char)
  | 0, _ => none
  | steps + 1, cs =>
    match skip cs with
    | '"' :: rest => do
      let (key, rest) ← textBody rest
      match skip rest with
      | ':' :: rest => do
        let (item, rest) ← value steps rest
        match skip rest with
        | ',' :: rest => do
          let (more, rest) ← members steps rest
          return ((textValue key, item) :: more, rest)
        | '}' :: rest => return ([(textValue key, item)], rest)
        | _ => none
      | _ => none
    | _ => none

end

-- The document that a text holds, with nothing but spaces around it.
def parse? (s : String) : Option Json := do
  let (json, rest) ← value (2 * s.length + 2) s.toList
  if (skip rest).isEmpty then return json else none

end Json

end ProtoTypings
