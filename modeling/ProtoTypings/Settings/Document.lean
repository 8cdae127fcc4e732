import ProtoTypings.Settings.Moment
import ProtoTypings.Text.Hex

namespace ProtoTypings.Settings

namespace Document

-- What a key of a table has.
inductive Item where
  | text (value : String)
  -- a list or a table without entries
  | empty
  deriving DecidableEq, Repr

-- No setting is nested any deeper, so that numbers, deeper headers and deeper keys are refused.
inductive Value where
  | text (value : String)
  | flag (value : Bool)
  | moment (value : Moment)
  | texts (values : List String)
  | table (entries : List (String × Item))
  deriving DecidableEq, Repr

-- A line of a document.
inductive Statement where
  | header (path : List String)
  | assign (path : List String) (value : Value)
  deriving DecidableEq, Repr

def isSpace (c : Char) : Bool :=
  c == ' ' || c == '\t'

-- The characters that may stand in a comment or on a line of a text.
def isPlain (c : Char) : Bool :=
  c == '\t' || (' ' ≤ c && c ≠ '\x7f')

def isBare (c : Char) : Bool :=
  c.isAlphanum || c == '_' || c == '-'

def skip (cs : List Char) : List Char :=
  cs.dropWhile isSpace

-- Passes over spaces, line ends and comments.
def gap : (comment : Bool) → List Char → Option (List Char)
  | _, [] => some []
  | _, '\n' :: rest => gap false rest
  | _, '\r' :: '\n' :: rest => gap false rest
  | true, c :: rest => if isPlain c then gap true rest else none
  | false, c :: rest =>
    if isSpace c then gap false rest
    else if c = '#' then gap true rest
    else some (c :: rest)

-- Passes over the rest of a line, which holds at most a comment.
def endLine : (comment : Bool) → List Char → Option (List Char)
  | _, [] => some []
  | _, '\n' :: rest => some rest
  | _, '\r' :: '\n' :: rest => some rest
  | true, c :: rest => if isPlain c then endLine true rest else none
  | false, c :: rest =>
    if isSpace c then endLine false rest
    else if c = '#' then endLine true rest
    else none

-- The character that an escape stands for, and the length of the escape after its backslash.
def escape? : List Char → Option (Char × Nat)
  | 'b' :: _ => some ('\x08', 1)
  | 't' :: _ => some ('\t', 1)
  | 'n' :: _ => some ('\n', 1)
  | 'f' :: _ => some ('\x0c', 1)
  | 'r' :: _ => some ('\r', 1)
  | 'e' :: _ => some ('\x1b', 1)
  | '"' :: _ => some ('"', 1)
  | '\\' :: _ => some ('\\', 1)
  | 'x' :: rest => (Text.hexChar? 2 rest).map (·, 3)
  | 'u' :: rest => (Text.hexChar? 4 rest).map (·, 5)
  | 'U' :: rest => (Text.hexChar? 8 rest).map (·, 9)
  | _ => none

def prepend (cs : List Char) : List Char × List Char → List Char × List Char
  | (text, rest) => (cs ++ text, rest)

-- A text between double quotes, after the first `n` characters of what follows its opening quote.
def basicText : (n : Nat) → List Char → Option (List Char × List Char)
  | _, [] => none
  | n + 1, _ :: rest => basicText n rest
  | 0, '"' :: rest => some ([], rest)
  | 0, '\\' :: rest => do
    let (c, length) ← escape? rest
    return prepend [c] (← basicText length rest)
  | 0, c :: rest => if isPlain c then (basicText 0 rest).map (prepend [c]) else none

-- A text between single quotes, after its opening quote. It has no escapes.
def literalText : List Char → Option (List Char × List Char)
  | [] => none
  | '\'' :: rest => some ([], rest)
  | c :: rest => if isPlain c then (literalText rest).map (prepend [c]) else none

-- Where a text of several lines stands after a backslash at the end of a line: before that line end,
-- or after it, where blanks do not count.
inductive Fold where
  | none
  | before
  | after
  deriving DecidableEq, Repr

-- A text of several lines between three double quotes. One or two more quotes before the closing
-- ones belong to the text.
def blockText : Fold → (n : Nat) → List Char → Option (List Char × List Char)
  | _, _, [] => .none
  | fold, n + 1, _ :: rest => blockText fold n rest
  | .before, 0, '\n' :: rest => blockText .after 0 rest
  | .before, 0, '\r' :: '\n' :: rest => blockText .after 0 rest
  | .before, 0, c :: rest => if isSpace c then blockText .before 0 rest else .none
  | _, 0, '"' :: '"' :: '"' :: '"' :: '"' :: rest => some (['"', '"'], rest)
  | _, 0, '"' :: '"' :: '"' :: '"' :: rest => some (['"'], rest)
  | _, 0, '"' :: '"' :: '"' :: rest => some ([], rest)
  | _, 0, '\\' :: rest =>
    if rest.head?.any fun c => isSpace c || c == '\n' || c == '\r' then blockText .before 0 rest
    else do
      let (c, length) ← escape? rest
      return prepend [c] (← blockText .none length rest)
  | .after, 0, '\n' :: rest => blockText .after 0 rest
  | .after, 0, '\r' :: '\n' :: rest => blockText .after 0 rest
  | .none, 0, '\n' :: rest => (blockText .none 0 rest).map (prepend ['\n'])
  | .none, 0, '\r' :: '\n' :: rest => (blockText .none 0 rest).map (prepend ['\r', '\n'])
  | fold, 0, c :: rest =>
    if fold = .after ∧ isSpace c then blockText .after 0 rest
    else if isPlain c then (blockText .none 0 rest).map (prepend [c])
    else .none

-- A text of several lines between three single quotes.
def literalBlock : List Char → Option (List Char × List Char)
  | [] => none
  | '\'' :: '\'' :: '\'' :: '\'' :: '\'' :: rest => some (['\'', '\''], rest)
  | '\'' :: '\'' :: '\'' :: '\'' :: rest => some (['\''], rest)
  | '\'' :: '\'' :: '\'' :: rest => some ([], rest)
  | '\n' :: rest => (literalBlock rest).map (prepend ['\n'])
  | '\r' :: '\n' :: rest => (literalBlock rest).map (prepend ['\r', '\n'])
  | c :: rest => if isPlain c then (literalBlock rest).map (prepend [c]) else none

-- A line end right after the opening quotes does not belong to a text of several lines.
def dropLineEnd : List Char → List Char
  | '\n' :: rest => rest
  | '\r' :: '\n' :: rest => rest
  | cs => cs

def text? (cs : List Char) : Option (String × List Char) := do
  let (text, rest) ← match cs with
    | '"' :: '"' :: '"' :: rest => blockText .none 0 (dropLineEnd rest)
    | '\'' :: '\'' :: '\'' :: rest => literalBlock (dropLineEnd rest)
    | '"' :: rest => basicText 0 rest
    | '\'' :: rest => literalText rest
    | _ => none
  return (String.ofList text, rest)

-- A key without dots.
def key? (cs : List Char) : Option (String × List Char) :=
  match cs with
  | '"' :: rest => (basicText 0 rest).map fun (text, rest) => (String.ofList text, rest)
  | '\'' :: rest => (literalText rest).map fun (text, rest) => (String.ofList text, rest)
  | _ =>
    match cs.takeWhile isBare with
    | [] => none
    | name => some (String.ofList name, cs.dropWhile isBare)

-- Keys with dots between them. There are fewer of them than characters.
def path? : (steps : Nat) → List Char → Option (List String × List Char)
  | 0, _ => none
  | steps + 1, cs => do
    let (key, rest) ← key? cs
    match skip rest with
    | '.' :: rest => do
      let (keys, rest) ← path? steps (skip rest)
      return (key :: keys, rest)
    | rest => return ([key], rest)

-- Items with commas between them up to a closing bracket. A comma may follow the last one.
def listing? {α : Type} (item : List Char → Option (α × List Char)) (close : Char) :
    (steps : Nat) → List Char → Option (List α × List Char)
  | 0, _ => none
  | steps + 1, cs => do
    match ← gap false cs with
    | [] => none
    | c :: rest =>
      if c = close then return ([], rest)
      else
        let (first, rest) ← item (c :: rest)
        match ← gap false rest with
        | ',' :: rest => do
          let (more, rest) ← listing? item close steps rest
          return (first :: more, rest)
        | d :: rest => if d = close then return ([first], rest) else none
        | [] => none

-- The closing bracket of a list or a table without entries.
def closing? (close : Char) (cs : List Char) : Option (Item × List Char) := do
  let rest ← mark? close (← gap false cs)
  return (.empty, rest)

def item? (cs : List Char) : Option (Item × List Char) :=
  match cs with
  | '[' :: rest => closing? ']' rest
  | '{' :: rest => closing? '}' rest
  | _ => (text? cs).map fun (text, rest) => (.text text, rest)

-- A key and what it has, as they stand between braces, where lines may end anywhere.
def entry? (cs : List Char) : Option ((String × Item) × List Char) := do
  let (key, rest) ← key? cs
  let rest ← mark? '=' (← gap false rest)
  let (item, rest) ← item? (← gap false rest)
  return ((key, item), rest)

def distinctKeys {α : Type} (entries : List (String × α)) : Bool :=
  decide (entries.map Prod.fst).Nodup

def value? (cs : List Char) : Option (Value × List Char) :=
  match cs with
  | 't' :: 'r' :: 'u' :: 'e' :: rest => some (.flag true, rest)
  | 'f' :: 'a' :: 'l' :: 's' :: 'e' :: rest => some (.flag false, rest)
  | '[' :: rest => do
    let (texts, rest) ← listing? text? ']' (rest.length + 1) rest
    return (.texts texts, rest)
  | '{' :: rest => do
    let (entries, rest) ← listing? entry? '}' (rest.length + 1) rest
    if distinctKeys entries then return (.table entries, rest) else none
  | c :: _ =>
    if c.isDigit then (moment? cs).map fun (moment, rest) => (.moment moment, rest)
    else (text? cs).map fun (text, rest) => (.text text, rest)
  | [] => none

def statement? (cs : List Char) : Option (Statement × List Char) :=
  match cs with
  | '[' :: rest => do
    let (path, rest) ← path? (rest.length + 1) (skip rest)
    return (.header path, ← mark? ']' rest)
  | _ => do
    let (path, rest) ← path? (cs.length + 1) cs
    let (value, rest) ← value? (skip (← mark? '=' rest))
    return (.assign path value, rest)

-- The statements of a document, of which there are fewer than characters.
def statements? : (steps : Nat) → List Char → Option (List Statement)
  | 0, _ => none
  | steps + 1, cs => do
    match ← gap false cs with
    | [] => return []
    | cs => do
      let (statement, rest) ← statement? cs
      let more ← statements? steps (← endLine false rest)
      return statement :: more

-- How a table came up: by a header of its own, by the header of a table in it, or by dotted keys.
inductive Origin where
  | header
  | implied
  | dotted
  deriving DecidableEq, Repr

-- What a key of a document stands for: a value, or a table that several statements fill.
inductive Slot where
  | whole (value : Value)
  | table (origin : Origin) (entries : List (String × Item))
  deriving DecidableEq, Repr

def Slot.value : Slot → Value
  | whole value => value
  | table _ entries => .table entries

end Document

-- The keys of a settings document, and the path of the table that the statements after a header fill.
structure Document where
  slots : List (String × Document.Slot) := []
  current : List String := []

namespace Document

def set (d : Document) (key : String) (slot : Slot) : Document :=
  { d with slots := d.slots.filter (·.1 ≠ key) ++ [(key, slot)] }

-- The item that a value is in a table.
def Value.item? : Value → Option Item
  | .text value => some (.text value)
  | .texts [] | .table [] => some .empty
  | _ => none

def addEntry (entries : List (String × Item)) (key : String) (item : Item) :
    Option (List (String × Item)) :=
  if (entries.lookup key).isSome then none else some (entries ++ [(key, item)])

-- Opens the table of a header. A table has one header, and none if dotted keys fill it.
def openTable (d : Document) : (path : List String) → Option Document
  | [table] =>
    match d.slots.lookup table with
    | none => some (d.set table (.table .header []))
    | some (.table .implied entries) => some (d.set table (.table .header entries))
    | _ => none
  | [table, key] =>
    match d.slots.lookup table with
    | none => some (d.set table (.table .implied [(key, .empty)]))
    | some (.table origin entries) => do
      return d.set table (.table origin (← addEntry entries key .empty))
    | some (.whole _) => none
  | _ => none

-- Gives a value to a key of the current table. No key is given twice.
def assign (d : Document) (path : List String) (value : Value) : Option Document :=
  match d.current, path with
  | [], [key] => if (d.slots.lookup key).isSome then none else some (d.set key (.whole value))
  | [], [table, key] => do
    let item ← value.item?
    match d.slots.lookup table with
    | none => return d.set table (.table .dotted [(key, item)])
    | some (.table .dotted entries) =>
      return d.set table (.table .dotted (← addEntry entries key item))
    | _ => none
  | [table], [key] => do
    let item ← value.item?
    match d.slots.lookup table with
    | some (.table origin entries) =>
      return d.set table (.table origin (← addEntry entries key item))
    | _ => none
  | _, _ => none

def step (d : Document) : Statement → Option Document
  | .header path => do return { ← d.openTable path with current := path }
  | .assign path value => d.assign path value

-- The keys and values of a document, which may begin with a byte order mark.
def parse? (s : String) : Option (List (String × Value)) := do
  let cs := match s.toList with
    | '\uFEFF' :: rest => rest
    | cs => cs
  let d ← (← statements? (cs.length + 1) cs).foldlM step ({} : Document)
  return d.slots.map fun (key, slot) => (key, slot.value)

end Document

end ProtoTypings.Settings
