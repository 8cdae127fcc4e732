import ProtoTypings.Code.Indent
import ProtoTypings.Text.Affix

namespace ProtoTypings

inductive Fragment where
  | line (text : String)
  | blank
  -- a documentation comment with one line for each line of the text
  | doc (text : String)
  -- a line, a body one level deeper, and a line at the end
  | block (header : String) (body : List Fragment) (close : Option String)

namespace Fragment

-- A line with its line end. An empty line has no indentation.
def lineAt (indent : Indent) (depth : Nat) (text : String) : String :=
  if text = "" then "\n" else indent.nested depth ++ text ++ "\n"

-- The lines of a documentation comment; a line without text has no space at its end.
def docLines (text : String) : List String :=
  ["/**"] ++ (Text.lines text).map (fun l => if l = "" then " *" else " * " ++ l) ++ [" */"]

mutual

def render (indent : Indent) (depth : Nat) : Fragment → String
  | line text => lineAt indent depth text
  | blank => "\n"
  | doc text => String.join ((docLines text).map (lineAt indent depth))
  | block header body close =>
    lineAt indent depth header ++ renderAll indent (depth + 1) body ++
      (close.map (lineAt indent depth)).getD ""

def renderAll (indent : Indent) (depth : Nat) : List Fragment → String
  | [] => ""
  | f :: fs => render indent depth f ++ renderAll indent depth fs

end

theorem renderAll_append {indent : Indent} {depth : Nat} (fs gs : List Fragment) :
    renderAll indent depth (fs ++ gs) = renderAll indent depth fs ++ renderAll indent depth gs := by
  induction fs with
  | nil => simp [renderAll]
  | cons f fs ih => simp [renderAll, ih, String.append_assoc]

end Fragment

end ProtoTypings
