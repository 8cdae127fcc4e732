import ProtoTypings.Text.Affix

namespace ProtoTypings.Text

-- The 25 code points of the Unicode property White_Space.
def isBlank (c : Char) : Bool :=
  let n := c.toNat
  (0x09 ≤ n && n ≤ 0x0D) || n == 0x20 || n == 0x85 || n == 0xA0 || n == 0x1680 ||
    (0x2000 ≤ n && n ≤ 0x200A) || n == 0x2028 || n == 0x2029 || n == 0x202F || n == 0x205F ||
    n == 0x3000

def trimChars (p : Char → Bool) (cs : List Char) : List Char :=
  dropWhileEnd p (cs.dropWhile p)

-- The text without blanks at either end.
def trim (s : String) : String :=
  String.ofList (trimChars isBlank s.toList)

-- The text without blanks at its end.
def trimEnd (s : String) : String :=
  String.ofList (dropWhileEnd isBlank s.toList)

end ProtoTypings.Text
