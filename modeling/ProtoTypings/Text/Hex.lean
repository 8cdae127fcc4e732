namespace ProtoTypings.Text

def hexDigit? (c : Char) : Option Nat :=
  if c.isDigit then some (c.toNat - '0'.toNat)
  else if 'a' ≤ c ∧ c ≤ 'f' then some (c.toNat - 'a'.toNat + 10)
  else if 'A' ≤ c ∧ c ≤ 'F' then some (c.toNat - 'A'.toNat + 10)
  else none

-- The number that hexadecimal digits spell, if all of the characters are such digits.
def hexValue? (digits : List Char) : Option Nat :=
  digits.foldlM (fun n c => (hexDigit? c).map (n * 16 + ·)) 0

-- The character of the code point that the first `count` characters spell.
def hexChar? (count : Nat) (cs : List Char) : Option Char := do
  let digits := cs.take count
  if digits.length < count then none
  else
    let n ← hexValue? digits
    if n.isValidChar then some (Char.ofNat n) else none

end ProtoTypings.Text
