namespace ProtoTypings.Text

-- A number with zeros in front up to a width.
def padded (width n : Nat) : String :=
  let digits := Nat.toDigits 10 n
  String.ofList (List.replicate (width - digits.length) '0' ++ digits)

-- The number that decimal digits spell.
def decimalValue (digits : List Char) : Nat :=
  digits.foldl (fun n c => n * 10 + (c.toNat - '0'.toNat)) 0

-- The number that a text starts with, if it has exactly `width` digits, and what follows it.
def decimal? (width : Nat) (cs : List Char) : Option (Nat × List Char) :=
  let digits := cs.takeWhile Char.isDigit
  if digits.length = width then some (decimalValue digits, cs.dropWhile Char.isDigit) else none

end ProtoTypings.Text
