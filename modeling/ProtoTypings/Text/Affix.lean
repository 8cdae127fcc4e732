namespace ProtoTypings.Text

-- What follows `front` in `cs`, if `cs` starts with it.
def afterFront? : (front cs : List Char) → Option (List Char)
  | [], cs => some cs
  | _ :: _, [] => none
  | f :: fs, c :: cs => if f = c then afterFront? fs cs else none

theorem afterFront?_eq_some_iff {front cs rest : List Char} :
    afterFront? front cs = some rest ↔ cs = front ++ rest := by
  induction front generalizing cs with
  | nil => simp [afterFront?, eq_comm]
  | cons f fs ih => cases cs with
    | nil => simp [afterFront?]
    | cons c cs =>
      by_cases h : f = c
      · simp [afterFront?, h, ih]
      · simp [afterFront?, h, Ne.symm h]

-- The text after `front`, if it starts with it.
def stripFront? (front s : String) : Option String :=
  (afterFront? front.toList s.toList).map String.ofList

-- The text before `back`, if it ends with it.
def stripBack? (back s : String) : Option String :=
  (afterFront? back.toList.reverse s.toList.reverse).map fun cs => String.ofList cs.reverse

theorem stripFront?_eq_some_iff {front s rest : String} :
    stripFront? front s = some rest ↔ s = front ++ rest := by
  simp only [stripFront?, Option.map_eq_some_iff, afterFront?_eq_some_iff]
  constructor
  · rintro ⟨cs, h, rfl⟩
    apply String.toList_injective
    simp [h]
  · rintro rfl
    exact ⟨rest.toList, by simp⟩

theorem stripBack?_eq_some_iff {back s rest : String} :
    stripBack? back s = some rest ↔ s = rest ++ back := by
  simp only [stripBack?, Option.map_eq_some_iff, afterFront?_eq_some_iff]
  constructor
  · rintro ⟨cs, h, rfl⟩
    apply String.toList_injective
    simpa using congrArg List.reverse h
  · rintro rfl
    exact ⟨rest.toList.reverse, by simp⟩

-- Drops the longest run at the end whose characters all satisfy `p`.
def dropWhileEnd (p : Char → Bool) (cs : List Char) : List Char :=
  (cs.reverse.dropWhile p).reverse

-- The text without the run of `c` at its beginning.
def dropFront (c : Char) (s : String) : String :=
  String.ofList (s.toList.dropWhile (· == c))

-- The text without the run of `c` at its end.
def dropBack (c : Char) (s : String) : String :=
  String.ofList (dropWhileEnd (· == c) s.toList)

-- The pieces between the occurrences of `c`: always one more than there are occurrences.
def cut (c : Char) (s : String) : List String :=
  (s.toList.splitOn c).map String.ofList

-- The lines of a text: each ends at a line feed, which takes one carriage return before it along;
-- a line feed at the end of the text starts no further line.
def lines (s : String) : List String :=
  match (s.toList.splitOn '\n').reverse with
  | [] => []
  | final :: ended =>
    let ended := ended.reverse.map fun l => String.ofList (dropReturn l)
    if final = [] then ended else ended ++ [String.ofList final]
where
  dropReturn (l : List Char) : List Char :=
    match l.reverse with
    | '\r' :: r => r.reverse
    | _ => l

end ProtoTypings.Text
