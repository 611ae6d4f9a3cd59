/-!
# Blanks, line ends and comments

Between its words a TOML document may hold blanks, line ends and comments. A comment goes on to the
end of its line and holds no control character but the tab. A carriage return counts only as the
first half of a line end.
-/

namespace RequestScheduler.Toml

/-- Control characters, the tab included. -/
def isControl (c : Char) : Bool := c.toNat < 0x20 || c.toNat == 0x7F

/-- What may stand in a comment and in a text of one line. -/
def isPrintable (c : Char) : Bool := c == '\t' || !isControl c

def isBlank (c : Char) : Bool := c == ' ' || c == '\t'

/-- Whether a carriage return before `rest` is the first half of a line end. -/
def startsLineEnd (c : Char) (rest : List Char) : Bool := c == '\r' && rest.head? == some '\n'

/-- Skips blanks. -/
def skipBlank (s : List Char) : List Char := s.dropWhile isBlank

/-- Skips blanks, line ends and comments. Stops at whatever may not stand there. -/
def skipTrivia (inComment : Bool) : List Char → List Char
  | [] => []
  | c :: rest =>
    if c == '\n' then skipTrivia false rest
    else if startsLineEnd c rest then skipTrivia inComment rest
    else if inComment then
      if isPrintable c then skipTrivia true rest else c :: rest
    else if isBlank c then skipTrivia false rest
    else if c == '#' then skipTrivia true rest
    else c :: rest

/-- Skips a comment. -/
def skipComment : List Char → List Char
  | '#' :: rest => rest.dropWhile isPrintable
  | s => s

/-- What comes after the end of a statement: nothing, or the next line. -/
def lineEnd? (s : List Char) : Option (List Char) :=
  match skipComment (skipBlank s) with
  | [] => some []
  | '\n' :: rest => some rest
  | '\r' :: '\n' :: rest => some rest
  | _ => none

theorem length_skipTrivia_le (inComment : Bool) (s : List Char) :
    (skipTrivia inComment s).length ≤ s.length := by
  induction s generalizing inComment with
  | nil => simp [skipTrivia]
  | cons c rest ih =>
    have h₁ := ih false
    have h₂ := ih true
    have h₃ := ih inComment
    unfold skipTrivia
    simp only [List.length_cons]
    repeat' split
    all_goals first | omega | simp

theorem length_skipBlank_le (s : List Char) : (skipBlank s).length ≤ s.length :=
  (List.dropWhile_sublist _).length_le

theorem length_skipComment_le (s : List Char) : (skipComment s).length ≤ s.length := by
  unfold skipComment
  split
  · rename_i rest
    have := (List.dropWhile_sublist (l := rest) isPrintable).length_le
    simp only [List.length_cons]
    omega
  · omega

theorem length_lineEnd? {s r : List Char} (h : lineEnd? s = some r) : r.length ≤ s.length := by
  have h₁ := length_skipComment_le (skipBlank s)
  have h₂ := length_skipBlank_le s
  unfold lineEnd? at h
  split at h
  all_goals simp_all
  all_goals omega

end RequestScheduler.Toml
