import RequestScheduler.Toml.Blank
import RequestScheduler.Toml.Number

/-!
# Texts in TOML

A text stands between quotes: double ones, within which a backslash starts an escape, or single
ones, within which nothing is special. Three quotes at once start a text of several lines. Such a
text may hold one or two quotes together, also right before its end; a line end at its start does
not belong to it.
-/

namespace RequestScheduler.Toml

/-- What a letter stands for after a backslash. -/
def escapedChar? : Char → Option Char
  | 'b' => some '\x08'
  | 't' => some '\t'
  | 'n' => some '\n'
  | 'f' => some '\x0c'
  | 'r' => some '\r'
  | 'e' => some '\x1b'
  | '"' => some '"'
  | '\\' => some '\\'
  | _ => none

/-- How many hexadecimal digits follow a letter after a backslash. -/
def escapeWidth? : Char → Option Nat
  | 'x' => some 2
  | 'u' => some 4
  | 'U' => some 8
  | _ => none

/-- The character with a number, if there is one. -/
def charOf? (n : Nat) : Option Char :=
  if n.isValidChar then some (Char.ofNat n) else none

def isLineBlank (c : Char) : Bool := isBlank c || c == '\n' || c == '\r'

/-- Whether only blanks stand before the next line end. -/
def restOfLineIsBlank (s : List Char) : Bool :=
  match s.dropWhile isBlank with
  | '\n' :: _ => true
  | '\r' :: '\n' :: _ => true
  | _ => false

/-- What a text with escapes stands for. In a text of several lines, a backslash at the end of a
line joins it to the next character that is no blank. -/
def unescape? (manyLines : Bool) (s : List Char) : Option (List Char) :=
  match s with
  | [] => some []
  | '\\' :: c :: rest =>
    match escapedChar? c, escapeWidth? c with
    | some d, _ => (unescape? manyLines rest).map (d :: ·)
    | none, some width =>
      let ds := rest.take width
      if ds.length = width && ds.all isHexadecimal then do
        let d ← charOf? (ofDigits 16 ds)
        let tail ← unescape? manyLines (rest.drop width)
        return d :: tail
      else none
    | none, none =>
      if manyLines && restOfLineIsBlank (c :: rest) then
        unescape? manyLines ((c :: rest).dropWhile isLineBlank)
      else none
  | ['\\'] => none
  | c :: rest => (unescape? manyLines rest).map (c :: ·)
termination_by s.length
decreasing_by
  · simp only [List.length_cons]
    omega
  · simp only [List.length_cons, List.length_drop]
    omega
  · have := (List.dropWhile_sublist (l := c :: rest) isLineBlank).length_le
    simp only [List.length_cons] at this ⊢
    omega
  · exact Nat.lt_succ_self _

/-- The inside of a text of one line that started with `quote`, and what follows it. A quote that is
`escaped` does not end the text. -/
def lineText? (quote : Char) (escaped : Bool) : List Char → Option (List Char × List Char)
  | [] => none
  | c :: rest =>
    if c == quote && !escaped then some ([], rest)
    else if isPrintable c then
      (lineText? quote (quote == '"' && c == '\\' && !escaped) rest).map fun (s, r) => (c :: s, r)
    else none

/-- The inside of a text of several lines that started with three quotes, and what follows it. -/
def linesText? (quote : Char) (escaped : Bool) : List Char → Option (List Char × List Char)
  | [] => none
  | c :: rest =>
    let quotes := min 5 ((c :: rest).takeWhile (· == quote)).length
    if 3 ≤ quotes && !escaped then
      some (List.replicate (quotes - 3) quote, (c :: rest).drop quotes)
    else if startsLineEnd c rest then linesText? quote escaped rest
    else if isPrintable c || c == '\n' then
      (linesText? quote (quote == '"' && c == '\\' && !escaped) rest).map fun (s, r) => (c :: s, r)
    else none

/-- The text without a line end at its start. -/
def withoutFirstLineEnd : List Char → List Char
  | '\n' :: s => s
  | '\r' :: '\n' :: s => s
  | s => s

/-- A text with its quotes, and what follows it; `none` if there is no text at the front. -/
def text? (s : List Char) : Option (List Char × List Char) :=
  let escapes (quote : Char) (manyLines : Bool) (t : List Char) : Option (List Char) :=
    if quote == '"' then unescape? manyLines t else some t
  match s with
  | quote :: second :: third :: rest =>
    if quote == '"' || quote == '\'' then
      if second == quote && third == quote then do
        let (t, r) ← linesText? quote false (withoutFirstLineEnd rest)
        let t ← escapes quote true t
        return (t, r)
      else do
        let (t, r) ← lineText? quote false (second :: third :: rest)
        let t ← escapes quote false t
        return (t, r)
    else none
  | [quote, second] =>
    if (quote == '"' || quote == '\'') && second == quote then some ([], []) else none
  | _ => none

/-- A text of one line with its quotes, as a key may have it, and what follows it. -/
def quotedKey? (s : List Char) : Option (List Char × List Char) :=
  match s with
  | quote :: rest =>
    if quote == '"' then do
      let (t, r) ← lineText? quote false rest
      let t ← unescape? false t
      return (t, r)
    else if quote == '\'' then lineText? quote false rest
    else none
  | [] => none

theorem length_lineText? {quote : Char} {escaped : Bool} {s t r : List Char}
    (h : lineText? quote escaped s = some (t, r)) : r.length < s.length := by
  induction s generalizing escaped t r with
  | nil => simp [lineText?] at h
  | cons c rest ih =>
    unfold lineText? at h
    simp only [List.length_cons]
    split at h
    · simp only [Option.some.injEq, Prod.mk.injEq] at h
      rw [← h.2]
      omega
    · split at h
      · obtain ⟨⟨t', r'⟩, h₁, h₂⟩ := Option.map_eq_some_iff.mp h
        simp only [Prod.mk.injEq] at h₂
        have := ih h₁
        rw [← h₂.2]
        omega
      · simp at h

theorem length_linesText? {quote : Char} {escaped : Bool} {s t r : List Char}
    (h : linesText? quote escaped s = some (t, r)) : r.length < s.length := by
  induction s generalizing escaped t r with
  | nil => simp [linesText?] at h
  | cons c rest ih =>
    unfold linesText? at h
    simp only [List.length_cons]
    dsimp only at h
    split at h
    · rename_i hq
      simp only [Option.some.injEq, Prod.mk.injEq] at h
      simp only [Bool.and_eq_true, decide_eq_true_eq] at hq
      rw [← h.2, List.length_drop, List.length_cons]
      omega
    · split at h
      · have := ih h
        omega
      · split at h
        · obtain ⟨⟨t', r'⟩, h₁, h₂⟩ := Option.map_eq_some_iff.mp h
          simp only [Prod.mk.injEq] at h₂
          have := ih h₁
          rw [← h₂.2]
          omega
        · simp at h

theorem length_withoutFirstLineEnd_le (s : List Char) :
    (withoutFirstLineEnd s).length ≤ s.length := by
  unfold withoutFirstLineEnd
  split <;> simp
  omega

theorem length_text? {s t r : List Char} (h : text? s = some (t, r)) : r.length < s.length := by
  unfold text? at h
  dsimp only at h
  split at h
  · rename_i quote second third rest
    split at h
    · split at h
      · simp only [Option.bind_eq_bind, Option.bind_eq_some_iff] at h
        obtain ⟨⟨t', r'⟩, h₁, t'', _, h₂⟩ := h
        have := length_linesText? h₁
        have := length_withoutFirstLineEnd_le rest
        simp only [Option.pure_def, Option.some.injEq, Prod.mk.injEq] at h₂
        simp only [List.length_cons, ← h₂.2]
        omega
      · simp only [Option.bind_eq_bind, Option.bind_eq_some_iff] at h
        obtain ⟨⟨t', r'⟩, h₁, t'', _, h₂⟩ := h
        have := length_lineText? h₁
        simp only [Option.pure_def, Option.some.injEq, Prod.mk.injEq] at h₂
        simp only [List.length_cons, ← h₂.2] at *
        omega
    · simp at h
  · split at h
    · simp only [Option.some.injEq, Prod.mk.injEq] at h
      simp [← h.2]
    · simp at h
  · simp at h

theorem length_quotedKey? {s t r : List Char} (h : quotedKey? s = some (t, r)) :
    r.length < s.length := by
  unfold quotedKey? at h
  split at h
  · rename_i quote rest
    split at h
    · simp only [Option.bind_eq_bind, Option.bind_eq_some_iff] at h
      obtain ⟨⟨t', r'⟩, h₁, t'', _, h₂⟩ := h
      have := length_lineText? h₁
      simp only [Option.pure_def, Option.some.injEq, Prod.mk.injEq] at h₂
      simp only [List.length_cons, ← h₂.2]
      omega
    · split at h
      · have := length_lineText? h
        simp only [List.length_cons]
        omega
      · simp at h
  · simp at h

end RequestScheduler.Toml
