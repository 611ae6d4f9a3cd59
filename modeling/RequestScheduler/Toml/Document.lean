import RequestScheduler.Toml.Moment
import RequestScheduler.Toml.Text

/-!
# Reading TOML

A document is read from the front to the back. Every reader answers with what it has read and with
the rest of the source, which is shorter; this is why reading ends. A source that breaks the rules
of the format has no reading.

The length of the source is passed along as `total`, so that places can be counted from the start.
-/

namespace RequestScheduler.Toml

/-- What is left of a source when something was read. -/
abbrev Rest (s : List Char) : Type := { r : List Char // r.length < s.length }

/-- Where the characters between `s` and its rest `r` stand. -/
def spanOf (total : Nat) (s r : List Char) : Span where
  start := total - s.length
  stop := total - r.length

/-- What may stand in a key without quotes. -/
def isBare (c : Char) : Bool := c.isAlphanum || c == '_' || c == '-'

/-- A part of a key, and what follows it. -/
def part? (total : Nat) (s : List Char) : Option (Part × List Char) :=
  match quotedKey? s with
  | some (name, r) => some ({ name := String.ofList name, span := spanOf total s r }, r)
  | none =>
    match s.takeWhile isBare with
    | [] => none
    | name =>
      let r := s.dropWhile isBare
      some ({ name := String.ofList name, span := spanOf total s r }, r)

theorem length_part? {total : Nat} {s r : List Char} {p : Part}
    (h : part? total s = some (p, r)) : r.length < s.length := by
  unfold part? at h
  split at h
  · rename_i name r' hq
    simp only [Option.some.injEq, Prod.mk.injEq] at h
    rw [← h.2]
    exact length_quotedKey? hq
  · split at h
    · simp at h
    · rename_i hne
      simp only [Option.some.injEq, Prod.mk.injEq] at h
      have := congrArg List.length (List.takeWhile_append_dropWhile (p := isBare) (l := s))
      have : 0 < (s.takeWhile isBare).length := List.length_pos_iff.mpr hne
      rw [List.length_append] at *
      rw [← h.2]
      omega

/-- What follows a dot and the blanks around it. -/
def afterDot? (s : List Char) : Option (List Char) :=
  match skipBlank s with
  | '.' :: t => some (skipBlank t)
  | _ => none

theorem length_afterDot? {s t : List Char} (h : afterDot? s = some t) : t.length < s.length := by
  have h₁ := length_skipBlank_le s
  unfold afterDot? at h
  split at h
  · rename_i u hu
    obtain rfl := Option.some.inj h
    have h₂ := length_skipBlank_le u
    rw [hu, List.length_cons] at h₁
    exact Nat.lt_of_lt_of_le (Nat.lt_succ_of_le h₂) h₁
  · simp at h

/-- A key, and what follows it and the blanks after it. -/
def key? (total : Nat) (s : List Char) : Option (List Part × Rest s) :=
  match h : part? total s with
  | none => none
  | some (p, r) =>
    match h₁ : afterDot? r with
    | none =>
      some ([p], ⟨skipBlank r, Nat.lt_of_le_of_lt (length_skipBlank_le r) (length_part? h)⟩)
    | some t =>
      have h₂ : t.length < s.length := Nat.lt_trans (length_afterDot? h₁) (length_part? h)
      (key? total t).map fun (ps, u) => (p :: ps, ⟨u.1, Nat.lt_trans u.2 h₂⟩)
termination_by s.length

/-- The key of an assignment, and what follows its equals sign and the blanks after that. -/
def target? (total : Nat) (s : List Char) : Option (List Part × Rest s) :=
  match key? total s with
  | some (k, ⟨'=' :: r, h⟩) =>
    some (k, ⟨skipBlank r, Nat.lt_of_le_of_lt (length_skipBlank_le r) (Nat.lt_of_succ_lt h)⟩)
  | _ => none

/-- What a word without quotes is made of. -/
def isWordChar (c : Char) : Bool :=
  c.isAlphanum || c == '_' || c == '+' || c == '-' || c == '.' || c == ':'

/-- The value that a word stands for. -/
def word? (w : List Char) : Option Value :=
  if w = ['t', 'r', 'u', 'e'] then some (.boolean true)
  else if w = ['f', 'a', 'l', 's', 'e'] then some (.boolean false)
  else if isMoment w then some .moment
  else (integer? w).map .integer <|> (real? w).map .real

theorem word?_nil : word? [] = none := rfl

theorem length_dropWhile_word {s : List Char} {v : Value}
    (h : word? (s.takeWhile isWordChar) = some v) :
    (s.dropWhile isWordChar).length < s.length := by
  have h₁ : s.takeWhile isWordChar ≠ [] := by
    intro h₁
    rw [h₁, word?_nil] at h
    simp at h
  have h₂ := congrArg List.length (List.takeWhile_append_dropWhile (p := isWordChar) (l := s))
  have h₃ := List.length_pos_iff.mpr h₁
  rw [List.length_append] at h₂
  omega

/-- What follows the value of the word `w`, if `r` follows the word. A digit that comes one blank
after a date has to start a time of day, which then belongs to the date. -/
def afterWord? (w r : List Char) : Option (List Char) :=
  match r with
  | ' ' :: c :: t =>
    if isDate w && isDecimal c then
      if isTimeWithOffset ((c :: t).takeWhile isWordChar) then
        some ((c :: t).dropWhile isWordChar)
      else none
    else some r
  | _ => some r

theorem length_afterWord?_le {w r t : List Char} (h : afterWord? w r = some t) :
    t.length ≤ r.length := by
  unfold afterWord? at h
  split at h
  · rename_i c u
    split at h
    · split at h
      · obtain rfl := Option.some.inj h
        have := (List.dropWhile_sublist (l := c :: u) isWordChar).length_le
        exact Nat.le_succ_of_le this
      · simp at h
    · obtain rfl := Option.some.inj h
      exact Nat.le_refl _
  · obtain rfl := Option.some.inj h
    exact Nat.le_refl _

/-- A value without quotes and brackets, and what follows it. -/
def scalar? (s : List Char) : Option (Value × Rest s) :=
  match h : word? (s.takeWhile isWordChar) with
  | none => none
  | some v =>
    match h₁ : afterWord? (s.takeWhile isWordChar) (s.dropWhile isWordChar) with
    | none => none
    | some r =>
      some (v, ⟨r, Nat.lt_of_le_of_lt (length_afterWord?_le h₁) (length_dropWhile_word h)⟩)

theorem length_of_skipTrivia_le {s t : List Char} (h : skipTrivia false s = t) :
    t.length ≤ s.length := h ▸ length_skipTrivia_le false s

theorem length_of_skipTrivia {c : Char} {s t : List Char} (h : skipTrivia false s = c :: t) :
    t.length < s.length := length_of_skipTrivia_le h

mutual

/-- A value, and what follows it. -/
def value? (total : Nat) (s : List Char) : Option (Value × Rest s) :=
  match s with
  | '[' :: t =>
    match items? total t with
    | none => none
    | some (vs, ⟨r, h⟩) => some (.list vs, ⟨r, Nat.lt_succ_of_lt h⟩)
  | '{' :: t =>
    match pairs? total t with
    | none => none
    | some (ps, ⟨r, h⟩) => some (.table ps, ⟨r, Nat.lt_succ_of_lt h⟩)
  | s =>
    match h : text? s with
    | some (t, r) => some (.text (String.ofList t), ⟨r, length_text? h⟩)
    | none => scalar? s
termination_by 2 * s.length
decreasing_by all_goals exact Nat.le_refl _

/-- The items of a list up to its closing bracket, and what follows that. -/
def items? (total : Nat) (s : List Char) : Option (List Value × Rest s) :=
  match h₁ : skipTrivia false s with
  | ']' :: r => some ([], ⟨r, length_of_skipTrivia h₁⟩)
  | t =>
    have h₂ : t.length ≤ s.length := length_of_skipTrivia_le h₁
    match value? total t with
    | none => none
    | some (v, ⟨r, h₃⟩) =>
      match h₄ : skipTrivia false r with
      | ',' :: u =>
        have h₅ : u.length < s.length :=
          Nat.lt_trans (length_of_skipTrivia h₄) (Nat.lt_of_lt_of_le h₃ h₂)
        match items? total u with
        | none => none
        | some (vs, ⟨x, h₆⟩) => some (v :: vs, ⟨x, Nat.lt_trans h₆ h₅⟩)
      | ']' :: u =>
        some ([v], ⟨u, Nat.lt_trans (length_of_skipTrivia h₄) (Nat.lt_of_lt_of_le h₃ h₂)⟩)
      | _ => none
termination_by 2 * s.length + 1
decreasing_by all_goals omega

/-- The assignments of a table in braces up to its closing brace, and what follows that. -/
def pairs? (total : Nat) (s : List Char) : Option (List (List Part × Value) × Rest s) :=
  match h₁ : skipTrivia false s with
  | '}' :: r => some ([], ⟨r, length_of_skipTrivia h₁⟩)
  | t =>
    have h₂ : t.length ≤ s.length := length_of_skipTrivia_le h₁
    match target? total t with
    | none => none
    | some (k, ⟨r, h₃⟩) =>
      have h₄ : r.length < s.length := Nat.lt_of_lt_of_le h₃ h₂
      match value? total r with
      | none => none
      | some (v, ⟨x, h₅⟩) =>
        match h₆ : skipTrivia false x with
        | ',' :: u =>
          have h₇ : u.length < s.length :=
            Nat.lt_trans (length_of_skipTrivia h₆) (Nat.lt_trans h₅ h₄)
          match pairs? total u with
          | none => none
          | some (ps, ⟨y, h₈⟩) => some ((k, v) :: ps, ⟨y, Nat.lt_trans h₈ h₇⟩)
        | '}' :: u =>
          some ([(k, v)], ⟨u, Nat.lt_trans (length_of_skipTrivia h₆) (Nat.lt_trans h₅ h₄)⟩)
        | _ => none
termination_by 2 * s.length + 1
decreasing_by all_goals omega

end

/-- A statement, and what follows it. -/
def statement? (total : Nat) (s : List Char) : Option (Statement × Rest s) :=
  match s with
  | '[' :: '[' :: t =>
    match key? total (skipBlank t) with
    | some (k, ⟨']' :: ']' :: r, h⟩) =>
      have h₁ : r.length < t.length :=
        Nat.lt_of_lt_of_le (Nat.lt_of_succ_lt (Nat.lt_of_succ_lt h)) (length_skipBlank_le t)
      some (.header k true (spanOf total ('[' :: '[' :: t) r),
        ⟨r, Nat.lt_succ_of_lt (Nat.lt_succ_of_lt h₁)⟩)
    | _ => none
  | '[' :: t =>
    match key? total (skipBlank t) with
    | some (k, ⟨']' :: r, h⟩) =>
      have h₁ : r.length < t.length :=
        Nat.lt_of_lt_of_le (Nat.lt_of_succ_lt h) (length_skipBlank_le t)
      some (.header k false (spanOf total ('[' :: t) r), ⟨r, Nat.lt_succ_of_lt h₁⟩)
    | _ => none
  | s =>
    match target? total s with
    | none => none
    | some (k, ⟨t, h⟩) =>
      match value? total t with
      | none => none
      | some (v, ⟨r, h₁⟩) =>
        some (.assign k v (spanOf total t r), ⟨r, Nat.lt_trans h₁ h⟩)

/-- The statements of the lines of a source. -/
def statements? (total : Nat) (s : List Char) : Option (List Statement) :=
  match h₁ : skipTrivia false s with
  | [] => some []
  | c :: t =>
    match statement? total (c :: t) with
    | none => none
    | some (st, ⟨r, h₂⟩) =>
      match h₃ : lineEnd? r with
      | none => none
      | some u =>
        have : u.length < s.length :=
          Nat.lt_of_le_of_lt (length_lineEnd? h₃)
            (Nat.lt_of_lt_of_le h₂ (length_of_skipTrivia_le h₁))
        (statements? total u).map (st :: ·)
termination_by s.length

/-- The statements of a document. A byte order mark may stand in front. -/
def read? (source : String) : Option (List Statement) :=
  let s := source.toList
  match s with
  | '\ufeff' :: rest => statements? s.length rest
  | s => statements? s.length s

end RequestScheduler.Toml
