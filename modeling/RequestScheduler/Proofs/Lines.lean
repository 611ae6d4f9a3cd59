import Mathlib.Data.List.Basic
import RequestScheduler.Toml.Document
import RequestScheduler.Toml.Entry
import RequestScheduler.Toml.Outline

/-!
# Documents of one number to a line

A plain line gives a number to a key that needs no quotes. It is read as one assignment, whatever
stands in the lines after it (`statements?_assignment`): the digits of the number are a word that is
an integer and neither a moment nor a number in another base.

A document of plain lines with different keys has no clash, and its entries are its lines in their
order (`read?_document`).
-/

namespace RequestScheduler.Toml

/-- A character of a class is none outside of it. -/
theorem ne_of_class {p : Char → Bool} {c d : Char} (h : p c = true) (hd : p d = false) : c ≠ d := by
  rintro rfl
  simp [h] at hd

/-! ### The digits of a number -/

theorem isDecimal_of_mem {n : Nat} {c : Char} (h : c ∈ Nat.toDigits 10 n) : isDecimal c = true :=
  Nat.isDigit_of_mem_toDigits (by decide) (by decide) h

theorem exists_cons_toDigits (n : Nat) :
    ∃ c s, Nat.toDigits 10 n = c :: s ∧ isDecimal c = true := by
  obtain ⟨c, s, heq⟩ := List.exists_cons_of_ne_nil (Nat.toDigits_ne_nil (n := n) (b := 10))
  exact ⟨c, s, heq, isDecimal_of_mem (n := n) (heq ▸ List.mem_cons_self)⟩

theorem ungroup_of_all {isDigit : Char → Bool} (hbar : isDigit '_' = false) {s : List Char}
    (hs : ∀ c ∈ s, isDigit c = true) (hne : s ≠ []) : ungroup isDigit s = some s := by
  fun_induction ungroup isDigit s with
  | case1 => exact absurd rfl hne
  | case2 => rfl
  | case3 c h => exact absurd (hs c List.mem_cons_self) h
  | case4 c rest _ _ => simp [hbar] at hs
  | case5 c rest h => exact absurd (hs c List.mem_cons_self) h
  | case6 c rest hrest _ _ ih =>
      rw [ih (fun d hd => hs d (List.mem_cons_of_mem _ hd)) hrest]
      rfl
  | case7 c rest _ _ h => exact absurd (hs c List.mem_cons_self) h

theorem digitValue_of_isDecimal {c : Char} (h : isDecimal c = true) :
    digitValue c = c.toNat - '0'.toNat := by
  simp only [isDecimal, Bool.and_eq_true, decide_eq_true_eq] at h
  rw [digitValue, if_pos h]

theorem ofDigits_toDigits (n : Nat) : ofDigits 10 (Nat.toDigits 10 n) = n := by
  have hfold : ofDigits 10 (Nat.toDigits 10 n) = Nat.ofDigitChars 10 (Nat.toDigits 10 n) 0 := by
    rw [ofDigits, Nat.ofDigitChars_eq_foldl]
    refine List.foldl_ext _ _ 0 fun m d hd => ?_
    rw [digitValue_of_isDecimal (isDecimal_of_mem hd), Nat.mul_comm]
  rw [hfold, Nat.ofDigitChars_ten_toDigits]

/-- No zero leads the digits of a number other than zero. -/
theorem head?_toDigits_ne {n : Nat} (h : 0 < n) : (Nat.toDigits 10 n).head? ≠ some '0' := by
  induction n using Nat.strongRecOn with
  | ind n ih =>
    by_cases hlt : n < 10
    · rw [Nat.toDigits_of_lt_base hlt, List.head?_cons, Ne, Option.some.injEq,
        Nat.digitChar_eq_zero]
      exact Nat.ne_of_gt h
    · rw [Nat.toDigits_of_base_le (by decide) (Nat.le_of_not_lt hlt),
        List.head?_append_of_ne_nil _ Nat.toDigits_ne_nil]
      exact ih (n / 10) (by omega) (by omega)

theorem wholeDigits?_toDigits (n : Nat) :
    wholeDigits? (Nat.toDigits 10 n) = some (Nat.toDigits 10 n) := by
  rw [wholeDigits?, ungroup_of_all rfl (fun _ => isDecimal_of_mem) Nat.toDigits_ne_nil]
  split
  case h_1 heq =>
    obtain rfl | hpos := Nat.eq_zero_or_pos n
    · simp at heq
    · exact absurd (congrArg List.head? (Option.some.inj heq)) (head?_toDigits_ne hpos)
  case h_2 => rfl

theorem splitSign_toDigits (n : Nat) :
    splitSign (Nat.toDigits 10 n) = (false, Nat.toDigits 10 n) := by
  obtain ⟨c, s, heq, hc⟩ := exists_cons_toDigits n
  have hminus : c ≠ '-' := ne_of_class hc rfl
  have hplus : c ≠ '+' := ne_of_class hc rfl
  rw [heq]
  unfold splitSign
  split
  case h_1 h => exact absurd (List.cons.inj h).1 hminus
  case h_2 h => exact absurd (List.cons.inj h).1 hplus
  case h_3 => rfl

/-- The digits are those of a decimal integer: no letter follows a leading zero. -/
theorem integer?_toDigits (n : Nat) : integer? (Nat.toDigits 10 n) = some (n : Int) := by
  have hmark {c : Char} (hc : isDecimal c = false) : c ∉ Nat.toDigits 10 n := by
    intro h
    simp [isDecimal_of_mem h] at hc
  unfold integer?
  split
  case h_1 heq => exact absurd (heq ▸ by simp) (hmark (c := 'x') rfl)
  case h_2 heq => exact absurd (heq ▸ by simp) (hmark (c := 'o') rfl)
  case h_3 heq => exact absurd (heq ▸ by simp) (hmark (c := 'b') rfl)
  case h_4 =>
    rw [splitSign_toDigits]
    simp only [wholeDigits?_toDigits, ofDigits_toDigits, Option.map_some, Bool.false_eq_true,
      if_false]

/-! ### The word that the digits are -/

section

variable {s : List Char} (h : ∀ c ∈ s, isDecimal c = true)

include h

theorem drop_ne_of_decimal {d : Char} (hd : isDecimal d = false) (count : Nat) (t : List Char) :
    s.drop count ≠ d :: t := by
  intro heq
  have hmem : d ∈ s := List.mem_of_mem_drop (heq ▸ List.mem_cons_self)
  simp [h d hmem] at hd

/-- A time of day has a colon after its hours. -/
theorem afterMinutes?_of_decimal : afterMinutes? s = none := by
  simp only [afterMinutes?, fixedDigits?]
  split
  case isTrue =>
    simp only [Option.bind_eq_bind, Option.bind_some]
    split
    case h_1 heq => exact absurd heq (drop_ne_of_decimal h rfl 2 _)
    case h_2 => rfl
  case isFalse => rfl

/-- A date has a stroke after its year. -/
theorem afterDate?_of_decimal : afterDate? s = none := by
  simp only [afterDate?, fixedDigits?]
  split
  case isTrue =>
    simp only [Option.bind_eq_bind, Option.bind_some]
    split
    case h_1 heq => exact absurd heq (drop_ne_of_decimal h rfl 4 _)
    case h_2 => rfl
  case isFalse => rfl

theorem isMoment_of_decimal : isMoment s = false := by
  simp [isMoment, afterTime?, afterMinutes?_of_decimal h, afterDate?_of_decimal h]

end

theorem word?_toDigits (n : Nat) : word? (Nat.toDigits 10 n) = some (.integer n) := by
  obtain ⟨c, s, heq, hc⟩ := exists_cons_toDigits n
  have htrue : Nat.toDigits 10 n ≠ ['t', 'r', 'u', 'e'] := fun h =>
    ne_of_class hc rfl (List.cons.inj (heq.symm.trans h)).1
  have hfalse : Nat.toDigits 10 n ≠ ['f', 'a', 'l', 's', 'e'] := fun h =>
    ne_of_class hc rfl (List.cons.inj (heq.symm.trans h)).1
  rw [word?, if_neg htrue, if_neg hfalse, isMoment_of_decimal fun _ => isDecimal_of_mem,
    integer?_toDigits]
  rfl

theorem isWordChar_of_isDecimal {c : Char} (h : isDecimal c = true) : isWordChar c = true := by
  have hdigit : c.isDigit = true := h
  simp [isWordChar, Char.isAlphanum, hdigit]

/-! ### What a reader makes of a plain line -/

/-- A reader has read `v` at the front of `s` and has left `r`. -/
def Reads {V : Type} {s : List Char} (answer : Option (V × Rest s)) (v : V) (r : List Char) : Prop :=
  answer.map (fun p => (p.1, p.2.val)) = some (v, r)

theorem Reads.exists_eq {V : Type} {s r : List Char} {answer : Option (V × Rest s)} {v : V}
    (h : Reads answer v r) : ∃ hlt, answer = some (v, ⟨r, hlt⟩) := by
  obtain ⟨p, rfl, hp⟩ := Option.map_eq_some_iff.mp h
  cases hp
  exact ⟨p.2.property, rfl⟩

/-- A key that needs no quotes. -/
def IsBare (key : String) : Prop := key ≠ "" ∧ ∀ c ∈ key.toList, isBare c = true

/-- The line that gives a number to a key. -/
def assignment (key : String) (n : Nat) : List Char :=
  key.toList ++ ' ' :: '=' :: ' ' :: (Nat.toDigits 10 n ++ ['\n'])

/-- What gives a number to a key. -/
def Statement.Gives (field : String × Nat) (st : Statement) : Prop :=
  ∃ span place, st = .assign [⟨field.1, span⟩] (.integer field.2) place

section

variable (total n : Nat) (rest : List Char)

theorem scalar?_toDigits :
    Reads (scalar? (Nat.toDigits 10 n ++ '\n' :: rest)) (.integer n) ('\n' :: rest) := by
  have hword (c : Char) (h : c ∈ Nat.toDigits 10 n) :=
    isWordChar_of_isDecimal (isDecimal_of_mem h)
  have htake : (Nat.toDigits 10 n ++ '\n' :: rest).takeWhile isWordChar = Nat.toDigits 10 n := by
    rw [List.takeWhile_append_of_pos hword, List.takeWhile_cons_of_neg (by decide),
      List.append_nil]
  have hdrop : (Nat.toDigits 10 n ++ '\n' :: rest).dropWhile isWordChar = '\n' :: rest := by
    rw [List.dropWhile_append_of_pos hword, List.dropWhile_cons_of_neg (by decide)]
  generalize Nat.toDigits 10 n ++ '\n' :: rest = s at htake hdrop
  have hvalue : word? (s.takeWhile isWordChar) = some (.integer n) := by
    rw [htake, word?_toDigits]
  have hafter : afterWord? (s.takeWhile isWordChar) (s.dropWhile isWordChar) =
      some ('\n' :: rest) := by
    rw [hdrop]
    rfl
  unfold scalar?
  split
  case h_1 heq => simp [hvalue] at heq
  case h_2 heq =>
    obtain rfl := Option.some.inj (hvalue.symm.trans heq)
    split
    case h_1 heq' => simp [hafter] at heq'
    case h_2 heq' =>
      obtain rfl := Option.some.inj (hafter.symm.trans heq')
      rfl

theorem text?_cons {c : Char} (hdouble : c ≠ '"') (hsingle : c ≠ '\'') (s : List Char) :
    text? (c :: s) = none := by
  simp only [text?]
  split
  case h_1 heq =>
    cases heq
    simp [hdouble, hsingle]
  case h_2 heq =>
    cases heq
    simp [hdouble, hsingle]
  case h_3 => rfl

theorem value?_cons {c : Char} (hc : isDecimal c = true) (s : List Char) :
    value? total (c :: s) = scalar? (c :: s) := by
  have hne {d : Char} (hd : isDecimal d = false) : c ≠ d := ne_of_class hc hd
  generalize hs : c :: s = t
  rw [value?.eq_def]
  split
  case h_1 => exact absurd (List.cons.inj hs).1 (hne rfl)
  case h_2 => exact absurd (List.cons.inj hs).1 (hne rfl)
  case h_3 =>
    subst hs
    split
    case h_1 heq =>
      rw [text?_cons (hne rfl) (hne rfl)] at heq
      cases heq
    case h_2 => rfl

theorem value?_toDigits :
    Reads (value? total (Nat.toDigits 10 n ++ '\n' :: rest)) (.integer n) ('\n' :: rest) := by
  have hscalar := scalar?_toDigits n rest
  obtain ⟨c, s, heq, hc⟩ := exists_cons_toDigits n
  rw [heq, List.cons_append] at hscalar ⊢
  rwa [value?_cons total hc]

theorem skipBlank_toDigits : skipBlank (Nat.toDigits 10 n ++ rest) = Nat.toDigits 10 n ++ rest := by
  obtain ⟨c, s, heq, hc⟩ := exists_cons_toDigits n
  have hspace : c ≠ ' ' := ne_of_class hc rfl
  have htab : c ≠ '\t' := ne_of_class hc rfl
  rw [heq, List.cons_append, skipBlank, List.dropWhile_cons_of_neg (by simp [isBlank, *])]

variable {key : String} (h : IsBare key)

include h

theorem IsBare.exists_cons : ∃ c s, key.toList = c :: s ∧ isBare c = true := by
  obtain ⟨c, s, heq⟩ := List.exists_cons_of_ne_nil (by simpa using h.1 : key.toList ≠ [])
  exact ⟨c, s, heq, h.2 c (heq ▸ List.mem_cons_self)⟩

theorem part?_bare :
    ∃ span, part? total (key.toList ++ ' ' :: rest) = some (⟨key, span⟩, ' ' :: rest) := by
  have hquoted : quotedKey? (key.toList ++ ' ' :: rest) = none := by
    obtain ⟨c, s, heq, hc⟩ := h.exists_cons
    have hdouble : c ≠ '"' := ne_of_class hc rfl
    have hsingle : c ≠ '\'' := ne_of_class hc rfl
    simp [heq, quotedKey?, hdouble, hsingle]
  have htake : (key.toList ++ ' ' :: rest).takeWhile isBare = key.toList := by
    rw [List.takeWhile_append_of_pos h.2, List.takeWhile_cons_of_neg (by decide), List.append_nil]
  have hdrop : (key.toList ++ ' ' :: rest).dropWhile isBare = ' ' :: rest := by
    rw [List.dropWhile_append_of_pos h.2, List.dropWhile_cons_of_neg (by decide)]
  refine ⟨spanOf total (key.toList ++ ' ' :: rest) (' ' :: rest), ?_⟩
  simp only [part?, hquoted, hdrop]
  split
  case h_1 hnil => simp [htake, h.1] at hnil
  case h_2 => rw [htake, String.ofList_toList]

theorem key?_bare :
    ∃ span, Reads (key? total (key.toList ++ ' ' :: '=' :: rest)) [⟨key, span⟩] ('=' :: rest) := by
  obtain ⟨span, hpart⟩ := part?_bare total ('=' :: rest) h
  refine ⟨span, ?_⟩
  generalize key.toList ++ ' ' :: '=' :: rest = s at hpart
  rw [key?.eq_def]
  split
  case h_1 heq => simp [hpart] at heq
  case h_2 heq =>
    rw [hpart] at heq
    cases heq
    split
    case h_1 => rfl
    case h_2 hdot => simp [afterDot?, skipBlank, isBlank] at hdot

theorem target?_bare : ∃ span,
    Reads (target? total (key.toList ++ ' ' :: '=' :: rest)) [⟨key, span⟩] (skipBlank rest) := by
  obtain ⟨span, hkey⟩ := key?_bare total rest h
  obtain ⟨hlt, hkey⟩ := hkey.exists_eq
  refine ⟨span, ?_⟩
  rw [target?, hkey]
  rfl

theorem statement?_assignment : ∃ st, Statement.Gives (key, n) st ∧
    Reads (statement? total (assignment key n ++ rest)) st ('\n' :: rest) := by
  have hline : assignment key n ++ rest =
      key.toList ++ ' ' :: '=' :: ' ' :: (Nat.toDigits 10 n ++ '\n' :: rest) := by
    simp [assignment]
  obtain ⟨span, htarget⟩ := target?_bare total (' ' :: (Nat.toDigits 10 n ++ '\n' :: rest)) h
  have hskip : skipBlank (' ' :: (Nat.toDigits 10 n ++ '\n' :: rest)) =
      Nat.toDigits 10 n ++ '\n' :: rest := skipBlank_toDigits n ('\n' :: rest)
  rw [hskip, ← hline] at htarget
  obtain ⟨_, hvalue⟩ := (value?_toDigits total n rest).exists_eq
  obtain ⟨c, s, heq, hc⟩ := h.exists_cons
  have hbracket : c ≠ '[' := ne_of_class hc rfl
  refine ⟨_, ⟨span, spanOf total (Nat.toDigits 10 n ++ '\n' :: rest) ('\n' :: rest), rfl⟩, ?_⟩
  generalize hs : assignment key n ++ rest = source at htarget
  rw [statement?.eq_def]
  split
  case h_1 => simp [assignment, heq, hbracket] at hs
  case h_2 => simp [assignment, heq, hbracket] at hs
  case h_3 =>
    obtain ⟨_, htarget⟩ := htarget.exists_eq
    rw [htarget]
    dsimp only
    rw [hvalue]
    rfl

theorem skipTrivia_assignment :
    skipTrivia false (assignment key n ++ rest) = assignment key n ++ rest := by
  obtain ⟨c, s, heq, hc⟩ := h.exists_cons
  have hfeed : c ≠ '\n' := ne_of_class hc rfl
  have hreturn : c ≠ '\r' := ne_of_class hc rfl
  have hspace : c ≠ ' ' := ne_of_class hc rfl
  have htab : c ≠ '\t' := ne_of_class hc rfl
  have hhash : c ≠ '#' := ne_of_class hc rfl
  simp [assignment, skipTrivia, startsLineEnd, isBlank, *]

/-- A plain line is one statement, whatever comes after it. -/
theorem statements?_assignment : ∃ st, Statement.Gives (key, n) st ∧
    statements? total (assignment key n ++ rest) = (statements? total rest).map (st :: ·) := by
  obtain ⟨st, hgives, hst⟩ := statement?_assignment total n rest h
  have hskip := skipTrivia_assignment n rest h
  refine ⟨st, hgives, ?_⟩
  generalize assignment key n ++ rest = s at hst hskip
  rw [statements?.eq_def]
  split
  case h_1 heq =>
    obtain rfl := hskip.symm.trans heq
    obtain ⟨hlt, -⟩ := hst.exists_eq
    exact absurd hlt (Nat.not_lt_zero _)
  case h_2 heq =>
    obtain rfl := hskip.symm.trans heq
    obtain ⟨_, hst⟩ := hst.exists_eq
    rw [hst]
    dsimp only
    split
    case h_1 hend => simp [lineEnd?, skipBlank, isBlank, skipComment] at hend
    case h_2 hend =>
      have hrest : lineEnd? ('\n' :: rest) = some rest := rfl
      obtain rfl := Option.some.inj (hrest.symm.trans hend)
      rfl

end

/-! ### Documents of plain lines -/

/-- A document with one line for each field. -/
def document (fields : List (String × Nat)) : List Char :=
  fields.flatMap fun f => assignment f.1 f.2

section

variable {fields : List (String × Nat)}

theorem statements?_document (h : ∀ f ∈ fields, IsBare f.1) (total : Nat) :
    ∃ sts, statements? total (document fields) = some sts ∧
      List.Forall₂ Statement.Gives fields sts := by
  induction fields with
  | nil => exact ⟨[], by rw [statements?.eq_def]; rfl, .nil⟩
  | cons f fields ih =>
      obtain ⟨hf, hrest⟩ := List.forall_mem_cons.mp h
      obtain ⟨sts, hsts, hgive⟩ := ih hrest
      obtain ⟨st, hst, heq⟩ := statements?_assignment total f.2 (document fields) hf
      refine ⟨st :: sts, ?_, .cons hst hgive⟩
      rw [document, List.flatMap_cons]
      exact heq.trans (by rw [hsts]; rfl)

/-- No byte order mark stands in front of a plain line. -/
theorem read?_eq_statements? (h : ∀ f ∈ fields, IsBare f.1) :
    read? (String.ofList (document fields)) =
      statements? (document fields).length (document fields) := by
  simp only [read?, String.toList_ofList]
  split
  case h_1 rest heq =>
    cases fields with
    | nil => cases heq
    | cons f fields =>
        obtain ⟨c, s, hkey, hc⟩ := (h f List.mem_cons_self).exists_cons
        have hmark : c ≠ '\ufeff' := ne_of_class hc rfl
        simp [document, assignment, hkey, hmark] at heq
  case h_2 => rfl

/-! ### The keys that a document takes -/

theorem Outline.form?_set_of_ne {o : Outline} {path other : List String} (form : Form)
    (hne : other ≠ path) (h : o.form? other = none) : (o.set path form).form? other = none := by
  simp only [Outline.form?, Outline.set, List.lookup_eq_none_iff] at h ⊢
  intro p hp
  obtain rfl | hp := List.mem_cons.mp hp
  · simpa using hne
  · exact h p (List.mem_of_mem_filter hp)

/-- A free key of the top level is given a value. -/
theorem Outline.assign_of_free {o : Outline} {p : Part} (h : o.form? [p.name] = none) :
    o.assign [] [p] = .ok (o.set [p.name] .value) := by
  simp [Outline.assign, Outline.descend, h, bind, Except.bind]

theorem clashFrom?_of_gives {sts : List Statement} {o : Outline}
    (h : List.Forall₂ Statement.Gives fields sts) (hnodup : (fields.map Prod.fst).Nodup)
    (hfree : ∀ f ∈ fields, o.form? [f.1] = none) : clashFrom? o [] sts = none := by
  induction h generalizing o with
  | nil => rfl
  | @cons f st fields sts hst hrest ih =>
      obtain ⟨span, place, rfl⟩ := hst
      obtain ⟨hf, hfree⟩ := List.forall_mem_cons.mp hfree
      obtain ⟨hnew, hnodup⟩ := List.nodup_cons.mp hnodup
      rw [clashFrom?, Outline.assign_of_free hf]
      refine ih hnodup fun g hg => Outline.form?_set_of_ne .value ?_ (hfree g hg)
      intro heq
      exact hnew (List.mem_map.mpr ⟨g, hg, (List.cons.inj heq).1⟩)

/-- What a document gives to a key of the top level. -/
def Entry.field (e : Entry) : String × Given := (e.key.name, e.given)

theorem Entry.add_of_new {e : Entry} {es : List Entry}
    (h : ∀ f ∈ es, f.key.name ≠ e.key.name) (isHeader : Bool) :
    e.add isHeader es = es ++ [e] := by
  induction es with
  | nil => rfl
  | cons f es ih =>
      obtain ⟨hf, hes⟩ := List.forall_mem_cons.mp h
      simp only [Entry.add, if_neg hf, ih hes, List.cons_append]

/-- The field that a plain line is. -/
def plain (field : String × Nat) : String × Given := (field.1, .value (.integer field.2))

theorem entriesFrom_of_gives {sts : List Statement} {es : List Entry}
    (h : List.Forall₂ Statement.Gives fields sts) (hnodup : (fields.map Prod.fst).Nodup)
    (hnew : ∀ e ∈ es, ∀ f ∈ fields, e.key.name ≠ f.1) :
    (entriesFrom false es sts).map Entry.field = es.map Entry.field ++ fields.map plain := by
  induction h generalizing es with
  | nil => simp [entriesFrom]
  | @cons f st fields sts hst hrest ih =>
      obtain ⟨span, place, rfl⟩ := hst
      obtain ⟨hfirst, hnodup⟩ := List.nodup_cons.mp hnodup
      rw [entriesFrom, if_neg Bool.false_ne_true,
        Entry.add_of_new fun e he => hnew e he f List.mem_cons_self, ih hnodup]
      · simp [Entry.field, plain]
      · intro e he g hg
        obtain he | he := List.mem_append.mp he
        · exact hnew e he g (List.mem_cons_of_mem _ hg)
        · obtain rfl := List.mem_singleton.mp he
          intro heq
          exact hfirst (List.mem_map.mpr ⟨g, hg, heq.symm⟩)

/-- A document of plain lines with different keys has no clash, and its entries are its lines. -/
theorem read?_document (hbare : ∀ f ∈ fields, IsBare f.1) (hnodup : (fields.map Prod.fst).Nodup) :
    ∃ sts, read? (String.ofList (document fields)) = some sts ∧ clash? sts = none ∧
      (entries sts).map Entry.field = fields.map plain := by
  obtain ⟨sts, hsts, hgive⟩ := statements?_document hbare (document fields).length
  refine ⟨sts, (read?_eq_statements? hbare).trans hsts, ?_, ?_⟩
  · exact clashFrom?_of_gives hgive hnodup fun _ _ => rfl
  · exact entriesFrom_of_gives hgive hnodup (by simp)

end

end RequestScheduler.Toml
