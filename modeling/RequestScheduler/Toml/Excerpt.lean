import RequestScheduler.Sums
import RequestScheduler.Toml.Value

/-!
# A place in a source, as it is shown

A stretch of a source is shown by the line and the column where it starts, both counted from one, by
that line itself, and by carets below the stretch. There is one caret for each byte of the stretch
in UTF-8, but always one, and none beyond the end of the line.
-/

namespace RequestScheduler.Toml

/-- The length of a text in UTF-8. -/
def byteLength (s : List Char) : Nat := total (s.map Char.utf8Size)

/-- A stretch of a source with the line it starts in. -/
structure Excerpt where
  line : Nat
  column : Nat
  content : List Char
  width : Nat
  deriving DecidableEq, Repr

/-- Finds a stretch in its source. -/
def Span.excerpt (span : Span) (source : List Char) : Excerpt :=
  let before := source.take span.start
  let after := source.drop span.start
  let lead := (before.reverse.takeWhile (· != '\n')).reverse
  let content := lead ++ after.takeWhile (· != '\n')
  let stretch := after.take (span.stop - span.start)
  { line := before.count '\n' + 1
    column := lead.length + 1
    content
    width := max 1 (min (byteLength stretch) (byteLength content - lead.length)) }

/-- The lines in which an excerpt is shown. The first and the last of them are indented as far as
the line number takes. -/
def Excerpt.text (e : Excerpt) : String :=
  let number := toString e.line
  let margin := String.ofList (List.replicate (number.length + 1) ' ') ++ "|"
  let carets := List.replicate e.column ' ' ++ List.replicate e.width '^'
  margin ++ "\n" ++ number ++ " | " ++ String.ofList e.content ++ "\n" ++
    margin ++ String.ofList carets ++ "\n"

end RequestScheduler.Toml
