import ScopedScript.Syntax.Basic
import ScopedScript.Text.Lines

/-!
# Spans in a source text
-/

namespace ScopedScript.Span

/-- Counts lines and characters up to the first character at or after an offset. -/
def countTo (target : Nat) (offset : Nat) (pos : Text.Position) : List Char → Text.Position
  | [] => pos
  | c :: cs =>
    if target ≤ offset then pos
    else
      countTo target (offset + c.utf8Size)
        (if c = '\n' then ⟨pos.line + 1, 1⟩ else ⟨pos.line, pos.column + 1⟩) cs

/-- The line at which a span starts, and its column in characters. -/
def location (s : Span) (source : List Char) : Text.Position := countTo s.start 0 ⟨1, 1⟩ source

/-- The part of a source that a span covers, cut to the source; `none` when an end of it is
inside a character. -/
def text? (s : Span) (source : List Char) : Option (List Char) :=
  let stop := min s.stop (Text.byteLength source)
  Text.slice? (min s.start stop) stop source

end ScopedScript.Span
