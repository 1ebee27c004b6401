import ScopedScript.Decimal.Integer
import ScopedScript.Syntax.Basic
import ScopedScript.Text.Lines

/-!
# Diagnostics

A diagnostic is a message with the span that it is about and some context. It is rendered with the
lines of the source when the source is known, and as one line with byte offsets otherwise. The lines
are laid out in words of 64 bits, in fields of limited width and in texts that memory can hold; a
rendering that needs more is not made.
-/

namespace ScopedScript

inductive Severity
  | error
  | warning
  | info
  | hint
deriving DecidableEq, Repr

/-- Which part of the language found the trouble. -/
inductive DiagnosticKind
  | typing
  | compiling
  | running
deriving DecidableEq, Repr

/-- A code under which messages of one sort can be looked up. -/
structure DiagnosticCode where
  code : String
  title : String
deriving DecidableEq, Repr

/-- Another place that the message refers to. -/
structure RelatedInfo where
  message : String
  span : Span
deriving DecidableEq, Repr

structure Diagnostic where
  kind : DiagnosticKind
  severity : Severity
  message : String
  span : Option Span
  filename : String
  code : Option DiagnosticCode
  related : List RelatedInfo
  notes : List String
  help : Option String
deriving Repr

namespace Severity

def word : Severity → String
  | error => "error"
  | warning => "warning"
  | info => "info"
  | hint => "hint"

end Severity

namespace DiagnosticKind

def word : DiagnosticKind → String
  | typing => "type"
  | compiling => "compile"
  | running => "runtime"

end DiagnosticKind

namespace Diagnostic

open Decimal (natText)

/-- An error without context. -/
def error (kind : DiagnosticKind) (message : String) (span : Option Span) (filename : String) :
    Diagnostic :=
  ⟨kind, .error, message, span, filename, none, [], [], none⟩

def header (d : Diagnostic) : String :=
  match d.code with
  | some c => d.severity.word ++ "[" ++ c.code ++ "]: " ++ d.message
  | none => d.severity.word ++ ": " ++ d.message

def spanText (s : Span) : String := natText s.start ++ ".." ++ natText s.stop

/-- The diagnostic in short, with byte offsets. -/
def line (d : Diagnostic) : String :=
  let place :=
    match d.span with
    | some s => " at " ++ d.filename ++ ":" ++ spanText s
    | none => " in " ++ d.filename
  let related := d.related.map fun r => "\n  " ++ r.message ++ " at " ++ spanText r.span
  let notes := d.notes.map fun n => "\n  note: " ++ n
  d.header ++ place ++ String.join related ++ String.join notes

/-- Why a diagnostic is not rendered. The process is lost with it. -/
inductive RenderFault
  /-- A line or column that no word holds. -/
  | overflow (pos : Text.Position)
  /-- A difference below zero. -/
  | underflow
  /-- A slice of the source that begins or ends inside a character, or beyond the source. -/
  | slice (start stop : Nat)
  /-- A field that is wider than fields may be. -/
  | width (columns : Nat)
  /-- More marks than a text has room for. -/
  | marks (count : Nat)
deriving DecidableEq, Repr

abbrev Rendered := Except RenderFault

/-- One more than the greatest word. -/
def wordEnd : Nat := Nat.pow 2 64

/-- The widest field, in columns. -/
def maxFieldWidth : Nat := Nat.pow 2 16 - 1

/-- The most bytes that a text may take in memory. -/
def maxTextSize : Nat := Nat.pow 2 63 - 1

def minus (a b : Nat) : Rendered Nat :=
  if b ≤ a then .ok (a - b) else .error .underflow

/-- The position of an offset, when words hold it. -/
def locate (index : Text.LineIndex) (offset : Nat) : Rendered Text.Position :=
  let pos := index.position offset
  if pos.line < wordEnd ∧ pos.column < wordEnd then .ok pos else .error (.overflow pos)

/-- A text right-aligned in a field. -/
def field (width : Nat) (text : String) : Rendered String :=
  if width ≤ maxFieldWidth then
    .ok (String.ofList (List.replicate (width - text.length) ' ') ++ text)
  else .error (.width width)

/-- A run of marks, each of one byte. -/
def marked (count : Nat) : Rendered String :=
  if count ≤ maxTextSize then .ok (String.ofList (List.replicate count '~'))
  else .error (.marks count)

/-- The columns in front of a position on its line, and a number of columns on the other lines. -/
def columnsTo (pos : Text.Position) (number otherwise : Nat) : Rendered Nat :=
  if number = pos.line then minus pos.column 1 else .ok otherwise

/-- A line of the source with the part between two positions underlined. -/
def underlined (first last : Text.Position) (width number : Nat) (text : List Char) :
    Rendered String := do
  let start ← columnsTo first number 0
  let stop ← columnsTo last number text.length
  let marks ← minus (max (stop - start) 1) 1
  return (← field width (natText number)) ++ " | " ++ String.ofList text ++ "\n" ++
    (← field width "") ++ " | " ++ (← field start "") ++ "^" ++ (← marked marks) ++ "\n"

/-- A line of the source, underlined; nothing when there is no such line. -/
def snippetLine (source : List Char) (index : Text.LineIndex) (first last : Text.Position)
    (width number : Nat) : Rendered String :=
  match index.cut? source number with
  | none => .ok ""
  | some (start, stop) =>
    match Text.slice? start stop source with
    | some text => underlined first last width number text
    | none => .error (.slice start stop)

/-- The lines of the source that a span touches, each underlined. -/
def snippet (source : List Char) (index : Text.LineIndex) (s : Span) : Rendered String := do
  let first ← locate index s.start
  let last ← locate index s.stop
  let width := (natText (max first.line last.line)).length
  let margin ← field width ""
  let numbers := List.range' first.line (last.line + 1 - first.line)
  let lines ← numbers.mapM (snippetLine source index first last width)
  return margin ++ " |\n" ++ String.join lines

/-- A place in the file, by line and column, with the lines of the source there. -/
def shown (d : Diagnostic) (source : List Char) (index : Text.LineIndex) (s : Span) :
    Rendered String := do
  let pos ← locate index s.start
  return d.filename ++ ":" ++ natText pos.line ++ ":" ++ natText pos.column ++ "\n" ++
    (← snippet source index s)

/-- The place that the message is about. -/
def primaryText (d : Diagnostic) (source : List Char) (index : Text.LineIndex) : Rendered String :=
  match d.span with
  | some s => return "  --> " ++ (← d.shown source index s)
  | none => .ok ""

/-- Another place that the message refers to. -/
def relatedText (d : Diagnostic) (source : List Char) (index : Text.LineIndex) (r : RelatedInfo) :
    Rendered String :=
  return "note: " ++ r.message ++ " at " ++ (← d.shown source index r.span)

/-- The diagnostic with the lines of the source that it is about. -/
def format (d : Diagnostic) (source : List Char) : Rendered String := do
  let index := Text.LineIndex.ofText source
  let primary ← d.primaryText source index
  let related ← d.related.mapM (d.relatedText source index)
  let notes := d.notes.map fun n => "note: " ++ n ++ "\n"
  let help :=
    match d.help with
    | some h => "help: " ++ h ++ "\n"
    | none => ""
  return d.header ++ "\n" ++ primary ++ String.join related ++ String.join notes ++ help

/-- With the source if there is one and the diagnostic has a span, in short otherwise. -/
def render (d : Diagnostic) (source : Option String) : Rendered String :=
  match source, d.span with
  | some text, some _ => d.format text.toList
  | _, _ => .ok d.line

end Diagnostic

end ScopedScript
