/-!
# The command line

A command names an action and the tree that it is for. Options may stand before or after the tree;
those that concern every action may also stand in front of the action's name, and give way there
to one behind it.
-/

namespace ScopedScript

inductive Action
  | run (file entry : String)
  | check (file : String)
  | compile (file : String) (output : Option String)
  /-- Prints a listing of the code. -/
  | list (file : String)
  /-- Prints the tree as it was read. -/
  | tree (file : String)
deriving DecidableEq, Repr

structure Command where
  action : Action
  config : Option String
deriving DecidableEq, Repr

namespace Command

/-- What has been seen of a command line. -/
structure Seen where
  words : List String
  /-- The configuration named in front of the action. -/
  outerConfig : Option String
  config : Option String
  entry : Option String
  output : Option String
deriving Repr

/-- An option that takes a value. -/
inductive ValueOption
  | config
  | entry
  | output
deriving DecidableEq, Repr

/-- A part of the command line by its look. -/
inductive Part
  | word (text : String)
  /-- An option, and its value if that is attached to it. -/
  | option (name : ValueOption) (value : Option String)
  | verbose
  /-- Everything after it is a word. -/
  | endOfOptions
  | unknown
deriving Repr

/-- The value attached to an option by an equals sign. -/
def attached? (name : String) (arg : String) : Option String :=
  if (name ++ "=").isPrefixOf arg then some (arg.drop (name.length + 1)).toString else none

/-- A cluster of single letters after a hyphen: any number of `v`s, and then perhaps an `o` with
its value behind it. -/
def cluster (letters : List Char) : Part :=
  match letters.dropWhile (· = 'v') with
  | [] => .verbose
  | 'o' :: [] => .option .output none
  | 'o' :: '=' :: value => .option .output (some (String.ofList value))
  | 'o' :: value => .option .output (some (String.ofList value))
  | _ => .unknown

def part (arg : String) : Part :=
  match arg.toList with
  | ['-', '-'] => .endOfOptions
  | '-' :: '-' :: _ =>
    if arg == "--verbose" then .verbose
    else if arg == "--config" then .option .config none
    else if arg == "--entry" then .option .entry none
    else if arg == "--output" then .option .output none
    else
      match attached? "--config" arg, attached? "--entry" arg, attached? "--output" arg with
      | some value, _, _ => .option .config (some value)
      | _, some value, _ => .option .entry (some value)
      | _, _, some value => .option .output (some value)
      | none, none, none => .unknown
  | '-' :: c :: rest => cluster (c :: rest)
  | _ => .word arg

/-- Notes the value of an option, which may be given once, and only where it belongs. A
configuration, which needs a name, may be given once on either side of the action. -/
def Seen.note (s : Seen) (name : ValueOption) (value : String) : Option Seen :=
  match name with
  | .config =>
    if value = "" then none
    else if s.words.isEmpty then
      if s.outerConfig.isSome then none else some { s with outerConfig := some value }
    else if s.config.isSome then none
    else some { s with config := some value }
  | .entry =>
    if s.entry.isSome || s.words.head? != some "run" then none
    else some { s with entry := some value }
  | .output =>
    if s.output.isSome || s.words.head? != some "compile" then none
    else some { s with output := some value }

/-- Goes through the arguments; an option without an attached value takes the next argument. -/
def scan (s : Seen) : List String → Option Seen
  | [] => some s
  | arg :: rest =>
    match part arg with
    | .word text => scan { s with words := s.words ++ [text] } rest
    | .verbose => scan s rest
    | .endOfOptions =>
      if s.words.isEmpty then none else some { s with words := s.words ++ rest }
    | .unknown => none
    | .option name (some value) => (s.note name value).bind fun s => scan s rest
    | .option name none =>
      match rest with
      | [] => none
      | value :: rest =>
        match part value with
        | .word value => (s.note name value).bind fun s => scan s rest
        | _ => none

/-- The command that arguments stand for; `none` when they are used wrongly. -/
def parse? (args : List String) : Option Command := do
  let s ← scan ⟨[], none, none, none, none⟩ args
  let config := s.config <|> s.outerConfig
  match s.words with
  | ["run", file] => return ⟨.run file (s.entry.getD "main"), config⟩
  | ["check", file] => return ⟨.check file, config⟩
  | ["compile", file] => return ⟨.compile file s.output, config⟩
  | ["bytecode", file] => return ⟨.list file, config⟩
  | ["ast", file] => return ⟨.tree file, config⟩
  | _ => none

end Command

end ScopedScript
