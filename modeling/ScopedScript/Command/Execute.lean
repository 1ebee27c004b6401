import ScopedScript.Code.Listing
import ScopedScript.Command.Args
import ScopedScript.Config
import ScopedScript.FileTree
import ScopedScript.Json.Printer
import ScopedScript.Machine.Standard
import ScopedScript.Toolchain
import ScopedScript.Tree.Printer

/-!
# What commands do

A command is a function of the files and the standard input that it can see, and has its effects
described: the texts it prints, the module it writes, and the status it ends with.
-/

namespace ScopedScript

/-- What a command can see. Each access may be refused for a reason. -/
structure Surroundings where
  contents : String → Except String String
  stdin : String
  /-- Why a file cannot be written, if it cannot. -/
  refusesWrite : String → Option String

/-- What can be seen among the files of a tree. -/
def Surroundings.ofFiles (t : FileTree) (stdin : String) : Surroundings where
  contents path := (t.read path).mapError PathError.message
  stdin := stdin
  refusesWrite path :=
    match t.target path with
    | .ok _ => none
    | .error e => some e.message

structure Effects where
  status : Int
  stdout : String
  stderr : String
  /-- A file to be written, and the module that goes into it. -/
  written : Option (String × Module)

/-- The program in a file. -/
def Program.load (s : Surroundings) (path : String) : Except Failure Program :=
  match s.contents path with
  | .error reason => .error (.unreadable path reason)
  | .ok text => Program.ofText (.ofPath path) text

namespace Effects

def success (stdout : String) : Effects := ⟨0, stdout, "", none⟩

/-- Ends with status one after a line of complaint. -/
def complaint (line : String) : Effects := ⟨1, "", line ++ "\n", none⟩

/-- A process that is lost after some output. -/
def lost (stdout : String) : Effects := ⟨101, stdout, "", none⟩

/-- Ends with status one and reports a failure after some output. -/
def failure (stdout : String) (f : Failure) (file : String) (source : Option String) : Effects :=
  match f.report file source with
  | .ok text => ⟨1, stdout, text ++ "\n", none⟩
  | .error _ => .lost stdout

/-- The status of a command that is used wrongly. -/
def misuse : Effects := ⟨2, "", "error: wrong usage\n", none⟩

end Effects

namespace Action

def file : Action → String
  | run file _ | check file | compile file _ | list file | tree file => file

/-- Reads the tree that an action is for; a single hyphen stands for the standard input. -/
def readProgram (s : Surroundings) (file : String) : Except Failure Program :=
  if file = "-" then Program.ofText .ron s.stdin else Program.load s file

/-- Runs a compiled program and reports a fault. -/
def runModule (config : Config) (steps : Nat) (p : Program) (file entry : String) (m : Module) :
    Effects :=
  match m.link .standard config.machine with
  | .error f => .failure "" (.running f) file p.source
  | .ok linked =>
    let (ending, machine) := linked.run steps entry .empty
    match ending with
    | .outcome (.ok v) => ⟨(Outcome.exitStatus (.ok v)), machine.output, "", none⟩
    | .outcome (.error f) => .failure machine.output (.running f) file p.source
    | .lost _ => .lost machine.output
    | .outOfSteps => ⟨1, "", "error: out of steps\n", none⟩

/-- Writes the module to a file, whose name is that of the tree unless one is given. -/
def writeModule (s : Surroundings) (file : String) (output : Option String) (m : Module) :
    Effects :=
  if output.isNone ∧ file = "-" then
    .complaint "error: cannot compile from stdin without --output"
  else
    let target := output.getD (Text.withExtension file "lacec")
    match s.refusesWrite target with
    | some reason => .complaint ("error: writing '" ++ target ++ "': " ++ reason)
    | none =>
      ⟨0, "Compiled '" ++ file ++ "' to '" ++ target ++ "'\n", "", some (target, m)⟩

/-- Carries out an action; a program that is run may take so many steps. -/
def effects (s : Surroundings) (steps : Nat) (config : Config) (a : Action) : Effects :=
  match readProgram s a.file with
  | .error f => .failure "" f a.file none
  | .ok p =>
    match a with
    | tree _ => .success (p.toJson.pretty ++ "\n")
    | a =>
      match p.compile .standard with
      | .error f => .failure "" f a.file p.source
      | .ok m =>
        match a with
        | run file entry => runModule config steps p file entry m
        | compile file output => writeModule s file output m
        | list _ => .success m.listing
        | check _ | tree _ => .success "Check: OK\n"

end Action

namespace Command

/-- The configuration that a command asks for. -/
def readConfig (s : Surroundings) : Option String → Except String Config
  | none => .ok .default
  | some path =>
    match s.contents path with
    | .error reason => .error ("failed to read config file " ++ path ++ ": " ++ reason)
    | .ok text =>
      match Config.ofText text with
      | .ok config => .ok config
      | .error e => .error e.message

/-- Carries out the command that arguments stand for. -/
def effects (s : Surroundings) (steps : Nat) (args : List String) : Effects :=
  match parse? args with
  | none => .misuse
  | some command =>
    match readConfig s command.config with
    | .error message => .complaint ("error: " ++ message)
    | .ok config => command.action.effects s steps config

end Command

end ScopedScript
