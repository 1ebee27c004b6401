import ScopedScript.Code.Writer
import ScopedScript.Text.Quoted

/-!
# Listings of code

A module for people to read: the built-ins and the structs it uses, and every function with one
line for each instruction.
-/

namespace ScopedScript

namespace Listing

def joined (separator : String) (parts : List String) : String := separator.intercalate parts

/-- Members between braces, each after its name. -/
def braces (members : List (String × String)) : String :=
  "\x7b " ++ joined ", " (members.map fun m => m.1 ++ ": " ++ m.2) ++ " \x7d"

/-- Values as they are spelled in listings. -/
def form : Form String where
  bool b := if b then "true" else "false"
  int := Decimal.intText
  float := Decimal.Layout.literal.text
  text := Text.quoted
  list items := "[" ++ joined ", " items ++ "]"
  pair a b := "(" ++ a ++ ", " ++ b ++ ")"
  option
    | none => "None"
    | some v => "Some(" ++ v ++ ")"
  record := braces
  unit tag := tag
  wrap tag v := tag ++ "(" ++ v ++ ")"
  variant tag members := tag ++ " " ++ braces members

/-- A number of at least four digits. -/
def address (n : Nat) : String :=
  let digits := Decimal.natText n
  Decimal.zeros (4 - digits.length) ++ digits

def instruction (f : FunctionCode) (ip : Nat) (i : Instr) : String :=
  let place :=
    match f.spanAt ip with
    | some s => "  @" ++ Decimal.natText s.start ++ ".." ++ Decimal.natText s.stop
    | none => ""
  "  " ++ address ip ++ "  " ++ i.write form ++ place ++ "\n"

def function (id : Nat) (f : FunctionCode) : String :=
  let head := "\nfn #" ++ Decimal.natText id ++ " " ++ (if f.isAsync then "async " else "") ++
    f.name ++ " (arity " ++ Decimal.natText f.arity ++ ", slots " ++
    Decimal.natText f.slotCount ++ ")\n"
  let slots :=
    if f.slotNames.isEmpty then ""
    else "  slots: " ++ joined ", " f.slotNames.toList ++ "\n"
  let code := f.code.toList.zipIdx.map fun (i, ip) => instruction f ip i
  let constants :=
    if f.constants.isEmpty then ""
    else "  constants: " ++ form.items (Constant.write form) f.constants.toList ++ "\n"
  head ++ slots ++ String.join code ++ constants

end Listing

def Module.listing (m : Module) : String :=
  let natives := m.natives.toList.zipIdx.map fun (name, i) =>
    "native #" ++ Decimal.natText i ++ " " ++ name ++ "\n"
  let structs := m.structs.toList.map fun s =>
    "struct " ++ s.name ++ " \x7b " ++ Listing.joined ", " s.fields ++ " \x7d\n"
  let functions := m.functions.toList.zipIdx.map fun (f, id) => Listing.function id f
  String.join natives ++ String.join structs ++ String.join functions

end ScopedScript
