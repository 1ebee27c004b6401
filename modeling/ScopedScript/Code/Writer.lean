import ScopedScript.Code.Basic
import ScopedScript.Tree.Form
import ScopedScript.Tree.Printer

/-!
# Writing code

Instructions, constants and modules as records and variants. An instruction without operands is
a variant without a body, one with a single operand wraps it, and all others are records.
-/

namespace ScopedScript

variable {δ : Type} (w : Form δ)

def CastTarget.tag : CastTarget → String
  | int => "Int"
  | float => "Float"
  | bool => "Bool"
  | string => "Str"

def TypeTag.write : TypeTag → δ
  | int => w.unit "Int"
  | float => w.unit "Float"
  | bool => w.unit "Bool"
  | string => w.unit "Str"
  | null => w.unit "Null"
  | struct id => w.wrap "Struct" (w.nat id)
  | function => w.unit "Function"
  | task => w.unit "Task"
  | any => w.unit "Any"
  | nullable inner => w.wrap "Nullable" (inner.write)

def Constant.write : Constant → δ
  | int n => w.wrap "Int" (w.int n.toInt)
  | float x => w.wrap "Float" (w.float x)
  | bool b => w.wrap "Bool" (w.bool b)
  | string s => w.wrap "Str" (w.text s)
  | null => w.unit "Null"

def Instr.write : Instr → δ
  | const index => w.wrap "Const" (w.nat index)
  | pop => w.unit "Pop"
  | dup => w.unit "Dup"
  | arith op kind => w.wrap op.tag (w.unit kind.tag)
  | neg kind => w.wrap "Neg" (w.unit kind.tag)
  | order op kind => w.wrap op.tag (w.unit kind.tag)
  | eq => w.unit "Eq"
  | ne => w.unit "Ne"
  | not => w.unit "Not"
  | cast target => w.wrap "Cast" (w.unit target.tag)
  | format parts => w.wrap "Format" (w.nat parts)
  | jump target => w.wrap "Jump" (w.nat target)
  | jumpIfFalse target => w.wrap "JumpIfFalse" (w.nat target)
  | jumpIfTrue target => w.wrap "JumpIfTrue" (w.nat target)
  | enterScope => w.unit "EnterScope"
  | exitScope => w.unit "ExitScope"
  | declare slot => w.wrap "Declare" (w.nat slot)
  | load slot => w.wrap "Load" (w.nat slot)
  | move slot => w.wrap "Move" (w.nat slot)
  | store slot => w.wrap "Store" (w.nat slot)
  | storeField slot path =>
    w.variant "StoreField" [("slot", w.nat slot), ("path", w.items w.nat path)]
  | free slot => w.wrap "Free" (w.nat slot)
  | loadCapture index => w.wrap "LoadCapture" (w.nat index)
  | makeStruct type fields =>
    w.variant "MakeStruct" [("ty", w.nat type), ("fields", w.nat fields)]
  | getField index => w.wrap "GetField" (w.nat index)
  | getFieldDynamic name => w.wrap "GetFieldDyn" (w.text name)
  | makeClosure function captures =>
    w.variant "MakeClosure" [("function", w.nat function), ("captures", w.nat captures)]
  | loadNative native => w.wrap "LoadNative" (w.nat native)
  | call function args => w.variant "Call" [("function", w.nat function), ("argc", w.nat args)]
  | callValue args => w.wrap "CallValue" (w.nat args)
  | callDynamic args => w.wrap "CallDynamic" (w.nat args)
  | callMethodDynamic method args =>
    w.variant "CallMethodDyn" [("method", w.text method), ("argc", w.nat args)]
  | callNative native args =>
    w.variant "CallNative" [("native", w.nat native), ("argc", w.nat args)]
  | ret => w.unit "Return"
  | spawn function args => w.variant "Spawn" [("function", w.nat function), ("argc", w.nat args)]
  | await => w.unit "Await"
  | yieldNow => w.unit "Yield"
  | box => w.unit "BoxAny"
  | unbox tag => w.wrap "Unbox" (tag.write w)

def FunctionCode.write (f : FunctionCode) : δ :=
  w.record
    [("name", w.text f.name), ("arity", w.nat f.arity), ("slot_count", w.nat f.slotCount),
     ("slot_names", w.texts f.slotNames.toList),
     ("param_tags", w.items (TypeTag.write w) f.paramTags), ("is_async", w.bool f.isAsync),
     ("captures", w.texts f.captures),
     ("chunk", w.record
       [("instructions", w.items (Instr.write w) f.code.toList),
        ("constants", w.items (Constant.write w) f.constants.toList),
        ("spans", w.items (fun s => w.option (s.map w.span)) f.spans.toList)])]

def StructLayout.write (s : StructLayout) : δ :=
  w.record
    [("name", w.text s.name), ("fields", w.texts s.fields),
     ("methods", w.items (fun m => w.pair (w.text m.1) (w.nat m.2)) s.methods)]

/-- The source text is left out when there is none. -/
def Module.write (m : Module) : δ :=
  w.record
    ([("functions", w.items (FunctionCode.write w) m.functions.toList),
      ("structs", w.items (StructLayout.write w) m.structs.toList),
      ("natives", w.texts m.natives.toList)] ++
      m.source.toList.map fun s => ("source", w.option (some (w.text s))))

end ScopedScript
