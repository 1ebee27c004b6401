import ScopedScript.Code.Basic
import ScopedScript.Tree.Reader

/-!
# Reading code

Modules are read from any data format that has a shape. Indices into tables are 32-bit naturals;
constants and jump targets are counted in 64 bits.
-/

namespace ScopedScript

variable {δ : Type} (s : Shape δ)

namespace Code

def operandTags : List (String × OperandKind) :=
  [("Int", .int), ("Float", .float), ("Str", .string), ("Dynamic", .dynamic)]

def castTags : List (String × CastTarget) :=
  [("Int", .int), ("Float", .float), ("Bool", .bool), ("Str", .string)]

def plainTypeTags : List (String × TypeTag) :=
  [("Int", .int), ("Float", .float), ("Bool", .bool), ("Str", .string), ("Null", .null),
   ("Function", .function), ("Task", .task), ("Any", .any)]

/-- Instructions without operands. -/
def plainInstrs : List (String × Instr) :=
  [("Pop", .pop), ("Dup", .dup), ("Eq", .eq), ("Ne", .ne), ("Not", .not),
   ("EnterScope", .enterScope), ("ExitScope", .exitScope), ("Return", .ret), ("Await", .await),
   ("Yield", .yieldNow), ("BoxAny", .box)]

/-- Instructions with a 32-bit operand. -/
def indexedInstrs : List (String × (Nat → Instr)) :=
  [("Format", .format), ("Declare", .declare), ("Load", .load), ("Move", .move),
   ("Store", .store), ("Free", .free), ("LoadCapture", .loadCapture), ("GetField", .getField),
   ("LoadNative", .loadNative), ("CallValue", .callValue), ("CallDynamic", .callDynamic)]

/-- Instructions with a 64-bit operand. -/
def targetInstrs : List (String × (Nat → Instr)) :=
  [("Const", .const), ("Jump", .jump), ("JumpIfFalse", .jumpIfFalse),
   ("JumpIfTrue", .jumpIfTrue)]

/-- Instructions that depend on what is known of their operands. -/
def operatorInstrs : List (String × (OperandKind → Instr)) :=
  [("Add", .arith .add), ("Sub", .arith .sub), ("Mul", .arith .mul), ("Div", .arith .div),
   ("Mod", .arith .mod), ("Pow", .arith .pow), ("Shl", .arith .shl), ("Shr", .arith .shr),
   ("Neg", .neg), ("Lt", .order .lt), ("Le", .order .le), ("Gt", .order .gt),
   ("Ge", .order .ge)]

/-- Instructions with two 32-bit operands, and the names of these. -/
def pairedInstrs : List (String × String × String × (Nat → Nat → Instr)) :=
  [("MakeStruct", "ty", "fields", .makeStruct),
   ("MakeClosure", "function", "captures", .makeClosure), ("Call", "function", "argc", .call),
   ("CallNative", "native", "argc", .callNative), ("Spawn", "function", "argc", .spawn)]

/-- A shape check of at most this many levels. -/
def readTag : Nat → δ → Option TypeTag
  | 0, d => s.tag? 0 plainTypeTags d
  | level + 1, d =>
    match s.variant? d with
    | some ("Struct", some body) => ((s.content? body).bind s.index?).map .struct
    | some ("Nullable", some body) => ((s.content? body).bind (readTag level)).map .nullable
    | _ => s.tag? 1 plainTypeTags d

def readConstant (d : δ) : Option Constant :=
  match s.variant? d with
  | some ("Int", some body) => ((s.content? body).bind s.word?).map .int
  | some ("Float", some body) => ((s.content? body).bind s.float?).map .float
  | some ("Bool", some body) => ((s.content? body).bind s.bool?).map .bool
  | some ("Str", some body) => ((s.content? body).bind s.text?).map .string
  | _ => s.tag? 1 [("Null", .null)] d

/-- An instruction from its tag and its body. -/
def readInstrBody (level : Nat) (tag : String) (body : δ) : Option Instr :=
  match indexedInstrs.lookup tag, targetInstrs.lookup tag, operatorInstrs.lookup tag,
      pairedInstrs.lookup tag with
  | some make, _, _, _ => ((s.content? body).bind s.index?).map make
  | _, some make, _, _ => ((s.content? body).bind s.offset?).map make
  | _, _, some make, _ => ((s.content? body).bind (s.tag? 1 operandTags)).map make
  | _, _, _, some (first, second, make) => do
    let f ← s.fields? "" [first, second] body
    return make (← f.required first s.index?) (← f.required second s.index?)
  | none, none, none, none =>
    match tag with
    | "Cast" => ((s.content? body).bind (s.tag? 1 castTags)).map .cast
    | "Unbox" => ((s.content? body).bind (readTag s level)).map .unbox
    | "GetFieldDyn" => ((s.content? body).bind s.text?).map .getFieldDynamic
    | "StoreField" => do
      let f ← s.fields? "" ["slot", "path"] body
      let slot ← f.required "slot" s.index?
      let path ← f.required "path" fun d => (s.items? d).bind fun items => items.mapM s.index?
      return .storeField slot path
    | "CallMethodDyn" => do
      let f ← s.fields? "" ["method", "argc"] body
      return .callMethodDynamic (← f.required "method" s.text?) (← f.required "argc" s.index?)
    | _ => none

def readInstr (level : Nat) (d : δ) : Option Instr :=
  match s.tag? 1 plainInstrs d with
  | some i => some i
  | none =>
    match s.variant? d with
    | some (tag, some body) => readInstrBody s level tag body
    | _ => none

/-- A list of any length. -/
def readList (read : δ → Option α) (d : δ) : Option (List α) :=
  (s.items? d).bind fun items => items.mapM read

def readSpan (d : δ) : Option (Option Span) := do
  match ← s.option? d with
  | none => return none
  | some d => return some (← s.span? 1 d)

def readFunction (level : Nat) (d : δ) : Option FunctionCode := do
  let f ← s.fields? "FunctionProto"
    ["name", "arity", "slot_count", "slot_names", "param_tags", "is_async", "captures", "chunk"] d
  let name ← f.required "name" s.text?
  let arity ← f.required "arity" s.index?
  let slotCount ← f.required "slot_count" s.index?
  let slotNames ← f.required "slot_names" (readList s s.text?)
  let paramTags ← f.required "param_tags" (readList s (readTag s level))
  let isAsync ← f.required "is_async" s.bool?
  let captures ← f.required "captures" (readList s s.text?)
  let chunk ← f.required "chunk" (s.fields? "Chunk" ["instructions", "constants", "spans"])
  let code ← chunk.required "instructions" (readList s (readInstr s level))
  let constants ← chunk.required "constants" (readList s (readConstant s))
  let spans ← chunk.required "spans" (readList s (readSpan s))
  return {
    name, arity, slotCount, paramTags, isAsync, captures
    slotNames := slotNames.toArray
    code := code.toArray
    constants := constants.toArray
    spans := spans.toArray }

def readMethod (d : δ) : Option (String × Nat) := do
  let (name, id) ← s.pair? d
  return (← s.text? name, ← s.index? id)

def readLayout (d : δ) : Option StructLayout := do
  let f ← s.fields? "StructLayout" ["name", "fields", "methods"] d
  let name ← f.required "name" s.text?
  let fields ← f.required "fields" (readList s s.text?)
  let methods ← f.required "methods" (readList s (readMethod s))
  return { name, fields, methods }

/-- A module in which shape checks nest at most `level` deep. -/
def readModule (level : Nat) (d : δ) : Option Module := do
  let f ← s.fields? "Module" ["functions", "structs", "natives", "source"] d
  let functions ← f.required "functions" (readList s (readFunction s level))
  let structs ← f.required "structs" (readList s (readLayout s))
  let natives ← f.required "natives" (readList s s.text?)
  let source ← f.optional s "source" s.text?
  return ⟨functions.toArray, structs.toArray, natives.toArray, source⟩

end Code

end ScopedScript
