import ScopedScript.Syntax.Basic

/-!
# Types of the checker

The types that expressions have, with the type of `null` among them. A value of type `a` may be
stored where `b` is expected when `a.assignableTo b`: the types agree, `b` is the nullable form of
one that takes `a`, or one of them is `any`, whose values are checked when the program runs.
-/

namespace ScopedScript

inductive Ty
  | int
  | float
  | bool
  | string
  | void
  | any
  /-- The type of the literal `null`. -/
  | null
  | struct (name : String)
  | function (params : List Ty) (ret : Ty)
  | nullable (inner : Ty)
  | task (inner : Ty)
deriving Repr, Inhabited

namespace Ty

mutual

def decEq : (a b : Ty) → Decidable (a = b)
  | int, b => by cases b <;> first | exact isTrue rfl | exact isFalse nofun
  | float, b => by cases b <;> first | exact isTrue rfl | exact isFalse nofun
  | bool, b => by cases b <;> first | exact isTrue rfl | exact isFalse nofun
  | string, b => by cases b <;> first | exact isTrue rfl | exact isFalse nofun
  | void, b => by cases b <;> first | exact isTrue rfl | exact isFalse nofun
  | any, b => by cases b <;> first | exact isTrue rfl | exact isFalse nofun
  | null, b => by cases b <;> first | exact isTrue rfl | exact isFalse nofun
  | struct n, struct m =>
    if h : n = m then isTrue (h ▸ rfl) else isFalse fun e => h (struct.inj e)
  | function p r, function q t =>
    match decEqList p q, decEq r t with
    | isTrue h, isTrue g => isTrue (h ▸ g ▸ rfl)
    | isFalse h, _ => isFalse fun e => h (function.inj e).1
    | _, isFalse g => isFalse fun e => g (function.inj e).2
  | nullable a, nullable b =>
    match decEq a b with
    | isTrue h => isTrue (h ▸ rfl)
    | isFalse h => isFalse fun e => h (nullable.inj e)
  | task a, task b =>
    match decEq a b with
    | isTrue h => isTrue (h ▸ rfl)
    | isFalse h => isFalse fun e => h (task.inj e)
  | struct _, int | struct _, float | struct _, bool | struct _, string | struct _, void
  | struct _, any | struct _, null | struct _, function .. | struct _, nullable _
  | struct _, task _ => isFalse nofun
  | function .., int | function .., float | function .., bool | function .., string
  | function .., void | function .., any | function .., null | function .., struct _
  | function .., nullable _ | function .., task _ => isFalse nofun
  | nullable _, int | nullable _, float | nullable _, bool | nullable _, string
  | nullable _, void | nullable _, any | nullable _, null | nullable _, struct _
  | nullable _, function .. | nullable _, task _ => isFalse nofun
  | task _, int | task _, float | task _, bool | task _, string | task _, void | task _, any
  | task _, null | task _, struct _ | task _, function .. | task _, nullable _ => isFalse nofun

def decEqList : (a b : List Ty) → Decidable (a = b)
  | [], [] => isTrue rfl
  | [], _ :: _ => isFalse nofun
  | _ :: _, [] => isFalse nofun
  | a :: as, b :: bs =>
    match decEq a b, decEqList as bs with
    | isTrue h, isTrue g => isTrue (h ▸ g ▸ rfl)
    | isFalse h, _ => isFalse fun e => h (List.cons.inj e).1
    | _, isFalse g => isFalse fun e => g (List.cons.inj e).2

end

instance : DecidableEq Ty := decEq

mutual

/-- The type that an annotation stands for. `any` is nullable already and so is `T?`. -/
def ofExpr : TypeExpr → Ty
  | .int => int
  | .float => float
  | .bool => bool
  | .string => string
  | .void => void
  | .any => any
  | .named name => struct name
  | .function params ret => function (ofExprs params) (ofExpr ret)
  | .nullable inner =>
    match ofExpr inner with
    | nullable t => nullable t
    | any => any
    | t => nullable t
  | .task inner => task (ofExpr inner)

def ofExprs : List TypeExpr → List Ty
  | [] => []
  | t :: rest => ofExpr t :: ofExprs rest

end

/-- Whether a value of the first type may be stored where the second is expected. -/
def assignableTo : Ty → Ty → Bool
  | any, _ => true
  | _, any => true
  | null, nullable _ => true
  | nullable a, nullable b => assignableTo a b
  | a, nullable b => assignableTo a b
  | a, b => a = b

/-- Whether `null` is among the values. -/
def isNullable : Ty → Bool
  | nullable _ | null => true
  | _ => false

/-- The type without `null`. -/
def nonNull : Ty → Ty
  | nullable inner => inner
  | t => t

def isNumeric : Ty → Bool
  | int | float => true
  | _ => false

mutual

def text : Ty → String
  | int => "int"
  | float => "float"
  | bool => "bool"
  | string => "string"
  | void => "void"
  | any => "any"
  | null => "null"
  | struct name => name
  | function params ret => "fn(" ++ textList params ++ ") -> " ++ text ret
  | nullable inner => text inner ++ "?"
  | task inner => "task<" ++ text inner ++ ">"

/-- Types with a comma and a space between them. -/
def textList : List Ty → String
  | [] => ""
  | [t] => text t
  | t :: u :: rest => text t ++ ", " ++ textList (u :: rest)

end

end Ty

end ScopedScript
