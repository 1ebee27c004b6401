import ScopedScript.Typing.Error

/-!
# Errors of the compiler

The checker has resolved every name, so only the release of bindings can go wrong here; the other
causes stand for trees that the checker never makes.
-/

namespace ScopedScript

inductive CompileCause
  | useAfterFree (name : String) (declaredAt freedAt : Option Span)
  /-- A further round of the loop would come to the `free` again. -/
  | freeInLoop (name : String) (declaredAt : Option Span)
  | unresolved (what name : String)
  | notLocal (name : String)
  | notAssignable (name : String)
  | conversion (target : Ty)
deriving Repr

structure CompileError where
  cause : CompileCause
  span : Option Span
deriving Repr

namespace CompileCause

/-- Causes that no checked program has. -/
def isInternal : CompileCause → Bool
  | useAfterFree .. | freeInLoop .. => false
  | _ => true

def message : CompileCause → String
  | useAfterFree name _ _ => "use of " ++ code name ++ " after it was freed"
  | freeInLoop name _ =>
    code name ++ " is declared outside this loop and cannot be freed inside it"
  | unresolved what name => "internal compiler error: unresolved " ++ what ++ " " ++ code name
  | notLocal name => "internal compiler error: " ++ code name ++ " does not name a local binding"
  | notAssignable name => "internal compiler error: cannot assign to " ++ code name
  | conversion target => "internal compiler error: conversion to " ++ code target.text

end CompileCause

def CompileError.message (e : CompileError) : String := e.cause.message

end ScopedScript
