import ScopedScript.Machine.Value

/-!
# Bindings of a frame

Each binding of a frame has a slot. A slot becomes live when its declaration runs and is released
once: by a `free`, by a move out of the frame, or by the exit of the scope that declared it, which
releases what is still live in reverse order of declaration. Leaving a scope forgets its slots, so
that a loop body may declare them again.

A failing operation leaves the bindings as they were.
-/

namespace ScopedScript

/-- The state of one slot; only a live slot holds a value. -/
inductive Slot
  | unbound
  | live (value : Value)
  | freed
  | moved
deriving Repr, Inhabited

inductive SlotError
  | outOfRange (slot : Nat)
  | alreadyLive (slot : Nat)
  | notLive (slot : Nat)
  /-- Freed or moved before. -/
  | alreadyReleased (slot : Nat)
  | noScope
  | badPath
deriving DecidableEq, Repr

/-- Why a binding was released. -/
inductive ReleaseKind
  | explicit
  | scopeExit
  | moved
  /-- The task that owned the binding failed. -/
  | unwind
deriving DecidableEq, Repr

structure Bindings where
  slots : Array Slot
  /-- The slots that each open scope declared: innermost scope first, latest slot first. -/
  scopes : List (List Nat)
deriving Inhabited

/-- Operations on the bindings of a frame. -/
abbrev BindingM := EStateM SlotError Bindings

namespace SlotError

def message : SlotError → String
  | outOfRange slot => "slot " ++ Decimal.natText slot ++ " is out of range"
  | alreadyLive slot => "slot " ++ Decimal.natText slot ++ " is already live"
  | notLive slot => "slot " ++ Decimal.natText slot ++ " is not live"
  | alreadyReleased slot => "slot " ++ Decimal.natText slot ++ " was already released"
  | noScope => "no open scope"
  | badPath => "field path does not lead into a struct"

end SlotError

namespace Slot

def isLive : Slot → Bool
  | live _ => true
  | _ => false

end Slot

namespace Value

mutual

/-- Replaces the value that a path of field indices leads to. Boxes are not looked through. -/
def setPath? (new : Value) : List Nat → Value → Option Value
  | [], _ => some new
  | i :: path, struct type fields => (setField? new path i fields).map (struct type)
  | _ :: _, _ => none

def setField? (new : Value) (path : List Nat) : Nat → List Value → Option (List Value)
  | _, [] => none
  | 0, v :: rest => (setPath? new path v).map (· :: rest)
  | i + 1, v :: rest => (setField? new path i rest).map (v :: ·)

end

end Value

namespace Bindings

/-- As many unbound slots as a function has, and no open scope. -/
def new (slotCount : Nat) : Bindings := ⟨Array.replicate slotCount .unbound, []⟩

def depth (b : Bindings) : Nat := b.scopes.length

def slot? (b : Bindings) (slot : Nat) : Option Slot := b.slots[slot]?

/-- Forgets slots, and gives those that were live in order. -/
def releaseAll (slots : Array Slot) : List Nat → Array Slot × List Nat
  | [] => (slots, [])
  | slot :: rest =>
    let live := (slots[slot]?.map Slot.isLive).getD false
    let (slots, released) := releaseAll (slots.setIfInBounds slot .unbound) rest
    (slots, if live then slot :: released else released)

/-- Leaves every open scope, innermost first, and gives the released slots in order. -/
def exitAll (b : Bindings) : Bindings × List Nat :=
  let (slots, released) := releaseAll b.slots b.scopes.flatten
  (⟨slots, []⟩, released)

end Bindings

namespace BindingM

def enterScope : BindingM Unit := modify fun b => { b with scopes := [] :: b.scopes }

/-- The state of a slot that exists. -/
def slot (i : Nat) : BindingM Slot := do
  match (← get).slot? i with
  | some s => return s
  | none => throw (.outOfRange i)

def setSlot (i : Nat) (s : Slot) : BindingM Unit :=
  modify fun b => { b with slots := b.slots.setIfInBounds i s }

/-- Binds a value in the innermost scope. -/
def declare (i : Nat) (v : Value) : BindingM Unit := do
  if (← slot i).isLive then throw (.alreadyLive i)
  if (← get).scopes.isEmpty then throw .noScope
  modify fun b =>
    { slots := b.slots.setIfInBounds i (.live v)
      scopes := b.scopes.modifyHead fun scope => i :: scope }

/-- A copy of the value of a live binding. -/
def load (i : Nat) : BindingM Value := do
  match ← slot i with
  | .live v => return v
  | .unbound => throw (.notLive i)
  | .freed | .moved => throw (.alreadyReleased i)

def store (i : Nat) (v : Value) : BindingM Unit := do
  let _ ← load i
  setSlot i (.live v)

/-- Replaces a part of a live binding. -/
def storeField (i : Nat) (path : List Nat) (v : Value) : BindingM Unit := do
  match Value.setPath? v path (← load i) with
  | some whole => setSlot i (.live whole)
  | none => throw .badPath

def free (i : Nat) : BindingM Unit := do
  let _ ← load i
  setSlot i .freed

/-- Moves the value out of a binding. -/
def take (i : Nat) : BindingM Value := do
  let v ← load i
  setSlot i .moved
  return v

/-- Leaves the innermost scope and gives the released slots in order. -/
def exitScope : BindingM (List Nat) := do
  match (← get).scopes with
  | [] => throw .noScope
  | scope :: outer =>
    modifyGet fun b =>
      let (slots, released) := Bindings.releaseAll b.slots scope
      (released, ⟨slots, outer⟩)

/-- Binds arguments to the first slots. -/
def declareArgs (first : Nat) : List Value → BindingM Unit
  | [] => return ()
  | v :: rest => do
    declare first v
    declareArgs (first + 1) rest

end BindingM

end ScopedScript
