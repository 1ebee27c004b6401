import ScopedScript.Proofs.Machine.BindingHistory

/-!
# Values and states of slots, apart

Bindings may be kept in two arrays, one for the values of the slots and one for their states. Then
it takes work to drop the value of a slot that is released: null is put in its place. Such an
allocator answers every operation as bindings do whose slots hold a value only while they are live,
so what their histories tell is true of it, and it keeps null for every slot that is not live.
-/

namespace ScopedScript

/-- The state of a slot without its value. -/
inductive Liveness
  | unbound
  | live
  | freed
  | moved
deriving DecidableEq, Repr

/-- The slot in this state, if this value is stored for it. -/
def Liveness.slot (v : Value) : Liveness → Slot
  | unbound => .unbound
  | live => .live v
  | freed => .freed
  | moved => .moved

structure Allocator where
  values : Array Value
  liveness : Array Liveness
  /-- The slots that each open scope declared: innermost scope first, latest slot first. -/
  scopes : List (List Nat)

/-- Operations on an allocator. -/
abbrev AllocatorM := EStateM SlotError Allocator

namespace Allocator

def new (n : Nat) : Allocator := ⟨Array.replicate n .null, Array.replicate n .unbound, []⟩

/-- The value that is stored for a slot. There are as many values as states, so that one is there
for every slot that has a state. -/
def value (a : Allocator) (i : Nat) : Value := a.values[i]?.getD .null

def isLive (a : Allocator) (i : Nat) : Bool := a.liveness[i]? = some .live

/-- Values as bindings have them: those of live slots. -/
def bindings (a : Allocator) : Bindings where
  slots := a.liveness.mapIdx fun i l => l.slot (a.value i)
  scopes := a.scopes

end Allocator

namespace AllocatorM

def enterScope : AllocatorM Unit := modify fun a => { a with scopes := [] :: a.scopes }

/-- The state of a slot that exists. -/
def state (i : Nat) : AllocatorM Liveness := do
  match (← get).liveness[i]? with
  | some l => return l
  | none => throw (.outOfRange i)

def requireLive (i : Nat) : AllocatorM Unit := do
  match ← state i with
  | .live => return ()
  | .unbound => throw (.notLive i)
  | .freed | .moved => throw (.alreadyReleased i)

def setValue (i : Nat) (v : Value) : AllocatorM Unit :=
  modify fun a => { a with values := a.values.setIfInBounds i v }

def setState (i : Nat) (l : Liveness) : AllocatorM Unit :=
  modify fun a => { a with liveness := a.liveness.setIfInBounds i l }

/-- Binds a value in the innermost scope. -/
def declare (i : Nat) (v : Value) : AllocatorM Unit := do
  if (← state i) = .live then throw (.alreadyLive i)
  match (← get).scopes with
  | [] => throw .noScope
  | scope :: outer =>
    modify fun a => { a with scopes := (i :: scope) :: outer }
    setValue i v
    setState i .live

/-- A copy of the value of a live binding. -/
def load (i : Nat) : AllocatorM Value := do
  requireLive i
  return (← get).value i

def store (i : Nat) (v : Value) : AllocatorM Unit := do
  requireLive i
  setValue i v

/-- Replaces a part of a live binding. -/
def storeField (i : Nat) (path : List Nat) (v : Value) : AllocatorM Unit := do
  requireLive i
  match Value.setPath? v path ((← get).value i) with
  | some whole => setValue i whole
  | none => throw .badPath

/-- Releases a live binding, and gives the value that it had. -/
def release (i : Nat) (l : Liveness) : AllocatorM Value := do
  requireLive i
  setState i l
  let v := (← get).value i
  setValue i .null
  return v

def free (i : Nat) : AllocatorM Unit := do
  let _ ← release i .freed

/-- Moves the value out of a binding. -/
def take (i : Nat) : AllocatorM Value := release i .moved

/-- Forgets slots, and gives those that were live in order. -/
def forget : List Nat → AllocatorM (List Nat)
  | [] => return []
  | i :: rest => do
    if (← get).isLive i then
      setValue i .null
      setState i .unbound
      return i :: (← forget rest)
    else
      setState i .unbound
      forget rest

/-- Leaves the innermost scope and gives the released slots in order. -/
def exitScope : AllocatorM (List Nat) := do
  match (← get).scopes with
  | [] => throw .noScope
  | scope :: outer =>
    modify fun a => { a with scopes := outer }
    forget scope

/-- Leaves these scopes, which are open, innermost first. -/
def exitEach : List (List Nat) → AllocatorM (List Nat)
  | [] => return []
  | _ :: outer => do
    let released ← exitScope
    return released ++ (← exitEach outer)

/-- Leaves every open scope, innermost first, and gives the released slots in order. -/
def exitAll : AllocatorM (List Nat) := do exitEach (← get).scopes

end AllocatorM

/-- The operation, carried out on an allocator. -/
def BindingOp.allocate : BindingOp → AllocatorM BindingReply
  | enterScope => do
    AllocatorM.enterScope
    return .done
  | declare slot v => do
    AllocatorM.declare slot v
    return .done
  | load slot => return .value (← AllocatorM.load slot)
  | store slot v => do
    AllocatorM.store slot v
    return .done
  | storeField slot path v => do
    AllocatorM.storeField slot path v
    return .done
  | free slot => do
    AllocatorM.free slot
    return .done
  | take slot => return .value (← AllocatorM.take slot)
  | exitScope => return .released (← AllocatorM.exitScope)
  | exitAll => return .released (← AllocatorM.exitAll)

/-- What is written down of an operation, and the allocator after it. -/
def BindingOp.performOn (op : BindingOp) (a : Allocator) : BindingRecord × Allocator :=
  match op.allocate a with
  | .ok reply a => (⟨op, .ok reply⟩, a)
  | .error e a => (⟨op, .error e⟩, a)

/-- The allocator after operations on `n` fresh slots, with the record of each operation, newest
first. -/
inductive Allocator.History (n : Nat) : List BindingRecord → Allocator → Prop
  | new : History n [] (.new n)
  | next {log : List BindingRecord} {a : Allocator} (h : History n log a) (op : BindingOp) :
    History n ((op.performOn a).1 :: log) (op.performOn a).2

namespace Allocator

variable {a : Allocator} {i j : Nat} {l : Liveness} {v : Value} {n : Nat} {log : List BindingRecord}

theorem slots_bindings (a : Allocator) (i : Nat) :
    a.bindings.slots[i]? = a.liveness[i]?.map (Liveness.slot (a.value i)) :=
  Array.getElem?_mapIdx

theorem isLive_bindings (a : Allocator) (i : Nat) : a.bindings.isLive i = a.isLive i := by
  rw [Bindings.isLive, slots_bindings, isLive]
  rcases a.liveness[i]? with _ | _ | _ <;> rfl

theorem bindings_new (n : Nat) : (new n).bindings = .new n := by
  simp only [bindings, new, Bindings.new, Bindings.mk.injEq, and_true]
  ext i hi hi' <;> simp [Liveness.slot]

/-- A slot with this state and this value. -/
def put (a : Allocator) (i : Nat) (l : Liveness) (v : Value) : Allocator :=
  { a with values := a.values.setIfInBounds i v, liveness := a.liveness.setIfInBounds i l }

/-! ## What every operation keeps -/

/-- Each slot has a state and a value, which is null unless the slot is live, and scopes list only
slots that exist. -/
structure Kept (n : Nat) (a : Allocator) : Prop where
  values : a.values.size = n
  liveness : a.liveness.size = n
  null : ∀ i, a.isLive i = false → a.value i = .null
  slots : ∀ i ∈ a.scopes.flatten, i < n

theorem Kept.new (n : Nat) : (Allocator.new n).Kept n := by
  refine ⟨Array.size_replicate, Array.size_replicate, fun i _ => ?_, fun i hi => ?_⟩
  · rw [value, Allocator.new, Array.getElem?_replicate]
    split <;> rfl
  · cases hi

theorem value_put (h : a.Kept n) (hi : i < n) :
    (a.put i l v).value j = if i = j then v else a.value j := by
  rw [value, put, Array.getElem?_setIfInBounds]
  split
  · rename_i hij
    rw [if_pos (h.values ▸ hij ▸ hi)]
    rfl
  · rfl

theorem liveness_put (h : a.Kept n) (hi : i < n) :
    (a.put i l v).liveness[j]? = if i = j then some l else a.liveness[j]? := by
  rw [put, Array.getElem?_setIfInBounds]
  split
  · rename_i hij
    rw [if_pos (h.liveness ▸ hij ▸ hi)]
  · rfl

theorem Kept.put (h : a.Kept n) (hi : i < n) (hv : l ≠ .live → v = .null) :
    (a.put i l v).Kept n := by
  refine ⟨Array.size_setIfInBounds.trans h.values, Array.size_setIfInBounds.trans h.liveness,
    fun j hj => ?_, h.slots⟩
  rw [isLive, liveness_put h hi] at hj
  rw [value_put h hi]
  by_cases hij : i = j
  · rw [if_pos hij] at hj ⊢
    exact hv fun hl => by simp [hl] at hj
  · rw [if_neg hij] at hj ⊢
    exact h.null j hj

theorem bindings_put (h : a.Kept n) (hi : i < n) :
    (a.put i l v).bindings = a.bindings.withSlot i (l.slot v) := by
  have hsize : a.bindings.slots.size = n := Array.size_mapIdx.trans h.liveness
  refine congrArg (Bindings.mk · a.scopes) (Array.ext_getElem? fun j => ?_)
  change (a.put i l v).bindings.slots[j]? = (a.bindings.withSlot i (l.slot v)).slots[j]?
  rw [slots_bindings, liveness_put h hi, value_put h hi, Bindings.slots_withSlot, hsize]
  split
  · rename_i hij
    rw [if_pos ⟨hij, hij ▸ hi⟩]
    rfl
  · rename_i hij
    rw [if_neg fun hj => hij hj.1, slots_bindings]

theorem Kept.lt_of_live (h : a.Kept n) (hl : a.isLive i = true) : i < n := by
  obtain ⟨hi, -⟩ := Array.getElem?_eq_some_iff.1 (of_decide_eq_true hl)
  exact h.liveness ▸ hi

end Allocator

/-! ## Operations, on an allocator and on bindings -/

/-- The results are the same, and the bindings are those of the allocator. -/
inductive Allocator.Agrees (n : Nat) : EStateM.Result SlotError Allocator α →
    EStateM.Result SlotError Bindings α → Prop
  | ok (r : α) {a : Allocator} (h : a.Kept n) : Agrees n (.ok r a) (.ok r a.bindings)
  | error (e : SlotError) {a : Allocator} (h : a.Kept n) :
    Agrees n (.error e a) (.error e a.bindings)

theorem Allocator.Agrees.of_ok {n : Nat} {x : EStateM.Result SlotError Allocator α} {r : α}
    {b : Bindings} (h : Agrees n x (.ok r b)) : ∃ a, x = .ok r a ∧ a.bindings = b := by
  cases h with
  | ok r h => exact ⟨_, rfl, rfl⟩

namespace AllocatorM

open Allocator

variable {a : Allocator} {i n : Nat} {v : Value}

theorem bind_apply (x : AllocatorM α) (f : α → AllocatorM β) (a : Allocator) :
    (x >>= f) a = match x a with
      | .ok r a' => f r a'
      | .error e a' => .error e a' := by
  change EStateM.bind x f a = _
  unfold EStateM.bind
  cases x a <;> rfl

theorem get_apply (a : Allocator) : (get : AllocatorM Allocator) a = .ok a a := rfl

theorem state_apply (i : Nat) (a : Allocator) :
    state i a = match a.liveness[i]? with
      | some l => .ok l a
      | none => .error (.outOfRange i) a := by
  rw [state, bind_apply]
  change (match a.liveness[i]? with
    | some l => pure l
    | none => throw (.outOfRange i) : AllocatorM Liveness) a = _
  cases a.liveness[i]? <;> rfl

theorem requireLive_apply (i : Nat) (a : Allocator) :
    requireLive i a = match a.liveness[i]? with
      | some .live => .ok () a
      | some .unbound => .error (.notLive i) a
      | some _ => .error (.alreadyReleased i) a
      | none => .error (.outOfRange i) a := by
  rw [requireLive, bind_apply, state_apply]
  rcases a.liveness[i]? with _ | _ | _ <;> rfl

end AllocatorM

/-- What is done with the answer does not matter. -/
theorem Allocator.Agrees.map {n : Nat} {x : AllocatorM α} {y : BindingM α} {a : Allocator}
    {b : Bindings} (h : Agrees n (x a) (y b)) (g : α → β) :
    Agrees n ((do return g (← x)) a) ((do return g (← y)) b) := by
  rw [AllocatorM.bind_apply, BindingM.bind_apply]
  generalize x a = r at h
  generalize y b = r' at h
  cases h with
  | ok r h => exact .ok _ h
  | error e h => exact .error e h

namespace Allocator

open AllocatorM

variable {a : Allocator} {i n : Nat} {l : Liveness} {v : Value}

/-- A live slot is found by both, and why another one is not by both in the same way. -/
theorem requireLive_cases (i : Nat) (a : Allocator) :
    a.isLive i = true ∧ requireLive i a = .ok () a ∧
        BindingM.load i a.bindings = .ok (a.value i) a.bindings ∨
      ∃ e, requireLive i a = .error e a ∧ BindingM.load i a.bindings = .error e a.bindings := by
  rw [requireLive_apply, BindingM.load_apply, slots_bindings, isLive]
  cases a.liveness[i]? with
  | none => exact .inr ⟨_, rfl, rfl⟩
  | some l =>
    cases l with
    | live => exact .inl ⟨by simp, rfl, rfl⟩
    | _ => exact .inr ⟨_, rfl, rfl⟩

theorem put_live (h : a.isLive i = true) :
    a.put i .live v = { a with values := a.values.setIfInBounds i v } := by
  refine congrArg (Allocator.mk _ · _) (Array.ext_getElem? fun j => ?_)
  rw [Array.getElem?_setIfInBounds]
  split
  · rename_i hij
    have hlive : a.liveness[i]? = some .live := of_decide_eq_true h
    rw [if_pos (Array.getElem?_eq_some_iff.1 hlive).1, ← hij, hlive]
  · rfl

theorem put_null (h : a.Kept n) (hl : a.isLive i = false) :
    a.put i l .null = { a with liveness := a.liveness.setIfInBounds i l } := by
  refine congrArg (Allocator.mk · _ _) (Array.ext_getElem? fun j => ?_)
  rw [Array.getElem?_setIfInBounds]
  split
  · rename_i hij
    subst hij
    have hnull := h.null i hl
    rw [value] at hnull
    split
    · rename_i hi
      rw [Array.getElem?_eq_getElem hi] at hnull ⊢
      exact congrArg some hnull.symm
    · rename_i hi
      exact (Array.getElem?_eq_none (Nat.le_of_not_lt hi)).symm
  · rfl

/-- Another value for a live slot. -/
theorem Kept.agrees_setValue (h : a.Kept n) (hl : a.isLive i = true) :
    Agrees n (setValue i v a) (BindingM.setSlot i (.live v) a.bindings) := by
  change Agrees n (.ok () { a with values := a.values.setIfInBounds i v })
    (.ok () (a.bindings.withSlot i (Liveness.live.slot v)))
  rw [← put_live hl, ← bindings_put h (h.lt_of_live hl)]
  exact .ok () (h.put (h.lt_of_live hl) fun hne => absurd rfl hne)

theorem Kept.agrees_declare (h : a.Kept n) (i : Nat) (v : Value) :
    Agrees n (declare i v a) (BindingM.declare i v a.bindings) := by
  rw [declare, BindingM.declare, bind_apply, state_apply, BindingM.bind_apply, BindingM.slot_apply,
    slots_bindings]
  cases hi : a.liveness[i]? with
  | none => exact .error _ h
  | some l =>
    have hlt : i < n := h.liveness ▸ (Array.getElem?_eq_some_iff.1 hi).1
    rw [Option.map_some]
    dsimp only
    by_cases hl : l = .live
    · subst hl
      exact .error _ h
    · -- the slot is free, so that all turns on whether a scope is open
      have hdead : (l.slot (a.value i)).isLive = false := by
        cases l with
        | live => exact absurd rfl hl
        | _ => rfl
      rw [if_neg hl, hdead, if_neg Bool.false_ne_true, bind_apply, BindingM.bind_apply]
      obtain ⟨values, liveness, scopes⟩ := a
      cases scopes with
      | nil => exact .error _ h
      | cons scope outer =>
        have hopen : Kept n ⟨values, liveness, (i :: scope) :: outer⟩ := by
          refine ⟨h.values, h.liveness, h.null, fun j hj => ?_⟩
          rcases List.mem_cons.1 hj with rfl | hj
          · exact hlt
          · exact h.slots j hj
        have hagrees :=
          Agrees.ok (n := n) () (hopen.put (l := .live) (v := v) hlt fun hne => absurd rfl hne)
        rw [bindings_put hopen hlt] at hagrees
        exact hagrees

theorem Kept.agrees_load (h : a.Kept n) (i : Nat) :
    Agrees n (load i a) (BindingM.load i a.bindings) := by
  rw [load, bind_apply]
  rcases requireLive_cases i a with ⟨-, hr, hb⟩ | ⟨e, hr, hb⟩ <;> rw [hr, hb]
  · exact .ok _ h
  · exact .error e h

theorem Kept.agrees_store (h : a.Kept n) (i : Nat) (v : Value) :
    Agrees n (store i v a) (BindingM.store i v a.bindings) := by
  rw [store, bind_apply, BindingM.store, BindingM.bind_apply]
  rcases requireLive_cases i a with ⟨hl, hr, hb⟩ | ⟨e, hr, hb⟩ <;> rw [hr, hb]
  · exact h.agrees_setValue hl
  · exact .error e h

theorem Kept.agrees_storeField (h : a.Kept n) (i : Nat) (path : List Nat) (v : Value) :
    Agrees n (storeField i path v a) (BindingM.storeField i path v a.bindings) := by
  rw [storeField, bind_apply, BindingM.storeField, BindingM.bind_apply]
  rcases requireLive_cases i a with ⟨hl, hr, hb⟩ | ⟨e, hr, hb⟩ <;> rw [hr, hb]
  · change Agrees n
      ((match Value.setPath? v path (a.value i) with
        | some whole => setValue i whole
        | none => throw .badPath : AllocatorM Unit) a)
      ((match Value.setPath? v path (a.value i) with
        | some whole => BindingM.setSlot i (.live whole)
        | none => throw .badPath : BindingM Unit) a.bindings)
    cases Value.setPath? v path (a.value i) with
    | some whole => exact h.agrees_setValue hl
    | none => exact .error _ h
  · exact .error e h

/-- A live slot is given another state, and its value is dropped. -/
theorem Kept.release_cases (h : a.Kept n) (i : Nat) (l : Liveness) :
    (∃ b, release i l a = .ok (a.value i) b ∧ b.Kept n ∧
        BindingM.load i a.bindings = .ok (a.value i) a.bindings ∧
        BindingM.setSlot i (l.slot .null) a.bindings = .ok () b.bindings) ∨
      ∃ e, release i l a = .error e a ∧ BindingM.load i a.bindings = .error e a.bindings := by
  rw [release, bind_apply]
  rcases requireLive_cases i a with ⟨hlive, hr, hb⟩ | ⟨e, hr, hb⟩
  · have hi := h.lt_of_live hlive
    rw [hr, hb]
    refine .inl ⟨a.put i l .null, rfl, h.put hi fun _ => rfl, rfl, ?_⟩
    rw [bindings_put h hi]
    rfl
  · exact .inr ⟨e, by rw [hr], hb⟩

theorem Kept.agrees_free (h : a.Kept n) (i : Nat) :
    Agrees n (free i a) (BindingM.free i a.bindings) := by
  rw [free, bind_apply, BindingM.free, BindingM.bind_apply]
  rcases h.release_cases i .freed with ⟨b, hr, hk, hb, hset⟩ | ⟨e, hr, hb⟩ <;> rw [hr, hb]
  · change Agrees n (.ok () b) (BindingM.setSlot i .freed a.bindings)
    rw [show BindingM.setSlot i .freed a.bindings = .ok () b.bindings from hset]
    exact .ok () hk
  · exact .error e h

theorem Kept.agrees_take (h : a.Kept n) (i : Nat) :
    Agrees n (take i a) (BindingM.take i a.bindings) := by
  rw [take, BindingM.take, BindingM.bind_apply]
  rcases h.release_cases i .moved with ⟨b, hr, hk, hb, hset⟩ | ⟨e, hr, hb⟩ <;> rw [hr, hb]
  · dsimp only
    rw [BindingM.bind_apply, show BindingM.setSlot i .moved a.bindings =
      .ok () b.bindings from hset]
    exact .ok _ hk
  · exact .error e h

/-- Slots are forgotten alike. -/
theorem Kept.forget_apply (h : a.Kept n) (slots : List Nat) (hslots : ∀ i ∈ slots, i < n) :
    ∃ b, forget slots a = .ok (Bindings.releaseAll a.bindings.slots slots).2 b ∧ b.Kept n ∧
      b.bindings = ⟨(Bindings.releaseAll a.bindings.slots slots).1, a.scopes⟩ := by
  induction slots generalizing a with
  | nil => exact ⟨a, rfl, h, rfl⟩
  | cons i rest ih =>
    have hi : i < n := hslots i List.mem_cons_self
    obtain ⟨b, hb, hk, hbindings⟩ := ih (h.put (l := .unbound) hi fun _ => rfl)
      fun j hj => hslots j (List.mem_cons_of_mem i hj)
    have hslots' : (a.put i .unbound .null).bindings.slots =
        a.bindings.slots.setIfInBounds i .unbound :=
      congrArg Bindings.slots (bindings_put h hi)
    rw [hslots'] at hb hbindings
    refine ⟨b, ?_, hk, hbindings⟩
    have hlive : (a.bindings.slots[i]?.map Slot.isLive).getD false = a.isLive i :=
      isLive_bindings a i
    rw [forget, bind_apply, get_apply]
    simp only [Bindings.releaseAll, hlive]
    -- a slot that is not live keeps its value, which is null already
    cases hl : a.isLive i with
    | true =>
      change (do return i :: (← forget rest) : AllocatorM (List Nat)) (a.put i .unbound .null) = _
      rw [bind_apply, hb]
      rfl
    | false =>
      rw [put_null h hl] at hb
      exact hb

theorem Kept.exitScope_apply (h : a.Kept n) {scope : List Nat} {outer : List (List Nat)}
    (hs : a.scopes = scope :: outer) :
    ∃ b, exitScope a = .ok (Bindings.releaseAll a.bindings.slots scope).2 b ∧ b.Kept n ∧
      b.bindings = ⟨(Bindings.releaseAll a.bindings.slots scope).1, outer⟩ := by
  obtain ⟨values, liveness, scopes⟩ := a
  cases hs
  have hleft : Kept n ⟨values, liveness, outer⟩ :=
    ⟨h.values, h.liveness, h.null, fun i hi => h.slots i (List.mem_append_right scope hi)⟩
  exact hleft.forget_apply scope fun i hi => h.slots i (List.mem_append_left _ hi)

theorem Kept.agrees_exitScope (h : a.Kept n) :
    Agrees n (exitScope a) (BindingM.exitScope a.bindings) := by
  cases hs : a.scopes with
  | nil =>
    obtain ⟨values, liveness, scopes⟩ := a
    cases hs
    exact .error _ h
  | cons scope outer =>
    obtain ⟨b, hb, hk, hbindings⟩ := h.exitScope_apply hs
    have hexit : BindingM.exitScope a.bindings =
        .ok (Bindings.releaseAll a.bindings.slots scope).2 b.bindings := by
      rw [hbindings, BindingM.exitScope, BindingM.bind_apply, BindingM.get_apply]
      dsimp only
      rw [show a.bindings.scopes = scope :: outer from hs]
      rfl
    rw [hb, hexit]
    exact .ok _ hk

/-- One scope after the other is left, as if their slots were declared in one. -/
theorem Kept.exitEach_apply (h : a.Kept n) :
    ∃ b, exitEach a.scopes a = .ok (Bindings.releaseAll a.bindings.slots a.scopes.flatten).2 b ∧
      b.Kept n ∧ b.bindings = ⟨(Bindings.releaseAll a.bindings.slots a.scopes.flatten).1, []⟩ := by
  -- by induction on the open scopes: after each of them the allocator is in order again
  generalize hs : a.scopes = scopes
  induction scopes generalizing a with
  | nil =>
    refine ⟨a, rfl, h, ?_⟩
    rw [bindings, hs]
    rfl
  | cons scope outer ih =>
    obtain ⟨c, hc, hk, hbindings⟩ := h.exitScope_apply hs
    obtain ⟨b, hb, hkb, hbb⟩ := ih hk (congrArg Bindings.scopes hbindings)
    rw [congrArg Bindings.slots hbindings] at hb hbb
    refine ⟨b, ?_, hkb, ?_⟩
    · rw [exitEach, bind_apply, hc]
      dsimp only
      rw [bind_apply, hb, List.flatten_cons, Bindings.releaseAll_append]
      rfl
    · rw [hbb, List.flatten_cons, Bindings.releaseAll_append]

theorem Kept.agrees_exitAll (h : a.Kept n) :
    Agrees n (exitAll a)
      ((modifyGet fun b => (b.exitAll.2, b.exitAll.1) : BindingM (List Nat)) a.bindings) := by
  obtain ⟨b, hb, hk, hbindings⟩ := h.exitEach_apply
  change Agrees n (exitAll a) (.ok a.bindings.exitAll.2 a.bindings.exitAll.1)
  rw [exitAll, bind_apply, get_apply]
  dsimp only
  rw [hb, show a.bindings.exitAll.1 = b.bindings from hbindings.symm]
  exact .ok _ hk

end Allocator

/-- An operation on an allocator is answered as it is on its bindings, and leaves the allocator in
order. -/
theorem BindingOp.agrees_allocate {n : Nat} {a : Allocator} (h : a.Kept n) (op : BindingOp) :
    Allocator.Agrees n (op.allocate a) (op.run a.bindings) := by
  cases op with
  | enterScope =>
    exact .ok (a := { a with scopes := [] :: a.scopes }) _ ⟨h.values, h.liveness, h.null, h.slots⟩
  | declare i v => exact (h.agrees_declare i v).map fun _ => BindingReply.done
  | load i => exact (h.agrees_load i).map BindingReply.value
  | store i v => exact (h.agrees_store i v).map fun _ => BindingReply.done
  | storeField i path v => exact (h.agrees_storeField i path v).map fun _ => BindingReply.done
  | free i => exact (h.agrees_free i).map fun _ => BindingReply.done
  | take i => exact (h.agrees_take i).map BindingReply.value
  | exitScope => exact h.agrees_exitScope.map BindingReply.released
  | exitAll => exact h.agrees_exitAll.map BindingReply.released

/-- An operation on an allocator is recorded as it is on its bindings. -/
theorem BindingOp.performOn_spec {n : Nat} {a : Allocator} (h : a.Kept n) (op : BindingOp) :
    (op.performOn a).2.Kept n ∧
      op.perform a.bindings = ((op.performOn a).1, (op.performOn a).2.bindings) := by
  have hagrees := op.agrees_allocate h
  rw [performOn, perform]
  generalize op.allocate a = r at hagrees
  generalize op.run a.bindings = r' at hagrees
  cases hagrees with
  | ok r h => exact ⟨h, rfl⟩
  | error e h => exact ⟨h, rfl⟩

namespace Allocator

variable {a : Allocator} {n : Nat} {log : List BindingRecord}

theorem History.kept (h : History n log a) : a.Kept n := by
  induction h with
  | new => exact .new n
  | next _ op ih => exact (op.performOn_spec ih).1

/-- The same operations on fresh bindings give the same answers, and lead to the bindings that the
allocator keeps. -/
theorem History.bindings (h : History n log a) : Bindings.History n log a.bindings := by
  induction h with
  | new =>
    rw [bindings_new]
    exact .new
  | next h op ih =>
    have hnext := ih.next op
    rwa [(op.performOn_spec h.kept).2] at hnext

end Allocator

/-- Bindings that operations on fresh slots lead to are kept by an allocator after the same
operations. -/
theorem Bindings.History.allocated {n : Nat} {log : List BindingRecord} {b : Bindings}
    (h : History n log b) : ∃ a, Allocator.History n log a ∧ a.bindings = b := by
  induction h with
  | new => exact ⟨.new n, .new, Allocator.bindings_new n⟩
  | next _ op ih =>
    obtain ⟨a, ha, rfl⟩ := ih
    refine ⟨(op.performOn a).2, ?_, ?_⟩
    · rw [(op.performOn_spec ha.kept).2]
      exact ha.next op
    · rw [(op.performOn_spec ha.kept).2]

namespace Allocator

variable {a : Allocator} {n : Nat} {log : List BindingRecord}

/-- What the history of an allocator tells of it. -/
structure Accounted (n : Nat) (log : List BindingRecord) (a : Allocator) : Prop where
  sizes : a.values.size = n ∧ a.liveness.size = n
  /-- A slot that is not live holds null. -/
  null : ∀ (i : Nat) (l : Liveness) (v : Value), a.liveness[i]? = some l → l ≠ .live →
    a.values[i]? = some v → v = .null
  /-- Scopes list all declarations that were made in them. -/
  scopes : a.scopes = (openDeclarations log).map (·.map SlotDeclaration.slot)
  /-- The newest declaration of a live slot in the open scopes has made it live. -/
  newest : ∀ i, a.isLive i = true → ∃ d : SlotDeclaration, d.slot = i ∧ d.Stands log ∧
    (openDeclarations log).flatten.find? (·.slot == i) = some d
  balanced : ∀ i, (log.filterMap BindingRecord.declared?).count i =
    (log.filterMap BindingRecord.freed?).count i + (log.filterMap BindingRecord.taken?).count i +
      (log.flatMap BindingRecord.returned).count i + (a.isLive i).toNat
  exitScope : ∀ scope outer, standing log = scope :: outer → ∃ slots a',
    AllocatorM.exitScope a = .ok slots a' ∧ SlotDeclaration.Reversed scope slots
  exitAll : ∃ slots a', AllocatorM.exitAll a = .ok slots a' ∧
    SlotDeclaration.Reversed (standing log).flatten slots ∧ a'.scopes = [] ∧
      ∀ i, a'.isLive i = false

/-- After any operations on fresh slots, failed ones among them, the allocator is as their history
tells. The same operations give the same answers on bindings, and the allocator keeps what the
bindings are. -/
theorem History.accounted (h : History n log a) :
    Accounted n log a ∧ Bindings.History n log a.bindings := by
  have hb := h.bindings
  refine ⟨⟨⟨h.kept.values, h.kept.liveness⟩, fun i l v hl hne hv => ?_, hb.tracks.scopes,
    fun i hi => ?_, fun i => ?_, fun scope outer hstanding => ?_, ?_⟩, hb⟩
  · have hdead : a.isLive i = false := by
      rw [isLive, hl]
      exact decide_eq_false fun h => hne (Option.some.inj h)
    have hnull := h.kept.null i hdead
    rw [value, hv] at hnull
    exact hnull
  · exact hb.newest ((isLive_bindings a i).trans hi)
  · rw [← isLive_bindings]
    exact hb.balanced i
  · obtain ⟨slots, b, hexit, hreversed⟩ := hb.reversed_exitScope hstanding
    have hagrees := h.kept.agrees_exitScope
    rw [hexit] at hagrees
    obtain ⟨a', ha', -⟩ := hagrees.of_ok
    exact ⟨slots, a', ha', hreversed⟩
  · obtain ⟨a', ha', hleft⟩ := h.kept.agrees_exitAll.of_ok
    refine ⟨_, a', ha', hb.reversed_exitAll, congrArg Bindings.scopes hleft, fun i => ?_⟩
    rw [← isLive_bindings, hleft, Bool.eq_false_iff]
    exact fun hi => Bindings.not_live_exitAll hb.tracks.scoped (Bindings.isLive_iff.1 hi)

/-- A slot that was freed and declared again is released once, by its newer declaration, and one
that was moved out holds null. -/
theorem redeclared_accounted : ∃ log a, History 3 log a ∧ a.scopes = [[0, 2, 1, 0]] ∧
    a.values[2]? = some .null ∧ ∃ a', AllocatorM.exitScope a = .ok [0, 1] a' := by
  have h := (((((((History.new (n := 3)).next .enterScope).next (.declare 0 (.int 1))).next
    (.free 0)).next (.declare 1 (.int 2))).next (.declare 2 (.int 3))).next (.take 2)).next
      (.declare 0 (.int 4))
  obtain ⟨haccounted, -⟩ := h.accounted
  -- the scope lists slot 0 twice and slot 2, but these are the declarations that stand
  obtain ⟨slots, a', hexit, hreversed⟩ := haccounted.exitScope [⟨0, 6⟩, ⟨1, 3⟩] [] (by decide)
  rw [hreversed.slots_eq] at hexit
  have hnull := haccounted.null 2 .moved _ rfl (by decide) rfl
  exact ⟨_, _, h, rfl, congrArg some hnull, a', hexit⟩

end Allocator

end ScopedScript
