import ScopedScript.Compile.Emit
import ScopedScript.Proofs.Typing.Bare

/-!
# Code without early releases

The bare form of a function lacks its `free` instructions. What stands behind them moves up, and
jumps lead to where their targets have gone. While code is being written this concerns its lines,
and the starts of the loops around.
-/

namespace ScopedScript

/-- What a filter keeps stands behind all that it keeps from before. -/
theorem getElem?_filter_countP {p : α → Bool} {xs : List α} {k : Nat} {a : α} (h : xs[k]? = some a)
    (ha : p a = true) : (xs.filter p)[(xs.take k).countP p]? = some a := by
  induction xs generalizing k with
  | nil => cases h
  | cons x rest ih =>
    cases k with
    | zero =>
      cases h
      simp [ha]
    | succ k =>
      have hk := ih h
      rw [List.take_succ_cons, List.filter_cons, List.countP_cons]
      split
      · simpa using hk
      · simpa using hk

theorem countP_take_succ {p : α → Bool} {xs : List α} {k : Nat} {a : α} (h : xs[k]? = some a) :
    (xs.take (k + 1)).countP p = (xs.take k).countP p + if p a then 1 else 0 := by
  rw [List.take_add_one, h, List.countP_append]
  simp [List.countP_cons]

namespace Instr

/-- Only a `free` is taken out. -/
def stays : Instr → Bool
  | free _ => false
  | _ => true

/-- A jump to where its target has gone. -/
def retarget (g : Nat → Nat) : Instr → Instr
  | jump target => jump (g target)
  | jumpIfFalse target => jumpIfFalse (g target)
  | jumpIfTrue target => jumpIfTrue (g target)
  | i => i

end Instr

namespace FunctionCode

variable {f : FunctionCode} {ip : Nat} {i : Instr}

/-- Where an address goes when the `free` instructions before it are taken out. -/
def bareAddress (f : FunctionCode) (ip : Nat) : Nat := (f.code.toList.take ip).countP Instr.stays

def bare (f : FunctionCode) : FunctionCode where
  name := f.name
  arity := f.arity
  slotCount := f.slotCount
  slotNames := f.slotNames
  paramTags := f.paramTags
  isAsync := f.isAsync
  captures := f.captures
  code := ((f.code.toList.filter Instr.stays).map (Instr.retarget f.bareAddress)).toArray
  constants := f.constants
  spans := (((f.code.toList.zip f.spans.toList).filter fun l => l.1.stays).map Prod.snd).toArray

@[simp]
theorem bareAddress_zero (f : FunctionCode) : f.bareAddress 0 = 0 := rfl

theorem bareAddress_succ (hi : f.code[ip]? = some i) (hs : i.stays = true) :
    f.bareAddress (ip + 1) = f.bareAddress ip + 1 := by
  rw [← Array.getElem?_toList] at hi
  rw [bareAddress, countP_take_succ hi, if_pos hs]
  rfl

theorem bareAddress_succ_of_free (hi : f.code[ip]? = some i) (hs : i.stays = false) :
    f.bareAddress (ip + 1) = f.bareAddress ip := by
  rw [← Array.getElem?_toList] at hi
  rw [bareAddress, countP_take_succ hi, hs]
  rfl

theorem code_bare (hi : f.code[ip]? = some i) (hs : i.stays = true) :
    f.bare.code[f.bareAddress ip]? = some (i.retarget f.bareAddress) := by
  rw [← Array.getElem?_toList] at hi
  simp [bare, bareAddress, getElem?_filter_countP hi hs]

/-- Each instruction keeps its place in the source. -/
theorem spanAt_bare (hsize : f.spans.size = f.code.size) (hi : f.code[ip]? = some i)
    (hs : i.stays = true) : f.bare.spanAt (f.bareAddress ip) = f.spanAt ip := by
  obtain ⟨hlt, rfl⟩ := Array.getElem?_eq_some_iff.1 hi
  have hlt' : ip < f.spans.size := hsize ▸ hlt
  have hzip : (f.code.toList.zip f.spans.toList)[ip]? = some (f.code[ip], f.spans[ip]) := by
    rw [List.getElem?_zip_eq_some]
    simp [hlt, hlt']
  have hcount : ((f.code.toList.zip f.spans.toList).take ip).countP (fun l => l.1.stays) =
      f.bareAddress ip := by
    have hfst : ((f.code.toList.zip f.spans.toList).take ip).map Prod.fst =
        f.code.toList.take ip := by
      rw [List.map_take, List.map_fst_zip]
      simp [hsize]
    rw [bareAddress, ← hfst, List.countP_map]
    rfl
  have h := getElem?_filter_countP hzip (p := fun l => l.1.stays) hs
  rw [hcount] at h
  simp [spanAt, bare, h, hlt']

end FunctionCode

def Module.bare (m : Module) : Module := { m with functions := m.functions.map FunctionCode.bare }

/-! ## Lines -/

namespace Line

def stays (l : Line) : Bool := l.instr.stays

def retarget (g : Nat → Nat) (l : Line) : Line :=
  match l.step with
  | .instr i => .of (i.retarget g) l.span
  | _ => l

/-- A line of a body that lies in a loop or not: what is still pending is left for that loop. -/
def Fixed (inLoop : Bool) (l : Line) : Prop :=
  match l.step with
  | .instr _ => True
  | .leaveLoop => inLoop = true
  | .leaveBranch => False

/-- The same in a branch, which may also be left. -/
def FixedInBranch (inLoop : Bool) (l : Line) : Prop := l.step = .leaveBranch ∨ l.Fixed inLoop

variable {g : Nat → Nat} {l : Line} {inLoop : Bool}

@[simp]
theorem stays_of (i : Instr) (span : Option Span) : (of i span).stays = i.stays := rfl

@[simp]
theorem retarget_of (i : Instr) (span : Option Span) :
    (of i span).retarget g = of (i.retarget g) span := rfl

@[simp]
theorem retarget_leaveBranch (span : Option Span) :
    (leaveBranch span).retarget g = leaveBranch span := rfl

@[simp]
theorem stays_leaveLoop (span : Option Span) : (leaveLoop span).stays = true := rfl

@[simp]
theorem stays_leaveBranch (span : Option Span) : (leaveBranch span).stays = true := rfl

@[simp]
theorem stays_closeLoop (target : Nat) (l : Line) : (l.closeLoop target).stays = l.stays := by
  obtain ⟨step, span⟩ := l
  cases step <;> rfl

@[simp]
theorem stays_closeBranch (target : Nat) (l : Line) : (l.closeBranch target).stays = l.stays := by
  obtain ⟨step, span⟩ := l
  cases step <;> rfl

theorem retarget_closeLoop (target : Nat) (l : Line) :
    (l.closeLoop target).retarget g = (l.retarget g).closeLoop (g target) := by
  obtain ⟨step, span⟩ := l
  cases step <;> rfl

theorem retarget_closeBranch (target : Nat) (l : Line) :
    (l.closeBranch target).retarget g = (l.retarget g).closeBranch (g target) := by
  obtain ⟨step, span⟩ := l
  cases step <;> rfl

theorem Fixed.closeLoop (target : Nat) (h : l.Fixed true) : (l.closeLoop target).Fixed inLoop := by
  obtain ⟨step, span⟩ := l
  cases step
  · trivial
  · trivial
  · exact h

theorem FixedInBranch.closeBranch (target : Nat) (h : l.FixedInBranch inLoop) :
    (l.closeBranch target).Fixed inLoop := by
  obtain ⟨step, span⟩ := l
  cases step
  · trivial
  · exact h.resolve_left nofun
  · trivial

theorem instr_retarget (h : l.Fixed false) : (l.retarget g).instr = l.instr.retarget g := by
  obtain ⟨step, span⟩ := l
  cases step
  · rfl
  · cases h
  · exact h.elim

@[simp]
theorem span_retarget (l : Line) : (l.retarget g).span = l.span := by
  obtain ⟨step, span⟩ := l
  cases step <;> rfl

end Line

/-- The lines that stay, with their jumps retargeted. -/
def thin (g : Nat → Nat) (ls : List Line) : List Line :=
  (ls.filter Line.stays).map (Line.retarget g)

/-- The addresses of lines that start at an address go where the lines that stay put them. -/
def Agrees (g : Nat → Nat) (start : Nat) (ls : List Line) : Prop :=
  ∀ k ≤ ls.length, g (start + k) = g start + (ls.take k).countP Line.stays

section

variable {g : Nat → Nat} {start : Nat} {as bs ls : List Line}

@[simp]
theorem thin_nil : thin g [] = [] := rfl

@[simp]
theorem thin_append : thin g (as ++ bs) = thin g as ++ thin g bs := by
  simp [thin]

theorem thin_cons {l : Line} (hl : l.stays = true) :
    thin g (l :: ls) = l.retarget g :: thin g ls := by
  rw [thin, List.filter_cons, if_pos hl]
  rfl

theorem thin_jump (target : Nat) (span : Option Span) :
    thin g [.of (.jump target) span] = [.of (.jump (g target)) span] := rfl

theorem thin_jumpIfFalse (target : Nat) (span : Option Span) :
    thin g [.of (.jumpIfFalse target) span] = [.of (.jumpIfFalse (g target)) span] := rfl

theorem thin_leaveBranch (span : Option Span) :
    thin g [.leaveBranch span] = [.leaveBranch span] := rfl

theorem length_thin : (thin g ls).length = ls.countP Line.stays := by
  rw [thin, List.length_map, List.countP_eq_length_filter]

theorem thin_closeLoop (target : Nat) :
    thin g (ls.map (Line.closeLoop target)) = (thin g ls).map (Line.closeLoop (g target)) := by
  simp only [thin, List.filter_map, List.map_map]
  congr 1
  · exact funext fun l => Line.retarget_closeLoop target l
  · exact List.filter_congr fun l _ => Line.stays_closeLoop target l

theorem thin_closeBranch (target : Nat) :
    thin g (ls.map (Line.closeBranch target)) = (thin g ls).map (Line.closeBranch (g target)) := by
  simp only [thin, List.filter_map, List.map_map]
  congr 1
  · exact funext fun l => Line.retarget_closeBranch target l
  · exact List.filter_congr fun l _ => Line.stays_closeBranch target l

/-- Where the lines end. -/
theorem Agrees.stop (h : Agrees g start ls) :
    g (start + ls.length) = g start + (thin g ls).length := by
  rw [h _ (Nat.le_refl _), List.take_length, length_thin]

theorem agrees_append :
    Agrees g start (as ++ bs) ↔ Agrees g start as ∧ Agrees g (start + as.length) bs := by
  constructor
  · intro h
    have has : Agrees g start as := fun k hk => by
      have := h k (by rw [List.length_append]; omega)
      rwa [List.take_append_of_le_length hk] at this
    refine ⟨has, fun k hk => ?_⟩
    have := h (as.length + k) (by rw [List.length_append]; omega)
    rw [List.take_append, List.take_of_length_le (by omega), List.countP_append,
      show as.length + k - as.length = k by omega] at this
    rw [Nat.add_assoc, this, has _ (Nat.le_refl _), List.take_length, Nat.add_assoc]
  · rintro ⟨has, hbs⟩ k hk
    by_cases hle : k ≤ as.length
    · rw [List.take_append_of_le_length hle]
      exact has k hle
    · have := hbs (k - as.length) (by rw [List.length_append] at hk; omega)
      rw [has _ (Nat.le_refl _), List.take_length,
        show start + as.length + (k - as.length) = start + k by omega] at this
      rw [this, List.take_append, List.take_of_length_le (Nat.le_of_not_le hle), List.countP_append,
        Nat.add_assoc]

theorem agrees_map {c : Line → Line} (hc : ∀ l, (c l).stays = l.stays) :
    Agrees g start (ls.map c) ↔ Agrees g start ls := by
  have hcount (k : Nat) : ((ls.map c).take k).countP Line.stays =
      (ls.take k).countP Line.stays := by
    rw [← List.map_take, List.countP_map]
    exact List.countP_congr fun l _ => by simp [hc]
  simp only [Agrees, List.length_map, hcount]

/-- One line that stays. -/
theorem Agrees.next {l : Line} (h : Agrees g start [l]) (hl : l.stays = true) :
    g (start + 1) = g start + 1 := by
  have := h 1 (Nat.le_refl _)
  simpa [List.countP_cons, hl] using this

end

/-! ## The state of compilation -/

def LoopContext.bare (g : Nat → Nat) (l : LoopContext) : LoopContext :=
  { l with start := g l.start }

def FnState.bare (g : Nat → Nat) (f : FnState) : FnState :=
  { f with loops := f.loops.map (LoopContext.bare g), freed := [] }

/-- The state in which nothing has been freed and addresses are those of bare code. -/
def Emitter.bare (g : Nat → Nat) (e : Emitter) : Emitter where
  fn := e.fn.bare g
  functions := e.functions.map (Option.map FunctionCode.bare)
  natives := e.natives
  errors := e.errors

end ScopedScript
