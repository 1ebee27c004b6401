import ScopedScript.Proofs.Compile.UseAfterFree
import ScopedScript.Proofs.Machine.Reactions
import ScopedScript.Proofs.Typing.Receivers

/-!
# Operands and scopes along the paths of a function

Compiled code has a level at every address: how many operands its frame has on the stack when
control comes there and how many scopes are open. Every path agrees on it, every instruction has the
operands and scopes that it takes, and no path leaves the code.
-/

namespace ScopedScript

/-- How many operands a frame has on the stack, and how many scopes it has open. -/
structure Level where
  height : Nat
  depth : Nat
deriving DecidableEq, Repr

namespace Instr

/-- Instructions that need an open scope. -/
def needsScope : Instr → Bool
  | exitScope | declare _ => true
  | _ => false

/-- There are as many operands and scopes as the instruction takes. -/
structure Fits (i : Instr) (l : Level) : Prop where
  operands : i.pops ≤ l.height
  scopes : i.needsScope = true → 0 < l.depth

/-- The level at which an instruction leaves its frame; of a call, once the function has returned.
-/
def after (i : Instr) (l : Level) : Level where
  height := l.height - i.pops + i.pushes
  depth := match i with
    | enterScope => l.depth + 1
    | exitScope => l.depth - 1
    | _ => l.depth

/-- Control may go from the first address to the second, in one frame. -/
def Next (i : Instr) (ip ip' : Nat) : Prop := i ≠ .ret ∧ i.Goes (ip + 1) ip'

/-- The address that an instruction names. -/
def target? : Instr → Option Nat
  | jump target | jumpIfFalse target | jumpIfTrue target => some target
  | _ => none

/-- The constants and the slots that an instruction names are there. -/
def Within (f : FunctionCode) : Instr → Prop
  | const index => index < f.constants.size
  | declare slot | load slot | move slot | store slot | storeField slot _ | free slot =>
    slot < f.slotCount
  | _ => True

/-- Instructions that go on to the next one only and name neither a constant nor a slot. -/
theorem plain_next {i : Instr} (h : i.plain = true) (ip ip' : Nat) (hn : i.Next ip ip') :
    ip' = ip + 1 := (i.plain_spec h).2.2 _ _ hn.2

theorem plain_needsScope {i : Instr} (h : i.plain = true) : i.needsScope = false := by
  cases i <;> first | rfl | cases h

theorem plain_after {i : Instr} (h : i.plain = true) (l : Level) :
    i.after l = ⟨l.height - i.pops + i.pushes, l.depth⟩ := by
  cases i <;> first | rfl | cases h

end Instr

/-- The levels at which control can come to the addresses of a function that it enters at its start.
-/
inductive FunctionCode.Arrives (f : FunctionCode) : Nat → Level → Prop
  | start : f.Arrives 0 ⟨0, 1⟩
  | next {ip ip' : Nat} {l : Level} {i : Instr} (h : f.Arrives ip l) (hi : f.code[ip]? = some i)
    (hn : i.Next ip ip') : f.Arrives ip' (i.after l)

/-- What the operands, scopes and addresses of a function have to satisfy. -/
structure FunctionCode.Disciplined (f : FunctionCode) : Prop where
  spans : f.spans.size = f.code.size
  targets : ∀ (ip : Nat) (i : Instr), f.code[ip]? = some i →
    ∀ target, i.target? = some target → target < f.code.size
  within : ∀ (ip : Nat) (i : Instr), f.code[ip]? = some i → i.Within f
  inside : ∀ (ip : Nat) (l : Level), f.Arrives ip l → ip < f.code.size
  fits : ∀ (ip : Nat) (l : Level), f.Arrives ip l → ∀ i, f.code[ip]? = some i → i.Fits l
  unique : ∀ (ip : Nat) (l l' : Level), f.Arrives ip l → f.Arrives ip l' → l = l'

/-! ## Stretches of code -/

/-- Levels can be given to the addresses of a stretch of code, from the level at its start to the
one at its end, so that every instruction fits and control goes on inside or by one of the ways out.
-/
def FunctionCode.Flows (f : FunctionCode) (out : Nat → Level → Prop) (start stop : Nat)
    (l l' : Level) : Prop :=
  start ≤ stop ∧ ∃ levels : Nat → Level, levels start = l ∧ levels stop = l' ∧
    ∀ ip, start ≤ ip → ip < stop → ∃ i, f.code[ip]? = some i ∧ i.Within f ∧ i.Fits (levels ip) ∧
      ∀ ip', i.Next ip ip' →
        (start ≤ ip' ∧ ip' ≤ stop ∧ levels ip' = i.after (levels ip)) ∨
        out ip' (i.after (levels ip))

/-- One more way out. -/
def Ways.to (target : Nat) (l : Level) (out : Nat → Level → Prop) : Nat → Level → Prop :=
  fun ip l' => ip = target ∧ l' = l ∨ out ip l'

namespace FunctionCode

variable {f : FunctionCode} {out : Nat → Level → Prop} {start mid stop : Nat} {l l₁ l₂ : Level}
  {i : Instr} {span : Option Span}

theorem Flows.nil : f.Flows out start start l l :=
  ⟨le_rfl, fun _ => l, rfl, rfl, fun ip h h' => absurd h' (by omega)⟩

theorem Flows.one (h : f.Has start i span) (hw : i.Within f) (hf : i.Fits l)
    (hn : ∀ ip', i.Next start ip' → ip' = start + 1 ∧ l₁ = i.after l ∨ out ip' (i.after l)) :
    f.Flows out start (start + 1) l l₁ := by
  refine ⟨Nat.le_succ _, fun ip => if ip = start then l else l₁, by simp, by simp, ?_⟩
  intro ip h₁ h₂
  obtain rfl : ip = start := by omega
  refine ⟨i, h.1, hw, by simpa using hf, fun ip' hip => ?_⟩
  rcases hn ip' hip with ⟨rfl, rfl⟩ | ho
  · exact .inl ⟨by omega, le_rfl, by simp⟩
  · exact .inr (by simpa using ho)

/-- An instruction that goes on to the next one. -/
theorem Flows.step (h : f.Has start i span) (hw : i.Within f) (hf : i.Fits l)
    (hn : ∀ ip', i.Next start ip' → ip' = start + 1) :
    f.Flows out start (start + 1) l (i.after l) :=
  .one h hw hf fun ip' hip => .inl ⟨hn ip' hip, rfl⟩

/-- An instruction after which control does not come to the next one. -/
theorem Flows.leaves (h : f.Has start i span) (hw : i.Within f) (hf : i.Fits l)
    (hn : ∀ ip', i.Next start ip' → out ip' (i.after l)) : f.Flows out start (start + 1) l l₁ :=
  .one h hw hf fun ip' hip => .inr (hn ip' hip)

theorem Flows.append (h₁ : f.Flows out start mid l l₁) (h₂ : f.Flows out mid stop l₁ l₂) :
    f.Flows out start stop l l₂ := by
  obtain ⟨hle₁, levels₁, hs₁, he₁, hin₁⟩ := h₁
  obtain ⟨hle₂, levels₂, hs₂, he₂, hin₂⟩ := h₂
  let levels := fun ip => if ip < mid then levels₁ ip else levels₂ ip
  -- both give the same level to the address where they meet
  have hfirst {ip : Nat} (h : ip ≤ mid) : levels ip = levels₁ ip := by
    by_cases hlt : ip < mid
    · exact if_pos hlt
    · obtain rfl : ip = mid := by omega
      exact (if_neg hlt).trans (hs₂.trans he₁.symm)
  have hsecond {ip : Nat} (h : mid ≤ ip) : levels ip = levels₂ ip := if_neg (by omega)
  refine ⟨hle₁.trans hle₂, levels, (hfirst hle₁).trans hs₁, (hsecond hle₂).trans he₂, ?_⟩
  intro ip h h'
  by_cases hlt : ip < mid
  · obtain ⟨i, hi, hw, hf, hn⟩ := hin₁ ip h hlt
    rw [hfirst hlt.le]
    refine ⟨i, hi, hw, hf, fun ip' hip => (hn ip' hip).imp_left fun ⟨h₁, h₂, he⟩ => ?_⟩
    exact ⟨h₁, h₂.trans hle₂, (hfirst h₂).trans he⟩
  · obtain ⟨i, hi, hw, hf, hn⟩ := hin₂ ip (by omega) h'
    rw [hsecond (by omega)]
    refine ⟨i, hi, hw, hf, fun ip' hip => (hn ip' hip).imp_left fun ⟨h₁, h₂, he⟩ => ?_⟩
    exact ⟨hle₁.trans h₁, h₂, (hsecond h₁).trans he⟩

/-- A way out that leads to the end. -/
theorem Flows.landing (h : f.Flows (Ways.to stop l₁ out) start stop l l₁) :
    f.Flows out start stop l l₁ := by
  obtain ⟨hle, levels, hs, he, hin⟩ := h
  refine ⟨hle, levels, hs, he, fun ip h h' => ?_⟩
  obtain ⟨i, hi, hw, hf, hn⟩ := hin ip h h'
  refine ⟨i, hi, hw, hf, fun ip' hip => ?_⟩
  rcases hn ip' hip with hin | ⟨rfl, hl⟩ | ho
  · exact .inl hin
  · exact .inl ⟨hle, le_rfl, he.trans hl.symm⟩
  · exact .inr ho

/-- A way out that leads back to the start. -/
theorem Flows.looping (h : f.Flows (Ways.to start l out) start stop l l₁) :
    f.Flows out start stop l l₁ := by
  obtain ⟨hle, levels, hs, he, hin⟩ := h
  refine ⟨hle, levels, hs, he, fun ip h h' => ?_⟩
  obtain ⟨i, hi, hw, hf, hn⟩ := hin ip h h'
  refine ⟨i, hi, hw, hf, fun ip' hip => ?_⟩
  rcases hn ip' hip with hin | ⟨rfl, hl⟩ | ho
  · exact .inl hin
  · exact .inl ⟨le_rfl, hle, hs.trans hl.symm⟩
  · exact .inr ho

theorem Flows.ends (h : f.Ends start i span stop) (hw : i.Within f) (hf : i.Fits l)
    (hn : ∀ ip', i.Next start ip' → ip' = start + 1) : f.Flows out start stop l (i.after l) := by
  obtain ⟨hh, rfl⟩ := h
  exact .step hh hw hf hn

theorem Flows.plain (h : f.Ends start i span stop) (hi : i.plain = true) (hw : i.Within f)
    (hp : i.pops ≤ l.height) :
    f.Flows out start stop l ⟨l.height - i.pops + i.pushes, l.depth⟩ := by
  rw [← i.plain_after hi]
  refine .ends h hw ⟨hp, fun hs => ?_⟩ (i.plain_next hi start)
  rw [i.plain_needsScope hi] at hs
  cases hs

theorem Flows.jump {target : Nat} (h : f.Ends start (.jump target) span stop) (ho : out target l) :
    f.Flows out start stop l l₁ := by
  obtain ⟨hh, rfl⟩ := h
  refine .leaves hh trivial ⟨Nat.zero_le _, (absurd · Bool.false_ne_true)⟩ fun ip' hip => ?_
  obtain rfl : ip' = target := hip.2
  exact ho

/-- A conditional jump takes the condition on both of its ways. -/
theorem Flows.jumpIf {target height depth : Nat} (h : f.Has start i span)
    (hi : i = .jumpIfFalse target ∨ i = .jumpIfTrue target) (ho : out target ⟨height, depth⟩) :
    f.Flows out start (start + 1) ⟨height + 1, depth⟩ ⟨height, depth⟩ := by
  have hw : i.Within f := by rcases hi with rfl | rfl <;> trivial
  have hf : i.Fits ⟨height + 1, depth⟩ := by
    rcases hi with rfl | rfl <;> exact ⟨Nat.le_add_left _ _, (absurd · Bool.false_ne_true)⟩
  have ha : i.after ⟨height + 1, depth⟩ = ⟨height, depth⟩ := by rcases hi with rfl | rfl <;> rfl
  refine .one h hw hf fun ip' hip => ?_
  rw [ha]
  have hgo : ip' = target ∨ ip' = start + 1 := by rcases hi with rfl | rfl <;> exact hip.2
  rcases hgo with rfl | rfl
  · exact .inr ho
  · exact .inl ⟨rfl, rfl⟩

end FunctionCode

/-! ## Expressions -/

section

variable {t : Tables} {f : FunctionCode} {P : Point} {out : Nat → Level → Prop}
  {start stop h d : Nat} {span : Option Span}

/-- The slots of the bindings in scope are there. -/
abbrev Point.Ranged (P : Point) (n : Nat) : Prop := ∀ b ∈ P.scopes.flatten, b.slot < n

theorem flows_const {c : Constant} (hc : f.HasConst start c span stop) :
    f.Flows out start stop ⟨h, d⟩ ⟨h + 1, d⟩ := by
  obtain ⟨k, c, hk, -, hc⟩ := hc
  exact .plain hc rfl (Array.getElem?_eq_some_iff.1 hk).1 (Nat.zero_le _)

theorem flows_loadAt {name : String} (hP : P.Ranged f.slotCount)
    (hl : LoadAt f P start name span stop) : f.Flows out start stop ⟨h, d⟩ ⟨h + 1, d⟩ := by
  rw [LoadAt] at hl
  split at hl
  · rename_i b hr
    exact .ends hl.2 (hP b (Point.mem_of_resolve? hr))
      ⟨Nat.zero_le _, (absurd · Bool.false_ne_true)⟩ fun _ hn => hn.2
  · exact .plain hl rfl trivial (Nat.zero_le _)
  · exact hl.elim

theorem flows_loadsAt (hP : P.Ranged f.slotCount) {names : List String}
    (hl : LoadsAt f P span start names stop) :
    f.Flows out start stop ⟨h, d⟩ ⟨h + names.length, d⟩ := by
  induction names generalizing start h with
  | nil =>
    obtain rfl : stop = start := hl
    exact .nil
  | cons name rest ih =>
    obtain ⟨mid, hl, hr⟩ := hl
    have := ih (h := h + 1) hr
    rw [Nat.add_assoc, Nat.add_comm 1] at this
    exact (flows_loadAt hP hl).append this

/-- An instruction that takes this many operands and gives a value. -/
theorem flows_takes {i : Instr} (n : Nat) (he : f.Ends start i span stop)
    (hi : i.plain = true ∧ i.Within f ∧ i.pops = n ∧ i.pushes = 1) :
    f.Flows out start stop ⟨h + n, d⟩ ⟨h + 1, d⟩ := by
  obtain ⟨hp, hw, hpops, hpushes⟩ := hi
  have hle : i.pops ≤ h + n := by
    rw [hpops]
    exact Nat.le_add_left _ _
  have hflow : f.Flows out start stop ⟨h + n, d⟩ ⟨h + n - i.pops + i.pushes, d⟩ :=
    .plain he hp hw hle
  rwa [hpops, hpushes, Nat.add_sub_cancel] at hflow

theorem calls_takes {n : Nat} {callee : Callee} {i : Instr} (hc : t.Calls n callee i) :
    i.plain = true ∧ i.Within f ∧ i.pops = n ∧ i.pushes = 1 := by
  cases callee with
  | function name =>
    obtain ⟨id, -, rfl⟩ := hc
    exact ⟨rfl, trivial, rfl, rfl⟩
  | method struct method =>
    obtain ⟨id, -, rfl⟩ := hc
    exact ⟨rfl, trivial, rfl, rfl⟩
  | native name =>
    obtain ⟨id, -, rfl⟩ := hc
    exact ⟨rfl, trivial, rfl, rfl⟩

theorem binary_takes (op : BinaryOp) (kind : OperandKind) : (op.instr kind).plain = true ∧
    (op.instr kind).Within f ∧ (op.instr kind).pops = 2 ∧ (op.instr kind).pushes = 1 := by
  cases op <;> exact ⟨rfl, trivial, rfl, rfl⟩

theorem unary_takes (op : UnaryOp) (operand : Ty) : (op.instr operand).plain = true ∧
    (op.instr operand).Within f ∧ (op.instr operand).pops = 1 ∧ (op.instr operand).pushes = 1 := by
  cases op <;> exact ⟨rfl, trivial, rfl, rfl⟩

theorem field_takes (index : Option Nat) (field : String) {i : Instr}
    (hi : i = match index with | some i => .getField i | none => .getFieldDynamic field) :
    i.plain = true ∧ i.Within f ∧ i.pops = 1 ∧ i.pushes = 1 := by
  subst hi
  cases index <;> exact ⟨rfl, trivial, rfl, rfl⟩

mutual

/-- An expression leaves one operand, and the scopes as they were. -/
theorem flows_expr {start stop h d : Nat} {out : Nat → Level → Prop}
    (hP : P.Ranged f.slotCount) : (e : TExpr) → e.Received →
    ExprAt t f P start e stop → f.Flows out start stop ⟨h, d⟩ ⟨h + 1, d⟩
  | .mk kind _ _, hr, he => flows_kind hP kind hr he

theorem flows_kind {start stop h d : Nat} {out : Nat → Level → Prop} {ty : Ty}
    {span : Option Span} (hP : P.Ranged f.slotCount) :
    (k : TKind) → k.Received → KindAt t f P start ty span k stop →
    f.Flows out start stop ⟨h, d⟩ ⟨h + 1, d⟩
  | .int _, _, he | .float _, _, he | .bool _, _, he | .string _, _, he | .null, _, he =>
    flows_const he
  | .binding _, _, he => flows_loadAt hP he
  | .function _, _, ⟨_, _, he⟩ | .native _, _, ⟨_, _, he⟩ =>
    flows_takes 0 he ⟨rfl, trivial, rfl, rfl⟩
  | .binary op left right, hr, ⟨_, _, hl, hrt, he⟩ =>
    ((flows_expr hP left hr.1 hl).append (flows_expr hP right hr.2 hrt)).append
      (flows_takes 2 he (binary_takes op _))
  | .unary op operand, hr, ⟨_, ho, he⟩ =>
    (flows_expr hP operand hr ho).append (flows_takes 1 he (unary_takes op _))
  | .logical op left right, hr, ⟨mid, hl, hdup, hjump, hpop, hrt⟩ => by
    -- the left value stays when it decides, and else makes room for the right one
    have hop : (match op with | .and => Instr.jumpIfFalse stop | .or => .jumpIfTrue stop) =
        .jumpIfFalse stop ∨
        (match op with | .and => Instr.jumpIfFalse stop | .or => .jumpIfTrue stop) =
        .jumpIfTrue stop := by
      cases op
      · exact .inl rfl
      · exact .inr rfl
    refine FunctionCode.Flows.landing ((flows_expr hP left hr.1 hl).append ?_)
    have hdup : f.Flows (Ways.to stop ⟨h + 1, d⟩ out) mid (mid + 1) ⟨h + 1, d⟩ ⟨h + 2, d⟩ :=
      .plain ⟨hdup, rfl⟩ rfl trivial (Nat.le_add_left 1 h)
    have hpop : f.Flows (Ways.to stop ⟨h + 1, d⟩ out) (mid + 2) (mid + 3) ⟨h + 1, d⟩ ⟨h, d⟩ :=
      .plain ⟨hpop, rfl⟩ rfl trivial (Nat.le_add_left 1 h)
    refine (hdup.append (.jumpIf hjump hop (.inl ⟨rfl, rfl⟩))).append ?_
    exact hpop.append (flows_expr hP right hr.2 hrt)
  | .call _ args, hr, ⟨_, _, hc, ha, he⟩ =>
    (flows_exprs hP args hr ha).append (flows_takes _ he (calls_takes hc))
  | .callValue callee args, hr, ⟨_, _, hc, ha, he⟩ => by
    have hargs : f.Flows out _ _ ⟨h + 1, d⟩ ⟨h + 1 + args.length, d⟩ := flows_exprs hP args hr.2 ha
    rw [Nat.add_assoc, Nat.add_comm 1] at hargs
    exact ((flows_expr hP callee hr.1 hc).append hargs).append
      (flows_takes (args.length + 1) he ⟨rfl, trivial, rfl, rfl⟩)
  | .callDynamic callee args, hr, ⟨_, _, hc, ha, he⟩ => by
    have hargs : f.Flows out _ _ ⟨h + 1, d⟩ ⟨h + 1 + args.length, d⟩ := flows_exprs hP args hr.2 ha
    rw [Nat.add_assoc, Nat.add_comm 1] at hargs
    exact ((flows_expr hP callee hr.1 hc).append hargs).append
      (flows_takes (args.length + 1) he ⟨rfl, trivial, rfl, rfl⟩)
  | .callMethodDynamic _ args, hr, ⟨_, ha, he⟩ => by
    have hlen : args.length - 1 + 1 = args.length :=
      Nat.sub_add_cancel (List.length_pos_iff.2 hr.1)
    exact (flows_exprs hP args hr.2 ha).append (flows_takes _ he ⟨rfl, trivial, hlen, rfl⟩)
  | .field object field index, hr, ⟨_, ho, he⟩ =>
    (flows_expr hP object hr ho).append (flows_takes 1 he (field_takes index field rfl))
  | .structInit _ values, hr, ⟨_, _, _, ha, he⟩ =>
    (flows_exprs hP values hr ha).append (flows_takes _ he ⟨rfl, trivial, rfl, rfl⟩)
  | .lambda _ _ _ captures, _, ⟨_, _, _, _, _, _, _, hl, he⟩ =>
    (flows_loadsAt hP hl).append (flows_takes _ he ⟨rfl, trivial, rfl, rfl⟩)
  | .spawn _ args, hr, ⟨_, _, _, ha, he⟩ =>
    (flows_exprs hP args hr ha).append (flows_takes _ he ⟨rfl, trivial, rfl, rfl⟩)
  | .await inner, hr, ⟨_, ho, he⟩ | .box inner, hr, ⟨_, ho, he⟩ | .unbox inner, hr, ⟨_, ho, he⟩ =>
    (flows_expr hP inner hr ho).append (flows_takes 1 he ⟨rfl, trivial, rfl, rfl⟩)
  | .cast inner, hr, ⟨_, _, _, ho, he⟩ =>
    (flows_expr hP inner hr ho).append (flows_takes 1 he ⟨rfl, trivial, rfl, rfl⟩)
  | .format parts, hr, ⟨_, ha, he⟩ =>
    (flows_exprs hP parts hr ha).append (flows_takes _ he ⟨rfl, trivial, rfl, rfl⟩)

theorem flows_exprs {start stop h d : Nat} {out : Nat → Level → Prop}
    (hP : P.Ranged f.slotCount) : (es : List TExpr) → ExprsReceived es →
    ExprsAt t f P start es stop → f.Flows out start stop ⟨h, d⟩ ⟨h + es.length, d⟩
  | [], _, he => by
    obtain rfl : stop = start := he
    exact .nil
  | e :: rest, hr, ⟨_, he, hrest⟩ => by
    have hrest : f.Flows out _ stop ⟨h + 1, d⟩ ⟨h + 1 + rest.length, d⟩ :=
      flows_exprs hP rest hr.2 hrest
    rw [Nat.add_assoc, Nat.add_comm 1] at hrest
    exact (flows_expr hP e hr.1 he).append hrest

end

end

/-! ## Statements -/

/-- The exits of a loop are ways out, at the level that the loop began at. -/
def LeadsOut (out : Nat → Level → Prop) (x : Option Exits) (depth : Nat) : Prop :=
  ∀ e, x = some e → e.depth ≤ depth ∧ out e.start ⟨0, e.depth⟩ ∧ out e.stop ⟨0, e.depth⟩

section

variable {t : Tables} {f : FunctionCode} {x : Option Exits} {P : Point} {out : Nat → Level → Prop}
  {start stop d : Nat} {span : Option Span}

theorem LeadsOut.to {target : Nat} {l : Level} (h : LeadsOut out x d) :
    LeadsOut (Ways.to target l out) x d :=
  fun e he => ⟨(h e he).1, .inr (h e he).2.1, .inr (h e he).2.2⟩

theorem LeadsOut.opened (h : LeadsOut out x d) : LeadsOut out x (d + 1) :=
  fun e he => ⟨(h e he).1.trans (Nat.le_succ d), (h e he).2⟩

theorem flows_inScope {body : Nat → Nat → Prop} (h : f.InScope start span body stop)
    (hbody : ∀ last, body (start + 1) last → f.Flows out (start + 1) last ⟨0, d + 1⟩ ⟨0, d + 1⟩) :
    f.Flows out start stop ⟨0, d⟩ ⟨0, d⟩ := by
  obtain ⟨last, hopen, hin, hclose⟩ := h
  have henter : f.Flows out start (start + 1) ⟨0, d⟩ ⟨0, d + 1⟩ :=
    .step hopen trivial ⟨Nat.zero_le _, (absurd · Bool.false_ne_true)⟩ fun _ hn => hn.2
  have hexit : f.Flows out last stop ⟨0, d + 1⟩ ⟨0, d⟩ :=
    .ends hclose trivial ⟨Nat.zero_le _, fun _ => Nat.succ_pos d⟩ fun _ hn => hn.2
  exact (henter.append (hbody last hin)).append hexit

theorem flows_exitScopes {n : Nat} (h : f.HasAll span start (List.replicate n .exitScope) stop)
    (hn : n ≤ d) : f.Flows out start stop ⟨0, d⟩ ⟨0, d - n⟩ := by
  induction n generalizing start d with
  | zero =>
    obtain rfl : stop = start := h
    exact .nil
  | succ n ih =>
    obtain ⟨hexit, hrest⟩ := h
    have hstep : f.Flows out start (start + 1) ⟨0, d⟩ ⟨0, d - 1⟩ :=
      .step hexit trivial ⟨Nat.zero_le _, fun _ => by change 0 < d; omega⟩ fun _ hn => hn.2
    have := hstep.append (ih hrest (by omega))
    rwa [Nat.sub_sub, Nat.add_comm 1] at this

/-- Out of the scopes of a loop, to one of its exits. -/
theorem flows_leave {e : Exits} {target last : Nat} {l : Level} (hd : e.depth ≤ d)
    (h : f.HasAll span start (List.replicate (d - e.depth) .exitScope) last)
    (hj : f.Ends last (.jump target) span stop) (ho : out target ⟨0, e.depth⟩) :
    f.Flows out start stop ⟨0, d⟩ l := by
  have hexits : f.Flows out start last ⟨0, d⟩ ⟨0, d - (d - e.depth)⟩ :=
    flows_exitScopes h (Nat.sub_le _ _)
  rw [Nat.sub_sub_self hd] at hexits
  exact hexits.append (.jump hj ho)

theorem flows_frees {slots : List Nat} (h : f.HasAll span start (slots.map .free) stop)
    (hs : ∀ slot ∈ slots, slot < f.slotCount) : f.Flows out start stop ⟨0, d⟩ ⟨0, d⟩ := by
  induction slots generalizing start with
  | nil =>
    obtain rfl : stop = start := h
    exact .nil
  | cons slot rest ih =>
    obtain ⟨hfree, hrest⟩ := h
    have hstep : f.Flows out start (start + 1) ⟨0, d⟩ ⟨0, d⟩ :=
      .step hfree (hs slot List.mem_cons_self) ⟨Nat.zero_le _, (absurd · Bool.false_ne_true)⟩
        fun _ hn => hn.2
    exact hstep.append (ih hrest fun slot h => hs slot (List.mem_cons_of_mem _ h))

theorem flows_declareAt {name : String} (hP : P.Fine) (h : DeclareAt f P start name span stop) :
    f.Flows out start stop ⟨1, P.scopes.length⟩ ⟨0, P.scopes.length⟩ := by
  obtain ⟨hlt, -, he⟩ := h
  exact .ends he hlt ⟨Nat.le_refl 1, fun _ => List.length_pos_iff.2 hP.nonempty⟩ fun _ hn => hn.2

theorem flows_storeAt {target : AssignTarget} (hP : P.Ranged f.slotCount)
    (h : StoreAt f P start target span stop) : f.Flows out start stop ⟨1, d⟩ ⟨0, d⟩ := by
  rw [StoreAt] at h
  split at h
  · rename_i b hr
    have hb := hP b (Point.mem_of_resolve? hr)
    obtain ⟨-, he⟩ := h
    split at he
    · exact .ends he hb ⟨Nat.le_refl 1, (absurd · Bool.false_ne_true)⟩ fun _ hn => hn.2
    · exact .ends he hb ⟨Nat.le_refl 1, (absurd · Bool.false_ne_true)⟩ fun _ hn => hn.2
  · exact h.elim

theorem flows_freeAt {name : String} (hP : P.Ranged f.slotCount)
    (h : FreeAt f P start name span stop) : f.Flows out start stop ⟨0, d⟩ ⟨0, d⟩ := by
  rw [FreeAt] at h
  split at h
  · rename_i b hr
    exact .ends h.2.2 (hP b (Point.mem_of_resolve? hr))
      ⟨Nat.zero_le _, (absurd · Bool.false_ne_true)⟩ fun _ hn => hn.2
  · exact h.elim

theorem flows_ret {l : Level} (h : f.Ends start .ret span stop) :
    f.Flows out start stop ⟨1, d⟩ l := by
  obtain ⟨hh, rfl⟩ := h
  exact .leaves hh trivial ⟨Nat.le_refl 1, (absurd · Bool.false_ne_true)⟩ fun _ hn =>
    absurd rfl hn.1

theorem Point.Fine.ranged {n : Nat} (hP : P.Fine) (hn : P.slots ≤ n) : P.Ranged n :=
  fun b hb => (hP.below b hb).1.trans_le hn

/-- Statements leave as many scopes open as they found. -/
theorem Point.Extends.length {Q : Point} (h : P.Extends Q) (hP : P.scopes ≠ []) :
    Q.scopes.length = P.scopes.length := by
  obtain ⟨scope, outer, hs⟩ := List.exists_cons_of_ne_nil hP
  obtain ⟨scope', outer', hs'⟩ := List.exists_cons_of_ne_nil h.nonempty
  have := h.outer
  rw [hs, hs'] at this
  rw [hs, hs', List.length_cons, List.length_cons, show outer' = outer from this]

mutual

/-- A statement leaves the operands and the scopes as they were. -/
theorem flows_stmt {start stop : Nat} {x : Option Exits} {P : Point} {out : Nat → Level → Prop}
    (hP : P.Fine) (rest : List TStmt) (hx : LeadsOut out x P.scopes.length) : (s : TStmt) →
    s.Looped x.isSome → s.Received → (P.stmt rest s).slots ≤ f.slotCount →
    StmtAt t f x P start rest s stop →
    f.Flows out start stop ⟨0, P.scopes.length⟩ ⟨0, P.scopes.length⟩
  | .declare _ _ ty none _, _, _, _, ⟨mid, last, hnull, hbox, hd⟩ => by
    have hbox : f.Flows out mid last ⟨1, P.scopes.length⟩ ⟨1, P.scopes.length⟩ := by
      split at hbox
      · exact flows_takes (h := 0) 1 hbox ⟨rfl, trivial, rfl, rfl⟩
      · obtain rfl : last = mid := hbox
        exact .nil
    exact ((flows_const hnull).append hbox).append (flows_declareAt hP hd)
  | .declare _ _ _ (some value) _, _, hr, hn, ⟨_, he, hd⟩ =>
    (flows_expr (hP.ranged ((Nat.le_succ _).trans hn)) value hr he).append (flows_declareAt hP hd)
  | .assign _ value _, _, hr, hn, ⟨_, he, hst⟩ =>
    (flows_expr (hP.ranged hn) value hr he).append (flows_storeAt (hP.ranged hn) hst)
  | .branch condition thenBlock elifs elseBlock span, ⟨hlt, hle, hll⟩, ⟨hrc, hrt, hre, hrl⟩, hn,
      ⟨mid, last, next, other, hc, hjump, hthen, hleave, helifs, helse⟩ => by
    have ht := Point.extends_stmts hP.opened thenBlock
    have hts := Point.scopes_closed ht
    have hPt := hP.of_same hts ht.slots ht.loops
    have hm := Point.branches_elifBranches P.freed hPt elifs
    have hPm := hPt.of_same hm.scopes hm.slots hm.loops
    have hPl : ((Point.elifBranches P.freed (P.opened.stmts thenBlock).closed elifs).1.withFreed
      P.freed).Fine := hPm.of_same rfl le_rfl rfl
    have hl := Point.extends_elseBranch hPl elseBlock
    have hls : ((Point.elifBranches P.freed (P.opened.stmts thenBlock).closed elifs).1.withFreed
      P.freed).scopes = P.scopes := hm.scopes.trans hts
    -- the slots that the branches have given out are there
    have hn₃ := hl.1.slots.trans hn
    have hn₂ : (P.opened.stmts thenBlock).slots ≤ f.slotCount := hm.slots.trans hn₃
    have hthenPart : f.Flows (Ways.to stop ⟨0, P.scopes.length⟩ out) start next
        ⟨0, P.scopes.length⟩ ⟨0, P.scopes.length⟩ := by
      refine FunctionCode.Flows.landing ?_
      refine (flows_expr (hP.ranged (ht.slots.trans hn₂)) condition hrc hc).append ?_
      refine (FunctionCode.Flows.jumpIf hjump (.inl rfl) (.inl ⟨rfl, rfl⟩)).append ?_
      refine (flows_inScope hthen fun last h => ?_).append (.jump hleave (.inr (.inl ⟨rfl, rfl⟩)))
      exact flows_stmts hP.opened hx.opened.to.to thenBlock hlt hrt hn₂ h
    refine FunctionCode.Flows.landing (hthenPart.append ?_)
    have hxt : LeadsOut (Ways.to stop ⟨0, P.scopes.length⟩ out) x
        (P.opened.stmts thenBlock).closed.scopes.length := by
      rw [hts]
      exact hx.to
    have hxm : LeadsOut (Ways.to stop ⟨0, P.scopes.length⟩ out) x
        ((Point.elifBranches P.freed (P.opened.stmts thenBlock).closed elifs).1.withFreed
          P.freed).scopes.length := by
      rw [hls]
      exact hx.to
    have helifPart :=
      flows_elifs hPt hxt elifs hle hre hn₃ (by rw [hts]; exact .inl ⟨rfl, rfl⟩) helifs
    have helsePart := flows_else hPl hxm elseBlock hll hrl hn helse
    rw [hts] at helifPart
    rw [hls] at helsePart
    exact helifPart.append helsePart
  | .loop condition body span, hl, ⟨hrc, hrb⟩, hn, ⟨mid, last, hc, hjump, hin, hback⟩ => by
    have hb := Point.extends_stmts hP.inLoop_opened body
    have hnb : (P.inLoop.opened.stmts body).slots ≤ f.slotCount := hn
    refine FunctionCode.Flows.landing (FunctionCode.Flows.looping ?_)
    refine (flows_expr (hP.ranged (hb.slots.trans hnb)) condition hrc hc).append ?_
    refine (FunctionCode.Flows.jumpIf hjump (.inl rfl) (.inr (.inl ⟨rfl, rfl⟩))).append ?_
    refine (flows_inScope hin fun last h => ?_).append (.jump hback (.inl ⟨rfl, rfl⟩))
    refine flows_stmts (x := some ⟨start, stop, P.scopes.length⟩) hP.inLoop_opened (fun e he => ?_)
      body hl hrb hnb h
    cases he
    exact ⟨Nat.le_succ _, .inl ⟨rfl, rfl⟩, .inr (.inl ⟨rfl, rfl⟩)⟩
  | .block body span, hl, hr, hn, h => by
    have hin : f.InScope start span (fun a b => StmtsAt t f x P.opened a body b) stop := h
    exact flows_inScope hin fun last h => flows_stmts hP.opened hx.opened body hl hr hn h
  | .ret none _, _, _, _, ⟨_, hnull, hret⟩ => (flows_const hnull).append (flows_ret hret)
  | .ret (some value) _, _, hr, hn, h => by
    have hranged := hP.ranged (n := f.slotCount) hn
    rw [StmtAt] at h
    split at h
    · rename_i c hc
      obtain ⟨-, hmove, hret⟩ := h
      have hstep : f.Flows out start (start + 1) ⟨0, P.scopes.length⟩ ⟨1, P.scopes.length⟩ :=
        .step hmove (hranged c (Point.mem_of_moved? hc))
          ⟨Nat.zero_le _, (absurd · Bool.false_ne_true)⟩ fun _ hn => hn.2
      exact hstep.append (flows_ret hret)
    · obtain ⟨last, he, hret⟩ := h
      exact (flows_expr hranged value hr he).append (flows_ret hret)
  | .breakLoop _, hl, _, _, h => by
    cases x with
    | none => cases hl
    | some e =>
      obtain ⟨last, hexits, hjump⟩ := h
      obtain ⟨hd, -, hstop⟩ := hx e rfl
      exact flows_leave hd hexits hjump hstop
  | .continueLoop _, hl, _, _, h => by
    cases x with
    | none => cases hl
    | some e =>
      obtain ⟨last, hexits, hjump⟩ := h
      obtain ⟨hd, hstart, -⟩ := hx e rfl
      exact flows_leave hd hexits hjump hstart
  | .free name span, _, _, hn, h =>
    flows_freeAt (hP.ranged ((Point.extends_free hP name span).slots.trans hn)) h
  | .collect span, _, _, hn, h => by
    have hall : f.HasAll span start (((P.dead rest).map Binding.slot).map .free) stop := by
      rw [List.map_map]
      exact h
    refine flows_frees hall fun slot hs => ?_
    obtain ⟨b, hb, rfl⟩ := List.mem_map.1 hs
    refine hP.ranged (n := f.slotCount) hn b ?_
    rw [Point.flatten_scopes hP.nonempty]
    exact List.mem_append_left _ (Point.mem_deadBindings hb).1
  | .yieldNow _, _, _, _, h =>
    .ends h trivial ⟨Nat.zero_le _, (absurd · Bool.false_ne_true)⟩ fun _ hn => hn.2
  | .eval value _, _, hr, hn, ⟨_, he, h⟩ => by
    have hpop : f.Flows out _ stop ⟨1, P.scopes.length⟩ ⟨0, P.scopes.length⟩ :=
      .ends h trivial ⟨Nat.le_refl 1, (absurd · Bool.false_ne_true)⟩ fun _ hn => hn.2
    exact (flows_expr (hP.ranged hn) value hr he).append hpop

theorem flows_stmts {start stop : Nat} {x : Option Exits} {P : Point} {out : Nat → Level → Prop}
    (hP : P.Fine) (hx : LeadsOut out x P.scopes.length) : (ss : List TStmt) →
    AllLooped x.isSome ss → StmtsReceived ss → (P.stmts ss).slots ≤ f.slotCount →
    StmtsAt t f x P start ss stop →
    f.Flows out start stop ⟨0, P.scopes.length⟩ ⟨0, P.scopes.length⟩
  | [], _, _, _, h => by
    obtain rfl : stop = start := h
    exact .nil
  | s :: rest, ⟨hl, hls⟩, ⟨hr, hrs⟩, hn, ⟨_, h, hrest⟩ => by
    have he := Point.extends_stmt hP rest s
    have hlen := he.length hP.nonempty
    have hQ := hP.extend he
    have hnext := flows_stmts hQ (hlen ▸ hx) rest hls hrs hn hrest
    rw [hlen] at hnext
    have hns := (Point.extends_stmts hQ rest).slots.trans hn
    exact (flows_stmt hP rest hx s hl hr hns h).append hnext

theorem flows_elifs {start stop target : Nat} {x : Option Exits} {P : Point} {before : Freed}
    {span : Option Span} {out : Nat → Level → Prop} (hP : P.Fine)
    (hx : LeadsOut out x P.scopes.length) : (elifs : List (TExpr × List TStmt)) →
    ElifsLooped x.isSome elifs → ElifsReceived elifs →
    (P.elifBranches before elifs).1.slots ≤ f.slotCount → out target ⟨0, P.scopes.length⟩ →
    ElifsAt t f x before span target P start elifs stop →
    f.Flows out start stop ⟨0, P.scopes.length⟩ ⟨0, P.scopes.length⟩
  | [], _, _, _, _, h => by
    obtain rfl : stop = start := h
    exact .nil
  | (condition, body) :: rest, ⟨hl, hls⟩, ⟨hrc, hrb, hrs⟩, hn, ho,
      ⟨_, _, next, hc, hjump, hin, hleave, h⟩ => by
    have hPb : (P.withFreed before).Fine := hP.of_same rfl le_rfl rfl
    have he := Point.extends_stmts hPb.opened body
    have hes := Point.scopes_closed he
    have hPe := hPb.of_same hes he.slots he.loops
    have hr := Point.branches_elifBranches before hPe rest
    have hnb : ((P.withFreed before).opened.stmts body).slots ≤ f.slotCount := hr.slots.trans hn
    have hfirst : f.Flows out start next ⟨0, P.scopes.length⟩ ⟨0, P.scopes.length⟩ := by
      refine FunctionCode.Flows.landing ?_
      refine (flows_expr (hPb.ranged (he.slots.trans hnb)) condition hrc hc).append ?_
      refine (FunctionCode.Flows.jumpIf hjump (.inl rfl) (.inl ⟨rfl, rfl⟩)).append ?_
      refine (flows_inScope hin fun last h => ?_).append (.jump hleave (.inr ho))
      exact flows_stmts hPb.opened hx.opened.to body hl hrb hnb h
    have hlen : ((P.withFreed before).opened.stmts body).closed.scopes.length = P.scopes.length :=
      congrArg List.length hes
    have hrest := flows_elifs hPe (hlen ▸ hx) rest hls hrs hn (hlen ▸ ho) h
    rw [hlen] at hrest
    exact hfirst.append hrest

theorem flows_else {start stop : Nat} {x : Option Exits} {P : Point} {span : Option Span}
    {out : Nat → Level → Prop} (hP : P.Fine) (hx : LeadsOut out x P.scopes.length) :
    (elseBlock : Option (List TStmt)) → ElseLooped x.isSome elseBlock → ElseReceived elseBlock →
    (P.elseBranch elseBlock).slots ≤ f.slotCount → ElseAt t f x P start span elseBlock stop →
    f.Flows out start stop ⟨0, P.scopes.length⟩ ⟨0, P.scopes.length⟩
  | none, _, _, _, h => by
    obtain rfl : stop = start := h
    exact .nil
  | some body, hl, hr, hn, h => by
    have hin : f.InScope start span (fun a b => StmtsAt t f x P.opened a body b) stop := h
    exact flows_inScope hin fun last h => flows_stmts hP.opened hx.opened body hl hr hn h

end

/-! ## Functions -/

/-- The code of a body is disciplined. -/
theorem disciplined_body {b : Body} (hf : BodyAt t f b) (hl : AllLooped false b.stmts)
    (hr : StmtsReceived b.stmts) : f.Disciplined := by
  obtain ⟨stop, hat, hw⟩ := hf
  obtain ⟨last, hnull, hret, hsize⟩ := hw.tail
  have hP := Point.fine_start b
  have hscopes : (Point.start b).scopes.length = 1 := by
    have := congrArg List.length (Point.scopes_start b)
    simpa using this
  have hbody : f.Flows (fun _ _ => False) 0 stop _ _ :=
    flows_stmts (t := t) (x := none) hP (fun _ he => nomatch he) b.stmts hl hr hw.slots.ge hat
  rw [hscopes] at hbody
  -- everything but the last instruction goes on inside
  obtain ⟨hle, levels, hstart, hend, hin⟩ := hbody.append (flows_const hnull)
  have hall (ip : Nat) (i : Instr) (hi : f.code[ip]? = some i) : i.Within f ∧ i.Fits (levels ip) ∧
      ∀ ip', i.Next ip ip' → ip' < f.code.size ∧ levels ip' = i.after (levels ip) := by
    have hlt : ip < f.code.size := (Array.getElem?_eq_some_iff.1 hi).1
    by_cases hip : ip < last
    · obtain ⟨j, hj, hw, hf, hn⟩ := hin ip (Nat.zero_le _) hip
      rw [hi] at hj
      cases hj
      refine ⟨hw, hf, fun ip' hgo => ?_⟩
      obtain ⟨-, hto, he⟩ := (hn ip' hgo).resolve_right id
      exact ⟨by omega, he⟩
    · obtain rfl : ip = last := by omega
      have := hret.1
      rw [hi] at this
      cases this
      rw [hend]
      exact ⟨trivial, ⟨Nat.le_refl 1, (absurd · Bool.false_ne_true)⟩, fun _ hgo => absurd rfl hgo.1⟩
  have hat {ip : Nat} {l : Level} (h : f.Arrives ip l) : ip < f.code.size ∧ l = levels ip := by
    induction h with
    | start => exact ⟨by omega, hstart.symm⟩
    | next _ hi hn ih =>
      obtain ⟨-, rfl⟩ := ih
      obtain ⟨-, -, hgo⟩ := hall _ _ hi
      exact ⟨(hgo _ hn).1, (hgo _ hn).2.symm⟩
  constructor
  case spans => exact hw.spans
  case targets =>
    intro ip i hi target ht
    have hnext : i.Next ip target := by
      cases i <;> cases ht
      · exact ⟨nofun, rfl⟩
      · exact ⟨nofun, .inl rfl⟩
      · exact ⟨nofun, .inl rfl⟩
    exact ((hall ip i hi).2.2 target hnext).1
  case within => exact fun ip i hi => (hall ip i hi).1
  case inside => exact fun ip l h => (hat h).1
  case fits =>
    intro ip l h i hi
    rw [(hat h).2]
    exact (hall ip i hi).2.1
  case unique => exact fun ip l l' h h' => (hat h).2.trans (hat h').2.symm

end

/-- Every function of a compiled program is disciplined. -/
theorem TProgram.disciplined_compile {program : Program} {natives : List (String × Signature)}
    {typed : TProgram} {m : Module} (hcheck : program.check natives = .ok typed)
    (hcompile : typed.compile = .ok m) {id : Nat} {f : FunctionCode}
    (hf : m.functions[id]? = some f) : f.Disciplined := by
  obtain ⟨t, ht⟩ := typed.compile_ok hcompile
  obtain ⟨body, hbody, hcode⟩ := ht.body_of_function hf
  exact disciplined_body hcode (Program.check_looped hcheck body hbody)
    (Program.check_received hcheck body hbody)

end ScopedScript
