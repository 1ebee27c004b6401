import ScopedScript.Proofs.Evaluation.Answers
import ScopedScript.Proofs.Evaluation.Segments
import ScopedScript.Proofs.Typing.Receivers

/-!
# Code of expressions

The code of an expression evaluates it: when its frame has the values in scope, the code ends with
the value of the expression on top of the operands that were there.
-/

namespace ScopedScript

open FunctionCode

/-- A constant that stands for another one has its value, unless both are floats. -/
theorem Constant.toValue_of_same {c d : Constant} (h : d.same c = true) (hf : ∀ x, c ≠ .float x) :
    d.toValue = c.toValue := by
  cases c <;> cases d <;> simp_all [Constant.same, Constant.toValue]

theorem BinaryOp.react_instr {w : Evaluator} {f : FunctionCode} {captured : List Value}
    (op : BinaryOp) (kind : OperandKind) (x y : Value) :
    (op.instr kind).react? w.linked f captured [x, y] = some ("", w.binary op kind x y) := by
  cases op <;> rfl

theorem UnaryOp.react_instr {w : Evaluator} {f : FunctionCode} {captured : List Value}
    (op : UnaryOp) (operand : Ty) (x : Value) :
    (op.instr operand).react? w.linked f captured [x] = some ("", w.unary op operand x) := by
  cases op <;> rfl

namespace Evaluator

theorem known_bind {x : α} (f : α → Eval β) : (known (some x) >>= f) = f x := rfl

/-- A built-in is known by its place in the module, which names none twice. -/
theorem native_eq {w : Evaluator} {t : Tables} (ht : t.Numbered w.program w.module) {id : Nat}
    {name : String} (h : t.natives[id]? = some name) : w.native name = known (some id) := by
  rw [ht.natives, ← Array.getElem?_toList] at h
  have hfind : w.module.natives.findIdx? (fun n => n == name) = some id := by
    rw [← w.module.natives.toArray_toList, List.findIdx?_toArray]
    obtain ⟨hlt, hname⟩ := List.getElem?_eq_some_iff.1 h
    refine List.findIdx?_eq_some_iff_getElem.2 ⟨hlt, beq_iff_eq.2 hname, fun j hj heq => ?_⟩
    have hsame :=
      (ht.distinct.getElem_inj_iff (i := j) (j := id)).1 ((beq_iff_eq.1 heq).trans hname.symm)
    omega
  rw [native, hfind]

section

variable {w : Evaluator} {t : Tables} {o : Running} {call : Caller} {c : Seat} {n : Nat} {P : Point}
  {b : Bindings} {env : Locals} {span : Option Span} {start stop first : Nat} {stack : List Value}
  {written : String} {s : Running}

/-- Whether the left operand of `and` or `or` decides. -/
theorem branch_decides {op : LogicalOp} {v : Value} {target ip : Nat} {f : Bool → Eval α}
    {R : α → String → Running → Prop} (hc : w.linked.module.functions[c.function]? = some c.code)
    (hs : c.Stands o ip b (v :: stack) written s) (hi : c.code.Has ip
      (match op with | .and => .jumpIfFalse target | .or => .jumpIfTrue target) span)
    (hf : ∀ held s, c.Stands o (if (held = true) = (op = .or) then target else ip + 1) b
      stack written s → Realizes w.linked o n s R (f held written)) :
    Realizes w.linked o (n + 1) s R ((holds c.activation span v >>= f) written) := by
  cases op with
  | and =>
    refine hs.branch hc (.inl ⟨rfl, rfl⟩) hi fun held s hs => hf held s ?_
    cases held <;> exact hs
  | or =>
    refine hs.branch hc (.inr ⟨rfl, rfl⟩) hi fun held s hs => hf held s ?_
    cases held <;> exact hs

variable (ht : t.Numbered w.program w.module) (hcall : w.Undertakes o call n)
  (hc : w.linked.module.functions[c.function]? = some c.code)

include ht hcall hc

/-- An instruction that gives a value. -/
theorem realizes_value {i : Instr} {ip : Nat} {rest : List Value} {v : Value} (ops : List Value)
    (hs : c.Stands o ip b (ops.reverse ++ rest) written s) (hi : c.code.Ends ip i span stop)
    (hr : i.react? w.linked c.code c.captured ops = some ("", .value v))
    (hn : ops.length = i.pops) :
    Realizes w.linked o (n + 1) s (fun v => c.Stands o stop b (v :: rest))
      ((pure v : Eval Value) written) := by
  obtain ⟨hi, rfl⟩ := hi
  exact realizes_silent ht hcall hc ops hs hi hr hn

theorem realizes_const {k : Constant} (h : c.code.HasConst start k span stop)
    (hs : c.Stands o start b stack written s)
    (hk : ∀ d ∈ c.code.constants, d.same k = true → d.toValue = k.toValue) :
    Realizes w.linked o (n + 1) s (fun v => c.Stands o stop b (v :: stack))
      ((pure k.toValue : Eval Value) written) := by
  obtain ⟨i, d, hd, hsame, h⟩ := h
  have hvalue : d.toValue = k.toValue := by
    rcases hsame with rfl | hsame
    · rfl
    · exact hk d (Array.mem_of_getElem? hd) hsame
  refine realizes_value ht hcall hc [] hs h ?_ rfl
  simp only [Instr.react?, hd, hvalue]

variable (hcaps : c.code.captures = P.captures) (hm : Models c.code.slotCount P b env)

include hcaps hm

/-- A name that is read. -/
theorem realizes_read {name : String} (h : LoadAt c.code P start name span stop)
    (hs : c.Stands o start b stack written s) :
    Realizes w.linked o (n + 1) s (fun v => c.Stands o stop b (v :: stack))
      (read c.activation env span name written) := by
  rw [LoadAt] at h
  split at h
  · rename_i d hr
    obtain ⟨hu, hi, rfl⟩ := h
    obtain ⟨v, hv, hheld⟩ := hm.find?_slot hr
    obtain ⟨s', hnext, hs'⟩ := hs.rebind [] (some v) none hc hi rfl (by
      rw [BindingM.bind_apply, BindingM.load_eq_ok.2 ⟨hheld hu, rfl⟩]
      rfl)
    rw [read, hv]
    exact .value (.step hnext (.refl s')) hs'
  · rename_i i hr
    obtain ⟨hi, rfl⟩ := h
    obtain ⟨hnone, hindex⟩ := hm.find?_capture hr
    rw [read, hnone]
    dsimp only
    rw [show c.activation.captures = P.captures from hcaps, hindex, known_bind]
    have h := realizes_silent ht hcall hc [] hs hi rfl rfl
    rw [show c.activation.captured = c.captured from rfl]
    cases hv : c.captured[i]? with
    | some v =>
      rw [hv] at h
      exact h
    | none =>
      rw [hv] at h
      exact h
  · exact h.elim

theorem realizes_reads {names : List String} (h : LoadsAt c.code P span start names stop)
    (hs : c.Stands o start b stack written s) :
    Realizes w.linked o (n + 1) s
      (fun vs written s => vs.length = names.length ∧
        c.Stands o stop b (vs.reverse ++ stack) written s)
      (reads c.activation env span names written) := by
  induction names generalizing start stack written s with
  | nil =>
    obtain rfl : stop = start := h
    exact .pure ⟨rfl, hs⟩
  | cons name rest ih =>
    obtain ⟨mid, hl, h⟩ := h
    rw [reads]
    refine (realizes_read ht hcall hc hcaps hm hl hs).bind fun v written s hs => ?_
    refine (ih h hs).bind fun vs written s hvs => .pure ⟨congrArg (· + 1) hvs.1, ?_⟩
    rw [List.reverse_cons, List.append_assoc]
    exact hvs.2

set_option linter.unusedSectionVars false in
mutual

theorem realizes_expr {start stop first : Nat} {stack : List Value} {written : String}
    {s : Running} : (e : TExpr) → e.Received → ExprAt t c.code P start e stop →
    c.code.Carries (exprOutline t.ids e) first start stop → c.Stands o start b stack written s →
    Realizes w.linked o (n + 1) s (fun v => c.Stands o stop b (v :: stack))
      (w.expr call c.activation env first e written)
  | .mk kind _ _, hr, h, hk, hs => realizes_kind kind hr h hk hs

theorem realizes_kind {start stop first : Nat} {stack : List Value} {written : String} {s : Running}
    {ty : Ty} {span : Option Span} : (k : TKind) → k.Received →
    KindAt t c.code P start ty span k stop →
    c.code.Carries (kindOutline t.ids span k) first start stop →
    c.Stands o start b stack written s →
    Realizes w.linked o (n + 1) s (fun v => c.Stands o stop b (v :: stack))
      (w.kindValue call c.activation env first ty span k written)
  | .int _, _, h, _, hs | .bool _, _, h, _, hs | .string _, _, h, _, hs | .null, _, h, _, hs =>
    realizes_const ht hcall hc h hs fun d _ hd => Constant.toValue_of_same hd nofun
  | .float x, _, h, hk, hs => by
    refine realizes_const ht hcall hc h hs fun d hd hsame => ?_
    cases d with
    | float y => rw [hk.floats x List.mem_cons_self y hd hsame]
    | _ => cases hsame
  | .binding _, _, h, _, hs => realizes_read ht hcall hc hcaps hm h hs
  | .function name, _, ⟨id, hid, h⟩, _, hs => by
    rw [kindValue, show w.ids = t.ids from ht.ids.symm, hid, known_bind]
    exact realizes_value ht hcall hc [] hs h rfl rfl
  | .native name, _, ⟨id, hid, h⟩, _, hs => by
    rw [kindValue, native_eq ht hid, known_bind]
    exact realizes_value ht hcall hc [] hs h rfl rfl
  | .binary op left right, ⟨hrl, hrr⟩, ⟨mid, last, hl, hr, h⟩, hk, hs => by
    have hcl := counts_expr left hl
    have hcr := counts_expr right hr
    obtain ⟨hkl, hkr⟩ := (hk.init (hcl.append hcr).1 h (op.made?_instr _)).split hcl hcr.1
    obtain ⟨hi, rfl⟩ := h
    rw [kindValue, show w.ids = t.ids from ht.ids.symm]
    refine (realizes_expr left hrl hl hkl hs).bind fun x written s hs => ?_
    refine (realizes_expr right hrr hr hkr hs).bind fun y written s hs => ?_
    exact realizes_silent ht hcall hc [x, y] hs hi (op.react_instr _ x y) (by cases op <;> rfl)
  | .unary op operand, hro, ⟨last, ho, h⟩, hk, hs => by
    have hki := hk.init (counts_expr operand ho).1 h (op.made?_instr _)
    obtain ⟨hi, rfl⟩ := h
    rw [kindValue]
    refine (realizes_expr operand hro ho hki hs).bind fun x written s hs => ?_
    exact realizes_silent ht hcall hc [x] hs hi (op.react_instr _ x) (by cases op <;> rfl)
  | .logical op left right, ⟨hrl, hrr⟩, ⟨mid, hl, hdup, hjump, hpop, hr⟩, hk, hs => by
    have hcl := counts_expr left hl
    have hcm := ((hcl.next hdup rfl).next hjump (by cases op <;> rfl)).next hpop rfl
    have hcr := counts_expr right hr
    obtain ⟨hkl, hkr⟩ := hk.split hcm hcr.1
    have hkl :=
      hkl.before hcl.1 (((Counts.nil.next hdup rfl).next hjump (by cases op <;> rfl)).next hpop rfl)
    rw [kindValue, show w.ids = t.ids from ht.ids.symm]
    refine (realizes_expr left hrl hl hkl hs).bind fun x written s hs => ?_
    obtain ⟨s₁, hnext, hs₁⟩ := hs.dup hc hdup
    refine .after (.step hnext (.refl s₁))
      (.mono (branch_decides hc hs₁ hjump fun held s hs => ?_) (Nat.le_succ _))
    split at hs <;> rename_i hdecides
    · rw [if_pos hdecides]
      exact .pure hs
    · rw [if_neg hdecides]
      obtain ⟨s₂, hnext, hs₂⟩ := hs.pop hc hpop
      exact .after (.step hnext (.refl s₂)) (realizes_expr right hrr hr hkr hs₂)
  | .call callee args, hra, ⟨i, last, hcallee, ha, h⟩, hk, hs => by
    have hki := hk.init (counts_exprs args ha).1 h hcallee.made?
    obtain ⟨hi, rfl⟩ := h
    have hargs := realizes_exprs args hra ha hki hs
    cases callee with
    | function name | method struct method =>
      obtain ⟨id, hid, rfl⟩ := hcallee
      rw [kindValue, show w.ids = t.ids from ht.ids.symm, hid, known_bind]
      refine hargs.bind fun vs written s hvs => ?_
      exact realizes_silent ht hcall hc vs hvs.2 hi rfl hvs.1
    | native name =>
      obtain ⟨id, hid, rfl⟩ := hcallee
      rw [kindValue, native_eq ht hid, known_bind]
      refine hargs.bind fun vs written s hvs => ?_
      exact realizes_answer ht hcall hc vs hvs.2 hi rfl hvs.1
  | .callValue callee args, ⟨hrc, hra⟩, ⟨mid, last, hcallee, ha, h⟩, hk, hs => by
    have hcc := counts_expr callee hcallee
    have hca := counts_exprs args ha
    obtain ⟨hkc, hka⟩ := (hk.init (hcc.append hca).1 h rfl).split hcc hca.1
    obtain ⟨hi, rfl⟩ := h
    rw [kindValue, show w.ids = t.ids from ht.ids.symm]
    refine (realizes_expr callee hrc hcallee hkc hs).bind fun f written s hs => ?_
    refine (realizes_exprs args hra ha hka hs).bind fun vs written s hvs => ?_
    refine realizes_answer ht hcall hc (f :: vs) ?_ hi rfl (congrArg (· + 1) hvs.1)
    rw [List.reverse_cons, List.append_assoc]
    exact hvs.2
  | .callDynamic callee args, ⟨hrc, hra⟩, ⟨mid, last, hcallee, ha, h⟩, hk, hs => by
    have hcc := counts_expr callee hcallee
    have hca := counts_exprs args ha
    obtain ⟨hkc, hka⟩ := (hk.init (hcc.append hca).1 h rfl).split hcc hca.1
    obtain ⟨hi, rfl⟩ := h
    rw [kindValue, show w.ids = t.ids from ht.ids.symm]
    refine (realizes_expr callee hrc hcallee hkc hs).bind fun f written s hs => ?_
    refine (realizes_exprs args hra ha hka hs).bind fun vs written s hvs => ?_
    rw [calleeDynamic_eq ht]
    refine realizes_answer ht hcall hc (f :: vs) ?_ hi rfl (congrArg (· + 1) hvs.1)
    rw [List.reverse_cons, List.append_assoc]
    exact hvs.2
  | .callMethodDynamic method args, ⟨hne, hra⟩, ⟨last, ha, h⟩, hk, hs => by
    have hki := hk.init (counts_exprs args ha).1 h rfl
    obtain ⟨hi, rfl⟩ := h
    rw [kindValue]
    refine (realizes_exprs args hra ha hki hs).bind fun vs written s hvs => ?_
    obtain ⟨hlength, hs⟩ := hvs
    cases vs with
    | nil => exact absurd (List.length_eq_zero_iff.1 hlength.symm) hne
    | cons receiver vs =>
      dsimp only
      rw [methodDynamic_eq ht]
      exact realizes_silent ht hcall hc (receiver :: vs) hs hi rfl (by
        rw [hlength, Instr.pops]
        have := List.length_pos_iff.2 hne
        omega)
  | .field object name index, hro, ⟨last, ho, h⟩, hk, hs => by
    have hki := hk.init (counts_expr object ho).1 h (by cases index <;> rfl)
    obtain ⟨hi, rfl⟩ := h
    rw [kindValue]
    refine (realizes_expr object hro ho hki hs).bind fun v written s hs => ?_
    cases index with
    | some i => exact realizes_silent ht hcall hc [v] hs hi rfl rfl
    | none => exact realizes_silent ht hcall hc [v] hs hi rfl rfl
  | .structInit name values, hrv, ⟨id, last, hid, hv, h⟩, hk, hs => by
    have hki := hk.init (counts_exprs values hv).1 h rfl
    rw [kindValue, show w.ids = t.ids from ht.ids.symm, hid, known_bind]
    refine (realizes_exprs values hrv hv hki hs).bind fun vs written s hvs => ?_
    exact realizes_value ht hcall hc vs hvs.2 h rfl hvs.1
  | .lambda _ _ body captures, _, ⟨id, _, last, _, _, _, _, hl, h⟩, hk, hs => by
    have hcl := counts_loadsAt hl
    -- the value that is made is that of the lambda
    have hid : id = first + (stmtsOutline t.ids body).total := by
      have hmade := (hk.after hcl (Counts.ends h).1).made
      obtain ⟨hi, rfl⟩ := h
      rw [made_has hi] at hmade
      exact (List.cons.inj hmade).1
    rw [kindValue, show w.ids = t.ids from ht.ids.symm, ← hid]
    refine (realizes_reads ht hcall hc hcaps hm hl hs).bind fun vs written s hvs => ?_
    refine realizes_value ht hcall hc vs hvs.2 h ?_ hvs.1
    cases vs <;> rfl
  | .spawn _ _, _, _, hk, _ | .await _, _, _, hk, _ => absurd hk.tasks (Nat.succ_ne_zero _)
  | .box inner, hri, ⟨last, hi, h⟩, hk, hs => by
    have hki := hk.init (counts_expr inner hi).1 h rfl
    rw [kindValue]
    refine (realizes_expr inner hri hi hki hs).bind fun v written s hs => ?_
    exact realizes_value ht hcall hc [v] hs h rfl rfl
  | .unbox inner, hri, ⟨last, hi, h⟩, hk, hs => by
    have hki := hk.init (counts_expr inner hi).1 h rfl
    obtain ⟨hat, rfl⟩ := h
    rw [kindValue, show w.ids = t.ids from ht.ids.symm]
    refine (realizes_expr inner hri hi hki hs).bind fun v written s hs => ?_
    exact realizes_silent ht hcall hc [v] hs hat rfl rfl
  | .cast inner, hri, ⟨target, last, htarget, hi, h⟩, hk, hs => by
    have hki := hk.init (counts_expr inner hi).1 h rfl
    obtain ⟨hat, rfl⟩ := h
    rw [kindValue, htarget, known_bind]
    refine (realizes_expr inner hri hi hki hs).bind fun v written s hs => ?_
    exact realizes_silent ht hcall hc [v] hs hat rfl rfl
  | .format parts, hrp, ⟨last, hp, h⟩, hk, hs => by
    have hki := hk.init (counts_exprs parts hp).1 h rfl
    rw [kindValue]
    refine (realizes_exprs parts hrp hp hki hs).bind fun vs written s hvs => ?_
    exact realizes_value ht hcall hc vs hvs.2 h rfl hvs.1

theorem realizes_exprs {start stop first : Nat} {stack : List Value} {written : String}
    {s : Running} : (es : List TExpr) → ExprsReceived es → ExprsAt t c.code P start es stop →
    c.code.Carries (exprsOutline t.ids es) first start stop → c.Stands o start b stack written s →
    Realizes w.linked o (n + 1) s
      (fun vs written s => vs.length = es.length ∧
        c.Stands o stop b (vs.reverse ++ stack) written s)
      (w.exprs call c.activation env first es written)
  | [], _, h, _, hs => by
    obtain rfl : stop = start := h
    exact .pure ⟨rfl, hs⟩
  | e :: rest, ⟨hre, hrr⟩, ⟨mid, he, hr⟩, hk, hs => by
    obtain ⟨hke, hkr⟩ := hk.split (counts_expr e he) (counts_exprs rest hr).1
    rw [exprs, show w.ids = t.ids from ht.ids.symm]
    refine (realizes_expr e hre he hke hs).bind fun v written s hs => ?_
    refine (realizes_exprs rest hrr hr hkr hs).bind fun vs written s hvs =>
      .pure ⟨congrArg (· + 1) hvs.1, ?_⟩
    rw [List.reverse_cons, List.append_assoc]
    exact hvs.2

end

end

end Evaluator

end ScopedScript
