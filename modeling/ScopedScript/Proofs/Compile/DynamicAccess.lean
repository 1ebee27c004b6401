import ScopedScript.Proofs.Compile.StructLayouts
import ScopedScript.Proofs.Compile.Suspension
import ScopedScript.Proofs.Machine.DynamicCalls
import ScopedScript.Proofs.Values.Boxes

/-!
# Access through `any`

Where the type of a value is known, the compiler picks an index, a function or a kind of operands.
Where the value is in a box, the machine looks up names, checks shapes and puts results into boxes.
In a module of an accepted program both come to the same.
-/

namespace ScopedScript

namespace Exec

variable {p : Linked} {f : FunctionCode} {s : Running}

/-- The second answer is a box around the first, or both instructions fail for one cause. -/
inductive AnswersAlike (s : Running) :
    EStateM.Result Trap Running Flow → EStateM.Result Trap Running Flow → Prop
  | value (v : Value) : AnswersAlike s (.ok .goOn (s.withStack (v :: s.task.stack)))
    (.ok .goOn (s.withStack (v.boxed :: s.task.stack)))
  | fails (cause : FaultCause) : AnswersAlike s (fail cause s) (fail cause s)

/-- A call of known type with arguments as the parameters hold them, and a call through `any` with
arguments in any boxes. The second does as the first if the arguments have the shapes of the
parameters, and otherwise it is a type error that leaves the frames alone. -/
structure CallAgrees (p : Linked) (s : Running) (tags : List TypeTag) (args : List Value)
    (static : List Value → EStateM.Result Trap Running Flow)
    (dynamic : EStateM.Result Trap Running Flow) : Prop where
  taken : (MachineState.busy s).Scheduled → s.task.frames ≠ [] → Value.HaveShapes tags args →
    CallsAlike p s (static (Value.coercedAll tags args)) dynamic
  refused : ¬ Value.HaveShapes tags args → ∃ cause, dynamic = fail (.mistype cause) s

theorem answersAlike_ofExcept (x : Except FaultCause Value) (s : Running) :
    AnswersAlike s (perform p (.ofExcept x) s) (perform p (.ofExcept (x.map Value.boxed)) s) := by
  cases x with
  | ok v => exact .value v
  | error cause => exact .fails cause

theorem step_arith (op : ArithOp) (kind : OperandKind) (a b : Value) :
    step p f (.arith op kind) (s.withStack (b :: a :: s.task.stack)) =
      perform p (.ofExcept (Operator.arith p.module op kind a b)) s := by
  rw [step, goOn_pop (Running.stack_withStack ..), goOn_pop (Running.stack_withStack ..),
    push_ofExcept]
  rfl

theorem step_negate (kind : OperandKind) (a : Value) :
    step p f (.neg kind) (s.withStack (a :: s.task.stack)) =
      perform p (.ofExcept (Operator.negate p.module kind a)) s := by
  rw [step, goOn_pop (Running.stack_withStack ..), push_ofExcept]
  rfl

theorem step_getField {v w : Value} {type index : Nat} {fields : List Value}
    (hv : v.unboxed = .struct type fields) (hw : fields[index]? = some w) :
    step p f (.getField index) (s.withStack (v :: s.task.stack)) =
      .ok .goOn (s.withStack (w :: s.task.stack)) := by
  rw [step, goOn_pop (Running.stack_withStack ..), push_getField (p := p), Reaction.ofField, hv]
  simp only [hw]
  rfl

theorem step_getFieldDynamic {v w : Value} {type index : Nat} {fields : List Value} {name : String}
    {layout : StructLayout} (hv : v.unboxed = .struct type fields)
    (hlayout : p.module.structs[type]? = some layout)
    (hindex : layout.fieldIndex? name = some index) (hw : fields[index]? = some w) :
    step p f (.getFieldDynamic name) (s.withStack (v :: s.task.stack)) =
      .ok .goOn (s.withStack (w.boxed :: s.task.stack)) := by
  rw [step, goOn_pop (Running.stack_withStack ..), push_getFieldDynamic (p := p),
    Reaction.ofFieldDynamic, hv]
  simp only [hlayout, hindex, hw]
  rfl

theorem step_unbox {tag : TypeTag} {v : Value} (h : v.hasShape tag = true) :
    step p f (.unbox tag) (s.withStack (v :: s.task.stack)) =
      .ok .goOn (s.withStack (v.coerced tag :: s.task.stack)) := by
  rw [step, goOn_pop (Running.stack_withStack ..), push_ofMistype (p := p), unbox_of_hasShape h]
  rfl

/-- A call by which an instruction enters the function that a call through `any` enters. -/
theorem CallAgrees.of_perform {id : Nat} {g : FunctionCode} {args captures : List Value}
    {static : List Value → EStateM.Result Trap Running Flow}
    {dynamic : EStateM.Result Trap Running Flow} (hg : p.module.functions[id]? = some g)
    (hasync : g.isAsync = false) (hcount : g.paramTags.length = g.arity)
    (hstatic : ∀ args, static args = perform p (.enter id args captures false) s)
    (hdynamic : dynamic = perform p (.ofDynamic p id args captures) s) :
    CallAgrees p s g.paramTags args static dynamic where
  taken hsch hframes h := by
    rw [hstatic, hdynamic, ofDynamic_of_haveShapes hg hasync hcount h]
    exact callsAlike_enter hsch hframes id _ captures
  refused h := by
    obtain ⟨cause, hcause⟩ := ofDynamic_of_not_haveShapes hg hasync hcount h captures
    exact ⟨cause, by rw [hdynamic, hcause, perform]⟩

end Exec

theorem Value.Refers.target? {S : Nat → Prop} {v : Value} (h : v.Refers S) {id : Nat}
    {captures : List Value} (ht : v.target? = some (id, captures)) : S id := by
  rw [← Value.refers_unboxed] at h
  unfold Value.target? at ht
  split at ht <;> rename_i hv <;> cases ht
  · rwa [hv, Value.refers_function] at h
  · rw [hv, Value.refers_closure] at h
    exact h.1

namespace Linked

open Exec

/-- Access through `any` in a module of a program: `known` are the names that bodies were checked
with, and instructions take their operands from above those that the machine has anyway. -/
structure AccessAgrees (p : Linked) (typed : TProgram) (known : Globals) : Prop where
  /-- A field that is looked up by name is a box around the field at the index that the checker gave
  it. -/
  field {f : FunctionCode} {s : Running} {v : Value} {type index : Nat} {fields : List Value}
    {info : StructInfo} {name : String} {span : Option Span} {env : Env} {ty : Ty} :
    typed.structs[type]? = some info → v.unboxed = .struct type fields →
    fields.length = info.fields.length →
    env.globals = known → (Check.fieldType (.struct info.name) name span env).1 = (some index, ty) →
    ∃ w, fields[index]? = some w ∧
      step p f (.getField index) (s.withStack (v.unboxed :: s.task.stack)) =
        .ok .goOn (s.withStack (w :: s.task.stack)) ∧
      step p f (.getFieldDynamic name) (s.withStack (v :: s.task.stack)) =
        .ok .goOn (s.withStack (w.boxed :: s.task.stack))
  /-- A method that is looked up by name is called as the function that the name of the method and
  that of the struct stand for. -/
  method {type : Nat} {info : StructInfo} {name : String} : typed.structs[type]? = some info →
    name ∈ info.methods → ∃ id g tags,
      (Ids.ofProgram typed).functions.lookup (methodSymbol info.name name) = some id ∧
      p.module.functions[id]? = some g ∧ g.paramTags = .struct type :: tags ∧
      ∀ (f : FunctionCode) (s : Running) (args fields : List Value) (receiver : Value),
        receiver.unboxed = .struct type fields → CallAgrees p s tags args
          (fun args => step p f (.call id (args.length + 1))
            (s.withStack ((receiver.unboxed :: args).reverse ++ s.task.stack)))
          (step p f (.callMethodDynamic name args.length)
            (s.withStack (args.reverse ++ receiver :: s.task.stack)))
  /-- A function or closure in a box is called as one in no box is. -/
  callValue {f : FunctionCode} {s : Running} {callee : Value}
    {args captures : List Value} {id : Nat}
    {g : FunctionCode} : callee.target? = some (id, captures) → p.module.functions[id]? = some g →
    g.isAsync = false → CallAgrees p s g.paramTags args
      (fun args => step p f (.callValue args.length)
        (s.withStack (args.reverse ++ callee.unboxed :: s.task.stack)))
      (step p f (.callDynamic args.length) (s.withStack (args.reverse ++ callee :: s.task.stack)))
  /-- A function in a box is called as by its name. -/
  call {f : FunctionCode} {s : Running} {callee : Value} {args : List Value} {id : Nat}
    {g : FunctionCode} : callee.target? = some (id, []) → p.module.functions[id]? = some g →
    g.isAsync = false → CallAgrees p s g.paramTags args
      (fun args => step p f (.call id args.length) (s.withStack (args.reverse ++ s.task.stack)))
      (step p f (.callDynamic args.length) (s.withStack (args.reverse ++ callee :: s.task.stack)))
  /-- Arguments are taken out of their boxes as by the instruction for it. -/
  coerced {f : FunctionCode} {s : Running} {v : Value} {tag : TypeTag} : v.hasShape tag = true →
    step p f (.unbox tag) (s.withStack (v :: s.task.stack)) =
      .ok .goOn (s.withStack (v.coerced tag :: s.task.stack))
  /-- Arithmetic on boxes around operands of the types that a specialized instruction is for. -/
  arith {f : FunctionCode} {s : Running} {op : ArithOp} {l r : Ty} {a b a' b' : Value} :
    (BinaryOp.arith op).Specialized l r → a.hasTag ((Ids.ofProgram typed).tagOf l) = true →
    b.hasTag ((Ids.ofProgram typed).tagOf r) = true → a'.unboxed = a → b'.unboxed = b →
    AnswersAlike s (step p f (.arith op (operandKind l r)) (s.withStack (b :: a :: s.task.stack)))
      (step p f (.arith op .dynamic) (s.withStack (b' :: a' :: s.task.stack)))
  negation {f : FunctionCode} {s : Running} {t : Ty} {a a' : Value} : t.NegationSpecialized →
    a.hasTag ((Ids.ofProgram typed).tagOf t) = true → a'.unboxed = a →
    AnswersAlike s (step p f (.neg (operandKind t t)) (s.withStack (a :: s.task.stack)))
      (step p f (.neg .dynamic) (s.withStack (a' :: s.task.stack)))
  /-- As for arithmetic, but the result is in no box. -/
  order {f : FunctionCode} {s : Running} {op : OrderOp} {l r : Ty} {a b a' b' : Value} :
    (BinaryOp.order op).Specialized l r → a.hasTag ((Ids.ofProgram typed).tagOf l) = true →
    b.hasTag ((Ids.ofProgram typed).tagOf r) = true → a'.unboxed = a → b'.unboxed = b →
    step p f (.order op .dynamic) (s.withStack (b' :: a' :: s.task.stack)) =
      step p f (.order op (operandKind l r)) (s.withStack (b :: a :: s.task.stack))
  /-- In a run the table of tasks is in order, and no value stands for an async function, if the
  built-ins hand out none. -/
  reached {name : String} {frame : Frame} {start : Machine} {s : Running} :
    p.entry name = .ok frame →
    (startState start frame).Reaches p (.busy s) → (MachineState.busy s).Scheduled ∧
      (p.ForwardsFunctions p.module.Sync → ∀ v ∈ s.task.stack, ∀ id captures,
        v.target? = some (id, captures) → p.module.Sync id)

variable {p : Linked}

/-- Access through `any` agrees with access where the type is known. -/
theorem access_agrees {program : Program} {natives : List (String × Signature)} {typed : TProgram}
    (hcheck : program.check natives = .ok typed) (hcompile : typed.compile = .ok p.module)
    (hnames : (typed.functions.map TFunction.name).Nodup) :
    p.AccessAgrees typed (program.globals natives) where
  field {f s v type index fields info name span env ty} hinfo hv hfields henv hty := by
    obtain ⟨hindex, hlt⟩ := TProgram.index_of_fieldType hcheck hinfo henv hty
    have hw := List.getElem?_eq_getElem (hfields ▸ hlt)
    exact ⟨fields[index], hw, step_getField ((Value.unboxed_unboxed v).trans hv) hw,
      step_getFieldDynamic hv (TProgram.layout_at hcompile hinfo) hindex hw⟩
  method {type info name} hinfo hname := by
    obtain ⟨id, g, tags, hid, hmethod, hg, htags, hsync⟩ :=
      TProgram.method_at hcheck hcompile hnames hinfo hname
    refine ⟨id, g, tags, hid, hg, htags, fun f s args fields receiver hreceiver => ?_⟩
    -- the receiver is an argument like the others, and has the shape of its parameter
    let self : Value := .struct type fields
    have hall : CallAgrees p s g.paramTags (self :: args)
        (fun args => step p f (.call id args.length) (s.withStack (args.reverse ++ s.task.stack)))
        (perform p (.ofDynamic p id (self :: args) []) s) :=
      .of_perform hg (hsync g hg) (TProgram.length_paramTags hcompile hg) (step_call ·) rfl
    have hdynamic : step p f (.callMethodDynamic name args.length)
        (s.withStack (args.reverse ++ receiver :: s.task.stack)) =
          perform p (.ofDynamic p id (self :: args) []) s :=
      step_callMethodDynamic hreceiver (TProgram.layout_at hcompile hinfo) hmethod args
    rw [htags] at hall
    have hself : self.hasShape (.struct type) = true := beq_self_eq_true type
    refine ⟨fun hsch hframes h => ?_, fun h => ?_⟩
    · rw [hdynamic, hreceiver]
      exact hall.taken hsch hframes (.cons hself h)
    · rw [hdynamic]
      exact hall.refused fun hshapes => h (List.forall₂_cons.1 hshapes).2
  callValue {f s callee args captures id g} htarget hg hasync :=
    CallAgrees.of_perform hg hasync (TProgram.length_paramTags hcompile hg)
      (fun args => step_callValue ((Value.target?_unboxed callee).trans htarget) args)
      (step_callDynamic htarget args)
  call {f s callee args id g} htarget hg hasync :=
    CallAgrees.of_perform hg hasync (TProgram.length_paramTags hcompile hg) (step_call ·)
      (step_callDynamic htarget args)
  coerced := step_unbox
  arith {f s op l r a b a' b'} hop ha hb ha' hb' := by
    rw [step_arith, step_arith, Operator.arith_boxed p.module hop ha hb ha' hb']
    exact answersAlike_ofExcept _ s
  negation {f s t a a'} ht ha ha' := by
    rw [step_negate, step_negate, Operator.negate_boxed p.module ht ha ha']
    exact answersAlike_ofExcept _ s
  order {f s op l r a b a' b'} hop ha hb ha' hb' := by
    simp only [step, goOn_pop (Running.stack_withStack ..),
      Operator.order_boxed p.module hop ha hb ha' hb', Running.withStack_withStack]
  reached {name frame start s} hframe hs := by
    refine ⟨hs.preserves (I := MachineState.Scheduled) (fun _ _ h hstep => h.step hstep)
      (scheduled_startState start frame), fun hp v hv id captures htarget => ?_⟩
    obtain ⟨-, hwithin⟩ := within_of_reaches hcheck hcompile hnames hp hframe hs
    exact (hwithin.2.contents.stack v hv).target? htarget

/-- It puts a point into a box, and calls a method of it with one of its fields. -/
def points : Program where
  items := [
    .struct ⟨"Point", [⟨"x", .int, none⟩, ⟨"y", .int, none⟩],
      [⟨"plus", [⟨"d", .int, false, none⟩], some .int,
        [.ret (some (.binary (.arith .add)
          (.field (.name "self" none) "x" none) (.name "d" none) none)) none], false, none⟩], none⟩,
    .function ⟨"main", [], some .any,
      [.declare "p" false (some .any)
        (some (.structInit "Point" [("x", .int 1 none), ("y", .int 2 none)] none)) none,
       .ret (some (.methodCall (.name "p" none) "plus"
        [.field (.name "p" none) "y" none] none)) none],
      false, none⟩]
  source := none

def checkedPoints : TProgram where
  structs := [⟨"Point", [("x", .int), ("y", .int)], ["plus"], none⟩]
  functions := [{
    name := "Point.plus"
    params := [⟨"self", .struct "Point", false, none⟩, ⟨"d", .int, false, none⟩]
    ret := .int, isAsync := false, span := none
    body := [.ret (some (.mk (.binary (.arith .add)
      (.mk (.field (.mk (.binding "self") (.struct "Point") none) "x" (some 0)) .int none)
      (.mk (.binding "d") .int none)) .int none)) none] },
   { name := "main", params := [], ret := .any, isAsync := false, span := none
     body := [
       .declare "p" false .any
         (some (.mk (.box (.mk
           (.structInit "Point" [.mk (.int 1) .int none, .mk (.int 2) .int none])
           (.struct "Point") none)) .any none)) none,
       .ret (some (.mk (.callMethodDynamic "plus" [.mk (.binding "p") .any none,
         .mk (.field (.mk (.binding "p") .any none) "y" none) .any none]) .any none)) none] }]
  source := none

theorem check_points : points.check [] = .ok checkedPoints := by cbv

def compiledPoints : Module where
  functions := #[
    ⟨"Point.plus", 2, 2, #["self", "d"], [.struct 0, .int], false, [],
      #[.load 0, .getField 0, .load 1, .arith .add .int, .ret, .const 0, .ret], #[.null],
      #[none, none, none, none, none, none, none]⟩,
    ⟨"main", 0, 1, #["p"], [], false, [],
      #[.const 0, .const 1, .makeStruct 0 2, .box, .declare 0, .load 0, .load 0,
        .getFieldDynamic "y", .callMethodDynamic "plus" 1, .ret, .const 2, .ret],
      #[.int 1, .int 2, .null],
      #[none, none, none, none, none, none, none, none, none, none, none, none]⟩]
  structs := #[⟨"Point", ["x", "y"], [("plus", 0)]⟩]
  natives := #[]
  source := none

theorem compile_points : checkedPoints.compile = .ok compiledPoints := by cbv

/-- The machine on which the program runs. -/
def pointsLinked : Linked := ⟨compiledPoints, #[], .default⟩

/-- A point is read and called as one of known type is; a text is not taken for a number. -/
theorem points_access_agrees : ∃ (s : Running) (f : FunctionCode),
    step pointsLinked f (.getFieldDynamic "y") (s.withStack [.any (.struct 0 [.int 1, .int 2])]) =
      .ok .goOn (s.withStack [.any (.int 2)]) ∧
    CallsAlike pointsLinked s
      (step pointsLinked f (.call 0 2) (s.withStack [.int 2, .struct 0 [.int 1, .int 2]]))
      (step pointsLinked f (.callMethodDynamic "plus" 1)
        (s.withStack [.any (.int 2), .any (.struct 0 [.int 1, .int 2])])) ∧
    ∃ cause, step pointsLinked f (.callMethodDynamic "plus" 1)
      (s.withStack [.any (.string "two"), .any (.struct 0 [.int 1, .int 2])]) =
        fail (.mistype cause) s := by
  have hagrees := access_agrees (p := pointsLinked) check_points compile_points (by decide)
  let first : Frame := ⟨1, 0, ⟨#[.unbound], [[]]⟩, [], 0, false⟩
  have hentry : pointsLinked.entry "main" = .ok first := by cbv
  obtain ⟨s, hs, hstack, hframes⟩ : ∃ s, (startState .empty first).Reaches pointsLinked (.busy s) ∧
      s.task.stack = [] ∧ s.task.frames = [first] := ⟨_, .tail .refl rfl, rfl, rfl⟩
  obtain ⟨hsch, -⟩ := hagrees.reached hentry hs
  let f : FunctionCode := compiledPoints.functions[1]
  let point : Value := .struct 0 [.int 1, .int 2]
  have hpoint : checkedPoints.structs[0]? =
      some ⟨"Point", [("x", .int), ("y", .int)], ["plus"], none⟩ := rfl
  have hindex : (Check.fieldType (.struct "Point") "y" none
      { Env.ofNatives [] with globals := points.globals [] }).1 = (some 1, .int) := by cbv
  have hfield := hagrees.field (f := f) (s := s) (v := .any point) hpoint rfl rfl rfl hindex
  have hmethod := hagrees.method hpoint (List.mem_singleton.2 rfl)
  obtain ⟨w, hw, -, hdynamic⟩ := hfield
  obtain ⟨id, g, tags, hid, hg, htags, hcall⟩ := hmethod
  cases hw
  cases hid
  cases hg
  cases htags
  have hplus (v : Value) := hcall f s [v] _ (.any point) rfl
  rw [hstack] at hdynamic hplus
  refine ⟨s, f, hdynamic, (hplus (.any (.int 2))).taken hsch (by simp [hframes])
    (.cons rfl .nil), ?_⟩
  refine (hplus (.any (.string "two"))).refused fun h => ?_
  cases (List.forall₂_cons.1 h).1

end Linked

end ScopedScript
