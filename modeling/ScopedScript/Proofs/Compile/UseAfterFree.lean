import ScopedScript.Proofs.Compile.SafePaths
import ScopedScript.Proofs.Evaluation.Correspondence
import ScopedScript.Proofs.Machine.FrameSteps
import ScopedScript.Proofs.Machine.Raising
import ScopedScript.Proofs.Typing.Looped

/-!
# No use after a release

A frame of a compiled function starts with the bindings that the compiler begins with, and every
step of the machine takes it along a path of its code. So no instruction of it ever fails because of
the slot that it works on: none is read, moved, written or freed unless it is live, and none is
declared while it is.
-/

namespace ScopedScript

open Bindings

/-! ## What instructions do to slots -/

namespace Instr

/-- The work of an instruction on the bindings of its frame, where `v` is the operand that it takes.
-/
def operation (v : Value) : Instr → BindingM Unit
  | enterScope => BindingM.enterScope
  | exitScope => do
    let _ ← BindingM.exitScope
  | declare slot => BindingM.declare slot v
  | load slot => do
    let _ ← BindingM.load slot
  | move slot => do
    let _ ← BindingM.take slot
  | store slot => BindingM.store slot v
  | storeField slot path => BindingM.storeField slot path v
  | free slot => BindingM.free slot
  | _ => pure ()

/-- Where an instruction finds its slot as it needs it, it fails at most for the path of a field. -/
theorem Meets.operation_error {i : Instr} {b b' : Bindings} {v : Value} {e : SlotError}
    (h : i.Meets b) (he : i.operation v b = .error e b') : e = .badPath := by
  cases i with
  | exitScope =>
    rcases BindingM.exitScope_cases b with ⟨-, ho⟩ | ⟨hn, -⟩
    · rw [operation, BindingM.bind_apply, ho] at he
      cases he
    · exact absurd hn h
  | declare slot =>
    rcases BindingM.declare_cases slot v b with ⟨-, -, ho⟩ | ⟨hn, -⟩
    · rw [operation, ho] at he
      cases he
    · exact absurd h hn
  | load slot =>
    rcases BindingM.load_cases slot b with ⟨w, -, ho⟩ | ⟨hn, -⟩
    · rw [operation, BindingM.bind_apply, ho] at he
      cases he
    · exact absurd h hn
  | move slot =>
    rcases BindingM.take_cases slot b with ⟨w, -, ho⟩ | ⟨hn, -⟩
    · rw [operation, BindingM.bind_apply, ho] at he
      cases he
    · exact absurd h hn
  | store slot =>
    rcases BindingM.store_cases slot v b with ⟨-, ho⟩ | ⟨hn, -⟩
    · rw [operation, ho] at he
      cases he
    · exact absurd h hn
  | storeField slot path =>
    rcases BindingM.storeField_cases slot path v
      b with ⟨w, whole, -, -, ho⟩ | ⟨w, -, -, ho⟩ | ⟨hn, -⟩
    · rw [operation, ho] at he
      cases he
    · rw [operation, ho] at he
      cases he
      rfl
    · exact absurd h hn
  | free slot =>
    rcases BindingM.free_cases slot b with ⟨-, ho⟩ | ⟨hn, -⟩
    · rw [operation, ho] at he
      cases he
    · exact absurd h hn
  | _ => cases he

/-- The machine does this work at the instruction: where that fails, so does the operation. -/
theorem operation_of_rebind {act : BindingM (Option Value × Option (ReleaseKind × List Nat))}
    {i : Instr} {ops : List Value} {b b' : Bindings} {e : SlotError} (hr : i.rebind? ops = some act)
    (he : act b = .error e b') : ∃ v, i.operation v b = .error e b' := by
  -- what is done with the answer of an operation cannot fail
  have first {α : Type} {x : BindingM α} {g : α → Option Value × Option (ReleaseKind × List Nat)}
      (h : (do return g (← x)) b = .error e b') : x b = .error e b' := by
    rw [BindingM.bind_apply] at h
    split at h
    · cases h
    · cases h
      assumption
  -- nor can it when there is no answer to be used
  have unused {α : Type} {x : BindingM α} (h : x b = .error e b') :
      (do let _ ← x : BindingM Unit) b = .error e b' := by
    rw [BindingM.bind_apply, h]
  cases i with
  | enterScope =>
    cases ops <;> cases hr
    cases he
  | exitScope =>
    cases ops <;> cases hr
    exact ⟨.null, unused (first he)⟩
  | declare slot =>
    rcases ops with - | ⟨v, - | ⟨w, ops⟩⟩ <;> cases hr
    exact ⟨v, first (g := fun _ => (none, none)) he⟩
  | load slot =>
    cases ops <;> cases hr
    exact ⟨.null, unused (first he)⟩
  | move slot =>
    cases ops <;> cases hr
    exact ⟨.null, unused (first he)⟩
  | store slot =>
    rcases ops with - | ⟨v, - | ⟨w, ops⟩⟩ <;> cases hr
    exact ⟨v, first (g := fun _ => (none, none)) he⟩
  | storeField slot path =>
    rcases ops with - | ⟨v, - | ⟨w, ops⟩⟩ <;> cases hr
    exact ⟨v, first (g := fun _ => (none, none)) he⟩
  | free slot =>
    cases ops <;> cases hr
    exact ⟨.null, first (g := fun _ => (none, some (.explicit, [slot]))) he⟩
  | _ => cases hr

end Instr

/-! ## What instructions raise about slots -/

/-- Why a fault may be about slots and yet no work of the instruction on the bindings of its frame.
-/
inductive FaultCause.Foreign (p : Linked) (s : Scheduler) (i : Instr) (c : FaultCause) : Prop
  /-- A function is called with another number of arguments than it takes. -/
  | entering {id base : Nat} {f : FunctionCode} {args captures : List Value} {box : Bool}
    {e : SlotError} (hf : p.module.functions[id]? = some f) (hargs : args.length ≠ f.arity)
    (he : Frame.enter id f args captures base box = .error e) (hc : c = e.cause f)
  /-- The awaited task has failed for this cause. -/
  | awaiting {id : Nat} {target : Task} {g : Fault} (hi : i = .await) (ht : s.get? id = some target)
    (hr : target.result = some (.error g)) (hc : c = g.cause)

theorem Trap.located_eq_fault {t : Trap} {span : Option Span} {name : String} {g : Fault}
    (h : t.located span name = .fault g) : ∃ g', t = .fault g' ∧ g.cause = g'.cause := by
  cases t with
  | lost type => cases h
  | fault g' =>
    cases h
    obtain ⟨cause, span', _ | function⟩ := g' <;> exact ⟨_, rfl, rfl⟩

/-- A function that has been compiled is entered when it is called with the arguments that it takes.
-/
theorem Tables.Make.length_of_enter_error {t : Tables} {typed : TProgram} {m : Module}
    (h : t.Make typed m) {function base : Nat} {f : FunctionCode} {args captures : List Value}
    {box : Bool} {e : SlotError} (hf : m.functions[function]? = some f)
    (he : Frame.enter function f args captures base box = .error e) : args.length ≠ f.arity := by
  intro hargs
  obtain ⟨body, -, hcode⟩ := h.body_of_function hf
  obtain ⟨stop, -, hw⟩ := id hcode
  obtain ⟨b, hb, -⟩ := Frame.models_enter (q := ⟨"", body, 0⟩) hcode function captures base box
    (hargs.trans hw.arity)
  rw [hb] at he
  cases he

namespace Exec

variable {p : Linked} {f : FunctionCode} {s s' : Running} {fr : Frame}
  {callers : List Frame} {i : Instr} {g : Fault}

theorem pop_nil (hs : s.task.stack = []) :
    pop s = .error (.fault (.of (.malformed .underflow))) s := by
  rw [pop, bind_apply, get_apply]
  dsimp only
  rw [hs]
  rfl

/-- An instruction that works on the bindings of its frame fails about slots when that work does. -/
theorem operation_of_step (hs : s.task.frames = fr :: callers) (hi : i.binds = true)
    (h : step p f i s = .error (.fault g) s') (hg : g.cause.aboutSlots = true) :
    ∃ v e b, i.operation v fr.bindings = .error e b ∧ g.cause = e.cause f := by
  have works {act : BindingM (Option Value × Option (ReleaseKind × List Nat))} {rest : List Value}
      (ops : List Value) (hr : i.rebind? ops = some act)
      (hstack : s.task.stack = ops.reverse ++ rest) :
      ∃ v e b, i.operation v fr.bindings = .error e b ∧ g.cause = e.cause f := by
    rw [step_rebind hs hr hstack] at h
    cases ha : act fr.bindings with
    | ok r b =>
      rw [ha] at h
      cases h
    | error e b =>
      rw [ha] at h
      cases h
      obtain ⟨v, hv⟩ := Instr.operation_of_rebind hr ha
      exact ⟨v, e, b, hv, rfl⟩
  -- an operand that is not there is no matter of slots
  have takes {k : Value → Exec Unit} (hstep : step p f i = goOn (pop >>= k))
      (hr : ∀ v, ∃ act, i.rebind? [v] = some act) :
      ∃ v e b, i.operation v fr.bindings = .error e b ∧ g.cause = e.cause f := by
    cases hstack : s.task.stack with
    | nil =>
      rw [hstep, goOn_apply, bind_apply, pop_nil hstack] at h
      cases h
      cases hg
    | cons v rest =>
      obtain ⟨act, hact⟩ := hr v
      exact works [v] hact hstack
  cases i with
  | enterScope | exitScope | load slot | move slot | free slot =>
    exact works [] rfl rfl
  | declare slot | store slot | storeField slot path => exact takes rfl fun v => ⟨_, rfl⟩
  | _ => cases hi

/-- A fault about slots that an await hands on is that of the awaited task. -/
theorem result_of_await (h : step p f .await s = .error (.fault g) s')
    (hg : g.cause.aboutSlots = true) :
    ∃ id target, s.scheduler.get? id = some target ∧ target.result = some (.error g) := by
  cases hstack : s.task.stack with
  | nil =>
    rw [step, await, bind_apply, pop_nil hstack] at h
    cases h
    cases hg
  | cons v rest =>
    rw [step_await hstack] at h
    cases hv : v.unboxed with
    | task id =>
      rw [hv] at h
      dsimp only at h
      by_cases hself : id = s.task.id
      · rw [if_pos hself] at h
        cases h
        cases hg
      rw [if_neg hself] at h
      cases ht : s.scheduler.get? id with
      | none =>
        rw [ht] at h
        cases h
        cases hg
      | some target =>
        rw [ht] at h
        dsimp only at h
        cases hc : target.isCompleted with
        | false =>
          rw [hc] at h
          cases h
        | true =>
          rw [hc, if_pos rfl] at h
          rcases hr : target.result with - | g' | w <;> rw [hr] at h <;> cases h
          · cases hg
          · exact ⟨id, target, ht, hr⟩
    | _ =>
      rw [hv] at h
      cases h
      cases hg

/-- At an instruction that finds its slot as it needs it, the machine raises no fault about slots
but that of a path which leads nowhere, and those of other frames. -/
theorem fault_of_meets {t : Tables} {typed : TProgram} (hm : t.Make typed p.module)
    (hs : s.task.frames = fr :: callers) (hi : i.Meets fr.bindings)
    (h : step p f i s = .error (.fault g) s') (hg : g.cause.aboutSlots = true) :
    g.cause = .malformed (.slot .badPath) ∨ g.cause.Foreign p s.scheduler i := by
  by_cases hbinds : i.binds = true
  · obtain ⟨v, e, b, he, hcause⟩ := operation_of_step hs hbinds h hg
    obtain rfl := hi.operation_error he
    exact .inl hcause
  by_cases hawait : i = .await
  · subst hawait
    obtain ⟨id, target, ht, hr⟩ := result_of_await h hg
    exact .inr (.awaiting rfl ht hr rfl)
  have hadmits : Admits p fun t => ∀ g, t = .fault g → g.cause.aboutSlots = true →
      g.cause.Foreign p s.scheduler i := by
    constructor
    · rintro c hc g ⟨⟩ hg
      cases hc.symm.trans hg
    · rintro id f args captures base box e hf he g ⟨⟩ -
      exact .entering hf (hm.length_of_enter_error hf he) he rfl
  refine .inr
    ((hadmits.step (fun h => absurd h hbinds) (fun h => absurd h hawait) ?_).error h g rfl hg)
  rintro name - type g ⟨⟩

/-- The same of the instruction that the running task comes to. -/
theorem fault_of_next {t : Tables} {typed : TProgram} (hm : t.Make typed p.module)
    (hf : p.module.functions[fr.function]? = some f) (hcode : f.code[fr.ip]? = some i)
    (hs : s.task.frames = fr :: callers) (hi : i.Meets fr.bindings)
    (h : next p s = .error (.fault g) s') (hg : g.cause.aboutSlots = true) :
    g.cause = .malformed (.slot .badPath) ∨ g.cause.Foreign p s.scheduler i := by
  rw [next_apply hs hf hcode, EStateM.adaptExcept] at h
  cases hx : step p f i (s.withFrames ({ fr with ip := fr.ip + 1 } :: callers)) with
  | ok flow r =>
    rw [hx] at h
    cases h
  | error t r =>
    rw [hx] at h
    obtain ⟨g', rfl, hcause⟩ := Trap.located_eq_fault (EStateM.Result.error.inj h).1
    rw [hcause] at hg ⊢
    exact fault_of_meets hm (s := s.withFrames ({ fr with ip := fr.ip + 1 } :: callers))
      rfl hi hx hg

end Exec

/-! ## Where a frame starts -/

/-- A frame with as many arguments as its function has parameters starts as the compiler expects. -/
theorem mirrors_enter {t : Tables} {g : FunctionCode} {body : Body} (hg : BodyAt t g body)
    {fr : Frame} {id base : Nat} {args captures : List Value} {box : Bool}
    (hargs : args.length = g.arity) (h : Frame.enter id g args captures base box = .ok fr) :
    Mirrors g.slotCount (.start body) fr.bindings := by
  obtain ⟨stop, -, hw⟩ := hg
  obtain ⟨hfresh, hsize, hscopes⟩ := Frame.fresh_enter h
  have hsame : fr.bindings.scopes = (Point.start body).scopes.map (List.map Binding.slot) := by
    rw [hscopes, hargs, hw.arity, Point.scopes_start]
  constructor
  case size => exact hsize
  case scopes => exact hsame
  case live =>
    intro c hc _
    refine hfresh.live _ ?_
    rw [hsame, ← List.map_flatten]
    exact List.mem_map_of_mem hc
  case owned => exact hfresh.owned

/-- From its start, the code of a body finds its slots as it needs them. -/
theorem safe_body {t : Tables} {g : FunctionCode} {body : Body} (hg : BodyAt t g body)
    (hl : AllLooped false body.stmts) {b : Bindings} (hb : Mirrors g.slotCount (.start body) b)
    (n : Nat) : Safe g n 0 b := by
  obtain ⟨stop, hat, hw⟩ := hg
  obtain ⟨last, hnull, hret⟩ := hw.tail
  have hfine := Point.fine_start body
  have hleaves : Leaves g n none (.start body) := fun _ hx => nomatch hx
  refine safe_stmts hfine hleaves body.stmts hl hat (fun b _ => ?_) b hb
  exact safe_const hnull (safe_ret hret)

/-! ## Frames of a run -/

namespace MachineState

variable {p : Linked} {task depth : Nat} {a b : MachineState}

/-- The machine takes steps at which the frame at a place is still there. -/
def Keeps (p : Linked) (task depth : Nat) : MachineState → MachineState → Prop :=
  Relation.ReflTransGen fun a b => a.Steps p b ∧ (b.frameAt task depth).isSome

/-- What the code of a frame needs is there at every step, so the frame goes on safely. -/
structure Secure (p : Linked) (id : Nat) (f : FunctionCode) (fr : Frame) : Prop where
  function : fr.function = id
  code : p.module.functions[id]? = some f
  safe : ∀ n, Safe f n fr.ip fr.bindings

theorem Secure.step {id : Nat} {f : FunctionCode} {fr fr' : Frame} {es : List BindingEvent}
    (h : Secure p id f fr) (hs : FrameStep p (some fr) es (some fr')) : Secure p id f fr' := by
  cases hs with
  | stays => exact h
  | @moves _ g i _ b ip hf hi hb hip =>
    have hg : g = f := by
      rw [h.function, h.code] at hf
      exact (Option.some.inj hf).symm
    subst hg
    refine ⟨h.function, h.code, fun n => ?_⟩
    obtain ⟨-, hs⟩ := h.safe (n + 1) i hi
    exact hs _ b ip hb hip

/-- A frame that stays in its place stays secure. -/
theorem Secure.keeps {id : Nat} {f : FunctionCode} {fr : Frame} (ht : a.Tidy p)
    (hat : a.frameAt task depth = some fr) (h : Secure p id f fr) (hb : Keeps p task depth a b) :
    b.Tidy p ∧ ∃ fr', b.frameAt task depth = some fr' ∧ Secure p id f fr' := by
  induction hb with
  | refl => exact ⟨ht, fr, hat, h⟩
  | tail _ hstep ih =>
    obtain ⟨htidy, fr', hat', h'⟩ := ih
    obtain ⟨hstep, hsome⟩ := hstep
    have hadv := advance_step htidy hstep
    obtain ⟨fr'', hat''⟩ := Option.isSome_iff_exists.1 hsome
    have hframe := hadv.frames task depth
    rw [hat', hat''] at hframe
    exact ⟨hadv.tidy, fr'', hat'', h'.step hframe⟩

end MachineState

namespace Linked

variable {p : Linked} {program : Program} {natives : List (String × Signature)} {typed : TProgram}

/-- In every run of a program that has been checked and compiled, from when a frame has been entered
with as many arguments as its function takes for as long as it stays, each instruction that it comes
to finds its slot as it needs it: no operation on the bindings of the frame fails for a slot. So the
machine raises no fault about slots at the frame but for a path of fields that leads nowhere; what
else it may raise is about frames that a call does not enter or of a task that is awaited. -/
theorem slots_meet (hcheck : program.check natives = .ok typed)
    (hcompile : typed.compile = .ok p.module) {name : String} {first : Frame}
    (hentry : p.entry name = .ok first) {start : Machine} {a b : MachineState}
    (ha : MachineState.Reaches p (startState start first) a) {task depth function base : Nat}
    {f : FunctionCode} {args captures : List Value} {box : Bool} {fr : Frame}
    (hf : p.module.functions[function]? = some f) (hargs : args.length = f.arity)
    (henter : Frame.enter function f args captures base box = .ok fr)
    (hat : a.frameAt task depth = some fr) (hb : MachineState.Keeps p task depth a b) :
    ∃ fr', b.frameAt task depth = some fr' ∧ fr'.function = function ∧
      ∀ i, f.code[fr'.ip]? = some i → i.Meets fr'.bindings ∧
        (∀ v e b', i.operation v fr'.bindings = .error e b' → e = .badPath) ∧
        ∀ s callers g s', b = .busy s → s.task.frames = fr' :: callers →
          Exec.next p s = .error (.fault g) s' → g.cause.aboutSlots = true →
            g.cause = .malformed (.slot .badPath) ∨ g.cause.Foreign p s.scheduler i := by
  obtain ⟨t, ht⟩ := typed.compile_ok hcompile
  have hlooped := Program.check_looped hcheck
  -- the code of the frame is that of a body of the program
  obtain ⟨body, hbody, hcode⟩ := ht.body_of_function hf
  have hmirrors := mirrors_enter hcode hargs henter
  have hsecure : MachineState.Secure p function f fr := by
    obtain ⟨hfunction, hip⟩ := Frame.enter_place henter
    refine ⟨hfunction, hf, fun n => ?_⟩
    rw [hip]
    exact safe_body hcode (hlooped body hbody) hmirrors n
  have htidy : a.Tidy p :=
    MachineState.tidy_of_reaches (tidy_startState (entered_entry hentry) start) ha
  obtain ⟨-, fr', hat', hsec⟩ := hsecure.keeps htidy hat hb
  refine ⟨fr', hat', hsec.function, fun i hi => ?_⟩
  obtain ⟨hmeets, -⟩ := hsec.safe 1 i hi
  refine ⟨hmeets, fun v e b' he => hmeets.operation_error he, ?_⟩
  intro s callers g s' _ hframes hnext hg
  exact Exec.fault_of_next ht (hsec.function.symm ▸ hf) hi hframes hmeets hnext hg

/-- A binding that is freed. -/
def freesOnce : Program where
  items := [.function ⟨"main", [], none,
    [.declare "x" false none (some (.int 7 none)) none, .free "x" none], false, none⟩]
  source := none

def checkedFreesOnce : TProgram where
  structs := []
  functions := [{
    name := "main", params := [], ret := .void, isAsync := false, span := none
    body := [.declare "x" false .int (some (.mk (.int 7) .int none)) none, .free "x" none] }]
  source := none

def compiledFreesOnce : Module where
  functions := #[
    ⟨"main", 0, 1, #["x"], [], false, [], #[.const 0, .declare 0, .free 0, .const 1, .ret],
      #[.int 7, .null], #[none, none, none, none, none]⟩]
  structs := #[]
  natives := #[]
  source := none

theorem check_freesOnce : freesOnce.check [] = .ok checkedFreesOnce := by
  cbv

theorem compile_freesOnce : checkedFreesOnce.compile = .ok compiledFreesOnce := by
  cbv

theorem freesOnce_meets : ∃ b fr, MachineState.frameAt b 0 0 = some fr ∧
    compiledFreesOnce.functions[0].code[fr.ip]? = some (.free 0) ∧
    (Instr.free 0).Meets fr.bindings := by
  let p : Linked := ⟨compiledFreesOnce, #[], .default⟩
  let first : Frame := ⟨0, 0, ⟨#[.unbound], [[]]⟩, [], 0, false⟩
  have hentry : p.entry "main" = .ok first := by cbv
  -- the task begins its turn, pushes the value and declares the binding
  have hsteps : ∃ b, MachineState.Keeps p 0 0 (startState .empty first) b ∧
      b.frameAt 0 0 = some ⟨0, 2, ⟨#[.live (.int 7)], [[0]]⟩, [], 0, false⟩ :=
    ⟨_, .tail (.tail (.tail .refl ⟨rfl, rfl⟩) ⟨rfl, rfl⟩) ⟨rfl, rfl⟩, rfl⟩
  obtain ⟨b, hkeeps, hb⟩ := hsteps
  have hfirst : (startState .empty first).frameAt 0 0 = some first := rfl
  have henter : Frame.enter 0 compiledFreesOnce.functions[0] [] [] 0 false = .ok first := rfl
  obtain ⟨fr, hat, -, h⟩ := slots_meet (p := p) check_freesOnce compile_freesOnce hentry (.refl _)
    rfl rfl henter hfirst hkeeps
  rw [hb] at hat
  cases hat
  exact ⟨b, _, hb, rfl, (h _ rfl).1⟩

end Linked

end ScopedScript
