import ScopedScript.Proofs.Typing.Waiting

/-!
# Which functions wait

When a program has one function for each name, every function of the compiled module stands where
its name points, and is async as its body is. Then `await` and `yield` stand in the code of async
functions only, and what code calls or makes a value of is not async.
-/

namespace ScopedScript

/-! ## One function for each name -/

theorem lookup_numbered {names : List String} (h : names.Nodup) {i : Nat} {name : String}
    (hi : names[i]? = some name) : (numbered names).lookup name = some i := by
  obtain ⟨j, hj⟩ := Option.isSome_iff_exists.1 (isSome_lookup_numbered (List.mem_of_getElem? hi))
  have := getElem?_of_lookup_numbered hj
  have hlt := (List.getElem?_eq_some_iff.1 hi).1
  rw [hj, (List.getElem?_inj hlt h).1 (hi.trans this.symm)]

theorem map_some_filterMap_id {xs : List (Option α)} (h : ∀ o ∈ xs, o.isSome) :
    (xs.filterMap id).map some = xs := by
  induction xs with
  | nil => rfl
  | cons o rest ih =>
    obtain ⟨ho, hrest⟩ := List.forall_mem_cons.1 h
    obtain ⟨a, rfl⟩ := Option.isSome_iff_exists.1 ho
    exact congrArg (some a :: ·) (ih hrest)

theorem getElem?_filterMap_id {xs : Array (Option α)} (h : ∀ o ∈ xs, o.isSome) (i : Nat) :
    (xs.filterMap id)[i]?.map some = xs[i]? := by
  rw [← Array.getElem?_toList, ← Array.getElem?_toList, Array.toList_filterMap, ← List.getElem?_map,
    map_some_filterMap_id fun o ho => h o (Array.mem_toList_iff.1 ho)]

namespace Tables.Make

variable {t : Tables} {p : TProgram} {m : Module}

/-- The code of every function is put in its place. -/
theorem filled (h : t.Make p m) (hnames : (p.functions.map TFunction.name).Nodup) {i : Nat}
    {o : Option FunctionCode} (ho : t.functions[i]? = some o) : o.isSome := by
  by_cases hi : p.functions.length ≤ i
  · exact h.added i o hi ho
  · have hf : p.functions[i]? = some p.functions[i] := List.getElem?_eq_getElem (by omega)
    have hid : t.ids.functions.lookup p.functions[i].name = some i := by
      rw [h.ids]
      exact lookup_numbered hnames (by rw [List.getElem?_map, hf]; rfl)
    obtain ⟨g, -, -, -, hg, -⟩ := h.placed _ (List.mem_of_getElem? hf) i hid
    rw [ho] at hg
    rw [Option.some.inj hg]
    rfl

/-- The functions of the module are those of the tables, at the same places. -/
theorem function_iff (h : t.Make p m) (hnames : (p.functions.map TFunction.name).Nodup) {i : Nat}
    {g : FunctionCode} : m.functions[i]? = some g ↔ t.functions[i]? = some (some g) := by
  have hfilled : ∀ o ∈ t.functions, o.isSome := fun o ho => by
    obtain ⟨i, hi⟩ := Array.mem_iff_getElem?.1 ho
    exact h.filled hnames hi
  rw [h.functions, ← getElem?_filterMap_id hfilled, Option.map_eq_some_iff]
  exact ⟨fun h => ⟨g, h, rfl⟩, fun ⟨_, h, he⟩ => Option.some.inj he ▸ h⟩

/-- The function that a name points at is the one of that name. -/
theorem named (h : t.Make p m) (hnames : (p.functions.map TFunction.name).Nodup)
    {name : String} {id : Nat}
    (hid : t.ids.functions.lookup name = some id) : ∃ f ∈ p.functions, f.name = name ∧
      ∃ g, m.functions[id]? = some g ∧ g.name = name ∧ BodyAt t g f.toBody := by
  have hat := getElem?_of_lookup_numbered (h.ids ▸ hid)
  rw [List.getElem?_map] at hat
  obtain ⟨f, hf, rfl⟩ := Option.map_eq_some_iff.1 hat
  have hmem := List.mem_of_getElem? hf
  obtain ⟨g, f', hf', hid', hg, hn, hb⟩ := h.placed f hmem id hid
  have hname : f'.name = f.name := by
    have := getElem?_of_lookup_numbered (h.ids ▸ hid')
    rw [List.getElem?_map, hf] at this
    exact (Option.some.inj this).symm
  obtain rfl := List.inj_on_of_nodup_map hnames hf' hmem hname
  exact ⟨f', hf', rfl, g, (h.function_iff hnames).2 hg, hn, hb⟩

end Tables.Make

/-! ## Instructions that wait -/

/-- Only an async function waits, and what is called or made a value is in `sync`. -/
def Instr.Waits (sync : Nat → Prop) (isAsync : Bool) : Instr → Prop
  | .call function _ | .makeClosure function _ => sync function
  | .await | .yieldNow => isAsync = true
  | _ => True

/-- All instructions between two addresses are as said. -/
def FunctionCode.All (f : FunctionCode) (Q : Instr → Prop) (start stop : Nat) : Prop :=
  start ≤ stop ∧ ∀ ip, start ≤ ip → ip < stop → ∃ i, f.code[ip]? = some i ∧ Q i

namespace FunctionCode

variable {f : FunctionCode} {Q : Instr → Prop} {start mid stop : Nat} {i : Instr}
  {span : Option Span}

theorem All.nil : f.All Q start start := ⟨le_rfl, fun _ h h' => absurd h' (by omega)⟩

theorem All.has (h : f.Has start i span) (hi : Q i) : f.All Q start (start + 1) :=
  ⟨Nat.le_succ _, fun ip h₁ h₂ => ⟨i, by obtain rfl : ip = start := by omega
                                         exact h.1, hi⟩⟩

theorem All.ends (h : f.Ends start i span stop) (hi : Q i) : f.All Q start stop := by
  obtain ⟨h, rfl⟩ := h
  exact .has h hi

theorem All.append (h : f.All Q start mid) (h' : f.All Q mid stop) : f.All Q start stop := by
  refine ⟨h.1.trans h'.1, fun ip h₁ h₂ => ?_⟩
  by_cases hlt : ip < mid
  · exact h.2 ip h₁ hlt
  · exact h'.2 ip (by omega) h₂

theorem All.hasAll {is : List Instr} (h : f.HasAll span start is stop) (hi : ∀ i ∈ is, Q i) :
    f.All Q start stop := by
  induction is generalizing start with
  | nil =>
    obtain rfl : stop = start := h
    exact .nil
  | cons i rest ih =>
    exact (All.has h.1 (hi i List.mem_cons_self)).append
      (ih h.2 fun j hj => hi j (List.mem_cons_of_mem _ hj))

end FunctionCode

/-- The function at the index, if there is one, is not async. -/
def Tables.Sync (t : Tables) (id : Nat) : Prop :=
  ∀ g, t.functions[id]? = some (some g) → g.isAsync = false

/-- What callees are resolved to is not async when they are not. -/
def Tables.Resolves (t : Tables) (sync : Callee → Prop) : Prop :=
  ∀ callee name id, sync callee → callee.symbol? = some name →
    t.ids.functions.lookup name = some id → t.Sync id

section

variable {t : Tables} {f : FunctionCode} {sync : Callee → Prop} {start stop : Nat}
  {span : Option Span}

abbrev FunctionCode.AllWait (t : Tables) (f : FunctionCode) : Nat → Nat → Prop :=
  f.All (Instr.Waits t.Sync f.isAsync)

open FunctionCode

theorem all_const {c : Constant} (h : f.HasConst start c span stop) : f.AllWait t start stop := by
  obtain ⟨k, c, -, -, h⟩ := h
  exact .ends h trivial

theorem all_inScope {body : Nat → Nat → Prop} (h : f.InScope start span body stop)
    (hbody : ∀ a b, body a b → f.AllWait t a b) : f.AllWait t start stop := by
  obtain ⟨last, henter, hb, hexit⟩ := h
  exact ((All.has henter trivial).append (hbody _ _ hb)).append (.ends hexit trivial)

theorem all_loadAt {P : Point} {name : String} (h : LoadAt f P start name span stop) :
    f.AllWait t start stop := by
  rw [LoadAt] at h
  split at h
  · exact .ends h.2 trivial
  · exact .ends h trivial
  · exact h.elim

theorem all_loadsAt {P : Point} {names : List String} (h : LoadsAt f P span start names stop) :
    f.AllWait t start stop := by
  induction names generalizing start with
  | nil =>
    obtain rfl : stop = start := h
    exact .nil
  | cons name rest ih =>
    obtain ⟨mid, hl, hr⟩ := h
    exact (all_loadAt hl).append (ih hr)

theorem all_declareAt {P : Point} {name : String} (h : DeclareAt f P start name span stop) :
    f.AllWait t start stop := .ends h.2.2 trivial

theorem all_storeAt {P : Point} {target : AssignTarget} (h : StoreAt f P start target span stop) :
    f.AllWait t start stop := by
  rw [StoreAt] at h
  split at h
  · refine .ends h.2 ?_
    split <;> trivial
  · exact h.elim

theorem all_freeAt {P : Point} {name : String} (h : FreeAt f P start name span stop) :
    f.AllWait t start stop := by
  rw [FreeAt] at h
  split at h
  · exact .ends h.2.2 trivial
  · exact h.elim

theorem waits_plain {Q : Nat → Prop} {b : Bool} (op : BinaryOp) (kind : OperandKind) :
    (op.instr kind).Waits Q b := by
  cases op <;> trivial

mutual

theorem all_expr {start stop : Nat} {P : Point} (hsync : t.Resolves sync) : (e : TExpr) →
    e.Waits sync f.isAsync → ExprAt t f P start e stop → f.AllWait t start stop
  | .mk kind _ _, hw, h => all_kind hsync kind hw h

theorem all_kind {start stop : Nat} {P : Point} {ty : Ty} {span : Option Span}
    (hsync : t.Resolves sync) : (k : TKind) →
    k.Waits sync f.isAsync → KindAt t f P start ty span k stop → f.AllWait t start stop
  | .int _, _, h | .float _, _, h | .bool _, _, h | .string _, _, h | .null, _, h => all_const h
  | .binding _, _, h => all_loadAt h
  | .function name, hw, ⟨id, hid, h⟩ => .ends h (hsync _ _ id hw rfl hid)
  | .native _, _, ⟨_, _, h⟩ => .ends h trivial
  | .binary op left right, hw, ⟨_, _, hl, hr, h⟩ =>
    ((all_expr hsync left hw.1 hl).append (all_expr hsync right hw.2 hr)).append
      (.ends h (waits_plain op _))
  | .unary op operand, hw, ⟨_, ho, h⟩ =>
    (all_expr hsync operand hw ho).append (.ends h (by cases op <;> trivial))
  | .logical op left right, hw, ⟨_, hl, hdup, hjump, hpop, hr⟩ =>
    (((all_expr hsync left hw.1 hl).append (.has hdup trivial)).append
      (.has hjump (by cases op <;> trivial))).append
        ((All.has hpop trivial).append (all_expr hsync right hw.2 hr))
  | .call callee args, hw, ⟨i, _, hc, ha, h⟩ => by
    refine (all_exprs hsync args hw.2 ha).append (.ends h ?_)
    cases callee with
    | function name =>
      obtain ⟨id, hid, rfl⟩ := hc
      exact hsync _ _ id hw.1 rfl hid
    | method struct method =>
      obtain ⟨id, hid, rfl⟩ := hc
      exact hsync _ _ id hw.1 rfl hid
    | native name =>
      obtain ⟨id, -, rfl⟩ := hc
      trivial
  | .callValue callee args, hw, ⟨_, _, hc, ha, h⟩
  | .callDynamic callee args, hw, ⟨_, _, hc, ha, h⟩ =>
    ((all_expr hsync callee hw.1 hc).append (all_exprs hsync args hw.2 ha)).append (.ends h trivial)
  | .callMethodDynamic _ args, hw, ⟨_, ha, h⟩ | .format args, hw, ⟨_, ha, h⟩ =>
    (all_exprs hsync args hw ha).append (.ends h trivial)
  | .field object _ index, hw, ⟨_, ho, h⟩ =>
    (all_expr hsync object hw ho).append (.ends h (by cases index <;> trivial))
  | .structInit _ values, hw, ⟨_, _, _, hv, h⟩ =>
    (all_exprs hsync values hw hv).append (.ends h trivial)
  | .lambda _ _ _ _, _, ⟨id, g, _, _, hg, _, hwraps, hl, h⟩ =>
    -- the code of a lambda is never async
    (all_loadsAt hl).append (.ends h fun g' hg' => by
      rw [hg] at hg'
      cases hg'
      exact hwraps.isAsync)
  | .spawn _ args, hw, ⟨_, _, _, ha, h⟩ => (all_exprs hsync args hw ha).append (.ends h trivial)
  | .await task, hw, ⟨_, ht, h⟩ => (all_expr hsync task hw.2 ht).append (.ends h hw.1)
  | .box inner, hw, ⟨_, hi, h⟩ | .unbox inner, hw, ⟨_, hi, h⟩ =>
    (all_expr hsync inner hw hi).append (.ends h trivial)
  | .cast inner, hw, ⟨_, _, _, hi, h⟩ => (all_expr hsync inner hw hi).append (.ends h trivial)

theorem all_exprs {start stop : Nat} {P : Point} (hsync : t.Resolves sync) : (es : List TExpr) →
    ExprsWait sync f.isAsync es → ExprsAt t f P start es stop → f.AllWait t start stop
  | [], _, h => by
    obtain rfl : stop = start := h
    exact .nil
  | e :: rest, hw, ⟨_, he, hr⟩ => (all_expr hsync e hw.1 he).append (all_exprs hsync rest hw.2 hr)

theorem all_stmt {start stop : Nat} {P : Point} {x : Option Exits} {rest : List TStmt}
    (hsync : t.Resolves sync) : (s : TStmt) →
    s.Waits sync f.isAsync → s.Looped x.isSome → StmtAt t f x P start rest s stop →
      f.AllWait t start stop
  | .declare _ _ ty none _, _, _, ⟨mid, _, hc, hbox, hd⟩ => by
    refine ((all_const hc).append ?_).append (all_declareAt hd)
    split at hbox
    · exact .ends hbox trivial
    · obtain rfl := hbox
      exact .nil
  | .declare _ _ _ (some value) _, hw, _, ⟨_, hv, hd⟩ =>
    (all_expr hsync value hw hv).append (all_declareAt hd)
  | .assign _ value _, hw, _, ⟨_, hv, hs⟩ => (all_expr hsync value hw hv).append (all_storeAt hs)
  | .branch condition thenBlock elifs elseBlock _, ⟨hwc, hwt, hwm, hwl⟩, ⟨hlt, hlm, hll⟩,
      ⟨_, _, _, _, hc, hjump, ht, hover, hm, he⟩ =>
    ((((all_expr hsync condition hwc hc).append (.has hjump trivial)).append
      ((all_inScope ht fun _ _ h => all_stmts hsync thenBlock hwt hlt h).append
        (.ends hover trivial))).append
        (all_elifs hsync elifs hwm hlm hm)).append (all_else hsync elseBlock hwl hll he)
  | .loop condition body _, ⟨hwc, hwb⟩, hl, ⟨_, _, hc, hjump, hb, hback⟩ =>
    (((all_expr hsync condition hwc hc).append (.has hjump trivial)).append
      (all_inScope hb fun _ _ h =>
        all_stmts (x := some ⟨start, stop, P.scopes.length⟩) hsync body hwb
        hl h)).append (.ends hback trivial)
  | .block body span, hw, hl, h => by
    have hin : f.InScope start span (fun a b => StmtsAt t f x P.opened a body b) stop := h
    exact all_inScope hin fun _ _ h => all_stmts hsync body hw hl h
  | .ret none _, _, _, ⟨_, hc, h⟩ => (all_const hc).append (.ends h trivial)
  | .ret (some value) _, hw, _, h => by
    rw [StmtAt] at h
    split at h
    · exact (All.has h.2.1 trivial).append (.ends h.2.2 trivial)
    · obtain ⟨_, hv, h⟩ := h
      exact (all_expr hsync value hw hv).append (.ends h trivial)
  | .breakLoop _, _, hl, h | .continueLoop _, _, hl, h => by
    cases x with
    | none => cases hl
    | some x =>
      obtain ⟨last, hexits, hjump⟩ := h
      refine (All.hasAll hexits fun i hi => ?_).append (.ends hjump trivial)
      rw [List.eq_of_mem_replicate hi]
      trivial
  | .free _ _, _, _, h => all_freeAt h
  | .collect _, _, _, h => .hasAll h fun i hi => by
    obtain ⟨b, -, rfl⟩ := List.mem_map.1 hi
    trivial
  | .yieldNow _, hw, _, h => .ends h hw
  | .eval value _, hw, _, ⟨_, hv, h⟩ => (all_expr hsync value hw hv).append (.ends h trivial)

theorem all_stmts {start stop : Nat} {P : Point} {x : Option Exits} (hsync : t.Resolves sync) :
    (ss : List TStmt) →
    StmtsWait sync f.isAsync ss → AllLooped x.isSome ss → StmtsAt t f x P start ss stop →
      f.AllWait t start stop
  | [], _, _, h => by
    obtain rfl : stop = start := h
    exact .nil
  | s :: rest, hw, hl, ⟨_, hs, hr⟩ =>
    (all_stmt hsync s hw.1 hl.1 hs).append (all_stmts hsync rest hw.2 hl.2 hr)

theorem all_elifs {start stop target : Nat} {P : Point} {x : Option Exits} {before : Freed}
    {span : Option Span} (hsync : t.Resolves sync) : (elifs : List (TExpr × List TStmt)) →
    ElifsWait sync f.isAsync elifs → ElifsLooped x.isSome elifs →
      ElifsAt t f x before span target P start elifs stop → f.AllWait t start stop
  | [], _, _, h => by
    obtain rfl : stop = start := h
    exact .nil
  | (condition, body) :: rest, ⟨hwc, hwb, hwr⟩, hl, ⟨_, _, _, hc, hjump, hb, hover, hr⟩ =>
    (((all_expr hsync condition hwc hc).append (.has hjump trivial)).append
      ((all_inScope hb fun _ _ h => all_stmts hsync body hwb hl.1 h).append
        (.ends hover trivial))).append (all_elifs hsync rest hwr hl.2 hr)

theorem all_else {start stop : Nat} {P : Point} {x : Option Exits} {span : Option Span}
    (hsync : t.Resolves sync) : (elseBlock : Option (List TStmt)) →
    ElseWaits sync f.isAsync elseBlock → ElseLooped x.isSome elseBlock →
      ElseAt t f x P start span elseBlock stop → f.AllWait t start stop
  | none, _, _, h => by
    obtain rfl : stop = start := h
    exact .nil
  | some body, hw, hl, h => by
    have hin : f.InScope start span (fun a b => StmtsAt t f x P.opened a body b) stop := h
    exact all_inScope hin fun _ _ h => all_stmts hsync body hw hl h

end

/-- In the code of a body only an async one waits. -/
theorem waits_body {b : Body} (hsync : t.Resolves sync) (hf : BodyAt t f b)
    (hw : StmtsWait sync b.isAsync b.stmts) (hl : AllLooped false b.stmts) {ip : Nat} {i : Instr}
    (hi : f.code[ip]? = some i) : i.Waits t.Sync f.isAsync := by
  obtain ⟨stop, hat, hwraps⟩ := hf
  obtain ⟨last, hnull, hret⟩ := hwraps.tail
  rw [← hwraps.isAsync] at hw
  have hall : f.AllWait t 0 f.code.size :=
    ((all_stmts (x := none) hsync b.stmts hw hl hat).append (all_const hnull)).append
      (.ends hret trivial)
  obtain ⟨j, hj, hwj⟩ := hall.2 ip (Nat.zero_le _) (Array.getElem?_eq_some_iff.1 hi).1
  rw [hi] at hj
  exact Option.some.inj hj ▸ hwj

end

/-- The function of the module at the index, if there is one, is not async. -/
def Module.Sync (m : Module) (id : Nat) : Prop := ∀ g, m.functions[id]? = some g → g.isAsync = false

/-- In the code of an accepted program only async functions wait, and async functions are neither
called nor made values of. -/
theorem TProgram.waits_compile {program : Program} {natives : List (String × Signature)}
    {typed : TProgram} {m : Module} (hcheck : program.check natives = .ok typed)
    (hcompile : typed.compile = .ok m) (hnames : (typed.functions.map TFunction.name).Nodup)
    {id : Nat} {f : FunctionCode} (hf : m.functions[id]? = some f) {ip : Nat} {i : Instr}
    (hi : f.code[ip]? = some i) : i.Waits m.Sync f.isAsync := by
  obtain ⟨t, ht⟩ := typed.compile_ok hcompile
  obtain ⟨body, hbody, hcode⟩ := ht.body_of_function hf
  obtain ⟨sync, hwait, hsync⟩ := Program.check_waits hcheck hnames
  -- a name leads to the code of the function of that name
  have hresolves : t.Resolves sync := by
    intro callee name id hc hname hid g hg
    obtain ⟨h, hmem, rfl, g', hg', -, stop, -, hwraps⟩ := ht.named hnames hid
    rw [(ht.function_iff hnames).2 hg] at hg'
    cases hg'
    exact hwraps.isAsync.trans (hsync callee hc h hmem hname)
  have hsame : t.Sync = m.Sync := funext fun id => by
    simp only [Tables.Sync, Module.Sync, ht.function_iff hnames]
  rw [← hsame]
  exact waits_body hresolves hcode (hwait body hbody) (Program.check_looped hcheck body hbody) hi

end ScopedScript
