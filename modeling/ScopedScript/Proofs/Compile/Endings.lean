import ScopedScript.Proofs.Compile.Heights
import ScopedScript.Proofs.Typing.Endings

/-!
# Functions end by `return`

Every function of a compiled module ends with code that gives `null` back. In a body that has a
value to give back no path leads there: a stretch of code is left at its end only if control gets
through the statements that it was made of, or else by one of the ways out, and `return` is none of
these.
-/

namespace ScopedScript

/-- One more way out, if it is taken at all. -/
def Ways.also (target : Nat) (taken : Bool) (out : Nat → Prop) : Nat → Prop :=
  fun ip => ip = target ∧ taken = true ∨ out ip

/-- Control that enters a stretch of code at its start stays inside until it takes one of the ways
out. It comes to the end only if it falls through. -/
def FunctionCode.Leads (f : FunctionCode) (out : Nat → Prop) (start stop : Nat)
    (falls : Bool) : Prop :=
  ∃ reached : Nat → Prop, reached start ∧ (reached stop → falls = true) ∧
    ∀ ip, reached ip → start ≤ ip ∧ ip ≤ stop ∧
      (ip < stop → ∀ i, f.code[ip]? = some i → ∀ ip', i.Next ip ip' → reached ip' ∨ out ip')

namespace FunctionCode

variable {f : FunctionCode} {out out' : Nat → Prop} {start mid stop target : Nat} {a b c : Bool}
  {i : Instr} {span : Option Span}

theorem Leads.le (h : f.Leads out start stop a) : start ≤ stop := by
  obtain ⟨reached, hstart, -, hin⟩ := h
  exact (hin start hstart).2.1

theorem Leads.nil : f.Leads out start start true :=
  ⟨fun ip => ip = start, rfl, fun _ => rfl, fun _ he => ⟨he.ge, he.le, fun hlt => absurd he hlt.ne⟩⟩

theorem Leads.one (h : f.Has start i span)
    (hn : ∀ ip', i.Next start ip' → ip' = start + 1 ∧ a = true ∨ out ip') :
    f.Leads out start (start + 1) a := by
  refine ⟨fun ip => ip = start ∨ ip = start + 1 ∧ a = true, .inl rfl, ?_, ?_⟩
  · rintro (he | ⟨-, ha⟩)
    · omega
    · exact ha
  · rintro ip (rfl | ⟨rfl, -⟩)
    · refine ⟨le_rfl, Nat.le_succ _, fun _ j hj ip' hip => ?_⟩
      rw [h.1] at hj
      cases hj
      exact (hn ip' hip).imp_left .inr
    · exact ⟨Nat.le_succ _, le_rfl, fun hlt => absurd hlt (Nat.lt_irrefl _)⟩

/-- An instruction that goes on to the next one. -/
theorem Leads.step (h : f.Has start i span) (hn : ∀ ip', i.Next start ip' → ip' = start + 1) :
    f.Leads out start (start + 1) true := .one h fun ip' hip => .inl ⟨hn ip' hip, rfl⟩

theorem Leads.ends (h : f.Ends start i span stop) (hn : ∀ ip', i.Next start ip' → ip' = start + 1) :
    f.Leads out start stop true := by
  obtain ⟨h, rfl⟩ := h
  exact .step h hn

theorem Leads.plain (h : f.Ends start i span stop) (hi : i.plain = true) :
    f.Leads out start stop true :=
  .ends h (i.plain_next hi start)

/-- Control does not get past a jump, nor past a `return`. -/
theorem Leads.jump (h : f.Ends start (.jump target) span stop) (ho : out target) :
    f.Leads out start stop false := by
  obtain ⟨h, rfl⟩ := h
  refine .one h fun ip' hip => .inr ?_
  obtain rfl : ip' = target := hip.2
  exact ho

theorem Leads.ret (h : f.Ends start .ret span stop) : f.Leads out start stop false := by
  obtain ⟨h, rfl⟩ := h
  exact .one h fun _ hip => absurd rfl hip.1

theorem Leads.jumpIf (h : f.Has start i span)
    (hi : i = .jumpIfFalse target ∨ i = .jumpIfTrue target)
    (ho : out target) : f.Leads out start (start + 1) true := by
  refine .one h fun ip' hip => ?_
  have hgo : ip' = target ∨ ip' = start + 1 := by rcases hi with rfl | rfl <;> exact hip.2
  rcases hgo with rfl | rfl
  · exact .inr ho
  · exact .inl ⟨rfl, rfl⟩

/-- What follows code that control does not get through is never reached, so nothing has to be known
of it. -/
theorem Leads.append (h : f.Leads out start mid a) (hle : mid ≤ stop)
    (h' : a = true → f.Leads out mid stop b) : f.Leads out start stop (a && b) := by
  obtain ⟨reached, hstart, hend, hin⟩ := h
  cases a with
  | false =>
    have hbefore (ip : Nat) (hr : reached ip) : ip < mid :=
      lt_of_le_of_ne (hin ip hr).2.1 fun he => absurd (hend (he ▸ hr)) (by decide)
    refine ⟨reached, hstart, fun hr => absurd (hbefore stop hr) hle.not_gt, fun ip hr => ?_⟩
    obtain ⟨hge, -, hn⟩ := hin ip hr
    exact ⟨hge, (hbefore ip hr).le.trans hle, fun _ => hn (hbefore ip hr)⟩
  | true =>
    obtain ⟨reached', hstart', hend', hin'⟩ := h' rfl
    have hlater (ip : Nat) (hr : reached' ip) : start ≤ ip ∧ ip ≤ stop ∧ (ip < stop → ∀ i,
        f.code[ip]? = some i → ∀ ip', i.Next ip ip' → (reached ip' ∨ reached' ip') ∨ out ip') := by
      obtain ⟨hge, hle', hn⟩ := hin' ip hr
      refine ⟨(hin start hstart).2.1.trans hge, hle', fun hlt i hi ip' hip => ?_⟩
      exact (hn hlt i hi ip' hip).imp_left .inr
    refine ⟨fun ip => reached ip ∨ reached' ip, .inl hstart, ?_, ?_⟩
    · rintro (hr | hr)
      · obtain rfl : mid = stop := le_antisymm hle (hin stop hr).2.1
        exact hend' hstart'
      · exact hend' hr
    · rintro ip (hr | hr)
      · obtain ⟨hge, hlem, hn⟩ := hin ip hr
        rcases hlem.lt_or_eq with hlt | rfl
        · exact ⟨hge, hlem.trans hle, fun _ i hi ip' hip => (hn hlt i hi ip' hip).imp_left .inl⟩
        · exact hlater ip hstart'
      · exact hlater ip hr

/-- Code that control gets through, and then more. -/
theorem Leads.then (h : f.Leads out start mid true) (h' : f.Leads out mid stop b) :
    f.Leads out start stop b :=
  h.append h'.le fun _ => h'

/-- A way out that leads to the end. -/
theorem Leads.landing (h : f.Leads (Ways.also stop c out) start stop a) :
    f.Leads out start stop (a || c) := by
  have hle := h.le
  obtain ⟨reached, hstart, hend, hin⟩ := h
  refine ⟨fun ip => reached ip ∨ ip = stop ∧ c = true, .inl hstart, ?_, ?_⟩
  · rintro (hr | ⟨-, hc⟩)
    · rw [hend hr, Bool.true_or]
    · rw [hc, Bool.or_true]
  · rintro ip (hr | ⟨rfl, -⟩)
    · obtain ⟨hge, hle', hn⟩ := hin ip hr
      exact ⟨hge, hle', fun hlt i hi ip' hip => or_assoc.2 (hn hlt i hi ip' hip)⟩
    · exact ⟨hle, le_rfl, fun hlt => absurd hlt (Nat.lt_irrefl _)⟩

/-- A way out that leads back to the start. -/
theorem Leads.looping (h : f.Leads (Ways.also start true out) start stop a) :
    f.Leads out start stop a := by
  obtain ⟨reached, hstart, hend, hin⟩ := h
  refine ⟨reached, hstart, hend, fun ip hr => ?_⟩
  obtain ⟨hge, hle, hn⟩ := hin ip hr
  refine ⟨hge, hle, fun hlt i hi ip' hip => ?_⟩
  rcases hn hlt i hi ip' hip with hr' | ⟨rfl, -⟩ | ho
  · exact .inl hr'
  · exact .inl hstart
  · exact .inr ho

theorem Leads.hasAll {is : List Instr} (h : f.HasAll span start is stop)
    (hi : ∀ i ∈ is, ∀ ip ip', i.Next ip ip' → ip' = ip + 1) : f.Leads out start stop true := by
  induction is generalizing start with
  | nil =>
    obtain rfl : stop = start := h
    exact .nil
  | cons i rest ih =>
    refine (Leads.step h.1 fun ip' => hi i List.mem_cons_self start ip').then ?_
    exact ih h.2 fun j hj => hi j (List.mem_cons_of_mem _ hj)

theorem Leads.inScope {body : Nat → Nat → Prop} (h : f.InScope start span body stop)
    (hbody : ∀ last, body (start + 1) last → f.Leads out (start + 1) last a) :
    f.Leads out start stop a := by
  obtain ⟨last, henter, hin, hexit⟩ := h
  have hlast : f.Leads out last stop true := .ends hexit fun _ hip => hip.2
  have hall := (Leads.step henter fun _ hip => hip.2).then
    ((hbody last hin).append hlast.le fun _ => hlast)
  rwa [Bool.and_true] at hall

end FunctionCode

section

open FunctionCode

variable {t : Tables} {f : FunctionCode} {P : Point} {out : Nat → Prop} {start stop : Nat}
  {span : Option Span}

/-! ## Expressions -/

theorem leads_const {c : Constant} (h : f.HasConst start c span stop) :
    f.Leads out start stop true := by
  obtain ⟨k, d, -, -, h⟩ := h
  exact .plain h rfl

theorem leads_loadAt {name : String} (h : LoadAt f P start name span stop) :
    f.Leads out start stop true := by
  rw [LoadAt] at h
  split at h
  · exact .ends h.2 fun _ hip => hip.2
  · exact .plain h rfl
  · exact h.elim

theorem leads_loadsAt {names : List String} (h : LoadsAt f P span start names stop) :
    f.Leads out start stop true := by
  induction names generalizing start with
  | nil =>
    obtain rfl : stop = start := h
    exact .nil
  | cons name rest ih =>
    obtain ⟨mid, hl, h⟩ := h
    exact (leads_loadAt hl).then (ih h)

mutual

/-- Control gets through every expression. -/
theorem leads_expr {start stop : Nat} {P : Point} {out : Nat → Prop} : (e : TExpr) →
    ExprAt t f P start e stop → f.Leads out start stop true
  | .mk kind _ _, h => leads_kind kind h

theorem leads_kind {start stop : Nat} {P : Point} {out : Nat → Prop} {ty : Ty}
    {span : Option Span} :
    (k : TKind) → KindAt t f P start ty span k stop → f.Leads out start stop true
  | .int _, h | .float _, h | .bool _, h | .string _, h | .null, h => leads_const h
  | .binding _, h => leads_loadAt h
  | .function _, ⟨_, _, h⟩ | .native _, ⟨_, _, h⟩ => .plain h rfl
  | .binary op left right, ⟨_, _, hl, hr, h⟩ =>
    (leads_expr left hl).then ((leads_expr right hr).then (.plain h (binary_plain op _)))
  | .unary op operand, ⟨_, ho, h⟩ => (leads_expr operand ho).then (.plain h (unary_plain op _))
  | .logical op left right, ⟨mid, hl, hdup, hjump, hpop, hr⟩ => by
    have hop : (match op with | .and => Instr.jumpIfFalse stop | .or => .jumpIfTrue stop) =
        .jumpIfFalse stop ∨
        (match op with | .and => Instr.jumpIfFalse stop | .or => .jumpIfTrue stop) =
        .jumpIfTrue stop := by
      cases op
      · exact .inl rfl
      · exact .inr rfl
    refine Leads.landing (a := true) (c := true) ((leads_expr left hl).then ?_)
    refine (Leads.plain ⟨hdup, rfl⟩ rfl).then ((Leads.jumpIf hjump hop (.inl ⟨rfl, rfl⟩)).then ?_)
    exact (Leads.plain ⟨hpop, rfl⟩ rfl).then (leads_expr right hr)
  | .call _ args, ⟨_, _, hc, ha, h⟩ => (leads_exprs args ha).then (.plain h (calls_plain hc))
  | .callValue callee args, ⟨_, _, hc, ha, h⟩ | .callDynamic callee args, ⟨_, _, hc, ha, h⟩ =>
    (leads_expr callee hc).then ((leads_exprs args ha).then (.plain h rfl))
  | .callMethodDynamic _ args, ⟨_, ha, h⟩ | .format args, ⟨_, ha, h⟩ =>
    (leads_exprs args ha).then (.plain h rfl)
  | .field object _ index, ⟨_, ho, h⟩ =>
    (leads_expr object ho).then (.plain h (by cases index <;> rfl))
  | .structInit _ values, ⟨_, _, _, hv, h⟩ => (leads_exprs values hv).then (.plain h rfl)
  | .lambda _ _ _ _, ⟨_, _, _, _, _, _, _, hl, h⟩ => (leads_loadsAt hl).then (.plain h rfl)
  | .spawn _ args, ⟨_, _, _, ha, h⟩ => (leads_exprs args ha).then (.plain h rfl)
  | .await inner, ⟨_, hi, h⟩ | .box inner, ⟨_, hi, h⟩ | .unbox inner, ⟨_, hi, h⟩ =>
    (leads_expr inner hi).then (.plain h rfl)
  | .cast inner, ⟨_, _, _, hi, h⟩ => (leads_expr inner hi).then (.plain h rfl)

theorem leads_exprs {start stop : Nat} {P : Point} {out : Nat → Prop} : (es : List TExpr) →
    ExprsAt t f P start es stop → f.Leads out start stop true
  | [], h => by
    obtain rfl : stop = start := h
    exact .nil
  | e :: rest, ⟨_, he, h⟩ => (leads_expr e he).then (leads_exprs rest h)

end

/-! ## Statements -/

theorem leads_storeAt {target : AssignTarget} (h : StoreAt f P start target span stop) :
    f.Leads out start stop true := by
  rw [StoreAt] at h
  split at h
  · obtain ⟨-, h⟩ := h
    split at h <;> exact .ends h fun _ hip => hip.2
  · exact h.elim

theorem leads_freeAt {name : String} (h : FreeAt f P start name span stop) :
    f.Leads out start stop true := by
  rw [FreeAt] at h
  split at h
  · exact .ends h.2.2 fun _ hip => hip.2
  · exact h.elim

theorem leads_declareAt {name : String} (h : DeclareAt f P start name span stop) :
    f.Leads out start stop true :=
  .ends h.2.2 fun _ hip => hip.2

/-- Out of the scopes of a loop, to one of its exits. -/
theorem leads_leave {n target last : Nat}
    (h : f.HasAll span start (List.replicate n .exitScope) last)
    (hj : f.Ends last (.jump target) span stop) (ho : out target) :
    f.Leads out start stop false := by
  refine (Leads.hasAll h fun i hi ip ip' hip => ?_).then (.jump hj ho)
  rw [List.eq_of_mem_replicate hi] at hip
  exact hip.2

/-- A block under a condition, with a jump behind it. -/
theorem leads_arm {mid last next target : Nat} {falls : Bool} {condition : TExpr}
    {place : Option Span} {body : Nat → Nat → Prop} (hc : ExprAt t f P start condition mid)
    (hjump : f.Has mid (.jumpIfFalse next) place) (hin : f.InScope (mid + 1) span body last)
    (hleave : f.Ends last (.jump target) span next)
    (hbody : ∀ last, body (mid + 2) last → f.Leads (Ways.also next true out) (mid + 2) last falls)
    (ho : falls = true → out target) : f.Leads out start next true := by
  have hnext : last ≤ next := by
    rw [hleave.2]
    exact Nat.le_succ last
  have harm := (Leads.inScope hin hbody).append hnext fun hf => Leads.jump hleave (.inr (ho hf))
  have hall := Leads.landing ((leads_expr condition hc).then
    ((Leads.jumpIf hjump (.inl rfl) (.inl ⟨rfl, rfl⟩)).then harm))
  rwa [Bool.or_true] at hall

/-- `break` and `continue` lead to ways out. -/
def Exits.Open (x : Option Exits) (out : Nat → Prop) : Prop :=
  ∀ e, x = some e → out e.start ∧ out e.stop

theorem Exits.Open.also {x : Option Exits} (h : Exits.Open x out) (target : Nat) (taken : Bool) :
    Exits.Open x (Ways.also target taken out) := fun e he => ⟨.inr (h e he).1, .inr (h e he).2⟩

mutual

/-- Control gets past a statement only if the statement lets it. -/
theorem leads_stmt {start stop : Nat} {x : Option Exits} {P : Point} {rest : List TStmt}
    {out : Nat → Prop}
    (hx : Exits.Open x out) : (s : TStmt) → s.Looped x.isSome → StmtAt t f x P start rest s stop →
    f.Leads out start stop s.falls
  | .declare _ _ ty none _, _, ⟨mid, last, hnull, hbox, hd⟩ => by
    have hbox : f.Leads out mid last true := by
      split at hbox
      · exact .plain hbox rfl
      · obtain rfl : last = mid := hbox
        exact .nil
    exact (leads_const hnull).then (hbox.then (leads_declareAt hd))
  | .declare _ _ _ (some value) _, _, ⟨_, hv, hd⟩ => (leads_expr value hv).then (leads_declareAt hd)
  | .assign _ value _, _, ⟨_, hv, hs⟩ => (leads_expr value hv).then (leads_storeAt hs)
  | .branch condition thenBlock elifs elseBlock _, ⟨hlt, hlm, hll⟩,
      ⟨_, _, next, _, hc, hjump, ht, hleave, hm, hl⟩ => by
    -- the blocks that are run through lead to the end, the `else` by standing last
    let taken := stmtsFall thenBlock || elifsFall elifs
    have hthen : f.Leads (Ways.also stop taken out) start next true :=
      leads_arm hc hjump ht hleave
        (fun _ h => leads_stmts ((hx.also stop taken).also next true) thenBlock hlt h)
        fun hf => .inl ⟨rfl, by simp [taken, hf]⟩
    have helifs :=
      leads_elifs (hx.also stop taken) elifs hlm (fun hf => .inl ⟨rfl, by simp [taken, hf]⟩) hm
    have hall :=
      Leads.landing (hthen.then (helifs.then (leads_else (hx.also stop taken) elseBlock hll hl)))
    rwa [Bool.or_comm] at hall
  | .loop condition body _, hl, ⟨_, _, hc, hjump, hin, hback⟩ => by
    -- `continue` leads back to the condition, and `break` behind the jump at the end of the body
    have hexits : Exits.Open (some ⟨start, stop, P.scopes.length⟩)
        (Ways.also stop true (Ways.also start true out)) := by
      intro e he
      cases he
      exact ⟨.inr (.inl ⟨rfl, rfl⟩), .inl ⟨rfl, rfl⟩⟩
    exact Leads.looping
      (leads_arm hc hjump hin hback (fun _ h => leads_stmts hexits body hl h) fun _ =>
      .inl ⟨rfl, rfl⟩)
  | .block body span, hl, h => by
    have hin : f.InScope start span (fun a b => StmtsAt t f x P.opened a body b) stop := h
    exact .inScope hin fun _ h => leads_stmts hx body hl h
  | .ret none _, _, ⟨_, hnull, h⟩ => (leads_const hnull).then (.ret h)
  | .ret (some value) _, _, h => by
    rw [StmtAt] at h
    split at h
    · exact (Leads.step h.2.1 fun _ hip => hip.2).then (.ret h.2.2)
    · obtain ⟨_, hv, h⟩ := h
      exact (leads_expr value hv).then (.ret h)
  | .breakLoop _, hl, h | .continueLoop _, hl, h => by
    cases x with
    | none => cases hl
    | some e =>
      obtain ⟨last, hexits, hjump⟩ := h
      obtain ⟨hstart, hstop⟩ := hx e rfl
      exact leads_leave hexits hjump ‹_›
  | .free _ _, _, h => leads_freeAt h
  | .collect _, _, h => .hasAll h fun i hi ip ip' hip => by
    obtain ⟨b, -, rfl⟩ := List.mem_map.1 hi
    exact hip.2
  | .yieldNow _, _, h => .plain h rfl
  | .eval value _, _, ⟨_, hv, h⟩ => (leads_expr value hv).then (.plain h rfl)

theorem leads_stmts {start stop : Nat} {x : Option Exits} {P : Point} {out : Nat → Prop}
    (hx : Exits.Open x out) : (ss : List TStmt) → AllLooped x.isSome ss →
    StmtsAt t f x P start ss stop → f.Leads out start stop (stmtsFall ss)
  | [], _, h => by
    obtain rfl : stop = start := h
    exact .nil
  | s :: rest, hl, ⟨_, hs, h⟩ =>
    have hrest := leads_stmts hx rest hl.2 h
    (leads_stmt hx s hl.1 hs).append hrest.le fun _ => hrest

/-- Control comes to the code behind these branches when no condition holds. -/
theorem leads_elifs {start stop target : Nat} {x : Option Exits} {P : Point} {before : Freed}
    {span : Option Span} {out : Nat → Prop} (hx : Exits.Open x out) :
    (elifs : List (TExpr × List TStmt)) →
    ElifsLooped x.isSome elifs → (elifsFall elifs = true → out target) →
    ElifsAt t f x before span target P start elifs stop → f.Leads out start stop true
  | [], _, _, h => by
    obtain rfl : stop = start := h
    exact .nil
  | (condition, body) :: rest, hl, ho, ⟨_, _, next, hc, hjump, hin, hleave, h⟩ =>
    (leads_arm hc hjump hin hleave (fun _ h => leads_stmts (hx.also next true) body hl.1 h)
      fun hf => ho (by simp [elifsFall, hf])).then
        (leads_elifs hx rest hl.2 (fun hf => ho (by simp [elifsFall, hf])) h)

theorem leads_else {start stop : Nat} {x : Option Exits} {P : Point} {span : Option Span}
    {out : Nat → Prop}
    (hx : Exits.Open x out) : (elseBlock : Option (List TStmt)) → ElseLooped x.isSome elseBlock →
    ElseAt t f x P start span elseBlock stop → f.Leads out start stop (elseFalls elseBlock)
  | none, _, h => by
    obtain rfl : stop = start := h
    exact .nil
  | some body, hl, h => by
    have hin : f.InScope start span (fun a b => StmtsAt t f x P.opened a body b) stop := h
    exact .inScope hin fun _ h => leads_stmts hx body hl h

end

/-! ## Functions -/

/-- Control that neither falls through nor takes a way out does not come to the end. -/
theorem FunctionCode.Leads.arrives {stop ip : Nat} {l : Level}
    (h : f.Leads (fun _ => False) 0 stop false) (ha : f.Arrives ip l) : ip < stop := by
  obtain ⟨reached, hstart, hend, hin⟩ := h
  have hbefore {ip : Nat} (hr : reached ip) : ip < stop :=
    lt_of_le_of_ne (hin ip hr).2.1 fun he => absurd (hend (he ▸ hr)) (by decide)
  refine hbefore ?_
  induction ha with
  | start => exact hstart
  | next _ hi hn ih => exact ((hin _ ih).2.2 (hbefore ih) _ hi _ hn).resolve_right id

/-- No path through the code of a body that has a value to give back leads past its statements. -/
theorem Body.Returns.arrives {b : Body} {ip : Nat} {l : Level} (h : b.Returns)
    (hret : b.ret ≠ .void) (hl : AllLooped false b.stmts)
    (hat : StmtsAt t f none (.start b) 0 b.stmts stop) (ha : f.Arrives ip l) : ip < stop := by
  have hbody : f.Leads (fun _ => False) 0 stop (stmtsFall b.stmts) :=
    leads_stmts (x := none) (fun _ he => nomatch he) b.stmts hl hat
  rw [h hret] at hbody
  exact hbody.arrives ha

end

/-! ## Runs -/

section

variable {p : Linked} {fr : Frame}

theorem StandOn.stands {pending height : Nat} {frames : List Frame}
    (h : StandOn p pending frames height) (hfr : fr ∈ frames) : ∃ l, fr.Stands p l := by
  induction frames generalizing pending height with
  | nil => cases hfr
  | cons first callers ih =>
    obtain ⟨own, depth, hs, -, hc⟩ := h
    rcases List.mem_cons.1 hfr with rfl | hfr
    · exact ⟨_, hs⟩
    · exact ih hc hfr

/-- Every frame is at an address that control comes to. -/
theorem MachineState.Levelled.stands {s : MachineState} (h : s.Levelled p) {task : Nat}
    (hfr : fr ∈ s.framesOf task) : ∃ l, fr.Stands p l := by
  have htable {sch : Scheduler} {running : Option Task} (hs : sch.Levelled p running)
      (hfr : fr ∈ sch.framesOf task) : ∃ l, fr.Stands p l := by
    rw [Scheduler.framesOf] at hfr
    cases hu : sch.get? task with
    | none =>
      rw [hu] at hfr
      cases hfr
    | some u =>
      rw [hu] at hfr
      exact (hs.tasks u (.inl (hs.consistent.id_eq hu ▸ hu))).frames.stands hfr
  cases s with
  | idle m => exact htable h hfr
  | busy s =>
    rw [framesOf] at hfr
    split at hfr
    · exact (h.1.tasks s.task (.inr rfl)).frames.stands hfr
    · exact htable h.1 hfr

end

namespace Linked

variable {p : Linked}

/-- A function, method or lambda of an accepted program that has a value to give back ends by
`return` only: in no run does a frame of it come to the code behind its statements, which gives
`null` back. -/
theorem ends_by_return {program : Program} {natives : List (String × Signature)} {typed : TProgram}
    (hcheck : program.check natives = .ok typed) (hcompile : typed.compile = .ok p.module) :
    ∃ t : Tables, t.Make typed p.module ∧ ∀ id f, p.module.functions[id]? = some f →
      (∃ b ∈ typed.bodies, BodyAt t f b) ∧
      ∀ b ∈ typed.bodies, ∀ stop, StmtsAt t f none (.start b) 0 b.stmts stop →
        Wraps t f b ((Point.start b).stmts b.stmts) stop → b.ret ≠ .void →
        ∀ name frame start s, p.entry name = .ok frame → (startState start frame).Reaches p s →
          ∀ task, ∀ fr ∈ s.framesOf task, fr.function = id → fr.ip < stop := by
  obtain ⟨t, ht⟩ := typed.compile_ok hcompile
  refine ⟨t, ht, fun id f hf => ⟨ht.body_of_function hf, ?_⟩⟩
  intro b hb stop hat hw hret name frame start s hframe hs task fr hfr hid
  have hp (id : Nat) (f : FunctionCode) (hf : p.module.functions[id]? = some f) : f.Disciplined :=
    TProgram.disciplined_compile hcheck hcompile hf
  obtain ⟨l, g, hg, ha, -⟩ := (levelled_of_reaches hp hframe hs).stands hfr
  rw [hid, hf] at hg
  cases hg
  exact (Program.check_returns hcheck b hb).arrives hret (Program.check_looped hcheck b hb) hat ha

/-- It returns from both branches. -/
def choosesOne : Program where
  items := [.function ⟨"main", [], some .int,
    [.branch (.bool true none) [.ret (some (.int 1 none)) none] []
      (some [.ret (some (.int 2 none)) none]) none], false, none⟩]
  source := none

def checkedChoosesOne : TProgram where
  structs := []
  functions := [{
    name := "main", params := [], ret := .int, isAsync := false, span := none
    body := [.branch (.mk (.bool true) .bool none) [.ret (some (.mk (.int 1) .int none)) none] []
      (some [.ret (some (.mk (.int 2) .int none)) none]) none] }]
  source := none

def compiledChoosesOne : Module where
  functions := #[
    ⟨"main", 0, 0, #[], [], false, [],
      #[.const 0, .jumpIfFalse 7, .enterScope, .const 1, .ret, .exitScope,
      .jump 11, .enterScope, .const 2, .ret, .exitScope, .const 3, .ret],
      #[.bool true, .int 1, .int 2, .null], Array.replicate 13 none⟩]
  structs := #[]
  natives := #[]
  source := none

theorem check_choosesOne : choosesOne.check [] = .ok checkedChoosesOne := by
  cbv

theorem compile_choosesOne : checkedChoosesOne.compile = .ok compiledChoosesOne := by
  cbv

theorem choosesOne_ends_by_return :
    ∃ (s : Running) (fr : Frame) (f : FunctionCode) (stop : Nat), s.task.frames = [fr] ∧
      compiledChoosesOne.functions[fr.function]? = some f ∧ f.code[fr.ip]? = some .ret ∧
      stop + 2 = f.code.size ∧ fr.ip < stop := by
  let p : Linked := ⟨compiledChoosesOne, #[], .default⟩
  let first : Frame := ⟨0, 0, ⟨#[], [[]]⟩, [], 0, false⟩
  have hentry : p.entry "main" = .ok first := by cbv
  -- the task begins its turn, finds the condition true and pushes the value of the first branch
  have hsteps : ∃ s, (startState .empty first).Reaches p (.busy s) ∧
      s.task.frames = [⟨0, 4, ⟨#[], [[], []]⟩, [], 0, false⟩] :=
    ⟨_, .tail (.tail (.tail (.tail (.tail .refl rfl) rfl) rfl) rfl) rfl, rfl⟩
  obtain ⟨s, hs, hframes⟩ := hsteps
  obtain ⟨t, -, hfunctions⟩ := ends_by_return (p := p) check_choosesOne compile_choosesOne
  obtain ⟨⟨b, hb, stop, hat, hw⟩, hends⟩ := hfunctions 0 _ rfl
  have hret : b.ret = .int := by
    obtain rfl := List.mem_singleton.1 hb
    rfl
  obtain ⟨last, ⟨k, d, -, -, -, hlast⟩, -, hsize⟩ := hw.tail
  refine ⟨s, _, _, stop, hframes, rfl, rfl, (hlast ▸ hsize).symm, ?_⟩
  refine hends b hb stop hat hw (by rw [hret]; decide) "main" first .empty
    (.busy s) hentry hs s.task.id _ ?_ rfl
  rw [MachineState.framesOf, if_pos rfl, hframes]
  exact List.mem_singleton_self _

end Linked

end ScopedScript
