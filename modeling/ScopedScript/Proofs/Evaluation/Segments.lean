import ScopedScript.Proofs.Evaluation.Numbering
import ScopedScript.Proofs.Typing.Looped

/-!
# What code makes values of

How many function values the code of each part of a tree makes, from the layout alone. So when the
functions that a stretch of code makes values of are known, they are known for the code of each
part.
-/

namespace ScopedScript

namespace FunctionCode

/-- The functions that the code between two addresses makes values of. -/
def made (f : FunctionCode) (start stop : Nat) : List Nat :=
  ((f.code.toList.drop start).take (stop - start)).filterMap Instr.made?

/-- The code between two addresses makes so many function values. -/
def Counts (f : FunctionCode) (start n stop : Nat) : Prop :=
  start ≤ stop ∧ (f.made start stop).length = n

variable {f : FunctionCode} {start mid stop n k : Nat} {i : Instr} {span : Option Span}

theorem made_nil (f : FunctionCode) (start : Nat) : f.made start start = [] := by
  rw [made, Nat.sub_self, List.take_zero, List.filterMap_nil]

theorem made_append (h : start ≤ mid) (h' : mid ≤ stop) :
    f.made start stop = f.made start mid ++ f.made mid stop := by
  rw [made, made, made, ← List.filterMap_append]
  congr 1
  have hsplit : stop - start = (mid - start) + (stop - mid) := by omega
  have hdrop : (f.code.toList.drop start).drop (mid - start) = f.code.toList.drop mid := by
    rw [List.drop_drop]
    congr 1
    omega
  rw [hsplit, List.take_add, hdrop]

theorem made_has (h : f.Has start i span) : f.made start (start + 1) = i.made?.toList := by
  have hi : f.code.toList[start]? = some i := by
    rw [Array.getElem?_toList]
    exact h.1
  obtain ⟨hlt, hget⟩ := List.getElem?_eq_some_iff.1 hi
  rw [made, Nat.add_sub_cancel_left, List.drop_eq_getElem_cons hlt, List.take_succ_cons,
    List.take_zero, hget]
  cases hm : i.made? <;> simp [hm]

theorem made_all (f : FunctionCode) :
    f.made 0 f.code.size = f.code.toList.filterMap Instr.made? := by
  rw [made, List.drop_zero, Nat.sub_zero, ← Array.length_toList, List.take_length]

theorem Counts.nil : f.Counts start 0 start := ⟨le_rfl, by rw [made_nil]; rfl⟩

theorem Counts.append (h : f.Counts start n mid) (h' : f.Counts mid k stop) :
    f.Counts start (n + k) stop :=
  ⟨h.1.trans h'.1, by rw [made_append h.1 h'.1, List.length_append, h.2, h'.2]⟩

theorem Counts.has (h : f.Has start i span) : f.Counts start i.made?.toList.length (start + 1) :=
  ⟨Nat.le_succ _, by rw [made_has h]⟩

theorem Counts.ends (h : f.Ends start i span stop) : f.Counts start i.made?.toList.length stop := by
  obtain ⟨h, rfl⟩ := h
  exact .has h

/-- Code, and one more instruction that makes no function value. -/
theorem Counts.then (h : f.Counts start n mid) (hi : f.Ends mid i span stop) (hm : i.made? = none) :
    f.Counts start n stop := by
  have h' := h.append (.ends hi)
  rwa [hm] at h'

theorem Counts.next (h : f.Counts start n mid) (hi : f.Has mid i span) (hm : i.made? = none) :
    f.Counts start n (mid + 1) := h.then ⟨hi, rfl⟩ hm

theorem Counts.hasAll {is : List Instr} (h : f.HasAll span start is stop)
    (hi : ∀ i ∈ is, i.made? = none) : f.Counts start 0 stop := by
  induction is generalizing start with
  | nil =>
    obtain rfl : stop = start := h
    exact .nil
  | cons i rest ih =>
    have hn : i.made? = none := hi i List.mem_cons_self
    have h' := (Counts.has h.1).append (ih h.2 fun j hj => hi j (List.mem_cons_of_mem _ hj))
    rwa [hn] at h'

theorem Counts.const {c : Constant} (h : f.HasConst start c span stop) : f.Counts start 0 stop := by
  obtain ⟨k, d, -, -, h⟩ := h
  exact .ends h

theorem Counts.inScope {body : Nat → Nat → Prop} (h : f.InScope start span body stop)
    (hbody : ∀ a b, body a b → f.Counts a n b) : f.Counts start n stop := by
  obtain ⟨last, hopen, hin, hclose⟩ := h
  have h' := (Counts.has hopen).append (hbody _ _ hin)
  rw [show (Instr.enterScope.made?.toList.length + n) = n from Nat.zero_add n] at h'
  exact h'.then hclose rfl

end FunctionCode

section

variable {t : Tables} {f : FunctionCode} {P : Point} {start stop : Nat} {span : Option Span}

open FunctionCode

theorem counts_loadAt {name : String} (h : LoadAt f P start name span stop) :
    f.Counts start 0 stop := by
  rw [LoadAt] at h
  split at h
  · exact .ends h.2
  · exact .ends h
  · exact h.elim

theorem counts_loadsAt {names : List String} (h : LoadsAt f P span start names stop) :
    f.Counts start 0 stop := by
  induction names generalizing start with
  | nil =>
    obtain rfl : stop = start := h
    exact .nil
  | cons name rest ih =>
    obtain ⟨mid, hl, h⟩ := h
    exact (counts_loadAt hl).append (ih h)

theorem counts_storeAt {target : AssignTarget} (h : StoreAt f P start target span stop) :
    f.Counts start 0 stop := by
  rw [StoreAt] at h
  split at h
  · obtain ⟨-, h⟩ := h
    split at h <;> exact .ends h
  · exact h.elim

theorem counts_freeAt {name : String} (h : FreeAt f P start name span stop) :
    f.Counts start 0 stop := by
  rw [FreeAt] at h
  split at h
  · exact .ends h.2.2
  · exact h.elim

theorem Tables.Calls.made? {args : Nat} {callee : Callee} {i : Instr} (h : t.Calls args callee i) :
    i.made? = none := by
  cases callee with
  | function name | method struct method =>
    obtain ⟨id, -, rfl⟩ := h
    rfl
  | native name =>
    obtain ⟨id, -, rfl⟩ := h
    rfl

mutual

theorem counts_expr {start stop : Nat} {P : Point} : (e : TExpr) → ExprAt t f P start e stop →
    f.Counts start (exprOutline t.ids e).makes stop
  | .mk kind _ _, h => counts_kind kind h

theorem counts_kind {start stop : Nat} {P : Point} {ty : Ty} {span : Option Span} : (k : TKind) →
    KindAt t f P start ty span k stop → f.Counts start (kindOutline t.ids span k).makes stop
  | .int _, h | .float _, h | .bool _, h | .string _, h | .null, h => .const h
  | .binding _, h => counts_loadAt h
  | .function name, ⟨id, hid, h⟩ => by
    rw [kindOutline, hid]
    exact .ends h
  | .native _, ⟨_, _, h⟩ => .ends h
  | .binary op left right, ⟨_, _, hl, hr, h⟩ =>
    ((counts_expr left hl).append (counts_expr right hr)).then h (op.made?_instr _)
  | .unary op operand, ⟨_, ho, h⟩ => (counts_expr operand ho).then h (op.made?_instr _)
  | .logical op left right, ⟨_, hl, hdup, hjump, hpop, hr⟩ =>
    ((((counts_expr left hl).next hdup rfl).next hjump (by cases op <;> rfl)).next hpop rfl).append
      (counts_expr right hr)
  | .call _ args, ⟨_, _, hc, ha, h⟩ => (counts_exprs args ha).then h hc.made?
  | .callValue callee args, ⟨_, _, hc, ha, h⟩ | .callDynamic callee args, ⟨_, _, hc, ha, h⟩ =>
    ((counts_expr callee hc).append (counts_exprs args ha)).then h rfl
  | .callMethodDynamic _ args, ⟨_, ha, h⟩ => (counts_exprs args ha).then h rfl
  | .field object _ index, ⟨_, ho, h⟩ => (counts_expr object ho).then h (by cases index <;> rfl)
  | .structInit _ values, ⟨_, _, _, hv, h⟩ => (counts_exprs values hv).then h rfl
  | .lambda _ _ _ _, ⟨_, _, _, _, _, _, _, hl, h⟩ => (counts_loadsAt hl).append (.ends h)
  | .spawn _ args, ⟨_, _, _, ha, h⟩ => (counts_exprs args ha).then h rfl
  | .await task, ⟨_, ht, h⟩ => (counts_expr task ht).then h rfl
  | .box inner, ⟨_, hi, h⟩ | .unbox inner, ⟨_, hi, h⟩ => (counts_expr inner hi).then h rfl
  | .cast inner, ⟨_, _, _, hi, h⟩ => (counts_expr inner hi).then h rfl
  | .format parts, ⟨_, ha, h⟩ => (counts_exprs parts ha).then h rfl

theorem counts_exprs {start stop : Nat} {P : Point} :
    (es : List TExpr) → ExprsAt t f P start es stop →
    f.Counts start (exprsOutline t.ids es).makes stop
  | [], h => by
    obtain rfl : stop = start := h
    exact .nil
  | e :: rest, ⟨_, he, h⟩ => (counts_expr e he).append (counts_exprs rest h)

theorem counts_stmt {start stop : Nat} {P : Point} {x : Option Exits} {rest : List TStmt} :
    (s : TStmt) →
    s.Looped x.isSome → StmtAt t f x P start rest s stop →
    f.Counts start (stmtOutline t.ids s).makes stop
  | .declare _ _ ty none _, _, ⟨_, _, hc, hbox, hd⟩ => by
    have hc := Counts.const hc
    split at hbox
    · exact (hc.then hbox rfl).then hd.2.2 rfl
    · obtain rfl := hbox
      exact hc.then hd.2.2 rfl
  | .declare _ _ _ (some value) _, _, ⟨_, hv, hd⟩ => (counts_expr value hv).then hd.2.2 rfl
  | .assign _ value _, _, ⟨_, hv, hs⟩ => (counts_expr value hv).append (counts_storeAt hs)
  | .branch condition thenBlock elifs elseBlock _, ⟨hlt, hlm, hll⟩,
      ⟨_, _, _, _, hc, hjump, ht, hover, hm, he⟩ =>
    (((((counts_expr condition hc).next hjump rfl).append
      (.inScope ht fun _ _ h => counts_stmts thenBlock hlt h)).then hover rfl).append
        (counts_elifs elifs hlm hm)).append (counts_else elseBlock hll he)
  | .loop condition body _, hl, ⟨_, _, hc, hjump, hb, hback⟩ =>
    (((counts_expr condition hc).next hjump rfl).append (.inScope hb fun _ _ h =>
      counts_stmts (x := some ⟨start, stop, P.scopes.length⟩) body hl h)).then hback rfl
  | .block body span, hl, h => by
    have hin : f.InScope start span (fun a b => StmtsAt t f x P.opened a body b) stop := h
    exact .inScope hin fun _ _ h => counts_stmts body hl h
  | .ret none _, _, ⟨_, hc, h⟩ => (Counts.const hc).then h rfl
  | .ret (some value) _, _, h => by
    rw [StmtAt] at h
    split at h
    · rename_i b hb
      have hvalue : (exprOutline t.ids value).makes = 0 := by
        obtain ⟨kind, ty, at_⟩ := value
        cases kind <;> first | rfl | cases hb
      rw [stmtOutline, hvalue]
      exact (Counts.has h.2.1).then h.2.2 rfl
    · obtain ⟨_, hv, h⟩ := h
      exact (counts_expr value hv).then h rfl
  | .breakLoop _, hl, h | .continueLoop _, hl, h => by
    cases x with
    | none => cases hl
    | some x =>
      obtain ⟨last, hexits, hjump⟩ := h
      refine (Counts.hasAll hexits fun i hi => ?_).then hjump rfl
      rw [List.eq_of_mem_replicate hi]
      rfl
  | .free _ _, _, h => counts_freeAt h
  | .collect _, _, h => .hasAll h fun i hi => by
    obtain ⟨b, -, rfl⟩ := List.mem_map.1 hi
    rfl
  | .yieldNow _, _, h => .ends h
  | .eval value _, _, ⟨_, hv, h⟩ => (counts_expr value hv).then h rfl

theorem counts_stmts {start stop : Nat} {P : Point} {x : Option Exits} : (ss : List TStmt) →
    AllLooped x.isSome ss → StmtsAt t f x P start ss stop →
    f.Counts start (stmtsOutline t.ids ss).makes stop
  | [], _, h => by
    obtain rfl : stop = start := h
    exact .nil
  | s :: rest, hl, ⟨_, hs, hr⟩ => (counts_stmt s hl.1 hs).append (counts_stmts rest hl.2 hr)

theorem counts_elifs {start stop target : Nat} {P : Point} {x : Option Exits} {before : Freed}
    {span : Option Span} : (elifs : List (TExpr × List TStmt)) → ElifsLooped x.isSome elifs →
    ElifsAt t f x before span target P start elifs stop →
    f.Counts start (elifsOutline t.ids elifs).makes stop
  | [], _, h => by
    obtain rfl : stop = start := h
    exact .nil
  | (condition, body) :: rest, hl, ⟨_, _, _, hc, hjump, hb, hover, hr⟩ =>
    ((((counts_expr condition hc).next hjump rfl).append
      (.inScope hb fun _ _ h => counts_stmts body hl.1 h)).then hover rfl).append
        (counts_elifs rest hl.2 hr)

theorem counts_else {start stop : Nat} {P : Point} {x : Option Exits} {span : Option Span} :
    (elseBlock : Option (List TStmt)) → ElseLooped x.isSome elseBlock →
    ElseAt t f x P start span elseBlock stop →
    f.Counts start (elseOutline t.ids elseBlock).makes stop
  | none, _, h => by
    obtain rfl : stop = start := h
    exact .nil
  | some body, hl, h => by
    have hin : f.InScope start span (fun a b => StmtsAt t f x P.opened a body b) stop := h
    exact .inScope hin fun _ _ h => counts_stmts body hl h

end

end

/-! ## Code for an outline -/

/-- The code between two addresses makes values of what the outline says, which neither has to do
with tasks nor has a float literal that another constant stands for. -/
structure FunctionCode.Carries (f : FunctionCode) (o : Outline)
    (first start stop : Nat) : Prop where
  made : f.made start stop = o.made first
  tasks : o.tasks = 0
  floats : ∀ x ∈ o.floats, ∀ y, .float y ∈ f.constants → (y == x) = true → y = x

namespace FunctionCode

variable {f : FunctionCode} {o o' : Outline} {first start mid stop : Nat} {i : Instr}
  {span : Option Span}

/-- What is known of code for one outline and then another is known of each. -/
theorem Carries.split (h : f.Carries (o ++ o') first start stop) (hl : f.Counts start o.makes mid)
    (hr : mid ≤ stop) : f.Carries o first start mid ∧ f.Carries o' (first + o.total) mid stop := by
  obtain ⟨hmade, htasks, hfloats⟩ := h
  rw [made_append hl.1 hr, Outline.made_append] at hmade
  obtain ⟨hm, hm'⟩ := List.append_inj hmade (hl.2.trans (o.length_made first).symm)
  rw [Outline.tasks_append] at htasks
  rw [Outline.floats_append] at hfloats
  exact ⟨⟨hm, by omega, fun x hx => hfloats x (List.mem_append_left _ hx)⟩,
    ⟨hm', by omega, fun x hx => hfloats x (List.mem_append_right _ hx)⟩⟩

/-- Code that makes no function values may be left out. -/
theorem Carries.before (h : f.Carries o first start stop) (hl : start ≤ mid)
    (hr : f.Counts mid 0 stop) : f.Carries o first start mid := by
  refine ⟨?_, h.tasks, h.floats⟩
  rw [← h.made, made_append hl hr.1, List.eq_nil_of_length_eq_zero hr.2, List.append_nil]

theorem Carries.after (h : f.Carries o first start stop) (hl : f.Counts start 0 mid)
    (hr : mid ≤ stop) : f.Carries o first mid stop := by
  refine ⟨?_, h.tasks, h.floats⟩
  rw [← h.made, made_append hl.1 hr, List.eq_nil_of_length_eq_zero hl.2, List.nil_append]

theorem Carries.init (h : f.Carries o first start stop) (hl : start ≤ mid)
    (hi : f.Ends mid i span stop) (hm : i.made? = none) : f.Carries o first start mid :=
  h.before hl (by have := Counts.ends hi; rwa [hm] at this)

end FunctionCode

end ScopedScript
