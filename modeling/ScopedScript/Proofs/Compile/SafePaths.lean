import ScopedScript.Proofs.Compile.SlotSafety

/-!
# Paths through statements

Code in its layout is safe from any bindings that the point before it mirrors, provided that what
follows it is. The back edge of a loop is taken with fewer instructions left, and leads to the point
before the loop: the body frees nothing that was declared outside of it.
-/

namespace ScopedScript

open Bindings

/-- The point lies in the body of the loop that starts at `H`: scopes have been opened since, and
what could be used at `H` still can. -/
structure Point.Within (H P : Point) : Prop where
  scopes : ∃ extra, extra ≠ [] ∧ P.scopes = extra ++ H.scopes
  usable : ∀ c ∈ H.scopes.flatten, H.Usable c → P.Usable c
  depth : ∀ c ∈ H.scopes.flatten, c.loopDepth < P.loops

namespace Point.Within

variable {H P Q : Point}

theorem extend (h : H.Within P) (hQ : P.Extends Q) : H.Within Q := by
  obtain ⟨extra, hne, hs⟩ := h.scopes
  constructor
  case scopes =>
    obtain ⟨scope, more, rfl⟩ := List.exists_cons_of_ne_nil hne
    obtain ⟨scope', outer, hQs⟩ := List.exists_cons_of_ne_nil hQ.nonempty
    refine ⟨scope' :: more, List.cons_ne_nil _ _, ?_⟩
    have := hQ.outer
    rw [hs, hQs] at this
    rw [hQs, List.cons_append]
    exact congrArg (scope' :: ·) this
  case usable =>
    intro c hc hu
    refine hQ.spared c ?_ (h.depth c hc) (h.usable c hc hu)
    rw [hs, List.flatten_append]
    exact List.mem_append_right _ hc
  case depth => exact hQ.loops ▸ h.depth

theorem opened (h : H.Within P) : H.Within P.opened where
  scopes := by
    obtain ⟨extra, -, hs⟩ := h.scopes
    exact ⟨[] :: extra, List.cons_ne_nil _ _, congrArg ([] :: ·) hs⟩
  usable := h.usable
  depth := h.depth

theorem of_same (h : H.Within P) (hs : Q.scopes = P.scopes) (hf : Q.freed = P.freed)
    (hl : Q.loops = P.loops) : H.Within Q where
  scopes := hs ▸ h.scopes
  usable := fun c hc hu => by
    rw [Point.Usable, hf]
    exact h.usable c hc hu
  depth := hl ▸ h.depth

/-- The start of the body of a loop. -/
theorem start (hP : P.Fine) : P.Within P.inLoop.opened where
  scopes := ⟨[[]], List.cons_ne_nil _ _, rfl⟩
  usable := fun _ _ hu => hu
  depth := fun c hc => Nat.lt_succ_of_le (hP.below c hc).2

end Point.Within

/-- Where `break` and `continue` lead is safe for bindings that the start of the loop mirrors; going
back to the start costs an instruction. -/
def Leaves (f : FunctionCode) (n : Nat) (x : Option Exits) (P : Point) : Prop :=
  ∀ e, x = some e → ∃ H, Point.Within H P ∧ H.scopes.length = e.depth ∧
    (∀ b, Mirrors f.slotCount H b → Safe f n e.stop b) ∧
    ∀ m < n, ∀ b, Mirrors f.slotCount H b → Safe f m e.start b

section

variable {t : Tables} {f : FunctionCode} {x : Option Exits} {P Q : Point} {n start stop : Nat}
  {span : Option Span}

theorem Leaves.mono {m : Nat} (h : Leaves f n x P) (hm : m ≤ n) : Leaves f m x P := by
  intro e he
  obtain ⟨H, hw, hd, hstop, hstart⟩ := h e he
  exact ⟨H, hw, hd, fun b hb => (hstop b hb).mono hm, fun k hk => hstart k (hk.trans_le hm)⟩

theorem Leaves.within (h : Leaves f n x P) (hw : ∀ H, Point.Within H P → Point.Within H Q) :
    Leaves f n x Q := by
  intro e he
  obtain ⟨H, hHP, h⟩ := h e he
  exact ⟨H, hw H hHP, h⟩

/-- Out of the scopes of the loop, to one of its exits. -/
theorem safe_leave {H : Point} {depth last : Nat} {b : Bindings} (hw : H.Within P) (hP : P.Fine)
    (hd : H.scopes.length = depth)
    (h : f.HasAll span start (List.replicate (P.scopes.length - depth) .exitScope) last)
    (hs : ∀ b, Mirrors f.slotCount H b → Safe f n last b) (hb : Mirrors f.slotCount P b) :
    Safe f n start b := by
  obtain ⟨extra, -, hsc⟩ := hw.scopes
  have hlen : P.scopes.length - depth = extra.length := by
    rw [hsc, List.length_append, hd]
    omega
  rw [hlen] at h
  refine safe_exitScopes h hsc hP.distinct hb fun b hb => hs b ?_
  exact hb.weaken rfl fun c hc hu => hw.usable c hc hu

theorem safe_inScope {body : Nat → Nat → Prop} (h : f.InScope start span body stop)
    (hP : P.Fine) (hQ : P.opened.Extends Q)
    (hbody : ∀ last, body (start + 1) last →
      (∀ b, Mirrors f.slotCount Q b → Safe f n last b) →
      ∀ b, Mirrors f.slotCount P.opened b → Safe f n (start + 1) b)
    (hs : ∀ b, Mirrors f.slotCount Q.closed b → Safe f n stop b)
    {b : Bindings} (hb : Mirrors f.slotCount P b) : Safe f n start b := by
  obtain ⟨last, hopen, hin, hclose⟩ := h
  refine safe_enterScope hopen hb (hbody last hin fun b hb => ?_)
  exact safe_exitScope hclose hQ.nonempty (hP.opened.extend hQ).distinct hb hs

theorem safe_loop {condition : TExpr} {body : List TStmt} (hP : P.Fine)
    (hbody : ∀ {n last : Nat}, Leaves f n (some ⟨start, stop, P.scopes.length⟩) P.inLoop.opened →
      ∀ first, StmtsAt t f (some ⟨start, stop, P.scopes.length⟩) P.inLoop.opened first body last →
      (∀ b, Mirrors f.slotCount (P.inLoop.opened.stmts body) b → Safe f n last b) →
      ∀ b, Mirrors f.slotCount P.inLoop.opened b → Safe f n first b)
    (h : StmtAt t f x P start [] (.loop condition body span) stop)
    (hs : ∀ b, Mirrors f.slotCount (P.inLoop.opened.stmts body).closed.outOfLoop b →
      Safe f n stop b)
    (b : Bindings) (hb : Mirrors f.slotCount P b) : Safe f n start b := by
  have hQ := Point.extends_stmts hP.inLoop_opened body
  have hloop := Point.Extends.loopClosed hP hQ
  have hscopes : (P.inLoop.opened.stmts body).closed.scopes = P.scopes := hQ.outer
  have hleave : ∀ b, Mirrors f.slotCount P b → Safe f n stop b := fun b hb =>
    hs b (hb.weaken hscopes fun c _ hu => hloop.freed c.slot hu)
  obtain ⟨mid, last, hcond, hjump, ⟨inner, hopen, hin, hclose⟩, hback⟩ := h
  induction n using Nat.strong_induction_on generalizing b with
  | _ n ih =>
  have hagain : ∀ m < n, ∀ b, Mirrors f.slotCount P b → Safe f m start b := fun m hm b hb =>
    ih m hm (fun b hb => (hs b hb).mono hm.le) b hb fun b hb => (hleave b hb).mono hm.le
  refine safe_expr hb condition hcond (safe_jumpIf hjump (.inl rfl) (hleave b hb) ?_)
  refine safe_enterScope (P := P.inLoop) hopen ⟨hb.size, hb.scopes, hb.live, hb.owned⟩ ?_
  refine hbody ?_ _ hin fun b hb => ?_
  · intro e he
    cases he
    exact ⟨P, .start hP, rfl, hleave, hagain⟩
  · refine safe_exitScope hclose hQ.nonempty (hP.inLoop_opened.extend hQ).distinct hb fun b hb => ?_
    refine safe_jump hback fun m hm => hagain m hm b (hb.weaken hscopes.symm fun c hc hu => ?_)
    have hcP : c ∈ P.scopes.flatten := by
      rw [← hscopes]
      exact hc
    exact hQ.spared c hcP (Nat.lt_succ_of_le (hP.below c hcP).2) hu

theorem Point.mem_of_moved? {value : TExpr} {c : Binding} (h : P.moved? value = some c) :
    c ∈ P.scopes.flatten := by
  unfold Point.moved? at h
  split at h
  · split at h
    · cases h
      exact Point.mem_of_resolve? ‹_›
    · cases h
  · cases h

theorem safe_ret {b : Bindings} (h : f.Ends start .ret span stop) : Safe f n start b := by
  refine safe_has h.1 trivial fun m _ es b' ip' hr _ => ?_
  cases hr with
  | same _ hi => cases hi

mutual

theorem safe_stmt {n start stop : Nat} {x : Option Exits} {P : Point} (hP : P.Fine)
    (rest : List TStmt) (hx : Leaves f n x P) : (s : TStmt) → s.Looped x.isSome →
    StmtAt t f x P start rest s stop →
    (∀ b, Mirrors f.slotCount (P.stmt rest s) b → Safe f n stop b) →
    ∀ b, Mirrors f.slotCount P b → Safe f n start b
  | .declare name _ ty none span, _, ⟨mid, last, hnull, hbox, hd⟩, hs, b, hb => by
    refine safe_const hnull ?_
    have := safe_declareAt hd hP hb hs
    split at hbox
    · exact safe_ends hbox rfl this
    · exact hbox ▸ this
  | .declare _ _ _ (some value) _, _, ⟨_, he, hd⟩, hs, _, hb =>
    safe_expr hb value he (safe_declareAt hd hP hb hs)
  | .assign _ value _, _, ⟨_, he, hst⟩, hs, _, hb => safe_expr hb value he (safe_storeAt hst hb hs)
  | .branch condition thenBlock elifs elseBlock span, ⟨hlt, hle, hll⟩,
      ⟨mid, last, next, other, hc, hjump, hthen, hleave, helifs, helse⟩, hs, b, hb => by
    have ht := Point.extends_stmts hP.opened thenBlock
    have hts := Point.scopes_closed ht
    have hPt := hP.of_same hts ht.slots ht.loops
    have hm := Point.branches_elifBranches P.freed hPt elifs
    have hPm := hPt.of_same hm.scopes hm.slots hm.loops
    have hl := Point.extends_elseBranch (P := (Point.elifBranches _ _ elifs).1.withFreed P.freed)
      (hPm.of_same rfl le_rfl rfl) elseBlock
    have hxm := hx.within fun H hw => hw.of_same
      (Q := (Point.elifBranches P.freed (P.opened.stmts thenBlock).closed elifs).1.withFreed
        P.freed) (hm.scopes.trans hts) rfl (hm.loops.trans ht.loops)
    have hxt : Leaves f n x ((P.opened.stmts thenBlock).closed.withFreed P.freed) :=
      hx.within fun H hw => hw.of_same hts rfl ht.loops
    have hend : ∀ Q : Point, Q.scopes = P.scopes →
        (∀ slot, (P.stmt rest (.branch condition thenBlock elifs elseBlock span)).freed.lookup
          slot = none → Q.freed.lookup slot = none) →
        ∀ b, Mirrors f.slotCount Q b → Safe f n stop b := fun Q hQ hf b hb =>
      hs b (hb.weaken (((hl.2.trans hm.scopes).trans hts).trans hQ.symm) fun c _ hu => hf c.slot hu)
    refine safe_expr hb condition hc (safe_jumpIf hjump (.inl rfl) ?_ ?_)
    · refine safe_elifs hPt hxt elifs hle helifs ?_ ?_ b (hb.weaken hts fun c _ hu => hu)
      · refine hend _ (hm.scopes.trans hts) fun slot hu => ?_
        exact (Point.lookup_merge_eq_none.1 (Point.lookup_merge_eq_none.1 hu).1).2
      · refine safe_else (hPm.of_same rfl le_rfl rfl) hxm elseBlock hll helse ?_
        refine hend _ ((hl.2.trans hm.scopes).trans hts) fun slot hu => ?_
        exact (Point.lookup_merge_eq_none.1 hu).2
    · refine safe_inScope hthen hP ht (fun last h hs =>
        safe_stmts hP.opened (hx.within fun H hw => hw.opened) thenBlock hlt h hs)
          (fun b hb => ?_) hb
      refine safe_jump hleave fun m hm => (hend _ hts (fun slot hu => ?_) b hb).mono hm.le
      exact (Point.lookup_merge_eq_none.1 (Point.lookup_merge_eq_none.1 hu).1).1
  | .loop _ body _, hl, h, hs, b, hb =>
    safe_loop (x := x) hP (fun hx _ h hs b hb => safe_stmts hP.inLoop_opened hx body hl h hs b hb)
      h hs b hb
  | .block body span, hl, h, hs, b, hb => by
    have hin : f.InScope start span (fun a b => StmtsAt t f x P.opened a body b) stop := h
    exact safe_inScope hin hP (Point.extends_stmts hP.opened body) (fun _ h hs =>
      safe_stmts hP.opened (hx.within fun _ hw => hw.opened) body hl h hs) hs hb
  | .ret none _, _, ⟨_, hnull, hret⟩, _, _, _ => safe_const hnull (safe_ret hret)
  | .ret (some value) _, _, h, _, b, hb => by
    rw [StmtAt] at h
    split at h
    · rename_i c hc
      obtain ⟨hu, hmove, hret⟩ := h
      refine safe_has hmove (hb.live c (Point.mem_of_moved? hc) hu) fun m _ es b' ip' _ hgo => ?_
      obtain rfl : ip' = start + 1 := hgo
      exact safe_ret hret
    · obtain ⟨last, he, hret⟩ := h
      exact safe_expr hb value he (safe_ret hret)
  | .breakLoop _, hl, h, _, b, hb => by
    cases x with
    | none => cases hl
    | some e =>
      obtain ⟨last, hexits, hjump⟩ := h
      obtain ⟨H, hw, hd, hstop, -⟩ := hx e rfl
      refine safe_leave hw hP hd hexits (fun b hb => ?_) hb
      exact safe_jump hjump fun m hm => (hstop b hb).mono hm.le
  | .continueLoop _, hl, h, _, b, hb => by
    cases x with
    | none => cases hl
    | some e =>
      obtain ⟨last, hexits, hjump⟩ := h
      obtain ⟨H, hw, hd, -, hstart⟩ := hx e rfl
      refine safe_leave hw hP hd hexits (fun b hb => ?_) hb
      exact safe_jump hjump fun m hm => hstart m hm b hb
  | .free _ _, _, h, hs, _, hb => safe_freeAt h hb hs
  | .collect _, _, h, hs, _, hb => safe_collect h hP hb hs
  | .yieldNow _, _, h, hs, b, hb => safe_ends h rfl (hs b hb)
  | .eval value _, _, ⟨_, he, h⟩, hs, b, hb => safe_expr hb value he (safe_ends h rfl (hs b hb))

theorem safe_stmts {n start stop : Nat} {x : Option Exits} {P : Point} (hP : P.Fine)
    (hx : Leaves f n x P) : (ss : List TStmt) → AllLooped x.isSome ss →
    StmtsAt t f x P start ss stop →
    (∀ b, Mirrors f.slotCount (P.stmts ss) b → Safe f n stop b) →
    ∀ b, Mirrors f.slotCount P b → Safe f n start b
  | [], _, h, hs, b, hb => by
    obtain rfl : stop = start := h
    exact hs b hb
  | s :: rest, ⟨hl, hls⟩, ⟨_, h, hr⟩, hs, b, hb => by
    have he := Point.extends_stmt hP rest s
    exact safe_stmt hP rest hx s hl h (safe_stmts (hP.extend he)
      (hx.within fun H hw => hw.extend he) rest hls hr hs) b hb

theorem safe_elifs {n start stop target : Nat} {x : Option Exits} {P : Point} {before : Freed}
    {span : Option Span} (hP : P.Fine) (hx : Leaves f n x (P.withFreed before)) :
    (elifs : List (TExpr × List TStmt)) → ElifsLooped x.isSome elifs →
    ElifsAt t f x before span target P start elifs stop →
    (∀ b, Mirrors f.slotCount
      ((P.elifBranches before elifs).1.withFreed (P.elifBranches before elifs).2) b →
      Safe f n target b) →
    (∀ b, Mirrors f.slotCount ((P.elifBranches before elifs).1.withFreed before) b →
      Safe f n stop b) →
    ∀ b, Mirrors f.slotCount (P.withFreed before) b → Safe f n start b
  | [], _, h, _, hlast, b, hb => by
    obtain rfl : stop = start := h
    exact hlast b hb
  | (condition, body) :: rest, ⟨hl, hls⟩, ⟨_, _, _, hc, hjump, hin, hleave, h⟩, hend,
      hlast, b, hb => by
    have hPb : (P.withFreed before).Fine := hP.of_same rfl le_rfl rfl
    have he := Point.extends_stmts hPb.opened body
    have hes := Point.scopes_closed he
    have hPe := hPb.of_same hes he.slots he.loops
    have hr := Point.branches_elifBranches before hPe rest
    have hxe : Leaves f n x (((P.withFreed before).opened.stmts body).closed.withFreed before) :=
      hx.within fun H hw => hw.of_same hes rfl he.loops
    refine safe_expr hb condition hc (safe_jumpIf hjump (.inl rfl) ?_ ?_)
    · refine safe_elifs hPe hxe rest hls h
        (fun b hb => hend b (hb.weaken rfl fun c _ hu => ?_)) hlast b
        (hb.weaken hes fun c _ hu => hu)
      exact (Point.lookup_merge_eq_none.1 hu).2
    · refine safe_inScope hin hPb he (fun last h hs =>
        safe_stmts hPb.opened (hx.within fun H hw => hw.opened) body hl h hs) (fun b hb => ?_) hb
      refine safe_jump hleave fun m hm => (hend b (hb.weaken hr.scopes fun c _ hu => ?_)).mono hm.le
      exact (Point.lookup_merge_eq_none.1 hu).1

theorem safe_else {n start stop : Nat} {x : Option Exits} {P : Point} {span : Option Span}
    (hP : P.Fine) (hx : Leaves f n x P) : (elseBlock : Option (List TStmt)) →
    ElseLooped x.isSome elseBlock → ElseAt t f x P start span elseBlock stop →
    (∀ b, Mirrors f.slotCount (P.elseBranch elseBlock) b → Safe f n stop b) →
    ∀ b, Mirrors f.slotCount P b → Safe f n start b
  | none, _, h, hs, b, hb => by
    obtain rfl : stop = start := h
    exact hs b hb
  | some body, hl, h, hs, b, hb => by
    have hin : f.InScope start span (fun a b => StmtsAt t f x P.opened a body b) stop := h
    exact safe_inScope hin hP (Point.extends_stmts hP.opened body) (fun _ h hs =>
      safe_stmts hP.opened (hx.within fun _ hw => hw.opened) body hl h hs) hs hb

end

end

end ScopedScript
