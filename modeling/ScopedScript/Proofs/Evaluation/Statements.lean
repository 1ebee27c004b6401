import ScopedScript.Proofs.Evaluation.Scopes

/-!
# Code of statements

The code of statements evaluates them: it comes to its end, to one of the exits of the loop around
it or to a return, as the evaluation does, and leaves its frame with the values that are in scope
there. Each turn of a loop costs the machine an instruction at least, as it costs the evaluation
some fuel.
-/

namespace ScopedScript

open FunctionCode Evaluator

/-- The way out of the loop around a place, if there is one, leads to scopes that are open here. -/
def Point.Enclosed (P : Point) (x : Option Exits) (H : Point) : Prop :=
  ∀ e, x = some e → H.Within P ∧ H.scopes.length = e.depth

namespace Point

variable {x : Option Exits} {H P Q : Point}

theorem Enclosed.opened (h : P.Enclosed x H) : P.opened.Enclosed x H :=
  fun e he => ⟨(h e he).1.opened, (h e he).2⟩

theorem Enclosed.extend (h : P.Enclosed x H) (hQ : P.Extends Q) : Q.Enclosed x H :=
  fun e he => ⟨(h e he).1.extend hQ, (h e he).2⟩

theorem Enclosed.of_same (h : P.Enclosed x H) (hs : Q.scopes = P.scopes) (hf : Q.freed = P.freed)
    (hl : Q.loops = P.loops) : Q.Enclosed x H :=
  fun e he => ⟨(h e he).1.of_same hs hf hl, (h e he).2⟩

theorem Enclosed.length_le (h : P.Enclosed x H) (e : Exits) (he : x = some e) :
    H.scopes.length ≤ P.scopes.length := by
  obtain ⟨extra, -, hs⟩ := (h e he).1.scopes
  rw [hs, List.length_append]
  exact Nat.le_add_left _ _

theorem moved?_eq_some {value : TExpr} {c : Binding} (h : P.moved? value = some c) :
    ∃ name ty span, value = .mk (.binding name) ty span ∧ P.resolve? name = some (.slot c) := by
  unfold moved? at h
  split at h
  · split at h
    · cases h
      exact ⟨_, _, _, rfl, ‹_›⟩
    · cases h
  · cases h

end Point

/-- Where control is after a statement, before which so many scopes were open. The loop around it is
the one at the point `H`. -/
def Seat.Completes (c : Seat) (o : Running) (x : Option Exits) (H : Point) (depth : Nat) (Q : Point)
    (stack : List Value) (stop : Nat) : Completion → String → Running → Prop
  | .normal env, written, s =>
    ∃ b, Models c.code.slotCount Q b env ∧ c.Stands o stop b stack written s
  | .broken env, written, s => ∃ e b, x = some e ∧
    Models c.code.slotCount H b (env.drop (depth - H.scopes.length)) ∧
    c.Stands o e.stop b stack written s
  | .continued env, written, s => ∃ e b, x = some e ∧
    Models c.code.slotCount H b (env.drop (depth - H.scopes.length)) ∧
    c.Stands o e.start b stack written s
  | .returned v, written, s => c.Returns o stack v written s

/-- Code in a scope makes values of what is known for the scope. -/
theorem FunctionCode.InScope.carries {f : FunctionCode} {start stop first : Nat}
    {span : Option Span} {body : Nat → Nat → Prop} {l : Outline}
    (h : f.InScope start span body stop) (hcounts : ∀ a b, body a b → f.Counts a l.makes b)
    (hk : f.Carries l first start stop) :
    f.InScope start span (fun a b => body a b ∧ f.Carries l first a b) stop := by
  obtain ⟨last, hopen, hin, hclose⟩ := h
  have hc := hcounts _ _ hin
  have hopened : f.Counts start 0 (start + 1) := Counts.nil.next hopen rfl
  exact ⟨last, hopen, ⟨hin, (hk.init (hopened.append hc).1 hclose rfl).after hopened hc.1⟩, hclose⟩

theorem Point.Extends.length_scopes {P Q : Point} (h : P.Extends Q) (hP : P.scopes ≠ []) :
    Q.scopes.length = P.scopes.length := by
  obtain ⟨scope, outer, hs⟩ := List.exists_cons_of_ne_nil hP
  obtain ⟨scope', outer', hs'⟩ := List.exists_cons_of_ne_nil h.nonempty
  have houter := h.outer
  rw [hs, hs', List.tail_cons, List.tail_cons] at houter
  rw [hs, hs', houter, List.length_cons, List.length_cons]

section

variable {w : Evaluator} {t : Tables} {o : Running} {call : Caller} {c : Seat} {n : Nat}
  {x : Option Exits}
  {H P Q : Point} {b : Bindings} {env : Locals} {span : Option Span} {start mid stop first : Nat}
  {stack : List Value} {written : String} {s : Running}

/-- Once control is behind a statement it may go on, as long as nothing is evaluated. -/
theorem Realizes.onward {p : Linked} {depth last : Nat} {Q' : Point}
    {r : EStateM.Result Stop String Completion}
    (h : Realizes p o n s (c.Completes o x H depth Q' stack last) r)
    (hnormal : ∀ b env written s, Models c.code.slotCount Q' b env →
      c.Stands o last b stack written s →
      ∃ k s' b', s.Goes p k s' ∧ Models c.code.slotCount Q b' env ∧
      c.Stands o stop b' stack written s') :
    Realizes p o n s (c.Completes o x H depth Q stack stop) r := by
  cases h with
  | @value k s' a written h hq =>
    cases a with
    | normal env =>
      obtain ⟨b, hm, hs⟩ := hq
      obtain ⟨k, s'', b', hgoes, hm', hs'⟩ := hnormal b env written s' hm hs
      exact .value (h.trans hgoes) ⟨b', hm', hs'⟩
    | broken env | continued env | returned v => exact .value h hq
  | trap h ht hs => exact .trap h ht hs
  | fuel h hk => exact .fuel h hk
  | misfit h hm => exact .misfit h hm

/-- A block leaves its scope as evaluation does. -/
theorem realizes_block {p : Linked} (hc : p.module.functions[c.function]? = some c.code)
    (hP : P.opened.Fine) (hQ : P.opened.Extends Q)
    (hH : ∀ e, x = some e → H.scopes.length ≤ P.scopes.length)
    {body : Nat → Nat → Prop} {run : Locals → Eval Completion}
    (hin : c.code.InScope start span body stop)
    (hbody : ∀ last b s, body (start + 1) last → Models c.code.slotCount P.opened b ([] :: env) →
      c.Stands o (start + 1) b stack written s →
      Realizes p o n s (c.Completes o x H P.opened.scopes.length Q stack last)
      (run ([] :: env) written))
    (hm : Models c.code.slotCount P b env) (hs : c.Stands o start b stack written s) :
    Realizes p o n s (c.Completes o x H P.scopes.length Q.closed stack stop)
      (Evaluator.block run env written) := by
  obtain ⟨last, hopen, hin, ⟨hclose, rfl⟩⟩ := hin
  obtain ⟨s', b', hnext, hm', hs'⟩ := goes_enterScope hc hm hs hopen
  refine .after (.step hnext (.refl s'))
    ((hbody last b' s' hin hm' hs').bind fun a written s ha => ?_)
  -- what the loop around needs to know of the values in scope does not count the scope of the block
  have hdrop {env : Locals} (he : ∃ e, x = some e) :
      env.drop (P.opened.scopes.length - H.scopes.length) =
        env.tail.drop (P.scopes.length - H.scopes.length) := by
    obtain ⟨e, he⟩ := he
    have hlength := hH e he
    rw [List.drop_tail]
    congr 1
    exact Nat.succ_sub hlength
  cases a with
  | normal env =>
    obtain ⟨b, hm, hs⟩ := ha
    obtain ⟨s', b', hnext, hm', hs'⟩ :=
      goes_exitScope hc hm hQ.nonempty (hP.extend hQ).distinct hs hclose
    exact .value (.step hnext (.refl s')) ⟨b', hm', hs'⟩
  | broken env | continued env =>
    obtain ⟨e, b, he, hm, hs⟩ := ha
    exact .pure ⟨e, b, he, hdrop ⟨e, he⟩ ▸ hm, hs⟩
  | returned v => exact .pure ha

/-- Out of the scopes of the loop around. -/
theorem goes_leave {p : Linked} {depth last : Nat}
    (hc : p.module.functions[c.function]? = some c.code) (hw : H.Within P) (hP : P.Fine)
    (hd : H.scopes.length = depth)
    (h : c.code.HasAll span start (List.replicate (P.scopes.length - depth) .exitScope) last)
    (hm : Models c.code.slotCount P b env) (hs : c.Stands o start b stack written s) :
    ∃ k s' b', s.Goes p k s' ∧
      Models c.code.slotCount H b' (env.drop (P.scopes.length - H.scopes.length)) ∧
      c.Stands o last b' stack written s' := by
  obtain ⟨extra, -, hsc⟩ := hw.scopes
  have hlength : P.scopes.length - H.scopes.length = extra.length := by
    rw [hsc, List.length_append, Nat.add_sub_cancel]
  rw [← hd, hlength] at h
  obtain ⟨k, s', b', hgoes, hm', hs'⟩ := goes_exitScopes hc hm hsc hP.distinct hs h
  rw [hlength]
  exact ⟨k, s', b', hgoes, hm'.weaken rfl fun d hd hu => hw.usable d hd hu, hs'⟩

section

variable (ht : t.Numbered w.program w.module) (hcall : w.Undertakes o call n)
  (hc : w.linked.module.functions[c.function]? = some c.code)

include ht hcall hc

/-- A condition and the jump after it. -/
theorem realizes_test {condition : TExpr} {target k : Nat} {f : Bool → Eval α}
    {R : α → String → Running → Prop} (hr : condition.Received)
    (h : ExprAt t c.code P start condition mid)
    (hjump : c.code.Has mid (.jumpIfFalse target) condition.span)
    (hk : c.code.Carries (exprOutline t.ids condition) first start mid)
    (hcaps : c.code.captures = P.captures) (hm : Models c.code.slotCount P b env)
    (hs : c.Stands o start b stack written s) (hkn : k ≤ n) (hf : ∀ held written s,
      c.Stands o (if held = false then target else mid + 1) b stack written s →
      Realizes w.linked o k s R (f held written)) :
    Realizes w.linked o (k + 1) s R
      ((w.test call c.activation env first condition >>= f) written) := by
  have hexpr :=
    (realizes_expr ht hcall hc hcaps hm condition hr h hk hs).mono (Nat.succ_le_succ hkn)
  have hassoc : (w.test call c.activation env first condition >>= f) written =
      (w.expr call c.activation env first condition >>= fun v =>
        holds c.activation condition.span v >>= f) written := by
    simp only [test, Eval.bind_apply]
    cases w.expr call c.activation env first condition written <;> rfl
  rw [hassoc]
  refine hexpr.bind fun v written s hs => ?_
  exact hs.branch hc (.inl ⟨rfl, rfl⟩) hjump fun held s hs => hf held written s hs

/-- The turns of a loop. -/
theorem realizes_iterate {condition : TExpr} {body : List TStmt} {last : Nat}
    {run : Locals → Eval Completion} (hP : P.Fine) (hcaps : c.code.captures = P.captures)
    (hr : condition.Received) (hcond : ExprAt t c.code P start condition mid)
    (hjump : c.code.Has mid (.jumpIfFalse stop) condition.span)
    (hk : c.code.Carries (exprOutline t.ids condition) first start mid)
    (hback : c.code.Ends last (.jump start) span stop)
    (hbody : ∀ b env written s, Models c.code.slotCount P.inLoop b env →
      c.Stands o (mid + 1) b stack written s →
      Realizes w.linked o (n + 1) s
      (c.Completes o (some ⟨start, stop, P.scopes.length⟩) P P.scopes.length
        (P.inLoop.opened.stmts body).closed stack last) (run env written))
    (k : Nat) (hkn : k ≤ n + 1) (hm : Models c.code.slotCount P b env)
    (hs : c.Stands o start b stack written s) :
    Realizes w.linked o k s
      (c.Completes o x H P.scopes.length (P.inLoop.opened.stmts body).closed.outOfLoop stack stop)
      (iterate (fun env => w.test call c.activation env first condition) run k env written) := by
  have hQ := Point.extends_stmts hP.inLoop_opened body
  have hloop := Point.Extends.loopClosed hP hQ
  have hscopes : (P.inLoop.opened.stmts body).closed.scopes = P.scopes := hQ.outer
  have hleave {b : Bindings} {env : Locals} (hm : Models c.code.slotCount P b env) :
      Models c.code.slotCount (P.inLoop.opened.stmts body).closed.outOfLoop b env :=
    hm.weaken hscopes fun d _ hu => hloop.freed d.slot hu
  induction k generalizing b env written s with
  | zero => exact .fuel (.refl s) (Nat.zero_le 0)
  | succ k ih =>
    refine realizes_test ht hcall hc hr hcond hjump hk hcaps hm hs (Nat.le_of_succ_le_succ hkn)
      fun held written s hs => ?_
    cases held with
    | false => exact .pure ⟨b, hleave hm, hs⟩
    | true =>
      have hinner : Models c.code.slotCount P.inLoop b env :=
        ⟨⟨hm.size, hm.scopes, hm.live, hm.owned⟩, hm.values⟩
      refine ((hbody b env written s hinner hs).mono ((Nat.le_succ k).trans hkn)).bind
        fun a written s ha => ?_
      cases a with
      | normal env =>
        obtain ⟨b', hm', hs⟩ := ha
        obtain ⟨s', hnext, hs'⟩ := hs.jump hc hback.1
        -- the body has freed nothing that was declared outside of it
        have hagain : Models c.code.slotCount P b' env := hm'.weaken hscopes.symm fun d hd hu => by
          have hdP : d ∈ P.scopes.flatten := by
            rw [← hscopes]
            exact hd
          exact hQ.spared d hdP (Nat.lt_succ_of_le (hP.below d hdP).2) hu
        exact .after (.step hnext (.refl s')) (ih (Nat.le_of_succ_le hkn) hagain hs')
      | continued env =>
        obtain ⟨e, b', he, hm', hs⟩ := ha
        cases he
        rw [Nat.sub_self, List.drop_zero] at hm'
        exact ih (Nat.le_of_succ_le hkn) hm' hs
      | broken env =>
        obtain ⟨e, b', he, hm', hs⟩ := ha
        cases he
        rw [Nat.sub_self, List.drop_zero] at hm'
        exact .pure ⟨b', hleave hm', hs⟩
      | returned v => exact .pure ha

set_option linter.unusedSectionVars false in
mutual

theorem realizes_stmt {start stop first : Nat} {stack : List Value} {written : String} {s : Running}
    {x : Option Exits} {H P : Point} {b : Bindings} {env : Locals} (hP : P.Fine)
    (hcaps : c.code.captures = P.captures) (hx : P.Enclosed x H) (rest : List TStmt) :
    (st : TStmt) → st.Looped x.isSome → st.Received → StmtAt t c.code x P start rest st stop →
    c.code.Carries (stmtOutline t.ids st) first start stop → Models c.code.slotCount P b env →
    c.Stands o start b stack written s →
    Realizes w.linked o (n + 1) s (c.Completes o x H P.scopes.length (P.stmt rest st) stack stop)
      (w.stmt call c.activation (n + 1) env first st written)
  | .declare name _ ty none span, _, _, ⟨mid, last, hnull, hbox, hd⟩, _, hm, hs => by
    obtain ⟨k, s₁, hgoes, hs₁⟩ :=
      (realizes_const ht hcall hc hnull hs fun d _ hd =>
        Constant.toValue_of_same hd nofun).exists_goes
    rw [stmt]
    split at hbox <;> rename_i hty
    · obtain ⟨k', s₂, hgoes', hs₂⟩ :=
        (realizes_value ht hcall hc [.null] hs₁ hbox rfl rfl).exists_goes
      obtain ⟨s₃, b', hnext, hm', hs₃⟩ := goes_declare hc hm hP hd hs₂
      rw [if_pos hty]
      exact .value ((hgoes.trans hgoes').trans (.step hnext (.refl s₃))) ⟨b', hm', hs₃⟩
    · obtain rfl := hbox
      obtain ⟨s₃, b', hnext, hm', hs₃⟩ := goes_declare hc hm hP hd hs₁
      rw [if_neg hty]
      exact .value (hgoes.trans (.step hnext (.refl s₃))) ⟨b', hm', hs₃⟩
  | .declare name _ _ (some value) span, _, hr, ⟨last, hv, hd⟩, hk, hm, hs => by
    rw [stmt]
    have hk := hk.init (counts_expr value hv).1 hd.2.2 rfl
    refine (realizes_expr ht hcall hc hcaps hm value hr hv hk hs).bind fun v written s hs => ?_
    obtain ⟨s', b', hnext, hm', hs'⟩ := goes_declare hc hm hP hd hs
    exact .value (.step hnext (.refl s')) ⟨b', hm', hs'⟩
  | .assign target value span, _, hr, ⟨last, hv, hst⟩, hk, hm, hs => by
    rw [stmt]
    have hk := hk.before (counts_expr value hv).1 (counts_storeAt hst)
    refine (realizes_expr ht hcall hc hcaps hm value hr hv hk hs).bind fun v written s hs => ?_
    refine (realizes_store hc hm hP hst hs).bind fun env written s hstored => .pure hstored
  | .branch condition thenBlock elifs elseBlock span, ⟨hlt, hlm, hll⟩, ⟨hrc, hrt, hrm, hrl⟩,
      ⟨mid, last, next, other, hcond, hjump, hthen, hover, helifs, helse⟩, hk, hm, hs => by
    have hext := Point.extends_stmts hP.opened thenBlock
    have hts := Point.scopes_closed hext
    have hPt := hP.of_same hts hext.slots hext.loops
    have hbranches := Point.branches_elifBranches P.freed hPt elifs
    have hPm := hPt.of_same hbranches.scopes hbranches.slots hbranches.loops
    let M : Point :=
      (Point.elifBranches P.freed (P.opened.stmts thenBlock).closed elifs).1.withFreed P.freed
    have hM : M.Fine := hPm.of_same rfl le_rfl rfl
    have hMs : M.scopes = P.scopes := hbranches.scopes.trans hts
    have hl := Point.extends_elseBranch hM elseBlock
    -- the code of each part makes values of its own
    have hcc := (counts_expr condition hcond).next hjump rfl
    have hct : c.code.Counts (mid + 1) (stmtsOutline t.ids thenBlock).makes next :=
      (Counts.inScope hthen fun _ _ h => counts_stmts thenBlock hlt h).then hover rfl
    have hcm := counts_elifs elifs hlm helifs
    have hce := counts_else elseBlock hll helse
    obtain ⟨hk, hke⟩ := hk.split ((hcc.append hct).append hcm) hce.1
    obtain ⟨hk, hkm⟩ := hk.split (hcc.append hct) hcm.1
    obtain ⟨hkc, hkt⟩ := hk.split hcc hct.1
    have hthen := hthen.carries (fun _ _ h => counts_stmts thenBlock hlt h)
      (hkt.init (Counts.inScope hthen fun _ _ h => counts_stmts thenBlock hlt h).1 hover rfl)
    -- what holds at the end of a branch holds after all of them
    have hend {R : Point} (hR : R.scopes = P.scopes)
        (hf : ∀ slot, (P.stmt rest (.branch condition thenBlock elifs elseBlock span)).freed.lookup
          slot = none →
          R.freed.lookup slot = none) (b : Bindings) (env : Locals)
          (h : Models c.code.slotCount R b env) :
        Models c.code.slotCount (P.stmt rest (.branch condition thenBlock elifs elseBlock span))
        b env :=
      h.weaken ((hl.2.trans hMs).trans hR.symm) fun d _ hu => hf d.slot hu
    rw [stmt, show w.ids = t.ids from ht.ids.symm]
    refine realizes_test ht hcall hc hrc hcond hjump (hkc.before (counts_expr condition hcond).1
      (Counts.nil.next hjump rfl)) hcaps hm hs le_rfl fun held written s hs => ?_
    refine Realizes.mono ?_ (Nat.le_succ n)
    cases held with
    | true =>
      rw [if_pos rfl]
      refine Realizes.onward
        (realizes_block hc hP.opened hext hx.length_le hthen (fun last b s h hm hs =>
        realizes_stmts hP.opened hcaps hx.opened thenBlock hlt hrt h.1 h.2 hm hs) hm hs)
          fun b env written s hm hs => ?_
      obtain ⟨s', hnext, hs'⟩ := hs.jump hc hover.1
      refine ⟨1, s', b, .step hnext (.refl s'), hend hts (fun slot hu => ?_) b env hm, hs'⟩
      exact (Point.lookup_merge_eq_none.1 (Point.lookup_merge_eq_none.1 hu).1).1
    | false =>
      rw [if_neg Bool.false_ne_true]
      simp only [Outline.total_append, ← Nat.add_assoc] at hkm hke
      have hxt : ((P.opened.stmts thenBlock).closed.withFreed P.freed).Enclosed x H :=
        hx.of_same hts rfl hext.loops
      have hxM : M.Enclosed x H := hx.of_same hMs rfl (hbranches.loops.trans hext.loops)
      have hcaps' : c.code.captures = (P.opened.stmts thenBlock).closed.captures :=
        hcaps.trans hext.captures.symm
      rw [← congrArg List.length hts]
      refine realizes_elifs hPt hcaps' hxt elifs hlm hrm helifs hkm
        (hend (hbranches.scopes.trans hts) fun slot hu => ?_)
        (fun b written s hm hs => ?_) (hm.weaken hts fun d _ hu => hu) hs
      · exact (Point.lookup_merge_eq_none.1 (Point.lookup_merge_eq_none.1 hu).1).2
      · have h := realizes_else hM (hcaps'.trans hbranches.captures.symm) hxM elseBlock hll hrl
          helse hke hm hs
        rw [hMs, ← hts] at h
        refine h.onward fun b env written s hm hs => ⟨0, s, b, .refl s, ?_, hs⟩
        exact hend (hl.2.trans hMs) (fun slot hu => (Point.lookup_merge_eq_none.1 hu).2) b env hm
  | .loop condition body span, hl, ⟨hrc, hrb⟩, ⟨mid, last, hcond, hjump, hin, hback⟩, hk,
      hm, hs => by
    have hcc := (counts_expr condition hcond).next hjump rfl
    have hcb : c.code.Counts (mid + 1) (stmtsOutline t.ids body).makes last :=
      .inScope hin fun _ _ h => counts_stmts (x := some ⟨start, stop, P.scopes.length⟩) body hl h
    obtain ⟨hkc, hkb⟩ := (hk.init (hcc.append hcb).1 hback rfl).split hcc hcb.1
    have hin := hin.carries
      (fun _ _ h => counts_stmts (x := some ⟨start, stop, P.scopes.length⟩) body hl h) hkb
    have hbody : P.inLoop.opened.Enclosed (some ⟨start, stop, P.scopes.length⟩) P := fun e he => by
      cases he
      exact ⟨.start hP, rfl⟩
    rw [stmt, show w.ids = t.ids from ht.ids.symm]
    refine realizes_iterate ht hcall hc hP hcaps hrc hcond hjump
      (hkc.before (counts_expr condition hcond).1 (Counts.nil.next hjump rfl)) hback
      (fun b env written s hm hs => ?_) (n + 1) le_rfl hm hs
    refine realizes_block (P := P.inLoop) hc hP.inLoop_opened
      (Point.extends_stmts hP.inLoop_opened body)
      (fun e he => ?_) hin (fun last b s h hm hs => ?_) hm hs
    · cases he
      exact le_rfl
    · exact realizes_stmts hP.inLoop_opened hcaps hbody body hl hrb h.1 h.2 hm hs
  | .block body span, hl, hr, h, hk, hm, hs => by
    have hin : c.code.InScope start span (fun a b => StmtsAt t c.code x P.opened a body b) stop := h
    have hin := hin.carries (fun _ _ h => counts_stmts body hl h) hk
    rw [stmt]
    exact realizes_block hc hP.opened (Point.extends_stmts hP.opened body) hx.length_le hin
      (fun last b s h hm hs =>
        realizes_stmts hP.opened hcaps hx.opened body hl hr h.1 h.2 hm hs) hm hs
  | .ret none span, _, _, ⟨last, hnull, hret⟩, _, _, hs => by
    obtain ⟨k, s₁, hgoes, hs₁⟩ :=
      (realizes_const ht hcall hc hnull hs fun d _ hd =>
        Constant.toValue_of_same hd nofun).exists_goes
    exact .value hgoes ⟨last, b, span, hs₁, hret.1⟩
  | .ret (some value) span, _, hr, h, hk, hm, hs => by
    rw [StmtAt] at h
    rw [stmt]
    split at h
    · rename_i d hd
      obtain ⟨hu, hmove, hret⟩ := h
      obtain ⟨name, ty, at_, rfl, hname⟩ := Point.moved?_eq_some hd
      obtain ⟨v, hv, hheld⟩ := hm.find?_slot hname
      rw [show w.expr call c.activation env first (.mk (.binding name) ty at_) = pure v by
        change Evaluator.read c.activation env at_ name = _
        rw [Evaluator.read, hv]]
      rcases BindingM.take_cases d.slot b with ⟨v', hv', htake⟩ | ⟨hnot, -⟩
      · obtain rfl := hv'.unique (hheld hu)
        obtain ⟨s', hnext, hs'⟩ := hs.rebind [] (some v') _ hc hmove rfl (by
          rw [BindingM.bind_apply, htake]
          rfl)
        exact .value (.step hnext (.refl s')) ⟨start + 1, _, span, hs', hret.1⟩
      · exact absurd ⟨v, hheld hu⟩ hnot
    · obtain ⟨last, hv, hret⟩ := h
      have hki := hk.init (counts_expr value hv).1 hret rfl
      refine (realizes_expr ht hcall hc hcaps hm value hr hv hki hs).bind fun v written s hs => ?_
      exact .pure ⟨last, b, span, hs, hret.1⟩
  | .breakLoop span, hl, _, h, _, hm, hs => by
    cases x with
    | none => cases hl
    | some e =>
      obtain ⟨last, hexits, hjump⟩ := h
      obtain ⟨hw, hd⟩ := hx e rfl
      obtain ⟨k, s', b', hgoes, hm', hs'⟩ := goes_leave hc hw hP hd hexits hm hs
      obtain ⟨s'', hnext, hs''⟩ := hs'.jump hc hjump.1
      exact .value (hgoes.trans (.step hnext (.refl s''))) ⟨e, b', rfl, hm', hs''⟩
  | .continueLoop span, hl, _, h, _, hm, hs => by
    cases x with
    | none => cases hl
    | some e =>
      obtain ⟨last, hexits, hjump⟩ := h
      obtain ⟨hw, hd⟩ := hx e rfl
      obtain ⟨k, s', b', hgoes, hm', hs'⟩ := goes_leave hc hw hP hd hexits hm hs
      obtain ⟨s'', hnext, hs''⟩ := hs'.jump hc hjump.1
      exact .value (hgoes.trans (.step hnext (.refl s''))) ⟨e, b', rfl, hm', hs''⟩
  | .free name span, _, _, h, _, hm, hs => by
    obtain ⟨s', b', hnext, hm', hs'⟩ := goes_freeAt hc hm hs h
    exact .value (.step hnext (.refl s')) ⟨b', hm', hs'⟩
  | .collect span, _, _, h, _, hm, hs => by
    obtain ⟨k, s', b', hgoes, hm', hs'⟩ := goes_collect hc hm hP h hs
    exact .value hgoes ⟨b', hm', hs'⟩
  | .yieldNow _, _, _, _, hk, _, _ => absurd hk.tasks (Nat.succ_ne_zero _)
  | .eval value span, _, hr, ⟨last, hv, h⟩, hk, hm, hs => by
    rw [stmt]
    have hki := hk.init (counts_expr value hv).1 h rfl
    obtain ⟨hpop, rfl⟩ := h
    refine (realizes_expr ht hcall hc hcaps hm value hr hv hki hs).bind fun v written s hs => ?_
    obtain ⟨s', hnext, hs'⟩ := hs.pop hc hpop
    exact .value (.step hnext (.refl s')) ⟨b, hm, hs'⟩

theorem realizes_stmts {start stop first : Nat} {stack : List Value} {written : String}
    {s : Running} {x : Option Exits} {H P : Point} {b : Bindings} {env : Locals} (hP : P.Fine)
    (hcaps : c.code.captures = P.captures) (hx : P.Enclosed x H) : (ss : List TStmt) →
    AllLooped x.isSome ss → StmtsReceived ss → StmtsAt t c.code x P start ss stop →
    c.code.Carries (stmtsOutline t.ids ss) first start stop → Models c.code.slotCount P b env →
    c.Stands o start b stack written s →
    Realizes w.linked o (n + 1) s (c.Completes o x H P.scopes.length (P.stmts ss) stack stop)
      (w.stmts call c.activation (n + 1) env first ss written)
  | [], _, _, h, _, hm, hs => by
    obtain rfl : stop = start := h
    exact .pure ⟨b, hm, hs⟩
  | st :: rest, ⟨hl, hls⟩, ⟨hr, hrs⟩, ⟨mid, hst, hrest⟩, hk, hm, hs => by
    obtain ⟨hk, hks⟩ := hk.split (counts_stmt st hl hst) (counts_stmts rest hls hrest).1
    have hext := Point.extends_stmt hP rest st
    rw [stmts, show w.ids = t.ids from ht.ids.symm]
    refine (realizes_stmt hP hcaps hx rest st hl hr hst hk hm hs).bind fun a written s ha => ?_
    cases a with
    | normal env =>
      obtain ⟨b, hm, hs⟩ := ha
      have h := realizes_stmts (hP.extend hext) (hcaps.trans hext.captures.symm)
        (hx.extend hext) rest hls hrs hrest hks hm hs
      rwa [hext.length_scopes hP.nonempty] at h
    | broken env | continued env | returned v => exact .pure ha

theorem realizes_elifs {start stop first target : Nat} {stack : List Value} {written : String}
    {s : Running} {x : Option Exits} {H P Q : Point} {b : Bindings} {env : Locals} {before : Freed}
    {span : Option Span} {otherwise : Nat → Eval Completion} (hP : P.Fine)
    (hcaps : c.code.captures = P.captures)
    (hx : (P.withFreed before).Enclosed x H) : (elifs : List (TExpr × List TStmt)) →
    ElifsLooped x.isSome elifs → ElifsReceived elifs →
    ElifsAt t c.code x before span target P start elifs stop →
    c.code.Carries (elifsOutline t.ids elifs) first start stop →
    (∀ b env, Models c.code.slotCount
      ((P.elifBranches before elifs).1.withFreed (P.elifBranches before elifs).2) b env →
      Models c.code.slotCount Q b env) →
    (∀ b written s, Models c.code.slotCount
      ((P.elifBranches before elifs).1.withFreed before) b env → c.Stands o stop b stack written s →
      Realizes w.linked o (n + 1) s (c.Completes o x H P.scopes.length Q stack target)
        (otherwise (first + (elifsOutline t.ids elifs).total) written)) →
    Models c.code.slotCount (P.withFreed before) b env → c.Stands o start b stack written s →
    Realizes w.linked o (n + 1) s (c.Completes o x H P.scopes.length Q stack target)
      (w.elifBranches call c.activation (n + 1) env otherwise first elifs written)
  | [], _, _, h, _, _, hlast, hm, hs => by
    obtain rfl : stop = start := h
    exact hlast b written s hm hs
  | (condition, body) :: rest, ⟨hl, hls⟩, ⟨hrc, hrb, hrs⟩,
      ⟨mid, last, next, hcond, hjump, hin, hover, h⟩, hk, hend, hlast, hm, hs => by
    have hPb : (P.withFreed before).Fine := hP.of_same rfl le_rfl rfl
    have hext := Point.extends_stmts hPb.opened body
    have hts := Point.scopes_closed hext
    have hPt := hPb.of_same hts hext.slots hext.loops
    have hbranches := Point.branches_elifBranches before hPt rest
    have hcc := (counts_expr condition hcond).next hjump rfl
    have hcb : c.code.Counts (mid + 1) (stmtsOutline t.ids body).makes next :=
      (Counts.inScope hin fun _ _ h => counts_stmts body hl h).then hover rfl
    have hcr := counts_elifs rest hls h
    obtain ⟨hk, hkr⟩ := hk.split (hcc.append hcb) hcr.1
    obtain ⟨hkc, hkb⟩ := hk.split hcc hcb.1
    have hin := hin.carries (fun _ _ h => counts_stmts body hl h)
      (hkb.init (Counts.inScope hin fun _ _ h => counts_stmts body hl h).1 hover rfl)
    rw [elifBranches, show w.ids = t.ids from ht.ids.symm]
    refine realizes_test ht hcall hc hrc hcond hjump (hkc.before (counts_expr condition hcond).1
      (Counts.nil.next hjump rfl)) hcaps hm hs le_rfl fun held written s hs => ?_
    refine Realizes.mono ?_ (Nat.le_succ n)
    cases held with
    | true =>
      rw [if_pos rfl]
      refine Realizes.onward
        (realizes_block hc hPb.opened hext hx.length_le hin (fun last b s h hm hs =>
        realizes_stmts hPb.opened hcaps hx.opened body hl hrb h.1 h.2 hm hs) hm hs)
          fun b env written s hm hs => ?_
      obtain ⟨s', hnext, hs'⟩ := hs.jump hc hover.1
      refine ⟨1, s', b, .step hnext (.refl s'),
        hend b env (hm.weaken hbranches.scopes fun d _ hu => ?_), hs'⟩
      exact (Point.lookup_merge_eq_none.1 hu).1
    | false =>
      rw [if_neg Bool.false_ne_true]
      simp only [Outline.total_append, ← Nat.add_assoc] at hkr
      have hxt : (((P.withFreed before).opened.stmts body).closed.withFreed before).Enclosed x H :=
        hx.of_same hts rfl hext.loops
      have hlength :
          P.scopes.length = ((P.withFreed before).opened.stmts body).closed.scopes.length :=
        congrArg List.length hts.symm
      rw [hlength]
      refine realizes_elifs hPt (hcaps.trans hext.captures.symm) hxt rest hls hrs h hkr
        (fun b env hm =>
        hend b env (hm.weaken rfl fun d _ hu => ?_)) (fun b written s hm hs => ?_)
          (hm.weaken hts fun d _ hu => hu) hs
      · exact (Point.lookup_merge_eq_none.1 hu).2
      · have h := hlast b written s hm hs
        rw [hlength] at h
        simp only [elifsOutline, Outline.total_append, ← Nat.add_assoc] at h
        exact h

theorem realizes_else {start stop first : Nat} {stack : List Value} {written : String} {s : Running}
    {x : Option Exits} {H P : Point} {b : Bindings} {env : Locals} {span : Option Span}
    (hP : P.Fine) (hcaps : c.code.captures = P.captures) (hx : P.Enclosed x H) :
    (elseBlock : Option (List TStmt)) → ElseLooped x.isSome elseBlock → ElseReceived elseBlock →
    ElseAt t c.code x P start span elseBlock stop →
    c.code.Carries (elseOutline t.ids elseBlock) first start stop →
    Models c.code.slotCount P b env → c.Stands o start b stack written s →
    Realizes w.linked o (n + 1) s
      (c.Completes o x H P.scopes.length (P.elseBranch elseBlock) stack stop)
      (w.elseBranch call c.activation (n + 1) env first elseBlock written)
  | none, _, _, h, _, hm, hs => by
    obtain rfl : stop = start := h
    exact .pure ⟨b, hm, hs⟩
  | some body, hl, hr, h, hk, hm, hs => by
    have hin : c.code.InScope start span (fun a b => StmtsAt t c.code x P.opened a body b) stop := h
    have hin := hin.carries (fun _ _ h => counts_stmts body hl h) hk
    rw [elseBranch]
    exact realizes_block hc hP.opened (Point.extends_stmts hP.opened body) hx.length_le hin
      (fun last b s h hm hs =>
        realizes_stmts hP.opened hcaps hx.opened body hl hr h.1 h.2 hm hs) hm hs

end

end

end

end ScopedScript
