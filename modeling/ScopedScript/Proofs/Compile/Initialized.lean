import ScopedScript.Proofs.Compile.Levels
import ScopedScript.Proofs.Compile.Releases
import ScopedScript.Proofs.Typing.Checked
import ScopedScript.Proofs.Typing.Flow

/-!
# Values in slots

Which slots of a frame have values is found out by following the instructions that it carries out: a
binding has one from its declaration on, or from its first assignment when there is none before. The
facts of the checker agree with this on every path through compiled code, those by `break` and
`continue` included, though the checker does not follow these. So a slot is read when it has a value
only, and one that is not mutable is written when it has none only.
-/

namespace ScopedScript

/-- The slot is that of a mutable binding. -/
def Mutable (D : List Declaration) (slot : Nat) : Prop := ∃ d, D[slot]? = some d ∧ d.mutable = true

/-- The slot is that of an immutable binding. -/
def Immutable (D : List Declaration) (slot : Nat) : Prop :=
  ∃ d, D[slot]? = some d ∧ d.mutable = false

theorem Immutable.not_mutable {D : List Declaration} {slot : Nat} (h : Immutable D slot) :
    ¬ Mutable D slot := by
  rintro ⟨d, hd, hm⟩
  obtain ⟨e, he, hi⟩ := h
  rw [hd] at he
  cases he
  exact absurd (hm.symm.trans hi) (by decide)

namespace Instr

/-- The slots that have values after an instruction. -/
def fill (D : List Declaration) (held : Nat → Bool) : Instr → Nat → Bool
  | declare slot => Function.update held slot !(D[slot]?.any Declaration.deferred)
  | store slot => Function.update held slot true
  | _ => held

/-- What is read has a value, and what is not mutable is written once. -/
def Proper (D : List Declaration) (held : Nat → Bool) : Instr → Prop
  | load slot | move slot => held slot = true
  | store slot => Mutable D slot ∨ held slot = false
  | storeField slot _ => held slot = true ∧ Mutable D slot
  | _ => True

theorem plain_proper {D : List Declaration} {held : Nat → Bool} {i : Instr} (h : i.plain = true) :
    i.Proper D held ∧ i.fill D held = held := by
  cases i <;> first | exact ⟨trivial, rfl⟩ | cases h

end Instr

/-- Whatever path control takes from here through the function, for so many instructions, each of
them is proper when these slots have values at the start. -/
def FunctionCode.Proper (f : FunctionCode) (D : List Declaration) : Nat → Nat → (Nat → Bool) → Prop
  | 0, _, _ => True
  | n + 1, ip, held => ∀ i, f.code[ip]? = some i → i.Proper D held ∧
    ∀ ip', i.Next ip ip' → f.Proper D n ip' (i.fill D held)

namespace FunctionCode

variable {f : FunctionCode} {D : List Declaration} {n ip : Nat} {held : Nat → Bool} {i : Instr}
  {span : Option Span}

theorem Proper.pred (h : f.Proper D (n + 1) ip held) : f.Proper D n ip held := by
  induction n generalizing ip held with
  | zero => trivial
  | succ n ih =>
    intro i hi
    obtain ⟨hp, hn⟩ := h i hi
    exact ⟨hp, fun ip' hip => ih (hn ip' hip)⟩

theorem Proper.mono {m : Nat} (h : f.Proper D n ip held) (hm : m ≤ n) : f.Proper D m ip held := by
  induction hm with
  | refl => exact h
  | step _ ih => exact ih h.pred

/-- One instruction. -/
theorem Proper.has (h : f.Has ip i span) (hp : i.Proper D held)
    (hn : ∀ m, m + 1 = n → ∀ ip', i.Next ip ip' → f.Proper D m ip' (i.fill D held)) :
    f.Proper D n ip held := by
  cases n with
  | zero => trivial
  | succ n =>
    intro j hj
    rw [h.1] at hj
    cases hj
    exact ⟨hp, hn n rfl⟩

/-- An instruction that goes on to the next one. -/
theorem Proper.step (h : f.Has ip i span) (hp : i.Proper D held)
    (hgo : ∀ ip', i.Goes (ip + 1) ip' → ip' = ip + 1) (hn : f.Proper D n (ip + 1) (i.fill D held)) :
    f.Proper D n ip held := by
  refine .has h hp fun m hm ip' hip => ?_
  subst hm
  rw [hgo ip' hip.2]
  exact hn.pred

theorem Proper.ends {stop : Nat} (h : f.Ends ip i span stop) (hp : i.Proper D held)
    (hgo : ∀ ip', i.Goes (ip + 1) ip' → ip' = ip + 1) (hn : f.Proper D n stop (i.fill D held)) :
    f.Proper D n ip held := by
  obtain ⟨hh, rfl⟩ := h
  exact .step hh hp hgo hn

theorem Proper.plain (h : f.Has ip i span) (hi : i.plain = true) (hn : f.Proper D n (ip + 1) held) :
    f.Proper D n ip held := by
  obtain ⟨hp, hfill⟩ : i.Proper D held ∧ i.fill D held = held := i.plain_proper hi
  exact .step h hp ((i.plain_spec hi).2.2 _) (hfill.symm ▸ hn)

theorem Proper.plainEnds {stop : Nat} (h : f.Ends ip i span stop) (hi : i.plain = true)
    (hn : f.Proper D n stop held) : f.Proper D n ip held := by
  obtain ⟨hh, rfl⟩ := h
  exact .plain hh hi hn

/-- A jump takes a step, wherever it leads. -/
theorem Proper.jump {target stop : Nat} (h : f.Ends ip (.jump target) span stop)
    (hn : ∀ m < n, f.Proper D m target held) : f.Proper D n ip held := by
  refine .has h.1 trivial fun m hm ip' hip => ?_
  obtain rfl : ip' = target := hip.2
  exact hn m (by omega)

theorem Proper.jumpIf {target : Nat} (h : f.Has ip i span)
    (hi : i = .jumpIfFalse target ∨ i = .jumpIfTrue target) (ht : f.Proper D n target held)
    (hn : f.Proper D n (ip + 1) held) : f.Proper D n ip held := by
  have hgo : i.Proper D held ∧ i.fill D held = held ∧
      ∀ ip', i.Next ip ip' → ip' = target ∨ ip' = ip + 1 := by
    rcases hi with rfl | rfl <;> exact ⟨trivial, rfl, fun _ h => h.2⟩
  obtain ⟨hp, hfill, hgo⟩ := hgo
  refine .has h hp fun m hm ip' hip => ?_
  subst hm
  rw [hfill]
  rcases hgo ip' hip with rfl | rfl
  · exact ht.pred
  · exact hn.pred

theorem Proper.ret {stop : Nat} (h : f.Ends ip .ret span stop) : f.Proper D n ip held :=
  .has h.1 trivial fun _ _ _ hip => absurd rfl hip.1

end FunctionCode

/-! ## Facts and values -/

/-- A state of a slot that is the same on all paths to a place: that of having a value, and for an
immutable binding that of having none. -/
def Settled (D : List Declaration) (slot : Nat) (u : InitState) : Prop :=
  u = .init ∨ u = .uninit ∧ Immutable D slot

theorem Settled.ne_maybe {D : List Declaration} {slot : Nat} {u : InitState}
    (h : Settled D slot u) : u ≠ .maybe := by
  rcases h with rfl | ⟨rfl, -⟩ <;> decide

/-- What the checker knows of the bindings in scope is so. -/
def Point.Agrees (P : Point) (D : List Declaration) (F : InitFacts) (held : Nat → Bool) : Prop :=
  ∀ b ∈ P.scopes.flatten, ∀ u, Settled D b.slot u → F.lookup b.slot = some u →
    held b.slot = (u == .init)

section

open InitFacts

variable {ids : Ids} {frees : List (String × Option Span)} {D : List Declaration} {P Q : Point}
  {F G : InitFacts} {held : Nat → Bool} {name : String} {span : Option Span}

namespace Point

/-- The same of fewer bindings, or less of them. -/
theorem Agrees.weaken (h : P.Agrees D F held) (hs : Q.scopes.flatten ⊆ P.scopes.flatten)
    (hF : ∀ b ∈ Q.scopes.flatten, ∀ u, Settled D b.slot u → G.lookup b.slot = some u →
      F.lookup b.slot = some u) : Q.Agrees D G held :=
  fun b hb u hu hG => h b (hs hb) u hu (hF b hb u hu hG)

theorem Agrees.within (h : P.Agrees D F held) (hs : Q.scopes.flatten ⊆ P.scopes.flatten) :
    Q.Agrees D F held := h.weaken hs fun _ _ _ _ hu => hu

theorem Agrees.closed (h : P.Agrees D F held) : P.closed.Agrees D F held := by
  refine h.within fun b hb => ?_
  obtain ⟨scope, hs, hb⟩ := List.mem_flatten.1 hb
  exact List.mem_flatten.2 ⟨scope, List.mem_of_mem_tail hs, hb⟩

/-- A binding that may be read has a value. -/
theorem Agrees.reads (h : P.Agrees D F held) {b : Binding} (hr : P.Reads F name)
    (hb : P.resolve? name = some (.slot b)) : held b.slot = true := by
  rw [Reads, hb] at hr
  exact h b (mem_of_resolve? hb) _ (.inl rfl) hr

theorem Agrees.declare (h : P.Agrees D F held) (hP : P.Fine) {d : Declaration}
    (hd : D[P.slots]? = some d) : (P.declare name span).Agrees D
      ((P.slots, if d.deferred then .uninit else .init) :: F)
        ((Instr.declare P.slots).fill D held) := by
  intro b hb u hu hF
  rw [flatten_declare hP.nonempty] at hb
  rw [List.lookup_cons] at hF
  rcases List.mem_cons.1 hb with rfl | hb
  · rw [beq_self_eq_true] at hF
    cases hF
    simp only [Instr.fill, Function.update_self, hd, Option.any_some]
    cases d.deferred <;> rfl
  · have hne := (hP.below b hb).1.ne
    rw [beq_false_of_ne hne] at hF
    simp only [Instr.fill, Function.update_of_ne hne]
    exact h b hb u hu hF

theorem Agrees.store (h : P.Agrees D F held) {slot : Nat} :
    P.Agrees D ((slot, .init) :: F) ((Instr.store slot).fill D held) := by
  intro b hb u hu hF
  rw [List.lookup_cons] at hF
  simp only [Instr.fill]
  split at hF
  · rename_i he
    cases hF
    rw [beq_iff_eq.1 he, Function.update_self]
    rfl
  · rename_i hne
    rw [Function.update_of_ne (ne_of_beq_false hne)]
    exact h b hb u hu hF

/-! Something is known of the bindings in scope at every place. -/

theorem fixes_none (hP : P.Fine) {b : Binding} (hb : b ∈ P.scopes.flatten) :
    P.Fixes D (fun _ => False) b.slot := ⟨hP, (hP.below b hb).1, fun _ h => h.elim⟩

theorem Knows.stmt (h : P.Knows F) (hP : P.Fine) (rest : List TStmt) (s : TStmt)
    (hg : s.Grounded ids frees P D F) : (P.stmt rest s).Knows (s.facts P F) := by
  have hkept (b : Binding) (hb : b ∈ P.scopes.flatten) : ((s.facts P F).lookup b.slot).isSome :=
    h.kept hb (preserved_stmt (fixes_none hP hb) s hg)
  intro b hb
  cases s with
  | declare name mutable ty value span =>
    have hb : b ∈ (P.declare name span).scopes.flatten := hb
    rw [flatten_declare hP.nonempty] at hb
    rcases List.mem_cons.1 hb with rfl | hb
    · rw [TStmt.facts, List.lookup_cons, beq_self_eq_true]
      rfl
    · exact hkept b hb
  | _ =>
    rw [scopes_stmt hP rest _ rfl] at hb
    exact hkept b hb

end Point

/-! ## Expressions -/

section

variable {t : Tables} {f : FunctionCode} {n start stop : Nat}

theorem proper_const {c : Constant} (h : f.HasConst start c span stop)
    (hn : f.Proper D n stop held) : f.Proper D n start held := by
  obtain ⟨k, d, -, -, h⟩ := h
  exact .plainEnds h rfl hn

theorem proper_loadAt (h : LoadAt f P start name span stop) (hr : P.Reads F name)
    (ha : P.Agrees D F held) (hn : f.Proper D n stop held) : f.Proper D n start held := by
  rw [LoadAt] at h
  split at h
  · rename_i b hb
    exact .ends h.2 (ha.reads hr hb) (fun _ h => h) hn
  · exact .plainEnds h rfl hn
  · exact h.elim

theorem proper_loadsAt {names : List String} (h : LoadsAt f P span start names stop)
    (hr : ∀ name ∈ names, P.Reads F name) (ha : P.Agrees D F held) (hn : f.Proper D n stop held) :
    f.Proper D n start held := by
  induction names generalizing start with
  | nil =>
    obtain rfl : stop = start := h
    exact hn
  | cons name rest ih =>
    obtain ⟨mid, hl, h⟩ := h
    obtain ⟨hname, hrest⟩ := List.forall_mem_cons.1 hr
    exact proper_loadAt hl hname ha (ih h hrest)

mutual

theorem proper_expr {start stop : Nat} (ha : P.Agrees D F held) :
    (e : TExpr) → e.Grounded ids frees P F →
    ExprAt t f P start e stop → f.Proper D n stop held → f.Proper D n start held
  | .mk kind _ _, hg, h, hn => proper_kind ha kind hg h hn

theorem proper_kind {start stop : Nat} {ty : Ty} {span : Option Span} (ha : P.Agrees D F held) :
    (k : TKind) → k.Grounded ids frees P F ty → KindAt t f P start ty span k stop →
    f.Proper D n stop held → f.Proper D n start held
  | .int _, _, h, hn | .float _, _, h, hn | .bool _, _, h, hn | .string _, _, h, hn
  | .null, _, h, hn =>
    proper_const h hn
  | .binding _, hg, h, hn => proper_loadAt h hg ha hn
  | .function _, _, ⟨_, _, h⟩, hn | .native _, _, ⟨_, _, h⟩, hn => .plainEnds h rfl hn
  | .binary op left right, hg, ⟨_, _, hl, hr, h⟩, hn =>
    proper_expr ha left hg.1 hl (proper_expr ha right hg.2 hr (.plainEnds h (binary_plain op _) hn))
  | .unary op operand, hg, ⟨_, he, h⟩, hn =>
    proper_expr ha operand hg he (.plainEnds h (unary_plain op _) hn)
  | .logical op left right, hg, ⟨mid, hl, hdup, hjump, hpop, hr⟩, hn => by
    have hop : (match op with | .and => Instr.jumpIfFalse stop | .or => .jumpIfTrue stop) =
        .jumpIfFalse stop ∨
        (match op with | .and => Instr.jumpIfFalse stop | .or => .jumpIfTrue stop) =
        .jumpIfTrue stop := by
      cases op
      · exact .inl rfl
      · exact .inr rfl
    refine proper_expr ha left hg.1 hl (.plain hdup rfl (.jumpIf hjump hop hn ?_))
    exact .plain hpop rfl (proper_expr ha right hg.2 hr hn)
  | .call _ args, hg, ⟨_, _, hc, has, h⟩, hn =>
    proper_exprs ha args hg.2 has (.plainEnds h (calls_plain hc) hn)
  | .callValue callee args, hg, ⟨_, _, hc, has, h⟩, hn
  | .callDynamic callee args, hg, ⟨_, _, hc, has, h⟩, hn =>
    proper_expr ha callee hg.1 hc (proper_exprs ha args hg.2 has (.plainEnds h rfl hn))
  | .callMethodDynamic _ args, hg, ⟨_, has, h⟩, hn =>
    proper_exprs ha args hg has (.plainEnds h rfl hn)
  | .field object _ index, hg, ⟨_, ho, h⟩, hn =>
    proper_expr ha object hg ho (.plainEnds h (by cases index <;> rfl) hn)
  | .structInit _ values, hg, ⟨_, _, _, has, h⟩, hn =>
    proper_exprs ha values hg.2 has (.plainEnds h rfl hn)
  | .lambda _ _ _ _, hg, ⟨_, _, _, _, _, _, _, hl, h⟩, hn =>
    proper_loadsAt hl hg.1 ha (.plainEnds h rfl hn)
  | .spawn _ args, hg, ⟨_, _, _, has, h⟩, hn => proper_exprs ha args hg.2 has (.plainEnds h rfl hn)
  | .await inner, hg, ⟨_, he, h⟩, hn | .box inner, hg, ⟨_, he, h⟩, hn
  | .unbox inner, hg, ⟨_, he, h⟩, hn =>
    proper_expr ha inner hg he (.plainEnds h rfl hn)
  | .cast inner, hg, ⟨_, _, _, he, h⟩, hn => proper_expr ha inner hg.2 he (.plainEnds h rfl hn)
  | .format parts, hg, ⟨_, has, h⟩, hn => proper_exprs ha parts hg has (.plainEnds h rfl hn)

theorem proper_exprs {start stop : Nat} (ha : P.Agrees D F held) : (es : List TExpr) →
    ExprsGrounded ids frees P F es → ExprsAt t f P start es stop → f.Proper D n stop held →
    f.Proper D n start held
  | [], _, h, hn => by
    obtain rfl : stop = start := h
    exact hn
  | e :: rest, hg, ⟨_, he, h⟩, hn => proper_expr ha e hg.1 he (proper_exprs ha rest hg.2 h hn)

end

end

/-! ## Loops -/

/-- The loop that starts at `H` with the facts `E` has led here: what was settled then still is. -/
structure Point.LedTo (H P : Point) (D : List Declaration) (E F : InitFacts) : Prop where
  scopes : H.scopes.flatten ⊆ P.scopes.flatten
  outside : ∀ b ∈ H.scopes.flatten, b.loopDepth < P.loops
  preserved : ∀ b ∈ H.scopes.flatten, Preserved (Settled D b.slot) b.slot E F

namespace Point.LedTo

variable {H : Point} {E : InitFacts}

theorem agrees (h : H.LedTo P D E F) (ha : P.Agrees D F held) : H.Agrees D E held := by
  refine ha.weaken h.scopes fun b hb u hu hE => ?_
  obtain ⟨v, hv, he⟩ := h.preserved b hb u hE
  rw [hv, he hu]

/-- A place in the same loop where no less is known. -/
theorem beside (h : H.LedTo P D E F) (hs : P.scopes.flatten ⊆ Q.scopes.flatten)
    (hl : Q.loops = P.loops) :
    H.LedTo Q D E F := ⟨fun _ hb => hs (h.scopes hb), hl ▸ h.outside, h.preserved⟩

theorem fixes (h : H.LedTo P D E F) (hP : P.Fine) {b : Binding} (hb : b ∈ H.scopes.flatten) :
    P.Fixes D (Settled D b.slot) b.slot := by
  refine ⟨hP, (hP.below b (h.scopes hb)).1, fun u hu => hu.imp_right ?_⟩
  exact fun ⟨_, hi⟩ => ⟨b, h.scopes hb, rfl, h.outside b hb, hi⟩

theorem stmt (h : H.LedTo P D E F) (hP : P.Fine) (rest : List TStmt) (s : TStmt)
    (hg : s.Grounded ids frees P D F) : H.LedTo (P.stmt rest s) D E (s.facts P F) := by
  have he := Point.extends_stmt hP rest s
  obtain ⟨new, hflat, -⟩ := he.flatten hP.nonempty
  refine ⟨fun b hb => ?_, he.loops ▸ h.outside, fun b hb => ?_⟩
  · rw [hflat]
    exact List.mem_append_right _ (h.scopes hb)
  · exact (h.preserved b hb).trans (preserved_stmt (h.fixes hP hb) s hg)

theorem stmts (h : H.LedTo P D E F) (hP : P.Fine) :
    (ss : List TStmt) → StmtsGrounded ids frees P D F ss →
    H.LedTo (P.stmts ss) D E (stmtsFacts P F ss) := by
  intro ss hg
  induction ss generalizing P F with
  | nil => exact h
  | cons s rest ih =>
    exact ih (h.stmt hP rest s hg.1) (hP.extend (Point.extends_stmt hP rest s)) hg.2

/-- The start of the body of a loop. -/
theorem start (hP : P.Fine) (F : InitFacts) : P.LedTo P.inLoop.opened D F F where
  scopes := fun _ hb => hb
  outside := fun b hb => Nat.lt_succ_of_le (hP.below b hb).2
  preserved := fun _ _ => .refl _ _ _

end Point.LedTo

/-- Where `break` and `continue` lead all is proper with what was known at the start of the loop;
going back to the start costs an instruction. -/
def ExitsWell (f : FunctionCode) (D : List Declaration) (n : Nat) (x : Option Exits) (P : Point)
    (F : InitFacts) : Prop :=
  ∀ e, x = some e → ∃ H E, Point.LedTo H P D E F ∧
    (∀ held, H.Agrees D E held → f.Proper D n e.stop held) ∧
    ∀ m < n, ∀ held, H.Agrees D E held → f.Proper D m e.start held

section

variable {t : Tables} {f : FunctionCode} {x : Option Exits} {n start stop : Nat}

theorem ExitsWell.moved (h : ExitsWell f D n x P F)
    (hQ : ∀ H E, Point.LedTo H P D E F → Point.LedTo H Q D E G) : ExitsWell f D n x Q G := by
  intro e he
  obtain ⟨H, E, hled, hexits⟩ := h e he
  exact ⟨H, E, hQ H E hled, hexits⟩

theorem ExitsWell.beside (h : ExitsWell f D n x P F) (hs : Q.scopes.flatten = P.scopes.flatten)
    (hl : Q.loops = P.loops) : ExitsWell f D n x Q F :=
  h.moved fun _ _ hled => hled.beside (hs ▸ fun _ hb => hb) hl

theorem proper_exitScopes {k : Nat} (h : f.HasAll span start (List.replicate k .exitScope) stop)
    (hn : f.Proper D n stop held) : f.Proper D n start held := by
  induction k generalizing start with
  | zero =>
    obtain rfl : stop = start := h
    exact hn
  | succ k ih => exact .step h.1 trivial (fun _ h => h) (ih h.2)

theorem proper_frees {slots : List Nat} (h : f.HasAll span start (slots.map .free) stop)
    (hn : f.Proper D n stop held) : f.Proper D n start held := by
  induction slots generalizing start with
  | nil =>
    obtain rfl : stop = start := h
    exact hn
  | cons slot rest ih => exact .step h.1 trivial (fun _ h => h) (ih h.2)

theorem proper_inScope {body : Nat → Nat → Prop} (h : f.InScope start span body stop)
    (hn : ∀ last, body (start + 1) last →
      (∀ held, f.Proper D n stop held → f.Proper D n last held) →
      f.Proper D n (start + 1) held) : f.Proper D n start held := by
  obtain ⟨last, hopen, hin, hclose⟩ := h
  exact .step hopen trivial (fun _ h => h)
    (hn last hin fun _ hstop => .ends hclose trivial (fun _ h => h) hstop)

theorem proper_declareAt {d : Declaration} (h : DeclareAt f P start name span stop) (hP : P.Fine)
    (hd : D[P.slots]? = some d) (ha : P.Agrees D F held)
    (hn : ∀ held, (P.declare name span).Agrees D
      ((P.slots, if d.deferred then .uninit else .init) :: F) held → f.Proper D n stop held) :
    f.Proper D n start held :=
  .ends h.2.2 trivial (fun _ h => h) (hn _ (ha.declare hP hd))

theorem proper_storeAt {target : AssignTarget} (h : StoreAt f P start target span stop)
    (hw : P.Writes D F target) (ha : P.Agrees D F held)
    (hn : ∀ held, P.Agrees D (P.assigned F target) held → f.Proper D n stop held) :
    f.Proper D n start held := by
  obtain ⟨b, d, hr, hd, hw⟩ := hw
  have hb := Point.mem_of_resolve? hr
  rw [StoreAt, hr] at h
  obtain ⟨-, h⟩ := h
  rw [Point.assigned, hr] at hn
  cases hpath : target.path with
  | nil =>
    rw [hpath] at h hw hn
    refine .ends h ?_ (fun _ h => h) (hn _ ha.store)
    rcases hw with hm | ⟨hu, -⟩
    · exact .inl ⟨d, hd, hm⟩
    · cases hm : d.mutable with
      | true => exact .inl ⟨d, hd, hm⟩
      | false => exact .inr (ha b hb _ (.inr ⟨rfl, d, hd, hm⟩) hu)
  | cons i path =>
    rw [hpath] at h hw hn
    obtain ⟨hm, hu⟩ := hw
    exact .ends h ⟨ha b hb _ (.inl rfl) hu, d, hd, hm⟩ (fun _ h => h) (hn _ ha)

end

end

end ScopedScript
