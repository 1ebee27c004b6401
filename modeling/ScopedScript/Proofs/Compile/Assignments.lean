import ScopedScript.Proofs.Compile.Initialized
import ScopedScript.Proofs.Machine.Executions

/-!
# Reads and assignments

Compiled code reads a binding that has no value at first only after an assignment to it, and assigns
to an immutable one at most once after each declaration. What the checker knows at the end of a
statement holds on the paths that come there; a path that leaves a loop or goes on with it holds
what was known when the loop began.
-/

namespace ScopedScript

open InitFacts

section

variable {ids : Ids} {frees : List (String × Option Span)} {D : List Declaration} {P Q : Point}
  {F G : InitFacts} {held : Nat → Bool} {span : Option Span}

namespace Point

theorem Agrees.of_scopes (h : P.Agrees D F held) (hs : Q.scopes = P.scopes) : Q.Agrees D F held :=
  h.within (hs ▸ fun _ hb => hb)

/-- Where paths meet, less is known than on any of them. -/
theorem Agrees.meet {paths : List InitFacts} (h : P.Agrees D G held) (hG : G ∈ paths)
    (hall : ∀ b ∈ P.scopes.flatten, ∀ G ∈ paths, (G.lookup b.slot).isSome) :
    P.Agrees D (meet paths F) held :=
  h.weaken (fun _ hb => hb) fun b hb _ hu hm => lookup_of_meet (hall b hb) hm hu.ne_maybe G hG

theorem Agrees.join (h : P.Agrees D F held) (G : InitFacts) : P.Agrees D (F.join G) held :=
  h.weaken (fun _ hb => hb) fun _ _ _ hu hm => (lookup_of_join hm hu.ne_maybe).1

end Point

theorem isSome_paths {condition : TExpr} {thenBlock : List TStmt}
    {elifs : List (TExpr × List TStmt)} {elseBlock : Option (List TStmt)} (hF : P.Knows F)
    (hP : P.Fine)
    (hg : (TStmt.branch condition thenBlock elifs elseBlock span).Grounded ids frees P D F) :
    ∀ b ∈ P.scopes.flatten,
    ∀ G ∈ pathFacts (stmtsFall thenBlock) (stmtsFacts P.opened F thenBlock) ++
      elifsFacts P.freed (P.opened.stmts thenBlock).closed F elifs ++
        pathFacts (elseFalls elseBlock)
        (elseFacts ((Point.elifBranches P.freed (P.opened.stmts thenBlock).closed elifs).1.withFreed
          P.freed) F elseBlock), (G.lookup b.slot).isSome := by
  intro b hb
  obtain ⟨-, ht, hm, hl⟩ := hg
  have hfix : P.Fixes D (fun _ => False) b.slot := Point.fixes_none hP hb
  have hthen := hfix.block thenBlock
  have hmiddle := Point.beside_elifBranches hthen.fine P.freed elifs
  have hslots := (Point.branches_elifBranches P.freed hthen.fine elifs).slots
  have helse := preserved_else ((hthen.beside hmiddle hslots).withFreed P.freed) elseBlock hl
  refine List.forall_mem_append.2 ⟨List.forall_mem_append.2 ⟨fun G hG => ?_, fun G hG => ?_⟩,
    fun G hG => ?_⟩
  · exact hF.kept hb (preserved_pathFacts (preserved_stmts hfix.opened thenBlock ht) G hG)
  · exact hF.kept hb (preserved_elifs P.freed hthen elifs hm G hG)
  · exact hF.kept hb (preserved_pathFacts helse G hG)

/-- A binding that is handed over has a value. -/
theorem Point.Agrees.moved {value : TExpr} {b : Binding} (h : P.Agrees D F held)
    (hb : P.moved? value = some b) (hg : value.Grounded ids frees P F) : held b.slot = true := by
  unfold Point.moved? at hb
  split at hb
  · split at hb
    · cases hb
      exact h.reads hg ‹_›
    · cases hb
  · cases hb

variable {t : Tables} {f : FunctionCode}

/-- A block under a condition. -/
theorem proper_arm {n start mid last next target : Nat} {x : Option Exits} {condition : TExpr}
    {body : List TStmt} {place : Option Span} (ha : P.Agrees D F held)
    (hg : condition.Grounded ids frees P F) (hc : ExprAt t f P start condition mid)
    (hjump : f.Has mid (.jumpIfFalse next) place)
    (hin : f.InScope (mid + 1) span (fun a b => StmtsAt t f x Q a body b) last)
    (hleave : f.Ends last (.jump target) span next) (hnext : f.Proper D n next held)
    (hbody : ∀ last, StmtsAt t f x Q (mid + 2) body last →
      (∀ held, (∀ m < n, f.Proper D m target held) → f.Proper D n last held) →
      f.Proper D n (mid + 2) held) : f.Proper D n start held :=
  proper_expr ha condition hg hc (.jumpIf hjump (.inl rfl) hnext
    (proper_inScope hin fun last h hclose => hbody last h fun held ht =>
      hclose held (.jump hleave ht)))

mutual

theorem proper_stmt {n start stop : Nat} {x : Option Exits} {P : Point} {F : InitFacts}
    (hP : P.Fine) (hF : P.Knows F) (rest : List TStmt) (hx : ExitsWell f D n x P F) :
    (s : TStmt) → s.Looped x.isSome →
    s.Grounded ids frees P D F → Lists D P.slots (stmtDeclarations s) →
    StmtAt t f x P start rest s stop →
    (s.falls = true → ∀ held, (P.stmt rest s).Agrees D (s.facts P F) held →
      f.Proper D n stop held) → ∀ held, P.Agrees D F held → f.Proper D n start held
  | .declare name _ ty none span, _, _, hD, ⟨mid, last, hnull, hbox, hd⟩, hn, held, ha => by
    have hdeclare := proper_declareAt hd hP (lists_singleton.1 hD) ha (hn rfl)
    refine proper_const hnull ?_
    split at hbox
    · exact .plainEnds hbox rfl hdeclare
    · exact hbox ▸ hdeclare
  | .declare name _ _ (some value) span, _, hg, hD, ⟨_, he, hd⟩, hn, held, ha =>
    proper_expr ha value hg he (proper_declareAt hd hP (lists_singleton.1 hD) ha (hn rfl))
  | .assign target value _, _, hg, _, ⟨_, he, hs⟩, hn, held, ha =>
    proper_expr ha value hg.1 he (proper_storeAt hs hg.2 ha (hn rfl))
  | .branch condition thenBlock elifs elseBlock span, ⟨hlt, hlm, hll⟩, hg, hD,
      ⟨mid, last, next, other, hc, hjump, hthen, hleave, helifs, helse⟩, hn, held, ha => by
    have hpaths := isSome_paths hF hP hg
    obtain ⟨hgc, hgt, hgm, hgl⟩ := hg
    have ht := Point.beside_block hP thenBlock
    have hm := Point.beside_elifBranches ht.fine P.freed elifs
    have hl := (ht.trans hm).withFreed P.freed
    -- what a path knows at its end, all know that meet there
    have hend : ∀ G ∈ pathFacts (stmtsFall thenBlock) (stmtsFacts P.opened F thenBlock) ++
          elifsFacts P.freed (P.opened.stmts thenBlock).closed F elifs ++
          pathFacts (elseFalls elseBlock)
            (elseFacts ((Point.elifBranches P.freed (P.opened.stmts thenBlock).closed
              elifs).1.withFreed P.freed) F elseBlock),
        (stmtsFall thenBlock || elifsFall elifs || elseFalls elseBlock) = true →
        ∀ held, P.Agrees D G held → f.Proper D n stop held := fun G hG hfall held h =>
      hn hfall held ((h.meet hG hpaths).of_scopes (Point.scopes_stmt hP rest _ rfl))
    obtain ⟨hD, hDl⟩ := lists_append.1 hD
    obtain ⟨hDt, hDm⟩ := lists_append.1 hD
    have hslots : (P.opened.stmts thenBlock).closed.slots =
        P.slots + (stmtsDeclarations thenBlock).length :=
      Point.slots_stmts P.opened thenBlock
    rw [List.length_append, ← Nat.add_assoc, ← hslots, ← Point.slots_elifBranches P.freed] at hDl
    rw [← hslots] at hDm
    refine proper_arm ha hgc hc hjump hthen hleave ?_ fun last h hclose => ?_
    · refine proper_elifs ht.fine (hF.of_scopes ht.scopes)
        (hx.beside (by rw [ht.scopes]) ht.loops) elifs hlm hgm
        hDm helifs (fun G hG hfall held ha => ?_) (fun held ha => ?_) held (ha.of_scopes ht.scopes)
      · refine hend G (List.mem_append_left _ (List.mem_append_right _ hG)) ?_ held
          (ha.of_scopes ht.scopes.symm)
        rw [hfall, Bool.or_true, Bool.true_or]
      · refine proper_else hl.fine (hF.of_scopes hl.scopes)
          (hx.beside (by rw [hl.scopes]) hl.loops) elseBlock hll
          hgl hDl helse (fun hfall held ha => ?_) held (ha.of_scopes hm.scopes)
        refine hend _ (List.mem_append_right _ ?_) ?_ held (ha.of_scopes hl.scopes.symm)
        · rw [hfall]
          exact List.mem_singleton_self _
        · rw [hfall, Bool.or_true]
    · refine proper_stmts hP.opened hF (hx.beside rfl rfl) thenBlock hlt hgt hDt h
        (fun hfall held ha => hclose held fun m hm => ?_) held ha
      refine (hend _ (List.mem_append_left _ (List.mem_append_left _ ?_)) ?_ held
        (ha.closed.of_scopes ht.scopes.symm)).mono hm.le
      · rw [hfall]
        exact List.mem_singleton_self _
      · rw [hfall]
        rfl
  | .loop condition body _, hl, hg, hD, ⟨mid, last, hc, hjump, hin, hback⟩, hn, held, ha => by
    have hleave (held : Nat → Bool) (ha : P.Agrees D F held) : f.Proper D n stop held :=
      hn rfl held ((ha.join _).of_scopes (Point.scopes_stmt hP rest (.loop condition body _) rfl))
    have hled := (Point.LedTo.start (D := D) hP F).stmts hP.inLoop_opened body hg.2
    -- going back to the start takes an instruction
    clear hn hx
    induction n using Nat.strong_induction_on generalizing held with
    | _ n ih =>
    have hagain (m : Nat) (hm : m < n) (held : Nat → Bool) (ha : P.Agrees D F held) :
        f.Proper D m start held := ih m hm held ha fun held ha => (hleave held ha).mono hm.le
    refine proper_arm ha hg.1 hc hjump hin hback (hleave held ha)
      fun last h hclose => ?_
    refine proper_stmts hP.inLoop_opened hF (x := some ⟨start, stop, P.scopes.length⟩) ?_ body
      hl hg.2 hD h
      (fun _ held ha => hclose held fun m hm => hagain m hm held (hled.agrees ha)) held ha
    rintro e he
    cases he
    exact ⟨P, F, .start hP F, hleave, hagain⟩
  | .block body span, hl, hg, hD, h, hn, held, ha => by
    have hin : f.InScope start span (fun a b => StmtsAt t f x P.opened a body b) stop := h
    refine proper_inScope hin fun last h hclose => ?_
    exact proper_stmts hP.opened hF (hx.beside rfl rfl) body hl hg hD h
      (fun hfall held ha => hclose held (hn hfall held ha.closed)) held ha
  | .ret none _, _, _, _, ⟨_, hnull, hret⟩, _, _, _ => proper_const hnull (.ret hret)
  | .ret (some value) _, _, hg, _, h, _, held, ha => by
    rw [StmtAt] at h
    split at h
    · rename_i b hb
      obtain ⟨-, hmove, hret⟩ := h
      exact .step hmove (ha.moved hb hg) (fun _ h => h) (.ret hret)
    · obtain ⟨last, he, hret⟩ := h
      exact proper_expr ha value hg he (.ret hret)
  | .breakLoop _, hl, _, _, h, _, held, ha => by
    cases x with
    | none => cases hl
    | some e =>
      obtain ⟨last, hexits, hjump⟩ := h
      obtain ⟨H, E, hled, hstop, -⟩ := hx e rfl
      refine proper_exitScopes hexits (.jump hjump fun m hm => ?_)
      exact (hstop held (hled.agrees ha)).mono hm.le
  | .continueLoop _, hl, _, _, h, _, held, ha => by
    cases x with
    | none => cases hl
    | some e =>
      obtain ⟨last, hexits, hjump⟩ := h
      obtain ⟨H, E, hled, -, hstart⟩ := hx e rfl
      exact proper_exitScopes hexits (.jump hjump fun m hm => hstart m hm held (hled.agrees ha))
  | .free name span, _, _, _, h, hn, held, ha => by
    have hstop := hn rfl held (ha.of_scopes (Point.scopes_stmt hP rest (.free name span) rfl))
    rw [StmtAt, FreeAt] at h
    split at h
    · exact .ends h.2.2 trivial (fun _ h => h) hstop
    · exact h.elim
  | .collect span, _, _, _, h, hn, held, ha => by
    have hall : f.HasAll span start (((P.dead rest).map Binding.slot).map .free) stop := by
      rw [List.map_map]
      exact h
    exact proper_frees hall (hn rfl held ha)
  | .yieldNow _, _, _, _, h, hn, held, ha => .plainEnds h rfl (hn rfl held ha)
  | .eval value _, _, hg, _, ⟨_, he, h⟩, hn, held, ha =>
    proper_expr ha value hg he (.plainEnds h rfl (hn rfl held ha))

theorem proper_stmts {n start stop : Nat} {x : Option Exits} {P : Point} {F : InitFacts}
    (hP : P.Fine) (hF : P.Knows F)
    (hx : ExitsWell f D n x P F) : (ss : List TStmt) → AllLooped x.isSome ss →
    StmtsGrounded ids frees P D F ss → Lists D P.slots (stmtsDeclarations ss) →
    StmtsAt t f x P start ss stop →
    (stmtsFall ss = true → ∀ held, (P.stmts ss).Agrees D (stmtsFacts P F ss) held →
      f.Proper D n stop held) → ∀ held, P.Agrees D F held → f.Proper D n start held
  | [], _, _, _, h, hn, held, ha => by
    obtain rfl : stop = start := h
    exact hn rfl held ha
  | s :: rest, ⟨hl, hls⟩, ⟨hg, hgs⟩, hD, ⟨_, h, hrest⟩, hn, held, ha => by
    obtain ⟨hDs, hDr⟩ := lists_append.1 hD
    rw [← Point.slots_stmt P rest s] at hDr
    refine proper_stmt hP hF rest hx s hl hg hDs h (fun hfall held ha => ?_) held ha
    exact proper_stmts (hP.extend (Point.extends_stmt hP rest s)) (hF.stmt hP rest s hg)
      (hx.moved fun H E hled => hled.stmt hP rest s hg) rest hls hgs hDr hrest
      (fun hfalls => hn (by rw [stmtsFall, hfall, hfalls]; rfl)) held ha

theorem proper_elifs {n start stop target : Nat} {x : Option Exits} {P : Point} {F : InitFacts}
    {before : Freed} {span : Option Span} (hP : P.Fine) (hF : P.Knows F)
    (hx : ExitsWell f D n x P F) :
    (elifs : List (TExpr × List TStmt)) → ElifsLooped x.isSome elifs →
    ElifsGrounded ids frees before P D F elifs → Lists D P.slots (elifsDeclarations elifs) →
    ElifsAt t f x before span target P start elifs stop →
    (∀ G ∈ elifsFacts before P F elifs, elifsFall elifs = true → ∀ held, P.Agrees D G held →
      f.Proper D n target held) →
    (∀ held, P.Agrees D F held → f.Proper D n stop held) →
    ∀ held, P.Agrees D F held → f.Proper D n start held
  | [], _, _, _, h, _, hlast, held, ha => by
    obtain rfl : stop = start := h
    exact hlast held ha
  | (condition, body) :: rest, ⟨hl, hls⟩, ⟨hgc, hgb, hgr⟩, hD, ⟨_, _, _, hc, hjump, hin, hleave, h⟩,
      hend, hlast, held, ha => by
    obtain ⟨hDb, hDr⟩ := lists_append.1 hD
    have hb := Point.beside_block (P := P.withFreed before) (hP.of_same rfl le_rfl rfl) body
    have hslots : ((P.withFreed before).opened.stmts body).closed.slots =
        P.slots + (stmtsDeclarations body).length :=
      Point.slots_stmts (P.withFreed before).opened body
    rw [← hslots] at hDr
    have hPb : (P.withFreed before).Fine := hP.of_same rfl le_rfl rfl
    refine proper_arm (P := P.withFreed before) ha hgc hc hjump hin hleave ?_
      fun last h hclose => ?_
    · refine proper_elifs hb.fine (hF.of_scopes hb.scopes)
        (hx.beside (by rw [hb.scopes]; rfl) hb.loops) rest hls hgr
        hDr h (fun G hG hfall held ha => ?_)
        (fun held ha => hlast held (ha.of_scopes hb.scopes.symm)) held (ha.of_scopes hb.scopes)
      refine hend G (List.mem_append_right _ hG) ?_ held (ha.of_scopes hb.scopes.symm)
      rw [elifsFall, hfall, Bool.or_true]
    · refine proper_stmts hPb.opened hF (hx.beside rfl rfl) body hl hgb hDb h
        (fun hfall held ha => hclose held fun m hm => ?_) held ha
      refine (hend _ (List.mem_append_left _ ?_) ?_ held
        (ha.closed.of_scopes hb.scopes.symm)).mono hm.le
      · rw [hfall]
        exact List.mem_singleton_self _
      · rw [elifsFall, hfall]
        rfl

theorem proper_else {n start stop : Nat} {x : Option Exits} {P : Point} {F : InitFacts}
    {span : Option Span} (hP : P.Fine) (hF : P.Knows F) (hx : ExitsWell f D n x P F) :
    (elseBlock : Option (List TStmt)) → ElseLooped x.isSome elseBlock →
    ElseGrounded ids frees P D F elseBlock → Lists D P.slots (elseDeclarations elseBlock) →
    ElseAt t f x P start span elseBlock stop →
    (elseFalls elseBlock = true → ∀ held, P.Agrees D (elseFacts P F elseBlock) held →
      f.Proper D n stop held) →
    ∀ held, P.Agrees D F held → f.Proper D n start held
  | none, _, _, _, h, hn, held, ha => by
    obtain rfl : stop = start := h
    exact hn rfl held ha
  | some body, hl, hg, hD, h, hn, held, ha => by
    have hin : f.InScope start span (fun a b => StmtsAt t f x P.opened a body b) stop := h
    refine proper_inScope hin fun last h hclose => ?_
    exact proper_stmts hP.opened hF (hx.beside rfl rfl) body hl hg hD h (fun hfall held ha =>
      hclose held (hn hfall held (ha.closed.of_scopes (Point.beside_block hP body).scopes.symm)))
        held ha

end

/-! ## Functions -/

theorem Body.lookup_facts {b : Body} {slot : Nat} {u : InitState}
    (h : b.facts.lookup slot = some u) : u = .init := by
  obtain ⟨before, after, he, -⟩ := List.lookup_eq_some_iff.1 h
  have hmem : (slot, u) ∈ b.facts := by
    rw [he]
    exact List.mem_append_right _ List.mem_cons_self
  obtain ⟨k, -, hk⟩ := List.mem_map.1 hmem
  cases hk
  rfl

theorem Point.knows_start (b : Body) : (Point.start b).Knows b.facts := by
  intro c hc
  have hslot : c.slot ∈ (List.range b.params.length).reverse := by
    have := List.mem_map_of_mem (f := Binding.slot) hc
    rwa [List.map_flatten, Point.scopes_start, List.flatten_singleton] at this
  rw [Option.isSome_iff_ne_none]
  intro hnone
  have := List.lookup_eq_none_iff.1 hnone (c.slot, .init) (List.mem_map_of_mem hslot)
  simp at this

/-- The code of a body is proper from its start on, when every slot counts as having a value there.
-/
theorem proper_body {b : Body} (hf : BodyAt t f b) (hl : AllLooped false b.stmts)
    (hg : b.Grounded ids frees) (n : Nat) : f.Proper b.declarations n 0 fun _ => true := by
  obtain ⟨stop, hat, hw⟩ := hf
  obtain ⟨last, hnull, hret⟩ := hw.tail
  have hD : Lists b.declarations 0 b.declarations := fun i d hi => by rwa [Nat.zero_add]
  obtain ⟨-, hD⟩ := lists_append.1 hD
  rw [Nat.zero_add, List.length_map, ← Point.slots_start b] at hD
  refine proper_stmts (t := t) (x := none) (Point.fine_start b) (Point.knows_start b)
    (fun _ he => nomatch he)
    b.stmts hl hg hD hat (fun _ held _ => proper_const hnull (.ret hret)) _ fun c _ u _ hu => ?_
  rw [Body.lookup_facts hu]
  rfl

end

/-! ## Runs -/

/-- The slot that an instruction reads; a lambda reads what it captures with instructions of their
own. -/
def Instr.reads? : Instr → Option Nat
  | load slot | move slot | storeField slot _ => some slot
  | _ => none

/-- These are the instructions that have been carried out since the slot was last declared. -/
def Since (slot : Nat) (done after : List Instr) : Prop :=
  (∃ before, done = before ++ .declare slot :: after) ∧ .declare slot ∉ after

/-- The slot of a declaration is used by the next instruction as the declaration says, after what
its frame has done. -/
structure Declaration.Respected (d : Declaration) (slot : Nat) (done : List Instr)
    (next : Instr) : Prop where
  initialized : d.deferred = true → next.reads? = some slot → ∀ after, Since slot done after →
    .store slot ∈ after
  constant : d.mutable = false → d.deferred = false → next ≠ .store slot
  once : d.mutable = false → next = .store slot → ∀ after, Since slot done after →
    .store slot ∉ after
  whole : d.mutable = false → ∀ path, next ≠ .storeField slot path

section

variable {D : List Declaration} {held : Nat → Bool} {slot : Nat} {d : Declaration}
  {done : List Instr}

/-- The slots that have values after some instructions. -/
def filled (D : List Declaration) (held : Nat → Bool) (done : List Instr) : Nat → Bool :=
  done.foldl (fun held i => i.fill D held) held

/-- A slot that is not declared again has a value once one is stored. -/
theorem filled_since (h : .declare slot ∉ done) :
    filled D held done slot = true ↔ held slot = true ∨ .store slot ∈ done := by
  induction done generalizing held with
  | nil => simp [filled]
  | cons i rest ih =>
    obtain ⟨hi, hrest⟩ := not_or.1 (mt List.mem_cons.2 h)
    change filled D (i.fill D held) rest slot = true ↔ _
    rw [ih hrest, List.mem_cons]
    cases i with
    | declare k =>
      have hne : slot ≠ k := fun he => hi (he ▸ rfl)
      simp [Instr.fill, Function.update_of_ne hne]
    | store k =>
      by_cases hk : slot = k
      · simp [Instr.fill, hk]
      · simp [Instr.fill, hk]
    | _ => simp [Instr.fill]

/-- The slot of a binding that is not deferred always has a value. -/
theorem filled_of_not_deferred (hd : D[slot]? = some d) (hdef : d.deferred = false)
    (h : held slot = true) : filled D held done slot = true := by
  induction done generalizing held with
  | nil => exact h
  | cons i rest ih =>
    refine ih ?_
    cases i with
    | declare k =>
      by_cases hk : slot = k
      · subst hk
        simp [Instr.fill, hd, hdef]
      · simpa [Instr.fill, Function.update_of_ne hk] using h
    | store k =>
      by_cases hk : slot = k
      · simp [Instr.fill, hk]
      · simpa [Instr.fill, Function.update_of_ne hk] using h
    | _ => exact h

theorem filled_append_declare (hd : D[slot]? = some d) (before after : List Instr)
    (h : .declare slot ∉ after) : filled D held (before ++ .declare slot :: after) slot = true ↔
      d.deferred = false ∨ .store slot ∈ after := by
  rw [filled, List.foldl_append, List.foldl_cons]
  refine (filled_since h).trans (or_congr_left ?_)
  simp [Instr.fill, hd]

/-- A proper instruction respects the declaration of each slot. -/
theorem Instr.Proper.respects {i : Instr} (h : i.Proper D (filled D (fun _ => true) done))
    (hd : D[slot]? = some d) : d.Respected slot done i := by
  have himmutable (hm : d.mutable = false) : ¬ Mutable D slot := Immutable.not_mutable ⟨d, hd, hm⟩
  constructor
  case initialized =>
    rintro hdef hi after ⟨⟨before, rfl⟩, hafter⟩
    have hheld : filled D (fun _ => true) (before ++ .declare slot :: after) slot = true := by
      cases i <;> cases hi
      · exact h
      · exact h
      · exact h.1
    rcases (filled_append_declare hd before after hafter).1 hheld with hd' | hs
    · exact absurd (hdef.symm.trans hd') (by decide)
    · exact hs
  case constant =>
    rintro hm hdef rfl
    have hheld : filled D (fun _ => true) done slot = true := filled_of_not_deferred hd hdef rfl
    exact absurd (hheld.symm.trans (h.resolve_left (himmutable hm))) (by decide)
  case once =>
    rintro hm rfl after ⟨⟨before, rfl⟩, hafter⟩ hs
    have hheld : filled D (fun _ => true) (before ++ .declare slot :: after) slot = true :=
      (filled_append_declare hd before after hafter).2 (.inr hs)
    exact absurd (hheld.symm.trans (h.resolve_left (himmutable hm))) (by decide)
  case whole =>
    rintro hm path rfl
    exact himmutable hm h.2

end

namespace Linked

variable {p : Linked}

/-- Definite initialization and immutability hold of every frame of every run of a checked program.
A binding that is declared without a value, and whose type has no value to begin with, is read only
after an assignment that is younger than its last declaration. An immutable one is not assigned to
again, and not to its fields; the receiver of a method is immutable. -/
theorem declarations_respected {program : Program} {natives : List (String × Signature)}
    {typed : TProgram} (hcheck : program.check natives = .ok typed)
    (hcompile : typed.compile = .ok p.module) :
    (∀ s ∈ program.structs, ∀ m ∈ s.methods, ∃ f ∈ typed.functions,
      f.name = methodSymbol s.name m.name ∧
      f.toBody.declarations.head? = some ⟨"self", false, false⟩) ∧
    ∃ t : Tables, t.Make typed p.module ∧ ∀ id f, p.module.functions[id]? = some f →
      (∃ b ∈ typed.bodies, BodyAt t f b) ∧
      ∀ b ∈ typed.bodies, BodyAt t f b → f.slotCount = b.declarations.length ∧
        ∀ name frame start a task depth done fr next, p.entry name = .ok frame →
          MachineState.Trace p task depth (startState start frame) a done →
          a.frameAt task depth = some fr → fr.function = id →
          a.executing? p task depth = some next →
          ∀ slot (d : Declaration), b.declarations[slot]? = some d →
          d.Respected slot done next := by
  refine ⟨fun s hs m hm => ?_, ?_⟩
  · obtain ⟨f, hf, hname, hself⟩ := Program.check_methods hcheck s hs m hm
    obtain ⟨rest, hparams⟩ := List.head?_eq_some_iff.1 hself
    refine ⟨f, hf, hname, ?_⟩
    rw [Body.declarations, TFunction.toBody, hparams]
    rfl
  obtain ⟨t, ht⟩ := typed.compile_ok hcompile
  refine ⟨t, ht, fun id f hf => ⟨ht.body_of_function hf, fun b hb hcode => ?_⟩⟩
  have hproper :=
    proper_body hcode (Program.check_looped hcheck b hb) (Program.check_grounded hcheck b hb)
  refine ⟨?_, ?_⟩
  · obtain ⟨stop, -, hw⟩ := hcode
    rw [hw.slots, Point.slots_stmts, Point.slots_start, Body.declarations, List.length_append,
      List.length_map]
  intro name frame start a task depth done fr next hframe htrace hfr hid hnext slot d hd
  have hentered := entered_entry hframe
  -- every frame of the function begins at the start of its code, and follows it
  have hfollows : fr.function = id → ∀ n, f.Proper b.declarations n fr.ip
      (filled b.declarations (fun _ => true) done) := by
    have hentry (fr : Frame) (he : fr.Entered p) (_ : fr.function = id) (n : Nat) :
        f.Proper b.declarations n fr.ip (filled b.declarations (fun _ => true) []) := by
      obtain ⟨g, args, captures, base, box, -, he⟩ := he
      rw [(Frame.enter_place he).2]
      exact hproper n
    refine htrace.preserves (I := fun done fr => fr.function = id →
      ∀ n, f.Proper b.declarations n fr.ip
      (filled b.declarations (fun _ => true) done))
      (tidy_startState hentered start) ?_ hentry ?_ hfr
    · intro fr hfr
      obtain rfl := frameAt_startState hfr
      exact hentry fr hentered
    · intro done fr i fr' hI hexec hid n
      obtain ⟨g, hg, hi⟩ := hexec.code
      rw [← hexec.function, hid, hf] at hg
      cases hg
      have hnext := (hI (hexec.function ▸ hid) (n + 1) i hi).2 fr'.ip ⟨hexec.stays, hexec.goes⟩
      rwa [filled, List.foldl_append]
  have hinstr := MachineState.instr?_of_executing? hnext hfr
  rw [Exec.instr?, hid, hf, Option.bind_some] at hinstr
  exact (hfollows hid 1 next hinstr).1.respects hd

/-- It gives a binding its value after the declaration. -/
def assignsLate : Program where
  items := [.function ⟨"main", [], some .int,
    [.declare "x" false (some .int) none none, .assign (.name "x" none) (.int 1 none) none,
     .ret (some (.name "x" none)) none], false, none⟩]
  source := none

def checkedAssignsLate : TProgram where
  structs := []
  functions := [{
    name := "main", params := [], ret := .int, isAsync := false, span := none
    body := [.declare "x" false .int none none,
      .assign ⟨"x", [], none⟩ (.mk (.int 1) .int none) none,
      .ret (some (.mk (.binding "x") .int none)) none] }]
  source := none

def compiledAssignsLate : Module where
  functions := #[⟨"main", 0, 1, #["x"], [], false, [],
    #[.const 0, .declare 0, .const 1, .store 0, .move 0, .ret, .const 0, .ret], #[.null, .int 1],
    #[none, none, none, none, none, none, none, none]⟩]
  structs := #[]
  natives := #[]
  source := none

theorem check_assignsLate : assignsLate.check [] = .ok checkedAssignsLate := by
  cbv

theorem compile_assignsLate : checkedAssignsLate.compile = .ok compiledAssignsLate := by
  cbv

/-- The machine on which the program runs. -/
def assignsLateLinked : Linked := ⟨compiledAssignsLate, #[], .default⟩

theorem assignsLate_respected : ∃ (start : MachineState) (a : MachineState),
    MachineState.Trace assignsLateLinked 0 0 start a [.const 0, .declare 0, .const 1, .store 0] ∧
      a.executing? assignsLateLinked 0 0 = some (.move 0) ∧
      (Declaration.mk "x" false true).Respected 0 [.const 0, .declare 0, .const 1, .store 0]
        (.move 0) := by
  let first : Frame := ⟨0, 0, ⟨#[.unbound], [[]]⟩, [], 0, false⟩
  have hentry : assignsLateLinked.entry "main" = .ok first := by cbv
  have htrace : ∃ a fr, MachineState.Trace assignsLateLinked 0 0 (startState .empty first) a
      [.const 0, .declare 0, .const 1, .store 0] ∧ a.frameAt 0 0 = some fr ∧ fr.function = 0 ∧
      a.executing? assignsLateLinked 0 0 = some (.move 0) := by
    have h := @MachineState.Trace.start assignsLateLinked 0 0 (startState .empty first)
    have h :=
      ((((h.stays rfl rfl rfl).stays rfl rfl rfl).stays rfl rfl rfl).stays rfl rfl rfl).stays
        rfl rfl rfl
    exact ⟨_, _, h, rfl, rfl, rfl⟩
  obtain ⟨a, fr, ha, hfr, hid, hnext⟩ := htrace
  obtain ⟨-, t, -, h⟩ :=
    declarations_respected (p := assignsLateLinked) check_assignsLate compile_assignsLate
  obtain ⟨⟨b, hb, hcode⟩, hrespected⟩ := h 0 _ rfl
  obtain ⟨-, hrun⟩ := hrespected b hb hcode
  obtain rfl : b = ⟨[], .int, _, [], false, none⟩ := List.mem_singleton.1 hb
  exact ⟨_, a, ha, hnext, hrun "main" first .empty a 0 0 _ fr _ hentry ha hfr hid hnext 0 _ rfl⟩

end Linked

end ScopedScript
