import ScopedScript.Compile.Emit
import Mathlib

/-!
# Points of a function

What the compiler knows at one place of a function, apart from the code and the tables: the slots of
the names in scope and the slots that have been freed on some path. A statement takes one point to
another whatever code stands for it, so points are computed from the tree alone.
-/

namespace ScopedScript

/-- What is known at a place of a function. -/
structure Point where
  captures : List String
  /-- Open scopes, innermost first; in each the newest binding first. -/
  scopes : List (List Binding)
  freed : Freed
  /-- How many slots have been given out. -/
  slots : Nat
  /-- How many loops of the function enclose the place. -/
  loops : Nat

def FnState.point (f : FnState) : Point :=
  ⟨f.captures, f.scopes, f.freed, f.slotNames.size, f.loops.length⟩

namespace Point

def resolve? (P : Point) (name : String) : Option Resolved :=
  match P.scopes.findSome? fun scope => scope.find? fun b => b.name == name with
  | some binding => some (.slot binding)
  | none => (P.captures.findIdx? fun c => c == name).map .capture

/-- Neither freed on some path nor out of scope. -/
def Usable (P : Point) (b : Binding) : Prop := P.freed.lookup b.slot = none

instance (P : Point) (b : Binding) : Decidable (P.Usable b) :=
  inferInstanceAs (Decidable (_ = _))

def declare (P : Point) (name : String) (span : Option Span) : Point :=
  { P with
    scopes := match P.scopes with
      | [] => []
      | scope :: outer => (⟨name, P.slots, span, P.loops⟩ :: scope) :: outer
    slots := P.slots + 1 }

def opened (P : Point) : Point := { P with scopes := [] :: P.scopes }

def closed (P : Point) : Point := { P with scopes := P.scopes.tail }

def withFreed (P : Point) (m : Freed) : Point := { P with freed := m }

/-- In the body of a further loop. -/
def inLoop (P : Point) : Point := { P with loops := P.loops + 1 }

def outOfLoop (P : Point) : Point := { P with loops := P.loops - 1 }

/-- After a `free`; one that is reported frees nothing. -/
def free (P : Point) (name : String) (span : Option Span) : Point :=
  match P.resolve? name with
  | some (.slot b) =>
    if P.Usable b ∧ P.loops ≤ b.loopDepth then P.withFreed ((b.slot, span) :: P.freed) else P
  | _ => P

/-- What a `collect` before `rest` frees. -/
def dead (P : Point) (rest : List TStmt) : List Binding :=
  Emit.deadBindings P.freed (blockUses [] rest) [] (P.scopes.headD [])

def collect (P : Point) (rest : List TStmt) (span : Option Span) : Point :=
  P.withFreed ((P.dead rest).map (fun b => (b.slot, span)) ++ P.freed)

mutual

/-- After a statement that `rest` follows in its block. -/
def stmt (P : Point) (rest : List TStmt) : TStmt → Point
  | .declare name _ _ _ span => P.declare name span
  | .branch _ thenBlock elifs elseBlock _ =>
    let afterThen := (stmts P.opened thenBlock).closed
    let middle := elifBranches P.freed afterThen elifs
    let last := elseBranch (middle.1.withFreed P.freed) elseBlock
    last.withFreed ((afterThen.freed.merge middle.2).merge last.freed)
  | .loop _ body _ => (stmts P.inLoop.opened body).closed.outOfLoop
  | .block body _ => (stmts P.opened body).closed
  | .free name span => P.free name span
  | .collect span => P.collect rest span
  | .assign _ _ _ | .ret _ _ | .breakLoop _ | .continueLoop _ | .yieldNow _ | .eval _ _ => P

def stmts (P : Point) : List TStmt → Point
  | [] => P
  | s :: rest => stmts (stmt P rest s) rest

/-- After the last of further branches, with what is freed at the end of any of them. -/
def elifBranches (before : Freed) (P : Point) : List (TExpr × List TStmt) → Point × Freed
  | [] => (P, [])
  | (_, body) :: rest =>
    let after := (stmts (P.withFreed before).opened body).closed
    let later := elifBranches before after rest
    (later.1, after.freed.merge later.2)

def elseBranch (P : Point) : Option (List TStmt) → Point
  | none => P
  | some body => (stmts P.opened body).closed

end

/-! The order of points. -/

/-- The bindings in scope have slots of their own, and know how deep in loops they stand. -/
structure Fine (P : Point) : Prop where
  nonempty : P.scopes ≠ []
  below : ∀ b ∈ P.scopes.flatten, b.slot < P.slots ∧ b.loopDepth ≤ P.loops
  here : ∀ b ∈ P.scopes.headD [], b.loopDepth = P.loops
  distinct : (P.scopes.flatten.map Binding.slot).Nodup

/-- From the first point to the second some bindings were declared in the innermost scope. What was
freed stays so, and a binding from outside the innermost loop was not freed. -/
structure Extends (P Q : Point) : Prop where
  captures : Q.captures = P.captures
  loops : Q.loops = P.loops
  slots : P.slots ≤ Q.slots
  outer : Q.scopes.tail = P.scopes.tail
  head : ∃ new, Q.scopes.headD [] = new ++ P.scopes.headD [] ∧
    (∀ b ∈ new, P.slots ≤ b.slot ∧ b.slot < Q.slots ∧ b.loopDepth = P.loops) ∧
    (new.map Binding.slot).Nodup
  nonempty : Q.scopes ≠ []
  freed : ∀ slot, Q.freed.lookup slot = none → P.freed.lookup slot = none
  spared : ∀ b ∈ P.scopes.flatten, b.loopDepth < P.loops → P.Usable b → Q.Usable b

variable {P Q R : Point}

theorem flatten_scopes (h : P.scopes ≠ []) :
    P.scopes.flatten = P.scopes.headD [] ++ P.scopes.tail.flatten := by
  cases hs : P.scopes with
  | nil => exact absurd hs h
  | cons scope outer => rfl

theorem Extends.flatten (h : P.Extends Q) (hP : P.scopes ≠ []) :
    ∃ new, Q.scopes.flatten = new ++ P.scopes.flatten ∧
      (∀ b ∈ new, P.slots ≤ b.slot ∧ b.slot < Q.slots ∧ b.loopDepth = P.loops) ∧
      (new.map Binding.slot).Nodup := by
  obtain ⟨new, hn, hnew, hd⟩ := h.head
  refine ⟨new, ?_, hnew, hd⟩
  rw [flatten_scopes h.nonempty, flatten_scopes hP, hn, h.outer, List.append_assoc]

theorem Fine.extend (hP : P.Fine) (h : P.Extends Q) : Q.Fine := by
  obtain ⟨new, hq, hnew, hd⟩ := h.flatten hP.nonempty
  constructor
  case nonempty => exact h.nonempty
  case below =>
    intro b hb
    rw [hq, List.mem_append] at hb
    rw [h.loops]
    rcases hb with hb | hb
    · exact ⟨(hnew b hb).2.1, (hnew b hb).2.2.le⟩
    · exact ⟨(hP.below b hb).1.trans_le h.slots, (hP.below b hb).2⟩
  case here =>
    obtain ⟨new, hn, hnew, -⟩ := h.head
    intro b hb
    rw [hn, List.mem_append] at hb
    rw [h.loops]
    exact hb.elim (fun hb => (hnew b hb).2.2) (hP.here b)
  case distinct =>
    rw [hq, List.map_append]
    refine hd.append hP.distinct fun slot h₁ h₂ => ?_
    obtain ⟨b, hb, rfl⟩ := List.mem_map.1 h₁
    obtain ⟨c, hc, he⟩ := List.mem_map.1 h₂
    have := (hnew b hb).1
    have := (hP.below c hc).1
    omega

theorem Extends.of_same (hP : P.scopes ≠ []) (hc : Q.captures = P.captures)
    (hl : Q.loops = P.loops) (hn : P.slots ≤ Q.slots) (hs : Q.scopes = P.scopes)
    (hf : ∀ slot, Q.freed.lookup slot = none → P.freed.lookup slot = none)
    (hb : ∀ b ∈ P.scopes.flatten, b.loopDepth < P.loops → P.Usable b → Q.Usable b) :
    P.Extends Q where
  captures := hc
  loops := hl
  slots := hn
  outer := by rw [hs]
  head := ⟨[], by rw [hs]; rfl, nofun, List.nodup_nil⟩
  nonempty := hs ▸ hP
  freed := hf
  spared := hb

theorem Extends.refl (hP : P.scopes ≠ []) : P.Extends P :=
  .of_same hP rfl rfl le_rfl rfl (fun _ h => h) fun _ _ _ h => h

theorem Extends.trans (hP : P.scopes ≠ []) (h : P.Extends Q) (h' : Q.Extends R) :
    P.Extends R := by
  have hsub : ∀ b ∈ P.scopes.flatten, b ∈ Q.scopes.flatten := by
    intro b hb
    obtain ⟨new, hq, -⟩ := h.flatten hP
    rw [hq]
    exact List.mem_append_right _ hb
  constructor
  case captures => exact h'.captures.trans h.captures
  case loops => exact h'.loops.trans h.loops
  case slots => exact h.slots.trans h'.slots
  case outer => exact h'.outer.trans h.outer
  case head =>
    obtain ⟨new, hn, hnew, hd⟩ := h.head
    obtain ⟨newer, hn', hnew', hd'⟩ := h'.head
    refine ⟨newer ++ new, by rw [hn', hn, List.append_assoc], fun b hb => ?_, ?_⟩
    · have := h.slots
      have := h'.slots
      have := h.loops
      rcases List.mem_append.1 hb with hb | hb
      · have := hnew' b hb
        omega
      · have := hnew b hb
        omega
    · rw [List.map_append]
      refine hd'.append hd fun slot h₁ h₂ => ?_
      obtain ⟨b, hb, rfl⟩ := List.mem_map.1 h₁
      obtain ⟨c, hc, he⟩ := List.mem_map.1 h₂
      have := (hnew' b hb).1
      have := (hnew c hc).2.1
      omega
  case nonempty => exact h'.nonempty
  case freed => exact fun slot hs => h.freed slot (h'.freed slot hs)
  case spared =>
    intro b hb hl hu
    exact h'.spared b (hsub b hb) (h.loops ▸ hl) (h.spared b hb hl hu)

theorem Fine.opened (h : P.Fine) : P.opened.Fine where
  nonempty := List.cons_ne_nil _ _
  below := h.below
  here := fun _ hb => nomatch hb
  distinct := h.distinct

theorem Fine.inLoop_opened (h : P.Fine) : P.inLoop.opened.Fine where
  nonempty := List.cons_ne_nil _ _
  below := fun b hb => ⟨(h.below b hb).1, (h.below b hb).2.trans (Nat.le_succ _)⟩
  here := fun _ hb => nomatch hb
  distinct := h.distinct

/-- Closing a scope leads back to the scopes before it. -/
theorem scopes_closed (h : P.opened.Extends Q) : Q.closed.scopes = P.scopes := h.outer

theorem Extends.closed (hP : P.scopes ≠ []) (h : P.opened.Extends Q) : P.Extends Q.closed :=
  .of_same hP h.captures h.loops h.slots h.outer h.freed h.spared

theorem Extends.loopClosed (hP : P.Fine) (h : P.inLoop.opened.Extends Q) :
    P.Extends Q.closed.outOfLoop :=
  .of_same hP.nonempty h.captures (by rw [outOfLoop, Point.closed, h.loops]; rfl) h.slots
    h.outer h.freed fun b hb _ hu => h.spared b hb (Nat.lt_succ_of_le (hP.below b hb).2) hu

theorem extends_declare (hP : P.Fine) (name : String) (span : Option Span) :
    P.Extends (P.declare name span) := by
  obtain ⟨scope, outer, hs⟩ := List.exists_cons_of_ne_nil hP.nonempty
  constructor
  case captures => rfl
  case loops => rfl
  case slots => exact Nat.le_succ _
  case outer => simp [declare, hs]
  case head =>
    exact ⟨[⟨name, P.slots, span, P.loops⟩], by simp [declare, hs], by simp [declare], by simp⟩
  case nonempty => simp [declare, hs]
  case freed => exact fun _ h => h
  case spared => exact fun _ _ _ h => h

theorem mem_of_resolve? {name : String} {b : Binding} (h : P.resolve? name = some (.slot b)) :
    b ∈ P.scopes.flatten := by
  rw [resolve?] at h
  split at h
  · cases h
    obtain ⟨scope, hs, hb⟩ := List.exists_of_findSome?_eq_some ‹_›
    exact List.mem_flatten.2 ⟨scope, hs, List.mem_of_find?_eq_some hb⟩
  · obtain ⟨i, -, hi⟩ := Option.map_eq_some_iff.1 h
    cases hi

/-- Bindings in scope are told apart by their slots. -/
theorem Fine.slot_inj (hP : P.Fine) {b c : Binding} (hb : b ∈ P.scopes.flatten)
    (hc : c ∈ P.scopes.flatten) (h : b.slot = c.slot) : b = c :=
  List.inj_on_of_nodup_map hP.distinct hb hc h

theorem extends_free (hP : P.Fine) (name : String) (span : Option Span) :
    P.Extends (P.free name span) := by
  rw [free]
  split
  · rename_i b hr
    split
    · rename_i hb
      refine .of_same hP.nonempty rfl rfl le_rfl rfl (fun slot h => ?_) fun c hc hl hu => ?_
      · simp only [withFreed, List.lookup_cons] at h
        split at h
        · cases h
        · exact h
      · have hne : c.slot ≠ b.slot := by
          intro he
          have := hP.slot_inj hc (mem_of_resolve? hr) he
          have := hb.2
          subst c
          omega
        rw [Usable, withFreed, List.lookup_cons, beq_false_of_ne hne]
        exact hu
    · exact .refl hP.nonempty
  · exact .refl hP.nonempty

theorem mem_deadBindings {freed : Freed} {uses : List Use} {b : Binding} {newer : List String}
    {scope : List Binding} (h : b ∈ Emit.deadBindings freed uses newer scope) :
    b ∈ scope ∧ freed.lookup b.slot = none := by
  induction scope generalizing newer with
  | nil => cases h
  | cons c older ih =>
    simp only [Emit.deadBindings] at h
    split at h
    · rename_i hc
      rcases List.mem_cons.1 h with rfl | h
      · simp only [Bool.and_eq_true, Option.isNone_iff_eq_none] at hc
        exact ⟨List.mem_cons_self, hc.1⟩
      · exact ⟨List.mem_cons_of_mem _ (ih h).1, (ih h).2⟩
    · exact ⟨List.mem_cons_of_mem _ (ih h).1, (ih h).2⟩

theorem lookup_append_eq_none {a b : Freed} {slot : Nat} :
    (a ++ b).lookup slot = none ↔ a.lookup slot = none ∧ b.lookup slot = none := by
  simp [List.lookup_append]

theorem lookup_merge_eq_none {a b : Freed} {slot : Nat} :
    (a.merge b).lookup slot = none ↔ a.lookup slot = none ∧ b.lookup slot = none := by
  rw [Freed.merge, lookup_append_eq_none]
  simp only [List.lookup_eq_none_iff, List.mem_filter]
  constructor
  · rintro ⟨hb, ha⟩
    refine ⟨fun p hp => ?_, hb⟩
    by_contra hps
    exact hps (ha p ⟨hp, by
      have : slot = p.1 := by simpa using hps
      subst this
      simpa [List.lookup_eq_none_iff] using hb⟩)
  · rintro ⟨ha, hb⟩
    exact ⟨hb, fun p hp => ha p hp.1⟩

theorem extends_collect (hP : P.Fine) (rest : List TStmt) (span : Option Span) :
    P.Extends (P.collect rest span) := by
  refine .of_same hP.nonempty rfl rfl le_rfl rfl (fun slot h => ?_) fun c hc hl hu => ?_
  · exact (lookup_append_eq_none.1 h).2
  · refine lookup_append_eq_none.2 ⟨?_, hu⟩
    rw [List.lookup_eq_none_iff]
    intro p hp
    obtain ⟨d, hd, rfl⟩ := List.mem_map.1 hp
    have hd := (mem_deadBindings hd).1
    have hdP : d ∈ P.scopes.flatten := by
      rw [flatten_scopes hP.nonempty]
      exact List.mem_append_left _ hd
    have := hP.here d hd
    refine bne_iff_ne.2 fun he => ?_
    have := hP.slot_inj hc hdP he
    subst c
    omega

/-- What further branches leave: the scopes as they were, and a binding from outside the innermost
loop is freed at the end of none of them. -/
structure Branches (before : Freed) (P : Point) (Q : Point × Freed) : Prop where
  captures : Q.1.captures = P.captures
  loops : Q.1.loops = P.loops
  slots : P.slots ≤ Q.1.slots
  scopes : Q.1.scopes = P.scopes
  spared : ∀ b ∈ P.scopes.flatten, b.loopDepth < P.loops → before.lookup b.slot = none →
    Q.2.lookup b.slot = none

theorem Fine.of_same (hP : P.Fine) (hs : Q.scopes = P.scopes) (hn : P.slots ≤ Q.slots)
    (hl : Q.loops = P.loops) : Q.Fine where
  nonempty := hs ▸ hP.nonempty
  below := by
    rw [hs, hl]
    exact fun b hb => ⟨(hP.below b hb).1.trans_le hn, (hP.below b hb).2⟩
  here := by
    rw [hs, hl]
    exact hP.here
  distinct := hs ▸ hP.distinct

theorem extends_branch (hP : P.Fine) {afterThen last : Point} {middle : Point × Freed}
    (ht : P.Extends afterThen) (hts : afterThen.scopes = P.scopes)
    (hm : Branches P.freed afterThen middle)
    (hl : (middle.1.withFreed P.freed).Extends last)
    (hls : last.scopes = middle.1.scopes) :
    P.Extends (last.withFreed ((afterThen.freed.merge middle.2).merge last.freed)) := by
  have hms : middle.1.scopes = P.scopes := hm.scopes.trans hts
  refine .of_same hP.nonempty ?_ ?_ ?_ (hls.trans hms) (fun slot h => ?_) fun b hb hlt hu => ?_
  · exact (hl.captures.trans hm.captures).trans ht.captures
  · exact (hl.loops.trans hm.loops).trans ht.loops
  · exact (ht.slots.trans hm.slots).trans hl.slots
  · exact ht.freed slot (lookup_merge_eq_none.1 (lookup_merge_eq_none.1 h).1).1
  · refine lookup_merge_eq_none.2 ⟨lookup_merge_eq_none.2 ⟨?_, ?_⟩, ?_⟩
    · exact ht.spared b hb hlt hu
    · exact hm.spared b (hts ▸ hb) (ht.loops ▸ hlt) hu
    · refine hl.spared b (hms.symm ▸ hb) ?_ hu
      exact (hm.loops.trans ht.loops).symm ▸ hlt

mutual

/-- A statement only adds declarations to its scope. -/
theorem extends_stmt {P : Point} (hP : P.Fine) (rest : List TStmt) :
    (s : TStmt) → P.Extends (P.stmt rest s)
  | .declare name _ _ _ span => extends_declare hP name span
  | .branch _ thenBlock elifs elseBlock _ => by
    have ht := extends_stmts hP.opened thenBlock
    have hPt := hP.of_same (scopes_closed ht) ht.slots ht.loops
    have hm := branches_elifBranches P.freed hPt elifs
    have hPm := hPt.of_same hm.scopes hm.slots hm.loops
    have hl := extends_elseBranch (P := (elifBranches _ _ elifs).1.withFreed P.freed)
      (hPm.of_same rfl le_rfl rfl) elseBlock
    exact extends_branch hP (ht.closed hP.nonempty) (scopes_closed ht) hm hl.1 hl.2
  | .loop _ body _ => .loopClosed hP (extends_stmts hP.inLoop_opened body)
  | .block body _ => .closed hP.nonempty (extends_stmts hP.opened body)
  | .free name span => extends_free hP name span
  | .collect span => extends_collect hP rest span
  | .assign _ _ _ | .ret _ _ | .breakLoop _ | .continueLoop _ | .yieldNow _ | .eval _ _ =>
    .refl hP.nonempty

theorem extends_stmts {P : Point} (hP : P.Fine) : (ss : List TStmt) → P.Extends (P.stmts ss)
  | [] => .refl hP.nonempty
  | s :: rest =>
    have h := extends_stmt hP rest s
    h.trans hP.nonempty (extends_stmts (hP.extend h) rest)

theorem branches_elifBranches {P : Point} (before : Freed) (hP : P.Fine) :
    (elifs : List (TExpr × List TStmt)) → Branches before P (elifBranches before P elifs)
  | [] => ⟨rfl, rfl, le_rfl, rfl, fun _ _ _ _ => rfl⟩
  | (_, body) :: rest => by
    have hb : (P.withFreed before).Fine := hP.of_same rfl le_rfl rfl
    have h := extends_stmts hb.opened body
    have hs := scopes_closed h
    have hl := branches_elifBranches before (hb.of_same hs h.slots h.loops) rest
    constructor
    case captures => exact hl.captures.trans h.captures
    case loops => exact hl.loops.trans h.loops
    case slots => exact h.slots.trans hl.slots
    case scopes => exact hl.scopes.trans hs
    case spared =>
      intro b hbP hlt hu
      refine lookup_merge_eq_none.2 ⟨h.spared b hbP hlt hu, hl.spared b ?_ ?_ hu⟩
      · exact hs.symm ▸ hbP
      · exact h.loops.symm ▸ hlt

theorem extends_elseBranch {P : Point} (hP : P.Fine) : (elseBlock : Option (List TStmt)) →
    P.Extends (P.elseBranch elseBlock) ∧ (P.elseBranch elseBlock).scopes = P.scopes
  | none => ⟨.refl hP.nonempty, rfl⟩
  | some body =>
    have h := extends_stmts hP.opened body
    ⟨h.closed hP.nonempty, scopes_closed h⟩

end

/-! Points beside each other. -/

/-- The second point has the scopes of the first one and stands as deep in loops. -/
structure Beside (P Q : Point) : Prop where
  fine : Q.Fine
  scopes : Q.scopes = P.scopes
  loops : Q.loops = P.loops
  captures : Q.captures = P.captures

variable {P Q R : Point}

theorem Beside.trans (h : P.Beside Q) (h' : Q.Beside R) : P.Beside R :=
  ⟨h'.fine, h'.scopes.trans h.scopes, h'.loops.trans h.loops, h'.captures.trans h.captures⟩

theorem Beside.withFreed (h : P.Beside Q) (m : Freed) : P.Beside (Q.withFreed m) :=
  ⟨h.fine.of_same rfl le_rfl rfl, h.scopes, h.loops, h.captures⟩

theorem beside_block (hP : P.Fine) (body : List TStmt) : P.Beside (P.opened.stmts body).closed :=
  have h := extends_stmts hP.opened body
  have hs := scopes_closed h
  ⟨hP.of_same hs h.slots h.loops, hs, h.loops, h.captures⟩

theorem beside_elifBranches (hP : P.Fine) (before : Freed) (elifs : List (TExpr × List TStmt)) :
    P.Beside (P.elifBranches before elifs).1 :=
  have h := branches_elifBranches before hP elifs
  ⟨hP.of_same h.scopes h.slots h.loops, h.scopes, h.loops, h.captures⟩

theorem beside_elseBranch (hP : P.Fine) (elseBlock : Option (List TStmt)) :
    P.Beside (P.elseBranch elseBlock) :=
  have h := extends_elseBranch hP elseBlock
  ⟨hP.extend h.1, h.2, h.1.loops, h.1.captures⟩

/-- After the first block of a branch, with what was freed before it. -/
def afterThen (P : Point) (thenBlock : List TStmt) : Point :=
  (P.opened.stmts thenBlock).closed.withFreed P.freed

def afterElifs (P : Point) (elifs : List (TExpr × List TStmt)) : Point :=
  (P.elifBranches P.freed elifs).1.withFreed P.freed

theorem beside_afterThen (hP : P.Fine) (thenBlock : List TStmt) :
    P.Beside (P.afterThen thenBlock) :=
  (beside_block hP thenBlock).withFreed _

theorem beside_afterElifs (hP : P.Fine) (elifs : List (TExpr × List TStmt)) :
    P.Beside (P.afterElifs elifs) := (beside_elifBranches hP _ elifs).withFreed _

/-! What was freed at the end of the block before plays no part in further branches. -/

theorem afterElifs_afterThen (P : Point) (thenBlock : List TStmt)
    (elifs : List (TExpr × List TStmt)) : (P.afterThen thenBlock).afterElifs elifs =
      (Point.elifBranches P.freed (P.opened.stmts thenBlock).closed elifs).1.withFreed P.freed := by
  match elifs with
  | [] => rfl
  | (_, _) :: _ => rfl

end Point

end ScopedScript
