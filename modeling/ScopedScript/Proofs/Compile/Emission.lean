import ScopedScript.Proofs.Compile.Layout

/-!
# Emission

The compiler makes code as the layout describes. What one computation of it adds to the tables is
never taken away again, so what is known of its code holds of the finished function; and nothing is
said of a computation that has reported an error.
-/

namespace ScopedScript

namespace Emitter

/-- What compiling adds to: nothing that was there is lost. -/
structure Grows (e e' : Emitter) : Prop where
  errors : e'.errors = #[] → e.errors = #[]
  natives : e.natives.toList <+: e'.natives.toList
  functions : e.functions.toList <+: e'.functions.toList
  constants : e.fn.constants.toList <+: e'.fn.constants.toList
  slotNames : e.fn.slotNames.toList <+: e'.fn.slotNames.toList
  name : e'.fn.name = e.fn.name
  captures : e'.fn.captures = e.fn.captures

variable {e e' e'' : Emitter} {ids : Ids} {named : Nat} {t : Tables} {f : FunctionCode}
  {bodies bodies' : List Body}

theorem Grows.refl (e : Emitter) : e.Grows e :=
  ⟨id, List.prefix_rfl, List.prefix_rfl, List.prefix_rfl, List.prefix_rfl, rfl, rfl⟩

theorem Grows.trans (h : e.Grows e') (h' : e'.Grows e'') : e.Grows e'' where
  errors := fun he => h.errors (h'.errors he)
  natives := h.natives.trans h'.natives
  functions := h.functions.trans h'.functions
  constants := h.constants.trans h'.constants
  slotNames := h.slotNames.trans h'.slotNames
  name := h'.name.trans h.name
  captures := h'.captures.trans h.captures

/-- The tables hold what has been compiled so far. The first `named` functions are still to be put
in their places. -/
structure Backs (ids : Ids) (named : Nat) (e : Emitter) (t : Tables) : Prop where
  ids : t.ids = ids
  natives : e.natives.toList <+: t.natives.toList
  functions : ∀ (i : Nat) (g : FunctionCode), named ≤ i → e.functions[i]? = some (some g) →
    t.functions[i]? = some (some g)

/-- The tables and the function hold what has been compiled so far. -/
structure Fits (ids : Ids) (named : Nat) (e : Emitter) (t : Tables) (f : FunctionCode) : Prop
    extends Backs ids named e t where
  constants : e.fn.constants.toList <+: f.constants.toList
  slotNames : e.fn.slotNames.toList <+: f.slotNames.toList
  slots : e.fn.slotNames.size ≤ f.slotCount

theorem getElem?_of_extends {xs ys : Array α} (h : xs.toList <+: ys.toList) {i : Nat} {x : α}
    (hx : xs[i]? = some x) : ys[i]? = some x := by
  obtain ⟨rest, hr⟩ := h
  rw [← Array.getElem?_toList] at hx ⊢
  rw [← hr, List.getElem?_append_left (List.getElem?_eq_some_iff.1 hx).1, hx]

theorem Backs.before (h : Backs ids named e' t) (hg : e.Grows e') : Backs ids named e t where
  ids := h.ids
  natives := hg.natives.trans h.natives
  functions := fun i g hi he => h.functions i g hi (getElem?_of_extends hg.functions he)

theorem Fits.before (h : Fits ids named e' t f) (hg : e.Grows e') : Fits ids named e t f where
  toBacks := h.toBacks.before hg
  constants := hg.constants.trans h.constants
  slotNames := hg.slotNames.trans h.slotNames
  slots := by
    have := hg.slotNames.length_le
    simp only [Array.length_toList] at this
    exact Nat.le_trans this h.slots

/-- Every function that was added has the code of one of the bodies. -/
def Adds (ids : Ids) (named : Nat) (bodies : List Body) (e e' : Emitter) : Prop :=
  ∀ (i : Nat) (o : Option FunctionCode), e.functions.size ≤ i → e'.functions[i]? = some o →
    ∃ g b, o = some g ∧ b ∈ bodies ∧ ∀ t, Backs ids named e' t → BodyAt t g b

theorem Adds.of_eq (h : e'.functions = e.functions) : Adds ids named [] e e' := by
  intro i o hi ho
  rw [h, Array.getElem?_eq_none hi] at ho
  cases ho

theorem Adds.trans (h : Adds ids named bodies e e') (h' : Adds ids named bodies' e' e'')
    (hg : e'.Grows e'') : Adds ids named (bodies ++ bodies') e e'' := by
  intro i o hi ho
  by_cases hi' : e'.functions.size ≤ i
  · obtain ⟨g, b, hg, hb, hl⟩ := h' i o hi' ho
    exact ⟨g, b, hg, List.mem_append_right _ hb, hl⟩
  · have he : e'.functions[i]? = some e'.functions[i] := Array.getElem?_eq_getElem (by omega)
    have ho' : o = e'.functions[i] := by
      have := getElem?_of_extends hg.functions he
      rw [ho] at this
      exact Option.some.inj this
    obtain ⟨g, b, hg', hb, hl⟩ := h i _ hi he
    exact ⟨g, b, ho'.trans hg', List.mem_append_left _ hb, fun t ht => hl t (ht.before hg)⟩

theorem Adds.mono (h : Adds ids named bodies e e') (hb : ∀ b ∈ bodies, b ∈ bodies') :
    Adds ids named bodies' e e' := by
  intro i o hi ho
  obtain ⟨g, b, hg, hmem, hl⟩ := h i o hi ho
  exact ⟨g, b, hg, hb b hmem, hl⟩

end Emitter

open Emitter

/-! ## Code in its place -/

/-- The instruction of a line, by where loops and branches are left for. -/
def Line.resolved (brk join : Nat) (l : Line) : Instr :=
  match l.step with
  | .instr i => i
  | .leaveLoop => .jump brk
  | .leaveBranch => .jump join

/-- The lines stand in the function from an address on. -/
def Placed (f : FunctionCode) (brk join : Nat) : Nat → List Line → Prop
  | _, [] => True
  | start, l :: rest =>
    f.Has start (l.resolved brk join) l.span ∧ Placed f brk join (start + 1) rest

section

variable {f : FunctionCode} {brk join start : Nat}

@[simp]
theorem placed_nil : Placed f brk join start [] := trivial

@[simp]
theorem placed_cons {l : Line} {rest : List Line} : Placed f brk join start (l :: rest) ↔
    f.Has start (l.resolved brk join) l.span ∧ Placed f brk join (start + 1) rest := Iff.rfl

@[simp]
theorem placed_append {as bs : List Line} : Placed f brk join start (as ++ bs) ↔
    Placed f brk join start as ∧ Placed f brk join (start + as.length) bs := by
  induction as generalizing start with
  | nil => simp
  | cons l rest ih =>
    rw [List.cons_append, placed_cons, ih, placed_cons, and_assoc, List.length_cons,
      Nat.add_assoc, Nat.add_comm 1]

theorem placed_closeLoop (target : Nat) {ls : List Line} :
    Placed f brk join start (ls.map (Line.closeLoop target)) ↔ Placed f target join start ls := by
  induction ls generalizing start with
  | nil => rfl
  | cons l rest ih =>
    obtain ⟨step, span⟩ := l
    rw [List.map_cons, placed_cons, placed_cons, ih]
    cases step <;> rfl

theorem placed_closeBranch (target : Nat) {ls : List Line} :
    Placed f brk join start (ls.map (Line.closeBranch target)) ↔ Placed f brk target start ls := by
  induction ls generalizing start with
  | nil => rfl
  | cons l rest ih =>
    obtain ⟨step, span⟩ := l
    rw [List.map_cons, placed_cons, placed_cons, ih]
    cases step <;> rfl

/-- Lines of instructions alone, from the same place of the source. -/
theorem hasAll_of_placed {span : Option Span} {is : List Instr}
    (h : Placed f brk join start (is.map fun i => .of i span)) :
    f.HasAll span start is (start + is.length) := by
  induction is generalizing start with
  | nil => rfl
  | cons i rest ih =>
    refine ⟨h.1, ?_⟩
    rw [List.length_cons, Nat.add_comm rest.length, ← Nat.add_assoc]
    exact ih h.2

/-- The lines of a whole function. -/
theorem placed_all {ls : List Line} (hc : f.code = (ls.map Line.instr).toArray)
    (hs : f.spans = (ls.map Line.span).toArray) : Placed f (2 ^ 64 - 1) (2 ^ 64 - 1) 0 ls := by
  suffices h : ∀ before after, ls = before ++ after →
      Placed f (2 ^ 64 - 1) (2 ^ 64 - 1) before.length after from h [] ls rfl
  intro before after hls
  induction after generalizing before with
  | nil => trivial
  | cons l rest ih =>
    refine ⟨⟨?_, ?_⟩, ?_⟩
    · rw [hc, hls]
      obtain ⟨step, span⟩ := l
      cases step <;> simp [Line.instr, Line.resolved]
    · rw [hs, hls]
      simp
    · have := ih (before ++ [l]) (by rw [hls, List.append_assoc]; rfl)
      rwa [List.length_append] at this

end

/-! ## Computations of the compiler -/

/-- What relates the points before and after a computation with its value, given the loops around.
-/
abbrev Rel (α : Type) := Tables → FunctionCode → List LoopContext → Point → α → Point → Prop

namespace Emit

variable {ids : Ids} {named : Nat} {bodies bodies' : List Body} {R R' : Rel α}

/-- A computation that reports nothing relates the points before and after it, and adds functions
for these bodies. -/
def Yields (ids : Ids) (named : Nat) (x : Emit α) (bodies : List Body) (R : Rel α) : Prop :=
  ∀ e : Emitter, named ≤ e.functions.size → e.Grows (x e).2 ∧ ((x e).2.errors = #[] →
    (x e).2.fn.loops = e.fn.loops ∧ Adds ids named bodies e (x e).2 ∧
    ∀ t f, Fits ids named (x e).2 t f → R t f e.fn.loops e.fn.point (x e).1 (x e).2.fn.point)

theorem Yields.weaken {x : Emit α} (h : Yields ids named x bodies R)
    (hR : ∀ t f L P a P', t.ids = ids → R t f L P a P' → R' t f L P a P') :
    Yields ids named x bodies R' := by
  intro e he
  obtain ⟨hg, h⟩ := h e he
  refine ⟨hg, fun herr => ?_⟩
  obtain ⟨hl, ha, h⟩ := h herr
  exact ⟨hl, ha, fun t f hf => hR t f _ _ _ _ hf.ids (h t f hf)⟩

theorem Yields.mono {x : Emit α} (h : Yields ids named x bodies R)
    (hb : ∀ b ∈ bodies, b ∈ bodies') : Yields ids named x bodies' R := by
  intro e he
  obtain ⟨hg, h⟩ := h e he
  refine ⟨hg, fun herr => ?_⟩
  obtain ⟨hl, ha, h⟩ := h herr
  exact ⟨hl, ha.mono hb, h⟩

theorem Yields.pure (a : α) :
    Yields ids named (Pure.pure a) [] fun _ _ _ P b P' => b = a ∧ P' = P :=
  fun e _ => ⟨.refl e, fun _ => ⟨rfl, .of_eq rfl, fun _ _ _ => ⟨rfl, rfl⟩⟩⟩

theorem Yields.bind {x : Emit α} {y : α → Emit β} {S : α → Rel β}
    (hx : Yields ids named x bodies R) (hy : ∀ a, Yields ids named (y a) bodies' (S a)) :
    Yields ids named (x >>= y) (bodies ++ bodies') fun t f L P b P' =>
      ∃ a P₁, R t f L P a P₁ ∧ S a t f L P₁ b P' := by
  intro e he
  obtain ⟨hgx, hx⟩ := hx e he
  have hsize : named ≤ (x e).2.functions.size := by
    have := hgx.functions.length_le
    simp only [Array.length_toList] at this
    exact Nat.le_trans he this
  obtain ⟨hgy, hy⟩ := hy (x e).1 (x e).2 hsize
  refine ⟨hgx.trans hgy, fun herr => ?_⟩
  obtain ⟨hlx, hax, hx⟩ := hx (hgy.errors herr)
  obtain ⟨hly, hay, hy⟩ := hy herr
  refine ⟨hly.trans hlx, hax.trans hay hgy, fun t f hf => ?_⟩
  refine ⟨(x e).1, (x e).2.fn.point, hx t f (hf.before hgy), ?_⟩
  have := hy t f hf
  rwa [hlx] at this

/-- Nothing is said of a computation that reports an error. -/
theorem yields_report {R : Rel Unit} (cause : CompileCause) (span : Option Span) :
    Yields ids named (report cause span) [] R := by
  intro e _
  have herr : e.errors.push ⟨cause, span⟩ ≠ #[] := by simp
  refine ⟨⟨fun h => absurd h herr, ?_, ?_, ?_, ?_, rfl, rfl⟩, fun h => absurd h herr⟩ <;>
    exact List.prefix_rfl

/-- Nothing is said of what goes on after an error. -/
theorem Yields.reported {x : Emit Unit} {y : Unit → Emit α} {T : Rel α}
    (hx : ∀ {R}, Yields ids named x [] R) (hy : ∀ a, Yields ids named (y a) [] R) :
    Yields ids named (x >>= y) [] T :=
  ((hx (R := fun _ _ _ _ _ _ => False)).bind hy).weaken fun _ _ _ _ _ _ _ h =>
    h.elim fun _ h => h.elim fun _ h => h.1.elim

theorem yields_modifyFn {g : FnState → FnState} {after : Point → Point}
    (hc : ∀ f, (g f).constants = f.constants) (hs : ∀ f, (g f).slotNames = f.slotNames)
    (hm : ∀ f, (g f).name = f.name) (hn : ∀ f, (g f).captures = f.captures)
    (hl : ∀ f, (g f).loops = f.loops)
    (hp : ∀ f, (g f).point = after f.point) :
    Yields ids named (modifyFn g) [] fun _ _ _ P _ P' => P' = after P := by
  intro e _
  refine ⟨⟨id, List.prefix_rfl, List.prefix_rfl, ?_, ?_, hm e.fn, hn e.fn⟩, fun _ =>
    ⟨hl e.fn, .of_eq rfl, fun _ _ _ => hp e.fn⟩⟩
  · have h : (g e.fn).constants.toList = e.fn.constants.toList := congrArg _ (hc e.fn)
    exact h ▸ List.prefix_rfl
  · have h : (g e.fn).slotNames.toList = e.fn.slotNames.toList := congrArg _ (hs e.fn)
    exact h ▸ List.prefix_rfl

theorem yields_setFreed (m : Freed) :
    Yields ids named (setFreed m) [] fun _ _ _ P _ P' => P' = P.withFreed m :=
  yields_modifyFn (fun _ => rfl) (fun _ => rfl) (fun _ => rfl) (fun _ => rfl)
    (fun _ => rfl) fun _ => rfl

theorem yields_markFreed (slot : Nat) (span : Option Span) :
    Yields ids named (markFreed slot span) [] fun _ _ _ P _ P' =>
      P' = P.withFreed ((slot, span) :: P.freed) :=
  yields_modifyFn (fun _ => rfl) (fun _ => rfl) (fun _ => rfl) (fun _ => rfl)
    (fun _ => rfl) fun _ => rfl

theorem yields_openScope :
    Yields ids named openScope [] fun _ _ _ P _ P' => P' = P.opened :=
  yields_modifyFn (fun _ => rfl) (fun _ => rfl) (fun _ => rfl) (fun _ => rfl)
    (fun _ => rfl) fun _ => rfl

theorem yields_closeScope :
    Yields ids named closeScope [] fun _ _ _ P _ P' => P' = P.closed :=
  yields_modifyFn (fun _ => rfl) (fun _ => rfl) (fun _ => rfl) (fun _ => rfl)
    (fun _ => rfl) fun _ => rfl

theorem yields_get : Yields ids named get [] fun _ _ L P e P' =>
    P' = P ∧ e.fn.point = P ∧ e.fn.loops = L :=
  fun e _ => ⟨.refl e, fun _ => ⟨rfl, .of_eq rfl, fun _ _ _ => ⟨rfl, rfl, rfl⟩⟩⟩

theorem yields_resolve? (name : String) :
    Yields ids named (resolve? name) [] fun _ _ _ P a P' => P' = P ∧ a = P.resolve? name :=
  fun e _ => ⟨.refl e, fun _ => ⟨rfl, .of_eq rfl, fun _ _ _ => ⟨rfl, rfl⟩⟩⟩

theorem yields_freed :
    Yields ids named freed [] fun _ _ _ P a P' => P' = P ∧ a = P.freed :=
  fun e _ => ⟨.refl e, fun _ => ⟨rfl, .of_eq rfl, fun _ _ _ => ⟨rfl, rfl⟩⟩⟩

/-- A binding that passes may be used. -/
theorem yields_checkLive (b : Binding) (span : Option Span) :
    Yields ids named (checkLive b span) [] fun _ _ _ P a P' => P' = P ∧ a = true ∧ P.Usable b := by
  refine (yields_freed.bind (S := fun m _ _ _ P a P' =>
    P' = P ∧ a = true ∧ m.lookup b.slot = none) fun m => (?_ : Yields ids named _ [] _)).weaken ?_
  · split
    · exact .reported (yields_report _ _) fun _ => .pure false
    · rename_i hm
      exact (Yields.pure true).weaken fun _ _ _ _ _ _ _ h => ⟨h.2, h.1, hm⟩
  · rintro _ _ _ _ _ _ - ⟨_, _, ⟨rfl, rfl⟩, h⟩
    exact h

theorem modifyGet_apply (g : Emitter → α × Emitter) (e : Emitter) :
    (modifyGet g : Emit α) e = g e := rfl

theorem yields_internConstant (c : Constant) :
    Yields ids named (internConstant c) [] fun _ f _ P a P' => P' = P ∧
      ∃ d : Constant, f.constants[a]? = some d ∧ (d = c ∨ d.same c = true) := by
  intro e _
  cases hi : e.fn.constants.findIdx? fun d => d.same c with
  | some i =>
    have hr : internConstant c e = (i, e) := by
      rw [internConstant, modifyGet_apply, hi]
    rw [hr]
    refine ⟨.refl e, fun _ => ⟨rfl, .of_eq rfl, fun t f hf => ⟨rfl, ?_⟩⟩⟩
    obtain ⟨hlt, hsame, -⟩ := Array.findIdx?_eq_some_iff_getElem.1 hi
    have hd : e.fn.constants[i]? = some e.fn.constants[i] := Array.getElem?_eq_getElem hlt
    exact ⟨_, getElem?_of_extends hf.constants hd, .inr hsame⟩
  | none =>
    have hr : internConstant c e = (e.fn.constants.size,
        { e with fn := { e.fn with constants := e.fn.constants.push c } }) := by
      rw [internConstant, modifyGet_apply, hi]
    rw [hr]
    refine ⟨⟨id, List.prefix_rfl, List.prefix_rfl, ?_, List.prefix_rfl, rfl, rfl⟩, fun _ =>
      ⟨rfl, .of_eq rfl, fun t f hf => ⟨rfl, c, ?_, .inl rfl⟩⟩⟩
    · simp
    · exact getElem?_of_extends hf.constants (by simp)

theorem yields_nativeId (name : String) :
    Yields ids named (nativeId name) [] fun t _ _ P a P' => P' = P ∧ t.natives[a]? = some name := by
  intro e _
  cases hi : e.natives.findIdx? fun n => n == name with
  | some i =>
    have hr : nativeId name e = (i, e) := by
      rw [nativeId, modifyGet_apply, hi]
    rw [hr]
    refine ⟨.refl e, fun _ => ⟨rfl, .of_eq rfl, fun t f hf => ⟨rfl, ?_⟩⟩⟩
    obtain ⟨hlt, hname, -⟩ := Array.findIdx?_eq_some_iff_getElem.1 hi
    refine getElem?_of_extends hf.natives ?_
    rw [Array.getElem?_eq_getElem hlt, eq_of_beq hname]
  | none =>
    have hr : nativeId name e = (e.natives.size, { e with natives := e.natives.push name }) := by
      rw [nativeId, modifyGet_apply, hi]
    rw [hr]
    refine ⟨⟨id, ?_, List.prefix_rfl, List.prefix_rfl, List.prefix_rfl, rfl, rfl⟩, fun _ =>
      ⟨rfl, .of_eq rfl, fun t f hf => ⟨rfl, ?_⟩⟩⟩
    · simp
    · exact getElem?_of_extends hf.natives (by simp)

theorem yields_declareBinding (name : String) (span : Option Span) :
    Yields ids named (declareBinding name span) [] fun _ f _ P a P' =>
      P' = P.declare name span ∧ a = P.slots ∧ P.slots < f.slotCount ∧
        f.slotNames[P.slots]? = some name := by
  intro e _
  refine ⟨⟨id, List.prefix_rfl, List.prefix_rfl, List.prefix_rfl, ?_, rfl, rfl⟩, fun _ =>
    ⟨rfl, .of_eq rfl, fun t f hf => ⟨?_, rfl, ?_, ?_⟩⟩⟩
  · change e.fn.slotNames.toList <+: (e.fn.slotNames.push name).toList
    simp
  · have hp : (declareBinding name span e).2.fn.point =
        { e.fn.point.declare name span with slots := (e.fn.slotNames.push name).size } := rfl
    rw [hp, Array.size_push]
    rfl
  · have := hf.slots
    change (e.fn.slotNames.push name).size ≤ _ at this
    rw [Array.size_push] at this
    exact this
  · refine getElem?_of_extends hf.slotNames ?_
    change (e.fn.slotNames.push name)[e.fn.slotNames.size]? = _
    simp

/-! ## Code -/

/-- What is said of the code between two addresses, for the point before it. -/
abbrev Segment := Tables → FunctionCode → Option Exits → Point → Nat → Nat → Prop

/-- Where the innermost loop is left for. -/
def exits (loops : List LoopContext) (brk : Nat) : Option Exits :=
  loops.head?.map fun l => ⟨l.start, brk, l.scopeDepth⟩

/-- The lines are code for addresses from `start` on. -/
def Codes (start : Nat) (S : Segment) (after : Point → Point) : Rel (List Line) :=
  fun t f L P ls P' => P' = after P ∧ ∀ brk join, Placed f brk join start ls →
    S t f (exits L brk) P start (start + ls.length)

variable {start : Nat} {S S' : Segment} {after after' : Point → Point}

theorem Yields.code {x : Emit (List Line)} (h : Yields ids named x bodies (Codes start S after))
    (hS : ∀ t f x P stop, t.ids = ids → S t f x P start stop → S' t f x P start stop) :
    Yields ids named x bodies (Codes start S' after) :=
  h.weaken fun t f _ P _ _ ht h => ⟨h.1, fun brk join hp => hS t f _ P _ ht (h.2 brk join hp)⟩

theorem yields_nil : Yields ids named (Pure.pure []) []
      (Codes start (fun _ _ _ _ a b => b = a) id) :=
  (Yields.pure []).weaken fun _ _ _ _ _ _ _ h => ⟨h.2, fun _ _ _ => by rw [h.1]; rfl⟩

theorem yields_instr (i : Instr) (span : Option Span) : Yields ids named (Pure.pure [.of i span]) []
    (Codes start (fun _ f _ _ a b => f.Ends a i span b) id) := by
  refine (Yields.pure _).weaken fun _ _ _ _ _ _ _ h => ⟨h.2, fun _ _ hp => ?_⟩
  rw [h.1] at hp ⊢
  exact ⟨hp.1, rfl⟩

/-- Code after code. -/
theorem Yields.append {x : Emit (List Line)} {y : List Line → Emit (List Line)}
    (hx : Yields ids named x bodies (Codes start S after))
    (hy : ∀ ls, Yields ids named (y ls) bodies' (Codes (start + ls.length) S' after')) :
    Yields ids named (x >>= fun ls => y ls >>= fun more => Pure.pure (ls ++ more))
      (bodies ++ bodies') (Codes start (fun t f x P a b =>
        ∃ mid, S t f x P a mid ∧ S' t f x (after P) mid b) fun P => after' (after P)) := by
  refine ((hx.bind fun ls => (hy ls).bind fun more => .pure _).mono (by simp)).weaken ?_
  rintro t f L P _ _ - ⟨ls, P₁, ⟨rfl, hls⟩, more, P₂, ⟨rfl, hmore⟩, rfl, rfl⟩
  refine ⟨rfl, fun brk join hp => ⟨start + ls.length, ?_, ?_⟩⟩
  · exact hls brk join (placed_append.1 hp).1
  · rw [List.length_append, ← Nat.add_assoc]
    exact hmore brk join (placed_append.1 hp).2

/-- Code, and one more instruction. -/
theorem Yields.ends {x : Emit (List Line)} (hx : Yields ids named x bodies (Codes start S after))
    (i : Instr) (span : Option Span) :
    Yields ids named (x >>= fun ls => Pure.pure (ls ++ [.of i span])) bodies
      (Codes start (fun t f x P a b => ∃ last, S t f x P a last ∧ f.Ends last i span b) after) :=
  (hx.append fun _ => yields_instr i span).mono (by simp)

/-- Code after code, and one more instruction. -/
theorem Yields.append_ends {x : Emit (List Line)} {y : List Line → Emit (List Line)}
    (hx : Yields ids named x bodies (Codes start S after))
    (hy : ∀ ls, Yields ids named (y ls) bodies' (Codes (start + ls.length) S' after'))
    (i : Instr) (span : Option Span) :
    Yields ids named (x >>= fun ls => y ls >>= fun more => Pure.pure (ls ++ more ++ [.of i span]))
      (bodies ++ bodies') (Codes start (fun t f x P a b => ∃ mid last, S t f x P a mid ∧
        S' t f x (after P) mid last ∧ f.Ends last i span b) fun P => after' (after P)) :=
  ((hx.append hy).ends i span).code fun _ _ _ _ _ _ ⟨last, ⟨mid, hs, hs'⟩, h⟩ =>
    ⟨mid, last, hs, hs', h⟩

/-- Code for a value that is found first. -/
theorem Yields.value {x : Emit α} {y : α → Emit (List Line)}
    {V : Tables → FunctionCode → Point → α → Prop} {T : α → Segment}
    (hx : Yields ids named x bodies fun t f _ P a P' => P' = P ∧ V t f P a)
    (hy : ∀ a, Yields ids named (y a) bodies' (Codes start (T a) after)) :
    Yields ids named (x >>= y) (bodies ++ bodies')
      (Codes start (fun t f x P a b => ∃ v, V t f P v ∧ T v t f x P a b) after) := by
  refine (hx.bind hy).weaken ?_
  rintro t f L P ls P' - ⟨v, P₁, ⟨rfl, hv⟩, h⟩
  exact ⟨h.1, fun brk join hp => ⟨v, hv, h.2 brk join hp⟩⟩

theorem yields_constant (start : Nat) (c : Constant) (span : Option Span) :
    Yields ids named (constant c span) []
    (Codes start (fun _ f _ _ a b => f.HasConst a c span b) id) :=
  ((yields_internConstant c).value fun i => yields_instr (.const i) span).code
    fun _ _ _ _ _ _ ⟨i, ⟨d, hd⟩, h⟩ => ⟨i, d, hd.1, hd.2, h⟩

theorem yields_unresolved {R : Rel (List Line)} (what name : String) (span : Option Span) :
    Yields ids named (unresolved what name span) bodies R :=
  (Yields.reported (T := R) (yields_report _ _) fun _ => yields_constant 0 .null span).mono
    (List.nil_subset _)

theorem yields_load (name : String) (span : Option Span) : Yields ids named (load name span) []
    (Codes start (fun _ f _ P a b => LoadAt f P a name span b) id) := by
  refine ((yields_resolve? name).value (T := fun r _ f _ P a stop =>
    P.resolve? name = r → LoadAt f P a name span stop) fun r =>
      (?_ : Yields ids named _ [] _)).code ?_
  · split
    · rename_i b
      refine ((yields_checkLive b span).value fun _ => yields_instr (.load b.slot) span).code ?_
      intro _ f _ P _ _ h hr
      obtain ⟨-, ⟨-, hu⟩, h⟩ := h
      simp only [LoadAt, hr]
      exact ⟨hu, h⟩
    · rename_i i
      refine (yields_instr (.loadCapture i) span).code fun _ f _ P _ _ h hr => ?_
      simp only [LoadAt, hr]
      exact h
    · exact yields_unresolved _ _ _
  · intro _ _ _ P _ _ h
    obtain ⟨r, hr, h⟩ := h
    exact h hr.symm

theorem yields_loads (span : Option Span) : (names : List String) → (start : Nat) →
    Yields ids named (loads span names) []
      (Codes start (fun _ f _ P a b => LoadsAt f P span a names b) id)
  | [], _ => yields_nil
  | name :: rest, start =>
    ((yields_load name span).append fun ls => yields_loads span rest (start + ls.length)).code
      fun _ _ _ _ _ _ h => h

theorem yields_movedSlot? (value : TExpr) : Yields ids named (movedSlot? value) []
    fun _ _ _ P a P' => P' = P ∧ (∀ b, P.moved? value = some b → a = some b.slot ∧ P.Usable b) ∧
      (P.moved? value = none → a = none) := by
  obtain ⟨kind, ty, span⟩ := value
  cases kind with
  | binding name =>
    refine ((yields_resolve? name).bind (S := fun r _ _ _ P a P' => P' = P ∧
      (∀ b, r = some (.slot b) → a = some b.slot ∧ P.Usable b) ∧
      ((∀ b, r ≠ some (.slot b)) → a = none)) fun r => (?_ : Yields ids named _ [] _)).weaken ?_
    · split
      · rename_i b
        refine ((yields_checkLive b span).bind fun _ => .pure _).weaken ?_
        rintro _ _ _ _ _ _ - ⟨_, _, ⟨rfl, -, hu⟩, rfl, rfl⟩
        exact ⟨rfl, fun c hc => by cases hc; exact ⟨rfl, hu⟩, fun hn => absurd rfl (hn b)⟩
      · rename_i hr
        exact (Yields.pure none).weaken fun _ _ _ _ _ _ _ h =>
          ⟨h.2, fun b hb => absurd hb (hr b), fun _ => h.1⟩
    · rintro _ _ _ P a _ - ⟨_, _, ⟨rfl, rfl⟩, rfl, hs, hn⟩
      refine ⟨rfl, fun b hb => hs b ?_, fun hb => hn fun b hr => ?_⟩
      · simp only [Point.moved?] at hb
        split at hb
        · cases hb
          assumption
        · cases hb
      · simp only [Point.moved?, hr] at hb
        cases hb
  | _ =>
    -- no other form names a binding
    exact (Yields.pure none).weaken fun _ _ _ _ _ _ _ h =>
      ⟨h.2, fun b hb => absurd hb.symm (Option.some_ne_none b), fun _ => h.1⟩

theorem yields_free (name : String) (span : Option Span) : Yields ids named (free name span) []
    (Codes start (fun _ f _ P a b => FreeAt f P a name span b) fun P => P.free name span) := by
  refine ((yields_resolve? name).bind (S := fun r _ _ _ P ls P' => ∃ b, r = some (.slot b) ∧
    P.Usable b ∧ P.loops ≤ b.loopDepth ∧ P' = P.withFreed ((b.slot, span) :: P.freed) ∧
    ls = [Line.of (.free b.slot) span]) fun r => (?_ : Yields ids named _ [] _)).weaken ?_
  · split
    · rename_i b
      refine ((yields_checkLive b span).bind (S := fun live _ _ _ P ls P' => live = true →
        P.loops ≤ b.loopDepth ∧ P' = P.withFreed ((b.slot, span) :: P.freed) ∧
        ls = [Line.of (.free b.slot) span]) fun live => (?_ : Yields ids named _ [] _)).weaken ?_
      · cases live with
        | false => exact (Yields.pure []).weaken fun _ _ _ _ _ _ _ _ h => nomatch h
        | true =>
          refine (yields_get.bind (S := fun e _ _ _ P ls P' => e.fn.loops.length ≤ b.loopDepth ∧
            P' = P.withFreed ((b.slot, span) :: P.freed) ∧ ls = [Line.of (.free b.slot) span])
            fun e => (?_ : Yields ids named _ [] _)).weaken ?_
          · split
            · exact .reported (yields_report _ _) fun _ => .pure []
            · rename_i hlt
              refine ((yields_markFreed b.slot span).bind fun _ => .pure _).weaken ?_
              rintro _ _ _ P _ _ - ⟨_, _, rfl, rfl, rfl⟩
              exact ⟨Nat.le_of_not_lt hlt, rfl, rfl⟩
          · rintro _ _ _ P _ _ - ⟨e, _, ⟨rfl, rfl, rfl⟩, h⟩ -
            exact h
      · rintro _ _ _ P _ _ - ⟨_, _, ⟨rfl, rfl, hu⟩, h⟩
        exact ⟨b, rfl, hu, h rfl⟩
    · exact .reported (yields_report _ _) fun _ => .pure []
  · rintro _ f _ P _ _ - ⟨_, _, ⟨rfl, rfl⟩, b, hb, hu, hd, rfl, rfl⟩
    refine ⟨?_, fun _ _ hp => ?_⟩
    · simp only [Point.free, hb]
      rw [if_pos ⟨hu, hd⟩]
    · simp only [FreeAt, hb]
      exact ⟨hu, hd, hp.1, rfl⟩

theorem yields_store (target : AssignTarget) (span : Option Span) :
    Yields ids named (store target span) []
      (Codes start (fun _ f _ P a b => StoreAt f P a target span b) id) := by
  refine ((yields_resolve? target.name).value (T := fun r _ f _ P a stop =>
    ∃ b, r = some (.slot b) ∧ P.Usable b ∧ f.Ends a
      (if target.path.isEmpty then .store b.slot else .storeField b.slot target.path) span stop)
    fun r => (?_ : Yields ids named _ [] _)).code ?_
  · split
    · rename_i b
      refine ((yields_checkLive b target.span).value (T := fun live _ f _ _ a stop => live = true →
        f.Ends a (if target.path.isEmpty then .store b.slot else .storeField b.slot target.path)
          span stop) fun live => (?_ : Yields ids named _ [] _)).code ?_
      · cases live with
        | false => exact yields_nil.code fun _ _ _ _ _ _ _ h => nomatch h
        | true =>
          have hi : Yields ids named _ [] (Codes start _ id) := yields_instr
            (if target.path.isEmpty then .store b.slot else .storeField b.slot target.path) span
          split at hi
          · rename_i hp
            simp only [hp, if_true]
            exact hi.code fun _ _ _ _ _ _ h _ => h
          · rename_i hp
            simp only [hp]
            exact hi.code fun _ _ _ _ _ _ h _ => h
      · intro _ _ _ _ _ _ h
        obtain ⟨live, ⟨hl, hu⟩, h⟩ := h
        exact ⟨b, rfl, hu, h hl⟩
    · exact .reported (yields_report _ _) fun _ => .pure []
  · intro _ f _ P _ _ h
    obtain ⟨_, rfl, b, hb, hu, h⟩ := h
    simp only [StoreAt, hb]
    exact ⟨hu, h⟩

theorem yields_collect (rest : List TStmt) (span : Option Span) :
    Yields ids named (collect rest span) []
      (Codes start (fun _ f _ P a b => f.HasAll span a ((P.dead rest).map fun d => .free d.slot) b)
        fun P => P.collect rest span) := by
  refine (yields_get.bind fun e => (yields_setFreed _).bind fun _ => .pure _).weaken ?_
  rintro _ f _ P _ _ - ⟨e, _, ⟨rfl, rfl, rfl⟩, _, _, rfl, rfl, rfl⟩
  refine ⟨rfl, fun brk join hp => ?_⟩
  have hp' : Placed f brk join start
      (((e.fn.point.dead rest).map fun d => Instr.free d.slot).map fun i => .of i span) := by
    rw [List.map_map]
    exact hp
  have h := hasAll_of_placed hp'
  rw [List.length_map] at h ⊢
  exact h

theorem Yields.inScope (span : Option Span) {x : Emit (List Line)}
    (hx : Yields ids named x bodies (Codes (start + 1) S after)) :
    Yields ids named (inScope span x) bodies (Codes start
      (fun t f x P a b => f.InScope a span (fun a b => S t f x P.opened a b) b)
      fun P => (after P.opened).closed) := by
  refine ((yields_openScope.bind fun _ => hx.bind fun _ => yields_closeScope.bind fun _ =>
    .pure _).mono (by simp)).weaken ?_
  rintro t f L P _ _ - ⟨_, _, rfl, body, _, ⟨rfl, hb⟩, _, _, rfl, rfl, rfl⟩
  refine ⟨rfl, fun brk join hp => ?_⟩
  rw [placed_append, placed_append] at hp
  obtain ⟨⟨hopen, hbody⟩, hclose⟩ := hp
  refine ⟨start + 1 + body.length, hopen.1, hb brk join hbody, ?_⟩
  have hlast : start + ([Line.of Instr.enterScope span] ++ body).length =
      start + 1 + body.length := by
    rw [List.length_append, ← Nat.add_assoc]
    rfl
  rw [hlast] at hclose
  rw [List.length_append, ← Nat.add_assoc, hlast]
  exact ⟨hclose.1, rfl⟩

theorem Yields.inLoop (loopStart : Nat) {x : Emit (List Line)} {R : Rel (List Line)}
    (hx : Yields ids named x bodies R) :
    Yields ids named (inLoop loopStart x) bodies fun t f L P a P' =>
      ∃ Q, R t f (⟨loopStart, P.scopes.length⟩ :: L) P.inLoop a Q ∧ P' = Q.outOfLoop := by
  intro e he
  let e₁ : Emitter :=
    { e with fn := { e.fn with loops := ⟨loopStart, e.fn.scopes.length⟩ :: e.fn.loops } }
  obtain ⟨hg, h⟩ := hx e₁ he
  refine ⟨⟨hg.errors, hg.natives, hg.functions, hg.constants, hg.slotNames, hg.name, hg.captures⟩,
    fun herr => ?_⟩
  obtain ⟨hl, ha, h⟩ := h herr
  refine ⟨?_, ?_, fun t f hf => ⟨(x e₁).2.fn.point, ?_, ?_⟩⟩
  · change (x e₁).2.fn.loops.tail = e.fn.loops
    rw [hl]
    rfl
  · intro i o hi ho
    obtain ⟨g, b, hgo, hb, hl⟩ := ha i o hi ho
    exact ⟨g, b, hgo, hb, fun t ht => hl t ⟨ht.ids, ht.natives, ht.functions⟩⟩
  · exact h t f ⟨⟨hf.ids, hf.natives, hf.functions⟩, hf.constants, hf.slotNames, hf.slots⟩
  · change FnState.point { (x e₁).2.fn with loops := (x e₁).2.fn.loops.tail } = _
    simp only [FnState.point, Point.outOfLoop, List.length_tail]

theorem yields_exitLoopScopes (start : Nat) (span : Option Span) :
    Yields ids named (exitLoopScopes span) [] (Codes start (fun _ f x P a b => match x with
      | some x => f.HasAll span a (List.replicate (P.scopes.length - x.depth) .exitScope) b
      | none => b = a) id) := by
  refine (yields_get.bind (S := fun e _ _ _ P ls P' => P' = P ∧ ls = (List.replicate
    (e.fn.loops.head?.elim 0 fun l => e.fn.scopes.length - l.scopeDepth) Instr.exitScope).map
      (Line.of · span)) fun e => (?_ : Yields ids named _ [] _)).weaken ?_
  · dsimp only
    split
    · rename_i hl
      refine (Yields.pure _).weaken fun _ _ _ _ _ _ _ h => ⟨h.2, h.1.trans ?_⟩
      rw [hl]
      rfl
    · rename_i l _ hl
      refine (Yields.pure _).weaken fun _ _ _ _ _ _ _ h => ⟨h.2, h.1.trans ?_⟩
      rw [hl, List.map_replicate]
      rfl
  · rintro _ f L P ls _ - ⟨e, _, ⟨rfl, rfl, rfl⟩, rfl, rfl⟩
    refine ⟨rfl, fun brk join hp => ?_⟩
    have h := hasAll_of_placed hp
    rw [List.length_map]
    cases hl : e.fn.loops with
    | nil => rfl
    | cons l outer =>
      rw [hl] at h
      exact h

theorem yields_jumpToStart (span : Option Span) : Yields ids named (jumpToStart span) []
    (Codes start (fun _ f x _ a b => match x with
      | some x => f.Ends a (.jump x.start) span b
      | none => b = a) id) := by
  refine (yields_get.bind (S := fun e => Codes start (fun _ f _ _ a b =>
    (e.fn.loops = [] → b = a) ∧ ∀ l outer, e.fn.loops = l :: outer →
      f.Ends a (.jump l.start) span b)
    id) fun e => (?_ : Yields ids named _ [] _)).weaken ?_
  · split
    · rename_i hl
      refine yields_nil.code fun _ _ _ _ _ _ h => ⟨fun _ => h, fun l outer h => ?_⟩
      rw [hl] at h
      cases h
    · rename_i l _ hl
      refine (yields_instr (.jump l.start) span).code fun _ _ _ _ _ _ h => ⟨fun hn => ?_, ?_⟩
      · rw [hl] at hn
        cases hn
      · intro m outer hm
        rw [hl] at hm
        cases hm
        exact h
  · rintro _ f L P ls _ - ⟨e, _, ⟨rfl, rfl, rfl⟩, rfl, h⟩
    refine ⟨rfl, fun brk join hp => ?_⟩
    obtain ⟨hnil, hcons⟩ := h brk join hp
    cases hl : e.fn.loops with
    | nil => exact hnil hl
    | cons l outer => exact hcons l outer hl

end Emit

end ScopedScript
