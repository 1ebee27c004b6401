import ScopedScript.Proofs.Compile.BareCode
import ScopedScript.Proofs.Compile.Emission

/-!
# The compiler on bare trees

Two runs of the compiler are followed side by side: the second starts from the bare form of what the
first starts from, at the address that the first one's address goes to, and writes the lines that
stay. A step of the first that writes only `free` instructions has no counterpart in the second.
-/

namespace ScopedScript

namespace Emit

/-- When the first computation ends without errors, the second, from the bare state, gives the value
of the first as changed by `f` and ends in the bare state. -/
def Follows (f : α → β) (x : Emit α) (x' : Emit β) : Prop :=
  ∀ e : Emitter, (x e).2.errors = #[] →
    e.errors = #[] ∧ ∀ g, x' (e.bare g) = (f (x e).1, (x e).2.bare g)

/-- When the first computation ends without errors, it gives lines from `start` on, and the second,
from the bare state and the address that `start` goes to, gives those of the lines that stay. -/
def Thins (inside : Bool) (start : Nat) (x : Emit (List Line))
    (x' : Nat → Emit (List Line)) : Prop :=
  ∀ e : Emitter, (x e).2.errors = #[] →
    e.errors = #[] ∧ (∀ l ∈ (x e).1, l.Fixed inside) ∧
      ∀ g, Agrees g start (x e).1 → x' (g start) (e.bare g) = (thin g (x e).1, (x e).2.bare g)

theorem bind_apply (x : Emit α) (y : α → Emit β) (e : Emitter) :
    (x >>= y) e = y (x e).1 (x e).2 := rfl

theorem pure_apply (a : α) (e : Emitter) : (Pure.pure a : Emit α) e = (a, e) := rfl

theorem freed_apply (e : Emitter) : freed e = (e.fn.freed, e) := rfl

section

variable {f : α → α'} {h : β → β'} {x : Emit α} {x' : Emit α'}

theorem Follows.pure (f : α → α') (a : α) : Follows f (Pure.pure a) (Pure.pure (f a)) :=
  fun _ he => ⟨he, fun _ => rfl⟩

theorem Follows.bind {y : α → Emit β} {y' : α' → Emit β'} (hx : Follows f x x')
    (hy : ∀ a, Follows h (y a) (y' (f a))) : Follows h (x >>= y) (x' >>= y') := by
  intro e he
  obtain ⟨he₁, hy⟩ := hy (x e).1 (x e).2 he
  obtain ⟨he₀, hx⟩ := hx e he₁
  refine ⟨he₀, fun g => ?_⟩
  change y' (x' (e.bare g)).1 (x' (e.bare g)).2 = _
  rw [hx g]
  exact hy g

theorem Follows.reported {cause : CompileCause} {span : Option Span} {x : Emit α} {x' : Emit β}
    {f : α → β} (hx : ∀ e, (x e).2.errors = #[] → e.errors = #[]) :
    Follows f (report cause span >>= fun _ => x) x' := by
  intro e he
  have : e.errors.push ⟨cause, span⟩ = #[] := hx _ he
  simp at this

end

/-! ## Steps of the compiler that write nothing -/

theorem follows_freed : Follows (fun _ => []) freed freed := fun _ he => ⟨he, fun _ => rfl⟩

theorem follows_resolve? (name : String) : Follows id (resolve? name) (resolve? name) :=
  fun _ he => ⟨he, fun _ => rfl⟩

/-- A binding that passes passes in the bare state as well. -/
theorem follows_checkLive (b : Binding) (span : Option Span) :
    Follows id (checkLive b span) (checkLive b span) := by
  unfold checkLive
  refine follows_freed.bind fun m => ?_
  split
  · exact .reported fun _ he => he
  · exact .pure id true

theorem follows_internConstant (c : Constant) :
    Follows id (internConstant c) (internConstant c) := by
  intro e he
  cases hi : e.fn.constants.findIdx? fun d => d.same c with
  | some i =>
    have hr (e' : Emitter) (h : e'.fn.constants = e.fn.constants) :
        internConstant c e' = (i, e') := by
      rw [internConstant, modifyGet_apply, h, hi]
    rw [hr e rfl] at he ⊢
    exact ⟨he, fun g => hr (e.bare g) rfl⟩
  | none =>
    have hr (e' : Emitter) (h : e'.fn.constants = e.fn.constants) :
        internConstant c e' = (e.fn.constants.size,
          { e' with fn := { e'.fn with constants := e.fn.constants.push c } }) := by
      rw [internConstant, modifyGet_apply, h, hi]
    rw [hr e rfl] at he ⊢
    exact ⟨he, fun g => hr (e.bare g) rfl⟩

theorem follows_nativeId (name : String) : Follows id (nativeId name) (nativeId name) := by
  intro e he
  cases hi : e.natives.findIdx? fun n => n == name with
  | some i =>
    have hr (e' : Emitter) (h : e'.natives = e.natives) : nativeId name e' = (i, e') := by
      rw [nativeId, modifyGet_apply, h, hi]
    rw [hr e rfl] at he ⊢
    exact ⟨he, fun g => hr (e.bare g) rfl⟩
  | none =>
    have hr (e' : Emitter) (h : e'.natives = e.natives) : nativeId name e' =
        (e.natives.size, { e' with natives := e.natives.push name }) := by
      rw [nativeId, modifyGet_apply, h, hi]
    rw [hr e rfl] at he ⊢
    exact ⟨he, fun g => hr (e.bare g) rfl⟩

/-- How many loops there are around does not change. -/
theorem follows_declareBinding (name : String) (span : Option Span) :
    Follows id (declareBinding name span) (declareBinding name span) := by
  intro e he
  refine ⟨he, fun g => ?_⟩
  have hloops : (e.bare g).fn.loops.length = e.fn.loops.length := List.length_map ..
  unfold declareBinding
  rw [modifyGet_apply, modifyGet_apply]
  dsimp only
  rw [hloops]
  rfl

theorem follows_declareParams : (params : List TParam) →
    Follows id (declareParams params) (declareParams params)
  | [] => .pure id ()
  | p :: rest => ((follows_declareBinding p.name p.span).bind fun _ => .pure id ()).bind fun _ =>
      follows_declareParams rest

/-! ## Rules for code -/

section

variable {inside : Bool} {start : Nat}

theorem thins_nil : Thins inside start (Pure.pure []) fun _ => Pure.pure [] :=
  fun _ he => ⟨he, nofun, fun _ _ => rfl⟩

theorem thins_instr {i : Instr} {span : Option Span}
    (hi : ∀ g, thin g [.of i span] = [.of i span]) :
    Thins inside start (Pure.pure [.of i span]) fun _ => Pure.pure [.of i span] :=
  fun e he => ⟨he, fun l hl => by
    rw [List.mem_singleton.1 hl]
    trivial, fun g _ => by
    rw [show (Pure.pure [Line.of i span] : Emit _) e = ([.of i span], e) from rfl, hi]
    rfl⟩

/-- Code after code. -/
theorem Thins.append {x : Emit (List Line)} {x' : Nat → Emit (List Line)}
    {y : List Line → Emit (List Line)} {y' : Nat → Emit (List Line)} (hx : Thins inside start x x')
    (hy : ∀ ls, Thins inside (start + ls.length) (y ls) y') :
    Thins inside start (x >>= fun ls => y ls >>= fun more => Pure.pure (ls ++ more))
      fun s => x' s >>= fun ls => y' (s + ls.length) >>= fun more => Pure.pure (ls ++ more) := by
  intro e he
  obtain ⟨he₁, hfy, hy⟩ := hy (x e).1 (x e).2 he
  obtain ⟨he₀, hfx, hx⟩ := hx e he₁
  refine ⟨he₀, fun l hl => (List.mem_append.1 hl).elim (hfx l) (hfy l), fun g hg => ?_⟩
  obtain ⟨hgx, hgy⟩ := agrees_append.1 hg
  have hx := hx g hgx
  have hy := hy g hgy
  rw [hgx.stop] at hy
  change (((x' (g start) (e.bare g)).1 ++
    (y' (g start + (x' (g start) (e.bare g)).1.length) (x' (g start) (e.bare g)).2).1,
    (y' (g start + (x' (g start) (e.bare g)).1.length) (x' (g start) (e.bare g)).2).2) : _ × _) = _
  rw [hx]
  dsimp only
  rw [hy]
  exact congrArg (·, _) thin_append.symm

/-- Code, and one more instruction. -/
theorem Thins.ends {x : Emit (List Line)} {x' : Nat → Emit (List Line)}
    (hx : Thins inside start x x') {i : Instr} {span : Option Span}
    (hi : ∀ g, thin g [.of i span] = [.of i span]) :
    Thins inside start (x >>= fun ls => Pure.pure (ls ++ [.of i span]))
      fun s => x' s >>= fun ls => Pure.pure (ls ++ [.of i span]) :=
  hx.append fun _ => thins_instr hi

/-- Code after code, and one more instruction. -/
theorem Thins.append_ends {x : Emit (List Line)} {x' : Nat → Emit (List Line)}
    {y : List Line → Emit (List Line)} {y' : Nat → Emit (List Line)} (hx : Thins inside start x x')
    (hy : ∀ ls, Thins inside (start + ls.length) (y ls) y') {i : Instr} {span : Option Span}
    (hi : ∀ g, thin g [.of i span] = [.of i span]) :
    Thins inside start (x >>= fun ls => y ls >>= fun more => Pure.pure (ls ++ more ++ [.of i span]))
      fun s => x' s >>= fun ls => y' (s + ls.length) >>= fun more =>
        Pure.pure (ls ++ more ++ [.of i span]) :=
  (hx.append hy).ends hi

/-- Code for a value that is found first. -/
theorem Thins.value {x : Emit α} {x' : Emit α'} {f : α → α'} {y : α → Emit (List Line)}
    {z : α' → Nat → Emit (List Line)} (hx : Follows f x x')
    (hy : ∀ a, Thins inside start (y a) (z (f a))) :
    Thins inside start (x >>= y) fun s => x' >>= fun a => z a s := by
  intro e he
  obtain ⟨he₁, hfy, hy⟩ := hy (x e).1 (x e).2 he
  obtain ⟨he₀, hx⟩ := hx e he₁
  refine ⟨he₀, hfy, fun g hg => ?_⟩
  change z (x' (e.bare g)).1 (g start) (x' (e.bare g)).2 = _
  rw [hx g]
  exact hy g hg

theorem Thins.inScope (span : Option Span) {x : Emit (List Line)} {x' : Nat → Emit (List Line)}
    (hx : Thins inside (start + 1) x x') :
    Thins inside start (inScope span x) fun s => inScope span (x' (s + 1)) := by
  intro e he
  obtain ⟨he₀, hf, hx⟩ := hx (openScope e).2 he
  refine ⟨he₀, fun l hl => ?_, fun g hg => ?_⟩
  · rcases List.mem_append.1 hl with hl | hl
    · rcases List.mem_append.1 hl with hl | hl
      · rw [List.mem_singleton.1 hl]
        trivial
      · exact hf l hl
    · rw [List.mem_singleton.1 hl]
      trivial
  · obtain ⟨hopen, hbody⟩ := agrees_append.1 (agrees_append.1 hg).1
    have hx := hx g hbody
    rw [hopen.next rfl] at hx
    change (([Line.of .enterScope span] ++ (x' (g start + 1) ((openScope e).2.bare g)).1 ++
      [Line.of .exitScope span], (closeScope (x' (g start + 1) ((openScope e).2.bare g)).2).2) :
      _ × _) = _
    rw [hx]
    have hlines : (Emit.inScope span x e).1 =
        [.of .enterScope span] ++ (x (openScope e).2).1 ++ [.of .exitScope span] := rfl
    rw [hlines, thin_append, thin_append]
    rfl

/-- The body of a loop, whose start goes to another address as well. -/
theorem Thins.inLoop (first : Nat) {x : Emit (List Line)} {x' : Nat → Emit (List Line)}
    (hx : Thins true start x x') (e : Emitter) (he : (inLoop first x e).2.errors = #[]) :
    e.errors = #[] ∧ (∀ l ∈ (Emit.inLoop first x e).1, l.Fixed true) ∧
      ∀ g, Agrees g start (Emit.inLoop first x e).1 →
        Emit.inLoop (g first) (x' (g start)) (e.bare g) =
          (thin g (Emit.inLoop first x e).1, (Emit.inLoop first x e).2.bare g) := by
  let e₁ : Emitter :=
    { e with fn := { e.fn with loops := ⟨first, e.fn.scopes.length⟩ :: e.fn.loops } }
  obtain ⟨he₀, hf, hx⟩ := hx e₁ he
  refine ⟨he₀, hf, fun g hg => ?_⟩
  have hx := hx g hg
  have hrun : Emit.inLoop (g first) (x' (g start)) (e.bare g) =
      ((x' (g start) (e₁.bare g)).1, { (x' (g start) (e₁.bare g)).2 with
        fn := { (x' (g start) (e₁.bare g)).2.fn with
          loops := (x' (g start) (e₁.bare g)).2.fn.loops.tail } }) := rfl
  rw [hrun, hx]
  refine Prod.ext rfl ?_
  change ({ (x e₁).2.bare g with fn := { (x e₁).2.fn.bare g with
    loops := ((x e₁).2.fn.loops.map (LoopContext.bare g)).tail } } : Emitter) = _
  rw [← List.map_tail]
  rfl

end

/-! ## Names -/

section

variable {inside : Bool} {start : Nat}

theorem thins_constant (c : Constant) (span : Option Span) :
    Thins inside start (constant c span) fun _ => constant c span :=
  .value (follows_internConstant c) fun _ => thins_instr fun _ => rfl

theorem thins_unresolved (what name : String) (span : Option Span) {x' : Nat → Emit (List Line)} :
    Thins inside start (unresolved what name span) x' := by
  intro e he
  have hnull : Thins true 0 (constant .null span) fun _ => constant .null span :=
    thins_constant .null span
  obtain ⟨he, -⟩ := hnull _ he
  have : e.errors.push ⟨.unresolved what name, span⟩ = #[] := he
  simp at this

theorem thins_load (name : String) (span : Option Span) :
    Thins inside start (load name span) fun _ => load name span := by
  refine .value (follows_resolve? name) fun r => ?_
  cases r with
  | none => exact thins_unresolved _ _ _
  | some r =>
    cases r with
    | slot b => exact .value (follows_checkLive b span) fun _ => thins_instr fun _ => rfl
    | capture i => exact thins_instr fun _ => rfl

theorem thins_loads (span : Option Span) : (names : List String) → (start : Nat) →
    Thins inside start (loads span names) fun _ => loads span names
  | [], _ => thins_nil
  | name :: rest, start => (thins_load name span).append fun ls =>
    thins_loads span rest (start + ls.length)

theorem follows_movedSlot? (value : TExpr) :
    Follows id (movedSlot? value) (movedSlot? value.bare) := by
  obtain ⟨kind, ty, span⟩ := value
  cases kind with
  | binding name =>
    refine (follows_resolve? name).bind fun r => ?_
    cases r with
    | none => exact .pure id none
    | some r =>
      cases r with
      | slot b => exact (follows_checkLive b span).bind fun _ => .pure id (some b.slot)
      | capture i => exact .pure id none
  | _ => exact .pure id none

theorem thins_store (target : AssignTarget) (span : Option Span) :
    Thins inside start (store target span) fun _ => store target span := by
  refine .value (follows_resolve? target.name) fun r => ?_
  have hreport {x' : Nat → Emit (List Line)} : Thins inside start
      (report (.notAssignable target.name) target.span >>= fun _ => Pure.pure []) x' :=
    fun e he => by
    have : e.errors.push ⟨_, target.span⟩ = #[] := he
    simp at this
  cases r with
  | none => exact hreport
  | some r =>
    cases r with
    | capture i => exact hreport
    | slot b =>
      refine .value (follows_checkLive b target.span) fun live => ?_
      cases live with
      | false => exact thins_nil
      | true =>
        dsimp only [id_eq]
        split
        · exact thins_nil
        · split
          · exact thins_instr fun _ => rfl
          · exact thins_instr fun _ => rfl

/-- A left operand that stays on the stack when it decides, and else the right one. -/
theorem Thins.decides {x : Emit (List Line)} {x' : Nat → Emit (List Line)}
    {y : Nat → Emit (List Line)} {y' : Nat → Emit (List Line)} (hx : Thins inside start x x')
    {j : Nat → Instr} (hstays : ∀ n, (j n).stays = true)
    (hjump : ∀ g n, (j n).retarget g = j (g n)) (span : Option Span)
    (hy : ∀ start, Thins inside start (y start) y') :
    Thins inside start (do
        let l ← x
        let r ← y (start + l.length + 3)
        return l ++ [.of .dup span, .of (j (start + l.length + 3 + r.length)) span,
          .of .pop span] ++ r)
      fun s => do
        let l ← x' s
        let r ← y' (s + l.length + 3)
        return l ++ [.of .dup span, .of (j (s + l.length + 3 + r.length)) span,
          .of .pop span] ++ r := by
  intro e he
  obtain ⟨he₁, hfy, hy⟩ := hy (start + (x e).1.length + 3) (x e).2 he
  obtain ⟨he₀, hfx, hx⟩ := hx e he₁
  let mid (target : Nat) : List Line := [.of .dup span, .of (j target) span, .of .pop span]
  refine ⟨he₀, fun l hl => ?_, fun g hg => ?_⟩
  · rcases List.mem_append.1 hl with hl | hl
    · rcases List.mem_append.1 hl with hl | hl
      · exact hfx l hl
      · simp only [List.mem_cons, List.not_mem_nil, or_false] at hl
        rcases hl with rfl | rfl | rfl <;> trivial
    · exact hfy l hl
  · have hmid (target : Nat) : thin g (mid target) = mid (g target) := by
      rw [thin_cons rfl, thin_cons (l := .of (j target) span) (hstays target), thin_cons rfl]
      simp only [Line.retarget_of, hjump]
      rfl
    obtain ⟨hg, hgy⟩ := agrees_append.1 hg
    obtain ⟨hgx, hgm⟩ := agrees_append.1 hg
    have hthree : g (start + (x e).1.length + 3) = g start + (thin g (x e).1).length + 3 := by
      have := (hgm : Agrees g _ (mid _)).stop
      rwa [hmid, hgx.stop] at this
    rw [List.length_append, ← Nat.add_assoc] at hgy
    replace hgy : Agrees g (start + (x e).1.length + 3) _ := hgy
    have hstop := hgy.stop
    have hy := hy g hgy
    rw [hthree] at hy hstop
    let r := (y (start + (x e).1.length + 3) (x e).2).1
    have hlines : thin g ((x e).1 ++ mid (start + (x e).1.length + 3 + r.length) ++ r) =
        thin g (x e).1 ++ mid (g start + (thin g (x e).1).length + 3 + (thin g r).length) ++
          thin g r := by
      rw [thin_append, thin_append, hmid, hstop]
    simp only [bind_apply, hx g hgx, hy]
    exact congrArg (·, _) hlines.symm

theorem thins_declare (name : String) (span : Option Span) :
    Thins inside start (do
      let slot ← declareBinding name span
      return [.of (.declare slot) span]) fun _ => do
      let slot ← declareBinding name span
      return [.of (.declare slot) span] :=
  .value (follows_declareBinding name span) fun _ => thins_instr fun _ => rfl

/-! ## Statements that release bindings -/

/-- A computation of which nothing is left in the bare state. -/
def Silent (x : Emit α) : Prop :=
  ∀ e : Emitter, (x e).2.errors = #[] → e.errors = #[] ∧ ∀ g, (x e).2.bare g = e.bare g

theorem Thins.skip {x : Emit α} (hx : Silent x) {y : α → Emit (List Line)}
    {y' : Nat → Emit (List Line)} (hy : ∀ a, Thins inside start (y a) y') :
    Thins inside start (x >>= y) y' := by
  intro e he
  obtain ⟨he₁, hf, hy⟩ := hy (x e).1 (x e).2 he
  obtain ⟨he₀, hx⟩ := hx e he₁
  refine ⟨he₀, hf, fun g hg => ?_⟩
  rw [← hx g]
  exact hy g hg

theorem silent_checkLive (b : Binding) (span : Option Span) : Silent (checkLive b span) := by
  intro e he
  obtain ⟨he₀, h⟩ := follows_checkLive b span e he
  refine ⟨he₀, fun g => ?_⟩
  have hbare : (checkLive b span (e.bare g)).2 = e.bare g := rfl
  rw [← hbare, h g]

/-- Frees leave no lines. -/
theorem thins_frees {ls : List Line} (hls : ∀ l ∈ ls, ∃ slot span, l = .of (.free slot) span) :
    Thins inside start (Pure.pure ls) fun _ => Pure.pure [] := by
  refine fun e he => ⟨he, fun l hl => ?_, fun g _ => ?_⟩
  · obtain ⟨slot, span, rfl⟩ := hls l hl
    trivial
  · have hthin : thin g ls = [] := by
      rw [thin, List.map_eq_nil_iff, List.filter_eq_nil_iff]
      intro l hl
      obtain ⟨slot, span, rfl⟩ := hls l hl
      exact Bool.false_ne_true
    rw [pure_apply, hthin]
    rfl

theorem thins_free (name : String) (span : Option Span) :
    Thins inside start (free name span) fun _ => Pure.pure [] := by
  have hreport {cause : CompileCause} : Thins inside start
      (report cause span >>= fun _ => Pure.pure []) fun _ => Pure.pure [] := fun e he => by
    have : e.errors.push ⟨_, span⟩ = #[] := he
    simp at this
  refine .skip (fun e he => ⟨he, fun _ => rfl⟩) fun r => ?_
  cases r with
  | none => exact hreport
  | some r =>
    cases r with
    | capture i => exact hreport
    | slot b =>
      refine .skip (silent_checkLive b span) fun live => ?_
      cases live with
      | false => exact thins_nil
      | true =>
        refine .skip (fun e he => ⟨he, fun _ => rfl⟩) fun e => ?_
        split
        · exact hreport
        · refine .skip (fun e he => ⟨he, fun _ => rfl⟩) fun _ => thins_frees fun l hl => ?_
          exact ⟨b.slot, span, List.mem_singleton.1 hl⟩

theorem thins_collect (rest : List TStmt) (span : Option Span) :
    Thins inside start (collect rest span) fun _ => Pure.pure [] := by
  refine .skip (fun e he => ⟨he, fun _ => rfl⟩) fun e => ?_
  refine .skip (fun e he => ⟨he, fun _ => rfl⟩) fun _ => thins_frees fun l hl => ?_
  obtain ⟨b, -, rfl⟩ := List.mem_map.1 hl
  exact ⟨b.slot, span, rfl⟩

end

end Emit

end ScopedScript
