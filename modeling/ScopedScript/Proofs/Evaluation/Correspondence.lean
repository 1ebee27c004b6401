import ScopedScript.Proofs.Compile.SafePaths
import ScopedScript.Proofs.Evaluation.Evaluator

/-!
# Frames and values in scope

While a procedure is evaluated, names have their values; while its code runs, slots of its frame do.
At each point of the compiler the two agree: the open scopes bind the same names in the same order,
and the slot of a binding that may still be used holds the value that its name has.
-/

namespace ScopedScript

open Bindings

/-- A binding and its value: the slot of the binding holds the value as long as it may be used. -/
def Point.Binds (P : Point) (b : Bindings) (c : Binding) (d : String × Value) : Prop :=
  c.name = d.1 ∧ (P.Usable c → b.Holds c.slot d.2)

/-- The bindings of a frame are as the compiler knows them at the point, and have the values in
scope. -/
structure Models (n : Nat) (P : Point) (b : Bindings) (env : Locals) :
    Prop extends Mirrors n P b where
  values : List.Forall₂ (List.Forall₂ (P.Binds b)) P.scopes env

section

variable {n : Nat} {P Q : Point} {b b' : Bindings} {env : Locals} {name : String} {v : Value}
  {span : Option Span} {c : Binding} {scope : List Binding} {values : List (String × Value)}
  {scopes : List (List Binding)}

theorem binds_scope_mono (h : List.Forall₂ (P.Binds b) scope values)
    (hu : ∀ c ∈ scope, Q.Usable c → P.Usable c ∧ ∀ v, b.Holds c.slot v → b'.Holds c.slot v) :
    List.Forall₂ (Q.Binds b') scope values := by
  refine ((List.forall₂_and_left _ _).2 ⟨fun _ hc => hc, h⟩).imp fun c d ⟨hc, hname, hheld⟩ => ?_
  exact ⟨hname, fun hQ => (hu c hc hQ).2 _ (hheld (hu c hc hQ).1)⟩

/-- Slots that keep their values bind what they bound. -/
theorem binds_mono (h : List.Forall₂ (List.Forall₂ (P.Binds b)) scopes env)
    (hu : ∀ c ∈ scopes.flatten, Q.Usable c → P.Usable c ∧ ∀ v, b.Holds c.slot v →
      b'.Holds c.slot v) : List.Forall₂ (List.Forall₂ (Q.Binds b')) scopes env := by
  refine ((List.forall₂_and_left _ _).2 ⟨fun _ hs => hs, h⟩).imp
    fun scope values ⟨hs, hvalues⟩ => ?_
  exact binds_scope_mono hvalues fun c hc => hu c (List.mem_flatten.2 ⟨scope, hs, hc⟩)

/-! Names. -/

theorem binds_find? (h : List.Forall₂ (P.Binds b) scope values) (name : String) :
    Option.Rel (P.Binds b) (scope.find? fun c => c.name == name)
      (values.find? fun d => d.1 == name) := by
  induction h with
  | nil => exact .none
  | @cons c d scope values hcd _ ih =>
    rw [List.find?_cons, List.find?_cons, hcd.1]
    cases d.1 == name with
    | true => exact .some hcd
    | false => exact ih

theorem binds_findSome? (h : List.Forall₂ (List.Forall₂ (P.Binds b)) scopes env) (name : String) :
    Option.Rel (fun c v => P.Usable c → b.Holds c.slot v)
      (scopes.findSome? fun scope => scope.find? fun c => c.name == name)
        (Locals.find? env name) := by
  induction h with
  | nil => exact .none
  | @cons scope values scopes env hvalues _ ih =>
    have hfind := binds_find? hvalues name
    rw [List.findSome?_cons, Locals.find?, List.findSome?_cons]
    generalize scope.find? _ = found, values.find? _ = found' at hfind
    cases hfind with
    | none => exact ih
    | some h => exact .some h.2

/-! A new value for a binding in scope. -/

/-- Other bindings keep their values. -/
theorem holds_of_ne (hl : c.slot < b.slots.size) {d : Binding} (hne : d.slot ≠ c.slot) {w : Value}
    (h : b.Holds d.slot w) : (b.withSlot c.slot (.live v)).Holds d.slot w := by
  rw [holds_withSlot_live hl, if_neg hne.symm]
  exact h

theorem binds_replace (h : List.Forall₂ (P.Binds b) scope values)
    (hd : (scope.map Binding.slot).Nodup) (hc : scope.find? (fun c => c.name == name) = some c)
    (hl : c.slot < b.slots.size) :
    List.Forall₂ (P.Binds (b.withSlot c.slot (.live v))) scope
      (values.replaceF fun d => if d.1 == name then some (name, v) else none) := by
  induction h with
  | nil => cases hc
  | @cons c' d scope values hcd hrest ih =>
    obtain ⟨hne, hd⟩ := List.nodup_cons.1 hd
    rw [List.find?_cons] at hc
    rw [List.replaceF_cons, ← hcd.1]
    cases hname : c'.name == name with
    | true =>
      rw [hname] at hc
      cases hc
      refine .cons ⟨beq_iff_eq.1 hname, fun _ => ?_⟩
        (binds_scope_mono hrest fun e he hu => ⟨hu, fun w => ?_⟩)
      · rw [holds_withSlot_live hl, if_pos rfl]
      · exact holds_of_ne hl fun heq => hne (heq ▸ List.mem_map_of_mem he)
    | false =>
      rw [hname] at hc
      refine .cons ⟨hcd.1, fun hu => holds_of_ne hl (fun heq => hne ?_) (hcd.2 hu)⟩ (ih hd hc)
      exact heq ▸ List.mem_map_of_mem (List.mem_of_find?_eq_some hc)

theorem binds_assign (h : List.Forall₂ (List.Forall₂ (P.Binds b)) scopes env)
    (hd : (scopes.flatten.map Binding.slot).Nodup)
    (hc : (scopes.findSome? fun scope => scope.find? fun c => c.name == name) = some c)
    (hl : c.slot < b.slots.size) :
    List.Forall₂ (List.Forall₂ (P.Binds (b.withSlot c.slot (.live v)))) scopes
      (Locals.assign name v env) := by
  induction h with
  | nil => cases hc
  | @cons scope values scopes env hvalues hrest ih =>
    rw [List.flatten_cons, List.map_append, List.nodup_append] at hd
    obtain ⟨hscope, houter, hapart⟩ := hd
    have hfind := binds_find? hvalues name
    rw [List.findSome?_cons] at hc
    cases hfound : scope.find? (fun c => c.name == name) with
    | some c' =>
      rw [hfound] at hc hfind
      cases hc
      have hany : (values.any fun d => d.1 == name) = true := by
        cases hfind' : values.find? (fun d => d.1 == name) with
        | none =>
          rw [hfind'] at hfind
          cases hfind
        | some d =>
          have hname := List.find?_some (p := fun d : String × Value => d.1 == name) hfind'
          exact List.any_eq_true.2 ⟨d, List.mem_of_find?_eq_some hfind', hname⟩
      rw [Locals.assign, if_pos hany]
      refine .cons (binds_replace hvalues hscope hfound hl)
        (binds_mono hrest fun e he hu => ⟨hu, fun w => ?_⟩)
      refine holds_of_ne hl fun heq => hapart c.slot ?_ e.slot (List.mem_map_of_mem he) heq.symm
      exact List.mem_map_of_mem (List.mem_of_find?_eq_some hfound)
    | none =>
      rw [hfound] at hc hfind
      have hany : ¬ (values.any fun d => d.1 == name) = true := by
        generalize hfind' : values.find? (fun d => d.1 == name) = found at hfind
        cases hfind
        rw [List.any_eq_true]
        rintro ⟨d, hd, hname⟩
        exact List.find?_eq_none.1 hfind' d hd hname
      rw [Locals.assign, if_neg hany]
      refine .cons (binds_scope_mono hvalues fun e he hu => ⟨hu, fun w => ?_⟩) (ih houter hc)
      obtain ⟨scope', hs, hcs⟩ := List.exists_of_findSome?_eq_some hc
      refine holds_of_ne hl fun heq => hapart e.slot (List.mem_map_of_mem he) c.slot ?_ heq
      exact List.mem_map_of_mem (List.mem_flatten.2 ⟨scope', hs, List.mem_of_find?_eq_some hcs⟩)

end

namespace Models

variable {n : Nat} {P Q : Point} {b : Bindings} {env : Locals} {name : String} {span : Option Span}
  {c : Binding}

/-- A point that takes fewer bindings to be usable. -/
theorem weaken (h : Models n P b env) (hs : Q.scopes = P.scopes)
    (hu : ∀ c ∈ P.scopes.flatten, Q.Usable c → P.Usable c) : Models n Q b env where
  toMirrors := h.toMirrors.weaken hs hu
  values := hs ▸ binds_mono h.values fun c hc hQ => ⟨hu c hc hQ, fun _ hv => hv⟩

/-- A name that stands for a slot has a value, which the slot holds. -/
theorem find?_slot (h : Models n P b env) (hr : P.resolve? name = some (.slot c)) :
    ∃ v, env.find? name = some v ∧ (P.Usable c → b.Holds c.slot v) := by
  have hfind := binds_findSome? h.values name
  rw [Point.resolve?] at hr
  split at hr
  · rename_i c' hc
    cases hr
    rw [hc] at hfind
    generalize env.find? name = found at hfind
    cases hfind with
    | some h => exact ⟨_, rfl, h⟩
  · obtain ⟨i, -, hi⟩ := Option.map_eq_some_iff.1 hr
    cases hi

/-- A name that stands for a captured value has none in scope. -/
theorem find?_capture (h : Models n P b env) {i : Nat} (hr : P.resolve? name = some (.capture i)) :
    env.find? name = none ∧ (P.captures.findIdx? fun c => c == name) = some i := by
  have hfind := binds_findSome? h.values name
  rw [Point.resolve?] at hr
  split at hr
  · cases hr
  · rename_i hnone
    rw [hnone] at hfind
    obtain ⟨j, hj, heq⟩ := Option.map_eq_some_iff.1 hr
    cases heq
    generalize env.find? name = found at hfind ⊢
    cases hfind
    exact ⟨rfl, hj⟩

theorem opened (h : Models n P b env) :
    Models n P.opened { b with scopes := [] :: b.scopes } ([] :: env) where
  toMirrors := h.toMirrors.opened
  values := .cons .nil h.values

theorem declared (h : Models n P b env) (hP : P.Fine) (hn : P.slots < n) (name : String)
    (span : Option Span) (v : Value) :
    Models n (P.declare name span) (BindingM.declared b P.slots v) (env.declare name v) where
  toMirrors := h.toMirrors.declared hP hn v
  values := by
    have hsize : P.slots < b.slots.size := h.size ▸ hn
    have hvalues :
        List.Forall₂ (List.Forall₂ ((P.declare name span).Binds (BindingM.declared b P.slots v)))
        P.scopes env := by
      refine binds_mono h.values fun c hc hu => ⟨hu, fun w hw => ?_⟩
      exact holds_of_ne (c := ⟨name, P.slots, span, P.loops⟩) hsize (hP.below c hc).1.ne hw
    obtain ⟨scope, outer, hs⟩ := List.exists_cons_of_ne_nil hP.nonempty
    rw [hs] at hvalues
    rw [show (P.declare name span).scopes = (⟨name, P.slots, span, P.loops⟩ :: scope) :: outer by
      simp [Point.declare, hs]]
    cases hvalues with
    | cons hhead htail =>
      refine .cons (.cons ⟨rfl, fun _ => ?_⟩ hhead) htail
      exact (holds_withSlot_live hsize).2 (if_pos rfl ▸ rfl)

theorem withFreed {slot : Nat} (h : Models n P b env) (hl : b.Live slot) (span : Option Span) :
    Models n (P.withFreed ((slot, span) :: P.freed)) (b.withSlot slot .freed) env where
  toMirrors := h.toMirrors.withFreed hl
  values := by
    refine binds_mono h.values fun c _ hu => ?_
    rw [Point.Usable, Point.withFreed, List.lookup_cons] at hu
    split at hu
    · cases hu
    · rename_i hne
      exact ⟨hu, fun w hw => (holds_withSlot_dead rfl).2 ⟨(ne_of_beq_false hne).symm, hw⟩⟩

/-- The name and the slot of it have a new value. -/
theorem assigned (h : Models n P b env) (hP : P.Fine) (hr : P.resolve? name = some (.slot c))
    (hl : b.Live c.slot) (v : Value) :
    Models n P (b.withSlot c.slot (.live v)) (env.assign name v) where
  toMirrors := h.toMirrors.stored hl v
  values := by
    obtain ⟨w, hw⟩ := hl
    refine binds_assign h.values hP.distinct ?_ hw.lt_size
    rw [Point.resolve?] at hr
    split at hr
    · cases hr
      assumption
    · obtain ⟨i, -, hi⟩ := Option.map_eq_some_iff.1 hr
      cases hi

theorem closed (h : Models n P b env) (hP : P.scopes ≠ [])
    (hd : (P.scopes.flatten.map Binding.slot).Nodup) :
    Models n P.closed (BindingM.leftScope b) env.tail where
  toMirrors := h.toMirrors.closed hP hd
  values := by
    obtain ⟨scope, outer, hs⟩ := List.exists_cons_of_ne_nil hP
    have hvalues := h.values
    rw [hs] at hvalues
    cases hvalues with
    | cons _ htail =>
      rw [Point.closed, hs]
      refine binds_mono htail fun c hc hu => ⟨hu, fun w hw => ?_⟩
      rw [Holds, BindingM.leftScope, slots_releaseAll, if_neg]
      · exact hw
      · rintro ⟨hm, -⟩
        rw [h.scopes, hs] at hm
        rw [hs, List.flatten_cons, List.map_append] at hd
        exact (List.nodup_append.1 hd).2.2 _ hm _ (List.mem_map_of_mem hc) rfl

end Models

/-! ## Where a procedure starts -/

theorem BindingM.declare_error {i : Nat} {v : Value} {b b' : Bindings} {e : SlotError}
    (h : declare i v b = .error e b') (slot : Nat) : e ≠ .alreadyReleased slot := by
  rintro rfl
  rw [declare, bind_apply, slot_apply] at h
  cases hs : b.slots[i]? with
  | none =>
    rw [hs] at h
    cases h
  | some s =>
    rw [hs] at h
    cases hl : s.isLive with
    | true =>
      simp only [hl, if_true, bind_apply, throw_apply] at h
      cases h
    | false =>
      simp only [hl, Bool.false_eq_true, if_false, bind_apply, get_apply] at h
      cases hb : b.scopes with
      | nil =>
        simp only [hb, List.isEmpty_nil, if_true, bind_apply, throw_apply] at h
        cases h
      | cons scope outer =>
        simp only [hb, List.isEmpty_cons, Bool.false_eq_true, if_false, modify_apply] at h
        cases h

/-- Arguments that do not fit are no second release of a slot. -/
theorem BindingM.declareArgs_error {args : List Value} {first : Nat} {b b' : Bindings}
    {e : SlotError} (h : declareArgs first args b = .error e b')
    (slot : Nat) : e ≠ .alreadyReleased slot := by
  induction args generalizing first b with
  | nil => cases h
  | cons v rest ih =>
    rw [declareArgs, bind_apply] at h
    cases hd : declare first v b with
    | ok _ b₁ =>
      rw [hd] at h
      exact ih h
    | error e' b₁ =>
      rw [hd] at h
      cases h
      exact declare_error hd slot

/-- Parameters are declared one after the other, as arguments are. -/
theorem Models.declareArgs {n : Nat} {params : List TParam} {args : List Value} {P : Point}
    {b : Bindings} {env : Locals} (h : Models n P b env) (hP : P.Fine)
    (hargs : args.length = params.length)
    (hn : P.slots + params.length ≤ n) : ∃ b', BindingM.declareArgs P.slots args b = .ok () b' ∧
      Models n (params.foldl (fun P p => P.declare p.name p.span) P) b'
        (((params.map TParam.name).zip args).foldl (fun env d => env.declare d.1 d.2) env) := by
  induction params generalizing args P b env with
  | nil =>
    obtain rfl := List.length_eq_zero_iff.1 hargs
    exact ⟨b, rfl, h⟩
  | cons p rest ih =>
    obtain ⟨v, args, rfl⟩ := List.exists_cons_of_length_eq_add_one hargs
    rw [List.length_cons] at hn
    have hlt : P.slots < n := by omega
    have hdeclare : BindingM.declare P.slots v b = .ok () (BindingM.declared b P.slots v) := by
      rcases BindingM.declare_cases P.slots v b with ⟨-, -, hd⟩ | ⟨hnot, -⟩
      · exact hd
      · exact absurd ⟨h.vacant hP hlt, h.nonempty hP.nonempty⟩ hnot
    have hnext := h.declared hP hlt p.name p.span v
    obtain ⟨b', hb', h'⟩ := ih hnext (hP.extend (Point.extends_declare hP p.name p.span))
      (Nat.succ.inj hargs) (by simp only [Point.declare]; omega)
    refine ⟨b', ?_, h'⟩
    rw [BindingM.declareArgs, BindingM.bind_apply, hdeclare]
    exact hb'

theorem Locals.foldl_declare (ds scope : List (String × Value)) (outer : Locals) :
    ds.foldl (fun env d => Locals.declare env d.1 d.2) (scope :: outer) =
      (ds.reverse ++ scope) :: outer := by
  induction ds generalizing scope with
  | nil => rfl
  | cons d rest ih =>
    rw [List.foldl_cons, List.reverse_cons, List.append_assoc]
    exact ih _

/-- A procedure that is called with as many arguments as it has parameters is entered, and finds
each argument as the value of its parameter. -/
theorem Frame.models_enter {t : Tables} {g : FunctionCode} {q : Procedure}
    (hg : BodyAt t g q.body) (id : Nat) {args : List Value} (captured : List Value) (base : Nat)
    (box : Bool) (hargs : args.length = q.body.params.length) :
    ∃ b, Frame.enter id g args captured base box = .ok ⟨id, 0, b, captured, base, box⟩ ∧
      Models g.slotCount (.start q.body) b (Evaluator.parameters q args) := by
  obtain ⟨stop, -, hw⟩ := hg
  have hslots : q.body.params.length ≤ g.slotCount := by
    rw [hw.slots, ← Point.slots_start]
    exact (Point.extends_stmts (Point.fine_start _) _).slots
  let P₀ : Point := ⟨q.body.captures, [[]], [], 0, 0⟩
  let b₀ : Bindings := ⟨(Bindings.new g.slotCount).slots, [[]]⟩
  have hP₀ : P₀.Fine := ⟨List.cons_ne_nil _ _, nofun, nofun, List.nodup_nil⟩
  have h₀ : Models g.slotCount P₀ b₀ [[]] := by
    refine ⟨⟨Array.size_replicate, rfl, nofun, fun i hi => ?_⟩, .cons .nil .nil⟩
    exact absurd hi (Bindings.not_live_new _ i)
  obtain ⟨b, hb, h⟩ := h₀.declareArgs hP₀ hargs (by rw [Nat.zero_add]; exact hslots)
  rw [Locals.foldl_declare, List.append_nil] at h
  refine ⟨b, ?_, h⟩
  have hbind :
      (do BindingM.enterScope; BindingM.declareArgs 0 args : BindingM Unit) (.new g.slotCount) =
      .ok () b := by
    rw [BindingM.bind_apply, BindingM.enterScope_apply]
    exact hb
  unfold Frame.enter
  dsimp only
  rw [hbind]

theorem Frame.enter_error {id : Nat} {g : FunctionCode} {args captured : List Value} {base : Nat}
    {box : Bool} {e : SlotError} (h : Frame.enter id g args captured base box = .error e) :
    ∃ m, e.cause g = .malformed m := by
  unfold Frame.enter at h
  simp only [BindingM.bind_apply, BindingM.enterScope_apply] at h
  split at h
  · cases h
  · rename_i e' _ herr
    cases h
    cases e with
    | alreadyReleased slot => exact absurd rfl (BindingM.declareArgs_error herr slot)
    | _ => exact ⟨_, rfl⟩

end ScopedScript
