import ScopedScript.Proofs.Typing.Identities
import ScopedScript.Proofs.Typing.Looped

/-!
# The order of items

Bodies are checked one after the other in one environment, after all names have been declared. What
is reported of a declaration depends on which struct names there are, and what is reported of a body
on the signatures, so a program with its items in another order is given the same errors, in another
order. Where two declarations share a name the first one counts, and the program is rejected in any
order.
-/

namespace ScopedScript

/-! ## Bodies -/

/-- The environment in which nothing but the names of the program is known. -/
def Globals.env (g : Globals) : Env := ⟨g, [], #[], [], [], 0⟩

/-- No function is being checked, and nothing is known of identities yet to be given out. -/
structure Env.Resting (e : Env) : Prop where
  contexts : e.contexts = []
  init : ∀ id, e.nextId ≤ id → e.init.lookup id = none
  narrowed : ∀ id, e.nextId ≤ id → e.narrowed.lookup id = none

theorem Globals.resting_env (g : Globals) : g.env.Resting := ⟨rfl, fun _ _ => rfl, fun _ _ => rfl⟩

namespace Env

variable {g : Globals} {e e' : Env} {n k : Nat} {log : Array TypeError}

/-- Environments between two bodies differ in their identities only. -/
theorem Resting.moved (h : e.Resting) (hg : g.Agree e.globals) :
    g.env.Moved g e.nextId e.errors 0 0 e where
  globals := rfl
  agree := hg
  contexts := h.contexts
  depth := rfl
  issued := nofun
  errors := (Array.append_empty).symm
  init := ⟨fun _ => h.init _ (Nat.le_add_right _ _), fun _ _ => rfl⟩
  narrowed := ⟨fun _ => h.narrowed _ (Nat.le_add_right _ _), fun _ _ => rfl⟩
  next := rfl
  next' := rfl

theorem Moved.resting (h : e.Moved g n log k 0 e') : e'.Resting where
  contexts := by rw [h.contexts, List.length_eq_zero_iff.1 h.depth, List.map_nil]
  init := fun id hid => by
    obtain ⟨j, rfl⟩ := Nat.exists_eq_add_of_le (h.next' ▸ hid)
    rw [Nat.add_assoc, h.init.1, h.init.2 _ (Nat.le_add_right _ _)]
  narrowed := fun id hid => by
    obtain ⟨j, rfl⟩ := Nat.exists_eq_add_of_le (h.next' ▸ hid)
    rw [Nat.add_assoc, h.narrowed.1, h.narrowed.2 _ (Nat.le_add_right _ _)]

end Env

namespace Check

/-- What is reported where these names are known. -/
def errorsIn (g : Globals) (x : Check α) : List TypeError := (x g.env).2.errors.toList

/-- What a computation reports between two bodies depends on the names of the program. -/
theorem Anywhere.reports {g : Globals} {x : Check α} {e : Env} (hx : ∀ n log, Anywhere g n log x)
    (he : e.Resting) (hg : g.Agree e.globals) :
    (x e).2.errors.toList = e.errors.toList ++ errorsIn g x ∧ (x e).2.Resting ∧
    g.Agree (x e).2.globals := by
  obtain ⟨m, -, -, h⟩ := hx e.nextId e.errors 0 0 g.env e (he.moved hg)
  refine ⟨?_, h.resting, h.agree⟩
  rw [h.errors, Array.toList_append, errorsIn]

theorem errorsIn_agree {g g' : Globals} {x : Check α} (hx : ∀ n log, Anywhere g n log x)
    (hg : g.Agree g') : errorsIn g' x = errorsIn g x := (Anywhere.reports hx g'.resting_env hg).1

theorem reports_mapM {g : Globals} {f : α → Check β} (hf : ∀ a n log, Anywhere g n log (f a))
    (as : List α) {e : Env} (he : e.Resting) (hg : g.Agree e.globals) :
    (as.mapM f e).2.errors.toList = e.errors.toList ++ as.flatMap fun a => errorsIn g (f a) := by
  induction as generalizing e with
  | nil => exact (List.append_nil _).symm
  | cons a rest ih =>
    obtain ⟨herr, hrest, hagree⟩ := Anywhere.reports (hf a) he hg
    rw [List.mapM_cons]
    change (rest.mapM f (f a e).2).2.errors.toList = _
    rw [ih hrest hagree, herr, List.flatMap_cons, List.append_assoc]

/-! ## Declarations -/

/-- Whether a name is that of a struct. -/
def knows (e : Env) (name : String) : Bool := (e.globals.structs.lookup name).isSome

/-- A computation that reports errors, as told by the names of structs, and does nothing else. -/
def Tells (x : Check α) : Prop :=
  ∀ e e' : Env, knows e = knows e' → (x e).1 = (x e').1 ∧
    ∃ es, (x e).2 = { e with errors := e.errors ++ es } ∧
    (x e').2 = { e' with errors := e'.errors ++ es }

theorem Tells.pure (a : α) : Tells (Pure.pure a : Check α) := by
  refine fun e e' _ => ⟨rfl, #[], ?_, ?_⟩
  · rw [Array.append_empty]
    rfl
  · rw [Array.append_empty]
    rfl

theorem Tells.bind {x : Check α} {f : α → Check β} (hx : Tells x) (hf : ∀ a, Tells (f a)) :
    Tells (x >>= f) := by
  intro e e' h
  obtain ⟨ha, es, he, he'⟩ := hx e e' h
  have h₁ : knows (x e).2 = knows (x e').2 := by rw [he, he']; exact h
  obtain ⟨hb, fs, hf, hf'⟩ := hf (x e).1 (x e).2 (x e').2 h₁
  refine ⟨?_, es ++ fs, ?_, ?_⟩
  · change (f (x e).1 (x e).2).1 = (f (x e').1 (x e').2).1
    rw [hb, ha]
  · change (f (x e).1 (x e).2).2 = _
    rw [hf, he, Array.append_assoc]
  · change (f (x e').1 (x e').2).2 = _
    rw [← ha, hf', he', Array.append_assoc]

theorem tells_report (cause : TypeCause) (span : Option Span) : Tells (report cause span) :=
  fun _ _ _ => ⟨rfl, #[⟨cause, span⟩], rfl, rfl⟩

theorem Tells.reported {x : Check α} {cause : TypeCause} {span : Option Span} (hx : Tells x) :
    Tells (report cause span >>= fun _ => x) := (tells_report _ _).bind fun _ => hx

theorem Tells.reportedIf {c : Prop} [Decidable c] {x : Unit → Check α} {cause : TypeCause}
    {span : Option Span} (hx : ∀ a, Tells (x a)) :
    Tells (if c then report cause span >>= x else x ()) := by
  split
  · exact (tells_report _ _).bind hx
  · exact hx ()

/-- What depends on whether a name is known. -/
theorem Tells.known {f : Bool → Check β} (name : String) (hf : ∀ b, Tells (f b)) :
    Tells (structSig? name >>= fun sig => f sig.isNone) := by
  intro e e' h
  have hname : (e.globals.structs.lookup name).isNone =
      (e'.globals.structs.lookup name).isNone := by
    have hknows := congrFun h name
    rw [knows, knows] at hknows
    rw [← Option.not_isSome, ← Option.not_isSome, hknows]
  have hsame : (structSig? name >>= fun sig => f sig.isNone) e' =
      f (e.globals.structs.lookup name).isNone e' := by
    rw [hname]
    rfl
  rw [hsame]
  exact hf _ e e' h

mutual

theorem tells_checkTypeNames (span : Option Span) : (t : Ty) → Tells (checkTypeNames span t)
  | .struct name => by
    unfold checkTypeNames
    refine .known (f := fun b => if b then report (.unresolved .type name) span else Pure.pure ())
      name fun b => ?_
    cases b
    · exact .pure _
    · exact tells_report _ _
  | .function params ret =>
    (tells_checkTypeNamesList span params).bind fun _ => tells_checkTypeNames span ret
  | .nullable inner => tells_checkTypeNames span inner
  | .task inner => tells_checkTypeNames span inner
  | .int | .float | .bool | .string | .void | .any | .null => .pure _

theorem tells_checkTypeNamesList (span : Option Span) :
    (ts : List Ty) → Tells (checkTypeNamesList span ts)
  | [] => .pure _
  | t :: rest => (tells_checkTypeNames span t).bind fun _ => tells_checkTypeNamesList span rest

end

theorem tells_resolveType (t : TypeExpr) (span : Option Span) : Tells (resolveType t span) :=
  (tells_checkTypeNames span _).bind fun _ => .pure _

theorem tells_resolveSignature (d : FunctionDecl) : Tells (resolveSignature d) := by
  have hmap (params : List Param) : Tells (resolveParams d.span params) := by
    induction params with
    | nil => exact .pure _
    | cons p rest ih =>
      rw [resolveParams, List.mapM_cons]
      exact (tells_resolveType _ _).bind fun _ => ih.bind fun _ => .pure _
  refine (hmap d.params).bind fun params => Tells.bind ?_ fun ret => .pure _
  cases d.ret with
  | none => exact .pure _
  | some t => exact tells_resolveType t d.span

theorem tells_declareFields (d : StructDecl) (sig : StructSig) (fields : List FieldDecl) :
    Tells (declareFields d sig fields) := by
  induction fields generalizing sig with
  | nil => exact .pure _
  | cons field rest ih =>
    unfold declareFields
    dsimp only
    split
    · exact .reported (ih _)
    · exact (tells_resolveType _ _).bind fun _ => ih _

theorem tells_declareMethods (d : StructDecl) (sig : StructSig) (methods : List FunctionDecl) :
    Tells (declareMethods d sig methods) := by
  induction methods generalizing sig with
  | nil => exact .pure _
  | cons method rest ih =>
    have hrest : Tells (if (sig.methods.lookup method.name).isSome then
          reportInvalid (.duplicateMethod d.name method.name) method.span >>= fun _ =>
            declareMethods d sig rest
        else resolveSignature method >>= fun signature =>
          declareMethods d { sig with methods := sig.methods ++ [(method.name, signature)] }
              rest) := by
      split
      · exact .reported (ih _)
      · exact (tells_resolveSignature method).bind fun _ => ih _
    exact .reportedIf fun _ => hrest

/-- The signature of a struct. -/
def structSig (d : StructDecl) : Check StructSig := do
  let sig ← declareFields d ⟨[], []⟩ d.fields
  declareMethods d sig d.methods

theorem tells_structSig (d : StructDecl) : Tells (structSig d) :=
  (tells_declareFields d _ _).bind fun _ => tells_declareMethods d _ _

theorem Tells.run {x : Check α} {e : Env} {g : Globals} (hx : Tells x) (h : knows e = knows g.env) :
    x e = ((x g.env).1, { e with errors := e.errors ++ (errorsIn g x).toArray }) := by
  obtain ⟨ha, es, he, hg⟩ := hx e g.env h
  have hes : errorsIn g x = es.toList := by
    rw [errorsIn, hg]
    exact congrArg Array.toList (Array.empty_append)
  rw [hes, Array.toArray_toList, ← he, ← ha]
  rfl

/-! ## Tables -/

section

variable {key : α → String} {f : α → β} {as bs : List α}

/-- A declaration each gets an entry under its name. -/
def entries (key : α → String) (f : α → β) (as : List α) : List (String × β) :=
  (as.map fun a => (key a, f a)).reverse

theorem entries_cons (a : α) (as : List α) :
    entries key f (a :: as) = entries key f as ++ [(key a, f a)] := by
  rw [entries, List.map_cons, List.reverse_cons, entries]

theorem isSome_lookup_entries (name : String) :
    ((entries key f as).lookup name).isSome = decide (name ∈ as.map key) := by
  induction as with
  | nil => rfl
  | cons a rest ih =>
    rw [entries_cons, List.lookup_append, Option.isSome_or, ih, List.lookup_cons]
    cases hname : name == key a with
    | true => simp [beq_iff_eq.1 hname]
    | false => simp [ne_of_beq_false hname]

theorem lookup_perm {xs ys : List (String × α)} (h : xs.Perm ys) (hn : (xs.map Prod.fst).Nodup)
    (name : String) : ys.lookup name = xs.lookup name := by
  induction h with
  | nil => rfl
  | cons x _ ih =>
    obtain ⟨k, a⟩ := x
    rw [List.lookup_cons, List.lookup_cons, ih (List.nodup_cons.1 hn).2]
  | swap x y zs =>
    obtain ⟨k, a⟩ := x
    obtain ⟨l, b⟩ := y
    have hne : l ≠ k := fun h => (List.nodup_cons.1 hn).1 (by simp [h])
    rw [List.lookup_cons, List.lookup_cons, List.lookup_cons, List.lookup_cons]
    cases hk : name == k with
    | false => rfl
    | true => rw [beq_iff_eq.1 hk, beq_false_of_ne hne.symm]
  | trans h _ ih₁ ih₂ => rw [ih₂ ((h.map Prod.fst).nodup_iff.1 hn), ih₁ hn]

theorem lookup_entries_perm (h : as.Perm bs) (hn : (as.map key).Nodup) (name : String) :
    (entries key f bs).lookup name = (entries key f as).lookup name := by
  refine lookup_perm
    ((List.reverse_perm _).trans ((h.map _).trans (List.reverse_perm _).symm)) ?_ name
  rw [List.map_reverse, List.nodup_reverse, List.map_map]
  exact hn

end

section

variable {g : Globals} {e : Env}

theorem declareStructName_free {d : StructDecl} (h : e.globals.structs.lookup d.name = none) :
    (declareStructName d e).2 =
      { e with globals :=
        { e.globals with structs := (d.name, ⟨[], []⟩) :: e.globals.structs } } := by
  change ((if (e.globals.structs.lookup d.name).isSome then reportInvalid _ _ else modify _ :
    Check Unit) e).2 = _
  rw [h]
  rfl

theorem declareFunction_free {d : FunctionDecl} (hg : knows e = knows g.env)
    (h : e.globals.functions.lookup d.name = none) :
    (declareFunction d e).2 =
      { e with
        globals :=
          { e.globals with functions := (d.name, (resolveSignature d g.env).1) ::
            e.globals.functions }
        errors := e.errors ++ (errorsIn g (resolveSignature d)).toArray } := by
  have hrun := (tells_resolveSignature d).run hg
  change ((if (e.globals.functions.lookup d.name).isSome then reportInvalid _ _ else
    resolveSignature d >>= fun sig => modify _ : Check Unit) e).2 = _
  rw [h]
  change ({ (resolveSignature d e).2 with globals := { (resolveSignature d e).2.globals with
    functions := (d.name, (resolveSignature d e).1) :: (resolveSignature d e).2.globals.functions }
      } : Env) = _
  rw [hrun]

theorem declareStructNames_eq {structs : List StructDecl} (hn : (structs.map StructDecl.name).Nodup)
    (hfree : ∀ d ∈ structs, e.globals.structs.lookup d.name = none) :
    (structs.forM declareStructName e).2 =
      { e with globals := { e.globals with
          structs := entries StructDecl.name (fun _ => ⟨[], []⟩) structs ++
              e.globals.structs } } := by
  induction structs generalizing e with
  | nil => rfl
  | cons d rest ih =>
    obtain ⟨hd, hn⟩ := List.nodup_cons.1 hn
    change (rest.forM declareStructName (declareStructName d e).2).2 = _
    rw [declareStructName_free (hfree d List.mem_cons_self), ih hn, entries_cons, List.append_assoc]
    · rfl
    · intro d' hd'
      have hne : d'.name ≠ d.name := fun h => hd (h ▸ List.mem_map_of_mem hd')
      rw [List.lookup_cons, beq_false_of_ne hne]
      exact hfree d' (List.mem_cons_of_mem _ hd')

theorem declareStructs_eq {structs : List StructDecl} (hg : knows e = knows g.env)
    (hk : ∀ d ∈ structs, knows e d.name = true) :
    (structs.forM declareStruct e).2 =
      { e with
        globals := { e.globals with
          structs := entries StructDecl.name (fun d => (structSig d g.env).1) structs ++
            e.globals.structs }
        errors := e.errors ++ (structs.flatMap fun d => errorsIn g (structSig d)).toArray } := by
  induction structs generalizing e with
  | nil =>
    change e = { e with errors := e.errors ++ #[] }
    rw [Array.append_empty]
  | cons d rest ih =>
    let e₁ : Env :=
      { e with
        globals :=
          { e.globals with structs := (d.name, (structSig d g.env).1) :: e.globals.structs }
        errors := e.errors ++ (errorsIn g (structSig d)).toArray }
    have hstep : (declareStruct d e).2 = e₁ := by
      have hrun := (tells_structSig d).run hg
      change ({ (structSig d e).2 with globals := { (structSig d e).2.globals with
        structs := (d.name, (structSig d e).1) :: (structSig d e).2.globals.structs } } : Env) = e₁
      rw [hrun]
    -- the name that is given its signature was known before
    have hknown : knows e₁ = knows e := by
      funext name
      change (((d.name, _) :: e.globals.structs).lookup name).isSome = _
      rw [List.lookup_cons]
      cases hname : name == d.name with
      | false => rfl
      | true =>
        rw [beq_iff_eq.1 hname]
        exact (hk d List.mem_cons_self).symm
    change (rest.forM declareStruct (declareStruct d e).2).2 = _
    rw [hstep, ih (hknown.trans hg) fun d' hd' => hknown ▸ hk d' (List.mem_cons_of_mem _ hd')]
    simp [e₁, entries_cons]

theorem declareFunctions_eq {functions : List FunctionDecl} (hg : knows e = knows g.env)
    (hn : (functions.map FunctionDecl.name).Nodup)
    (hfree : ∀ d ∈ functions, e.globals.functions.lookup d.name = none) :
    (functions.forM declareFunction e).2 =
      { e with
        globals := { e.globals with
          functions :=
            entries FunctionDecl.name (fun d => (resolveSignature d g.env).1) functions ++
            e.globals.functions }
        errors :=
          e.errors ++ (functions.flatMap fun d => errorsIn g (resolveSignature d)).toArray } := by
  induction functions generalizing e with
  | nil =>
    change e = { e with errors := e.errors ++ #[] }
    rw [Array.append_empty]
  | cons d rest ih =>
    obtain ⟨hd, hn⟩ := List.nodup_cons.1 hn
    change (rest.forM declareFunction (declareFunction d e).2).2 = _
    rw [declareFunction_free hg (hfree d List.mem_cons_self), ih (by exact hg) hn]
    · simp [entries_cons]
    · intro d' hd'
      have hne : d'.name ≠ d.name := fun h => hd (h ▸ List.mem_map_of_mem hd')
      change ((d.name, _) :: e.globals.functions).lookup d'.name = none
      rw [List.lookup_cons, beq_false_of_ne hne]
      exact hfree d' (List.mem_cons_of_mem _ hd')

end

/-! ## Names that are taken -/

/-- Declarations that are all accepted, each of which needs its name to be free, have distinct
names. -/
theorem nodup_of_declared {f : α → Check PUnit} {key : α → String} {t : Env → List (String × β)}
    (hsteady : ∀ a, Steady (f a) fun _ _ => True)
    (hf : ∀ a e, (f a e).2.errors = #[] →
      (t e).lookup (key a) = none ∧ ∃ b, t (f a e).2 = (key a, b) :: t e)
    (as : List α) {e : Env} (he : (as.forM f e).2.errors = #[]) :
    (as.map key).Nodup ∧ ∀ a ∈ as, (t e).lookup (key a) = none := by
  induction as generalizing e with
  | nil => exact ⟨List.nodup_nil, nofun⟩
  | cons a rest ih =>
    have hrest : (rest.forM f (f a e).2).2.errors = #[] := he
    obtain ⟨hfree, b, hb⟩ := hf a e (steady_forM hsteady rest _ hrest).1
    obtain ⟨hn, hfrees⟩ := ih hrest
    have hlater (a' : α) (ha' : a' ∈ rest) : key a' ≠ key a ∧ (t e).lookup (key a') = none := by
      have h := hfrees a' ha'
      rw [hb, List.lookup_cons] at h
      cases hk : key a' == key a with
      | true => simp [hk] at h
      | false => exact ⟨ne_of_beq_false hk, by simpa [hk] using h⟩
    refine ⟨List.nodup_cons.2 ⟨fun h => ?_, hn⟩,
      List.forall_mem_cons.2 ⟨hfree, fun a' ha' => (hlater a' ha').2⟩⟩
    obtain ⟨a', ha', heq⟩ := List.mem_map.1 h
    exact (hlater a' ha').1 heq

theorem free_of_declaredStructName (d : StructDecl) (e : Env)
    (h : (declareStructName d e).2.errors = #[]) : e.globals.structs.lookup d.name = none ∧
      ∃ sig, (declareStructName d e).2.globals.structs = (d.name, sig) :: e.globals.structs := by
  cases hfree : e.globals.structs.lookup d.name with
  | none => exact ⟨rfl, _, by rw [declareStructName_free hfree]⟩
  | some sig =>
    change ((if (e.globals.structs.lookup d.name).isSome then reportInvalid _ _ else modify _ :
      Check Unit) e).2.errors = #[] at h
    rw [hfree] at h
    exact absurd h Array.push_ne_empty

theorem free_of_declaredFunction (d : FunctionDecl) (e : Env)
    (h : (declareFunction d e).2.errors = #[]) : e.globals.functions.lookup d.name = none ∧
      ∃ sig, (declareFunction d e).2.globals.functions = (d.name, sig) :: e.globals.functions := by
  cases hfree : e.globals.functions.lookup d.name with
  | none => exact ⟨rfl, _, by rw [declareFunction_free (g := e.globals) (e := e) rfl hfree]⟩
  | some sig =>
    change ((if (e.globals.functions.lookup d.name).isSome then reportInvalid _ _ else
      resolveSignature d >>= fun sig => modify _ : Check Unit) e).2.errors = #[] at h
    rw [hfree] at h
    exact absurd h Array.push_ne_empty

end Check

/-! ## Programs -/

namespace Program

open Check

variable {p q : Program} {natives : List (String × Signature)} {g : Globals}

/-- No two structs and no two functions of the program have the same name. -/
structure DistinctNames (p : Program) : Prop where
  structs : (p.structs.map StructDecl.name).Nodup
  functions : (p.functions.map FunctionDecl.name).Nodup

/-- What is reported of a program: nothing when it is accepted. -/
def errors (p : Program) (natives : List (String × Signature)) : List TypeError :=
  match p.check natives with
  | .ok _ => []
  | .error errors => errors.toList

/-- What is known before the first signature. -/
def named (p : Program) (natives : List (String × Signature)) : Globals :=
  ⟨entries StructDecl.name (fun _ => ⟨[], []⟩) p.structs, [], natives⟩

/-- What is known before the first body, with signatures that were read where `g` was known. -/
def declared (p : Program) (natives : List (String × Signature)) (g : Globals) : Globals where
  structs := entries StructDecl.name (fun d => (structSig d g.env).1) p.structs ++
    (p.named natives).structs
  functions := entries FunctionDecl.name (fun d => (resolveSignature d g.env).1) p.functions
  natives := natives

theorem knows_named (p : Program) (natives : List (String × Signature)) (name : String) :
    knows (p.named natives).env name = decide (name ∈ p.structs.map StructDecl.name) :=
  isSome_lookup_entries name

theorem knows_declared (p : Program) (natives : List (String × Signature)) (g : Globals) :
    knows (p.declared natives g).env = knows (p.named natives).env := by
  funext name
  rw [knows_named]
  change ((entries _ _ p.structs ++ (p.named natives).structs).lookup name).isSome = _
  rw [List.lookup_append, Option.isSome_or, isSome_lookup_entries]
  exact (congrArg _ (knows_named p natives name)).trans (Bool.or_self _)

theorem declareItems_eq (h : p.DistinctNames) (hg : knows (p.named natives).env = knows g.env) :
    (declareItems p (.ofNatives natives)).2 = { (p.declared natives g).env with
      errors := ((p.structs.flatMap fun d => errorsIn g (structSig d)) ++
        p.functions.flatMap fun d => errorsIn g (resolveSignature d)).toArray } := by
  change (p.functions.forM declareFunction (p.structs.forM declareStruct
    (p.structs.forM declareStructName (.ofNatives natives)).2).2).2 = _
  have hnames : (p.structs.forM declareStructName (.ofNatives natives)).2 =
      (p.named natives).env := by
    rw [declareStructNames_eq h.structs fun _ _ => rfl]
    simp [Env.ofNatives, Globals.env, named]
  have hknown (d : StructDecl) (hd : d ∈ p.structs) :
      knows (p.named natives).env d.name = true := by
    rw [knows_named]
    exact decide_eq_true (List.mem_map_of_mem hd)
  rw [hnames, declareStructs_eq hg hknown,
    declareFunctions_eq (g := g) _ h.functions fun _ _ => rfl]
  · simp [declared, Globals.env, named]
  · exact (knows_declared p natives g).trans hg

theorem structInfos_env (structs : List StructDecl) (e : Env) :
    (structs.mapM structInfo? e).2 = e := by
  induction structs with
  | nil => rfl
  | cons d rest ih =>
    have hstep : (structInfo? d e).2 = e := by
      have hread (k : Option StructSig → Check (Option StructInfo)) :
          (structSig? d.name >>= k) e = k (e.globals.structs.lookup d.name) e := rfl
      rw [structInfo?, hread]
      cases e.globals.structs.lookup d.name <;> rfl
    rw [List.mapM_cons]
    change (rest.mapM structInfo? (structInfo? d e).2).2 = e
    rw [hstep, ih]

/-- The errors of a program with distinct names are those of its declarations and its bodies. -/
theorem checkItems_errors (h : p.DistinctNames) (hg : knows (p.named natives).env = knows g.env) :
    (checkItems p (.ofNatives natives)).2.errors.toList =
      (p.structs.flatMap fun d => errorsIn g (structSig d)) ++
        (p.functions.flatMap fun d => errorsIn g (resolveSignature d)) ++
        p.items.flatMap fun item => errorsIn (p.declared natives g) (checkItem item) := by
  change (p.items.mapM checkItem
    (p.structs.mapM structInfo? (declareItems p (.ofNatives natives)).2).2).2.errors.toList = _
  rw [structInfos_env, declareItems_eq h hg]
  exact reports_mapM (fun item n log => anywhere_checkItem item) p.items
    { contexts := rfl, init := fun _ _ => rfl, narrowed := fun _ _ => rfl } (.refl _)

theorem errors_eq (p : Program) (natives : List (String × Signature)) :
    p.errors natives = (checkItems p (.ofNatives natives)).2.errors.toList := by
  let r := checkItems p (.ofNatives natives)
  change (match (if r.2.errors.isEmpty then Except.ok r.1 else .error r.2.errors :
      Except (Array TypeError) TProgram) with
    | .ok _ => []
    | .error errors => errors.toList) = r.2.errors.toList
  split
  · rename_i he
    split at he
    · rename_i h
      rw [Array.isEmpty_iff.1 h]
    · cases he
  · rename_i he
    split at he
    · cases he
    · rw [Except.error.inj he]

theorem accepted_iff (p : Program) (natives : List (String × Signature)) :
    (∃ t, p.check natives = .ok t) ↔ p.errors natives = [] := by
  rw [errors_eq, Array.toList_eq_nil_iff, ← Array.isEmpty_iff]
  let r := checkItems p (.ofNatives natives)
  change (∃ t, (if r.2.errors.isEmpty then Except.ok r.1 else .error r.2.errors :
    Except (Array TypeError) TProgram) = .ok t) ↔ r.2.errors.isEmpty = true
  split
  · rename_i h
    exact ⟨fun _ => h, fun _ => ⟨r.1, rfl⟩⟩
  · rename_i h
    exact ⟨fun ⟨_, ht⟩ => (nomatch ht), fun h' => absurd h' h⟩

/-- An accepted program has distinct names. -/
theorem distinct_of_accepted (h : p.errors natives = []) : p.DistinctNames := by
  rw [errors_eq, Array.toList_eq_nil_iff] at h
  have hinfos :
      (p.structs.mapM structInfo? (declareItems p (.ofNatives natives)).2).2.errors = #[] :=
    (steady_mapM steady_checkItem p.items _ h).1
  rw [structInfos_env] at hinfos
  have hfunctions : (p.functions.forM declareFunction (p.structs.forM declareStruct
      (p.structs.forM declareStructName (.ofNatives natives)).2).2).2.errors = #[] := hinfos
  have hstructs := (steady_forM steady_declareFunction _ _ hfunctions).1
  have hnames := (steady_forM steady_declareStruct _ _ hstructs).1
  exact
    { structs := (nodup_of_declared (t := fun e => e.globals.structs) steady_declareStructName
        free_of_declaredStructName _ hnames).1
      functions := (nodup_of_declared (t := fun e => e.globals.functions) steady_declareFunction
        free_of_declaredFunction _ hfunctions).1 }

theorem DistinctNames.perm (h : p.DistinctNames) (hpq : p.items.Perm q.items) :
    q.DistinctNames where
  structs := ((hpq.filterMap _).map _).nodup_iff.1 h.structs
  functions := ((hpq.filterMap _).map _).nodup_iff.1 h.functions

theorem errors_perm (h : p.DistinctNames) (hpq : p.items.Perm q.items)
    (natives : List (String × Signature)) : (p.errors natives).Perm (q.errors natives) := by
  have hstructs : p.structs.Perm q.structs := hpq.filterMap _
  have hfunctions : p.functions.Perm q.functions := hpq.filterMap _
  -- both programs know the same names when they read signatures
  have hnames : knows (q.named natives).env = knows (p.named natives).env := by
    funext name
    rw [knows_named, knows_named]
    exact decide_eq_decide.2 (hstructs.map _).mem_iff.symm
  have hagree : (p.declared natives (p.named natives)).Agree
      (q.declared natives (p.named natives)) := by
    refine ⟨fun name => ?_, lookup_entries_perm hfunctions h.functions, fun _ => rfl⟩
    change (entries _ _ q.structs ++ entries _ _ q.structs).lookup name =
      (entries _ _ p.structs ++ entries _ _ p.structs).lookup name
    rw [List.lookup_append, List.lookup_append, lookup_entries_perm hstructs h.structs,
      lookup_entries_perm hstructs h.structs]
  rw [errors_eq, errors_eq, checkItems_errors h rfl, checkItems_errors (h.perm hpq) hnames]
  refine ((hstructs.flatMap_right _).append (hfunctions.flatMap_right _)).append ?_
  refine hpq.flatMap fun item _ => ?_
  rw [errorsIn_agree (fun n log => anywhere_checkItem item) hagree]

/-- A program with its items in another order is accepted if it was before, and with distinct names
it has the same errors, each as often. -/
theorem check_reordered (p : Program) {items : List Item} (h : p.items.Perm items)
    (natives : List (String × Signature)) :
    ((∃ t, p.check natives = .ok t) ↔ ∃ t, ({ p with items } : Program).check natives = .ok t) ∧
      (p.DistinctNames → (p.errors natives).Perm
        (({ p with items } : Program).errors natives)) := by
  refine ⟨?_, fun hd => errors_perm hd h natives⟩
  rw [accepted_iff, accepted_iff]
  constructor <;> intro hacc
  · exact ((errors_perm (distinct_of_accepted hacc) h natives).symm.trans (hacc ▸ .refl _)).eq_nil
  · exact ((errors_perm (distinct_of_accepted hacc) h.symm natives).symm.trans
      (hacc ▸ .refl _)).eq_nil

/-- Two functions that use a name each that does not exist. -/
def strays : Program where
  items :=
    [.function ⟨"first", [], none, [.eval (.name "a" (some ⟨1, 2⟩)) none], false, none⟩,
      .function ⟨"second", [], none, [.eval (.name "b" (some ⟨3, 4⟩)) none], false, none⟩]
  source := none

theorem strays_reordered :
    ((∃ t, strays.check [] = .ok t) ↔
      ∃ t, ({ strays with items := strays.items.reverse } : Program).check [] = .ok t) ∧
      (strays.errors []).Perm
        (({ strays with items := strays.items.reverse } : Program).errors []) ∧
      (strays.errors []).map TypeError.span = [some ⟨1, 2⟩, some ⟨3, 4⟩] := by
  obtain ⟨hacc, herr⟩ := check_reordered strays (List.reverse_perm _).symm []
  exact ⟨hacc, herr ⟨by decide, by decide⟩, by decide +kernel⟩

end Program

end ScopedScript
