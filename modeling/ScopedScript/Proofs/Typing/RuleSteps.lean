import ScopedScript.Proofs.Compile.StructLayouts
import ScopedScript.Proofs.Typing.Contexts

/-!
# Steps of the checker and the typing rules

Each step of the checker that finds a type out, and reports nothing, gives the type of a rule.
-/

namespace ScopedScript

theorem StructSig.fields_of_field? {sig : StructSig} {name : String} {index : Nat} {ty : Ty}
    (h : sig.field? name = some (index, ty)) : sig.fields[index]? = some (name, ty) := by
  have hgo (fields : List (String × Ty)) (first : Nat)
      (h : StructSig.field?.go name fields first = some (index, ty)) :
      ∃ i, index = first + i ∧ fields[i]? = some (name, ty) := by
    induction fields generalizing first with
    | nil => cases h
    | cons field rest ih =>
      obtain ⟨n, t⟩ := field
      rw [StructSig.field?.go] at h
      split at h
      · rename_i hn
        cases h
        exact ⟨0, rfl, by rw [hn]; rfl⟩
      · obtain ⟨i, rfl, hi⟩ := ih (first + 1) h
        exact ⟨i + 1, by omega, hi⟩
  obtain ⟨i, rfl, hi⟩ := hgo sig.fields 0 h
  rwa [Nat.zero_add]

theorem Globals.Declared.field {loose : Prop} {g : Globals} (h : g.Declared loose)
    {struct name : String} {sig : StructSig} (hs : g.structs.lookup struct = some sig) {i : Nat}
    {ty : Ty} (hi : sig.fields[i]? = some (name, ty)) : ty.Declared loose :=
  h.fields struct sig hs (name, ty) (List.mem_of_getElem? hi)

theorem ArithOp.Typed.declared {loose : Prop} {op : ArithOp} {l r ty : Ty} (h : op.Typed l r ty) :
    ty.Declared loose := by
  cases h <;> exact ⟨trivial, .inr trivial⟩

theorem Ty.Allowed.either {loose : Prop} {l r : Ty} (hl : l.Allowed loose) (hr : r.Allowed loose)
    (h : l = .any ∨ r = .any) : loose := by
  rcases h with rfl | rfl
  · exact hl.of_any
  · exact hr.of_any

namespace Check

variable {loose : Prop} {N : Visible} {leaves : Ty → Prop}

/-- The expression has its type by the rules, and it is a type that it may have. -/
def Derives (loose : Prop) (leaves : Ty → Prop) (g : Globals) (Γ : Context) (e : TExpr) : Prop :=
  e.Typed g leaves Γ ∧ e.ty.Allowed loose

/-- The expression flows into a place of this type. -/
def FlowsInto (leaves : Ty → Prop) (t : Ty) (g : Globals) (Γ : Context) (e : TExpr) : Prop :=
  e.Typed g leaves Γ ∧ e.ty.Flows t

/-! ## Values flowing into places -/

theorem types_coerce (hl : loose → ∀ t, leaves t) (e : TExpr) (target : Ty) :
    Types loose N (coerce e target) fun g Γ e' => Derives loose leaves g Γ e → target.Collapsed →
      FlowsInto leaves target g Γ e' := by
  have hmade : Quiet (coerce e target) fun _ e' => e.ty.Allowed loose → target.Collapsed →
      Coerces e target e' := quiet_coerce_made e target
  refine (hmade.types reports_coerce).weaken ?_
  rintro g Γ e' - hmade ⟨he, hty⟩ ht
  cases hmade hty ht with
  | same h => exact ⟨he, h⟩
  | boxed h => exact ⟨⟨he, rfl⟩, .inl h.symm⟩
  | unboxed h => exact ⟨⟨he, h, hl (h ▸ hty).of_any target⟩, .refl _⟩

theorem types_asCondition (hl : loose → ∀ t, leaves t) {x : Check TExpr}
    (hx : Types loose N x (Derives loose leaves)) :
    Types loose N (asCondition x) fun g Γ e => e.Typed g leaves Γ ∧ e.ty = .bool :=
  hx.bind fun e => (types_coerce hl e .bool).weaken fun _ _ _ _ h _ he =>
    ⟨(h he trivial).1, Ty.flows_bool.1 (h he trivial).2⟩

/-! ## Operators -/

theorem quiet_arithType (op : ArithOp) (l r : Ty) (span : Option Span) :
    Quiet (arithType op l r span) fun _ ty =>
      op.Typed l r ty ∨ (l = .any ∨ r = .any) ∧ ty = .any := by
  unfold arithType
  split
  · exact .pure fun _ => .inr ⟨.inl rfl, rfl⟩
  · exact .pure fun _ => .inr ⟨.inr rfl, rfl⟩
  · exact .pure fun _ => .inl (.int op)
  · split
    · rename_i h
      obtain ⟨rfl, rfl, hs⟩ := h
      exact .pure fun _ => .inl (.float (by simpa using hs))
    · split
      · rename_i h
        obtain ⟨rfl, rfl, rfl⟩ := h
        exact .pure fun _ => .inl .concat
      · split
        · rename_i h
          obtain ⟨rfl, rfl, rfl⟩ := h
          exact .pure fun _ => .inl .copies
        · split
          · exact .failed
          · split <;> exact .failed

theorem any_of_orderable {l r : Ty} (h : orderable l r = true) :
    l = r ∧ (l = .int ∨ l = .float ∨ l = .string) ∨ l = .any ∨ r = .any := by
  cases l <;> cases r <;> simp [orderable] at h ⊢

theorem types_binaryType (hl : loose → ∀ t, leaves t) (op : BinaryOp) (l r : Ty)
    (span : Option Span) :
    Types loose N (binaryType op l r span) fun _ _ ty => l.Allowed loose → r.Allowed loose →
      op.Typed leaves l r ty ∧ ty.Allowed loose := by
  have hbool : Ty.bool.Allowed loose := ⟨.inr trivial, .inr trivial⟩
  have hquiet : Quiet (binaryType op l r span) fun _ ty => l.Allowed loose → r.Allowed loose →
      op.Typed leaves l r ty ∧ ty.Allowed loose := by
    unfold binaryType
    split
    · exact .reportedIf fun _ => .pure fun _ _ _ => ⟨rfl, hbool⟩
    · exact .reportedIf fun _ => .pure fun _ _ _ => ⟨rfl, hbool⟩
    · split
      · exact .failed
      · split
        · exact .failed
        · rename_i ho
          refine .pure fun _ hl' hr' => ⟨⟨rfl, ?_⟩, hbool⟩
          have ho : orderable l r = true := by simpa using ho
          exact (any_of_orderable ho).imp_right fun h => ⟨h, hl (hl'.either hr' h) _⟩
    · split
      · exact .failed
      · refine (quiet_arithType _ l r span).weaken fun _ ty h hl' hr' => ?_
        rcases h with h | ⟨h, rfl⟩
        · exact ⟨.inl h, h.declared.allowed⟩
        · have hloose := hl'.either hr' h
          exact ⟨.inr ⟨h, rfl, hl hloose _⟩, .inr trivial, .inl hloose⟩
  exact hquiet.types (reports_binaryType op l r span)

theorem types_negationType (t : Ty) (span : Option Span) :
    Types loose N (negationType t span) fun _ _ ty =>
      ty = t ∧ (ty = .int ∨ ty = .float ∨ ty = .any) := by
  have hquiet : Quiet (negationType t span) fun _ ty =>
      ty = t ∧ (ty = .int ∨ ty = .float ∨ ty = .any) := by
    unfold negationType
    split
    · exact .pure fun _ => ⟨rfl, .inl rfl⟩
    · exact .pure fun _ => ⟨rfl, .inr (.inl rfl)⟩
    · exact .pure fun _ => ⟨rfl, .inr (.inr rfl)⟩
    all_goals exact .failed
  exact hquiet.types (reports_negationType t span)

theorem types_castTo (hl : loose → ∀ t, leaves t) (value : TExpr) (target : Ty)
    (span : Option Span) :
    Types loose N (castTo value target span) fun g Γ e => Derives loose leaves g Γ value →
      Derives loose leaves g Γ e := by
  have hallowed (hp : isPrimitive target = true) : target.Allowed loose := by
    cases target <;> first | exact ⟨.inr trivial, .inr trivial⟩ | cases hp
  have hconvertible (hn : ¬(value.ty.isNullable && target != .string) = true)
      (hc : ¬(!convertible value.ty target) = true) (hv : value.ty.Allowed loose) :
      target = .string ∨ isPrimitive value.ty = true ∨ value.ty = .any ∧ leaves .any := by
    by_cases ht : target = .string
    · exact .inl ht
    · have hc : convertible value.ty target = true := by simpa using hc
      generalize value.ty = found at hc hv
      cases found with
      | int | float | bool | string => exact .inr (.inl rfl)
      | any => exact .inr (.inr ⟨rfl, hl hv.of_any _⟩)
      | _ => simp [convertible, ht] at hc
  have hquiet : Quiet (castTo value target span) fun _ e => isPrimitive target = true ∧
      e = .mk (.cast value) target span ∧ (value.ty.Allowed loose →
        target = .string ∨ isPrimitive value.ty = true ∨ value.ty = .any ∧ leaves .any) := by
    unfold castTo
    split
    · exact .failed
    · rename_i hp
      split
      · exact .failed
      · split
        · exact .failed
        · exact .pure fun _ => ⟨by simpa using hp, rfl, hconvertible ‹_› ‹_›⟩
  refine (hquiet.types (reports_castTo value target span)).weaken ?_
  rintro g Γ e - ⟨hp, rfl, h⟩ hv
  exact ⟨⟨hv.1, hp, h hv.2⟩, hallowed hp⟩

/-! ## Structs and tasks -/

theorem types_fieldType (hl : loose → ∀ t, leaves t) (object : TExpr) (field : String)
    (span span' : Option Span) : Types loose N (fieldType object.ty field span) fun g Γ r =>
      Derives loose leaves g Γ object →
      Derives loose leaves g Γ (.mk (.field object field r.1) r.2 span') := by
  have hquiet : Quiet (fieldType object.ty field span) fun g r =>
      (∃ name sig i, object.ty = .struct name ∧ g.structs.lookup name = some sig ∧
        sig.fields[i]? = some (field, r.2) ∧ r.1 = some i) ∨
        object.ty = .any ∧ r = (none, .any) := by
    unfold fieldType
    split
    · rename_i name hname
      refine (quiet_structSig? name).bind fun sig => ?_
      split
      · rename_i i ty hfield
        obtain ⟨s, rfl, hs⟩ := Option.bind_eq_some_iff.1 hfield
        exact .pure fun g hsig =>
          .inl ⟨name, s, i, hname, hsig.symm, StructSig.fields_of_field? hs, rfl⟩
      · exact .failed
    · rename_i hany
      exact .pure fun _ => .inr ⟨hany, rfl⟩
    all_goals exact .failed
  refine (hquiet.types (reports_fieldType object.ty field span)).weaken ?_
  rintro g Γ ⟨index, ty⟩ hg hr hobject
  rcases hr with ⟨name, sig, i, hname, hsig, hi, rfl⟩ | ⟨hany, he⟩
  · exact ⟨⟨hobject.1, name, sig, field, ty, hname, hsig, hi, rfl⟩, (hg.field hsig hi).allowed⟩
  · cases he
    have hloose : loose := (hany ▸ hobject.2).of_any
    exact ⟨⟨hobject.1, hany, rfl, hl hloose _⟩, .inr trivial, .inl hloose⟩

theorem types_awaitedType (t : Ty) (span : Option Span) :
    Types loose N (awaitedType t span) fun _ _ ty => t = .task ty := by
  have hquiet : Quiet (awaitedType t span) fun _ ty => t = .task ty := by
    unfold awaitedType
    split
    · exact .pure fun _ => rfl
    all_goals exact .failed
  exact hquiet.types (reports_awaitedType t span)

/-- The values that fill the slots of an initializer so far flow into their fields. -/
def SlotsFlow (leaves : Ty → Prop) (g : Globals) (Γ : Context) (slots : List (Option TExpr))
    (fields : List (String × Ty)) : Prop :=
  slots.length = fields.length ∧ ∀ (i : Nat) (e : TExpr) (f : String × Ty),
    slots[i]? = some (some e) → fields[i]? = some f → FlowsInto leaves f.2 g Γ e

theorem slotsFlow_replicate (g : Globals) (Γ : Context) (fields : List (String × Ty)) :
    SlotsFlow leaves g Γ (List.replicate fields.length none) fields := by
  refine ⟨List.length_replicate, fun i e f he => ?_⟩
  cases List.eq_of_mem_replicate (List.mem_of_getElem? he)

theorem SlotsFlow.set {g : Globals} {Γ : Context} {slots : List (Option TExpr)}
    {fields : List (String × Ty)} (h : SlotsFlow leaves g Γ slots fields) {i : Nat} {e : TExpr}
    {name : String} {ty : Ty} (hi : fields[i]? = some (name, ty)) (he : FlowsInto leaves ty g Γ e) :
    SlotsFlow leaves g Γ (slots.set i (some e)) fields := by
  refine ⟨by rw [List.length_set, h.1], fun j d f hd hf => ?_⟩
  rw [List.getElem?_set] at hd
  split at hd
  · rename_i hij
    subst hij
    split at hd
    · cases hd
      rw [hi] at hf
      cases hf
      exact he
    · cases hd
  · exact h.2 j d f hd hf

theorem types_initSlot (hl : loose → ∀ t, leaves t) (struct : String) (sig : StructSig)
    (field : String) (value : TExpr) (span : Option Span) (slots : List (Option TExpr)) :
    Types loose N (initSlot struct sig field value span slots) fun g Γ slots' =>
      g.structs.lookup struct = some sig → Derives loose leaves g Γ value →
        SlotsFlow leaves g Γ slots sig.fields → SlotsFlow leaves g Γ slots' sig.fields := by
  have hsame {q : Globals → Context → List (Option TExpr) → Prop} {cause : TypeCause} :
      Types loose N (report cause span >>= fun _ => Pure.pure slots) q :=
    Takes.reported (Takes.pure slots)
  unfold initSlot
  split
  · rename_i index ty hfield
    have hfield := StructSig.fields_of_field? hfield
    split
    · exact hsame
    · refine (types_coerce hl value ty).bind fun value' => .pure fun g Γ hg hc hs hv hslots => ?_
      exact hslots.set hfield (hc hv (hg.field hs hfield).1)
  · exact hsame

theorem types_fillSlots (struct : String) (span : Option Span) : (fields : List (String × Ty)) →
    (slots : List (Option TExpr)) → Types loose N (fillSlots struct span fields slots)
      fun g Γ values =>
      SlotsFlow leaves g Γ slots fields →
        ExprsTyped g leaves Γ values ∧ ExprsFlow values (fields.map Prod.snd)
  | (name, ty) :: fields, some value :: slots => by
    refine (types_fillSlots struct span fields slots).bind fun values => .pure fun g Γ hg h hs => ?_
    obtain ⟨hvalue, hflow⟩ := hs.2 0 value (name, ty) rfl rfl
    obtain ⟨hvalues, hflows⟩ := h ⟨Nat.succ.inj hs.1, fun i e f he hf => hs.2 (i + 1) e f he hf⟩
    exact ⟨⟨hvalue, hvalues⟩, .cons hflow hflows⟩
  | (_, _) :: fields, none :: slots =>
    .reported (q := fun _ _ _ => True)
      ((types_fillSlots struct span fields slots).after fun _ => .pure fun _ _ => trivial)
  | [], slots => .pure fun _ _ _ => ⟨trivial, .nil⟩
  | _ :: _, [] => .pure fun _ _ hs => by cases hs.1

/-! ## Calls -/

theorem types_checkArity (callee : String) (params : List Ty) (found : Nat) (span : Option Span) :
    Types loose N (checkArity callee params found span) fun _ _ _ => params.length = found := by
  have hquiet : Quiet (checkArity callee params found span) fun _ _ => params.length = found := by
    unfold checkArity
    split
    · exact .pure fun _ => ‹_›
    · exact quiet_report _ _
  exact hquiet.types (reports_checkArity callee params found span)

/-- What a call by name calls, with its signature. -/
inductive Signs (g : Globals) : Callee → Signature → Prop
  | function {name : String} {sig : Signature} (h : g.functions.lookup name = some sig) :
    Signs g (.function name) sig
  | native {name : String} {sig : Signature} (h : g.natives.lookup name = some sig) :
    Signs g (.native name) sig

theorem types_namedCallee? (callee : Expr) : Types loose N (namedCallee? callee) fun g _ c =>
    ∀ target name sig, c = some (target, name, sig) → Signs g target sig := by
  have hnone : Quiet (Pure.pure none) fun g (c : Option (Callee × String × Signature)) =>
      ∀ target name sig, c = some (target, name, sig) → Signs g target sig := .pure fun _ => nofun
  have hquiet : Quiet (namedCallee? callee) fun g c =>
      ∀ target name sig, c = some (target, name, sig) → Signs g target sig := by
    unfold namedCallee?
    split
    · rename_i name _
      refine quiet_reads.after fun v => ?_
      split
      · exact hnone
      · refine (quiet_functionSig? name).bind fun sig => ?_
        split
        · refine .pure fun g hsig _ _ _ hc => ?_
          cases hc
          exact .function hsig.symm
        · refine Quiet.weaken (?_ : Quiet _ _) fun _ _ h _ => h
          refine Quiet.bind (Q := fun g sig => sig = g.natives.lookup name)
            (fun env _ => ⟨⟨env.narrowed, rfl⟩, rfl⟩) fun sig => ?_
          split
          · refine .pure fun g hsig _ _ _ hc => ?_
            cases hc
            exact .native hsig.symm
          · exact hnone.weaken fun _ _ h _ => h
    · exact hnone
  exact hquiet.types (reports_namedCallee? callee)

theorem types_asyncSig? (name : String) : Types loose N (asyncSig? name) fun g _ sig =>
    ∀ s, sig = some s → g.functions.lookup name = some s ∧ s.isAsync = true := by
  have hnone : Quiet (Pure.pure none) fun g (sig : Option Signature) =>
      ∀ s, sig = some s → g.functions.lookup name = some s ∧ s.isAsync = true :=
        .pure fun _ => nofun
  have hquiet : Quiet (asyncSig? name) fun g sig =>
      ∀ s, sig = some s → g.functions.lookup name = some s ∧ s.isAsync = true := by
    refine quiet_reads.after fun v => ?_
    split
    · exact hnone
    · refine (quiet_functionSig? name).bind fun sig => ?_
      split
      · rename_i sig
        refine .pure fun g hsig s hs => ?_
        split at hs
        · cases hs
          exact ⟨hsig.symm, ‹_›⟩
        · cases hs
      · exact hnone.weaken fun _ _ h _ => h
  exact hquiet.types (reports_asyncSig? name)

/-! ## Types -/

theorem quiet_resolveType (t : TypeExpr) (span : Option Span) :
    Quiet (resolveType t span) fun _ ty => ty = .ofExpr t :=
  (reports_checkTypeNames span _).quiet.after fun _ => .pure fun _ => rfl

theorem types_resolveType (t : TypeExpr) (span : Option Span) :
    Types loose N (resolveType t span) fun _ _ ty => ty = .ofExpr t :=
  (quiet_resolveType t span).types (reports_resolveType t span)

theorem types_resolveReturn (t : Option TypeExpr) (span : Option Span) :
    Types loose N (resolveReturn t span) fun _ _ ty => ty = (t.map Ty.ofExpr).getD .void := by
  cases t with
  | none => exact .pure fun _ _ => rfl
  | some t => exact types_resolveType t span

theorem types_declaredType (name : String) (stated : Option Ty) (value : Option TExpr)
    (span : Option Span) : Types loose N (declaredType name stated value span) fun _ _ ty =>
      stated = some ty ∨ stated = none ∧ ∃ v, value = some v ∧ ty = v.ty ∧ ty ≠ .null := by
  have hquiet : Quiet (declaredType name stated value span) fun _ ty =>
      stated = some ty ∨ stated = none ∧ ∃ v, value = some v ∧ ty = v.ty ∧ ty ≠ .null := by
    unfold declaredType
    split
    · exact .pure fun _ => .inl rfl
    · rename_i v
      split
      · exact .failed
      · exact .failed
      · rename_i hnull _
        exact .pure fun _ => .inr ⟨rfl, v, rfl, rfl, hnull⟩
    · exact .failed
  exact hquiet.types (reports_declaredType name stated value span)

theorem types_fieldPath (span : Option Span) : (fields : List String) → (ty : Ty) →
    Types loose N (fieldPath ty span fields) fun g _ r => ty.Declared loose →
      PathTyped g ty r.1 r.2 ∧ r.2.Declared loose
  | [], _ => .pure fun _ _ h => ⟨rfl, h⟩
  | field :: rest, ty => by
    have hnone {cause : TypeCause} :
        Types loose N (report cause span >>= fun _ => Pure.pure ([], Ty.any))
        fun g _ r => ty.Declared loose → PathTyped g ty r.1 r.2 ∧ r.2.Declared loose :=
      Takes.reported (Takes.pure _)
    unfold fieldPath
    split
    · rename_i struct
      refine Types.bind ((quiet_structSig? struct).types reports_reads) fun sig => ?_
      split
      · rename_i index next hfield
        obtain ⟨s, rfl, hs⟩ := Option.bind_eq_some_iff.1 hfield
        have hs := StructSig.fields_of_field? hs
        refine (types_fieldPath span rest next).bind fun r => .pure fun g Γ hg h _ hsig _ => ?_
        obtain ⟨hpath, hlast⟩ := h (hg.field hsig.symm hs)
        exact ⟨⟨struct, s, field, next, rfl, hsig.symm, hs, hpath⟩, hlast⟩
      · exact Takes.reported (Takes.pure _)
    all_goals exact hnone

/-- A returned value flows into the type that the function returns. -/
theorem types_checkReturned (hl : loose → ∀ t, leaves t) (value : Option TExpr) (ret : Ty)
    (span : Option Span) : Types loose N (checkReturned value ret span) fun g Γ value' =>
      ret.Declared loose → (∀ v, value = some v → Derives loose leaves g Γ v) →
        (value = none → value' = none ∧ ret = .void) ∧
        ∀ v, value = some v → ∃ v', value' = some v' ∧ FlowsInto leaves ret g Γ v' := by
  unfold checkReturned
  split
  · rename_i v
    split
    · exact Takes.reported (Takes.pure _)
    · refine (types_coerce hl v ret).bind fun v' => .pure fun g Γ _ h hret hv =>
        ⟨fun h => (by cases h), fun w hw => ?_⟩
      cases hw
      exact ⟨v', rfl, h (hv v rfl) hret.1⟩
  · split
    · exact Takes.reported (Takes.pure _)
    · rename_i hret
      exact .pure fun _ _ _ _ => ⟨fun _ => ⟨rfl, by simpa using hret⟩, fun _ h => by cases h⟩

end Check

end ScopedScript
