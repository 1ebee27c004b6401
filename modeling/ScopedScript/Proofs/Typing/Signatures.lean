import ScopedScript.Proofs.Compile.Placement
import ScopedScript.Proofs.Typing.RuleSteps

/-!
# Signatures of accepted programs

What the checker knows of the names of a program when it comes to the first body: for each struct
and each function what its declaration states, and nothing else.
-/

namespace ScopedScript

def FunctionDecl.signature (d : FunctionDecl) : Signature :=
  ⟨d.params.map fun p => Ty.ofExpr p.type, (d.ret.map Ty.ofExpr).getD .void, d.isAsync⟩

def StructDecl.signature (d : StructDecl) : StructSig :=
  ⟨d.fields.map fun f => (f.name, Ty.ofExpr f.type), d.methods.map fun m => (m.name, m.signature)⟩

namespace Check

/-! ## Declarations -/

/-- Where an error is reported the checker goes on, but nothing comes of it. -/
theorem Quiet.rejected {x : Check α} {Q R : Globals → α → Prop} {cause : TypeCause}
    {span : Option Span} (hx : Quiet x Q) : Quiet (report cause span >>= fun _ => x) R :=
  (quiet_report (Q := fun _ _ => False) _ _).bind fun _ => hx.weaken fun _ _ _ h => h.elim

theorem quiet_resolveParams (span : Option Span) (params : List Param) :
    Quiet (resolveParams span params) fun _ tys => tys = params.map fun p => Ty.ofExpr p.type := by
  unfold resolveParams
  induction params with
  | nil => exact .pure fun _ => rfl
  | cons p rest ih =>
    rw [List.mapM_cons]
    refine (quiet_resolveType p.type _).bind fun ty => ih.bind fun tys => .pure fun _ htys hty => ?_
    rw [hty, htys, List.map_cons]

theorem quiet_resolveReturn (t : Option TypeExpr) (span : Option Span) :
    Quiet (resolveReturn t span) fun _ ty => ty = (t.map Ty.ofExpr).getD .void := by
  cases t with
  | none => exact .pure fun _ => rfl
  | some t => exact quiet_resolveType t span

theorem quiet_signature (d : FunctionDecl) :
    Quiet (resolveSignature d) fun _ sig => sig = d.signature := by
  refine (quiet_resolveParams d.span d.params).bind fun params =>
    (quiet_resolveReturn d.ret d.span).bind fun ret => .pure fun _ hret hparams => ?_
  rw [hparams, hret, FunctionDecl.signature]

/-- Fields that are all declared come after those before them. -/
theorem quiet_fields (d : StructDecl) (sig : StructSig) (fields : List FieldDecl) :
    Quiet (declareFields d sig fields) fun _ sig' =>
      sig' = { sig with fields := sig.fields ++ fields.map fun f =>
        (f.name, Ty.ofExpr f.type) } := by
  induction fields generalizing sig with
  | nil => exact .pure fun _ => by rw [List.map_nil, List.append_nil]
  | cons field rest ih =>
    unfold declareFields
    dsimp only
    split
    · exact .rejected (ih sig)
    · refine (quiet_resolveType field.type _).bind fun ty => (ih _).weaken fun _ _ h hty => ?_
      rw [h, hty, List.map_cons, List.append_assoc, List.singleton_append]

theorem quiet_methods (d : StructDecl) (sig : StructSig) (methods : List FunctionDecl) :
    Quiet (declareMethods d sig methods) fun _ sig' =>
      sig' = { sig with methods := sig.methods ++ methods.map fun m => (m.name, m.signature) } := by
  induction methods generalizing sig with
  | nil => exact .pure fun _ => by rw [List.map_nil, List.append_nil]
  | cons m rest ih =>
    unfold declareMethods
    refine .reportedIf fun _ => ?_
    split
    · exact .rejected (ih sig)
    · refine (quiet_signature m).bind fun s => (ih _).weaken fun _ _ h hs => ?_
      rw [h, hs, List.map_cons, List.append_assoc, List.singleton_append]

theorem quiet_structSignature (d : StructDecl) :
    Quiet (structSig d) fun _ sig => sig = d.signature := by
  refine (quiet_fields d ⟨[], []⟩ d.fields).bind fun sig =>
    (quiet_methods d sig d.methods).weaken fun _ _ h hsig => ?_
  rw [h, hsig, StructDecl.signature, List.nil_append, List.nil_append]

theorem entries_congr {key : α → String} {f f' : α → β} {as : List α} (h : ∀ a ∈ as, f a = f' a) :
    entries key f as = entries key f' as := by
  rw [entries, entries, List.map_congr_left fun a ha => by rw [h a ha]]

/-- Where the names are distinct each has the entry of its own. -/
theorem lookup_pairs {key : α → String} {f : α → β} {as : List α} (hn : (as.map key).Nodup)
    {name : String} {b : β} :
    (as.map fun a => (key a, f a)).lookup name = some b ↔ ∃ a ∈ as, key a = name ∧ f a = b := by
  induction as with
  | nil => simp
  | cons a rest ih =>
    obtain ⟨ha, hn⟩ := List.nodup_cons.1 hn
    rw [List.map_cons, List.lookup_cons]
    by_cases hk : name = key a
    · rw [hk, beq_self_eq_true]
      constructor
      · exact fun hb => ⟨a, List.mem_cons_self, rfl, Option.some.inj hb⟩
      · rintro ⟨a', ha', hk', rfl⟩
        rcases List.mem_cons.1 ha' with rfl | ha'
        · rfl
        · exact absurd (List.mem_map.2 ⟨a', ha', hk'⟩) ha
    · rw [beq_false_of_ne hk]
      refine (ih hn).trans ⟨fun ⟨a', ha', h⟩ => ⟨a', List.mem_cons_of_mem _ ha', h⟩,
        fun ⟨a', ha', hk', h⟩ => ?_⟩
      exact ⟨a', (List.mem_cons.1 ha').resolve_left fun he => hk (he ▸ hk'.symm), hk', h⟩

theorem lookup_entries {key : α → String} {f : α → β} {as : List α} (hn : (as.map key).Nodup)
    {name : String}
    {b : β} : (entries key f as).lookup name = some b ↔ ∃ a ∈ as, key a = name ∧ f a = b := by
  rw [← lookup_pairs hn]
  refine Eq.congr_left (lookup_perm (List.reverse_perm _).symm ?_ name)
  rwa [List.map_map]

end Check

/-! ## Programs -/

namespace Program

open Check

variable {p : Program} {natives : List (String × Signature)} {t : TProgram}

theorem natives_globals (h : p.check natives = .ok t) : (p.globals natives).natives = natives := by
  have hdistinct := distinct_of_accepted ((accepted_iff p natives).1 ⟨t, h⟩)
  rw [globals, declareItems_eq (g := p.named natives) hdistinct rfl]
  rfl

/-- A function is known by what its declaration states. -/
theorem lookup_function (h : p.check natives = .ok t) {name : String} {sig : Signature} :
    (p.globals natives).functions.lookup name = some sig ↔
    ∃ d ∈ p.functions, d.name = name ∧ d.signature = sig := by
  have hdistinct := distinct_of_accepted ((accepted_iff p natives).1 ⟨t, h⟩)
  have hdeclared := check_declared h
  rw [declareItems_eq (g := p.named natives) hdistinct rfl] at hdeclared
  have herrors := (List.append_eq_nil_iff.1 (congrArg Array.toList hdeclared)).2
  have hknown : (p.globals natives).functions =
      entries FunctionDecl.name FunctionDecl.signature p.functions := by
    rw [globals, declareItems_eq (g := p.named natives) hdistinct rfl]
    refine entries_congr fun d hd => (quiet_signature d _ ?_).2
    exact Array.toList_eq_nil_iff.1 (List.flatMap_eq_nil_iff.1 herrors d hd)
  rw [hknown, lookup_entries hdistinct.functions]

theorem lookup_struct (h : p.check natives = .ok t) {name : String} {sig : StructSig} :
    (p.globals natives).structs.lookup name = some sig ↔
    ∃ d ∈ p.structs, d.name = name ∧ d.signature = sig := by
  have hdistinct := distinct_of_accepted ((accepted_iff p natives).1 ⟨t, h⟩)
  have hdeclared := check_declared h
  rw [declareItems_eq (g := p.named natives) hdistinct rfl] at hdeclared
  have herrors := (List.append_eq_nil_iff.1 (congrArg Array.toList hdeclared)).1
  have hknown : (p.globals natives).structs =
      entries StructDecl.name StructDecl.signature p.structs ++ (p.named natives).structs := by
    rw [globals, declareItems_eq (g := p.named natives) hdistinct rfl]
    refine congrArg (· ++ _) (entries_congr fun d hd => (quiet_structSignature d _ ?_).2)
    exact Array.toList_eq_nil_iff.1 (List.flatMap_eq_nil_iff.1 herrors d hd)
  rw [hknown, List.lookup_append]
  -- each struct that is known by its name alone has been declared
  cases hl : (entries StructDecl.name StructDecl.signature p.structs).lookup name with
  | some sig' => rw [Option.some_or, ← hl, lookup_entries hdistinct.structs]
  | none =>
    have hnone : (p.named natives).structs.lookup name = none := by
      rw [← Option.not_isSome_iff_eq_none, named, isSome_lookup_entries,
        ← isSome_lookup_entries, hl]
      exact Bool.false_ne_true
    rw [hnone, Option.none_or, ← lookup_entries hdistinct.structs, hl]

end Program

end ScopedScript
