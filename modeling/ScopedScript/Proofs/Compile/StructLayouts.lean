import ScopedScript.Proofs.Compile.Modes
import ScopedScript.Proofs.Typing.ItemOrder
import ScopedScript.Proofs.Typing.Receivers

/-!
# Struct layouts

The checker knows a struct by its declaration and gives its fields an index each; the machine knows
it by the layout that stands at its number in the module. Both read the same fields, and where a
method is looked up in the layout the function is found that the name of the method stands for.
-/

namespace ScopedScript

/-! ## Lookups -/

theorem StructSig.field?_go (name : String) (fields : List (String × Ty)) (first : Nat) :
    (StructSig.field?.go name fields first).map Prod.fst =
      ((fields.map Prod.fst).findIdx? fun n => n == name).map (first + ·) := by
  induction fields generalizing first with
  | nil => rfl
  | cons field rest ih =>
    obtain ⟨n, ty⟩ := field
    rw [StructSig.field?.go, List.map_cons, List.findIdx?_cons]
    by_cases hn : n = name
    · simp [hn]
    · rw [if_neg hn, ih, if_neg (by simpa using hn), Option.map_map]
      congr 1
      funext i
      exact Nat.add_right_comm ..

/-- The index that the checker gives a field is its place among the names. -/
theorem StructSig.index_of_field? {sig : StructSig} {name : String} {index : Nat} {ty : Ty}
    (h : sig.field? name = some (index, ty)) :
    ((sig.fields.map Prod.fst).findIdx? fun n => n == name) = some index := by
  have hgo := StructSig.field?_go name sig.fields 0
  rw [← StructSig.field?, h] at hgo
  simpa using hgo.symm

theorem lookup_filterMap {f : String → Option α} {names : List String} {name : String} {a : α}
    (hname : name ∈ names) (ha : f name = some a) :
    (names.filterMap fun n => (f n).map fun b => (n, b)).lookup name = some a := by
  induction names with
  | nil => cases hname
  | cons n rest ih =>
    by_cases hn : name = n
    · subst hn
      rw [List.filterMap_cons, ha]
      exact List.lookup_cons_self
    · have hrest := ih ((List.mem_cons.1 hname).resolve_left hn)
      rw [List.filterMap_cons]
      cases f n with
      | none => exact hrest
      | some b =>
        change List.lookup name ((n, b) :: _) = some a
        rw [List.lookup_cons, beq_false_of_ne hn]
        exact hrest

/-! ## Structs of the checked program -/

/-- What is known of names when bodies are checked. -/
def Program.globals (p : Program) (natives : List (String × Signature)) : Globals :=
  (Check.declareItems p (.ofNatives natives)).2.globals

/-- What the checker passes on about a struct that it knows. -/
def Globals.structInfo? (g : Globals) (d : StructDecl) : Option StructInfo :=
  (g.structs.lookup d.name).map fun sig =>
    ⟨d.name, sig.fields, d.methods.map FunctionDecl.name, d.span⟩

theorem Check.structInfos_value (structs : List StructDecl) (e : Env) :
    (structs.mapM structInfo? e).1 = structs.map e.globals.structInfo? := by
  induction structs with
  | nil => rfl
  | cons d rest ih =>
    have hstep : (structInfo? d e).1 = e.globals.structInfo? d ∧ (structInfo? d e).2 = e := by
      have hread (k : Option StructSig → Check (Option StructInfo)) :
          (structSig? d.name >>= k) e = k (e.globals.structs.lookup d.name) e := rfl
      rw [structInfo?, hread, Globals.structInfo?]
      cases e.globals.structs.lookup d.name <;> exact ⟨rfl, rfl⟩
    rw [List.mapM_cons]
    change (structInfo? d e).1 :: (rest.mapM structInfo? (structInfo? d e).2).1 = _
    rw [hstep.1, hstep.2, ih, List.map_cons]

namespace Program

variable {p : Program} {natives : List (String × Signature)} {t : TProgram}

theorem check_structs (h : p.check natives = .ok t) :
    t.structs = p.structs.filterMap (p.globals natives).structInfo? := by
  rw [← (Program.check_ok h).1]
  change (p.structs.mapM Check.structInfo?
    (Check.declareItems p (.ofNatives natives)).2).1.filterMap id = _
  rw [Check.structInfos_value, List.filterMap_map]
  rfl

/-- A struct of the checked program is one that is declared, with the fields that it is known by. -/
theorem check_struct (h : p.check natives = .ok t) {s : StructInfo} (hs : s ∈ t.structs) :
    ∃ d ∈ p.structs, d.name = s.name ∧ d.methods.map FunctionDecl.name = s.methods ∧
      ∃ sig, (p.globals natives).structs.lookup s.name = some sig ∧ sig.fields = s.fields := by
  rw [check_structs h] at hs
  obtain ⟨d, hd, hinfo⟩ := List.mem_filterMap.1 hs
  obtain ⟨sig, hsig, rfl⟩ := Option.map_eq_some_iff.1 hinfo
  exact ⟨d, hd, rfl, rfl, sig, hsig, rfl⟩

theorem nodup_structs (h : p.check natives = .ok t) : (t.structs.map StructInfo.name).Nodup := by
  have hdistinct := (distinct_of_accepted ((accepted_iff p natives).1 ⟨t, h⟩)).structs
  rw [check_structs h, List.Nodup, List.pairwise_map, List.pairwise_filterMap]
  refine (List.pairwise_map.1 hdistinct).imp fun hne b hb b' hb' => ?_
  obtain ⟨_, -, rfl⟩ := Option.map_eq_some_iff.1 hb
  obtain ⟨_, -, rfl⟩ := Option.map_eq_some_iff.1 hb'
  exact hne

end Program

/-! ## The module -/

section

variable {program : Program} {natives : List (String × Signature)} {typed : TProgram} {m : Module}
  {s : StructInfo} {type : Nat}

/-- The layout of a struct stands at its number. -/
theorem TProgram.layout_at (hcompile : typed.compile = .ok m) (hs : typed.structs[type]? = some s) :
    m.structs[type]? = some (s.layout (.ofProgram typed)) := by
  obtain ⟨t, ht⟩ := typed.compile_ok hcompile
  rw [ht.structs, ← ht.ids, List.getElem?_toArray, List.getElem?_map, hs]
  rfl

/-- The layout has a field at the index that the checker gave it. -/
theorem TProgram.index_of_fieldType (hcheck : program.check natives = .ok typed)
    (hs : typed.structs[type]? = some s) {env : Env} (henv : env.globals = program.globals natives)
    {name : String} {span : Option Span} {index : Nat} {ty : Ty}
    (hty : (Check.fieldType (.struct s.name) name span env).1 = (some index, ty)) :
    (s.layout (.ofProgram typed)).fieldIndex? name = some index ∧ index < s.fields.length := by
  obtain ⟨d, hd, -, -, sig, hsig, hfields⟩ := Program.check_struct hcheck (List.mem_of_getElem? hs)
  have hfound : sig.field? name = some (index, ty) := by
    have hread (k : Option StructSig → Check (Option Nat × Ty)) :
        (Check.structSig? s.name >>= k) env = k (some sig) env := by
      rw [← hsig, ← henv]
      rfl
    rw [Check.fieldType, hread, Option.bind_some] at hty
    cases hfield : sig.field? name with
    | none =>
      rw [hfield] at hty
      cases hty
    | some found =>
      rw [hfield] at hty
      cases hty
      rfl
  have hindex := StructSig.index_of_field? hfound
  rw [hfields] at hindex
  exact ⟨hindex, by simpa using (List.findIdx?_eq_some_iff_getElem.1 hindex).1⟩

/-- A method that is looked up in the layout is the function of its name. It takes the receiver
first, and is not async. -/
theorem TProgram.method_at (hcheck : program.check natives = .ok typed)
    (hcompile : typed.compile = .ok m) (hnames : (typed.functions.map TFunction.name).Nodup)
    (hs : typed.structs[type]? = some s) {method : String} (hm : method ∈ s.methods) :
    ∃ id g tags, (Ids.ofProgram typed).functions.lookup (methodSymbol s.name method) = some id ∧
      (s.layout (.ofProgram typed)).method? method = some id ∧ m.functions[id]? = some g ∧
      g.paramTags = .struct type :: tags ∧ m.Sync id := by
  obtain ⟨t, ht⟩ := typed.compile_ok hcompile
  obtain ⟨d, hd, hname, hmethods, -⟩ := Program.check_struct hcheck (List.mem_of_getElem? hs)
  obtain ⟨decl, hdecl, rfl⟩ := List.mem_map.1 (hmethods ▸ hm)
  obtain ⟨f, hf, hfname, hself⟩ := Program.check_methods hcheck d hd decl hdecl
  rw [hname] at hfname hself
  -- the function of that name
  obtain ⟨id, hid⟩ : ∃ id, t.ids.functions.lookup (methodSymbol s.name decl.name) = some id := by
    rw [ht.ids, ← hfname]
    exact Option.isSome_iff_exists.1 (isSome_lookup_numbered (List.mem_map_of_mem hf))
  obtain ⟨f', hf', hf'name, g, hg, -, stop, -, hwraps⟩ := ht.named hnames hid
  obtain rfl := List.inj_on_of_nodup_map hnames hf' hf (hf'name.trans hfname.symm)
  refine ⟨id, g, (f'.params.tail.map fun p => t.ids.tagOf p.ty), ht.ids ▸ hid, ?_, hg, ?_, ?_⟩
  · rw [ht.ids] at hid
    exact lookup_filterMap
      (f := fun m => (Ids.ofProgram typed).functions.lookup (methodSymbol s.name m)) hm hid
  · have htag : t.ids.tagOf (.struct s.name) = .struct type := by
      have hat : (typed.structs.map StructInfo.name)[type]? = some s.name := by
        rw [List.getElem?_map, hs]
        rfl
      rw [ht.ids, Ids.tagOf, Ids.ofProgram, lookup_numbered (Program.nodup_structs hcheck) hat]
    obtain ⟨tail, hparams⟩ :
        ∃ tail, f'.params = ⟨"self", .struct s.name, false, decl.span⟩ :: tail := by
      cases hp : f'.params with
      | nil =>
        rw [hp] at hself
        cases hself
      | cons first tail =>
        rw [hp] at hself
        exact ⟨tail, by rw [Option.some.inj hself]⟩
    rw [hwraps.tags]
    change f'.params.map _ = _
    rw [hparams, List.map_cons, htag]
    rfl
  · intro g' hg'
    rw [hg] at hg'
    cases hg'
    refine hwraps.isAsync.trans (Program.check_sync_method hcheck hnames hd hdecl f' hf' ?_)
    rw [Callee.symbol?, hname, hfname]

/-- A function has a tag for each parameter. -/
theorem TProgram.length_paramTags (hcompile : typed.compile = .ok m) {id : Nat} {g : FunctionCode}
    (hg : m.functions[id]? = some g) : g.paramTags.length = g.arity := by
  obtain ⟨t, ht⟩ := typed.compile_ok hcompile
  obtain ⟨body, -, stop, -, hwraps⟩ := ht.body_of_function hg
  rw [hwraps.tags, hwraps.arity, List.length_map]

end

end ScopedScript
