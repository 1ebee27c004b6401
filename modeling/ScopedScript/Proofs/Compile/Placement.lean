import ScopedScript.Proofs.Compile.StructLayouts

/-!
# Where functions are placed

The compiler finds the place of a function by its symbol, so the functions of a module stand at
their numbers when no two of them share one. The checker compares functions with functions and the
methods of a struct with each other; it does not compare a function with a method, or the methods of
two structs. Where no name has a dot in it there is nothing more to compare.
-/

namespace ScopedScript

/-! ## Symbols of methods -/

theorem toList_methodSymbol (struct method : String) :
    (methodSymbol struct method).toList = struct.toList ++ '.' :: method.toList := by
  simp [methodSymbol, String.toList_append]

/-- The symbol of a method tells the method of a struct. -/
theorem methodSymbol_injective (struct : String) : Function.Injective (methodSymbol struct) :=
  fun a b h => by
  have h := congrArg String.toList h
  rw [toList_methodSymbol, toList_methodSymbol] at h
  exact String.toList_inj.1 (List.cons.inj (List.append_cancel_left h)).2

/-- It tells the struct too, when no struct has a dot in its name. -/
theorem takeWhile_methodSymbol {struct : String} (hs : '.' ∉ struct.toList) (method : String) :
    (methodSymbol struct method).toList.takeWhile (· != '.') = struct.toList := by
  have hall : ∀ c ∈ struct.toList, (c != '.') = true :=
    fun c hc => bne_iff_ne.2 fun h => hs (h ▸ hc)
  rw [toList_methodSymbol, List.takeWhile_append_of_pos hall, List.takeWhile_cons_of_neg (by simp),
    List.append_nil]

/-! ## Methods of accepted programs -/

namespace Check

/-- The methods of a struct that are all declared have distinct names, and none is one of those
before. -/
theorem takes_distinctMethods (d : StructDecl) (sig : StructSig) (methods : List FunctionDecl) :
    Takes (declareMethods d sig methods) fun _ _ _ => (methods.map FunctionDecl.name).Nodup ∧
      ∀ m ∈ methods, sig.methods.lookup m.name = none := by
  induction methods generalizing sig with
  | nil => exact (Takes.pure _).weaken fun _ _ _ _ => ⟨List.nodup_nil, nofun⟩
  | cons m rest ih =>
    have hrest : Takes (if (sig.methods.lookup m.name).isSome then
          reportInvalid (.duplicateMethod d.name m.name) m.span >>= fun _ =>
            declareMethods d sig rest
        else resolveSignature m >>= fun s =>
          declareMethods d { sig with methods := sig.methods ++ [(m.name, s)] } rest) fun _ _ _ =>
        ((m :: rest).map FunctionDecl.name).Nodup ∧ ∀ m' ∈ m :: rest,
        sig.methods.lookup m'.name = none := by
      split
      · exact (ih sig).reported
      · rename_i hfree
        rw [Bool.not_eq_true, Option.isSome_eq_false_iff, Option.isNone_iff_eq_none] at hfree
        refine ((Quiet.takes (quiet_resolveSignature m)).bind fun s => ih _).weaken ?_
        rintro - - - ⟨s, -, -, hn, hnone⟩
        have hlater (m' : FunctionDecl) (hm : m' ∈ rest) :
            m'.name ≠ m.name ∧ sig.methods.lookup m'.name = none := by
          have h := hnone m' hm
          rw [List.lookup_append, Option.or_eq_none_iff] at h
          exact ⟨fun he => by simp [he] at h, h.1⟩
        refine ⟨List.nodup_cons.2 ⟨fun h => ?_, hn⟩,
          List.forall_mem_cons.2 ⟨hfree, fun m' hm => (hlater m' hm).2⟩⟩
        obtain ⟨m', hm, he⟩ := List.mem_map.1 h
        exact (hlater m' hm).1 he
    exact (Takes.reportedIf (x := fun _ => _) hrest).weaken fun _ _ _ h => h.2

theorem takes_distinctStruct (d : StructDecl) :
    Takes (declareStruct d) fun _ _ _ => (d.methods.map FunctionDecl.name).Nodup := by
  refine ((Quiet.takes (quiet_declareFields d _ _)).bind fun sig =>
    (takes_distinctMethods d sig _).bind fun _ =>
    takes_modify (fun e =>
      { e with globals := { e.globals with structs := (d.name, _) :: e.globals.structs } })
      fun _ => rfl).weaken ?_
  rintro - - - ⟨-, -, -, -, -, ⟨h, -⟩, -⟩
  exact h

end Check

namespace Program

variable {p : Program} {natives : List (String × Signature)} {t : TProgram}

theorem struct_mem {d : StructDecl} (h : .struct d ∈ p.items) : d ∈ p.structs :=
  List.mem_filterMap.2 ⟨_, h, rfl⟩

theorem function_mem {d : FunctionDecl} (h : .function d ∈ p.items) : d ∈ p.functions :=
  List.mem_filterMap.2 ⟨_, h, rfl⟩

/-- The checked functions have the symbols of the items, in their order. -/
theorem check_symbols (h : p.check natives = .ok t) :
    t.functions.map TFunction.name = p.items.flatMap Item.symbols := by
  obtain ⟨hmake, herr⟩ := Program.check_ok h
  obtain ⟨-, hitems⟩ := Check.takes_checkItems (.ofProgram t) p _ herr
  obtain ⟨g, hg⟩ := hitems rfl (p.declares_ofNatives natives)
  rw [← hmake]
  exact hg.functions

/-- The declarations of an accepted program report nothing. -/
theorem check_declared (h : p.check natives = .ok t) :
    (Check.declareItems p (.ofNatives natives)).2.errors = #[] := by
  obtain ⟨-, herr⟩ := Program.check_ok h
  have hitems : Check.Takes (p.items.mapM Check.checkItem) fun env env' bs =>
      Finishes (.ofProgram t) p.frees (p.items.flatMap Item.symbols) env env' (bs.flatMap id) :=
    Check.finishes_mapM id p.items fun item hi =>
      Check.finishes_item _ item fun x hx => List.mem_flatMap.2 ⟨item, hi, hx⟩
  exact ((Check.quiet_structInfos p.structs).takes _ (hitems _ herr).1).1

/-- The methods of a struct have distinct names. -/
theorem nodup_methods (h : p.check natives = .ok t) {d : StructDecl} (hd : d ∈ p.structs) :
    (d.methods.map FunctionDecl.name).Nodup := by
  have hfunctions := (Check.Declaring.forM (p := p) p.functions fun _ => Check.declaring_function) _
    (check_declared h)
  exact (Check.takes_forM Check.takes_distinctStruct p.structs _ hfunctions.1).2 d hd

/-- The symbols of a program are distinct unless a function is called as a method is, or methods of
two structs are. -/
theorem nodup_symbols_iff (h : p.check natives = .ok t) : (t.functions.map TFunction.name).Nodup ↔
    (∀ f ∈ p.functions, ∀ d ∈ p.structs, ∀ m ∈ d.methods, f.name ≠ methodSymbol d.name m.name) ∧
      ∀ d ∈ p.structs, ∀ d' ∈ p.structs, ∀ m ∈ d.methods, ∀ m' ∈ d'.methods,
        methodSymbol d.name m.name = methodSymbol d'.name m'.name → d.name = d'.name := by
  rw [check_symbols h, List.nodup_flatMap]
  constructor
  · rintro ⟨-, hdisjoint⟩
    have : Std.Symm (Function.onFun List.Disjoint Item.symbols) := ⟨fun _ _ h => h.symm⟩
    refine ⟨fun f hf d hd m hm he => ?_, fun d hd d' hd' m hm m' hm' he => ?_⟩
    · exact hdisjoint.forall (p.mem_functions hf) (p.mem_structs hd) nofun List.mem_cons_self
        (List.mem_map.2 ⟨m, hm, he.symm⟩)
    · by_contra hne
      exact hdisjoint.forall (p.mem_structs hd) (p.mem_structs hd') (fun h => hne (by cases h; rfl))
        (List.mem_map_of_mem hm) (List.mem_map.2 ⟨m', hm', he.symm⟩)
  · rintro ⟨hfunction, hstruct⟩
    have hdistinct := distinct_of_accepted ((accepted_iff p natives).1 ⟨t, h⟩)
    have hfunctions := List.pairwise_filterMap.1 (List.pairwise_map.1 hdistinct.functions)
    have hstructs := List.pairwise_filterMap.1 (List.pairwise_map.1 hdistinct.structs)
    refine ⟨fun item hi => ?_, (hfunctions.and hstructs).imp_of_mem fun {a b} ha hb hne => ?_⟩
    · cases item with
      | function f => exact List.nodup_singleton _
      | struct d =>
        have := (nodup_methods h (struct_mem hi)).map (methodSymbol_injective d.name)
        rwa [List.map_map] at this
    · intro name hna hnb
      cases a with
      | function f =>
        obtain rfl := List.mem_singleton.1 hna
        cases b with
        | function f' => exact hne.1 f rfl f' rfl (List.mem_singleton.1 hnb)
        | struct d =>
          obtain ⟨m, hm, he⟩ := List.mem_map.1 hnb
          exact hfunction f (function_mem ha) d (struct_mem hb) m hm he.symm
      | struct d =>
        obtain ⟨m, hm, rfl⟩ := List.mem_map.1 hna
        cases b with
        | function f =>
          exact hfunction f (function_mem hb) d (struct_mem ha) m hm (List.mem_singleton.1 hnb).symm
        | struct d' =>
          obtain ⟨m', hm', he⟩ := List.mem_map.1 hnb
          exact hne.2 d rfl d' rfl
            (hstruct d (struct_mem ha) d' (struct_mem hb) m hm m' hm' he.symm)

/-- Where functions and structs have no dot in their names, the symbols are distinct. -/
theorem nodup_symbols_of_plain (h : p.check natives = .ok t)
    (hf : ∀ f ∈ p.functions, '.' ∉ f.name.toList)
    (hd : ∀ d ∈ p.structs, '.' ∉ d.name.toList) : (t.functions.map TFunction.name).Nodup := by
  refine (nodup_symbols_iff h).2 ⟨fun f hm d _ m _ he => hf f hm ?_,
    fun d hs d' hs' m _ m' _ he => ?_⟩
  · rw [he, toList_methodSymbol]
    exact List.mem_append_right _ List.mem_cons_self
  · rw [← String.toList_inj, ← takeWhile_methodSymbol (hd d hs) m.name, he,
      takeWhile_methodSymbol (hd d' hs')]

end Program

/-! ## The module -/

/-- When no two functions share a symbol, no place stays empty: each function of the program stands
at its number, as the code of its own body. -/
theorem TProgram.placed {typed : TProgram} {m : Module} (hcompile : typed.compile = .ok m)
    (hnames : (typed.functions.map TFunction.name).Nodup) : ∃ t : Tables, t.Make typed m ∧
      m.functions.toList.map some = t.functions.toList ∧
      ∀ (i : Nat) (f : TFunction), typed.functions[i]? = some f →
        ∃ g, m.functions[i]? = some g ∧ g.name = f.name ∧ BodyAt t g f.toBody := by
  obtain ⟨t, ht⟩ := typed.compile_ok hcompile
  refine ⟨t, ht, ?_, fun i f hf => ?_⟩
  · rw [ht.functions, Array.toList_filterMap]
    refine map_some_filterMap_id fun o ho => ?_
    obtain ⟨i, hi⟩ := Array.mem_iff_getElem?.1 (Array.mem_toList_iff.1 ho)
    exact ht.filled hnames hi
  · have hname : (typed.functions.map TFunction.name)[i]? = some f.name := by
      rw [List.getElem?_map, hf]; rfl
    have hid : t.ids.functions.lookup f.name = some i := by
      rw [ht.ids]
      exact lookup_numbered hnames hname
    obtain ⟨f', hf', hn, g, hg, hgn, hb⟩ := ht.named hnames hid
    obtain rfl := List.inj_on_of_nodup_map hnames hf' (List.mem_of_getElem? hf) hn
    exact ⟨g, hg, hgn, hb⟩

end ScopedScript
