import ScopedScript.Proofs.Compile.Modes
import ScopedScript.Proofs.Evaluation.Numbering

/-!
# Procedures of a module

A compiled module has the procedures of its program, each at its number: the named functions in
their places, and the lambdas behind them as one function after the other is compiled.
-/

namespace ScopedScript

namespace Emitter

variable {ids : Ids} {named : Nat} {e : Emitter}

/-- Compiling a function: its lambdas follow those before, and its code is put in its place. -/
theorem function_follows {f : TFunction} {id : Nat} (hid : ids.functions.lookup f.name = some id)
    (hn : named ≤ e.functions.size) (herr : (Emit.function ids f e).2.errors = #[]) :
    ∃ e' g, Follows ids named (stmtsOutline ids f.body) { e with fn := .start f.name [] } e' ∧
      { e with fn := .start f.name [] }.Grows e' ∧
      (Emit.function ids f e).2 = { e' with functions := e'.functions.setIfInBounds id (some g) } ∧
      Implements ids named e' ⟨f.name, f.toBody, e.functions.size⟩ g := by
  let e₁ : Emitter := { e with fn := .start f.name [] }
  cases hrun : Emit.bodyLines ids f.params f.body f.span e₁ with
  | mk lines e' =>
  let g := Emit.codeOf ids f.params f.isAsync lines e'.fn
  have hfunction : (Emit.function ids f e).2 =
      { e' with functions := e'.functions.setIfInBounds id (some g) } := by
    rw [Emit.function_apply, hrun, Emit.place_apply, hid]
  rw [hfunction] at herr
  obtain ⟨hf, hcode⟩ := Emit.implements_codeOf (b := f.toBody) (e := e₁)
    (fun start => Emit.numbers_stmts start f.body) hn rfl hrun herr
  have hgrows := (Emit.bodyAt_codeOf (b := f.toBody) (e := e₁)
    (fun start => Emit.yields_stmts start f.body) hn rfl hrun).1
  exact ⟨e', _, hf, hgrows, hfunction, hcode⟩

/-- Every procedure of a list has been compiled, from this place on. -/
def Filled (ids : Ids) (named : Nat) (e : Emitter) (start : Nat) (qs : List Procedure) : Prop :=
  ∀ i q, qs[i]? = some q → ∃ g, e.functions[start + i]? = some (some g) ∧ Implements ids named e q g

theorem Filled.later {e' : Emitter} {start : Nat} {qs : List Procedure}
    (h : Filled ids named e start qs) (hback : ∀ t, Backs ids named e' t → Backs ids named e t)
    (hsame : ∀ i, i < qs.length → e'.functions[start + i]? = e.functions[start + i]?) :
    Filled ids named e' start qs := by
  intro i q hq
  obtain ⟨g, hg, himp⟩ := h i q hq
  refine ⟨g, ?_, himp.later hback⟩
  rw [hsame i (List.getElem?_eq_some_iff.1 hq).1]
  exact hg

theorem Filled.append {start : Nat} {qs qs' : List Procedure} (h : Filled ids named e start qs)
    (h' : Filled ids named e (start + qs.length) qs') : Filled ids named e start (qs ++ qs') := by
  intro i q hq
  rw [List.getElem?_append] at hq
  split at hq
  · exact h i q hq
  · obtain ⟨g, hg, himp⟩ := h' _ q hq
    refine ⟨g, ?_, himp⟩
    rwa [Nat.add_assoc, Nat.add_sub_cancel' (by omega)] at hg

theorem Filled.of_follows {o : Outline} {e e' : Emitter} (h : Follows ids named o e e') :
    Filled ids named e' e.functions.size
      (o.procedures e.fn.name e.fn.lambdaCount e.functions.size) := by
  obtain ⟨gs, hgs, hall⟩ := h.functions
  intro i q hq
  obtain ⟨hlt, rfl⟩ := List.getElem?_eq_some_iff.1 hq
  have hlt' : i < gs.length := hall.length_eq ▸ hlt
  refine ⟨gs[i], ?_, hall.get hlt hlt'⟩
  rw [← Array.getElem?_toList, hgs, List.getElem?_append_right (by simp), Array.length_toList,
    Nat.add_sub_cancel_left, List.getElem?_map, List.getElem?_eq_getElem hlt']
  rfl

/-- After some functions of a program, from the one with number `start` on: each is in its place,
and their lambdas follow what was there. -/
structure Progress (ids : Ids) (named : Nat) (start : Nat) (fs : List TFunction)
    (e e' : Emitter) : Prop where
  size : e'.functions.size = e.functions.size + (functionsOutline ids fs).total
  others : ∀ i, i < e.functions.size → (i < start ∨ start + fs.length ≤ i) →
    e'.functions[i]? = e.functions[i]?
  backs : ∀ t, Backs ids named e' t → Backs ids named e t
  natives : e.natives.toList.Nodup → e'.natives.toList.Nodup
  functions : Filled ids named e' start (functionProcedures ids e.functions.size fs)
  lambdas : Filled ids named e' e.functions.size
    ((functionsOutline ids fs).procedures "" 0 e.functions.size)

theorem progress_function {f : TFunction} {id : Nat} (hid : ids.functions.lookup f.name = some id)
    (hlt : id < named) (hn : named ≤ e.functions.size)
    (herr : (Emit.function ids f e).2.errors = #[]) :
    Progress ids named id [f] e (Emit.function ids f e).2 := by
  obtain ⟨e', g, hf, hg, heq, himp⟩ := function_follows hid hn herr
  have hback : ∀ t, Backs ids named (Emit.function ids f e).2 t → Backs ids named e' t := by
    rw [heq]
    exact fun t ht => ht.before_set hlt
  have hbefore : ∀ t, Backs ids named e' t → Backs ids named e t := fun t ht =>
    have := ht.before hg
    ⟨this.ids, this.natives, this.functions⟩
  have hother : ∀ i, i ≠ id → (Emit.function ids f e).2.functions[i]? = e'.functions[i]? := by
    intro i hi
    rw [heq]
    exact Array.getElem?_setIfInBounds_ne (Ne.symm hi)
  have hsize : e'.functions.size = e.functions.size + (stmtsOutline ids f.body).total := hf.size
  constructor
  case size =>
    rw [heq]
    exact (Array.size_setIfInBounds ..).trans hsize
  case others =>
    intro i hi hout
    rw [hother i (by simp only [List.length_singleton] at hout; omega)]
    have hi' := Array.getElem?_eq_getElem hi
    rw [hi']
    exact getElem?_of_extends hg.functions hi'
  case backs => exact fun t ht => hbefore t (hback t ht)
  case natives =>
    rw [heq]
    exact hf.natives
  case functions =>
    intro i q hq
    obtain ⟨rfl, rfl⟩ : i = 0 ∧ q = ⟨f.name, f.toBody, e.functions.size⟩ := by
      cases i with
      | zero =>
        cases hq
        exact ⟨rfl, rfl⟩
      | succ i => cases hq
    refine ⟨g, ?_, himp.later hback⟩
    rw [heq]
    exact Array.getElem?_setIfInBounds_self_of_lt (by omega)
  case lambdas =>
    have hlambdas := (Filled.of_follows hf).later hback fun i hi => hother _ (by dsimp only; omega)
    have hprocedures : (functionsOutline ids [f]).procedures "" 0 e.functions.size =
        (stmtsOutline ids f.body).procedures f.name 0 e.functions.size := List.append_nil _
    rw [hprocedures]
    exact hlambdas

theorem functionProcedures_append (first : Nat) (fs fs' : List TFunction) :
    functionProcedures ids first (fs ++ fs') = functionProcedures ids first fs ++
      functionProcedures ids (first + (functionsOutline ids fs).total) fs' := by
  induction fs generalizing first with
  | nil => rfl
  | cons f rest ih =>
    rw [List.cons_append, functionProcedures, ih, functionProcedures, List.cons_append,
      functionsOutline, Outline.total_append, ← Nat.add_assoc]
    rfl

theorem functionsOutline_append (fs fs' : List TFunction) :
    functionsOutline ids (fs ++ fs') = functionsOutline ids fs ++ functionsOutline ids fs' := by
  induction fs with
  | nil => exact (Outline.empty_append _).symm
  | cons f rest ih =>
    rw [List.cons_append, functionsOutline, ih, functionsOutline, Outline.append_assoc]

theorem direct_functionsOutline (fs : List TFunction) : (functionsOutline ids fs).direct = 0 := by
  induction fs with
  | nil => rfl
  | cons f rest ih => exact (congrArg (0 + ·) ih)

theorem Progress.append {start : Nat} {fs fs' : List TFunction} {e e' e'' : Emitter}
    (h : Progress ids named start fs e e') (h' : Progress ids named (start + fs.length) fs' e' e'')
    (hn : start + (fs ++ fs').length ≤ named) (hsize : named ≤ e.functions.size) :
    Progress ids named start (fs ++ fs') e e'' := by
  rw [List.length_append] at hn
  have hgrown := h.size
  constructor
  case size =>
    rw [h'.size, h.size, functionsOutline_append, Outline.total_append, Nat.add_assoc]
  case others =>
    intro i hi hout
    rw [List.length_append] at hout
    rw [h'.others i (by omega) (by omega), h.others i hi (by omega)]
  case backs => exact fun t ht => h.backs t (h'.backs t ht)
  case natives => exact fun hnodup => h'.natives (h.natives hnodup)
  case functions =>
    rw [functionProcedures_append]
    refine (h.functions.later h'.backs fun i hi => ?_).append ?_
    · rw [length_functionProcedures] at hi
      exact h'.others _ (by omega) (by omega)
    · rw [length_functionProcedures, ← h.size]
      exact h'.functions
  case lambdas =>
    rw [functionsOutline_append, Outline.procedures_append, direct_functionsOutline]
    refine (h.lambdas.later h'.backs fun i hi => ?_).append ?_
    · rw [Outline.length_procedures] at hi
      exact h'.others _ (by omega) (by omega)
    · rw [Outline.length_procedures, ← h.size]
      exact h'.lambdas

theorem progress_forM (fs : List TFunction) {start : Nat} {e : Emitter}
    (hids : ∀ i f, fs[i]? = some f → ids.functions.lookup f.name = some (start + i))
    (hn : start + fs.length ≤ named) (hsize : named ≤ e.functions.size)
    (herr : (fs.forM (Emit.function ids) e).2.errors = #[]) :
    Progress ids named start fs e (fs.forM (Emit.function ids) e).2 := by
  induction fs generalizing start e with
  | nil =>
    exact ⟨rfl, fun _ _ _ => rfl, fun _ h => h, id, fun i q hq => (by cases hq),
      fun i q hq => (by cases hq)⟩
  | cons f rest ih =>
    rw [List.length_cons] at hn
    have hgrown := (function_grows ids f hsize).2
    have hf := progress_function (hids 0 f rfl) (by omega) hsize (forM_grows rest hgrown herr)
    have hnext : ∀ i f', rest[i]? = some f' →
        ids.functions.lookup f'.name = some (start + 1 + i) := by
      intro i f' hf'
      rw [hids (i + 1) f' hf']
      congr 1
      omega
    have hrest := ih hnext (by omega) hgrown herr
    exact hf.append hrest (by simp only [List.singleton_append, List.length_cons]; omega) hsize

end Emitter

/-- In the tables, the code is that of the procedure. -/
structure Tables.Holds (t : Tables) (q : Procedure) (g : FunctionCode) : Prop where
  name : g.name = q.name
  made : g.code.toList.filterMap Instr.made? = (stmtsOutline t.ids q.body.stmts).made q.first
  floats : ∀ x, .float x ∈ g.constants → x ∈ (stmtsOutline t.ids q.body.stmts).floats
  body : BodyAt t g q.body

/-- The procedures of a program stand at their numbers in the module that it was compiled to. -/
structure Tables.Numbered (t : Tables) (p : TProgram) (m : Module) : Prop extends t.Make p m where
  procedure : ∀ (id : Nat) (q : Procedure), p.procedures[id]? = some q →
    ∃ g : FunctionCode, m.functions[id]? = some g ∧ t.functions[id]? = some (some g) ∧ t.Holds q g
  size : m.functions.size = p.procedures.length
  distinct : m.natives.toList.Nodup

theorem TProgram.compile_numbered {p : TProgram} {m : Module} (h : p.compile = .ok m)
    (hnames : (p.functions.map TFunction.name).Nodup) : ∃ t : Tables, t.Numbered p m := by
  obtain ⟨t, ht⟩ := compile_ok h
  refine ⟨t, ?_⟩
  let ids := Ids.ofProgram p
  let e := (p.functions.forM (Emit.function ids) (.start p.functions.length)).2
  have he : e.errors = #[] ∧ m.functions = e.functions.filterMap id ∧ m.natives = e.natives := by
    change (if e.errors.isEmpty then _ else _) = _ at h
    split at h
    · cases h
      exact ⟨Array.isEmpty_iff.1 ‹_›, rfl, rfl⟩
    · cases h
  obtain ⟨herr, hfunctions, hnatives⟩ := he
  have hstart : (Emitter.start p.functions.length).functions.size = p.functions.length := by
    simp [Emitter.start]
  have hprogress : Emitter.Progress ids p.functions.length 0 p.functions
      (.start p.functions.length) e := by
    refine Emitter.progress_forM p.functions (fun i f hf => ?_) (by omega) hstart.ge herr
    rw [Nat.zero_add]
    exact lookup_numbered hnames (by rw [List.getElem?_map, hf]; rfl)
  obtain ⟨hsize, -, -, hdistinct, hnamed, hlambdas⟩ := hprogress
  rw [hstart] at hsize hnamed hlambdas
  -- each at its number
  have hprocedures : Emitter.Filled ids p.functions.length e 0 p.procedures := by
    refine hnamed.append ?_
    rw [length_functionProcedures, Nat.zero_add]
    exact hlambdas
  have hlength : p.procedures.length = e.functions.size := by
    rw [hsize, procedures, List.length_append, length_functionProcedures, Outline.length_procedures]
  have hfilled : ∀ o ∈ e.functions, o.isSome := by
    intro o ho
    obtain ⟨i, hi, rfl⟩ := Array.mem_iff_getElem.1 ho
    obtain ⟨g, hg, -⟩ := hprocedures i p.procedures[i] (List.getElem?_eq_getElem (hlength ▸ hi))
    rw [Nat.zero_add, Array.getElem?_eq_getElem hi] at hg
    rw [Option.some.inj hg]
    rfl
  -- so the tables hold what the compiler has left
  have hsame (i : Nat) : m.functions[i]?.map some = e.functions[i]? := by
    rw [hfunctions, getElem?_filterMap_id hfilled]
  have hbacks : Emitter.Backs ids p.functions.length e t := by
    refine ⟨ht.ids, ?_, fun i g _ hg => ?_⟩
    · rw [ht.natives, hnatives]
    · rw [← hsame, Option.map_eq_some_iff] at hg
      obtain ⟨g', hg', heq⟩ := hg
      cases heq
      exact (ht.function_iff hnames).1 hg'
  refine ⟨ht, fun i q hq => ?_, ?_, ?_⟩
  · obtain ⟨g, hg, himp⟩ := hprocedures i q hq
    rw [Nat.zero_add, ← hsame, Option.map_eq_some_iff] at hg
    obtain ⟨g', hg', heq⟩ := hg
    cases heq
    refine ⟨g, hg', (ht.function_iff hnames).1 hg', himp.name, ?_, ?_, himp.body t hbacks⟩
    · rw [ht.ids]
      exact himp.made
    · rw [ht.ids]
      exact himp.floats
  · have hmap : m.functions.map some = e.functions := Array.ext_getElem? fun i => by
      rw [Array.getElem?_map, hsame]
    rw [hlength, ← hmap, Array.size_map]
  · rw [hnatives]
    exact hdistinct List.nodup_nil

end ScopedScript
