import ScopedScript.Proofs.Compile.Compiled

/-!
# Compiled programs

Each function of a compiled program has the code of one of the bodies of the program, and the
function at the index of a name is the one of that name.
-/

namespace ScopedScript

namespace Emit

/-- Puts the code of a function in its place. -/
def place (ids : Ids) (name : String) (code : FunctionCode) : Emit Unit :=
  match ids.functions.lookup name with
  | some id => modify fun e => { e with functions := e.functions.setIfInBounds id (some code) }
  | none => pure ()

theorem place_apply (ids : Ids) (name : String) (code : FunctionCode) (e : Emitter) :
    (place ids name code e).2 = match ids.functions.lookup name with
      | some id => { e with functions := e.functions.setIfInBounds id (some code) }
      | none => e := by
  rw [place]
  cases ids.functions.lookup name <;> rfl

theorem function_apply (ids : Ids) (f : TFunction) (e : Emitter) :
    function ids f e =
      place ids f.name
        (codeOf ids f.params f.isAsync
          (bodyLines ids f.params f.body f.span { e with fn := .start f.name [] }).1
          (bodyLines ids f.params f.body f.span { e with fn := .start f.name [] }).2.fn)
        (bodyLines ids f.params f.body f.span { e with fn := .start f.name [] }).2 := rfl

end Emit

namespace Emitter

variable {ids : Ids} {named : Nat} {done : List TFunction} {e e' : Emitter} {t : Tables}

/-- What is known once some functions of a program have been compiled. -/
structure Compiled (ids : Ids) (named : Nat) (done : List TFunction) (e : Emitter) : Prop where
  size : named ≤ e.functions.size
  body : ∀ (i : Nat) (g : FunctionCode), e.functions[i]? = some (some g) →
    ∃ f ∈ done, ∃ b ∈ f.toBody :: stmtsBodies f.body, ∀ t, Backs ids named e t → BodyAt t g b
  placed : ∀ f ∈ done, ∀ id, ids.functions.lookup f.name = some id → ∃ g, ∃ f' ∈ done,
    ids.functions.lookup f'.name = some id ∧ e.functions[id]? = some (some g) ∧ g.name = f'.name ∧
      ∀ t, Backs ids named e t → BodyAt t g f'.toBody
  added : ∀ (i : Nat) (o : Option FunctionCode), named ≤ i → e.functions[i]? = some o → o.isSome

theorem compiled_start (n : Nat) : Compiled ids n [] (.start n) where
  size := by simp [Emitter.start]
  body := by
    intro i g hg
    simp [Emitter.start, Array.getElem?_replicate] at hg
  placed := nofun
  added := by
    intro i o hi ho
    rw [Emitter.start, Array.getElem?_replicate, if_neg (by omega)] at ho
    cases ho

/-- Functions are put in places below `named`. -/
theorem Backs.before_set {id : Nat} {o : Option FunctionCode} (hid : id < named)
    (h : Backs ids named { e with functions := e.functions.setIfInBounds id o } t) :
    Backs ids named e t where
  ids := h.ids
  natives := h.natives
  functions := by
    intro i g hi hg
    refine h.functions i g hi ?_
    rw [Array.getElem?_setIfInBounds_ne (by omega)]
    exact hg

/-- The entries that a further function adds, besides the one that it is put in. -/
theorem Compiled.body_of_adds {f : TFunction} {e₁ e₂ : Emitter} (h : Compiled ids named done e)
    (hf : e₁.functions = e.functions) (hb : ∀ t, Backs ids named e₂ t → Backs ids named e t)
    (hg : e₁.Grows e₂) (ha : Adds ids named (stmtsBodies f.body) e₁ e₂) {i : Nat} {g : FunctionCode}
    (hi : e₂.functions[i]? = some (some g)) :
    ∃ f' ∈ done ++ [f], ∃ b ∈ f'.toBody :: stmtsBodies f'.body,
      ∀ t, Backs ids named e₂ t → BodyAt t g b := by
  by_cases hlt : i < e₁.functions.size
  · have hold : e₁.functions[i]? = some (some g) := by
      have h' := Array.getElem?_eq_getElem hlt
      have := getElem?_of_extends hg.functions h'
      rw [hi] at this
      rw [h', ← this]
    obtain ⟨f', hf', b, hb', hl⟩ := h.body i g (hf ▸ hold)
    exact ⟨f', List.mem_append_left _ hf', b, hb', fun t ht => hl t (hb t ht)⟩
  · obtain ⟨g', b, hg', hb', hl⟩ := ha i _ (Nat.le_of_not_lt hlt) hi
    cases hg'
    exact ⟨f, by simp, b, List.mem_cons_of_mem _ hb', hl⟩

/-- Lambdas are never left out. -/
theorem Compiled.added_of_adds {f : TFunction} {e₁ e₂ : Emitter} (h : Compiled ids named done e)
    (hf : e₁.functions = e.functions) (hg : e₁.Grows e₂)
    (ha : Adds ids named (stmtsBodies f.body) e₁ e₂) {i : Nat} {o : Option FunctionCode}
    (hi : named ≤ i) (ho : e₂.functions[i]? = some o) : o.isSome := by
  by_cases hlt : i < e₁.functions.size
  · have h' := Array.getElem?_eq_getElem hlt
    have := getElem?_of_extends hg.functions h'
    rw [ho] at this
    refine h.added i o hi ?_
    rw [← hf, h', ← this]
  · obtain ⟨g, b, rfl, -⟩ := ha i o (Nat.le_of_not_lt hlt) ho
    rfl

/-- Errors stay, and so do the places of the named functions. -/
theorem function_grows (ids : Ids) (f : TFunction) (h : named ≤ e.functions.size) :
    ((Emit.function ids f e).2.errors = #[] → e.errors = #[]) ∧
      named ≤ (Emit.function ids f e).2.functions.size := by
  let e₁ : Emitter := { e with fn := .start f.name [] }
  cases hrun : Emit.bodyLines ids f.params f.body f.span e₁ with
  | mk lines e₂ =>
  have hg := (Emit.bodyAt_codeOf (b := f.toBody) (e := e₁)
    (fun start => Emit.yields_stmts start f.body) h rfl hrun).1
  have hsize : named ≤ e₂.functions.size := by
    have := hg.functions.length_le
    simp only [Array.length_toList] at this
    exact h.trans this
  rw [Emit.function_apply, hrun, Emit.place_apply]
  split
  · refine ⟨hg.errors, ?_⟩
    simpa using hsize
  · exact ⟨hg.errors, hsize⟩

theorem compiled_function {f : TFunction} (hids : ∀ name id, ids.functions.lookup name = some id →
    id < named) (h : Compiled ids named done e) (herr : (Emit.function ids f e).2.errors = #[]) :
    Compiled ids named (done ++ [f]) (Emit.function ids f e).2 := by
  have hs := (function_grows ids f h.size).2
  let e₁ : Emitter := { e with fn := .start f.name [] }
  cases hrun : Emit.bodyLines ids f.params f.body f.span e₁ with
  | mk lines e₂ =>
  obtain ⟨hg, hbody⟩ := Emit.bodyAt_codeOf (b := f.toBody) (e := e₁)
    (fun start => Emit.yields_stmts start f.body) h.size rfl hrun
  have hback : ∀ t, Backs ids named e₂ t → Backs ids named e t := fun t ht =>
    have := ht.before hg
    ⟨this.ids, this.natives, this.functions⟩
  rw [Emit.function_apply, hrun, Emit.place_apply] at herr hs ⊢
  cases hid : ids.functions.lookup f.name with
  | none =>
    rw [hid] at herr hs
    obtain ⟨ha, -⟩ := hbody herr
    refine ⟨hs, fun i g hi =>
      h.body_of_adds (show e₁.functions = e.functions from rfl) hback hg ha hi,
      fun f' hf' id hid' => ?_, fun i o =>
        h.added_of_adds (show e₁.functions = e.functions from rfl) hg ha⟩
    rcases List.mem_append.1 hf' with hf' | hf'
    · obtain ⟨g, f'', hf'', hl, hgi, hn, hb⟩ := h.placed f' hf' id hid'
      exact ⟨g, f'', List.mem_append_left _ hf'', hl, getElem?_of_extends hg.functions hgi, hn,
        fun t ht => hb t (hback t ht)⟩
    · obtain rfl := List.mem_singleton.1 hf'
      rw [hid] at hid'
      cases hid'
  | some id =>
    rw [hid] at herr hs
    obtain ⟨ha, hcode⟩ := hbody herr
    have hlt := hids _ _ hid
    refine ⟨hs, fun i g hi => ?_, fun f' hf' id' hid' => ?_, fun i o hi ho => ?_⟩
    · rw [Array.getElem?_setIfInBounds] at hi
      split at hi
      · split at hi
        · cases hi
          exact ⟨f, by simp, f.toBody, List.mem_cons_self, fun t ht => hcode t (ht.before_set hlt)⟩
        · cases hi
      · obtain ⟨f', hf', b, hb, hl⟩ :=
          h.body_of_adds (show e₁.functions = e.functions from rfl) hback hg ha hi
        exact ⟨f', hf', b, hb, fun t ht => hl t (ht.before_set hlt)⟩
    · by_cases heq : id = id'
      · subst heq
        refine ⟨_, f, by simp, hid, Array.getElem?_setIfInBounds_self_of_lt ?_, ?_,
          fun t ht => hcode t (ht.before_set hlt)⟩
        · have := hg.functions.length_le
          simp only [Array.length_toList] at this
          exact hlt.trans_le (h.size.trans this)
        · exact hg.name
      · rw [Array.getElem?_setIfInBounds_ne heq]
        rcases List.mem_append.1 hf' with hf' | hf'
        · obtain ⟨g, f'', hf'', hl, hgi, hn, hb⟩ := h.placed f' hf' id' hid'
          exact ⟨g, f'', List.mem_append_left _ hf'', hl, getElem?_of_extends hg.functions hgi, hn,
            fun t ht => hb t (hback t (ht.before_set hlt))⟩
        · obtain rfl := List.mem_singleton.1 hf'
          rw [hid] at hid'
          cases hid'
          exact absurd rfl heq
    · rw [Array.getElem?_setIfInBounds_ne (by omega)] at ho
      exact h.added_of_adds (show e₁.functions = e.functions from rfl) hg ha hi ho

theorem forM_grows (fs : List TFunction) (h : named ≤ e.functions.size)
    (herr : (fs.forM (Emit.function ids) e).2.errors = #[]) : e.errors = #[] := by
  induction fs generalizing e with
  | nil => exact herr
  | cons f fs ih =>
    obtain ⟨hf, hs⟩ := function_grows ids f h
    exact hf (ih hs herr)

theorem compiled_forM (hids : ∀ name id, ids.functions.lookup name = some id → id < named)
    (fs : List TFunction) (h : Compiled ids named done e)
    (herr : (fs.forM (Emit.function ids) e).2.errors = #[]) :
    Compiled ids named (done ++ fs) (fs.forM (Emit.function ids) e).2 := by
  induction fs generalizing done e with
  | nil =>
    rw [List.append_nil]
    exact h
  | cons f fs ih =>
    have hs := (function_grows ids f h.size).2
    have := ih (compiled_function hids h (forM_grows fs hs herr)) herr
    rwa [List.append_assoc] at this

end Emitter

/-- The tables by which a module was compiled from a program. -/
structure Tables.Make (t : Tables) (p : TProgram) (m : Module) : Prop where
  ids : t.ids = .ofProgram p
  natives : t.natives = m.natives
  functions : m.functions = t.functions.filterMap id
  structs : m.structs = (p.structs.map (StructInfo.layout t.ids)).toArray
  body : ∀ (i : Nat) (g : FunctionCode), t.functions[i]? = some (some g) →
    ∃ b ∈ p.bodies, BodyAt t g b
  placed : ∀ f ∈ p.functions, ∀ id, t.ids.functions.lookup f.name = some id →
    ∃ g, ∃ f' ∈ p.functions, t.ids.functions.lookup f'.name = some id ∧
      t.functions[id]? = some (some g) ∧ g.name = f'.name ∧ BodyAt t g f'.toBody
  added : ∀ (i : Nat) (o : Option FunctionCode), p.functions.length ≤ i →
    t.functions[i]? = some o → o.isSome

theorem mem_of_lookup {xs : List (String × α)} {name : String} {a : α}
    (h : xs.lookup name = some a) : (name, a) ∈ xs := by
  obtain ⟨before, after, rfl, -⟩ := List.lookup_eq_some_iff.1 h
  simp

theorem getElem?_of_lookup_numbered {names : List String} {name : String} {i : Nat}
    (h : (numbered names).lookup name = some i) : names[i]? = some name := by
  have hmem := mem_of_lookup h
  rw [numbered, List.mem_reverse, List.mem_zipIdx_iff_getElem?] at hmem
  exact hmem

/-- What it takes for a program to compile. -/
theorem TProgram.compile_ok {p : TProgram} {m : Module} (h : p.compile = .ok m) :
    ∃ t : Tables, t.Make p m := by
  let e := (p.functions.forM (Emit.function (.ofProgram p)) (.start p.functions.length)).2
  have he : e.errors = #[] ∧ m = {
      functions := e.functions.filterMap id
      structs := (p.structs.map (StructInfo.layout (.ofProgram p))).toArray
      natives := e.natives
      source := p.source } := by
    change (if e.errors.isEmpty then _ else _) = _ at h
    split at h
    · cases h
      exact ⟨Array.isEmpty_iff.1 ‹_›, rfl⟩
    · cases h
  obtain ⟨herr, rfl⟩ := he
  have hids : ∀ name id, (Ids.ofProgram p).functions.lookup name = some id →
      id < p.functions.length := by
    intro name id hid
    have := getElem?_of_lookup_numbered hid
    rw [← List.length_map (f := TFunction.name)]
    exact (List.getElem?_eq_some_iff.1 this).1
  have hc := Emitter.compiled_forM hids p.functions (Emitter.compiled_start _) herr
  rw [List.nil_append] at hc
  have ht : Emitter.Backs (.ofProgram p) p.functions.length e
      ⟨.ofProgram p, e.natives, e.functions⟩ :=
    ⟨rfl, List.prefix_rfl, fun _ _ _ h => h⟩
  refine ⟨⟨.ofProgram p, e.natives, e.functions⟩, rfl, rfl, rfl, rfl, fun i g hi => ?_,
    fun f hf id hid => ?_, hc.added⟩
  · obtain ⟨f, hf, b, hb, hl⟩ := hc.body i g hi
    exact ⟨b, List.mem_flatMap.2 ⟨f, hf, hb⟩, hl _ ht⟩
  · obtain ⟨g, f', hf', hid', hg, hn, hl⟩ := hc.placed f hf id hid
    exact ⟨g, f', hf', hid', hg, hn, hl _ ht⟩

/-- The functions of a module have the code of bodies of the program. -/
theorem Tables.Make.body_of_function {t : Tables} {typed : TProgram} {m : Module}
    (h : t.Make typed m) {id : Nat} {f : FunctionCode} (hf : m.functions[id]? = some f) :
    ∃ body ∈ typed.bodies, BodyAt t f body := by
  have hmem := Array.mem_of_getElem? hf
  rw [h.functions, Array.mem_filterMap] at hmem
  obtain ⟨o, ho, rfl⟩ := hmem
  obtain ⟨i, hi⟩ := Array.mem_iff_getElem?.1 ho
  exact h.body i f hi

end ScopedScript
