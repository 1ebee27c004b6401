import ScopedScript.Proofs.Machine.Liveness

/-!
# Histories of bindings

What the bindings of a frame are after any operations, told from the answers that these gave. A slot
may be declared again after it was freed or moved, so a scope may list it twice; only the newest
declaration of a live slot counts. Leaving scopes gives the slots that are live by declarations in
them, the newest declaration first.
-/

namespace ScopedScript

/-! ## Operations and what they answer -/

/-- An operation on the bindings of a frame. -/
inductive BindingOp
  | enterScope
  | declare (slot : Nat) (v : Value)
  | load (slot : Nat)
  | store (slot : Nat) (v : Value)
  | storeField (slot : Nat) (path : List Nat) (v : Value)
  | free (slot : Nat)
  | take (slot : Nat)
  | exitScope
  | exitAll

/-- What an operation gives when it succeeds. -/
inductive BindingReply
  | done
  | value (v : Value)
  | released (slots : List Nat)

namespace BindingOp

def run : BindingOp → BindingM BindingReply
  | enterScope => do
    BindingM.enterScope
    return .done
  | declare slot v => do
    BindingM.declare slot v
    return .done
  | load slot => return .value (← BindingM.load slot)
  | store slot v => do
    BindingM.store slot v
    return .done
  | storeField slot path v => do
    BindingM.storeField slot path v
    return .done
  | free slot => do
    BindingM.free slot
    return .done
  | take slot => return .value (← BindingM.take slot)
  | exitScope => return .released (← BindingM.exitScope)
  | exitAll => modifyGet fun b => (.released b.exitAll.2, b.exitAll.1)

end BindingOp

/-- An operation that was carried out, and its answer. -/
structure BindingRecord where
  op : BindingOp
  answer : Except SlotError BindingReply

/-- What is written down of an operation, and the bindings after it. -/
def BindingOp.perform (op : BindingOp) (b : Bindings) : BindingRecord × Bindings :=
  match op.run b with
  | .ok reply b => (⟨op, .ok reply⟩, b)
  | .error e b => (⟨op, .error e⟩, b)

/-- The bindings after operations on `n` fresh slots, with the record of each operation, newest
first. -/
inductive Bindings.History (n : Nat) : List BindingRecord → Bindings → Prop
  | new : History n [] (.new n)
  | next {log : List BindingRecord} {b : Bindings} (h : History n log b) (op : BindingOp) :
    History n ((op.perform b).1 :: log) (op.perform b).2

open Bindings in
/-- Each way in which an operation may turn out. -/
inductive BindingRecord.Turns (b : Bindings) : BindingRecord → Bindings → Prop
  | fails (op : BindingOp) (e : SlotError) : Turns b ⟨op, .error e⟩ b
  | enterScope : Turns b ⟨.enterScope, .ok .done⟩ { b with scopes := [] :: b.scopes }
  | declare {i : Nat} (v : Value) (hv : b.Vacant i) (hs : b.scopes ≠ []) :
    Turns b ⟨.declare i v, .ok .done⟩ (BindingM.declared b i v)
  | load {i : Nat} {v : Value} (h : b.Holds i v) : Turns b ⟨.load i, .ok (.value v)⟩ b
  | store {i : Nat} (v : Value) (h : b.Live i) :
    Turns b ⟨.store i v, .ok .done⟩ (b.withSlot i (.live v))
  | storeField {i : Nat} (path : List Nat) (v whole : Value) (h : b.Live i) :
    Turns b ⟨.storeField i path v, .ok .done⟩ (b.withSlot i (.live whole))
  | free {i : Nat} (h : b.Live i) : Turns b ⟨.free i, .ok .done⟩ (b.withSlot i .freed)
  | take {i : Nat} {v : Value} (h : b.Holds i v) :
    Turns b ⟨.take i, .ok (.value v)⟩ (b.withSlot i .moved)
  | exitScope (h : b.scopes ≠ []) :
    Turns b ⟨.exitScope, .ok (.released (releaseAll b.slots (b.scopes.headD [])).2)⟩
      (BindingM.leftScope b)
  | exitAll : Turns b ⟨.exitAll, .ok (.released b.exitAll.2)⟩ b.exitAll.1

theorem BindingOp.turns_perform (op : BindingOp) (b : Bindings) :
    (op.perform b).1.Turns b (op.perform b).2 := by
  unfold perform
  cases op with
  | enterScope => exact .enterScope
  | exitAll => exact .exitAll
  | declare i v =>
    simp only [run, BindingM.bind_apply]
    rcases BindingM.declare_cases i v b with ⟨hv, hs, h⟩ | ⟨-, e, h, -⟩ <;> rw [h]
    · exact .declare v hv hs
    · exact .fails _ e
  | load i =>
    simp only [run, BindingM.bind_apply]
    rcases BindingM.load_cases i b with ⟨v, hv, h⟩ | ⟨-, e, h, -⟩ <;> rw [h]
    · exact .load hv
    · exact .fails _ e
  | store i v =>
    simp only [run, BindingM.bind_apply]
    rcases BindingM.store_cases i v b with ⟨hl, h⟩ | ⟨-, e, h, -⟩ <;> rw [h]
    · exact .store v hl
    · exact .fails _ e
  | storeField i path v =>
    simp only [run, BindingM.bind_apply]
    rcases BindingM.storeField_cases i path v b with
      ⟨w, whole, hw, -, h⟩ | ⟨-, -, -, h⟩ | ⟨-, e, h, -⟩ <;> rw [h]
    · exact .storeField path v whole ⟨w, hw⟩
    · exact .fails _ _
    · exact .fails _ e
  | free i =>
    simp only [run, BindingM.bind_apply]
    rcases BindingM.free_cases i b with ⟨hl, h⟩ | ⟨-, e, h, -⟩ <;> rw [h]
    · exact .free hl
    · exact .fails _ e
  | take i =>
    simp only [run, BindingM.bind_apply]
    rcases BindingM.take_cases i b with ⟨v, hv, h⟩ | ⟨-, e, h, -⟩ <;> rw [h]
    · exact .take hv
    · exact .fails _ e
  | exitScope =>
    simp only [run, BindingM.bind_apply]
    rcases BindingM.exitScope_cases b with ⟨hs, h⟩ | ⟨-, h⟩ <;> rw [h]
    · exact .exitScope hs
    · exact .fails _ _

/-- An operation that fails leaves the bindings as they were. -/
theorem BindingOp.eq_of_run_error {op : BindingOp} {b b' : Bindings} {e : SlotError}
    (h : op.run b = .error e b') : b' = b := by
  have hturns := op.turns_perform b
  rw [perform, h] at hturns
  cases hturns
  rfl

/-! ## What a history says of slots -/

namespace BindingRecord

@[simp] def declared? : BindingRecord → Option Nat
  | ⟨.declare i _, .ok _⟩ => some i
  | _ => none

@[simp] def freed? : BindingRecord → Option Nat
  | ⟨.free i, .ok _⟩ => some i
  | _ => none

@[simp] def taken? : BindingRecord → Option Nat
  | ⟨.take i, .ok _⟩ => some i
  | _ => none

/-- The slots that were given when one scope or all were left. -/
@[simp] def returned : BindingRecord → List Nat
  | ⟨_, .ok (.released slots)⟩ => slots
  | _ => []

/-- The operation released the slot. -/
def Releases (r : BindingRecord) (i : Nat) : Prop :=
  r.freed? = some i ∨ r.taken? = some i ∨ i ∈ r.returned

instance (r : BindingRecord) (i : Nat) : Decidable (r.Releases i) :=
  inferInstanceAs (Decidable (_ ∨ _ ∨ _))

variable {i j : Nat}

theorem releases_free : Releases ⟨.free i, .ok .done⟩ j ↔ j = i := by simp [Releases, eq_comm]

theorem releases_take {v : Value} : Releases ⟨.take i, .ok (.value v)⟩ j ↔ j = i := by
  simp [Releases, eq_comm]

theorem releases_exitScope {slots : List Nat} :
    Releases ⟨.exitScope, .ok (.released slots)⟩ i ↔ i ∈ slots := by simp [Releases]

theorem releases_exitAll {slots : List Nat} :
    Releases ⟨.exitAll, .ok (.released slots)⟩ i ↔ i ∈ slots := by simp [Releases]

end BindingRecord

/-- A declaration of a slot that has succeeded, with the number of operations before it. -/
structure SlotDeclaration where
  slot : Nat
  time : Nat
deriving DecidableEq

/-- The declarations that were made in each scope that is open, innermost scope first, newest first.
-/
def openDeclarations : List BindingRecord → List (List SlotDeclaration)
  | [] => []
  | ⟨.enterScope, .ok _⟩ :: log => [] :: openDeclarations log
  | ⟨.declare i _, .ok _⟩ :: log => (openDeclarations log).modifyHead (⟨i, log.length⟩ :: ·)
  | ⟨.exitScope, .ok _⟩ :: log => (openDeclarations log).tail
  | ⟨.exitAll, .ok _⟩ :: _ => []
  | _ :: log => openDeclarations log

/-- When a slot became live, if it has not been released since. -/
def liveSince (i : Nat) : List BindingRecord → Option Nat
  | [] => none
  | r :: log =>
    if r.declared? = some i then some log.length
    else if r.Releases i then none
    else liveSince i log

/-- The declaration has made its slot live, which has not been released since. -/
def SlotDeclaration.Stands (log : List BindingRecord) (d : SlotDeclaration) : Prop :=
  liveSince d.slot log = some d.time

instance (log : List BindingRecord) : DecidablePred (SlotDeclaration.Stands log) :=
  fun _ => inferInstanceAs (Decidable (_ = _))

namespace Bindings

variable {b b' : Bindings} {i : Nat} {log : List BindingRecord} {r : BindingRecord} {n : Nat}

def isLive (b : Bindings) (i : Nat) : Bool := (b.slots[i]?.map Slot.isLive).getD false

theorem isLive_iff : b.isLive i = true ↔ b.Live i := by
  unfold isLive Live Holds
  rcases b.slots[i]? with _ | _ | _ <;> simp [Slot.isLive]

/-- What is released of declared slots, when for each slot that is live the newest declaration has
made it live. -/
theorem released_declarations {ds : List SlotDeclaration} (slots : Array Slot)
    (since : Nat → Option Nat)
    (hlive : ∀ d ∈ ds, (∃ v, slots[d.slot]? = some (.live v)) ↔ (since d.slot).isSome)
    (hnewest : ∀ d ∈ ds, ∀ t, since d.slot = some t →
      ds.find? (·.slot == d.slot) = some ⟨d.slot, t⟩)
    (horder : ds.Pairwise fun d e => e.time < d.time) :
    (releaseAll slots (ds.map SlotDeclaration.slot)).2 =
      (ds.filter fun d => since d.slot = some d.time).map SlotDeclaration.slot := by
  induction ds generalizing slots since with
  | nil => rfl
  | cons d rest ih =>
    obtain ⟨hbefore, horder⟩ := List.pairwise_cons.1 horder
    have hself : ∀ t, since d.slot = some t → t = d.time := by
      intro t ht
      have h := hnewest d List.mem_cons_self t ht
      simp only [List.find?_cons, beq_self_eq_true] at h
      exact congrArg SlotDeclaration.time (Option.some.inj h).symm
    -- the slot is forgotten, so what is declared for it further on counts no more
    have hrest :=
      ih (slots.setIfInBounds d.slot .unbound) (Function.update since d.slot none) ?_ ?_ horder
    · have hsame : ∀ e ∈ rest, (Function.update since d.slot none e.slot = some e.time ↔
          since e.slot = some e.time) := by
        intro e he
        by_cases heq : e.slot = d.slot
        · rw [heq, Function.update_self]
          refine iff_of_false (by simp) fun h => ?_
          have := hbefore e he
          have := hself _ h
          omega
        · rw [Function.update_of_ne heq]
      rw [List.filter_congr fun e he => decide_eq_decide.2 (hsame e he)] at hrest
      have hd := hlive d List.mem_cons_self
      simp only [List.map_cons, releaseAll]
      rw [hrest]
      cases hs : since d.slot with
      | none =>
        have hdead : (slots[d.slot]?.map Slot.isLive).getD false = false := by
          rw [Bool.eq_false_iff]
          intro h
          have := hd.1 ((isLive_iff (b := ⟨slots, []⟩)).1 h)
          rw [hs] at this
          cases this
        rw [hdead, List.filter_cons_of_neg (by simp [hs]), if_neg Bool.false_ne_true]
      | some t =>
        have hlive : (slots[d.slot]?.map Slot.isLive).getD false = true :=
          (isLive_iff (b := ⟨slots, []⟩)).2 (hd.2 (by rw [hs]; rfl))
        have htime := hself t hs
        rw [hlive, List.filter_cons_of_pos (by rw [hs, htime, decide_eq_true_eq]), if_pos rfl,
          List.map_cons]
    · intro e he
      by_cases heq : e.slot = d.slot
      · rw [heq, Function.update_self, Array.getElem?_setIfInBounds_self]
        refine iff_of_false ?_ Bool.false_ne_true
        rintro ⟨v, hv⟩
        split at hv <;> cases hv
      · rw [Function.update_of_ne heq, Array.getElem?_setIfInBounds_ne (Ne.symm heq)]
        exact hlive e (List.mem_cons_of_mem _ he)
    · intro e he t ht
      have heq : e.slot ≠ d.slot := by
        intro heq
        rw [heq, Function.update_self] at ht
        cases ht
      rw [Function.update_of_ne heq] at ht
      have h := hnewest e (List.mem_cons_of_mem _ he) t ht
      rwa [List.find?_cons_of_neg (by rw [beq_iff_eq]; exact Ne.symm heq)] at h

theorem not_live_exitAll (h : b.Scoped) : ¬ b.exitAll.1.Live i := by
  rintro ⟨v, hv⟩
  change (releaseAll b.slots b.scopes.flatten).1[i]? = some (.live v) at hv
  rw [slots_releaseAll] at hv
  split at hv
  · cases hv
  · rename_i hout
    exact hout ⟨h i ⟨v, hv⟩, (Array.getElem?_eq_some_iff.1 hv).1⟩

/-! ## The invariant of a history -/

/-- The bindings are as the history says: the open scopes list the declarations that were made in
them, and a slot is live when it has become so and was not released, by the newest declaration of
it. -/
structure Tracks (log : List BindingRecord) (b : Bindings) : Prop where
  scopes : b.scopes = (openDeclarations log).map (·.map SlotDeclaration.slot)
  live : ∀ i, b.Live i ↔ (liveSince i log).isSome
  newest : ∀ i t, liveSince i log = some t →
    (openDeclarations log).flatten.find? (·.slot == i) = some ⟨i, t⟩
  earlier : ∀ d ∈ (openDeclarations log).flatten, d.time < log.length
  order : (openDeclarations log).flatten.Pairwise fun d e => e.time < d.time

theorem Tracks.new (n : Nat) : Tracks [] (.new n) :=
  ⟨rfl, fun i => iff_of_false (not_live_new n i) nofun, nofun, nofun, .nil⟩

theorem Tracks.flatten_scopes (h : Tracks log b) :
    b.scopes.flatten = (openDeclarations log).flatten.map SlotDeclaration.slot := by
  rw [h.scopes, List.map_flatten]

theorem Tracks.scoped (h : Tracks log b) : b.Scoped := by
  intro i hi
  obtain ⟨t, ht⟩ := Option.isSome_iff_exists.1 ((h.live i).1 hi)
  rw [h.flatten_scopes]
  exact List.mem_map_of_mem (List.mem_of_find?_eq_some (h.newest i t ht))

/-- After an operation that declares nothing. The declarations that are gone with it were those of
slots that are not live or have been released by it. -/
theorem Tracks.undeclared (h : Tracks log b) (hr : r.declared? = none) (gone : List SlotDeclaration)
    (hgone : gone ++ (openDeclarations (r :: log)).flatten = (openDeclarations log).flatten)
    (hreleased : ∀ d ∈ gone, b.Live d.slot → r.Releases d.slot)
    (hscopes : b'.scopes = (openDeclarations (r :: log)).map (·.map SlotDeclaration.slot))
    (hlive : ∀ i, b'.Live i ↔ ¬ r.Releases i ∧ b.Live i) : Tracks (r :: log) b' := by
  have hsince (i : Nat) :
      liveSince i (r :: log) = if r.Releases i then none else liveSince i log := by
    rw [liveSince, hr, if_neg nofun]
  refine ⟨hscopes, fun i => ?_, fun i t ht => ?_, fun d hd => ?_, ?_⟩
  · rw [hlive, hsince, h.live]
    split
    · exact iff_of_false (fun hi => hi.1 ‹_›) nofun
    · exact and_iff_right ‹_›
  · rw [hsince] at ht
    split at ht
    · cases ht
    · rename_i hkept
      have hnewest := h.newest i t ht
      have hi : b.Live i := (h.live i).2 (Option.isSome_iff_exists.2 ⟨t, ht⟩)
      have hnone : gone.find? (·.slot == i) = none := by
        refine List.find?_eq_none.2 fun d hd heq => ?_
        obtain rfl : d.slot = i := beq_iff_eq.1 heq
        exact hkept (hreleased d hd hi)
      rwa [← hgone, List.find?_append, hnone, Option.none_or] at hnewest
  · have hd := h.earlier d (hgone ▸ List.mem_append_right _ hd)
    exact Nat.lt_succ_of_lt hd
  · exact (List.pairwise_append.1 (hgone ▸ h.order)).2.1

/-- After an operation that neither declares nor releases. -/
theorem Tracks.quiet (h : Tracks log b) (hr : r.declared? = none) (hreleases : ∀ i, ¬ r.Releases i)
    (hopen : openDeclarations (r :: log) = openDeclarations log) (hscopes : b'.scopes = b.scopes)
    (hlive : ∀ i, b'.Live i ↔ b.Live i) : Tracks (r :: log) b' := by
  refine h.undeclared hr [] (congrArg List.flatten hopen) nofun ?_ fun i => ?_
  · rw [hscopes, h.scopes, hopen]
  · rw [hlive, and_iff_right (hreleases i)]

theorem Tracks.declared (h : Tracks log b) (v : Value) (hv : b.Vacant i) (hs : b.scopes ≠ []) :
    Tracks (⟨.declare i v, .ok .done⟩ :: log) (BindingM.declared b i v) := by
  have hsince (j : Nat) : liveSince j (⟨.declare i v, .ok .done⟩ :: log) =
      if i = j then some log.length else liveSince j log := by
    rw [liveSince, show BindingRecord.declared? ⟨.declare i v, .ok .done⟩ = some i from rfl]
    have hreleases : ¬ BindingRecord.Releases ⟨.declare i v, .ok .done⟩ j := by
      rintro (h | h | h) <;> cases h
    simp only [Option.some.injEq, if_neg hreleases]
  obtain ⟨scope, outer, hopen⟩ : ∃ scope outer, openDeclarations log = scope :: outer := by
    refine List.exists_cons_of_ne_nil fun hnil => hs ?_
    rw [h.scopes, hnil, List.map_nil]
  have hopen' : openDeclarations (⟨.declare i v, .ok .done⟩ :: log) =
      (⟨i, log.length⟩ :: scope) :: outer := by
    rw [openDeclarations, hopen, List.modifyHead_cons]
  have hearlier := h.earlier
  have horder := h.order
  have hnewest := h.newest
  rw [hopen, List.flatten_cons] at hearlier horder hnewest
  refine ⟨?_, fun j => ?_, fun j t ht => ?_, fun d hd => ?_, ?_⟩
  · rw [BindingM.declared, hopen', h.scopes, hopen]
    rfl
  · rw [live_declared hv, hsince, h.live, eq_comm]
    split
    · exact iff_of_true (.inl ‹_›) rfl
    · exact or_iff_right ‹_›
  · rw [hsince] at ht
    rw [hopen', List.flatten_cons, List.cons_append]
    split at ht
    · cases ht
      rw [‹i = j›, List.find?_cons, beq_self_eq_true]
    · have hne : (i == j) = false := beq_eq_false_iff_ne.2 ‹_›
      rw [List.find?_cons, hne]
      exact hnewest j t ht
  · rw [hopen', List.flatten_cons, List.cons_append] at hd
    rcases List.mem_cons.1 hd with rfl | hd
    · exact Nat.lt_succ_self _
    · exact Nat.lt_succ_of_lt (hearlier d hd)
  · rw [hopen', List.flatten_cons, List.cons_append]
    exact List.pairwise_cons.2 ⟨hearlier, horder⟩

/-- Each operation keeps the invariant. -/
theorem Tracks.turns (h : Tracks log b) (hr : r.Turns b b') : Tracks (r :: log) b' := by
  have hnone {op : BindingOp} {a : Except SlotError BindingReply}
      (hf : BindingRecord.freed? ⟨op, a⟩ = none)
      (ht : BindingRecord.taken? ⟨op, a⟩ = none)
      (hl : BindingRecord.returned ⟨op, a⟩ = []) (i : Nat) :
      ¬ BindingRecord.Releases ⟨op, a⟩ i := by
    rw [BindingRecord.Releases, hf, ht, hl]
    simp
  cases hr with
  | fails op e =>
    refine h.quiet ?_ (hnone ?_ ?_ ?_) ?_ rfl fun _ => Iff.rfl
    all_goals cases op <;> rfl
  | enterScope =>
    refine h.undeclared rfl [] rfl (by simp) ?_ fun i => (and_iff_right (hnone rfl rfl rfl i)).symm
    rw [openDeclarations, List.map_cons, ← h.scopes]
    rfl
  | declare v hv hs => exact h.declared v hv hs
  | load hi => exact h.quiet rfl (hnone rfl rfl rfl) rfl rfl fun _ => Iff.rfl
  | store v hi => exact h.quiet rfl (hnone rfl rfl rfl) rfl rfl fun _ => live_withSlot_live hi
  | storeField path v whole hi =>
    exact h.quiet rfl (hnone rfl rfl rfl) rfl rfl fun _ => live_withSlot_live hi
  | @free i hi =>
    refine h.undeclared rfl [] rfl (by simp) h.scopes fun j => ?_
    rw [live_withSlot_dead rfl, BindingRecord.releases_free]
  | @take i v hi =>
    refine h.undeclared rfl [] rfl (by simp) h.scopes fun j => ?_
    rw [live_withSlot_dead rfl, BindingRecord.releases_take]
  | exitScope hs =>
    obtain ⟨scope, outer, hopen⟩ : ∃ scope outer, openDeclarations log = scope :: outer := by
      refine List.exists_cons_of_ne_nil fun hnil => hs ?_
      rw [h.scopes, hnil, List.map_nil]
    have hhead : b.scopes.headD [] = scope.map SlotDeclaration.slot := by rw [h.scopes, hopen]; rfl
    have hreleases (i : Nat) : BindingRecord.Releases ⟨.exitScope, .ok (.released
        (releaseAll b.slots (b.scopes.headD [])).2)⟩ i ↔
        i ∈ scope.map SlotDeclaration.slot ∧ b.Live i := by
      rw [hhead, BindingRecord.releases_exitScope, mem_released]
      rfl
    have htail : openDeclarations (⟨.exitScope, .ok (.released
        (releaseAll b.slots (b.scopes.headD [])).2)⟩ :: log) = outer := by
      rw [openDeclarations, hopen, List.tail_cons]
    refine h.undeclared rfl scope ?_ (fun d hd hl => ?_) ?_ fun i => ?_
    · rw [htail, hopen, List.flatten_cons]
    · exact (hreleases _).2 ⟨List.mem_map_of_mem hd, hl⟩
    · rw [htail, BindingM.leftScope, h.scopes, hopen]
      rfl
    · rw [live_leftScope, hreleases, hhead]
      tauto
  | exitAll =>
    have hreleases (i : Nat) : BindingRecord.Releases ⟨.exitAll, .ok (.released b.exitAll.2)⟩ i ↔
        b.Live i :=
      BindingRecord.releases_exitAll.trans (mem_exitAll h.scoped)
    refine h.undeclared rfl (openDeclarations log).flatten (List.append_nil _)
      (fun d _ hl => ?_) rfl fun i => ?_
    · exact (hreleases _).2 hl
    · rw [hreleases]
      exact iff_of_false (not_live_exitAll h.scoped) fun hi => hi.1 hi.2

theorem History.tracks (h : History n log b) : Tracks log b := by
  induction h with
  | new => exact .new n
  | next _ op ih => exact ih.turns (op.turns_perform _)

/-! ## How often slots are declared and released -/

theorem count_filterMap_cons {f : BindingRecord → Option Nat} :
    ((r :: log).filterMap f).count i = (f r).toList.count i + (log.filterMap f).count i := by
  rw [List.filterMap_cons]
  cases f r with
  | none => simp
  | some j =>
    rw [Option.toList_some, List.count_singleton, List.count_cons, Nat.add_comm]

/-- As often as a slot has been declared it was released, but for once while it is live. -/
def Balanced (log : List BindingRecord) (b : Bindings) (i : Nat) : Prop :=
  (log.filterMap BindingRecord.declared?).count i =
    (log.filterMap BindingRecord.freed?).count i + (log.filterMap BindingRecord.taken?).count i +
      (log.flatMap BindingRecord.returned).count i + (b.isLive i).toNat

theorem Balanced.cons (h : Balanced log b i)
    (hr : r.declared?.toList.count i + (b.isLive i).toNat = r.freed?.toList.count i +
      r.taken?.toList.count i + r.returned.count i + (b'.isLive i).toNat) :
      Balanced (r :: log) b' i := by
  rw [Balanced] at h ⊢
  rw [count_filterMap_cons, count_filterMap_cons, count_filterMap_cons, List.flatMap_cons,
    List.count_append]
  omega

theorem isLive_eq_of_iff (h : b'.Live i ↔ b.Live i) : b'.isLive i = b.isLive i := by
  rw [Bool.eq_iff_iff, isLive_iff, isLive_iff, h]

/-- A slot that is released once. -/
theorem count_of_nodup {slots : List Nat} (hn : slots.Nodup) (hl : i ∈ slots → b.Live i)
    (hb : b'.Live i ↔ i ∉ slots ∧ b.Live i) :
    (b.isLive i).toNat = slots.count i + (b'.isLive i).toNat := by
  by_cases hi : i ∈ slots
  · have hlive : b.isLive i = true := isLive_iff.2 (hl hi)
    have hdead : b'.isLive i = false := Bool.eq_false_iff.2 fun h => (hb.1 (isLive_iff.1 h)).1 hi
    rw [List.count_eq_one_of_mem hn hi, hlive, hdead]
    rfl
  · rw [List.count_eq_zero_of_not_mem hi, Nat.zero_add,
      isLive_eq_of_iff (hb.trans (and_iff_right hi))]

theorem count_withSlot_dead {j : Nat} {s : Slot} (hs : s.isLive = false) (hj : b.Live j) :
    (b.isLive i).toNat = [j].count i + ((b.withSlot j s).isLive i).toNat := by
  refine count_of_nodup (List.nodup_singleton j) (fun hi => ?_) ?_
  · rwa [List.mem_singleton.1 hi]
  · rw [live_withSlot_dead hs, List.mem_singleton]

theorem Balanced.turns (h : Balanced log b i) (hs : b.Scoped) (hr : r.Turns b b') :
    Balanced (r :: log) b' i := by
  refine h.cons ?_
  cases hr with
  | fails op e => cases op <;> simp
  | enterScope => rfl
  | @declare j v hv hne =>
    have hlive : (BindingM.declared b j v).Live i ↔ i = j ∨ b.Live i := live_declared hv
    by_cases hij : i = j
    · subst hij
      have hdead : b.isLive i = false := Bool.eq_false_iff.2 fun hl => hv.not_live (isLive_iff.1 hl)
      have hnow : (BindingM.declared b i v).isLive i = true := isLive_iff.2 (hlive.2 (.inl rfl))
      rw [hdead, hnow]
      simp
    · rw [isLive_eq_of_iff (hlive.trans (or_iff_right hij))]
      simp [Ne.symm hij]
  | load _ => rfl
  | store v hi | storeField path v whole hi => rw [isLive_eq_of_iff (live_withSlot_live hi)]; rfl
  | @free j hi =>
    have hcount := count_withSlot_dead (i := i) (s := .freed) rfl hi
    simpa using hcount
  | @take j v hi =>
    have hcount := count_withSlot_dead (i := i) (s := .moved) rfl ⟨v, hi⟩
    simpa using hcount
  | exitScope _ =>
    have hleft : (BindingM.leftScope b).Live i ↔
        i ∉ (releaseAll b.slots (b.scopes.headD [])).2 ∧ b.Live i := by
      rw [live_leftScope, mem_released]
      exact ⟨fun ⟨hout, hl⟩ => ⟨fun h => hout h.1, hl⟩,
        fun ⟨hout, hl⟩ => ⟨fun h => hout ⟨h, hl⟩, hl⟩⟩
    have hcount := count_of_nodup (nodup_released _ _) (fun h => (mem_released.1 h).2) hleft
    simpa using hcount
  | exitAll =>
    have hleft : b.exitAll.1.Live i ↔ i ∉ b.exitAll.2 ∧ b.Live i := by
      rw [mem_exitAll hs]
      exact iff_of_false (not_live_exitAll hs) fun h => h.1 h.2
    have hcount := count_of_nodup (nodup_exitAll b) (mem_exitAll hs).1 hleft
    simpa using hcount

theorem History.balanced (h : History n log b) (i : Nat) : Balanced log b i := by
  induction h with
  | new =>
    have hdead : (Bindings.new n).isLive i = false :=
      Bool.eq_false_iff.2 fun hl => not_live_new n i (isLive_iff.1 hl)
    rw [Balanced, hdead]
    rfl
  | next h op ih => exact ih.turns h.tracks.scoped (op.turns_perform _)

/-! ## Leaving scopes -/

theorem Tracks.newest_of_prefix (h : Tracks log b) {ds rest : List SlotDeclaration}
    (hds : (openDeclarations log).flatten = ds ++ rest) :
    (∀ d ∈ ds, (∃ v, b.slots[d.slot]? = some (.live v)) ↔ (liveSince d.slot log).isSome) ∧
      (∀ d ∈ ds, ∀ t, liveSince d.slot log = some t →
        ds.find? (·.slot == d.slot) = some ⟨d.slot, t⟩) ∧
      ds.Pairwise fun d e => e.time < d.time := by
  refine ⟨fun d _ => h.live d.slot, fun d hd t ht => ?_, ?_⟩
  · have hnewest := h.newest d.slot t ht
    have hsome : (ds.find? (·.slot == d.slot)).isSome :=
      List.find?_isSome.2 ⟨d, hd, beq_self_eq_true _⟩
    rwa [hds, List.find?_append, Option.or_of_isSome hsome] at hnewest
  · have horder := h.order
    rw [hds] at horder
    exact (List.pairwise_append.1 horder).1

/-- What is released of the newest declarations: those that stand. -/
theorem Tracks.released (h : Tracks log b) {ds rest : List SlotDeclaration}
    (hds : (openDeclarations log).flatten = ds ++ rest) :
    (releaseAll b.slots (ds.map SlotDeclaration.slot)).2 =
      (ds.filter (SlotDeclaration.Stands log)).map SlotDeclaration.slot := by
  obtain ⟨hlive, hnewest, horder⟩ := h.newest_of_prefix hds
  exact released_declarations b.slots (liveSince · log) hlive hnewest horder

end Bindings

/-- The declarations in each open scope whose slots are live by them. -/
def standing (log : List BindingRecord) : List (List SlotDeclaration) :=
  (openDeclarations log).map (·.filter (SlotDeclaration.Stands log))

/-- These slots, each once, are those of the declarations, the last declaration first. -/
structure SlotDeclaration.Reversed (ds : List SlotDeclaration) (slots : List Nat) : Prop where
  slots_eq : slots = ds.map SlotDeclaration.slot
  nodup : slots.Nodup
  order : ds.Pairwise fun d e => e.time < d.time

namespace Bindings

variable {b b' : Bindings} {i : Nat} {log : List BindingRecord} {n : Nat}

theorem Tracks.reversed (h : Tracks log b) {ds : List SlotDeclaration} (rest : List SlotDeclaration)
    (hds : (openDeclarations log).flatten = ds ++ rest) :
    SlotDeclaration.Reversed (ds.filter (SlotDeclaration.Stands log))
      (releaseAll b.slots (ds.map SlotDeclaration.slot)).2 :=
  ⟨h.released hds, nodup_released _ _, (h.newest_of_prefix hds).2.2.filter _⟩

/-- The newest declaration of a live slot in the open scopes has made it live. -/
theorem History.newest (h : History n log b) (hi : b.isLive i = true) : ∃ d : SlotDeclaration,
    d.slot = i ∧ d.Stands log ∧ (openDeclarations log).flatten.find? (·.slot == i) = some d := by
  obtain ⟨t, ht⟩ := Option.isSome_iff_exists.1 ((h.tracks.live i).1 (isLive_iff.1 hi))
  exact ⟨⟨i, t⟩, rfl, ht, h.tracks.newest i t ht⟩

/-- Leaving the innermost scope gives the slots of the declarations that stand in it. -/
theorem History.reversed_exitScope (h : History n log b) {scope : List SlotDeclaration}
    {outer : List (List SlotDeclaration)} (hstanding : standing log = scope :: outer) :
    ∃ slots b', BindingM.exitScope b = .ok slots b' ∧ SlotDeclaration.Reversed scope slots := by
  obtain ⟨ds, rest, hopen, rfl, -⟩ := List.map_eq_cons_iff.1 hstanding
  have hscopes : b.scopes = ds.map SlotDeclaration.slot ::
      rest.map (·.map SlotDeclaration.slot) := by
    rw [h.tracks.scopes, hopen, List.map_cons]
  rcases BindingM.exitScope_cases b with ⟨-, hexit⟩ | ⟨hnil, -⟩
  · refine ⟨_, _, hexit, ?_⟩
    rw [hscopes]
    exact h.tracks.reversed rest.flatten (by rw [hopen, List.flatten_cons])
  · rw [hscopes] at hnil
    cases hnil

/-- Leaving all scopes gives the slots of all declarations that stand. -/
theorem History.reversed_exitAll (h : History n log b) :
    SlotDeclaration.Reversed (standing log).flatten b.exitAll.2 := by
  have hreversed := h.tracks.reversed [] (List.append_nil _).symm
  rw [← h.tracks.flatten_scopes, List.filter_flatten] at hreversed
  exact hreversed

end Bindings

end ScopedScript
