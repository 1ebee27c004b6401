import Mathlib
import ScopedScript.Machine.Run

/-!
# Operations on bindings

When each operation on the bindings of a frame succeeds and what it leaves. An operation that fails
leaves the bindings as they were.
-/

namespace ScopedScript

namespace Bindings

/-- The slot is live and holds this value. -/
def Holds (b : Bindings) (i : Nat) (v : Value) : Prop := b.slots[i]? = some (.live v)

/-- The slot exists and holds nothing. -/
def Vacant (b : Bindings) (i : Nat) : Prop := ∃ s, b.slots[i]? = some s ∧ s.isLive = false

def Live (b : Bindings) (i : Nat) : Prop := ∃ v, b.Holds i v

/-- The bindings with another state of one slot. -/
def withSlot (b : Bindings) (i : Nat) (s : Slot) : Bindings :=
  { b with slots := b.slots.setIfInBounds i s }

variable {b : Bindings} {i j : Nat} {v w : Value} {s : Slot}

theorem Holds.unique (h : b.Holds i v) (h' : b.Holds i w) : v = w := by
  rw [Holds] at h h'
  rw [h] at h'
  cases h'
  rfl

theorem Vacant.not_live (h : b.Vacant i) : ¬ b.Live i := by
  rintro ⟨v, hv⟩
  obtain ⟨s, hs, hl⟩ := h
  rw [Holds, hs] at hv
  cases hv
  cases hl

theorem slots_withSlot (b : Bindings) (i j : Nat) (s : Slot) :
    (b.withSlot i s).slots[j]? = if i = j ∧ j < b.slots.size then some s else b.slots[j]? := by
  rw [withSlot, Array.getElem?_setIfInBounds]
  by_cases hij : i = j
  · by_cases hj : j < b.slots.size <;> simp [hij, hj]
  · simp [hij]

@[simp]
theorem scopes_withSlot (b : Bindings) (i : Nat) (s : Slot) : (b.withSlot i s).scopes = b.scopes :=
  rfl

theorem Holds.lt_size (h : b.Holds i v) : i < b.slots.size :=
  (Array.getElem?_eq_some_iff.1 h).1

/-- What a slot holds after it, or another one, was made to hold a value. -/
theorem holds_withSlot_live (hi : i < b.slots.size) :
    (b.withSlot i (.live w)).Holds j v ↔ if i = j then v = w else b.Holds j v := by
  rw [Holds, slots_withSlot]
  by_cases hij : i = j
  · subst hij
    simp [hi, eq_comm]
  · simp [hij, Holds]

theorem holds_withSlot_dead (hs : s.isLive = false) :
    (b.withSlot i s).Holds j v ↔ i ≠ j ∧ b.Holds j v := by
  rw [Holds, slots_withSlot]
  by_cases hij : i = j
  · subst hij
    by_cases hi : i < b.slots.size
    · simp only [hi, and_self, if_true, Option.some.injEq, ne_eq, not_true_eq_false, false_and,
        iff_false]
      rintro rfl
      cases hs
    · simp [hi]
  · simp [hij, Holds]

/-! Slots that are forgotten together. -/

/-- The slots forgotten, whatever they held. -/
theorem slots_releaseAll (slots : Array Slot) (l : List Nat) (j : Nat) :
    (releaseAll slots l).1[j]? =
      if j ∈ l ∧ j < slots.size then some .unbound else slots[j]? := by
  induction l generalizing slots with
  | nil => simp [releaseAll]
  | cons i rest ih =>
    simp only [releaseAll, ih, Array.size_setIfInBounds, Array.getElem?_setIfInBounds]
    grind

theorem size_releaseAll (slots : Array Slot) (l : List Nat) :
    (releaseAll slots l).1.size = slots.size := by
  induction l generalizing slots with
  | nil => rfl
  | cons i rest ih => exact (ih _).trans (Array.size_setIfInBounds ..)

/-- The slots that were live among those forgotten. -/
theorem mem_released {slots : Array Slot} {l : List Nat} :
    j ∈ (releaseAll slots l).2 ↔ j ∈ l ∧ ∃ v, slots[j]? = some (.live v) := by
  have live (s : Option Slot) :
      (s.map Slot.isLive).getD false = true ↔ ∃ v, s = some (.live v) := by
    rcases s with _ | _ | _ <;> simp [Slot.isLive]
  induction l generalizing slots with
  | nil => simp [releaseAll]
  | cons i rest ih =>
    simp only [releaseAll]
    split
    · rename_i h
      rw [live] at h
      simp only [List.mem_cons, ih, Array.getElem?_setIfInBounds]
      grind
    · rename_i h
      rw [live] at h
      simp only [List.mem_cons, ih, Array.getElem?_setIfInBounds]
      grind

/-- A slot that was declared twice is released once. -/
theorem nodup_released (slots : Array Slot) (l : List Nat) : (releaseAll slots l).2.Nodup := by
  induction l generalizing slots with
  | nil => simp [releaseAll]
  | cons i rest ih =>
    simp only [releaseAll]
    split
    · rw [List.nodup_cons, mem_released]
      refine ⟨?_, ih _⟩
      rintro ⟨-, v, hv⟩
      rw [Array.getElem?_setIfInBounds] at hv
      grind
    · exact ih _

/-- Slots may be forgotten in two parts. -/
theorem releaseAll_append (slots : Array Slot) (l l' : List Nat) :
    releaseAll slots (l ++ l') = ((releaseAll (releaseAll slots l).1 l').1,
      (releaseAll slots l).2 ++ (releaseAll (releaseAll slots l).1 l').2) := by
  induction l generalizing slots with
  | nil => rfl
  | cons i rest ih =>
    simp only [List.cons_append, releaseAll, ih]
    split <;> rfl

/-- Every live slot was declared in a scope that is still open. -/
def Scoped (b : Bindings) : Prop := ∀ i, b.Live i → i ∈ b.scopes.flatten

theorem mem_exitAll (h : b.Scoped) : i ∈ b.exitAll.2 ↔ b.Live i := by
  change i ∈ (releaseAll b.slots b.scopes.flatten).2 ↔ _
  rw [mem_released]
  exact ⟨fun h => h.2, fun hi => ⟨h i hi, hi⟩⟩

theorem nodup_exitAll (b : Bindings) : b.exitAll.2.Nodup :=
  nodup_released b.slots b.scopes.flatten

end Bindings

namespace BindingM

open Bindings

variable {b b' : Bindings} {i : Nat} {v w : Value} {e : SlotError}

theorem bind_apply (x : BindingM α) (f : α → BindingM β) (b : Bindings) :
    (x >>= f) b = match x b with
      | .ok a b' => f a b'
      | .error e b' => .error e b' := by
  change EStateM.bind x f b = _
  unfold EStateM.bind
  cases x b <;> rfl

theorem pure_apply (a : α) (b : Bindings) : (pure a : BindingM α) b = .ok a b := rfl

theorem throw_apply (e : SlotError) (b : Bindings) : (throw e : BindingM α) b = .error e b := rfl

theorem modify_apply (f : Bindings → Bindings) (b : Bindings) :
    (modify f : BindingM Unit) b = .ok () (f b) := rfl

theorem get_apply (b : Bindings) : (get : BindingM Bindings) b = .ok b b := rfl

theorem slot_apply (i : Nat) (b : Bindings) :
    slot i b = match b.slots[i]? with
      | some s => .ok s b
      | none => .error (.outOfRange i) b := by
  unfold slot
  rw [bind_apply, get_apply]
  simp only [slot?]
  cases b.slots[i]? <;> rfl

theorem load_apply (i : Nat) (b : Bindings) :
    load i b = match b.slots[i]? with
      | some (.live v) => .ok v b
      | some .unbound => .error (.notLive i) b
      | some _ => .error (.alreadyReleased i) b
      | none => .error (.outOfRange i) b := by
  unfold load
  rw [bind_apply, slot_apply]
  cases b.slots[i]? with
  | none => rfl
  | some s => cases s <;> rfl

theorem load_cases (i : Nat) (b : Bindings) :
    (∃ v, b.Holds i v ∧ load i b = .ok v b) ∨
      ¬ b.Live i ∧ ∃ e, load i b = .error e b ∧ e ≠ .badPath := by
  rw [load_apply]
  simp only [Live, Holds]
  cases b.slots[i]? with
  | none => exact .inr ⟨by simp, _, rfl, nofun⟩
  | some s =>
    cases s with
    | live v => exact .inl ⟨v, rfl, rfl⟩
    | _ => exact .inr ⟨by simp, _, rfl, nofun⟩

theorem load_eq_ok : load i b = .ok v b' ↔ b.Holds i v ∧ b' = b := by
  rcases load_cases i b with ⟨w, hw, h⟩ | ⟨hl, e, h, -⟩
  · rw [h]
    constructor
    · intro h
      cases h
      exact ⟨hw, rfl⟩
    · rintro ⟨hv, rfl⟩
      rw [hv.unique hw]
  · rw [h]
    exact ⟨nofun, fun hv => absurd ⟨v, hv.1⟩ hl⟩

/-- Operations on a live slot start with a load of it. -/
theorem load_bind_cases (f : Value → BindingM α) :
    (∃ v, b.Holds i v ∧ (load i >>= f) b = f v b) ∨
      ¬ b.Live i ∧ ∃ e, (load i >>= f) b = .error e b ∧ e ≠ .badPath := by
  rw [bind_apply]
  rcases load_cases i b with ⟨v, hv, h⟩ | ⟨hl, e, h, he⟩
  · exact .inl ⟨v, hv, by rw [h]⟩
  · exact .inr ⟨hl, e, by rw [h], he⟩

theorem store_cases (i : Nat) (w : Value) (b : Bindings) :
    b.Live i ∧ store i w b = .ok () (b.withSlot i (.live w)) ∨
      ¬ b.Live i ∧ ∃ e, store i w b = .error e b ∧ e ≠ .badPath := by
  rcases load_bind_cases (b := b) (i := i) (fun _ => setSlot i (.live w)) with ⟨v, hv, h⟩ | h
  · exact .inl ⟨⟨v, hv⟩, h⟩
  · exact .inr h

theorem free_cases (i : Nat) (b : Bindings) :
    b.Live i ∧ free i b = .ok () (b.withSlot i .freed) ∨
      ¬ b.Live i ∧ ∃ e, free i b = .error e b ∧ e ≠ .badPath := by
  rcases load_bind_cases (b := b) (i := i) (fun _ => setSlot i .freed) with ⟨v, hv, h⟩ | h
  · exact .inl ⟨⟨v, hv⟩, h⟩
  · exact .inr h

theorem take_cases (i : Nat) (b : Bindings) :
    (∃ v, b.Holds i v ∧ take i b = .ok v (b.withSlot i .moved)) ∨
      ¬ b.Live i ∧ ∃ e, take i b = .error e b ∧ e ≠ .badPath :=
  load_bind_cases fun v => do
    setSlot i .moved
    return v

theorem storeField_cases (i : Nat) (path : List Nat) (w : Value) (b : Bindings) :
    (∃ v whole, b.Holds i v ∧ Value.setPath? w path v = some whole ∧
      storeField i path w b = .ok () (b.withSlot i (.live whole))) ∨
    (∃ v, b.Holds i v ∧ Value.setPath? w path v = none ∧
      storeField i path w b = .error .badPath b) ∨
    ¬ b.Live i ∧ ∃ e, storeField i path w b = .error e b ∧ e ≠ .badPath := by
  -- what is left to do once the value has been loaded
  obtain ⟨f, hf, hsome, hnone⟩ : ∃ f : Value → BindingM Unit, storeField i path w = load i >>= f ∧
      (∀ v whole, Value.setPath? w path v = some whole → f v = setSlot i (.live whole)) ∧
      ∀ v, Value.setPath? w path v = none → f v = throw .badPath :=
    ⟨_, rfl, fun v whole h => by simp only [h], fun v h => by simp only [h]⟩
  rw [hf]
  rcases load_bind_cases (b := b) (i := i) f with ⟨v, hv, h⟩ | h
  · cases hp : Value.setPath? w path v with
    | some whole =>
      rw [hsome v whole hp] at h
      exact .inl ⟨v, whole, hv, hp, h⟩
    | none =>
      rw [hnone v hp] at h
      exact .inr (.inl ⟨v, hv, hp, h⟩)
  · exact .inr (.inr h)

/-- The bindings after a declaration in the innermost scope. -/
def declared (b : Bindings) (i : Nat) (v : Value) : Bindings where
  slots := b.slots.setIfInBounds i (.live v)
  scopes := b.scopes.modifyHead fun scope => i :: scope

theorem declare_cases (i : Nat) (v : Value) (b : Bindings) :
    b.Vacant i ∧ b.scopes ≠ [] ∧ declare i v b = .ok () (declared b i v) ∨
      ¬ (b.Vacant i ∧ b.scopes ≠ []) ∧ ∃ e, declare i v b = .error e b ∧ e ≠ .badPath := by
  unfold declare
  rw [bind_apply, slot_apply]
  simp only [Vacant]
  cases b.slots[i]? with
  | none => exact .inr ⟨by simp, _, rfl, nofun⟩
  | some s =>
    cases hl : s.isLive with
    | true =>
      refine .inr ⟨by simp [hl], .alreadyLive i, ?_, nofun⟩
      simp only [hl, if_true, bind_apply, throw_apply]
    | false =>
      simp only [hl, Bool.false_eq_true, if_false, bind_apply, get_apply]
      cases hs : b.scopes with
      | nil =>
        refine .inr ⟨by simp, .noScope, ?_, nofun⟩
        simp only [List.isEmpty_nil, if_true, bind_apply, throw_apply]
      | cons scope outer =>
        refine .inl ⟨⟨s, rfl, hl⟩, by simp, ?_⟩
        simp only [List.isEmpty_cons, Bool.false_eq_true, if_false, modify_apply]
        rfl

theorem enterScope_apply (b : Bindings) :
    enterScope b = .ok () { b with scopes := [] :: b.scopes } := rfl

/-- The bindings after the innermost scope was left. -/
def leftScope (b : Bindings) : Bindings :=
  ⟨(releaseAll b.slots (b.scopes.headD [])).1, b.scopes.tail⟩

theorem exitScope_cases (b : Bindings) :
    b.scopes ≠ [] ∧
      exitScope b = .ok (releaseAll b.slots (b.scopes.headD [])).2 (leftScope b) ∨
    b.scopes = [] ∧ exitScope b = .error .noScope b := by
  unfold exitScope
  rw [bind_apply, get_apply, leftScope]
  obtain ⟨slots, scopes⟩ := b
  cases scopes with
  | nil => exact .inr ⟨rfl, rfl⟩
  | cons scope outer => exact .inl ⟨by simp, rfl⟩

end BindingM

end ScopedScript
