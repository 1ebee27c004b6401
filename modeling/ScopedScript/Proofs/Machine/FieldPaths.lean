import ScopedScript.Proofs.Machine.BindingHistory

/-!
# Writes along field paths

A write along a path of fields replaces the value at the end of it. Structs on the way keep their
types and the number of their fields, and what other paths lead to stays as it was.
-/

namespace ScopedScript

namespace Value

/-- The value that a path of field indices leads to. Boxes are not looked through. -/
def atPath? : List Nat → Value → Option Value
  | [], v => some v
  | i :: path, struct _ fields => fields[i]?.bind (atPath? path)
  | _ :: _, _ => none

variable {new v w : Value} {path q : List Nat} {i : Nat} {fields : List Value}

theorem setField?_eq (new : Value) (path : List Nat) (i : Nat) (fields : List Value) :
    setField? new path i fields = (fields[i]?.bind (setPath? new path)).map (fields.set i) := by
  induction fields generalizing i with
  | nil => cases i <;> simp [setField?]
  | cons v rest ih =>
    cases i with
    | zero =>
      rw [setField?, List.getElem?_cons_zero, Option.bind_some]
      rfl
    | succ i =>
      rw [setField?, ih, List.getElem?_cons_succ, Option.map_map]
      rfl

@[simp]
theorem setPath?_nil (new v : Value) : setPath? new [] v = some new := by
  rw [setPath?]

/-- One step of a write goes into a field of a struct. -/
theorem setPath?_cons (h : setPath? new (i :: path) v = some w) : ∃ type fields u u',
    v = struct type fields ∧ fields[i]? = some u ∧ setPath? new path u = some u' ∧
      w = struct type (fields.set i u') := by
  cases v with
  | struct type fields =>
    rw [setPath?, setField?_eq, Option.map_map, Option.map_eq_some_iff] at h
    obtain ⟨u', hu', rfl⟩ := h
    obtain ⟨u, hu, hset⟩ := Option.bind_eq_some_iff.1 hu'
    exact ⟨type, fields, u, u', rfl, hu, hset, rfl⟩
  | _ => cases h

theorem setPath?_struct {type : Nat} {u u' : Value} (hu : fields[i]? = some u)
    (h : setPath? new path u = some u') :
    setPath? new (i :: path) (struct type fields) = some (struct type (fields.set i u')) := by
  rw [setPath?, setField?_eq, hu, Option.bind_some, h]
  rfl

theorem atPath?_cons (i : Nat) (path : List Nat) (type : Nat) (fields : List Value) :
    atPath? (i :: path) (struct type fields) = fields[i]?.bind (atPath? path) := rfl

theorem atPath?_set_self {type : Nat} {u u' : Value} (hu : fields[i]? = some u) :
    atPath? (i :: path) (struct type (fields.set i u')) = atPath? path u' := by
  rw [atPath?_cons, List.getElem?_set_self (List.getElem?_eq_some_iff.1 hu).1, Option.bind_some]

/-- A write can be carried out just when the path leads to a value. -/
theorem exists_setPath?_iff :
    (∃ w, setPath? new path v = some w) ↔ ∃ u, atPath? path v = some u := by
  induction path generalizing v with
  | nil => exact ⟨fun _ => ⟨v, rfl⟩, fun _ => ⟨new, setPath?_nil new v⟩⟩
  | cons i path ih =>
    constructor
    · rintro ⟨w, h⟩
      obtain ⟨type, fields, u, u', rfl, hu, hset, -⟩ := setPath?_cons h
      rw [atPath?_cons, hu, Option.bind_some]
      exact ih.1 ⟨u', hset⟩
    · rintro ⟨x, h⟩
      cases v with
      | struct type fields =>
        obtain ⟨u, hu, hat⟩ := Option.bind_eq_some_iff.1 h
        obtain ⟨u', hset⟩ := ih.2 ⟨x, hat⟩
        exact ⟨_, setPath?_struct hu hset⟩
      | _ => cases h

/-- What has been written is read. -/
theorem atPath?_of_setPath? (h : setPath? new path v = some w) : atPath? path w = some new := by
  induction path generalizing v w with
  | nil => rw [atPath?, ← h, setPath?_nil]
  | cons i path ih =>
    obtain ⟨type, fields, u, u', rfl, hu, hset, rfl⟩ := setPath?_cons h
    rw [atPath?_set_self hu]
    exact ih hset

/-- Paths that leave the path of the write lead to what they led to. -/
theorem atPath?_apart (h : setPath? new path v = some w) (hq : ¬ path <+: q) (hp : ¬ q <+: path) :
    atPath? q w = atPath? q v := by
  induction path generalizing v w q with
  | nil => exact absurd (List.nil_prefix) hq
  | cons i path ih =>
    obtain ⟨type, fields, u, u', rfl, hu, hset, rfl⟩ := setPath?_cons h
    cases q with
    | nil => exact absurd (List.nil_prefix) hp
    | cons j q =>
      by_cases hij : i = j
      · subst hij
        rw [List.prefix_cons_inj] at hq hp
        rw [atPath?_set_self hu, atPath?_cons, hu, Option.bind_some]
        exact ih hset hq hp
      · rw [atPath?_cons, atPath?_cons, List.getElem?_set_ne hij]

/-- On the way of a write, structs keep their types and the number of their fields. -/
theorem atPath?_on_way (h : setPath? new path v = some w) (hq : q <+: path) (hne : q ≠ path) :
    ∃ type fields fields', atPath? q v = some (struct type fields) ∧
      atPath? q w = some (struct type fields') ∧ fields'.length = fields.length := by
  induction path generalizing v w q with
  | nil => exact absurd (List.prefix_nil.1 hq) hne
  | cons i path ih =>
    obtain ⟨type, fields, u, u', rfl, hu, hset, rfl⟩ := setPath?_cons h
    cases q with
    | nil => exact ⟨type, fields, _, rfl, rfl, List.length_set⟩
    | cons j q =>
      obtain ⟨rfl, hrest⟩ := List.cons_prefix_cons.1 hq
      rw [atPath?_set_self hu, atPath?_cons, hu, Option.bind_some]
      exact ih hset hrest fun heq => hne (congrArg _ heq)

/-- Writing what is there changes nothing. -/
theorem setPath?_of_atPath? (h : atPath? path v = some new) : setPath? new path v = some v := by
  induction path generalizing v with
  | nil => rw [setPath?_nil, ← h, atPath?]
  | cons i path ih =>
    cases v with
    | struct type fields =>
      obtain ⟨u, hu, hat⟩ := Option.bind_eq_some_iff.1 h
      obtain ⟨hlt, rfl⟩ := List.getElem?_eq_some_iff.1 hu
      rw [setPath?_struct hu (ih hat), List.set_getElem_self]
    | _ => cases h

end Value

namespace Bindings

variable {b b' : Bindings} {slot : Nat} {path q : List Nat} {v w : Value}

/-- What a path leads to in a binding that is loaded. -/
def read (b : Bindings) (slot : Nat) (path : List Nat) : Option Value :=
  match BindingM.load slot b with
  | .ok v _ => v.atPath? path
  | .error _ _ => none

theorem read_of_holds (h : b.Holds slot v) (path : List Nat) :
    b.read slot path = v.atPath? path := by
  rw [read, BindingM.load_eq_ok.2 ⟨h, rfl⟩]

theorem holds_of_read (h : b.read slot path = some w) :
    ∃ v, b.Holds slot v ∧ v.atPath? path = some w := by
  rcases BindingM.load_cases slot b with ⟨v, hv, -⟩ | ⟨-, e, he, -⟩
  · exact ⟨v, hv, by rwa [read_of_holds hv] at h⟩
  · rw [read, he] at h
    cases h

theorem withSlot_of_holds (h : b.Holds slot v) : b.withSlot slot (.live v) = b := by
  have hslots : b.slots.setIfInBounds slot (.live v) = b.slots := by
    refine Array.ext_getElem? fun j => ?_
    rw [Array.getElem?_setIfInBounds]
    by_cases hj : slot = j
    · subst hj
      rw [if_pos rfl, if_pos h.lt_size, h]
    · rw [if_neg hj]
  rw [withSlot, hslots]

/-- The value has been written along the path of a binding, and nothing else has changed. -/
structure WrittenAt (b : Bindings) (slot : Nat) (path : List Nat) (v : Value)
    (b' : Bindings) : Prop where
  written : b'.read slot path = some v
  apart : ∀ q, ¬ path <+: q → ¬ q <+: path → b'.read slot q = b.read slot q
  on_way : ∀ q, q <+: path → q ≠ path → ∃ type fields fields',
    b.read slot q = some (.struct type fields) ∧
    b'.read slot q = some (.struct type fields') ∧ fields'.length = fields.length
  others : ∀ j, j ≠ slot → b'.slots[j]? = b.slots[j]?
  scopes : b'.scopes = b.scopes

theorem writtenAt_of_storeField (h : BindingM.storeField slot path v b = .ok () b') :
    b.WrittenAt slot path v b' := by
  rcases BindingM.storeField_cases slot path v b with ⟨w, whole, hw, hset, hok⟩ | ⟨-, -, -,
    hbad⟩ | ⟨-, e, he, -⟩
  · rw [hok] at h
    cases h
    have hwhole : (b.withSlot slot (.live whole)).Holds slot whole := by
      rw [holds_withSlot_live hw.lt_size, if_pos rfl]
    constructor
    case written => rw [read_of_holds hwhole, Value.atPath?_of_setPath? hset]
    case apart =>
      intro q hq hp
      rw [read_of_holds hwhole, read_of_holds hw, Value.atPath?_apart hset hq hp]
    case on_way =>
      intro q hq hne
      rw [read_of_holds hwhole, read_of_holds hw]
      exact Value.atPath?_on_way hset hq hne
    case others =>
      intro j hj
      rw [slots_withSlot, if_neg fun h => hj h.1.symm]
    case scopes => rfl
  · rw [hbad] at h
    cases h
  · rw [he] at h
    cases h

theorem storeField_of_read (h : b.read slot path = some v) :
    BindingM.storeField slot path v b = .ok () b := by
  obtain ⟨w, hw, hat⟩ := holds_of_read h
  have hset := Value.setPath?_of_atPath? hat
  rcases BindingM.storeField_cases slot path v b with ⟨w', whole, hw', hset', hok⟩ | ⟨w', hw',
    hnone, -⟩ | ⟨hl, -⟩
  · obtain rfl := hw.unique hw'
    rw [hset] at hset'
    cases hset'
    rw [hok, withSlot_of_holds hw]
  · obtain rfl := hw.unique hw'
    rw [hset] at hnone
    cases hnone
  · exact absurd ⟨w, hw⟩ hl

/-- A write succeeds just where the path leads to a value. -/
theorem exists_storeField_iff :
    (∃ b', BindingM.storeField slot path v b = .ok () b') ↔ ∃ w, b.read slot path = some w := by
  rcases BindingM.storeField_cases slot path v b with ⟨u, whole, hu, hset, hok⟩ | ⟨u, hu, hnone,
    hbad⟩ | ⟨hl, e, he, -⟩
  · rw [hok, read_of_holds hu]
    exact iff_of_true ⟨_, rfl⟩ (Value.exists_setPath?_iff.1 ⟨whole, hset⟩)
  · rw [hbad, read_of_holds hu]
    refine iff_of_false nofun fun hread => ?_
    obtain ⟨w, hset⟩ := Value.exists_setPath?_iff.2 hread
    exact nomatch hnone.symm.trans hset
  · rw [he]
    refine iff_of_false nofun fun ⟨w, hw⟩ => hl ?_
    obtain ⟨u, hu, -⟩ := holds_of_read hw
    exact ⟨u, hu⟩

/-- Whatever the bindings are, an operation that fails leaves them as they were. A write along a
path succeeds where the path leads to a value; it changes what the path leads to and nothing else.
Writing what was read there changes nothing. -/
theorem operations_precise (b : Bindings) :
    (∀ op e b', BindingOp.run op b = .error e b' → b' = b) ∧
    (∀ slot path v, ((∃ b', BindingM.storeField slot path v b = .ok () b') ↔
      ∃ w, b.read slot path = some w) ∧
      ∀ b', BindingM.storeField slot path v b = .ok () b' → b.WrittenAt slot path v b') ∧
    ∀ slot path v, b.read slot path = some v → BindingM.storeField slot path v b = .ok () b :=
  ⟨fun _ _ _ => BindingOp.eq_of_run_error,
    fun _ _ _ => ⟨exists_storeField_iff, fun _ => writtenAt_of_storeField⟩, fun _ _ _ =>
      storeField_of_read⟩

/-- A field of a struct in a struct is written, its neighbour stays, and a path that leads on from
it fails. -/
theorem operations_precise_nested : ∃ b b' : Bindings,
    BindingM.storeField 0 [0, 0] (.int 9) b = .ok () b' ∧ b'.read 0 [0, 0] = some (.int 9) ∧
      b'.read 0 [0, 1] = some (.int 5) ∧ BindingM.storeField 0 [0, 0] (.int 0) b = .ok () b ∧
      ∃ e b'', BindingOp.run (.storeField 0 [0, 0, 2] .null) b = .error e b'' ∧ b'' = b := by
  let b : Bindings := ⟨#[.live (.struct 0 [.struct 1 [.int 0, .int 5]])], [[0]]⟩
  obtain ⟨hfails, hwrites, hsame⟩ := operations_precise b
  obtain ⟨hok, hwritten⟩ := hwrites 0 [0, 0] (.int 9)
  obtain ⟨b', hb'⟩ := hok.2 ⟨.int 0, rfl⟩
  have hspec := hwritten b' hb'
  have hbad : BindingOp.run (.storeField 0 [0, 0, 2] .null) b = .error .badPath b := by cbv
  exact ⟨b, b', hb', hspec.written, hspec.apart [0, 1] (by decide) (by decide),
    hsame 0 [0, 0] (.int 0) rfl, _, _, hbad, hfails _ _ _ hbad⟩

end Bindings

end ScopedScript
