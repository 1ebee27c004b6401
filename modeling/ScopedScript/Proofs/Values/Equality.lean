import ScopedScript.Machine.Operators
import ScopedScript.Proofs.Evaluation.Floats

/-!
# Equality of values

Boxes around a value and around the fields of its structs make no difference to what a program can
see of it: not to its text, the name of its type, its conversions and its order, and not to
equality. Two values are equal when they are the same without these boxes, the two zeros taken for
one, and hold no NaN. What a closure captured is compared as it stands.
-/

namespace ScopedScript

/-! ## Floats -/

/-- The float itself, but the positive zero for the negative one. -/
def Float.unsignedZero (x : Float) : Float := if x == 0.0 then 0.0 else x

theorem Float.beq_iff (x y : Float) :
    (x == y) = true ↔ x.isNaN = false ∧ unsignedZero x = unsignedZero y := by
  constructor
  · intro h
    rcases eq_or_zeros h with rfl | ⟨rfl, rfl⟩ | ⟨rfl, rfl⟩
    · exact ⟨(beq_self_iff x).1 h, rfl⟩
    · exact ⟨rfl, rfl⟩
    · exact ⟨rfl, rfl⟩
  · rintro ⟨hx, h⟩
    unfold unsignedZero at h
    split_ifs at h with hzero hzero' hzero'
    · rcases eq_or_zeros hzero with rfl | ⟨rfl, -⟩ | ⟨rfl, -⟩ <;>
        rcases eq_or_zeros hzero' with rfl | ⟨rfl, -⟩ | ⟨rfl, -⟩ <;> rfl
    · subst h
      exact absurd rfl hzero'
    · subst h
      exact absurd rfl hzero
    · exact h ▸ (beq_self_iff x).2 hx

theorem Float.isNaN_unsignedZero (x : Float) : (unsignedZero x).isNaN = x.isNaN := by
  unfold unsignedZero
  split_ifs with hzero
  · exact ((beq_iff x 0.0).1 hzero).1.symm
  · rfl

namespace Value

/-! ## NaN and the signs of zeros -/

mutual

/-- Whether a NaN is in the value, as a field of its structs or a captured value at any depth. -/
def hasNaN : Value → Bool
  | float x => x.isNaN
  | struct _ fields => anyNaN fields
  | closure _ captures => anyNaN captures
  | any inner => hasNaN inner
  | _ => false

def anyNaN : List Value → Bool
  | [] => false
  | v :: vs => hasNaN v || anyNaN vs

end

mutual

/-- The value without the signs of its zeros. -/
def unsigned : Value → Value
  | float x => float (Float.unsignedZero x)
  | struct type fields => struct type (unsignedList fields)
  | closure id captures => closure id (unsignedList captures)
  | any inner => any (unsigned inner)
  | v => v

def unsignedList : List Value → List Value
  | [] => []
  | v :: vs => unsigned v :: unsignedList vs

end

mutual

theorem hasNaN_unsigned : ∀ v : Value, v.unsigned.hasNaN = v.hasNaN
  | float x => Float.isNaN_unsignedZero x
  | struct _ fields => anyNaN_unsignedList fields
  | closure _ captures => anyNaN_unsignedList captures
  | any inner => hasNaN_unsigned inner
  | int _ | bool _ | string _ | null | function _ | native _ | task _ => rfl

theorem anyNaN_unsignedList : ∀ vs : List Value, anyNaN (unsignedList vs) = anyNaN vs
  | [] => rfl
  | v :: vs => by rw [unsignedList, anyNaN, anyNaN, hasNaN_unsigned v, anyNaN_unsignedList vs]

end

mutual

/-- Values compared as they stand, boxes and all. -/
theorem identical_iff : ∀ a b : Value,
    identical a b = true ↔ a.hasNaN = false ∧ a.unsigned = b.unsigned
  | float x, b => by
    cases b with
    | float y => simpa only [identical, hasNaN, unsigned, float.injEq] using Float.beq_iff x y
    | _ => simp [identical, unsigned]
  | struct t fs, b => by
    cases b <;> simp [identical, hasNaN, unsigned, identicalList_iff fs, and_left_comm]
  | closure f cs, b => by
    cases b <;> simp [identical, hasNaN, unsigned, identicalList_iff cs, and_left_comm]
  | any a, b => by cases b <;> simp [identical, hasNaN, unsigned, identical_iff a]
  | int _, b | bool _, b | string _, b | null, b | function _, b | native _, b | task _, b => by
    cases b <;> simp [identical, hasNaN, unsigned]

theorem identicalList_iff : ∀ as bs : List Value,
    identicalList as bs = true ↔ anyNaN as = false ∧ unsignedList as = unsignedList bs
  | [], bs => by cases bs <;> simp [identicalList, anyNaN, unsignedList]
  | a :: as, bs => by
    cases bs with
    | nil => simp [identicalList, unsignedList]
    | cons b bs =>
      simp only [identicalList, Bool.and_eq_true, identical_iff a b,
        identicalList_iff as bs, anyNaN, Bool.or_eq_false_iff, unsignedList, List.cons.injEq]
      tauto

end

/-! ## Boxes -/

mutual

/-- Two values that differ only in boxes around them and around the fields of their structs, at any
depth. -/
inductive UpToBoxes : Value → Value → Prop
  | refl (v : Value) : UpToBoxes v v
  | left {v w : Value} (h : UpToBoxes v w) : UpToBoxes (any v) w
  | right {v w : Value} (h : UpToBoxes v w) : UpToBoxes v (any w)
  | struct {type : Nat} {fields others : List Value} (h : UpToBoxesList fields others) :
    UpToBoxes (struct type fields) (struct type others)

inductive UpToBoxesList : List Value → List Value → Prop
  | nil : UpToBoxesList [] []
  | cons {v w : Value} {vs ws : List Value} (hv : UpToBoxes v w) (hvs : UpToBoxesList vs ws) :
    UpToBoxesList (v :: vs) (w :: ws)

end

mutual

/-- The value without the boxes around it and around the fields of its structs at any depth. What
closures captured stays as it is. -/
def stripped : Value → Value
  | struct type fields => struct type (strippedList fields)
  | any inner => stripped inner
  | v => v

def strippedList : List Value → List Value
  | [] => []
  | v :: vs => stripped v :: strippedList vs

end

mutual

theorem UpToBoxes.stripped_eq {v w : Value} : UpToBoxes v w → v.stripped = w.stripped
  | .refl _ => rfl
  | .left h => h.stripped_eq
  | .right h => h.stripped_eq
  | .struct h => congrArg (Value.struct _) h.strippedList_eq

theorem UpToBoxesList.strippedList_eq {vs ws : List Value} :
    UpToBoxesList vs ws → strippedList vs = strippedList ws
  | .nil => rfl
  | .cons hv hvs => congrArg₂ List.cons hv.stripped_eq hvs.strippedList_eq

end

theorem stripped_unboxed (v : Value) : v.unboxed.stripped = v.stripped := by
  induction v using unboxed.induct with
  | case1 inner ih => rw [unboxed, ih, stripped]
  | case2 v hv => rw [unboxed]; exact hv

theorem unboxed_stripped (v : Value) : v.stripped.unboxed = v.unboxed.stripped := by
  induction v using unboxed.induct with
  | case1 inner ih => rwa [stripped, unboxed]
  | case2 v hv => cases v <;> first | rfl | exact absurd rfl (hv _)

theorem unboxed_ne_any (v w : Value) : v.unboxed ≠ any w := by
  induction v using unboxed.induct with
  | case1 inner ih => rwa [unboxed]
  | case2 v hv => rw [unboxed]; exacts [hv w, hv]

mutual

/-- Equality looks through the boxes as it goes, to the same effect as without them. -/
theorem equals_eq : ∀ a b : Value, equals a b = identical a.stripped b.stripped
  | any a, b => by rw [equals, stripped, equals_eq a b]
  | struct t fs, b => by
    rw [equals, ← stripped_unboxed b]
    cases hb : b.unboxed with
    | struct u gs => simp only [stripped, identical, equalsList_eq fs gs]
    | any inner => exact absurd hb (unboxed_ne_any b inner)
    | _ => rfl
  | float _, b | closure .., b | int _, b | bool _, b | string _, b | null, b | function _, b
  | native _, b | task _, b => by
    simp only [equals, stripped]
    rw [← stripped_unboxed b]
    cases hb : b.unboxed with
    | any inner => exact absurd hb (unboxed_ne_any b inner)
    | _ => rfl

theorem equalsList_eq : ∀ as bs : List Value,
    equalsList as bs = identicalList (strippedList as) (strippedList bs)
  | [], bs => by cases bs <;> rfl
  | a :: as, bs => by
    cases bs with
    | nil => rfl
    | cons b bs => rw [equalsList, equals_eq a b, equalsList_eq as bs]; rfl

end

mutual

theorem hasNaN_stripped : ∀ v : Value, v.stripped.hasNaN = v.hasNaN
  | any v => by rw [stripped, hasNaN, hasNaN_stripped v]
  | struct t fs => by rw [stripped, hasNaN, hasNaN, anyNaN_strippedList fs]
  | float _ | closure .. | int _ | bool _ | string _ | null | function _ | native _ | task _ => rfl

theorem anyNaN_strippedList : ∀ vs : List Value, anyNaN (strippedList vs) = anyNaN vs
  | [] => rfl
  | v :: vs => by rw [strippedList, anyNaN, anyNaN, hasNaN_stripped v, anyNaN_strippedList vs]

end

/-! ## Equality -/

theorem equals_iff (a b : Value) :
    a.equals b = true ↔ a.hasNaN = false ∧ a.stripped.unsigned = b.stripped.unsigned := by
  rw [equals_eq, identical_iff, hasNaN_stripped]

theorem equals_self (a : Value) : a.equals a = true ↔ a.hasNaN = false := by
  simp [equals_iff]

/-- What is equal to a value without NaN has none either. -/
theorem equals_symm {a b : Value} (h : a.equals b = true) : b.equals a = true := by
  obtain ⟨hnan, hsame⟩ := (equals_iff a b).1 h
  refine (equals_iff b a).2 ⟨?_, hsame.symm⟩
  calc b.hasNaN = b.stripped.unsigned.hasNaN := by rw [hasNaN_unsigned, hasNaN_stripped]
    _ = a.stripped.unsigned.hasNaN := by rw [hsame]
    _ = a.hasNaN := by rw [hasNaN_unsigned, hasNaN_stripped]
    _ = false := hnan

theorem equals_comm (a b : Value) : a.equals b = b.equals a :=
  Bool.eq_iff_iff.2 ⟨equals_symm, equals_symm⟩

theorem equals_trans {a b c : Value} (hab : a.equals b = true) (hbc : b.equals c = true) :
    a.equals c = true := by
  obtain ⟨hnan, hsame⟩ := (equals_iff a b).1 hab
  exact (equals_iff a c).2 ⟨hnan, hsame.trans ((equals_iff b c).1 hbc).2⟩

theorem UpToBoxes.equals_eq {a a' b b' : Value} (ha : UpToBoxes a a') (hb : UpToBoxes b b') :
    a.equals b = a'.equals b' := by
  rw [Value.equals_eq, Value.equals_eq, ha.stripped_eq, hb.stripped_eq]

/-! ## What else can be seen of a value -/

variable (m : Module)

mutual

theorem text_stripped : ∀ v : Value, v.stripped.text m = v.text m
  | any v => by rw [stripped, text, text_stripped v]
  | struct t fs => by rw [stripped, text, text, fieldTexts_strippedList fs]
  | float _ | closure .. | int _ | bool _ | string _ | null | function _ | native _ | task _ => rfl

theorem fieldTexts_strippedList : ∀ (vs : List Value) (names : List String),
    fieldTexts m names (strippedList vs) = fieldTexts m names vs
  | [], _ => rfl
  | [v], names => by rw [strippedList, strippedList, fieldTexts, fieldTexts, text_stripped v]
  | v :: w :: rest, names => by
    have hrest := fieldTexts_strippedList (w :: rest) names.tail
    rw [strippedList] at hrest
    rw [strippedList, strippedList, fieldTexts, fieldTexts, text_stripped v, hrest]

end

theorem typeName_stripped (v : Value) : v.stripped.typeName m = v.typeName m := by
  induction v using unboxed.induct with
  | case1 inner ih => rw [stripped, ih, typeName]
  | case2 v hv => cases v <;> first | rfl | exact absurd rfl (hv _)

open Operator

/-- Only the text of a struct depends on what is inside the value that is in no box. -/
theorem convert_stripped (target : CastTarget) (v : Value) :
    convert m target v.stripped = convert m target v := by
  have htext := text_stripped m v.unboxed
  have htype := typeName_stripped m v.unboxed
  simp only [convert, unboxed_stripped]
  cases hv : v.unboxed with
  | any inner => exact absurd hv (unboxed_ne_any v inner)
  | struct t fs =>
    rw [hv] at htext htype
    cases target <;> simp_all [stripped]
  | _ => rfl

theorem compare?_stripped (a b : Value) :
    compare? a.stripped.unboxed b.stripped.unboxed = compare? a.unboxed b.unboxed := by
  rw [unboxed_stripped, unboxed_stripped]
  cases ha : a.unboxed with
  | any inner => exact absurd ha (unboxed_ne_any a inner)
  | int _ | float _ | string _ =>
    cases hb : b.unboxed with
    | any inner => exact absurd hb (unboxed_ne_any b inner)
    | _ => rfl
  | _ => rfl

theorem order_stripped (op : OrderOp) (kind : OperandKind) (a b : Value) :
    order m op kind a.stripped b.stripped = order m op kind a b := by
  simp only [order, compare?_stripped, typeName_stripped]

/-- Equality is symmetric and transitive, and reflexive but for NaN: two values are equal when they
hold no NaN and are the same without boxes and signs of zeros. Boxes around values and around the
fields of their structs make no difference to it, nor to the text of a value, the name of its type,
its conversions and its order. -/
theorem equality_ignores_boxes :
    (∀ a b : Value, a.equals b = b.equals a) ∧
    (∀ a b c : Value, a.equals b = true → b.equals c = true → a.equals c = true) ∧
    (∀ a : Value, a.equals a = true ↔ a.hasNaN = false) ∧
    (∀ a b : Value, a.equals b = true ↔
      a.hasNaN = false ∧ a.stripped.unsigned = b.stripped.unsigned) ∧
    (∀ a a' b b' : Value, a.UpToBoxes a' → b.UpToBoxes b' → a.equals b = a'.equals b') ∧
    (∀ a a' : Value, a.UpToBoxes a' →
      a.text m = a'.text m ∧ a.typeName m = a'.typeName m ∧
        ∀ target, convert m target a = convert m target a') ∧
    ∀ a a' b b' : Value, a.UpToBoxes a' → b.UpToBoxes b' →
      ∀ op kind, order m op kind a b = order m op kind a' b' := by
  refine ⟨equals_comm, fun _ _ _ => equals_trans, equals_self, equals_iff,
    fun _ _ _ _ ha hb => ha.equals_eq hb, ?seen, ?ordered⟩
  case seen =>
    intro a a' ha
    refine ⟨?_, ?_, fun target => ?_⟩
    · rw [← text_stripped, ha.stripped_eq, text_stripped]
    · rw [← typeName_stripped, ha.stripped_eq, typeName_stripped]
    · rw [← convert_stripped, ha.stripped_eq, convert_stripped]
  case ordered =>
    intro a a' b b' ha hb op kind
    rw [← order_stripped, ha.stripped_eq, hb.stripped_eq, order_stripped]

/-- A struct with a field in two boxes, and the same struct in a box with that field in none. -/
theorem nestedBoxes_alike :
    UpToBoxes (struct 0 [any (any (int 1)), closure 0 [any null]])
        (any (struct 0 [int 1, closure 0 [any null]])) ∧
      (struct 0 [any (any (int 1)), closure 0 [any null]]).equals
        (any (struct 0 [int 1, closure 0 [any null]])) = true ∧
      (struct 0 [any (any (int 1)), closure 0 [any null]]).text .empty =
        (any (struct 0 [int 1, closure 0 [any null]])).text .empty := by
  have halike : UpToBoxes (struct 0 [any (any (int 1)), closure 0 [any null]])
      (any (struct 0 [int 1, closure 0 [any null]])) :=
    .right (.struct (.cons (.left (.left (.refl _))) (.cons (.refl _) .nil)))
  obtain ⟨-, -, hself, -, hboxes, hseen, -⟩ := equality_ignores_boxes .empty
  refine ⟨halike, ?_, (hseen _ _ halike).1⟩
  rw [hboxes _ _ _ _ halike (.refl _)]
  exact (hself _).2 rfl

end Value

end ScopedScript
