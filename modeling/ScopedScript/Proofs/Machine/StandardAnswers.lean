import ScopedScript.Machine.Standard
import ScopedScript.Proofs.Machine.Handles

/-!
# Answers of the standard built-ins

Every standard built-in answers with the kind of value that it declares, which is null, a number or
a text. So it makes no handles.
-/

namespace ScopedScript

/-- Values of these types are what their type says, without a box around them. -/
def TypeExpr.admitsScalar : TypeExpr → Value → Bool
  | .void, .null => true
  | .int, .int _ => true
  | .float, .float _ => true
  | .string, .string _ => true
  | _, _ => false

theorem TypeExpr.scalar_of_admitsScalar {t : TypeExpr} {v : Value} (h : t.admitsScalar v = true) :
    v.Scalar := by
  cases v <;> first | trivial | (cases t <;> cases h)

namespace Builtin

/-- Its answers are scalars of its return type. -/
def AnswersScalars (b : Builtin) : Prop :=
  ∀ m args v, (b.call m args).answer = .ok v → b.ret.admitsScalar v = true

theorem AnswersScalars.forwardsHandles {b : Builtin} (h : b.AnswersScalars) :
    b.ForwardsHandles := by
  intro m args v hv id hid
  rw [(TypeExpr.scalar_of_admitsScalar (h m args v hv)).handles] at hid
  cases hid

theorem answersScalars_writer (name ending : String) : (writer name ending).AnswersScalars := by
  intro m args v h
  simp only [writer] at h
  split at h
  · cases h
    rfl
  · cases h

theorem answersScalars_typeOf : typeOf.AnswersScalars := by
  intro m args v h
  obtain ⟨w, -, hw⟩ := exists_of_bind_eq_ok h
  cases hw
  rfl

theorem answersScalars_toText : toText.AnswersScalars := by
  intro m args v h
  obtain ⟨w, -, hw⟩ := exists_of_bind_eq_ok h
  cases hw
  rfl

theorem answersScalars_len : len.AnswersScalars := by
  intro m args v h
  obtain ⟨w, -, hw⟩ := exists_of_bind_eq_ok h
  obtain ⟨s, -, hs⟩ := exists_of_bind_eq_ok hw
  cases hs
  rfl

theorem answersScalars_assert : assert.AnswersScalars := by
  intro m args v h
  simp only [assert, silent] at h
  split at h
  · split at h
    · cases h
      rfl
    · obtain ⟨w, -, hw⟩ := exists_of_bind_eq_ok h
      cases hw
    · cases h
  · cases h

theorem answersScalars_abs : abs.AnswersScalars := by
  intro m args v h
  obtain ⟨w, -, hw⟩ := exists_of_bind_eq_ok h
  obtain ⟨n, -, hn⟩ := exists_of_bind_eq_ok hw
  cases hn
  rfl

theorem answersScalars_sqrt : sqrt.AnswersScalars := by
  intro m args v h
  obtain ⟨w, -, hw⟩ := exists_of_bind_eq_ok h
  obtain ⟨x, -, hx⟩ := exists_of_bind_eq_ok hw
  dsimp only at hx
  split at hx
  · cases hx
  · cases hx
    rfl

theorem answersScalars_toFloat : toFloat.AnswersScalars := by
  intro m args v h
  obtain ⟨w, -, hw⟩ := exists_of_bind_eq_ok h
  obtain ⟨n, -, hn⟩ := exists_of_bind_eq_ok hw
  cases hn
  rfl

theorem answersScalars_toInt : toInt.AnswersScalars := by
  intro m args v h
  obtain ⟨w, -, hw⟩ := exists_of_bind_eq_ok h
  obtain ⟨x, -, hx⟩ := exists_of_bind_eq_ok hw
  split at hx
  · cases hx
    rfl
  · cases hx

end Builtin

namespace Registry

theorem entries_standard : standard.entries = Builtin.standard := rfl

theorem answersScalars_standard : ∀ b ∈ standard.entries, b.AnswersScalars := by
  rw [entries_standard]
  intro b hb
  simp only [Builtin.standard, List.mem_cons, List.not_mem_nil, or_false] at hb
  rcases hb with rfl | rfl | rfl | rfl | rfl | rfl | rfl | rfl | rfl | rfl
  · exact Builtin.answersScalars_writer "print" ""
  · exact Builtin.answersScalars_writer "println" "\n"
  · exact Builtin.answersScalars_typeOf
  · exact Builtin.answersScalars_toText
  · exact Builtin.answersScalars_len
  · exact Builtin.answersScalars_assert
  · exact Builtin.answersScalars_abs
  · exact Builtin.answersScalars_sqrt
  · exact Builtin.answersScalars_toFloat
  · exact Builtin.answersScalars_toInt

theorem forwardsHandles_standard : ∀ b ∈ standard.entries, b.ForwardsHandles :=
  fun b hb => (answersScalars_standard b hb).forwardsHandles

end Registry

end ScopedScript
