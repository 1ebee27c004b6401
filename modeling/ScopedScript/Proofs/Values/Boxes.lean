import ScopedScript.Compile.Emit
import ScopedScript.Proofs.Values.Integers
import ScopedScript.Typing.Check

/-!
# Operators on boxed operands

The compiler gives an operator the kind of its operands when it knows it, and the checker lets
through only operands of that kind on which the operator is defined. On boxes around such operands
the operator that looks into boxes answers with the same fault, or with a box around the same
result.
-/

namespace ScopedScript

/-- The checker has nothing to say against the operator on operands of these types, and the compiler
has an instruction for it that takes them as they stand. -/
structure BinaryOp.Specialized (op : BinaryOp) (l r : Ty) : Prop where
  kind : operandKind l r ≠ .dynamic
  accepted : ∀ span env, (Check.binaryType op l r span env).2 = env

/-- As `BinaryOp.Specialized`, for negation. -/
structure Ty.NegationSpecialized (t : Ty) : Prop where
  kind : operandKind t t ≠ .dynamic
  accepted : ∀ span env, (Check.negationType t span env).2 = env

theorem operandKind_cases {l r : Ty} (h : operandKind l r ≠ .dynamic) :
    l = .int ∧ r = .int ∨ l = .float ∧ r = .float ∨ l = .string ∧ r ≠ .any := by
  unfold operandKind at h
  split at h <;> simp_all

namespace Check

/-- A computation that reports something first does not leave the environment as it was. -/
theorem report_ne (cause : TypeCause) (span : Option Span) (env : Env) :
    (report cause span env).2 ≠ env :=
  fun h => Array.push_ne_self (congrArg Env.errors h)

/-- Arithmetic on operands whose kind is known is accepted where it is defined. -/
theorem arithType_cases {op : ArithOp} {l r : Ty} {span : Option Span} {env : Env}
    (hkind : operandKind l r ≠ .dynamic) (h : (arithType op l r span env).2 = env) :
    l = .int ∧ r = .int ∨ l = .float ∧ r = .float ∧ op.isShift = false ∨
      l = .string ∧ r = .string ∧ op = .add ∨ l = .string ∧ r = .int ∧ op = .mul := by
  by_contra hnone
  simp only [not_or, not_and] at hnone
  obtain ⟨hints, hfloats, htexts, hcopies⟩ := hnone
  have hl : l ≠ .any ∧ r ≠ .any := by
    obtain ⟨rfl, rfl⟩ | ⟨rfl, rfl⟩ | ⟨rfl, hr⟩ := operandKind_cases hkind <;> simp_all
  -- nothing is left but to report
  have hreport : arithType op l r span = do
      if op.isShift then reportInvalid (.shiftOperands op l r) span
      else if l.isNumeric then reportMismatch l r span
      else reportInvalid (.operands op l r) span
      return .any := by
    unfold arithType
    split
    · exact absurd rfl hl.1
    · exact absurd rfl hl.2
    · exact absurd rfl (hints rfl)
    · rw [if_neg (by simp_all), if_neg (by simp_all), if_neg (by simp_all)]
  rw [hreport] at h
  by_cases hshift : op.isShift = true
  · rw [if_pos hshift] at h
    exact report_ne _ _ _ h
  · by_cases hnumeric : l.isNumeric = true
    · rw [if_neg hshift, if_pos hnumeric] at h
      exact report_ne _ _ _ h
    · rw [if_neg hshift, if_neg hnumeric] at h
      exact report_ne _ _ _ h

/-- Operands whose kind is known are ordered with operands of their own type. -/
theorem orderable_cases {l r : Ty} (hkind : operandKind l r ≠ .dynamic) (h : orderable l r = true) :
    l = r ∧ (l = .int ∨ l = .float ∨ l = .string) := by
  obtain ⟨rfl, rfl⟩ | ⟨rfl, rfl⟩ | ⟨rfl, hr⟩ := operandKind_cases hkind
  · simp
  · simp
  · cases r <;> simp_all [orderable]

end Check

namespace BinaryOp.Specialized

variable {l r : Ty}

theorem not_nullable {op : BinaryOp} (h : op.Specialized l r) (hop : op ≠ .eq ∧ op ≠ .ne) :
    (l.isNullable || r.isNullable) = false := by
  by_contra hnull
  rw [Bool.not_eq_false] at hnull
  have hsame := h.accepted none (Env.mk ⟨[], [], []⟩ [] #[] [] [] 0)
  cases op with
  | eq => exact hop.1 rfl
  | ne => exact hop.2 rfl
  | order o | arith a =>
    rw [Check.binaryType, if_pos hnull] at hsame
    exact Check.report_ne _ _ _ hsame

theorem arith_cases {op : ArithOp} (h : (arith op).Specialized l r) :
    l = .int ∧ r = .int ∨ l = .float ∧ r = .float ∧ op.isShift = false ∨
      l = .string ∧ r = .string ∧ op = .add ∨ l = .string ∧ r = .int ∧ op = .mul := by
  have hsame := h.accepted none (Env.mk ⟨[], [], []⟩ [] #[] [] [] 0)
  rw [Check.binaryType, if_neg (by simp [h.not_nullable])] at hsame
  exact Check.arithType_cases h.kind hsame

theorem order_cases {op : OrderOp} (h : (order op).Specialized l r) :
    l = r ∧ (l = .int ∨ l = .float ∨ l = .string) := by
  have hsame := h.accepted none (Env.mk ⟨[], [], []⟩ [] #[] [] [] 0)
  rw [Check.binaryType, if_neg (by simp [h.not_nullable])] at hsame
  refine Check.orderable_cases h.kind ?_
  by_contra hne
  rw [if_pos (by simpa using hne)] at hsame
  exact Check.report_ne _ _ _ hsame

end BinaryOp.Specialized

theorem Ty.NegationSpecialized.cases {t : Ty} (h : t.NegationSpecialized) :
    t = .int ∨ t = .float := by
  obtain ⟨rfl, -⟩ | ⟨rfl, -⟩ | ⟨rfl, -⟩ := operandKind_cases h.kind
  · exact .inl rfl
  · exact .inr rfl
  · exact (Check.report_ne _ _ _ (h.accepted none (Env.mk ⟨[], [], []⟩ [] #[] [] [] 0))).elim

/-! ## Values of a known type -/

namespace Value

variable {ids : Ids} {v : Value}

theorem eq_int (h : v.hasTag (ids.tagOf .int) = true) : ∃ n, v = .int n := by
  cases v <;> first | exact ⟨_, rfl⟩ | cases h

theorem eq_float (h : v.hasTag (ids.tagOf .float) = true) : ∃ x, v = .float x := by
  cases v <;> first | exact ⟨_, rfl⟩ | cases h

theorem eq_string (h : v.hasTag (ids.tagOf .string) = true) : ∃ s, v = .string s := by
  cases v <;> first | exact ⟨_, rfl⟩ | cases h

end Value

namespace Operator

variable {ids : Ids} {l r : Ty} {a b a' b' : Value} (m : Module)

theorem Computes.boxed {op : ArithOp} {result : Except FaultCause Value}
    (h : Computes m op a b result) {kind : OperandKind} (hkind : kind ≠ .dynamic)
    (ha : a'.unboxed = a) (hb : b'.unboxed = b) :
    arith m op .dynamic a' b' = (arith m op kind a b).map Value.boxed := by
  rw [h.1 kind hkind, h.2 a' b' ha hb]

/-- Arithmetic that looks into boxes answers with a box around what the specialized instruction
answers with, and fails as it does. -/
theorem arith_boxed {op : ArithOp} (hop : (BinaryOp.arith op).Specialized l r)
    (ha : a.hasTag (ids.tagOf l) = true) (hb : b.hasTag (ids.tagOf r) = true) (ha' : a'.unboxed = a)
    (hb' : b'.unboxed = b) :
    arith m op .dynamic a' b' = (arith m op (operandKind l r) a b).map Value.boxed := by
  have hdefined : ∃ result : Except FaultCause Value, apply op a b = result.map some := by
    obtain ⟨rfl, rfl⟩ | ⟨rfl, rfl, hshift⟩ | ⟨rfl, rfl, rfl⟩ | ⟨rfl, rfl, rfl⟩ := hop.arith_cases
    · obtain ⟨x, rfl⟩ := Value.eq_int ha
      obtain ⟨y, rfl⟩ := Value.eq_int hb
      exact ⟨_, apply_ints op x y⟩
    · obtain ⟨x, rfl⟩ := Value.eq_float ha
      obtain ⟨y, rfl⟩ := Value.eq_float hb
      cases op <;> first | exact ⟨.ok _, rfl⟩ | cases hshift
    · obtain ⟨x, rfl⟩ := Value.eq_string ha
      obtain ⟨y, rfl⟩ := Value.eq_string hb
      exact ⟨.ok _, rfl⟩
    · obtain ⟨x, rfl⟩ := Value.eq_string ha
      obtain ⟨n, rfl⟩ := Value.eq_int hb
      refine ⟨(repeated x n).map .string, ?_⟩
      rw [apply, if_pos rfl]
      cases repeated x n <;> rfl
  obtain ⟨result, hresult⟩ := hdefined
  exact (computes_of_apply m hresult).boxed m hop.kind ha' hb'

theorem negate_boxed (ht : l.NegationSpecialized) (ha : a.hasTag (ids.tagOf l) = true)
    (ha' : a'.unboxed = a) :
    negate m .dynamic a' = (negate m (operandKind l l) a).map Value.boxed := by
  obtain rfl | rfl := ht.cases
  · obtain ⟨x, rfl⟩ := Value.eq_int ha
    simp only [negate, ha']
    rfl
  · obtain ⟨x, rfl⟩ := Value.eq_float ha
    simp only [negate, ha']
    rfl

/-- Operands in boxes are ordered as those in no box are. -/
theorem order_boxed {op : OrderOp} (hop : (BinaryOp.order op).Specialized l r)
    (ha : a.hasTag (ids.tagOf l) = true) (hb : b.hasTag (ids.tagOf r) = true) (ha' : a'.unboxed = a)
    (hb' : b'.unboxed = b) :
    order m op .dynamic a' b' = order m op (operandKind l r) a b := by
  -- operands of these types are in no box
  have hcompare : ∃ ordering, compare? a b = some ordering ∧
      compare? a.unboxed b.unboxed = some ordering := by
    obtain ⟨rfl, rfl | rfl | rfl⟩ := hop.order_cases
    · obtain ⟨x, rfl⟩ := Value.eq_int ha
      obtain ⟨y, rfl⟩ := Value.eq_int hb
      exact ⟨_, rfl, rfl⟩
    · obtain ⟨x, rfl⟩ := Value.eq_float ha
      obtain ⟨y, rfl⟩ := Value.eq_float hb
      exact ⟨_, rfl, rfl⟩
    · obtain ⟨x, rfl⟩ := Value.eq_string ha
      obtain ⟨y, rfl⟩ := Value.eq_string hb
      exact ⟨_, rfl, rfl⟩
  obtain ⟨ordering, h, hplain⟩ := hcompare
  simp only [order, ha', hb', h, hplain]

end Operator

end ScopedScript
