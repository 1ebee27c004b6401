import ScopedScript.Proofs.Compile.Modules
import ScopedScript.Proofs.Machine.Liveness
import ScopedScript.Proofs.Typing.Loops

/-!
# Slots of compiled code

The point that the compiler is at mirrors the bindings of every frame that comes there: the open
scopes have the same slots, and what the compiler may use is live. So code in its layout finds the
slots that it works on as it needs them, on every path through it.
-/

namespace ScopedScript

open Bindings

namespace Instr

/-- The instruction finds the slot that it works on live, one that it declares not live, and a scope
open where it needs one. -/
def Meets : Instr → Bindings → Prop
  | declare slot, b => b.Vacant slot ∧ b.scopes ≠ []
  | load slot, b | move slot, b | store slot, b | storeField slot _, b | free slot, b => b.Live slot
  | exitScope, b => b.scopes ≠ []
  | _, _ => True

/-- Instructions that have nothing to do with bindings and go on to the next one. -/
def plain : Instr → Bool
  | jump _ | jumpIfFalse _ | jumpIfTrue _ | enterScope | exitScope | declare _ | load _ | move _
  | store _ | storeField _ _ | free _ | ret => false
  | _ => true

theorem plain_spec {i : Instr} (h : i.plain = true) :
    i.rebinds = false ∧ (∀ b, i.Meets b) ∧ ∀ ip ip', i.Goes ip ip' → ip' = ip := by
  cases i <;> first | exact ⟨rfl, fun _ => trivial, fun _ _ h => h⟩ | cases h

theorem Rebinds.eq_of_not {i : Instr} {b b' : Bindings} {es : List BindingEvent}
    (h : i.Rebinds b es b') (hi : i.rebinds = false) : b' = b := by
  cases h <;> first | rfl | cases hi

end Instr

/-- Whatever path control takes from here through the function, for so many instructions, each of
them finds the slots as it needs them. -/
def Safe (f : FunctionCode) : Nat → Nat → Bindings → Prop
  | 0, _, _ => True
  | n + 1, ip, b => ∀ i, f.code[ip]? = some i → i.Meets b ∧
    ∀ es b' ip', i.Rebinds b es b' → i.Goes (ip + 1) ip' → Safe f n ip' b'

section

variable {f : FunctionCode} {n ip : Nat} {b : Bindings} {i : Instr} {span : Option Span}

theorem Safe.pred (h : Safe f (n + 1) ip b) : Safe f n ip b := by
  induction n generalizing ip b with
  | zero => trivial
  | succ n ih =>
    intro i hi
    obtain ⟨hm, hs⟩ := h i hi
    exact ⟨hm, fun es b' ip' hb hg => ih (hs es b' ip' hb hg)⟩

theorem Safe.mono {m : Nat} (h : Safe f n ip b) (hm : m ≤ n) : Safe f m ip b := by
  induction hm with
  | refl => exact h
  | step _ ih => exact ih h.pred

/-- One instruction. -/
theorem safe_has (h : f.Has ip i span) (hm : i.Meets b)
    (hs : ∀ m, m + 1 = n → ∀ es b' ip', i.Rebinds b es b' → i.Goes (ip + 1) ip' → Safe f m ip' b') :
    Safe f n ip b := by
  cases n with
  | zero => trivial
  | succ n =>
    intro j hj
    rw [h.1] at hj
    cases hj
    exact ⟨hm, hs n rfl⟩

theorem safe_plain (h : f.Has ip i span) (hi : i.plain = true) (hs : Safe f n (ip + 1) b) :
    Safe f n ip b := by
  obtain ⟨hr, hm, hg⟩ := i.plain_spec hi
  refine safe_has h (hm b) fun m hmn es b' ip' hb hgo => ?_
  subst hmn
  rw [hb.eq_of_not hr, hg _ _ hgo]
  exact hs.pred

theorem safe_ends {stop : Nat} (h : f.Ends ip i span stop) (hi : i.plain = true)
    (hs : Safe f n stop b) : Safe f n ip b := by
  obtain ⟨hh, rfl⟩ := h
  exact safe_plain hh hi hs

theorem safe_load {slot stop : Nat} (h : f.Ends ip (.load slot) span stop) (hl : b.Live slot)
    (hs : Safe f n stop b) : Safe f n ip b := by
  obtain ⟨hh, rfl⟩ := h
  refine safe_has hh hl fun m hmn es b' ip' hb hgo => ?_
  subst hmn
  rw [hb.eq_of_not rfl, show ip' = ip + 1 from hgo]
  exact hs.pred

/-- A jump takes a step, wherever it leads. -/
theorem safe_jump {target stop : Nat} (h : f.Ends ip (.jump target) span stop)
    (hs : ∀ m, m < n → Safe f m target b) : Safe f n ip b := by
  refine safe_has h.1 trivial fun m hmn es b' ip' hb hgo => ?_
  rw [hb.eq_of_not rfl, show ip' = target from hgo]
  exact hs m (by omega)

theorem safe_jumpIf {target : Nat} (h : f.Has ip i span)
    (hi : i = .jumpIfFalse target ∨ i = .jumpIfTrue target) (ht : Safe f n target b)
    (hs : Safe f n (ip + 1) b) : Safe f n ip b := by
  have hr : i.rebinds = false ∧ i.Meets b ∧ ∀ ip', i.Goes (ip + 1) ip' →
      ip' = target ∨ ip' = ip + 1 := by
    rcases hi with rfl | rfl <;> exact ⟨rfl, trivial, fun _ h => h⟩
  refine safe_has h hr.2.1 fun m hmn es b' ip' hb hgo => ?_
  subst hmn
  rw [hb.eq_of_not hr.1]
  rcases hr.2.2 ip' hgo with rfl | rfl
  · exact ht.pred
  · exact hs.pred

end

/-- The bindings of a frame are as the compiler knows them at the point. -/
structure Mirrors (n : Nat) (P : Point) (b : Bindings) : Prop where
  size : b.slots.size = n
  scopes : b.scopes = P.scopes.map fun scope => scope.map Binding.slot
  live : ∀ c ∈ P.scopes.flatten, P.Usable c → b.Live c.slot
  owned : b.Scoped

namespace Mirrors

variable {n : Nat} {P Q : Point} {b : Bindings} {name : String} {span : Option Span}

theorem mem_scopes (h : Mirrors n P b) {slot : Nat} :
    slot ∈ b.scopes.flatten ↔ ∃ c ∈ P.scopes.flatten, c.slot = slot := by
  rw [h.scopes, ← List.map_flatten, List.mem_map]

theorem nonempty (h : Mirrors n P b) (hP : P.scopes ≠ []) : b.scopes ≠ [] := by
  rw [h.scopes]
  exact fun he => hP (List.map_eq_nil_iff.1 he)

/-- A point that takes fewer bindings to be usable. -/
theorem weaken (h : Mirrors n P b) (hs : Q.scopes = P.scopes)
    (hu : ∀ c ∈ P.scopes.flatten, Q.Usable c → P.Usable c) : Mirrors n Q b where
  size := h.size
  scopes := by rw [h.scopes, hs]
  live := by
    rw [hs]
    exact fun c hc hq => h.live c hc (hu c hc hq)
  owned := h.owned

theorem live_of_resolve? (h : Mirrors n P b) {c : Binding}
    (hr : P.resolve? name = some (.slot c)) (hu : P.Usable c) : b.Live c.slot :=
  h.live c (Point.mem_of_resolve? hr) hu

theorem opened (h : Mirrors n P b) : Mirrors n P.opened { b with scopes := [] :: b.scopes } where
  size := h.size
  scopes := congrArg ([] :: ·) h.scopes
  live := h.live
  owned := h.owned

/-- A new slot is not live, since all that is live is below it. -/
theorem vacant (h : Mirrors n P b) (hP : P.Fine) (hn : P.slots < n) : b.Vacant P.slots := by
  have hsize : P.slots < b.slots.size := h.size ▸ hn
  refine ⟨b.slots[P.slots], Array.getElem?_eq_getElem hsize, ?_⟩
  cases hs : b.slots[P.slots] with
  | live v =>
    have hl : b.Live P.slots := ⟨v, by rw [Holds, Array.getElem?_eq_getElem hsize, hs]⟩
    obtain ⟨c, hc, he⟩ := h.mem_scopes.1 (h.owned _ hl)
    have := (hP.below c hc).1
    omega
  | _ => rfl

theorem declared (h : Mirrors n P b) (hP : P.Fine) (hn : P.slots < n) (v : Value) :
    Mirrors n (P.declare name span) (BindingM.declared b P.slots v) := by
  have hv := h.vacant hP hn
  have hflat : (P.declare name span).scopes.flatten =
      ⟨name, P.slots, span, P.loops⟩ :: P.scopes.flatten := by
    obtain ⟨scope, outer, hs⟩ := List.exists_cons_of_ne_nil hP.nonempty
    simp [Point.declare, hs]
  constructor
  case size => exact (Array.size_setIfInBounds ..).trans h.size
  case scopes =>
    obtain ⟨scope, outer, hs⟩ := List.exists_cons_of_ne_nil hP.nonempty
    simp [BindingM.declared, h.scopes, Point.declare, hs]
  case live =>
    intro c hc hu
    rw [live_declared hv]
    rw [hflat] at hc
    rcases List.mem_cons.1 hc with rfl | hc
    · exact .inl rfl
    · exact .inr (h.live c hc hu)
  case owned => exact h.owned.rebinds (.declare v hv (h.nonempty hP.nonempty))

theorem withFreed {slot : Nat} (h : Mirrors n P b) (hl : b.Live slot) :
    Mirrors n (P.withFreed ((slot, span) :: P.freed)) (b.withSlot slot .freed) := by
  constructor
  case size => exact (Array.size_setIfInBounds ..).trans h.size
  case scopes => exact h.scopes
  case live =>
    intro c hc hu
    rw [Point.Usable, Point.withFreed, List.lookup_cons] at hu
    rw [live_withSlot_dead rfl]
    split at hu
    · cases hu
    · rename_i hne
      exact ⟨ne_of_beq_false hne, h.live c hc hu⟩
  case owned => exact h.owned.rebinds (.free hl)

theorem stored {slot : Nat} (h : Mirrors n P b) (hl : b.Live slot) (v : Value) :
    Mirrors n P (b.withSlot slot (.live v)) where
  size := (Array.size_setIfInBounds ..).trans h.size
  scopes := h.scopes
  live := fun c hc hu => (live_withSlot_live hl).2 (h.live c hc hu)
  owned := h.owned.rebinds (.store v hl)

/-- Leaving a scope leaves the slots of the other scopes alone. -/
theorem closed (h : Mirrors n P b) (hP : P.scopes ≠ [])
    (hd : (P.scopes.flatten.map Binding.slot).Nodup) :
    Mirrors n P.closed (BindingM.leftScope b) := by
  obtain ⟨scope, outer, hs⟩ := List.exists_cons_of_ne_nil hP
  constructor
  case size => exact (size_releaseAll ..).trans h.size
  case scopes =>
    simp [BindingM.leftScope, h.scopes, Point.closed]
  case live =>
    intro c hc hu
    have hc' : c ∈ outer.flatten := by
      rw [Point.closed, hs] at hc
      exact hc
    rw [live_leftScope, h.scopes, hs]
    refine ⟨fun hm => ?_, h.live c ?_ hu⟩
    · rw [hs, List.flatten_cons, List.map_append] at hd
      exact (List.nodup_append.1 hd).2.2 _ hm _ (List.mem_map_of_mem hc') rfl
    · rw [hs]
      exact List.mem_append_right _ hc'
  case owned => exact h.owned.rebinds (.exitScope (h.nonempty hP))

end Mirrors

/-! ## Expressions -/

section

variable {t : Tables} {f : FunctionCode} {P : Point} {n start stop : Nat} {b : Bindings}
  {span : Option Span}

theorem safe_const {c : Constant} (h : f.HasConst start c span stop) (hs : Safe f n stop b) :
    Safe f n start b := by
  obtain ⟨k, d, -, -, h⟩ := h
  exact safe_ends h rfl hs

theorem safe_loadAt {name : String} (h : LoadAt f P start name span stop)
    (hb : Mirrors f.slotCount P b) (hs : Safe f n stop b) : Safe f n start b := by
  rw [LoadAt] at h
  split at h
  · rename_i c hr
    exact safe_load h.2 (hb.live_of_resolve? hr h.1) hs
  · exact safe_ends h rfl hs
  · exact h.elim

theorem safe_loadsAt (hb : Mirrors f.slotCount P b) (hs : Safe f n stop b) {names : List String}
    (h : LoadsAt f P span start names stop) : Safe f n start b := by
  induction names generalizing start with
  | nil =>
    obtain rfl : stop = start := h
    exact hs
  | cons name rest ih =>
    obtain ⟨mid, hl, h⟩ := h
    exact safe_loadAt hl hb (ih h)

theorem calls_plain {args : Nat} {callee : Callee} {i : Instr} (h : t.Calls args callee i) :
    i.plain = true := by
  cases callee with
  | function name =>
    obtain ⟨id, -, rfl⟩ := h
    rfl
  | method struct method =>
    obtain ⟨id, -, rfl⟩ := h
    rfl
  | native name =>
    obtain ⟨id, -, rfl⟩ := h
    rfl

theorem binary_plain (op : BinaryOp) (kind : OperandKind) : (op.instr kind).plain = true := by
  cases op <;> rfl

theorem unary_plain (op : UnaryOp) (operand : Ty) : (op.instr operand).plain = true := by
  cases op <;> rfl

mutual

theorem safe_expr {start stop : Nat} (hb : Mirrors f.slotCount P b) : (e : TExpr) →
    ExprAt t f P start e stop → Safe f n stop b → Safe f n start b
  | .mk kind _ _, h, hs => safe_kind hb kind h hs

theorem safe_kind {start stop : Nat} {ty : Ty} {span : Option Span} (hb : Mirrors f.slotCount P b) :
    (k : TKind) → KindAt t f P start ty span k stop → Safe f n stop b → Safe f n start b
  | .int _, h, hs | .float _, h, hs | .bool _, h, hs | .string _, h, hs | .null, h, hs =>
    safe_const h hs
  | .binding _, h, hs => safe_loadAt h hb hs
  | .function _, ⟨_, _, h⟩, hs | .native _, ⟨_, _, h⟩, hs => safe_ends h rfl hs
  | .binary op left right, ⟨_, _, hl, hr, h⟩, hs =>
    safe_expr hb left hl (safe_expr hb right hr (safe_ends h (binary_plain op _) hs))
  | .unary op operand, ⟨_, he, h⟩, hs =>
    safe_expr hb operand he (safe_ends h (unary_plain op _) hs)
  | .logical op left right, ⟨mid, hl, hdup, hjump, hpop, hr⟩, hs => by
    refine safe_expr hb left hl (safe_plain hdup rfl ?_)
    have hop : (match op with | .and => Instr.jumpIfFalse stop | .or => .jumpIfTrue stop) =
        .jumpIfFalse stop ∨
        (match op with | .and => Instr.jumpIfFalse stop | .or => .jumpIfTrue stop) =
        .jumpIfTrue stop := by
      cases op
      · exact .inl rfl
      · exact .inr rfl
    refine safe_jumpIf hjump hop hs ?_
    · exact safe_plain hpop rfl (safe_expr hb right hr hs)
  | .call _ args, ⟨_, _, hc, ha, h⟩, hs => safe_exprs hb args ha (safe_ends h (calls_plain hc) hs)
  | .callValue callee args, ⟨_, _, hc, ha, h⟩, hs =>
    safe_expr hb callee hc (safe_exprs hb args ha (safe_ends h rfl hs))
  | .callDynamic callee args, ⟨_, _, hc, ha, h⟩, hs =>
    safe_expr hb callee hc (safe_exprs hb args ha (safe_ends h rfl hs))
  | .callMethodDynamic _ args, ⟨_, ha, h⟩, hs => safe_exprs hb args ha (safe_ends h rfl hs)
  | .field object _ index, ⟨_, ho, h⟩, hs =>
    safe_expr hb object ho (safe_ends h (by cases index <;> rfl) hs)
  | .structInit _ values, ⟨_, _, _, ha, h⟩, hs => safe_exprs hb values ha (safe_ends h rfl hs)
  | .lambda _ _ _ captures, ⟨_, _, _, _, _, _, _, hl, h⟩, hs =>
    safe_loadsAt hb (safe_ends h rfl hs) hl
  | .spawn _ args, ⟨_, _, _, ha, h⟩, hs => safe_exprs hb args ha (safe_ends h rfl hs)
  | .await task, ⟨_, he, h⟩, hs => safe_expr hb task he (safe_ends h rfl hs)
  | .box inner, ⟨_, he, h⟩, hs => safe_expr hb inner he (safe_ends h rfl hs)
  | .unbox inner, ⟨_, he, h⟩, hs => safe_expr hb inner he (safe_ends h rfl hs)
  | .cast inner, ⟨_, _, _, he, h⟩, hs => safe_expr hb inner he (safe_ends h rfl hs)
  | .format parts, ⟨_, ha, h⟩, hs => safe_exprs hb parts ha (safe_ends h rfl hs)

theorem safe_exprs {start stop : Nat} (hb : Mirrors f.slotCount P b) : (es : List TExpr) →
    ExprsAt t f P start es stop → Safe f n stop b → Safe f n start b
  | [], h, hs => by
    obtain rfl : stop = start := h
    exact hs
  | e :: rest, ⟨_, he, h⟩, hs => safe_expr hb e he (safe_exprs hb rest h hs)

end

end

/-! ## Instructions that operate on bindings -/

section

variable {f : FunctionCode} {P : Point} {n start stop : Nat} {b : Bindings} {name : String}
  {span : Option Span}

theorem safe_enterScope (h : f.Has start .enterScope span) (hb : Mirrors f.slotCount P b)
    (hs : ∀ b, Mirrors f.slotCount P.opened b → Safe f n (start + 1) b) : Safe f n start b := by
  refine safe_has h trivial fun m hmn es b' ip' hr hgo => ?_
  subst hmn
  obtain rfl : ip' = start + 1 := hgo
  cases hr with
  | same _ hi => cases hi
  | enterScope => exact (hs _ hb.opened).pred

theorem safe_exitScope (h : f.Ends start .exitScope span stop) (hP : P.scopes ≠ [])
    (hd : (P.scopes.flatten.map Binding.slot).Nodup) (hb : Mirrors f.slotCount P b)
    (hs : ∀ b, Mirrors f.slotCount P.closed b → Safe f n stop b) : Safe f n start b := by
  obtain ⟨hh, rfl⟩ := h
  refine safe_has hh (hb.nonempty hP) fun m hmn es b' ip' hr hgo => ?_
  subst hmn
  obtain rfl : ip' = start + 1 := hgo
  cases hr with
  | same _ hi => cases hi
  | exitScope => exact (hs _ (hb.closed hP hd)).pred

theorem safe_declareAt (h : DeclareAt f P start name span stop) (hP : P.Fine)
    (hb : Mirrors f.slotCount P b)
    (hs : ∀ b, Mirrors f.slotCount (P.declare name span) b → Safe f n stop b) :
    Safe f n start b := by
  obtain ⟨hlt, -, hh, rfl⟩ := h
  refine safe_has hh ⟨hb.vacant hP hlt, hb.nonempty hP.nonempty⟩ fun m hmn es b' ip' hr hgo => ?_
  subst hmn
  obtain rfl : ip' = start + 1 := hgo
  cases hr with
  | same _ hi => cases hi
  | declare v => exact (hs _ (hb.declared hP hlt v)).pred

theorem safe_storeAt {target : AssignTarget} (h : StoreAt f P start target span stop)
    (hb : Mirrors f.slotCount P b) (hs : ∀ b, Mirrors f.slotCount P b → Safe f n stop b) :
    Safe f n start b := by
  rw [StoreAt] at h
  split at h
  · rename_i c hc
    obtain ⟨hu, hh, rfl⟩ := h
    have hl := hb.live_of_resolve? hc hu
    split at hh <;> refine safe_has hh hl fun m hmn es b' ip' hr hgo => ?_ <;> subst hmn <;>
      obtain rfl : ip' = start + 1 := hgo
    · cases hr with
      | same _ hi => cases hi
      | store v => exact (hs _ (hb.stored hl v)).pred
    · cases hr with
      | same _ hi => cases hi
      | storeField _ v => exact (hs _ (hb.stored hl v)).pred
  · exact h.elim

theorem safe_free {slot : Nat} (h : f.Has start (.free slot) span) (hb : Mirrors f.slotCount P b)
    (hl : b.Live slot)
    (hs : ∀ b, Mirrors f.slotCount (P.withFreed ((slot, span) :: P.freed)) b →
      Safe f n (start + 1) b) : Safe f n start b := by
  refine safe_has h hl fun m hmn es b' ip' hr hgo => ?_
  subst hmn
  obtain rfl : ip' = start + 1 := hgo
  cases hr with
  | same _ hi => cases hi
  | free => exact (hs _ (hb.withFreed hl)).pred

theorem safe_freeAt (h : FreeAt f P start name span stop) (hb : Mirrors f.slotCount P b)
    (hs : ∀ b, Mirrors f.slotCount (P.free name span) b → Safe f n stop b) : Safe f n start b := by
  rw [FreeAt] at h
  split at h
  · rename_i c hc
    obtain ⟨hu, hd, hh, rfl⟩ := h
    refine safe_free hh hb (hb.live_of_resolve? hc hu) fun b' hb' => hs b' ?_
    rw [Point.free, hc]
    simp only [hu, hd, and_self, if_true]
    exact hb'
  · exact h.elim

/-- Bindings that are freed one after the other. -/
theorem safe_frees (dead : List Binding)
    (h : f.HasAll span start (dead.map fun d => .free d.slot) stop)
    (hd : ∀ d ∈ dead, d ∈ P.scopes.flatten ∧ P.Usable d) (hn : (dead.map Binding.slot).Nodup)
    (hb : Mirrors f.slotCount P b)
    (hs : ∀ b, Mirrors f.slotCount (P.withFreed (dead.map (fun d => (d.slot, span)) ++ P.freed)) b →
      Safe f n stop b) : Safe f n start b := by
  induction dead generalizing P start b with
  | nil =>
    obtain rfl : stop = start := h
    exact hs b hb
  | cons d rest ih =>
    obtain ⟨hd₀, hd⟩ := List.forall_mem_cons.1 hd
    obtain ⟨hne, hn⟩ := List.nodup_cons.1 hn
    refine safe_free h.1 hb (hb.live d hd₀.1 hd₀.2) fun b' hb' => ?_
    refine ih (P := P.withFreed ((d.slot, span) :: P.freed)) h.2
      (fun c hc => ⟨(hd c hc).1, ?_⟩) hn hb' fun b'' hb'' => ?_
    · have : c.slot ≠ d.slot := fun he => hne (he ▸ List.mem_map_of_mem hc)
      rw [Point.Usable, Point.withFreed, List.lookup_cons, beq_false_of_ne this]
      exact (hd c hc).2
    · refine hs b'' (hb''.weaken rfl fun c _ hu => ?_)
      rw [Point.Usable, Point.withFreed, List.map_cons, List.cons_append, List.lookup_cons] at hu
      rw [Point.Usable, Point.withFreed, Point.lookup_append_eq_none]
      split at hu
      · cases hu
      · rename_i hc
        rw [Point.lookup_append_eq_none] at hu
        refine ⟨hu.1, ?_⟩
        rw [Point.withFreed, List.lookup_cons, hc]
        exact hu.2

theorem deadBindings_sublist (freed : Freed) (uses : List Use) (newer : List String)
    (scope : List Binding) : (Emit.deadBindings freed uses newer scope).Sublist scope := by
  induction scope generalizing newer with
  | nil => exact .refl _
  | cons c older ih =>
    simp only [Emit.deadBindings]
    split
    · exact (ih _).cons_cons c
    · exact (ih _).cons c

theorem safe_collect {rest : List TStmt}
    (h : f.HasAll span start ((P.dead rest).map fun d => .free d.slot) stop) (hP : P.Fine)
    (hb : Mirrors f.slotCount P b)
    (hs : ∀ b, Mirrors f.slotCount (P.collect rest span) b → Safe f n stop b) :
    Safe f n start b := by
  have hsub := deadBindings_sublist P.freed (blockUses [] rest) [] (P.scopes.headD [])
  have hflat := Point.flatten_scopes hP.nonempty
  refine safe_frees (P.dead rest) h (fun d hd => ?_) ?_ hb hs
  · obtain ⟨hm, hu⟩ := Point.mem_deadBindings hd
    exact ⟨hflat ▸ List.mem_append_left _ hm, hu⟩
  · refine List.Nodup.sublist (hsub.map _) ?_
    have := hP.distinct
    rw [hflat, List.map_append] at this
    exact this.of_append_left

/-- Scopes that are left one after the other. -/
theorem safe_exitScopes {extra : List (List Binding)} {outer : List (List Binding)}
    (h : f.HasAll span start (List.replicate extra.length .exitScope) stop)
    (hsc : P.scopes = extra ++ outer) (hd : (P.scopes.flatten.map Binding.slot).Nodup)
    (hb : Mirrors f.slotCount P b)
    (hs : ∀ b, Mirrors f.slotCount { P with scopes := outer } b → Safe f n stop b) :
    Safe f n start b := by
  induction extra generalizing P start b with
  | nil =>
    obtain rfl : stop = start := h
    refine hs b ?_
    rw [List.nil_append] at hsc
    rw [← hsc]
    exact hb
  | cons scope rest ih =>
    refine safe_exitScope ⟨h.1, rfl⟩ (by simp [hsc]) hd hb fun b' hb' => ?_
    refine ih h.2 (by simp [Point.closed, hsc]) ?_ hb' hs
    rw [hsc] at hd
    rw [Point.closed, hsc]
    rw [List.cons_append, List.flatten_cons, List.map_append] at hd
    exact hd.of_append_right

end

end ScopedScript
