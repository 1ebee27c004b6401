import ScopedScript.Tree.Printer
import ScopedScript.Tree.Reader
import Mathlib

/-!
# Trees that are written are read back

A tree that has been written is read back as it was, if it nests no deeper than the reader goes.
Floats are finite, as JSON has no other numbers, and offsets are 64-bit words. Each level that the
reader spends is a list or an object of what was written, so the induction over the tree carries the
depth along.
-/

namespace ScopedScript

/-! ## Depth -/

namespace Json

mutual

/-- How many lists and objects stand one in another. -/
def depth : Json → Nat
  | .list items => depthItems items + 1
  | .object members => depthMembers members + 1
  | .null | .bool _ | .int _ | .real _ | .unbounded | .text _ | .garbled => 0

def depthItems : List Json → Nat
  | [] => 0
  | v :: rest => max v.depth (depthItems rest)

def depthMembers : List (String × Json) → Nat
  | [] => 0
  | (_, v) :: rest => max v.depth (depthMembers rest)

end

variable {level : Nat} {members more : List (String × Json)}

theorem depthMembers_cons {name : String} {v : Json} :
    depthMembers ((name, v) :: members) ≤ level ↔ v.depth ≤ level ∧ depthMembers members ≤ level :=
  max_le_iff

theorem depthMembers_append :
    depthMembers (members ++ more) ≤ level ↔ depthMembers members ≤ level ∧
    depthMembers more ≤ level := by
  induction members with
  | nil => simp [depthMembers]
  | cons m rest ih =>
    obtain ⟨name, v⟩ := m
    rw [List.cons_append, depthMembers_cons, depthMembers_cons, ih, and_assoc]

/-- A list spends a level, and so does an object. -/
theorem depth_list {items : List Json} (h : (list items).depth ≤ level) :
    ∃ n, level = n + 1 ∧ depthItems items ≤ n := by
  cases level with
  | zero => exact absurd h (Nat.not_succ_le_zero _)
  | succ n => exact ⟨n, rfl, Nat.le_of_succ_le_succ h⟩

theorem depth_object (h : (object members).depth ≤ level) :
    ∃ n, level = n + 1 ∧ depthMembers members ≤ n := by
  cases level with
  | zero => exact absurd h (Nat.not_succ_le_zero _)
  | succ n => exact ⟨n, rfl, Nat.le_of_succ_le_succ h⟩

theorem depth_tagged {tag : String} {body : Json} (h : (tagged tag body).depth ≤ level) :
    ∃ n, level = n + 1 ∧ body.depth ≤ n := by
  obtain ⟨n, rfl, hn⟩ := depth_object (show (object [(tag, body)]).depth ≤ level from h)
  exact ⟨n, rfl, (depthMembers_cons.1 hn).1⟩

theorem depth_variant {tag : String} (h : (variant tag members).depth ≤ level) :
    ∃ n, level = n + 2 ∧ depthMembers members ≤ n := by
  obtain ⟨k, rfl, hk⟩ := depth_tagged (show (tagged tag (object members)).depth ≤ level from h)
  obtain ⟨n, rfl, hn⟩ := depth_object hk
  exact ⟨n, rfl, hn⟩

end Json

/-! ## What can be written -/

/-- Neither an infinity nor NaN. -/
def Decimal.Finite (x : Float) : Prop := ∃ v, Decimal.parts x = .finite v

theorem Json.ofFloat_of_finite {x : Float} (h : Decimal.Finite x) : Json.ofFloat x = .real x := by
  obtain ⟨v, hv⟩ := h
  rw [Json.ofFloat, hv]

/-- A place whose offsets are 64-bit words. -/
def Span.Fits (span : Option Span) : Prop :=
  ∀ s ∈ span, s.start < Nat.pow 2 64 ∧ s.stop < Nat.pow 2 64

mutual

/-- Float literals are finite, and offsets are 64-bit words. -/
def Expr.Writable : Expr → Prop
  | .float value span => Decimal.Finite value ∧ Span.Fits span
  | .int _ span | .bool _ span | .string _ span | .null span | .name _ span => Span.Fits span
  | .binary _ left right span | .logical _ left right span =>
    left.Writable ∧ right.Writable ∧ Span.Fits span
  | .unary _ operand span => operand.Writable ∧ Span.Fits span
  | .call callee args span => callee.Writable ∧ exprsWritable args ∧ Span.Fits span
  | .methodCall object _ args span => object.Writable ∧ exprsWritable args ∧ Span.Fits span
  | .field object _ span => object.Writable ∧ Span.Fits span
  | .structInit _ fields span => initsWritable fields ∧ Span.Fits span
  | .lambda params _ body span =>
    (∀ p ∈ params, Span.Fits p.span) ∧ stmtsWritable body ∧ Span.Fits span
  | .spawn inner span | .await inner span | .cast inner _ span => inner.Writable ∧ Span.Fits span
  | .format parts span => exprsWritable parts ∧ Span.Fits span

def exprsWritable : List Expr → Prop
  | [] => True
  | e :: rest => e.Writable ∧ exprsWritable rest

def initsWritable : List (String × Expr) → Prop
  | [] => True
  | (_, value) :: rest => value.Writable ∧ initsWritable rest

def Stmt.Writable : Stmt → Prop
  | .declare _ _ _ value span | .ret value span => optionWritable value ∧ Span.Fits span
  | .assign target value span => target.Writable ∧ value.Writable ∧ Span.Fits span
  | .branch condition thenBlock elifs elseBlock span =>
    condition.Writable ∧ stmtsWritable thenBlock ∧ elifsWritable elifs ∧ elseWritable elseBlock ∧
      Span.Fits span
  | .loop condition body span => condition.Writable ∧ stmtsWritable body ∧ Span.Fits span
  | .block body span => stmtsWritable body ∧ Span.Fits span
  | .breakLoop span | .continueLoop span | .free _ span | .collect span | .yieldNow span =>
    Span.Fits span
  | .eval expr span => expr.Writable ∧ Span.Fits span

def optionWritable : Option Expr → Prop
  | none => True
  | some e => e.Writable

def stmtsWritable : List Stmt → Prop
  | [] => True
  | s :: rest => s.Writable ∧ stmtsWritable rest

def elifsWritable : List (Expr × List Stmt) → Prop
  | [] => True
  | (condition, body) :: rest => condition.Writable ∧ stmtsWritable body ∧ elifsWritable rest

def elseWritable : Option (List Stmt) → Prop
  | none => True
  | some body => stmtsWritable body

end

def FunctionDecl.Writable (d : FunctionDecl) : Prop :=
  (∀ p ∈ d.params, Span.Fits p.span) ∧ stmtsWritable d.body ∧ Span.Fits d.span

def StructDecl.Writable (d : StructDecl) : Prop :=
  (∀ f ∈ d.fields, Span.Fits f.span) ∧ (∀ m ∈ d.methods, m.Writable) ∧ Span.Fits d.span

def Item.Writable : Item → Prop
  | .struct d => d.Writable
  | .function d => d.Writable

/-- Every float literal is finite and every offset a 64-bit word. -/
def Program.Writable (p : Program) : Prop := ∀ item ∈ p.items, item.Writable

/-! ## Records -/

namespace Tree

section

variable {level : Nat} {name other title : String} {names : List String} {v : Json}
  {f members : List (String × Json)} {span : Option Span}

/-! What the format makes of values that it has written. -/

@[simp]
theorem items?_list (items : List Json) : Json.shape.items? (.list items) = some items := rfl

@[simp]
theorem pair?_list (a b : Json) : Json.shape.pair? (.list [a, b]) = some (a, b) := rfl

@[simp]
theorem text?_text (s : String) : Json.shape.text? (.text s) = some s := rfl

@[simp]
theorem bool?_bool (b : Bool) : Json.shape.bool? (.bool b) = some b := rfl

@[simp]
theorem word?_int (n : Int64) : Json.shape.word? (.int n.toInt) = some n := Decimal.toWord?_toInt n

theorem float?_ofFloat {x : Float} (h : Decimal.Finite x) :
    Json.shape.float? (.ofFloat x) = some x := by
  rw [Json.ofFloat_of_finite h]
  rfl

theorem tag?_binary (level : Nat) (op : BinaryOp) :
    Json.shape.tag? level binaryTags (.text op.tag) = some op := by
  cases op with
  | arith op => cases op <;> rfl
  | order op => cases op <;> rfl
  | eq => rfl
  | ne => rfl

theorem tag?_unary (level : Nat) (op : UnaryOp) :
    Json.shape.tag? level unaryTags (.text op.tag) = some op := by
  cases op <;> rfl

theorem tag?_logical (level : Nat) (op : LogicalOp) :
    Json.shape.tag? level logicalTags (.text op.tag) = some op := by
  cases op <;> rfl

/-! Records are read field by field. -/

/-- A record is read as it was written, its fields being fields of the type in their order. -/
theorem fields?_object (hn : names.Nodup) (h : (members.map Prod.fst).Sublist names) :
    Json.shape.fields? title names (.object members) = some members := by
  have hdistinct : distinctFields names members = true := by
    rw [distinctFields, List.all_eq_true]
    intro name _
    have hcount := List.nodup_iff_count_le_one.1 (h.nodup hn) name
    rw [List.count, List.countP_map, List.countP_eq_length_filter] at hcount
    exact decide_eq_true hcount
  have hknown : (members.filter fun m => names.contains m.1) = members := by
    refine List.filter_eq_self.2 fun m hm => ?_
    exact List.contains_iff_mem.2 (h.subset (List.mem_map_of_mem hm))
  change (if distinctFields names members then some _ else none) = _
  rw [if_pos hdistinct, hknown]

@[simp]
theorem required_head (read : Json → Option α) :
    Fields.required ((name, v) :: f) name read = read v := by
  simp [Fields.required]

@[simp]
theorem required_tail (read : Json → Option α) (h : name ≠ other) :
    Fields.required ((other, v) :: f) name read = Fields.required f name read := by
  simp [Fields.required, List.lookup_cons, beq_false_of_ne h]

@[simp]
theorem defaulted_head (a : α) (read : Json → Option α) :
    Fields.defaulted ((name, v) :: f) name a read = read v := by
  simp [Fields.defaulted]

@[simp]
theorem defaulted_tail (a : α) (read : Json → Option α) (h : name ≠ other) :
    Fields.defaulted ((other, v) :: f) name a read = Fields.defaulted f name a read := by
  simp [Fields.defaulted, List.lookup_cons, beq_false_of_ne h]

theorem optional_head (read : Json → Option α) (h : v.isNull = false) :
    Fields.optional Json.shape ((name, v) :: f) name read = (read v).map some := by
  simp [Fields.optional, Json.shape, h]

@[simp]
theorem optional_null (read : Json → Option α) :
    Fields.optional Json.shape ((name, .null) :: f) name read = some none := by
  simp [Fields.optional, Json.shape, Json.isNull]

@[simp]
theorem optional_tail (read : Json → Option α) (h : name ≠ other) :
    Fields.optional Json.shape ((other, v) :: f) name read =
      Fields.optional Json.shape f name read := by
  simp [Fields.optional, List.lookup_cons, beq_false_of_ne h]

theorem span?_toJson {s : Span} (h : Span.Fits (some s)) (hd : s.toJson.depth ≤ level) :
    Json.shape.span? level s.toJson = some s := by
  obtain ⟨n, rfl, -⟩ := Json.depth_object hd
  obtain ⟨hstart, hstop⟩ := h s rfl
  have hoffset {k : Nat} (hk : k < Nat.pow 2 64) : Json.shape.offset? (.ofNat k) = some k := by
    simp [Shape.offset?, Shape.below?, Json.shape, Json.toNat?, Json.ofNat, hk]
  have hfields : Json.shape.fields? "Span" ["start", "end"] s.toJson =
      some [("start", .ofNat s.start), ("end", .ofNat s.stop)] :=
    fields?_object (by decide) (.refl _)
  rw [Shape.span?, if_neg (Nat.succ_ne_zero n), hfields]
  simp [hoffset hstart, hoffset hstop]

/-- A field that is left out when it holds nothing. -/
theorem optional_member? {a : Option α} {write : α → Json} {read : Json → Option α}
    (hnull : ∀ x, (write x).isNull = false) (hread : ∀ x ∈ a, read (write x) = some x) :
    Fields.optional Json.shape (Json.member? name write a) name read = some a := by
  cases a with
  | none => rfl
  | some x =>
    rw [Json.member?, optional_head _ (hnull x), hread x rfl]
    rfl

/-- The place at the end of a record. -/
theorem optional_span (h : Span.Fits span) (hd : Json.depthMembers (Span.member? span) ≤ level) :
    Fields.optional Json.shape (Span.member? span) "span" (Json.shape.span? level) = some span := by
  refine optional_member? (fun _ => rfl) fun s hs => ?_
  rw [hs] at h hd
  exact span?_toJson h (Json.depthMembers_cons.1 hd).1

@[simp]
theorem optional_span_other (read : Json → Option α) (h : name ≠ "span") :
    Fields.optional Json.shape (Span.member? span) name read = some none := by
  cases span with
  | none => rfl
  | some s => rw [Span.member?, Json.member?, optional_tail read h]; rfl

@[simp high]
theorem names_member? {a : Option α} {write : α → Json} :
    ((Json.member? name write a).map Prod.fst).Sublist [name] := by
  cases a with
  | none => exact List.nil_sublist _
  | some x => exact .refl _

@[simp high]
theorem names_span : ((Span.member? span).map Prod.fst).Sublist ["span"] := names_member?

end

/-! ## Types -/

mutual

theorem readType_toJson : (t : TypeExpr) → {level : Nat} → t.toJson.depth ≤ level →
    readType Json.shape level t.toJson = some t
  | .int, level, _ | .float, level, _ | .bool, level, _ | .string, level, _ | .void, level, _
  | .any, level, _ => by cases level <;> rfl
  | .named name, level, h => by
    obtain ⟨n, rfl, -⟩ := Json.depth_object h
    rfl
  | .nullable inner, level, h => by
    obtain ⟨n, rfl, hn⟩ :=
      Json.depth_tagged (show (Json.tagged "Nullable" inner.toJson).depth ≤ level from h)
    change (readType Json.shape n inner.toJson).map TypeExpr.nullable = _
    rw [readType_toJson inner hn]
    rfl
  | .task inner, level, h => by
    obtain ⟨n, rfl, hn⟩ :=
      Json.depth_tagged (show (Json.tagged "Task" inner.toJson).depth ≤ level from h)
    change (readType Json.shape n inner.toJson).map TypeExpr.task = _
    rw [readType_toJson inner hn]
    rfl
  | .function params ret, level, h => by
    let members := [("params", Json.list (TypeExpr.toJsonList params)), ("ret", ret.toJson)]
    obtain ⟨n, rfl, hn⟩ :=
      Json.depth_variant (show (Json.variant "Function" members).depth ≤ level from h)
    obtain ⟨hparams, hret⟩ := Json.depthMembers_cons.1 hn
    obtain ⟨k, rfl, hk⟩ := Json.depth_list hparams
    have hfields : Json.shape.fields? "" ["params", "ret"] (.object members) = some members :=
      fields?_object (by decide) (.refl _)
    change readFunctionType Json.shape (k + 2) (.object members) = _
    rw [readFunctionType, hfields]
    simp [members, readTypes, readTypes_toJsonList params hk,
      readType_toJson ret (Json.depthMembers_cons.1 hret).1]

theorem readTypes_toJsonList : (ts : List TypeExpr) → {level : Nat} →
    Json.depthItems (TypeExpr.toJsonList ts) ≤ level →
    (TypeExpr.toJsonList ts).mapM (readType Json.shape level) = some ts
  | [], _, _ => rfl
  | t :: rest, level, h => by
    obtain ⟨ht, hrest⟩ := max_le_iff.1 h
    rw [TypeExpr.toJsonList, List.mapM_cons, readType_toJson t ht, readTypes_toJsonList rest hrest]
    rfl

end

/-! ## Expressions and statements -/

theorem readParam_toJson (p : Param) (hp : Span.Fits p.span) {level : Nat}
    (h : p.toJson.depth ≤ level) : readParam Json.shape level p.toJson = some p := by
  obtain ⟨n, rfl, hn⟩ := Json.depth_object h
  simp only [Json.depthMembers_append, Json.depthMembers_cons] at hn
  obtain ⟨⟨-, htype, -⟩, hspan⟩ := hn
  rw [Param.toJson, readParam, fields?_object (by decide) (by simp)]
  simp [readType_toJson p.type htype, optional_span hp hspan]

theorem readExpr_variant (tag : String) (members : List (String × Json)) (level : Nat) :
    readExpr Json.shape (level + 2) (.variant tag members) =
      readExprBody Json.shape tag (level + 1) (.object members) := rfl

theorem readStmt_variant (tag : String) (members : List (String × Json)) (level : Nat) :
    readStmt Json.shape (level + 2) (.variant tag members) =
      readStmtBody Json.shape tag (level + 1) (.object members) := rfl

theorem isNull_writeExpr (e : Expr) : (writeExpr Json.ofFloat e).isNull = false := by
  cases e <;> rfl

theorem isNull_toJson (t : TypeExpr) : t.toJson.isNull = false := by
  cases t <;> rfl

/-! Lists of parts take a level, and what they hold is read item by item. -/

@[simp]
theorem readExprs_eq (level : Nat) (v : Json) :
    readExprs Json.shape level v = Json.shape.list? level (readExpr Json.shape) v := by
  cases level <;> rfl

@[simp]
theorem readInits_eq (level : Nat) (v : Json) :
    readInits Json.shape level v = Json.shape.list? level (readInit Json.shape) v := by
  cases level <;> rfl

@[simp]
theorem readStmts_eq (level : Nat) (v : Json) :
    readStmts Json.shape level v = Json.shape.list? level (readStmt Json.shape) v := by
  cases level <;> rfl

@[simp]
theorem readElifs_eq (level : Nat) (v : Json) :
    readElifs Json.shape level v = Json.shape.list? level (readElif Json.shape) v := by
  cases level <;> rfl

theorem list?_list {read : Nat → Json → Option α} {items : List Json} {xs : List α} {level : Nat}
    (h : (Json.list items).depth ≤ level)
    (hread : ∀ {n}, Json.depthItems items ≤ n → items.mapM (read n) = some xs) :
    Json.shape.list? level read (.list items) = some xs := by
  obtain ⟨n, rfl, hn⟩ := Json.depth_list h
  exact hread hn

theorem mapM_map {read : Nat → Json → Option α} {write : α → Json} {xs : List α} {level : Nat}
    (hread : ∀ x ∈ xs, ∀ {n}, (write x).depth ≤ n → read n (write x) = some x)
    (h : Json.depthItems (xs.map write) ≤ level) : (xs.map write).mapM (read level) = some xs := by
  induction xs with
  | nil => rfl
  | cons x rest ih =>
    obtain ⟨hx, hrest⟩ := max_le_iff.1 h
    have hxs := ih (fun y hy => hread y (List.mem_cons_of_mem _ hy)) hrest
    rw [List.map_cons, List.mapM_cons, hread x List.mem_cons_self hx, hxs]
    rfl

theorem optional_type {t : Option TypeExpr} {level : Nat} {name : String} {f : List (String × Json)}
    (h : (Json.ofOption TypeExpr.toJson t).depth ≤ level) :
    Fields.optional Json.shape ((name, .ofOption TypeExpr.toJson t) :: f) name
      (readType Json.shape level) = some t := by
  cases t with
  | none => exact optional_null _
  | some t =>
    rw [Json.ofOption, optional_head _ (isNull_toJson t), readType_toJson t h]
    rfl

mutual

theorem readExpr_writeExpr : (e : Expr) → e.Writable → {level : Nat} →
    (writeExpr Json.ofFloat e).depth ≤ level →
    readExpr Json.shape level (writeExpr Json.ofFloat e) = some e
  | .int value span, hspan, level, h => by
    rw [writeExpr] at h ⊢
    obtain ⟨n, rfl, hn⟩ := Json.depth_variant h
    obtain ⟨-, hn⟩ := Json.depthMembers_cons.1 hn
    simp [readExpr_variant, readExprBody, fields?_object, optional_span hspan hn]
  | .float value span, ⟨hvalue, hspan⟩, level, h => by
    rw [writeExpr] at h ⊢
    obtain ⟨n, rfl, hn⟩ := Json.depth_variant h
    obtain ⟨-, hn⟩ := Json.depthMembers_cons.1 hn
    simp [readExpr_variant, readExprBody, fields?_object, float?_ofFloat hvalue,
      optional_span hspan hn]
  | .bool value span, hspan, level, h => by
    rw [writeExpr] at h ⊢
    obtain ⟨n, rfl, hn⟩ := Json.depth_variant h
    obtain ⟨-, hn⟩ := Json.depthMembers_cons.1 hn
    simp [readExpr_variant, readExprBody, fields?_object, optional_span hspan hn]
  | .string value span, hspan, level, h => by
    rw [writeExpr] at h ⊢
    obtain ⟨n, rfl, hn⟩ := Json.depth_variant h
    obtain ⟨-, hn⟩ := Json.depthMembers_cons.1 hn
    simp [readExpr_variant, readExprBody, fields?_object, optional_span hspan hn]
  | .null span, hspan, level, h => by
    rw [writeExpr] at h ⊢
    obtain ⟨n, rfl, hn⟩ := Json.depth_variant h
    simp [readExpr_variant, readExprBody, fields?_object, optional_span hspan hn]
  | .name name span, hspan, level, h => by
    rw [writeExpr] at h ⊢
    obtain ⟨n, rfl, hn⟩ := Json.depth_variant h
    obtain ⟨-, hn⟩ := Json.depthMembers_cons.1 hn
    simp [readExpr_variant, readExprBody, fields?_object, optional_span hspan hn]
  | .binary op left right span, ⟨hleft, hright, hspan⟩, level, h => by
    rw [writeExpr] at h ⊢
    obtain ⟨n, rfl, hn⟩ := Json.depth_variant h
    simp only [Json.depthMembers_append, Json.depthMembers_cons] at hn
    obtain ⟨⟨hl, -, hr, -⟩, hn⟩ := hn
    simp [readExpr_variant, readExprBody, fields?_object, readExpr_writeExpr left hleft hl,
      tag?_binary, readExpr_writeExpr right hright hr, optional_span hspan hn]
  | .unary op operand span, ⟨hoperand, hspan⟩, level, h => by
    rw [writeExpr] at h ⊢
    obtain ⟨n, rfl, hn⟩ := Json.depth_variant h
    simp only [Json.depthMembers_append, Json.depthMembers_cons] at hn
    obtain ⟨⟨-, ho, -⟩, hn⟩ := hn
    simp [readExpr_variant, readExprBody, fields?_object, tag?_unary,
      readExpr_writeExpr operand hoperand ho, optional_span hspan hn]
  | .logical op left right span, ⟨hleft, hright, hspan⟩, level, h => by
    rw [writeExpr] at h ⊢
    obtain ⟨n, rfl, hn⟩ := Json.depth_variant h
    simp only [Json.depthMembers_append, Json.depthMembers_cons] at hn
    obtain ⟨⟨hl, -, hr, -⟩, hn⟩ := hn
    simp [readExpr_variant, readExprBody, fields?_object, readExpr_writeExpr left hleft hl,
      tag?_logical, readExpr_writeExpr right hright hr, optional_span hspan hn]
  | .call callee args span, ⟨hcallee, hargs, hspan⟩, level, h => by
    rw [writeExpr] at h ⊢
    obtain ⟨n, rfl, hn⟩ := Json.depth_variant h
    simp only [Json.depthMembers_append, Json.depthMembers_cons] at hn
    obtain ⟨⟨hc, ha, -⟩, hn⟩ := hn
    simp [readExpr_variant, readExprBody, fields?_object, readExpr_writeExpr callee hcallee hc,
      list?_list ha (mapM_writeExprs args hargs), optional_span hspan hn]
  | .methodCall object method args span, ⟨hobject, hargs, hspan⟩, level, h => by
    rw [writeExpr] at h ⊢
    obtain ⟨n, rfl, hn⟩ := Json.depth_variant h
    simp only [Json.depthMembers_append, Json.depthMembers_cons] at hn
    obtain ⟨⟨ho, -, ha, -⟩, hn⟩ := hn
    simp [readExpr_variant, readExprBody, fields?_object, readExpr_writeExpr object hobject ho,
      list?_list ha (mapM_writeExprs args hargs), optional_span hspan hn]
  | .field object field span, ⟨hobject, hspan⟩, level, h => by
    rw [writeExpr] at h ⊢
    obtain ⟨n, rfl, hn⟩ := Json.depth_variant h
    simp only [Json.depthMembers_append, Json.depthMembers_cons] at hn
    obtain ⟨⟨ho, -⟩, hn⟩ := hn
    simp [readExpr_variant, readExprBody, fields?_object, readExpr_writeExpr object hobject ho,
      optional_span hspan hn]
  | .structInit name fields span, ⟨hfields, hspan⟩, level, h => by
    rw [writeExpr] at h ⊢
    obtain ⟨n, rfl, hn⟩ := Json.depth_variant h
    simp only [Json.depthMembers_append, Json.depthMembers_cons] at hn
    obtain ⟨⟨-, hf, -⟩, hn⟩ := hn
    simp [readExpr_variant, readExprBody, fields?_object,
      list?_list hf (mapM_writeInits fields hfields), optional_span hspan hn]
  | .lambda params ret body span, ⟨hparams, hbody, hspan⟩, level, h => by
    rw [writeExpr] at h ⊢
    obtain ⟨n, rfl, hn⟩ := Json.depth_variant h
    simp only [Json.depthMembers_append, Json.depthMembers_cons] at hn
    obtain ⟨⟨hp, hr, hb, -⟩, hn⟩ := hn
    have hlist := list?_list hp (mapM_map fun p hmem => readParam_toJson p (hparams p hmem))
    simp [readExpr_variant, readExprBody, fields?_object, hlist, optional_type hr,
      list?_list hb (mapM_writeStmts body hbody), optional_span hspan hn]
  | .spawn call span, ⟨hcall, hspan⟩, level, h => by
    rw [writeExpr] at h ⊢
    obtain ⟨n, rfl, hn⟩ := Json.depth_variant h
    obtain ⟨hc, hn⟩ := Json.depthMembers_cons.1 hn
    simp [readExpr_variant, readExprBody, fields?_object, readExpr_writeExpr call hcall hc,
      optional_span hspan hn]
  | .await task span, ⟨htask, hspan⟩, level, h => by
    rw [writeExpr] at h ⊢
    obtain ⟨n, rfl, hn⟩ := Json.depth_variant h
    obtain ⟨ht, hn⟩ := Json.depthMembers_cons.1 hn
    simp [readExpr_variant, readExprBody, fields?_object, readExpr_writeExpr task htask ht,
      optional_span hspan hn]
  | .cast value type span, ⟨hvalue, hspan⟩, level, h => by
    rw [writeExpr] at h ⊢
    obtain ⟨n, rfl, hn⟩ := Json.depth_variant h
    simp only [Json.depthMembers_append, Json.depthMembers_cons] at hn
    obtain ⟨⟨hv, ht, -⟩, hn⟩ := hn
    simp [readExpr_variant, readExprBody, fields?_object, readExpr_writeExpr value hvalue hv,
      readType_toJson type ht, optional_span hspan hn]
  | .format parts span, ⟨hparts, hspan⟩, level, h => by
    rw [writeExpr] at h ⊢
    obtain ⟨n, rfl, hn⟩ := Json.depth_variant h
    obtain ⟨hp, hn⟩ := Json.depthMembers_cons.1 hn
    simp [readExpr_variant, readExprBody, fields?_object,
      list?_list hp (mapM_writeExprs parts hparts), optional_span hspan hn]

theorem mapM_writeExprs : (es : List Expr) → exprsWritable es → {level : Nat} →
    Json.depthItems (writeExprs Json.ofFloat es) ≤ level →
    (writeExprs Json.ofFloat es).mapM (readExpr Json.shape level) = some es
  | [], _, level, _ => by
    rw [writeExprs]
    rfl
  | e :: rest, ⟨he, hrest⟩, level, h => by
    rw [writeExprs] at h ⊢
    obtain ⟨hd, hds⟩ := max_le_iff.1 h
    rw [List.mapM_cons, readExpr_writeExpr e he hd, mapM_writeExprs rest hrest hds]
    rfl

theorem mapM_writeInits : (fields : List (String × Expr)) → initsWritable fields → {level : Nat} →
    Json.depthItems (writeInits Json.ofFloat fields) ≤ level →
    (writeInits Json.ofFloat fields).mapM (readInit Json.shape level) = some fields
  | [], _, level, _ => by
    rw [writeInits]
    rfl
  | (name, value) :: rest, ⟨hvalue, hrest⟩, level, h => by
    rw [writeInits] at h ⊢
    obtain ⟨hd, hds⟩ := max_le_iff.1 h
    obtain ⟨n, rfl, hn⟩ := Json.depth_list hd
    have hv : (writeExpr Json.ofFloat value).depth ≤ n := (max_le_iff.1 (max_le_iff.1 hn).2).1
    rw [List.mapM_cons, readInit, mapM_writeInits rest hrest hds]
    simp [readExpr_writeExpr value hvalue hv]

theorem readStmt_writeStmt : (s : Stmt) → s.Writable → {level : Nat} →
    (writeStmt Json.ofFloat s).depth ≤ level →
    readStmt Json.shape level (writeStmt Json.ofFloat s) = some s
  | .declare name mutable type value span, ⟨hvalue, hspan⟩, level, h => by
    rw [writeStmt] at h ⊢
    obtain ⟨n, rfl, hn⟩ := Json.depth_variant h
    simp only [Json.depthMembers_append, Json.depthMembers_cons] at hn
    obtain ⟨⟨⟨-, ht⟩, hv, -⟩, hn⟩ := hn
    cases type with
    | none =>
      simp [readStmt_variant, readStmtBody, Json.member?, fields?_object,
        optional_write value hvalue hv, optional_span hspan hn]
    | some t =>
      have ht := (Json.depthMembers_cons.1 ht).1
      simp [readStmt_variant, readStmtBody, Json.member?, fields?_object,
        optional_head _ (isNull_toJson t), readType_toJson t ht, optional_write value hvalue hv,
        optional_span hspan hn]
  | .assign target value span, ⟨htarget, hvalue, hspan⟩, level, h => by
    rw [writeStmt] at h ⊢
    obtain ⟨n, rfl, hn⟩ := Json.depth_variant h
    simp only [Json.depthMembers_append, Json.depthMembers_cons] at hn
    obtain ⟨⟨ht, hv, -⟩, hn⟩ := hn
    simp [readStmt_variant, readStmtBody, fields?_object, readExpr_writeExpr target htarget ht,
      readExpr_writeExpr value hvalue hv, optional_span hspan hn]
  | .branch condition thenBlock elifs elseBlock span, ⟨hcondition, hthen, helifs, helse, hspan⟩,
      level, h => by
    rw [writeStmt] at h ⊢
    obtain ⟨n, rfl, hn⟩ := Json.depth_variant h
    simp only [Json.depthMembers_append, Json.depthMembers_cons] at hn
    obtain ⟨⟨hc, ht, hes, he, -⟩, hn⟩ := hn
    simp [readStmt_variant, readStmtBody, fields?_object,
      readExpr_writeExpr condition hcondition hc, list?_list ht (mapM_writeStmts thenBlock hthen),
      list?_list hes (mapM_writeElifs elifs helifs), optional_writeElse elseBlock helse he,
      optional_span hspan hn]
  | .loop condition body span, ⟨hcondition, hbody, hspan⟩, level, h => by
    rw [writeStmt] at h ⊢
    obtain ⟨n, rfl, hn⟩ := Json.depth_variant h
    simp only [Json.depthMembers_append, Json.depthMembers_cons] at hn
    obtain ⟨⟨hc, hb, -⟩, hn⟩ := hn
    simp [readStmt_variant, readStmtBody, fields?_object,
      readExpr_writeExpr condition hcondition hc, list?_list hb (mapM_writeStmts body hbody),
      optional_span hspan hn]
  | .block body span, ⟨hbody, hspan⟩, level, h => by
    rw [writeStmt] at h ⊢
    obtain ⟨n, rfl, hn⟩ := Json.depth_variant h
    obtain ⟨hb, hn⟩ := Json.depthMembers_cons.1 hn
    simp [readStmt_variant, readStmtBody, fields?_object,
      list?_list hb (mapM_writeStmts body hbody), optional_span hspan hn]
  | .ret value span, ⟨hvalue, hspan⟩, level, h => by
    rw [writeStmt] at h ⊢
    obtain ⟨n, rfl, hn⟩ := Json.depth_variant h
    obtain ⟨hv, hn⟩ := Json.depthMembers_cons.1 hn
    simp [readStmt_variant, readStmtBody, fields?_object, optional_write value hvalue hv,
      optional_span hspan hn]
  | .breakLoop span, hspan, level, h => by
    rw [writeStmt] at h ⊢
    obtain ⟨n, rfl, hn⟩ := Json.depth_variant h
    simp [readStmt_variant, readStmtBody, fields?_object, optional_span hspan hn]
  | .continueLoop span, hspan, level, h => by
    rw [writeStmt] at h ⊢
    obtain ⟨n, rfl, hn⟩ := Json.depth_variant h
    simp [readStmt_variant, readStmtBody, fields?_object, optional_span hspan hn]
  | .free name span, hspan, level, h => by
    rw [writeStmt] at h ⊢
    obtain ⟨n, rfl, hn⟩ := Json.depth_variant h
    obtain ⟨-, hn⟩ := Json.depthMembers_cons.1 hn
    simp [readStmt_variant, readStmtBody, fields?_object, optional_span hspan hn]
  | .collect span, hspan, level, h => by
    rw [writeStmt] at h ⊢
    obtain ⟨n, rfl, hn⟩ := Json.depth_variant h
    simp [readStmt_variant, readStmtBody, fields?_object, optional_span hspan hn]
  | .yieldNow span, hspan, level, h => by
    rw [writeStmt] at h ⊢
    obtain ⟨n, rfl, hn⟩ := Json.depth_variant h
    simp [readStmt_variant, readStmtBody, fields?_object, optional_span hspan hn]
  | .eval expr span, ⟨hexpr, hspan⟩, level, h => by
    rw [writeStmt] at h ⊢
    obtain ⟨n, rfl, hn⟩ := Json.depth_variant h
    obtain ⟨he, hn⟩ := Json.depthMembers_cons.1 hn
    simp [readStmt_variant, readStmtBody, fields?_object, readExpr_writeExpr expr hexpr he,
      optional_span hspan hn]

theorem optional_write : (value : Option Expr) → optionWritable value → {level : Nat} →
    {f : List (String × Json)} → (writeOption Json.ofFloat value).depth ≤ level →
    Fields.optional Json.shape (("value", writeOption Json.ofFloat value) :: f) "value"
      (readExpr Json.shape level) = some value
  | none, _, _, _, _ => by
    rw [writeOption]
    exact optional_null _
  | some e, he, _, _, h => by
    rw [writeOption] at h ⊢
    rw [optional_head _ (isNull_writeExpr e), readExpr_writeExpr e he h]
    rfl

theorem optional_writeElse : (body : Option (List Stmt)) → elseWritable body → {level : Nat} →
    {f : List (String × Json)} → (writeElse Json.ofFloat body).depth ≤ level →
    Fields.optional Json.shape (("else_block", writeElse Json.ofFloat body) :: f) "else_block"
      (readStmts Json.shape level) = some body
  | none, _, _, _, _ => by
    rw [writeElse]
    exact optional_null _
  | some body, hbody, _, _, h => by
    rw [writeElse] at h ⊢
    rw [optional_head _ rfl, readStmts_eq, list?_list h (mapM_writeStmts body hbody)]
    rfl

theorem mapM_writeStmts : (body : List Stmt) → stmtsWritable body → {level : Nat} →
    Json.depthItems (writeStmts Json.ofFloat body) ≤ level →
    (writeStmts Json.ofFloat body).mapM (readStmt Json.shape level) = some body
  | [], _, level, _ => by
    rw [writeStmts]
    rfl
  | s :: rest, ⟨hs, hrest⟩, level, h => by
    rw [writeStmts] at h ⊢
    obtain ⟨hd, hds⟩ := max_le_iff.1 h
    rw [List.mapM_cons, readStmt_writeStmt s hs hd, mapM_writeStmts rest hrest hds]
    rfl

theorem mapM_writeElifs : (elifs : List (Expr × List Stmt)) → elifsWritable elifs → {level : Nat} →
    Json.depthItems (writeElifs Json.ofFloat elifs) ≤ level →
    (writeElifs Json.ofFloat elifs).mapM (readElif Json.shape level) = some elifs
  | [], _, level, _ => by
    rw [writeElifs]
    rfl
  | (condition, body) :: rest, ⟨hcondition, hbody, hrest⟩, level, h => by
    rw [writeElifs] at h ⊢
    obtain ⟨hd, hds⟩ := max_le_iff.1 h
    obtain ⟨n, rfl, hn⟩ := Json.depth_list hd
    obtain ⟨hc, hn⟩ := max_le_iff.1 hn
    have hb : (Json.list (writeStmts Json.ofFloat body)).depth ≤ n := (max_le_iff.1 hn).1
    rw [List.mapM_cons, readElif, mapM_writeElifs rest hrest hds]
    simp [readExpr_writeExpr condition hcondition hc, list?_list hb (mapM_writeStmts body hbody)]

end

/-! ## Declarations -/

section

variable {level : Nat}

theorem readFunction_writeFunction (d : FunctionDecl) (hd : d.Writable)
    (h : (writeFunction Json.ofFloat d).depth ≤ level) :
    readFunction Json.shape level (writeFunction Json.ofFloat d) = some d := by
  obtain ⟨hparams, hbody, hspan⟩ := hd
  obtain ⟨n, rfl, hn⟩ := Json.depth_object h
  simp only [Json.depthMembers_append, Json.depthMembers_cons] at hn
  obtain ⟨⟨-, hp, hr, hb, -⟩, hn⟩ := hn
  have hlist := list?_list hp (mapM_map fun p hmem => readParam_toJson p (hparams p hmem))
  rw [writeFunction, readFunction, fields?_object (by decide) (by simp)]
  simp [hlist, optional_type hr, list?_list hb (mapM_writeStmts d.body hbody),
    optional_span hspan hn]

theorem readField_writeField (d : FieldDecl) (hspan : Span.Fits d.span)
    (h : (writeField d).depth ≤ level) : readField Json.shape level (writeField d) = some d := by
  obtain ⟨n, rfl, hn⟩ := Json.depth_object h
  simp only [Json.depthMembers_append, Json.depthMembers_cons] at hn
  obtain ⟨⟨-, htype, -⟩, hn⟩ := hn
  rw [writeField, readField, fields?_object (by decide) (by simp)]
  simp [readType_toJson d.type htype, optional_span hspan hn]

theorem readStruct_writeStruct (d : StructDecl) (hd : d.Writable)
    (h : (writeStruct Json.ofFloat d).depth ≤ level) :
    readStruct Json.shape level (writeStruct Json.ofFloat d) = some d := by
  obtain ⟨hfields, hmethods, hspan⟩ := hd
  obtain ⟨n, rfl, hn⟩ := Json.depth_object h
  simp only [Json.depthMembers_append, Json.depthMembers_cons] at hn
  obtain ⟨⟨-, hf, hm, -⟩, hn⟩ := hn
  have hfs := list?_list hf (mapM_map fun f hmem => readField_writeField f (hfields f hmem))
  have hms := list?_list hm (mapM_map fun m hmem => readFunction_writeFunction m (hmethods m hmem))
  rw [writeStruct, readStruct, fields?_object (by decide) (by simp)]
  simp [hfs, hms, optional_span hspan hn]

theorem readItem_writeItem (item : Item) (hitem : item.Writable)
    (h : (writeItem Json.ofFloat item).depth ≤ level) :
    readItem Json.shape level (writeItem Json.ofFloat item) = some item := by
  cases item with
  | struct d =>
    obtain ⟨n, rfl, hn⟩ := Json.depth_tagged (show (Json.tagged "Struct" _).depth ≤ level from h)
    change (readStruct Json.shape n (writeStruct Json.ofFloat d)).map Item.struct = _
    rw [readStruct_writeStruct d hitem hn]
    rfl
  | function d =>
    obtain ⟨n, rfl, hn⟩ := Json.depth_tagged (show (Json.tagged "Function" _).depth ≤ level from h)
    change (readFunction Json.shape n (writeFunction Json.ofFloat d)).map Item.function = _
    rw [readFunction_writeFunction d hitem hn]
    rfl

theorem readProgram_writeProgram (p : Program) (hp : p.Writable)
    (h : (writeProgram Json.ofFloat p).depth ≤ level) :
    readProgram Json.shape level (writeProgram Json.ofFloat p) = some p := by
  obtain ⟨n, rfl, hn⟩ := Json.depth_object h
  obtain ⟨hitems, -⟩ := Json.depthMembers_cons.1 hn
  have hlist := list?_list hitems (mapM_map fun item hmem => readItem_writeItem item (hp item hmem))
  have hsource : Fields.optional Json.shape (Json.member? "source" Json.text p.source) "source"
      Json.shape.text? = some p.source := optional_member? (fun _ => rfl) fun _ _ => rfl
  rw [writeProgram, readProgram, fields?_object (by decide) (by simp)]
  simp [hlist, hsource]

end

end Tree

/-- A program that has been written as JSON is read back as it was. -/
theorem Program.ofJson_toJson (p : Program) (hp : p.Writable)
    (h : p.toJson.depth ≤ Program.maxLevel) : Program.ofJson? p.toJson = some p :=
  Tree.readProgram_writeProgram p hp h

/-- A struct `P` with the field `y`, and a function of `x: Int` with the body
`if x < 1 { return 0.1; } elif not x { return P { y: -x }; } else { free x; }`. -/
def Program.sample : Program where
  items := [
    .struct {
      name := "P", fields := [⟨"y", .nullable .int, some ⟨0, 9⟩⟩], methods := [], span := none },
    .function {
      name := "total", params := [⟨"x", .int, true, none⟩], ret := some .any, isAsync := false
      span := some ⟨10, 90⟩
      body := [.branch (.binary (.order .lt) (.name "x" none) (.int 1 none) none)
        [.ret (some (.float 0.1 none)) (some ⟨30, 41⟩)]
        [(.unary .not (.name "x" none) none,
          [.ret (some (.structInit "P" [("y", .unary .neg (.name "x" none) none)] none)) none])]
        (some [.free "x" none]) none] }]
  source := some "struct P { y: Int? }"

theorem Program.sample_read : sample.Writable ∧ sample.toJson.depth = 20 ∧
    Program.ofJson? sample.toJson = some sample := by
  have hspan {s : Span} (h : s.start < Nat.pow 2 64 ∧ s.stop < Nat.pow 2 64) :
      Span.Fits (some s) := by
    rintro _ ⟨⟩
    exact h
  have hnone : Span.Fits none := by
    rintro _ ⟨⟩
  have hfloat : Decimal.Finite 0.1 := ⟨⟨false, 7205759403792794, -56⟩, by decide⟩
  have hw : sample.Writable := by
    simp [sample, Program.Writable, Item.Writable, StructDecl.Writable, FunctionDecl.Writable,
      stmtsWritable, Stmt.Writable, Expr.Writable, optionWritable, elifsWritable, elseWritable,
      initsWritable, hnone, hfloat, hspan]
  have hd : sample.toJson.depth = 20 := by decide +kernel
  exact ⟨hw, hd, Program.ofJson_toJson sample hw (by rw [hd]; decide)⟩

end ScopedScript
