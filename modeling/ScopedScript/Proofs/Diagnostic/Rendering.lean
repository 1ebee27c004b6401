import ScopedScript.Diagnostic.Basic
import ScopedScript.Proofs.Text.Positions

/-!
# When diagnostics are rendered

The lines that a diagnostic shows are found and cut out of the source without fault, whatever its
spans are, and no difference of columns goes below zero. A rendering is given up only when it is too
large: a column that no word holds, which takes the greatest offset of all and a source of one line,
more columns in front of a span than a field has, or more marks under it than a text has room for.
So a diagnostic whose spans lie in its source is rendered if the lines of the source are no longer
than a field.
-/

namespace ScopedScript

open Text

/-- A fault of a rendering that is too large. -/
inductive Diagnostic.RenderFault.TooLarge : Diagnostic.RenderFault → Prop
  | overflow (pos : Position) : TooLarge (.overflow pos)
  | width (columns : Nat) : TooLarge (.width columns)
  | marks (count : Nat) : TooLarge (.marks count)

namespace Diagnostic

/-- Made under a condition, and otherwise given up for being too large. -/
def MadeWhen (p : Prop) {α : Type} (x : Rendered α) : Prop :=
  p ∧ (∃ a, x = .ok a) ∨ ¬p ∧ ∃ fault, x = .error fault ∧ fault.TooLarge

namespace MadeWhen

variable {p q : Prop} {α β : Type} {x : Rendered α}

theorem ok (a : α) : MadeWhen True (.ok a : Rendered α) := .inl ⟨trivial, a, rfl⟩

theorem congr (h : MadeWhen p x) (hpq : p ↔ q) : MadeWhen q x := propext hpq ▸ h

theorem ite [Decidable p] {a : α} {fault : RenderFault} (h : fault.TooLarge) :
    MadeWhen p (if p then .ok a else .error fault) := by
  by_cases hp : p
  · exact .inl ⟨hp, a, if_pos hp⟩
  · exact .inr ⟨hp, fault, if_neg hp, h⟩

theorem bind {f : α → Rendered β} (hx : MadeWhen p x) (hf : ∀ a, x = .ok a → MadeWhen q (f a)) :
    MadeWhen (p ∧ q) (x >>= f) := by
  obtain ⟨hp, a, hxa⟩ | ⟨hp, fault, hxa, hlarge⟩ := hx
  · rw [hxa]
    exact (hf a hxa).congr (by simp [hp])
  · exact .inr ⟨fun h => hp h.1, fault, by rw [hxa]; rfl, hlarge⟩

theorem bind_ok {a : α} {f : α → Rendered β} (hx : x = .ok a) (hf : MadeWhen q (f a)) :
    MadeWhen q (x >>= f) := hx ▸ hf

theorem map {f : α → β} (hx : MadeWhen p x) : MadeWhen p (x >>= fun a => .ok (f a)) :=
  (hx.bind fun a _ => .ok (f a)).congr (by simp)

/-- A list is made when each of its members is. -/
theorem mapM {f : α → Rendered β} {made : α → Prop} {as : List α}
    (h : ∀ a ∈ as, MadeWhen (made a) (f a)) : MadeWhen (∀ a ∈ as, made a) (as.mapM f) := by
  induction as with
  | nil => exact (ok []).congr (by simp)
  | cons a as ih =>
    obtain ⟨ha, has⟩ := List.forall_mem_cons.1 h
    rw [List.mapM_cons]
    refine (ha.bind fun b _ => (ih has).bind fun bs _ => ok (b :: bs)).congr ?_
    simp

theorem made_iff (h : MadeWhen p x) : (∃ a, x = .ok a) ↔ p := by
  obtain ⟨hp, a, hx⟩ | ⟨hp, fault, hx, -⟩ := h
  · exact ⟨fun _ => hp, fun _ => ⟨a, hx⟩⟩
  · refine ⟨fun ⟨a, ha⟩ => ?_, fun h => absurd h hp⟩
    rw [hx] at ha
    cases ha

theorem tooLarge (h : MadeWhen p x) {fault : RenderFault} (hx : x = .error fault) :
    fault.TooLarge := by
  obtain ⟨-, a, ha⟩ | ⟨-, fault', hfault, hlarge⟩ := h
  · rw [hx] at ha
    cases ha
  · rw [hx] at hfault
    cases hfault
    exact hlarge

end MadeWhen

/-! ## The parts of a line -/

theorem madeWhen_field (width : Nat) (text : String) :
    MadeWhen (width ≤ maxFieldWidth) (field width text) := .ite (.width width)

theorem madeWhen_marked (count : Nat) : MadeWhen (count ≤ maxTextSize) (marked count) :=
  .ite (.marks count)

theorem minus_of_le {a b : Nat} (h : b ≤ a) : minus a b = .ok (a - b) := if_pos h

/-- What `columnsTo` counts when columns begin at one. -/
def columnsBefore (pos : Position) (number otherwise : Nat) : Nat :=
  if number = pos.line then pos.column - 1 else otherwise

theorem columnsTo_eq {pos : Position} (h : 0 < pos.column) (number otherwise : Nat) :
    columnsTo pos number otherwise = .ok (columnsBefore pos number otherwise) := by
  rw [columnsTo, columnsBefore, minus_of_le h]
  split_ifs <;> rfl

theorem madeWhen_underlined {first last : Position} {width : Nat} (number : Nat) (text : List Char)
    (hfirst : 0 < first.column) (hlast : 0 < last.column) (hwidth : width ≤ maxFieldWidth) :
    MadeWhen (columnsBefore first number 0 ≤ maxFieldWidth ∧
        columnsBefore last number text.length - columnsBefore first number 0 ≤ maxTextSize + 1)
      (underlined first last width number text) := by
  have hmarks := minus_of_le (Nat.le_max_right
    (columnsBefore last number text.length - columnsBefore first number 0) 1)
  refine .bind_ok (columnsTo_eq hfirst number 0) <|
    .bind_ok (columnsTo_eq hlast number text.length) <| .bind_ok hmarks ?_
  refine MadeWhen.congr (.bind (madeWhen_field width _) fun _ _ =>
    .bind (madeWhen_field width _) fun _ _ =>
    .bind (madeWhen_field _ _) fun _ _ => .map (madeWhen_marked _)) ?_
  omega

variable {cs : List Char}

/-! ## Spans -/

theorem line_position_le (index : LineIndex) (offset : Nat) :
    (index.position offset).line ≤ index.count := index.lineOf_lt offset

/-- A text in memory has fewer lines than there are words. -/
theorem line_position_lt (hsize : byteLength cs ≤ maxTextSize) (offset : Nat) :
    ((LineIndex.ofText cs).position offset).line < wordEnd := by
  have hline := line_position_le (LineIndex.ofText cs) offset
  rw [LineIndex.count_ofText] at hline
  have hcount := (List.count_le_length (a := '\n') (l := cs)).trans (length_le_byteLength cs)
  have hword : maxTextSize + 1 < wordEnd := by decide
  omega

theorem eq_of_locate {index : LineIndex} {offset : Nat} {pos : Position}
    (h : locate index offset = .ok pos) : pos = index.position offset := by
  simp only [locate] at h
  split at h <;> cases h
  rfl

theorem madeWhen_locate (hsize : byteLength cs ≤ maxTextSize) (offset : Nat) :
    MadeWhen (((LineIndex.ofText cs).position offset).column < wordEnd)
      (locate (LineIndex.ofText cs) offset) := by
  refine MadeWhen.congr (.ite (.overflow _)) ?_
  simp [line_position_lt hsize offset]

/-- A line number fits a field. -/
theorem length_natText_le {n : Nat} (h : n < wordEnd) :
    (Decimal.natText n).length ≤ maxFieldWidth := by
  have hdigits : (Nat.toDigits 10 n).length ≤ 20 :=
    (Nat.length_toDigits_le_iff (by decide) (by decide)).2 (h.trans (by decide))
  rw [Decimal.natText, String.length_ofList]
  exact hdigits.trans (by decide)

/-- A line is cut out of its source between two characters. -/
theorem snippetLine_eq {line : Nat} {before text after : List Char}
    (h : LineIndex.LineAt cs line before text after) (first last : Position) (width : Nat) :
    snippetLine cs (LineIndex.ofText cs) first last width line =
      underlined first last width line text := by
  obtain ⟨stop, hrange, hstop⟩ := h.spans
  have hle : byteLength before + byteLength text ≤ byteLength cs := by
    rw [h.eq, byteLength_append, byteLength_append]
    omega
  have hcut : (LineIndex.ofText cs).cut? cs line =
      some (byteLength before, byteLength before + byteLength text) := by
    rw [LineIndex.cut?, hrange, Option.map_some]
    simp only [← hstop, min_eq_left hle, min_eq_left (Nat.le_add_right _ _)]
  have hslice : slice? (byteLength before) (byteLength before + byteLength text) cs =
      some text := by
    rw [h.eq, slice?_append]
  rw [snippetLine, hcut]
  dsimp only
  rw [hslice]

theorem madeWhen_snippetLine (hsize : byteLength cs ≤ maxTextSize) {first last : Position}
    {width number : Nat} (hfirst : 0 < first.column) (hlast : 0 < last.column)
    (hwidth : width ≤ maxFieldWidth) (hpos : 0 < number)
    (hle : number ≤ (LineIndex.ofText cs).count) :
    MadeWhen ((number = first.line → first.column ≤ maxFieldWidth + 1) ∧
        (number = last.line →
          last.column - (if number = first.line then first.column else 1) ≤ maxTextSize + 1))
      (snippetLine cs (LineIndex.ofText cs) first last width number) := by
  obtain ⟨before, text, after, hline⟩ := LineIndex.exists_lineAt hpos hle
  have htext : text.length ≤ maxTextSize := by
    have hbytes := length_le_byteLength text
    have hlength := congrArg byteLength hline.eq
    rw [byteLength_append, byteLength_append] at hlength
    omega
  rw [snippetLine_eq hline]
  refine (madeWhen_underlined number text hfirst hlast hwidth).congr ?_
  unfold columnsBefore
  split_ifs <;> omega

/-- What the lines between two positions take. The columns are words. If the lines are any, a field
holds the columns in front of the first position, and a text the marks under the last line. -/
structure Fits (first last : Position) : Prop where
  firstColumn : first.column < wordEnd
  lastColumn : last.column < wordEnd
  pad : first.line ≤ last.line → first.column ≤ maxFieldWidth + 1
  marks : first.line ≤ last.line →
    last.column - (if last.line = first.line then first.column else 1) ≤ maxTextSize + 1

/-- A span of which all lines can be laid out. -/
def Renderable (cs : List Char) (s : Span) : Prop :=
  Fits ((LineIndex.ofText cs).position s.start) ((LineIndex.ofText cs).position s.stop)

/-- The lines between two positions can be laid out when the first and the last of them can. -/
theorem fits_iff {first last : Position} : Fits first last ↔
    first.column < wordEnd ∧ last.column < wordEnd ∧
      ∀ number ∈ List.range' first.line (last.line + 1 - first.line),
        (number = first.line → first.column ≤ maxFieldWidth + 1) ∧
          (number = last.line →
            last.column - (if number = first.line then first.column else 1) ≤ maxTextSize + 1) := by
  have hmem (number : Nat) : number ∈ List.range' first.line (last.line + 1 - first.line) ↔
      first.line ≤ number ∧ number ≤ last.line := by
    rw [List.mem_range'_1]
    omega
  constructor
  · rintro ⟨hfirst, hlast, hpad, hmarks⟩
    refine ⟨hfirst, hlast, fun number hnumber => ?_⟩
    have hle : first.line ≤ last.line :=
      ((hmem number).1 hnumber).1.trans ((hmem number).1 hnumber).2
    exact ⟨fun _ => hpad hle, fun h => h ▸ hmarks hle⟩
  · rintro ⟨hfirst, hlast, hlines⟩
    exact ⟨hfirst, hlast, fun hle => (hlines _ ((hmem _).2 ⟨le_rfl, hle⟩)).1 rfl,
      fun hle => (hlines _ ((hmem _).2 ⟨hle, le_rfl⟩)).2 rfl⟩

theorem madeWhen_snippet (hsize : byteLength cs ≤ maxTextSize) (s : Span) :
    MadeWhen (Renderable cs s) (snippet cs (LineIndex.ofText cs) s) := by
  have hwidth : (Decimal.natText (max ((LineIndex.ofText cs).position s.start).line
      ((LineIndex.ofText cs).position s.stop).line)).length ≤ maxFieldWidth :=
    length_natText_le (max_lt (line_position_lt hsize s.start) (line_position_lt hsize s.stop))
  refine MadeWhen.congr (.bind (madeWhen_locate hsize s.start) fun first hfirst =>
    .bind (madeWhen_locate hsize s.stop) fun last hlast => ?lines) fits_iff.symm
  rw [eq_of_locate hfirst, eq_of_locate hlast]
  refine MadeWhen.congr (.bind (madeWhen_field _ "") fun _ _ => .map <|
    .mapM fun number hnumber => ?line) (and_iff_right hwidth)
  obtain ⟨hpos, hle⟩ : ((LineIndex.ofText cs).position s.start).line ≤ number ∧
      number ≤ ((LineIndex.ofText cs).position s.stop).line := by
    rw [List.mem_range'_1] at hnumber
    omega
  exact madeWhen_snippetLine hsize (Nat.succ_pos _) (Nat.succ_pos _) hwidth
    ((Nat.succ_pos _).trans_le hpos) (hle.trans (line_position_le _ _))

/-- The spans of a diagnostic, its own and those of the places it refers to. -/
def spans (d : Diagnostic) : List Span := d.span.toList ++ d.related.map (·.span)

theorem madeWhen_shown (hsize : byteLength cs ≤ maxTextSize) (d : Diagnostic) (s : Span) :
    MadeWhen (Renderable cs s) (d.shown cs (LineIndex.ofText cs) s) := by
  refine MadeWhen.congr (.bind (madeWhen_locate hsize s.start) fun _ _ =>
    .map (madeWhen_snippet hsize s)) ?_
  exact and_iff_right_of_imp Fits.firstColumn

theorem madeWhen_format (hsize : byteLength cs ≤ maxTextSize) (d : Diagnostic) :
    MadeWhen (∀ s ∈ d.spans, Renderable cs s) (d.format cs) := by
  have hprimary : MadeWhen (∀ s ∈ d.span, Renderable cs s)
      (d.primaryText cs (LineIndex.ofText cs)) := by
    unfold primaryText
    cases d.span with
    | none => exact (MadeWhen.ok "").congr (by simp)
    | some s => exact MadeWhen.congr (.map (madeWhen_shown hsize d s)) (by simp)
  have hrelated := MadeWhen.mapM (f := d.relatedText cs (LineIndex.ofText cs))
    fun r (_ : r ∈ d.related) =>
    .map (madeWhen_shown hsize d r.span)
  refine MadeWhen.congr (.bind hprimary fun _ _ => .map hrelated) ?_
  simp [spans, or_imp, forall_and]

/-- A diagnostic is rendered when all of its spans can be, and not otherwise. Nothing but the size
of the rendering stands against it. -/
theorem format_made_iff (hsize : byteLength cs ≤ maxTextSize) (d : Diagnostic) :
    ((∃ text, d.format cs = .ok text) ↔ ∀ s ∈ d.spans, Renderable cs s) ∧
      ∀ fault, d.format cs = .error fault → fault.TooLarge :=
  ⟨(madeWhen_format hsize d).made_iff, fun _ h => (madeWhen_format hsize d).tooLarge h⟩

/-! ## Offsets -/

/-- Only the greatest offset may have a column that is no word, if no line starts after the first.
-/
theorem column_lt_wordEnd_iff (hsize : byteLength cs ≤ maxTextSize) {offset : Nat}
    (h : offset < wordEnd) :
    ((LineIndex.ofText cs).position offset).column < wordEnd ↔
    offset + 1 < wordEnd ∨ '\n' ∈ cs := by
  obtain ⟨before, after, hcovers⟩ := LineIndex.exists_covers cs offset
  obtain ⟨head, tail, hbreak⟩ := exists_lineBreak before
  have hword : maxTextSize + 1 < wordEnd := by decide
  rw [LineIndex.position_eq hcovers hbreak]
  dsimp only
  by_cases hgreatest : offset + 1 < wordEnd
  · exact iff_of_true (by omega) (.inl hgreatest)
  · have hafter : after = [] := by
      cases after with
      | nil => rfl
      | cons c after =>
        have hlt := hcovers.lt c rfl
        have hlength := congrArg byteLength hcovers.eq
        rw [byteLength_append, byteLength_cons] at hlength
        omega
    have hcs : cs = head ++ tail := by rw [hcovers.eq, hafter, List.append_nil, hbreak.eq]
    have hle : byteLength head ≤ byteLength cs := by
      rw [hcs, byteLength_append]
      omega
    rw [or_iff_right hgreatest, hcs, List.mem_append, or_iff_left hbreak.line]
    obtain rfl | ⟨previous, rfl⟩ := hbreak.ends
    · simpa using hgreatest
    · have hpos : 0 < byteLength (previous ++ ['\n']) := by
        rw [byteLength_append]
        exact Nat.add_pos_right _ Nat.one_pos
      exact iff_of_true (by omega) (by simp)

/-- The column of the greatest offset is counted from the start of the last line, and is no word
when this is the first line as well. -/
example : (Diagnostic.error .compiling "m" (some ⟨0, wordEnd - 1⟩) "main.lace").format ['x'] =
    .error (.overflow ⟨1, wordEnd⟩) := rfl

/-- A span of a source without long lines can be rendered. -/
theorem renderable_of_lines_le {s : Span}
    (hstart : s.start ≤ byteLength cs) (hstop : s.stop ≤ byteLength cs)
    (hlines : ∀ line start stop, (LineIndex.ofText cs).Spans cs line start stop →
      stop - start ≤ maxFieldWidth) : Renderable cs s := by
  have hcolumn {offset : Nat} (h : offset ≤ byteLength cs) :
      ((LineIndex.ofText cs).position offset).column ≤ maxFieldWidth + 1 := by
    obtain ⟨start, stop, hspans, hcolumn, -, hle⟩ := LineIndex.exists_spans_position h
    have := hlines _ _ _ hspans
    omega
  have hfirst := hcolumn hstart
  have hlast := hcolumn hstop
  have hword : maxFieldWidth + 1 < wordEnd := by decide
  have htext : maxFieldWidth ≤ maxTextSize := by decide
  exact ⟨by omega, by omega, fun _ => hfirst, fun _ => by omega⟩

end Diagnostic

end ScopedScript
