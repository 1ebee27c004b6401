import ScopedScript.Proofs.Text.Lines
import ScopedScript.Syntax.Location

/-!
# Columns in characters and in bytes

There are two ways to place an offset in a text: to count lines and characters up to it, and to look
it up among the starts of lines. Between characters both give the same line. The columns count what
is before the offset on that line, one in characters and the other in bytes, so they are the same
when each of these characters takes one byte, and not otherwise.
-/

namespace ScopedScript

open Text

theorem Text.length_le_byteLength (cs : List Char) : cs.length ≤ byteLength cs := by
  induction cs with
  | nil => exact le_rfl
  | cons c cs ih =>
    have := c.utf8Size_pos
    rw [List.length_cons, byteLength_cons]
    omega

/-- A text has as many characters as bytes when each character takes one byte. -/
theorem Text.length_eq_byteLength_iff (cs : List Char) :
    cs.length = byteLength cs ↔ ∀ c ∈ cs, c.utf8Size = 1 := by
  induction cs with
  | nil => simp
  | cons c cs ih =>
    have hsize := c.utf8Size_pos
    have hle := length_le_byteLength cs
    rw [List.length_cons, byteLength_cons, List.forall_mem_cons, ← ih]
    omega

namespace Span

/-- The position behind a character. -/
def step (pos : Position) (c : Char) : Position :=
  if c = '\n' then ⟨pos.line + 1, 1⟩ else ⟨pos.line, pos.column + 1⟩

/-- Counting goes through the characters before an offset and stops there. -/
theorem countTo_append (offset : Nat) (pos : Position) (before after : List Char) :
    countTo (offset + byteLength before) offset pos (before ++ after) = before.foldl step pos := by
  induction before generalizing offset pos with
  | nil => cases after <;> simp [countTo]
  | cons c before ih =>
    have hnot : ¬offset + (c.utf8Size + byteLength before) ≤ offset := by
      have := c.utf8Size_pos
      omega
    rw [List.cons_append, countTo, byteLength_cons, if_neg hnot, ← Nat.add_assoc, ih]
    rfl

theorem foldl_step_plain {text : List Char} (h : '\n' ∉ text) (pos : Position) :
    text.foldl step pos = ⟨pos.line, pos.column + text.length⟩ := by
  induction text generalizing pos with
  | nil => rfl
  | cons c text ih =>
    obtain ⟨hc, htext⟩ : '\n' ≠ c ∧ '\n' ∉ text := by simpa using h
    rw [List.foldl_cons, ih htext, step, if_neg (Ne.symm hc), List.length_cons]
    simp only [Position.mk.injEq, true_and]
    omega

theorem line_foldl_step (cs : List Char) (pos : Position) :
    (cs.foldl step pos).line = pos.line + cs.count '\n' := by
  induction cs generalizing pos with
  | nil => rfl
  | cons c cs ih =>
    rw [List.foldl_cons, ih, step, List.count_cons]
    by_cases hc : c = '\n'
    · simp only [hc, if_true, beq_self_eq_true]
      omega
    · simp [hc]

/-- Characters are counted from the start of the line. -/
theorem foldl_step_eq {cs head tail : List Char} (h : LineBreak cs head tail) :
    cs.foldl step ⟨1, 1⟩ = ⟨cs.count '\n' + 1, tail.length + 1⟩ := by
  have hhead : head.foldl step ⟨1, 1⟩ = ⟨cs.count '\n' + 1, 1⟩ := by
    rw [← h.count_eq]
    obtain rfl | ⟨previous, rfl⟩ := h.ends
    · rfl
    · rw [List.foldl_append, List.foldl_cons, List.foldl_nil, step, if_pos rfl, line_foldl_step]
      simp only [List.count_append, List.count_singleton_self, Position.mk.injEq, and_true]
      omega
  rw [h.eq, List.foldl_append, hhead, foldl_step_plain h.line, ← h.eq]
  simp only [Position.mk.injEq, true_and]
  omega

/-- Both ways place an offset between characters on the same line, behind the same text of that
line. One counts its characters and the other its bytes, so that they agree when each character
takes one byte and not otherwise. -/
theorem location_agrees_iff {cs : List Char} {s : Span} (h : Boundary cs s.start) :
    ∃ line start stop text, (LineIndex.ofText cs).Spans cs line start stop ∧
      slice? start s.start cs = some text ∧
      s.location cs = ⟨line, text.length + 1⟩ ∧
      (LineIndex.ofText cs).position s.start = ⟨line, byteLength text + 1⟩ ∧
      (s.location cs = (LineIndex.ofText cs).position s.start ↔ ∀ c ∈ text, c.utf8Size = 1) := by
  obtain ⟨before, after, heq, hstart⟩ := h
  obtain ⟨head, tail, hbreak⟩ := exists_lineBreak before
  obtain ⟨text, rest, -, hline⟩ := LineIndex.lineAt_of_lineBreak heq hbreak
  have hbytes : byteLength head + byteLength tail = s.start := by
    rw [← hstart, hbreak.eq, byteLength_append]
  have hslice : slice? (byteLength head) s.start cs = some tail := by
    rw [heq, hbreak.eq, ← hbytes, slice?_append]
  have hlocation : s.location cs = ⟨before.count '\n' + 1, tail.length + 1⟩ := by
    have hcount := countTo_append 0 ⟨1, 1⟩ before after
    rw [Nat.zero_add, hstart, ← heq] at hcount
    rw [location, hcount, foldl_step_eq hbreak]
  have hposition : (LineIndex.ofText cs).position s.start =
      ⟨before.count '\n' + 1, byteLength tail + 1⟩ := by
    have hcovers : LineIndex.Covers cs before after s.start :=
      ⟨heq, hstart.le, fun c _ => by have := c.utf8Size_pos; omega⟩
    have hcolumn : s.start - byteLength head = byteLength tail := by omega
    rw [LineIndex.position_eq hcovers hbreak, hcolumn]
  refine ⟨_, _, _, tail, hline.spans, hslice, hlocation, hposition, ?_⟩
  rw [hlocation, hposition, ← length_eq_byteLength_iff]
  simp

/-- Behind a character of two bytes. -/
example : (Span.mk 2 3).location ['é', '=', '1'] = ⟨1, 2⟩ ∧
    (LineIndex.ofText ['é', '=', '1']).position 2 = ⟨1, 3⟩ := by decide

end Span

end ScopedScript
