import Mathlib.Data.List.Induction
import Mathlib.Order.Basic
import Mathlib.Order.Nat
import ScopedScript.Text.Lines

/-!
# Lines and positions

The position of an offset is told from the bytes of a text: its line counts the newlines before it,
and its column the bytes since that line began. The ranges of the lines cut the text at its
newlines.
-/

namespace ScopedScript.Text

/-! ## Bytes and boundaries -/

/-- The bytes of a text. -/
def bytes (cs : List Char) : List UInt8 := cs.flatMap String.utf8EncodeChar

/-- The byte of a line feed. -/
def newline : UInt8 := 10

/-- An offset at which a character begins, or the end of the text. -/
def Boundary (cs : List Char) (offset : Nat) : Prop :=
  ∃ before after, cs = before ++ after ∧ byteLength before = offset

@[simp]
theorem byteLength_nil : byteLength [] = 0 := rfl

@[simp]
theorem byteLength_cons (c : Char) (cs : List Char) :
    byteLength (c :: cs) = c.utf8Size + byteLength cs := rfl

@[simp]
theorem byteLength_append (cs ds : List Char) :
    byteLength (cs ++ ds) = byteLength cs + byteLength ds := by
  induction cs with
  | nil => simp
  | cons c cs ih => simp [ih, Nat.add_assoc]

theorem length_bytes (cs : List Char) : (bytes cs).length = byteLength cs := by
  induction cs with
  | nil => rfl
  | cons c cs ih =>
    rw [bytes, List.flatMap_cons, List.length_append, String.length_utf8EncodeChar, byteLength_cons,
      ← ih, bytes]

theorem bytes_append (cs ds : List Char) : bytes (cs ++ ds) = bytes cs ++ bytes ds :=
  List.flatMap_append

/-- Only a line feed is encoded with the byte of a line feed. -/
theorem newline_mem_utf8EncodeChar (c : Char) : newline ∈ String.utf8EncodeChar c ↔ c = '\n' := by
  have hcode : c = '\n' ↔ c.val.toNat = 10 := by
    rw [← Char.toNat_inj]
    rfl
  rw [hcode, newline]
  fun_cases String.utf8EncodeChar c <;>
    simp only [List.mem_cons, List.not_mem_nil, ← UInt8.toNat_inj, UInt8.toNat_ofNat',
      UInt8.reduceToNat, or_false] <;> omega

theorem newline_mem_bytes (cs : List Char) : newline ∈ bytes cs ↔ '\n' ∈ cs := by
  simp [bytes, newline_mem_utf8EncodeChar]

theorem count_newline_bytes (cs : List Char) : (bytes cs).count newline = cs.count '\n' := by
  induction cs with
  | nil => rfl
  | cons c cs ih =>
    rw [bytes, List.flatMap_cons, List.count_append, ← bytes, ih, List.count_cons]
    by_cases hc : c = '\n'
    · subst hc
      rw [Nat.add_comm]
      rfl
    · rw [List.count_eq_zero.2 ((newline_mem_utf8EncodeChar c).not.2 hc)]
      simp [hc]

/-! ## Slices -/

theorem dropBytes?_append (before after : List Char) :
    dropBytes? (byteLength before) (before ++ after) = some after := by
  induction before with
  | nil => simp [dropBytes?]
  | cons c before ih =>
    obtain ⟨n, hn⟩ : ∃ n, c.utf8Size + byteLength before = n + 1 :=
      ⟨c.utf8Size + byteLength before - 1, by have := c.utf8Size_pos; omega⟩
    have hrest : n + 1 - c.utf8Size = byteLength before := by omega
    rw [byteLength_cons, hn, List.cons_append, dropBytes?, if_pos (by omega), hrest, ih]

theorem takeBytes?_append (before after : List Char) :
    takeBytes? (byteLength before) (before ++ after) = some before := by
  induction before with
  | nil => simp [takeBytes?]
  | cons c before ih =>
    obtain ⟨n, hn⟩ : ∃ n, c.utf8Size + byteLength before = n + 1 :=
      ⟨c.utf8Size + byteLength before - 1, by have := c.utf8Size_pos; omega⟩
    have hrest : n + 1 - c.utf8Size = byteLength before := by omega
    rw [byteLength_cons, hn, List.cons_append, takeBytes?, if_pos (by omega), hrest, ih]
    rfl

/-- A slice between two characters is what stands there. -/
theorem slice?_append (before text after : List Char) :
    slice? (byteLength before) (byteLength before + byteLength text) (before ++ text ++ after) =
      some text := by
  rw [slice?, List.append_assoc, dropBytes?_append, Option.bind_some, Nat.add_sub_cancel_left,
    takeBytes?_append]

/-! ## Starts of lines -/

theorem startsAfter_append (offset : Nat) (cs ds : List Char) :
    startsAfter offset (cs ++ ds) =
      startsAfter offset cs ++ startsAfter (offset + byteLength cs) ds := by
  induction cs generalizing offset with
  | nil => simp [startsAfter]
  | cons c cs ih =>
    simp only [List.cons_append, startsAfter, ih, byteLength_cons, Nat.add_assoc]
    split <;> rfl

theorem startsAfter_eq_nil {offset : Nat} {cs : List Char} (h : '\n' ∉ cs) :
    startsAfter offset cs = [] := by
  induction cs generalizing offset with
  | nil => rfl
  | cons c cs ih =>
    obtain ⟨hc, hcs⟩ : '\n' ≠ c ∧ '\n' ∉ cs := by simpa using h
    rw [startsAfter, if_neg (Ne.symm hc), ih hcs]

theorem length_startsAfter (offset : Nat) (cs : List Char) :
    (startsAfter offset cs).length = cs.count '\n' := by
  induction cs generalizing offset with
  | nil => rfl
  | cons c cs ih =>
    rw [startsAfter, List.count_cons]
    by_cases hc : c = '\n' <;> simp [hc, ih]

theorem le_of_mem_startsAfter_cons {offset start : Nat} {c : Char} {cs : List Char}
    (h : start ∈ startsAfter offset (c :: cs)) : offset + c.utf8Size ≤ start := by
  simp only [startsAfter] at h
  split at h
  · rcases List.mem_cons.1 h with rfl | h
    · exact le_rfl
    · exact (lt_of_mem_startsAfter h).le
  · exact (lt_of_mem_startsAfter h).le

/-- The text before an offset, up to the line that the offset is on and from there. -/
structure LineBreak (cs head tail : List Char) : Prop where
  eq : cs = head ++ tail
  line : '\n' ∉ tail
  ends : head = [] ∨ ∃ previous, head = previous ++ ['\n']

theorem exists_lineBreak (cs : List Char) : ∃ head tail, LineBreak cs head tail := by
  induction cs using List.reverseRecOn with
  | nil => exact ⟨[], [], rfl, List.not_mem_nil, .inl rfl⟩
  | append_singleton cs c ih =>
    by_cases hc : c = '\n'
    · exact ⟨cs ++ [c], [], by simp, List.not_mem_nil, .inr ⟨cs, by rw [hc]⟩⟩
    · obtain ⟨head, tail, heq, hline, hends⟩ := ih
      refine ⟨head, tail ++ [c], by rw [heq, List.append_assoc], ?_, hends⟩
      simp [hline, Ne.symm hc]

/-- The last line of a text starts where its tail does, after one line for each newline. -/
theorem LineBreak.starts_eq {cs head tail : List Char} (h : LineBreak cs head tail) :
    ∃ early, 0 :: startsAfter 0 cs = early ++ [byteLength head] ∧ early.length = cs.count '\n' := by
  have hlast : (0 :: startsAfter 0 cs).getLast? = some (byteLength head) := by
    rw [h.eq, startsAfter_append, startsAfter_eq_nil h.line, List.append_nil]
    obtain rfl | ⟨previous, rfl⟩ := h.ends
    · rfl
    · have hnext : startsAfter (0 + byteLength previous) ['\n'] =
          [byteLength (previous ++ ['\n'])] := by simp [startsAfter]
      rw [startsAfter_append, ← List.cons_append, hnext, List.getLast?_concat]
  obtain ⟨early, hearly⟩ := List.getLast?_eq_some_iff.1 hlast
  have hlength := congrArg List.length hearly
  rw [List.length_cons, length_startsAfter, List.length_append, List.length_singleton] at hlength
  exact ⟨early, hearly, by omega⟩

theorem LineBreak.count_eq {cs head tail : List Char} (h : LineBreak cs head tail) :
    head.count '\n' = cs.count '\n' := by
  rw [h.eq, List.count_append, List.count_eq_zero.2 h.line, Nat.add_zero]

namespace LineIndex

variable {cs : List Char}

theorem count_ofText (cs : List Char) : (ofText cs).count = cs.count '\n' + 1 := by
  rw [← length_startsAfter 0 cs]
  rfl

/-! ## Positions -/

/-- An offset is on the last line that starts no later. -/
theorem lineOf_eq {index : LineIndex} {offset start : Nat} {before after : List Nat}
    (hsplit : index.starts = before ++ start :: after) (hle : start ≤ offset)
    (hlt : ∀ s ∈ after, offset < s) : index.lineOf offset = before.length := by
  have hascending := index.ascending
  rw [hsplit, List.pairwise_append] at hascending
  obtain ⟨-, -, hbefore⟩ := hascending
  have hearlier : ∀ s ∈ before, decide (s < offset) = true := fun s hs =>
    decide_eq_true ((hbefore s hs start List.mem_cons_self).trans_le hle)
  have hlater : after.takeWhile (· < offset) = [] := by
    cases after with
    | nil => rfl
    | cons s after =>
      have := hlt s List.mem_cons_self
      rw [List.takeWhile_cons_of_neg (by simpa using this.le)]
  have hrank : rank offset index.starts =
      if start = offset then .found before.length else .absent (before.length + 1) := by
    unfold rank
    rw [hsplit, List.takeWhile_append_of_pos hearlier]
    rcases hle.eq_or_lt with rfl | hstart
    · simp
    · have hother : after.head? ≠ some offset := by
        intro h
        exact lt_irrefl _ (hlt _ (List.mem_of_head? h))
      rw [List.takeWhile_cons_of_pos (by simpa using hstart), hlater, if_neg hstart.ne]
      have hnext : (before ++ start :: after)[before.length + 1]? = after.head? := by
        rw [List.getElem?_append_right (Nat.le_succ _)]
        simp [List.head?_eq_getElem?]
      simp only [List.length_append, List.length_cons, List.length_nil, Nat.zero_add, hnext,
        if_neg hother]
  rw [lineOf, hrank]
  split_ifs <;> rfl

/-- Where an offset falls in a text: after some characters, and before the next one ends. -/
structure Covers (cs before after : List Char) (offset : Nat) : Prop where
  eq : cs = before ++ after
  le : byteLength before ≤ offset
  lt : ∀ c ∈ after.head?, offset < byteLength before + c.utf8Size

theorem exists_covers (cs : List Char) (offset : Nat) :
    ∃ before after, Covers cs before after offset := by
  induction cs generalizing offset with
  | nil => exact ⟨[], [], rfl, Nat.zero_le _, nofun⟩
  | cons c cs ih =>
    by_cases hc : offset < c.utf8Size
    · exact ⟨[], c :: cs, rfl, Nat.zero_le _, by simpa using hc⟩
    · obtain ⟨before, after, heq, hle, hlt⟩ := ih (offset - c.utf8Size)
      refine ⟨c :: before, after, by rw [heq, List.cons_append], ?_, fun d hd => ?_⟩
      · rw [byteLength_cons]
        omega
      · have := hlt d hd
        rw [byteLength_cons]
        omega

/-- The line of an offset counts the newlines before it, the column the bytes since the last one. -/
theorem position_eq {before after head tail : List Char} {offset : Nat}
    (h : Covers cs before after offset) (hbreak : LineBreak before head tail) :
    (ofText cs).position offset = ⟨before.count '\n' + 1, offset - byteLength head + 1⟩ := by
  obtain ⟨early, hearly, hcount⟩ := hbreak.starts_eq
  have hstarts : (ofText cs).starts = early ++ byteLength head ::
      startsAfter (byteLength before) after := by
    calc (ofText cs).starts = 0 :: startsAfter 0 (before ++ after) := by rw [← h.eq]; rfl
      _ = (0 :: startsAfter 0 before) ++ startsAfter (byteLength before) after := by
        rw [startsAfter_append, Nat.zero_add, List.cons_append]
      _ = _ := by rw [hearly, List.append_assoc]; rfl
  have hle : byteLength head ≤ offset := by
    have := h.le
    rw [hbreak.eq, byteLength_append] at this
    omega
  have hlater : ∀ s ∈ startsAfter (byteLength before) after, offset < s := by
    intro s hs
    cases after with
    | nil => cases hs
    | cons c after => exact (h.lt c rfl).trans_le (le_of_mem_startsAfter_cons hs)
  have hline := lineOf_eq hstarts hle hlater
  have hat : (ofText cs).starts[(ofText cs).lineOf offset]? = some (byteLength head) := by
    rw [hline, hstarts, List.getElem?_append_right le_rfl]
    simp
  obtain ⟨_, hstart⟩ := List.getElem?_eq_some_iff.1 hat
  rw [position, List.get_eq_getElem, hstart, hline, hcount]

/-- No byte of a newline comes between an offset and the character that it is in. -/
theorem Covers.count_take {before after : List Char} {offset : Nat}
    (h : Covers cs before after offset) :
    ((bytes cs).take offset).count newline = before.count '\n' := by
  rw [h.eq, bytes_append, List.take_append,
    List.take_of_length_le (by rw [length_bytes]; exact h.le),
    List.count_append, count_newline_bytes, length_bytes, Nat.add_eq_left, List.count_eq_zero]
  cases after with
  | nil => simp [bytes]
  | cons c after =>
    have hlt := h.lt c rfl
    have hinside : offset - byteLength before < c.utf8Size := by
      have := h.le
      omega
    rw [bytes, List.flatMap_cons, List.take_append_of_le_length (by simpa using hinside.le)]
    intro hmem
    obtain rfl := (newline_mem_utf8EncodeChar c).1 (List.mem_of_mem_take hmem)
    have hsize : '\n'.utf8Size = 1 := rfl
    rw [hsize, Nat.lt_one_iff] at hinside
    rw [hinside] at hmem
    cases hmem

/-! ## Ranges -/

/-- The range of a line; that of the last one goes on to the end of the text. -/
def Spans (index : LineIndex) (cs : List Char) (line start stop : Nat) : Prop :=
  ∃ last, index.range? line = some (start, last) ∧ stop = last.getD (byteLength cs)

/-- A text around one of its lines. -/
structure LineAt (cs : List Char) (line : Nat) (before text after : List Char) : Prop where
  eq : cs = before ++ text ++ after
  number : before.count '\n' + 1 = line
  begins : before = [] ∨ ∃ previous, before = previous ++ ['\n']
  plain : '\n' ∉ text
  ends : after = [] ∨ ∃ rest, after = '\n' :: rest

theorem exists_plain (cs : List Char) :
    ∃ text after, cs = text ++ after ∧ '\n' ∉ text ∧
    (after = [] ∨ ∃ rest, after = '\n' :: rest) := by
  induction cs with
  | nil => exact ⟨[], [], rfl, List.not_mem_nil, .inl rfl⟩
  | cons c cs ih =>
    by_cases hc : c = '\n'
    · exact ⟨[], c :: cs, rfl, List.not_mem_nil, .inr ⟨cs, by rw [hc]⟩⟩
    · obtain ⟨text, after, heq, hplain, hends⟩ := ih
      exact ⟨c :: text, after, by rw [heq, List.cons_append], by simp [hplain, Ne.symm hc], hends⟩

/-- The next line begins behind the newline. -/
theorem LineAt.next {line : Nat} {before text rest : List Char}
    (h : LineAt cs line before text ('\n' :: rest)) :
    ∃ text' after, LineAt cs (line + 1) (before ++ text ++ ['\n']) text' after := by
  obtain ⟨text', after, heq, hplain, hends⟩ := exists_plain rest
  refine ⟨text', after, ?_, ?_, .inr ⟨_, rfl⟩, hplain, hends⟩
  · rw [h.eq, heq]
    simp
  · simp [← h.number, List.count_eq_zero.2 h.plain]

/-- Behind the last line the text is over. -/
theorem LineAt.after_eq_nil_iff {line : Nat} {before text after : List Char}
    (h : LineAt cs line before text after) : after = [] ↔ line = (ofText cs).count := by
  have hcount := congrArg (List.count '\n') h.eq
  simp only [List.count_append, List.count_eq_zero.2 h.plain] at hcount
  rw [count_ofText, hcount, ← h.number]
  obtain rfl | ⟨rest, rfl⟩ := h.ends
  · simp
  · simp only [reduceCtorEq, List.count_cons_self, false_iff]
    omega

theorem exists_lineAt {line : Nat} (hpos : 0 < line) (hle : line ≤ (ofText cs).count) :
    ∃ before text after, LineAt cs line before text after := by
  induction line with
  | zero => cases hpos
  | succ line ih =>
    obtain rfl | hline := Nat.eq_zero_or_pos line
    · obtain ⟨text, after, heq, hplain, hends⟩ := exists_plain cs
      exact ⟨[], text, after, heq, rfl, .inl rfl, hplain, hends⟩
    · obtain ⟨before, text, after, h⟩ := ih hline (by omega)
      obtain rfl | ⟨rest, rfl⟩ := h.ends
      · have := h.after_eq_nil_iff.1 rfl
        omega
      · obtain ⟨text', after, hnext⟩ := h.next
        exact ⟨_, text', after, hnext⟩

theorem LineAt.range?_eq {line : Nat} {before text after : List Char}
    (h : LineAt cs line before text after) : (ofText cs).range? line =
      some (byteLength before, after.head?.map fun _ => byteLength before + byteLength text) := by
  have hbreak : LineBreak before before [] := ⟨by simp, List.not_mem_nil, h.begins⟩
  obtain ⟨early, hearly, hcount⟩ := hbreak.starts_eq
  have hstarts : (ofText cs).starts =
      early ++ byteLength before :: startsAfter (byteLength before + byteLength text) after := by
    calc (ofText cs).starts = 0 :: startsAfter 0 (before ++ text ++ after) := by rw [← h.eq]; rfl
      _ = (0 :: startsAfter 0 before) ++
          startsAfter (byteLength before + byteLength text) after := by
        rw [startsAfter_append, startsAfter_append, startsAfter_eq_nil h.plain]
        simp
      _ = _ := by rw [hearly, List.append_assoc]; rfl
  have hfirst : (startsAfter (byteLength before + byteLength text) after).head?.map (· - 1) =
      after.head?.map fun _ => byteLength before + byteLength text := by
    obtain rfl | ⟨rest, rfl⟩ := h.ends
    · rfl
    · rfl
  rw [← h.number, range?, ← hcount, hstarts, List.getElem?_append_right le_rfl,
    List.getElem?_append_right (Nat.le_succ _)]
  simpa [List.head?_eq_getElem?] using hfirst

theorem LineAt.spans {line : Nat} {before text after : List Char}
    (h : LineAt cs line before text after) :
    (ofText cs).Spans cs line (byteLength before) (byteLength before + byteLength text) := by
  refine ⟨_, h.range?_eq, ?_⟩
  obtain rfl | ⟨rest, rfl⟩ := h.ends
  · simp [h.eq]
  · rfl

theorem Spans.unique {index : LineIndex} {line start stop start' stop' : Nat}
    (h : index.Spans cs line start stop) (h' : index.Spans cs line start' stop') :
    start = start' ∧ stop = stop' := by
  obtain ⟨last, hrange, rfl⟩ := h
  obtain ⟨last', hrange', rfl⟩ := h'
  rw [hrange] at hrange'
  cases hrange'
  exact ⟨rfl, rfl⟩

theorem exists_of_range? {index : LineIndex} {line start : Nat} {last : Option Nat}
    (h : index.range? line = some (start, last)) :
    ∃ i, line = i + 1 ∧ index.starts[i]? = some start ∧
      last = (index.starts[i + 1]?).map (· - 1) := by
  cases line with
  | zero => cases h
  | succ i =>
    obtain ⟨_, hstart, hpair⟩ := Option.map_eq_some_iff.1 h
    cases hpair
    exact ⟨i, rfl, hstart, rfl⟩

theorem Spans.bounds {index : LineIndex} {line start stop : Nat}
    (h : index.Spans cs line start stop) : 0 < line ∧ line ≤ index.count := by
  obtain ⟨last, hrange, -⟩ := h
  obtain ⟨i, rfl, hstart, -⟩ := exists_of_range? hrange
  exact ⟨Nat.succ_pos i, (List.getElem?_eq_some_iff.1 hstart).1⟩

/-- The range of a line is that of a piece of the text. -/
theorem Spans.lineAt {line start stop : Nat} (h : (ofText cs).Spans cs line start stop) :
    ∃ before text after, LineAt cs line before text after ∧ start = byteLength before ∧
      stop = byteLength before + byteLength text := by
  obtain ⟨before, text, after, hline⟩ := exists_lineAt h.bounds.1 h.bounds.2
  exact ⟨before, text, after, hline, h.unique hline.spans⟩

/-- What is in the range of a line. -/
theorem LineAt.mem_bytes {line offset : Nat} {before text after : List Char} {b : UInt8}
    (h : LineAt cs line before text after) (hle : byteLength before ≤ offset)
    (hlt : offset < byteLength before + byteLength text) (hb : (bytes cs)[offset]? = some b) :
    b ∈ bytes text := by
  rw [h.eq, bytes_append, bytes_append, List.append_assoc,
    List.getElem?_append_right (by rwa [length_bytes]),
    List.getElem?_append_left (by rw [length_bytes, length_bytes]; omega)] at hb
  exact List.mem_of_getElem? hb

/-- What ends a line. -/
theorem LineAt.getElem?_stop {line : Nat} {before text rest : List Char}
    (h : LineAt cs line before text ('\n' :: rest)) :
    (bytes cs)[byteLength before + byteLength text]? = some newline := by
  rw [h.eq, bytes_append, List.getElem?_append_right (by simp [length_bytes])]
  simp only [length_bytes, byteLength_append, Nat.sub_self]
  rfl

/-- A line ends before any later one starts. -/
theorem Spans.lt_of_lt {line line' start stop start' stop' : Nat}
    (h : (ofText cs).Spans cs line start stop) (h' : (ofText cs).Spans cs line' start' stop')
    (hlt : line < line') : stop < start' := by
  obtain ⟨_, hrange, rfl⟩ := h
  obtain ⟨_, hrange', -⟩ := h'
  obtain ⟨i, rfl, hi, rfl⟩ := exists_of_range? hrange
  obtain ⟨j, rfl, hj, -⟩ := exists_of_range? hrange'
  obtain ⟨hilt, hi⟩ := List.getElem?_eq_some_iff.1 hi
  obtain ⟨hjlt, hj⟩ := List.getElem?_eq_some_iff.1 hj
  have hnext : i + 1 < (ofText cs).starts.length := by omega
  have hascending := List.pairwise_iff_getElem.1 (ofText cs).ascending
  have hpos := hascending i (i + 1) hilt hnext (Nat.lt_succ_self i)
  rw [List.getElem?_eq_getElem hnext, Option.map_some, Option.getD_some]
  obtain hij | hij := (show i + 1 ≤ j by omega).eq_or_lt
  · subst hij
    omega
  · have := hascending (i + 1) j hnext hjlt hij
    omega

/-- How the ranges of the lines cut a text. -/
structure Cuts (index : LineIndex) (cs : List Char) : Prop where
  /-- Every line has a range, within the text and between characters. -/
  range : ∀ line, 0 < line → line ≤ index.count → ∃ start stop, index.Spans cs line start stop ∧
    start ≤ stop ∧ stop ≤ byteLength cs ∧ Boundary cs start ∧ Boundary cs stop
  /-- No newline is in it. -/
  plain : ∀ line start stop, index.Spans cs line start stop →
    ∃ text, slice? start stop cs = some text ∧ '\n' ∉ text
  first : ∀ start stop, index.Spans cs 1 start stop → start = 0
  /-- One newline is between a line and the next. -/
  next : ∀ line start stop start' stop', index.Spans cs line start stop →
    index.Spans cs (line + 1) start' stop' → (bytes cs)[stop]? = some newline ∧ start' = stop + 1
  last : ∀ start stop, index.Spans cs index.count start stop → stop = byteLength cs
  disjoint : ∀ line line' start stop start' stop', line < line' → index.Spans cs line start stop →
    index.Spans cs line' start' stop' → stop < start'
  /-- The bytes of no line are the newlines. -/
  cover : ∀ offset < byteLength cs, (bytes cs)[offset]? = some newline ↔
    ¬∃ line start stop, index.Spans cs line start stop ∧ start ≤ offset ∧ offset < stop

/-- The line that an offset is on, around the text before the offset. -/
theorem lineAt_of_lineBreak {before after head tail : List Char} (heq : cs = before ++ after)
    (hbreak : LineBreak before head tail) : ∃ text rest, after = text ++ rest ∧
      LineAt cs (before.count '\n' + 1) head (tail ++ text) rest := by
  obtain ⟨text, rest, hafter, hplain, hends⟩ := exists_plain after
  refine ⟨text, rest, hafter, ?_, by rw [hbreak.count_eq], hbreak.ends, ?_, hends⟩
  · rw [heq, hbreak.eq, hafter]
    simp
  · simp [hbreak.line, hplain]

/-- An offset is in the range of its line, as far behind its start as the column says. -/
theorem exists_spans_position {offset : Nat} (hle : offset ≤ byteLength cs) :
    ∃ start stop, (ofText cs).Spans cs ((ofText cs).position offset).line start stop ∧
      ((ofText cs).position offset).column = offset - start + 1 ∧ start ≤ offset ∧
      offset ≤ stop := by
  obtain ⟨before, after, hcovers⟩ := exists_covers cs offset
  obtain ⟨head, tail, hbreak⟩ := exists_lineBreak before
  obtain ⟨text, rest, hafter, hline⟩ := lineAt_of_lineBreak hcovers.eq hbreak
  have hbefore : byteLength before = byteLength head + byteLength tail := by
    rw [hbreak.eq, byteLength_append]
  have hstart := hcovers.le
  rw [position_eq hcovers hbreak]
  refine ⟨_, _, hline.spans, rfl, by omega, ?_⟩
  rw [byteLength_append]
  cases text with
  | cons c text =>
    have := hcovers.lt c (by rw [hafter]; rfl)
    rw [byteLength_cons]
    omega
  | nil =>
    obtain rfl | ⟨rest, rfl⟩ := hline.ends
    · rw [hcovers.eq, hafter, List.append_nil, List.append_nil] at hle
      rw [byteLength_nil]
      omega
    · have := hcovers.lt '\n' (by rw [hafter]; rfl)
      have hsize : '\n'.utf8Size = 1 := rfl
      rw [byteLength_nil]
      omega

theorem cuts_ofText (cs : List Char) : (ofText cs).Cuts cs where
  range line hpos hle := by
    obtain ⟨before, text, after, h⟩ := exists_lineAt hpos hle
    have hlength : byteLength cs = byteLength before + byteLength text + byteLength after := by
      rw [h.eq, byteLength_append, byteLength_append]
    refine ⟨_, _, h.spans, Nat.le_add_right _ _, by omega, ⟨before, text ++ after, ?_, rfl⟩,
      ⟨before ++ text, after, h.eq, byteLength_append _ _⟩⟩
    rw [h.eq, List.append_assoc]
  plain line start stop h := by
    obtain ⟨before, text, after, hline, rfl, rfl⟩ := h.lineAt
    exact ⟨text, by rw [hline.eq, slice?_append], hline.plain⟩
  first start stop h := by
    obtain ⟨_, hrange, -⟩ := h
    cases hrange
    rfl
  next line start stop start' stop' h h' := by
    obtain ⟨before, text, after, hline, rfl, rfl⟩ := h.lineAt
    obtain rfl | ⟨rest, rfl⟩ := hline.ends
    · have := hline.after_eq_nil_iff.1 rfl
      exact absurd h'.bounds.2 (by omega)
    · obtain ⟨text', after', hnext⟩ := hline.next
      obtain ⟨rfl, -⟩ := h'.unique hnext.spans
      exact ⟨hline.getElem?_stop, by simp; rfl⟩
  last start stop h := by
    obtain ⟨before, text, after, hline, rfl, rfl⟩ := h.lineAt
    obtain rfl := hline.after_eq_nil_iff.2 rfl
    simp [hline.eq]
  disjoint line line' start stop start' stop' hlt h h' := h.lt_of_lt h' hlt
  cover offset hlt := by
    constructor
    · rintro hbyte ⟨line, start, stop, h, hstart, hstop⟩
      obtain ⟨before, text, after, hline, rfl, rfl⟩ := h.lineAt
      exact hline.plain ((newline_mem_bytes text).1 (hline.mem_bytes hstart hstop hbyte))
    · intro hnone
      obtain ⟨start, stop, h, -, hstart, hstop⟩ := exists_spans_position hlt.le
      obtain ⟨before, text, after, hline, rfl, rfl⟩ := h.lineAt
      obtain rfl : offset = byteLength before + byteLength text :=
        hstop.antisymm (not_lt.1 fun hinside => hnone ⟨_, _, _, h, hstart, hinside⟩)
      obtain rfl | ⟨rest, rfl⟩ := hline.ends
      · simp [hline.eq] at hlt
      · exact hline.getElem?_stop

/-- The line of an offset counts the newlines before it, and the range of that line begins as many
bytes before the offset as the column says and goes on at least to the offset. The ranges of the
lines lie between characters, do not overlap, and leave nothing of the text but the newlines between
them. -/
theorem position_exact (cs : List Char) :
    (∀ offset ≤ byteLength cs,
      let pos := (ofText cs).position offset
      pos.line = ((bytes cs).take offset).count newline + 1 ∧
      ∃ start stop, (ofText cs).range? pos.line = some (start, stop) ∧
        pos.column = offset - start + 1 ∧ start ≤ offset ∧ ∀ last ∈ stop, offset ≤ last) ∧
    (ofText cs).Cuts cs := by
  refine ⟨fun offset hle => ⟨?line, ?range⟩, cuts_ofText cs⟩
  case line =>
    obtain ⟨before, after, hcovers⟩ := exists_covers cs offset
    obtain ⟨head, tail, hbreak⟩ := exists_lineBreak before
    rw [position_eq hcovers hbreak, hcovers.count_take]
  case range =>
    obtain ⟨start, stop, ⟨last, hrange, rfl⟩, hcolumn, hstart, hstop⟩ := exists_spans_position hle
    refine ⟨start, last, hrange, hcolumn, hstart, fun e he => ?_⟩
    obtain rfl : last = some e := he
    exact hstop

/-- The second line of a text whose first one has a character of two bytes. -/
theorem accented_position_exact :
    3 ≤ byteLength ['é', '\n', 'b'] ∧
      ((ofText ['é', '\n', 'b']).position 3).line =
        ((bytes ['é', '\n', 'b']).take 3).count newline + 1 ∧
      (ofText ['é', '\n', 'b']).position 3 = ⟨2, 1⟩ ∧
      (ofText ['é', '\n', 'b']).Cuts ['é', '\n', 'b'] := by
  have hle : 3 ≤ byteLength ['é', '\n', 'b'] := by decide
  exact ⟨hle, ((position_exact _).1 3 hle).1, by decide, (position_exact _).2⟩

end LineIndex

end ScopedScript.Text
