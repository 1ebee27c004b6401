/-!
# Lines of a text

Offsets into a text count bytes. Lines are separated by line feeds, so that every text has at
least one line, and both lines and columns are counted from one.
-/

namespace ScopedScript.Text

/-- The text left after a number of bytes; `none` when they end inside a character or beyond the
text. -/
def dropBytes? : Nat → List Char → Option (List Char)
  | 0, cs => some cs
  | _ + 1, [] => none
  | n + 1, c :: cs => if c.utf8Size ≤ n + 1 then dropBytes? (n + 1 - c.utf8Size) cs else none

/-- A number of bytes at the front of a text, under the same conditions. -/
def takeBytes? : Nat → List Char → Option (List Char)
  | 0, _ => some []
  | _ + 1, [] => none
  | n + 1, c :: cs =>
    if c.utf8Size ≤ n + 1 then (takeBytes? (n + 1 - c.utf8Size) cs).map (c :: ·) else none

/-- The bytes of a text between two offsets. -/
def slice? (start stop : Nat) (cs : List Char) : Option (List Char) :=
  (dropBytes? start cs).bind (takeBytes? (stop - start))

/-- The number of bytes of a text. -/
def byteLength (cs : List Char) : Nat := cs.foldr (fun c n => c.utf8Size + n) 0

structure Position where
  line : Nat
  column : Nat
deriving DecidableEq, Repr

/-- Where an offset stands among ascending offsets. -/
inductive Rank
  /-- It is the one at an index. -/
  | found (index : Nat)
  /-- It is none of them, and would be put in at an index. -/
  | absent (index : Nat)
deriving DecidableEq, Repr

/-- Looks an offset up among ascending offsets. -/
def rank (offset : Nat) (starts : List Nat) : Rank :=
  let index := (starts.takeWhile (· < offset)).length
  if starts[index]? = some offset then .found index else .absent index

/-- The starts of the lines after the first, for a text that begins at an offset. -/
def startsAfter (offset : Nat) : List Char → List Nat
  | [] => []
  | c :: cs =>
    let next := offset + c.utf8Size
    if c = '\n' then next :: startsAfter next cs else startsAfter next cs

theorem lt_of_mem_startsAfter {offset start : Nat} {cs : List Char}
    (h : start ∈ startsAfter offset cs) : offset < start := by
  induction cs generalizing offset with
  | nil => cases h
  | cons c cs ih =>
    have hsize := c.utf8Size_pos
    have hrest (h : start ∈ startsAfter (offset + c.utf8Size) cs) : offset < start := by
      have := ih h
      omega
    simp only [startsAfter] at h
    split at h
    · rcases List.mem_cons.1 h with rfl | h
      · omega
      · exact hrest h
    · exact hrest h

theorem startsAfter_ascending (offset : Nat) (cs : List Char) :
    (startsAfter offset cs).Pairwise (· < ·) := by
  induction cs generalizing offset with
  | nil => exact .nil
  | cons c cs ih =>
    simp only [startsAfter]
    split
    · exact List.pairwise_cons.2 ⟨fun _ h => lt_of_mem_startsAfter h, ih _⟩
    · exact ih _

/-- The offsets at which the lines of a text start, the first of them zero. -/
structure LineIndex where
  starts : List Nat
  head : starts.head? = some 0
  ascending : starts.Pairwise (· < ·)
deriving DecidableEq, Repr

namespace LineIndex

def ofText (cs : List Char) : LineIndex where
  starts := 0 :: startsAfter 0 cs
  head := rfl
  ascending := List.pairwise_cons.2 ⟨fun _ h => lt_of_mem_startsAfter h, startsAfter_ascending 0 cs⟩

def count (index : LineIndex) : Nat := index.starts.length

theorem count_pos (index : LineIndex) : 0 < index.count := by
  have h := index.head
  unfold count
  cases hs : index.starts with
  | nil => rw [hs] at h; cases h
  | cons => exact Nat.succ_pos _

/-- The index of the line of an offset. An offset beyond the text is on the last line. -/
def lineOf (index : LineIndex) (offset : Nat) : Nat :=
  match rank offset index.starts with
  | .found i => i
  | .absent i => i - 1

theorem lineOf_lt (index : LineIndex) (offset : Nat) :
    index.lineOf offset < index.starts.length := by
  have hpos : 0 < index.starts.length := index.count_pos
  have hle := (List.takeWhile_sublist (l := index.starts) (· < offset)).length_le
  unfold lineOf rank
  dsimp only
  split
  next i h =>
    split at h <;> cases h
    next hfound => exact (List.getElem?_eq_some_iff.1 hfound).1
  next i h =>
    split at h <;> cases h
    omega

/-- The line of an offset, and its column in bytes. -/
def position (index : LineIndex) (offset : Nat) : Position :=
  let line := index.lineOf offset
  ⟨line + 1, offset - index.starts.get ⟨line, index.lineOf_lt offset⟩ + 1⟩

/-- The offsets at which a line starts and ends; the last line has no end of its own. -/
def range? (index : LineIndex) (line : Nat) : Option (Nat × Option Nat) :=
  match line with
  | 0 => none
  | i + 1 => (index.starts[i]?).map fun start => (start, (index.starts[i + 1]?).map (· - 1))

/-- The range of a line, cut where the text ends. -/
def cut? (index : LineIndex) (cs : List Char) (line : Nat) : Option (Nat × Nat) :=
  (index.range? line).map fun (start, stop) =>
    let stop := min (stop.getD (byteLength cs)) (byteLength cs)
    (min start stop, stop)

end LineIndex

end ScopedScript.Text
