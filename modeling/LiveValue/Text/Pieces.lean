/-!
# Pieces of a text

A text falls into pieces at its marks. There is always a first piece, and with it as many more as
there are marks; `Pieces.joined` puts the marks back.
-/

namespace LiveValue.Text

/-- The pieces of a text, in order. -/
structure Pieces where
  first : List Char
  more : List (List Char)
deriving DecidableEq

namespace Pieces

/-- All pieces; there is at least one. -/
def toList (p : Pieces) : List (List Char) := p.first :: p.more

def single (s : List Char) : Pieces := ⟨s, []⟩

/-- Pieces with characters in front of the first one. -/
def push (front : List Char) (p : Pieces) : Pieces := { p with first := front ++ p.first }

/-- Pieces with a mark in front, and so with an empty first piece. -/
def cut (p : Pieces) : Pieces := ⟨[], p.toList⟩

def joined (mark : List Char) (p : Pieces) : List Char :=
  p.first ++ p.more.flatMap fun piece => mark ++ piece

@[simp]
theorem joined_single (mark s : List Char) : (single s).joined mark = s := by
  simp [single, joined]

@[simp]
theorem joined_push (mark front : List Char) (p : Pieces) :
    (p.push front).joined mark = front ++ p.joined mark := by
  simp [push, joined]

@[simp]
theorem joined_cut (mark : List Char) (p : Pieces) :
    p.cut.joined mark = mark ++ p.joined mark := by
  simp [cut, joined, toList]

/-- The pieces of a text between the characters of a kind. -/
def split (isMark : Char → Bool) : List Char → Pieces
  | [] => single []
  | c :: rest => if isMark c then (split isMark rest).cut else (split isMark rest).push [c]

theorem joined_split (mark : Char) (s : List Char) :
    (split (· == mark) s).joined [mark] = s := by
  induction s with
  | nil => simp [split]
  | cons c rest ih =>
    by_cases h : c = mark
    · simp [split, h, ih]
    · simp [split, h, ih]

theorem not_mark_of_mem_split {isMark : Char → Bool} {s piece : List Char} {c : Char}
    (h : piece ∈ (split isMark s).toList) (hc : c ∈ piece) : isMark c = false := by
  induction s generalizing piece with
  | nil =>
    simp only [split, single, toList, List.mem_singleton] at h
    simp [h] at hc
  | cons d rest ih =>
    by_cases hd : isMark d = true
    · simp only [split, hd, if_true, cut, toList, List.mem_cons] at h
      rcases h with rfl | h
      · simp at hc
      · exact ih (List.mem_cons.2 h) hc
    · simp only [split, hd, push, toList, List.mem_cons] at h
      rcases h with rfl | h
      · rcases List.mem_cons.1 hc with rfl | hc
        · simpa using hd
        · exact ih (List.mem_cons_self ..) hc
      · exact ih (List.mem_cons_of_mem _ h) hc

end Pieces

end LiveValue.Text
