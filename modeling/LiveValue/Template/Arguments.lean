import LiveValue.Text.Blank
import LiveValue.Text.Pieces
import LiveValue.Text.Quoted

/-!
# Argument lists

The arguments of a written call stand between commas. Commas within parentheses or quoted runs
belong to an argument; blanks around an argument do not. `Arguments.joined_pieces` says that
splitting takes nothing but commas away.
-/

namespace LiveValue.Template

open Text (Pieces QuoteState)

namespace Arguments

/-- How deep in parentheses the text after a character is; there is no depth below zero. -/
def nesting (depth : Nat) (c : Char) : Nat :=
  if c = '(' then depth + 1 else if c = ')' then depth - 1 else depth

/-- The pieces of a text between the commas at depth zero. -/
def pieces : QuoteState → Nat → List Char → Pieces
  | _, _, [] => .single []
  | .inside q, depth, c :: rest =>
      if c = '\\' then
        match rest with
        | [] => .single [c]
        | d :: rest => (pieces (.inside q) depth rest).push [c, d]
      else (pieces ((QuoteState.inside q).next c) depth rest).push [c]
  | .scanning, depth, c :: rest =>
      if c = ',' ∧ depth = 0 then (pieces .scanning 0 rest).cut
      else (pieces (QuoteState.scanning.next c) (nesting depth c) rest).push [c]

/-- Nothing but the commas between the pieces is taken away. -/
theorem joined_pieces (state : QuoteState) (depth : Nat) (s : List Char) :
    (pieces state depth s).joined [','] = s := by
  fun_induction pieces state depth s <;> simp_all

def dropEmptyLast (args : List (List Char)) : List (List Char) :=
  if args.getLast? = some [] then args.dropLast else args

def split (s : List Char) : List (List Char) :=
  dropEmptyLast ((pieces .scanning 0 s).toList.map Text.trim)

end Arguments

end LiveValue.Template
