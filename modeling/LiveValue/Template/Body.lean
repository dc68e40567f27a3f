import LiveValue.Text.Quoted

/-!
# Placeholder bodies

A body starts behind an opening `${` and ends at the `}` that belongs to it: every further `${`
takes a `}` of its own, and within quoted runs neither counts. A body that never ends takes all of
the text.

* `Body.source_append_rest_read`: a body and what follows it make up the text;
* `Body.rest_read_of_open`: nothing follows a body that never ends;
* `Body.lt_stop`: reading a body goes on.
-/

namespace LiveValue.Template

open Text (QuoteState Quote)

/-- A body, what follows its closing brace, and whether there is one. -/
structure Body where
  text : List Char
  rest : List Char
  closed : Bool
deriving DecidableEq

namespace Body

def push (front : List Char) (b : Body) : Body := { b with text := front ++ b.text }

/-- Reads a body, within `depth` further openings. -/
def scan : QuoteState → Nat → List Char → Body
  | _, _, [] => ⟨[], [], false⟩
  | .inside q, depth, c :: rest =>
      if c = '\\' then
        match rest with
        | [] => ⟨[c], [], false⟩
        | d :: rest => (scan (.inside q) depth rest).push [c, d]
      else (scan ((QuoteState.inside q).next c) depth rest).push [c]
  | .scanning, depth, c :: rest =>
      if c = '}' then
        match depth with
        | 0 => ⟨[], rest, true⟩
        | depth + 1 => (scan .scanning depth rest).push [c]
      else if c = '$' then
        match rest with
        | '{' :: rest => (scan .scanning (depth + 1) rest).push [c, '{']
        | rest => (scan .scanning depth rest).push [c]
      else (scan (QuoteState.scanning.next c) depth rest).push [c]

def read (s : List Char) : Body := scan .scanning 0 s

/-- The text that a body takes up, with the closing brace if there is one. -/
def source (b : Body) : List Char := b.text ++ if b.closed then ['}'] else []

@[simp]
theorem rest_push (front : List Char) (b : Body) : (b.push front).rest = b.rest := rfl

@[simp]
theorem closed_push (front : List Char) (b : Body) : (b.push front).closed = b.closed := rfl

@[simp]
theorem source_mk (text rest : List Char) (closed : Bool) :
    (Body.mk text rest closed).source = text ++ if closed then ['}'] else [] := rfl

@[simp]
theorem source_push (front : List Char) (b : Body) : (b.push front).source = front ++ b.source :=
  List.append_assoc ..

theorem source_append_rest_scan (state : QuoteState) (depth : Nat) (s : List Char) :
    (scan state depth s).source ++ (scan state depth s).rest = s := by
  fun_induction scan state depth s <;> simp_all

/-- A body and what follows make up the text they were read from. -/
theorem source_append_rest_read (s : List Char) : (read s).source ++ (read s).rest = s :=
  source_append_rest_scan ..

theorem rest_scan_of_open {state : QuoteState} {depth : Nat} {s : List Char}
    (h : (scan state depth s).closed = false) : (scan state depth s).rest = [] := by
  fun_induction scan state depth s <;> simp_all

/-- Nothing follows a body that never ends. -/
theorem rest_read_of_open {s : List Char} (h : (read s).closed = false) : (read s).rest = [] :=
  rest_scan_of_open h

theorem length_rest_read (s : List Char) : (read s).rest.length ≤ s.length := by
  have h := congrArg List.length (source_append_rest_read s)
  rw [List.length_append] at h
  omega

def startingAt (source : List Char) (start : Nat) : Body := read (source.drop start)

/-- Where reading goes on behind a body that starts at a position. -/
def stop (source : List Char) (start : Nat) : Nat :=
  let body := startingAt source start
  if body.closed then start + body.text.length + 1 else source.length

/-- Reading goes on beyond every place before the body. -/
theorem lt_stop {source : List Char} {index start : Nat} (h : index < source.length)
    (hstart : index < start) : index < stop source start := by
  change index < if (startingAt source start).closed then _ else _
  split <;> omega

end Body

end LiveValue.Template
