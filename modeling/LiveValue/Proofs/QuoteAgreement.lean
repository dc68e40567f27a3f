import LiveValue.Proofs.ArgumentPieces
import LiveValue.Proofs.Terms
import LiveValue.Proofs.Tokens

/-!
# What is quoted

A placeholder is read more than once: the matching of braces goes over its body, then the arguments
of the call that the body is are split, and an argument with a placeholder or a call of its own is
read again in the same way. Each of these scans starts in the middle of a text and keeps a quote
state of its own. They never disagree: what one of them takes to be quoted is quoted for all.

* `Body.fst_traced`, `Arguments.fst_traced`: the two scans, with the quote states they go through;
* `Body.states_eq`, `Arguments.states_eq`: both follow the same standing within a text;
* `Unquoted`: a part of a text with no quoted run open in front of it or behind it;
* `ArgumentListIn.unquoted`: every argument list in a closed body is such a part;
* `quotes_agree`: the two scans of an argument list.
-/

namespace LiveValue

open Text (Pieces Quote QuoteState Standing)

/-! ## The states that a scan goes through -/

namespace Text.Standing

/-- The quote state of a standing: behind a backslash a scanner is still in its run. -/
def state : Standing → QuoteState
  | .outside => .scanning
  | .inside quote | .escaping quote => .inside quote

def behind (standing : Standing) (s : List Char) : Standing := s.foldl next standing

/-- The quote states in front of each character of a text and behind the last one. -/
def states : Standing → List Char → List QuoteState
  | standing, [] => [standing.state]
  | standing, c :: rest => standing.state :: states (standing.next c) rest

variable {standing : Standing} {s t : List Char}

@[simp]
theorem state_ofState (state : QuoteState) : (ofState state).state = state := by
  cases state <;> rfl

theorem behind_append (standing : Standing) (s t : List Char) :
    standing.behind (s ++ t) = (standing.behind s).behind t :=
  List.foldl_append

theorem drop_states_append (standing : Standing) (s t : List Char) :
    (standing.states (s ++ t)).drop s.length = (standing.behind s).states t := by
  induction s generalizing standing with
  | nil => rfl
  | cons c s ih => exact ih (standing.next c)

theorem take_states_append (standing : Standing) (s t : List Char) :
    (standing.states (s ++ t)).take (s.length + 1) = standing.states s := by
  induction s generalizing standing with
  | nil => cases t <;> rfl
  | cons c s ih => exact congrArg (standing.state :: ·) (ih (standing.next c))

theorem getLast?_states (standing : Standing) (s : List Char) :
    (standing.states s).getLast? = some (standing.behind s).state := by
  induction s generalizing standing with
  | nil => rfl
  | cons c s ih =>
    have hne : (standing.next c).states s ≠ [] := by cases s <;> exact List.cons_ne_nil _ _
    rw [states, List.getLast?_cons_of_ne_nil hne, ih]
    rfl

/-- Behind calm characters a scanner is outside of quotes only if it was so in front of them. -/
theorem behind_eq_outside_iff (h : ∀ c ∈ s, IsCalm c) (standing : Standing) :
    standing.behind s = .outside ↔ standing = .outside := by
  induction s generalizing standing with
  | nil => exact Iff.rfl
  | cons c s ih =>
    rw [List.forall_mem_cons] at h
    exact (ih h.2 (standing.next c)).trans (next_eq_outside_iff h.1 standing)

end Text.Standing

namespace Template

namespace Body

/-- `scan` with the quote states in which it is in front of each character of the body, and where it
ends. -/
def traced : QuoteState → Nat → List Char → Body × List QuoteState
  | state, _, [] => (⟨[], [], false⟩, [state])
  | .inside q, depth, c :: rest =>
      if c = '\\' then
        match rest with
        | [] => (⟨[c], [], false⟩, [.inside q, .inside q])
        | d :: rest =>
            (traced (.inside q) depth rest).map (push [c, d]) ([.inside q, .inside q] ++ ·)
      else (traced ((QuoteState.inside q).next c) depth rest).map (push [c]) (.inside q :: ·)
  | .scanning, depth, c :: rest =>
      if c = '}' then
        match depth with
        | 0 => (⟨[], rest, true⟩, [.scanning])
        | depth + 1 => (traced .scanning depth rest).map (push [c]) (.scanning :: ·)
      else if c = '$' then
        match rest with
        | '{' :: rest =>
            (traced .scanning (depth + 1) rest).map (push [c, '{']) ([.scanning, .scanning] ++ ·)
        | rest => (traced .scanning depth rest).map (push [c]) (.scanning :: ·)
      else (traced (QuoteState.scanning.next c) depth rest).map (push [c]) (.scanning :: ·)

theorem fst_traced (state : QuoteState) (depth : Nat) (s : List Char) :
    (traced state depth s).1 = scan state depth s := by
  fun_induction traced state depth s with
  | case1 | case2 => rfl
  | case3 q depth d rest ih => rw [Prod.map_fst, ih, scan_escape]
  | case4 q depth c rest hc ih => rw [Prod.map_fst, ih, scan_inside hc]
  | case5 rest => rw [scan_end]
  | case6 rest depth ih => rw [Prod.map_fst, ih, scan_close]
  | case7 depth rest _ ih => rw [Prod.map_fst, ih, scan_open]
  | case8 depth rest hrest _ ih =>
    have hhead : rest.head? ≠ some '{' := fun hopens =>
      (List.head?_eq_some_iff.1 hopens).elim hrest
    rw [Prod.map_fst, ih, scan_dollar hhead]
  | case9 depth c rest hbrace hdollar ih => rw [Prod.map_fst, ih, scan_other hbrace hdollar]

/-- The quote states that the matching of braces goes through. -/
def states (state : QuoteState) (depth : Nat) (s : List Char) : List QuoteState :=
  (traced state depth s).2

theorem states_eq (state : QuoteState) (depth : Nat) (s : List Char) :
    states state depth s = (Standing.ofState state).states (scan state depth s).text := by
  rw [states, ← fst_traced]
  fun_induction traced state depth s with
  | case1 state depth => cases state <;> rfl
  | case2 q depth => rfl
  | case3 q depth d rest ih =>
    rw [Prod.map_snd, ih]
    rfl
  | case4 q depth c rest hc ih =>
    rw [Prod.map_snd, ih, ← Standing.next_inside hc]
    rfl
  | case5 rest => rfl
  | case6 rest depth ih =>
    rw [Prod.map_snd, ih]
    rfl
  | case7 depth rest _ ih =>
    rw [Prod.map_snd, ih]
    rfl
  | case8 depth rest hrest _ ih =>
    rw [Prod.map_snd, ih]
    rfl
  | case9 depth c rest hbrace hdollar ih =>
    rw [Prod.map_snd, ih]
    rfl

/-- Where a body is closed no quoted run is open. -/
theorem behind_text_of_closed {state : QuoteState} {depth : Nat} {s : List Char}
    (h : (scan state depth s).closed = true) :
    (Standing.ofState state).behind (scan state depth s).text = .outside := by
  fun_induction scan state depth s with
  | case1 | case2 => cases h
  | case3 q depth d rest ih => exact ih h
  | case4 q depth c rest hc ih =>
    rw [← Standing.next_inside hc] at ih
    exact ih h
  | case5 rest => rfl
  | case6 rest depth ih => exact ih h
  | case7 depth rest _ ih => exact ih h
  | case8 depth rest hrest _ ih => exact ih h
  | case9 depth c rest hbrace hdollar ih => exact ih h

end Body

namespace Arguments

/-- `pieces` with the quote states in which it is in front of each character of the list, and where
it ends. -/
def traced : QuoteState → Nat → List Char → Pieces × List QuoteState
  | state, _, [] => (.single [], [state])
  | .inside q, depth, c :: rest =>
      if c = '\\' then
        match rest with
        | [] => (.single [c], [.inside q, .inside q])
        | d :: rest =>
            (traced (.inside q) depth rest).map (.push [c, d]) ([.inside q, .inside q] ++ ·)
      else (traced ((QuoteState.inside q).next c) depth rest).map (.push [c]) (.inside q :: ·)
  | .scanning, depth, c :: rest =>
      if c = ',' ∧ depth = 0 then (traced .scanning 0 rest).map .cut (.scanning :: ·)
      else
        (traced (QuoteState.scanning.next c) (nesting depth c) rest).map (.push [c])
          (.scanning :: ·)

theorem fst_traced (state : QuoteState) (depth : Nat) (s : List Char) :
    (traced state depth s).1 = pieces state depth s := by
  fun_induction traced state depth s with
  | case1 | case2 => rfl
  | case3 q depth d rest ih => rw [Prod.map_fst, ih, pieces_escape]
  | case4 q depth c rest hc ih => rw [Prod.map_fst, ih, pieces_inside hc]
  | case5 depth c rest h ih =>
    obtain ⟨rfl, rfl⟩ := h
    rw [Prod.map_fst, ih, pieces_comma]
  | case6 depth c rest h ih => rw [Prod.map_fst, ih, pieces_scanning h]

/-- The quote states that the splitting of a list goes through. -/
def states (state : QuoteState) (depth : Nat) (s : List Char) : List QuoteState :=
  (traced state depth s).2

theorem states_eq (state : QuoteState) (depth : Nat) (s : List Char) :
    states state depth s = (Standing.ofState state).states s := by
  rw [states]
  fun_induction traced state depth s with
  | case1 state depth => rw [Standing.states, Standing.state_ofState]
  | case2 q depth => rfl
  | case3 q depth d rest ih =>
    rw [Prod.map_snd, ih]
    rfl
  | case4 q depth c rest hc ih =>
    rw [Prod.map_snd, ih, ← Standing.next_inside hc]
    rfl
  | case5 depth c rest h ih =>
    obtain ⟨rfl, rfl⟩ := h
    rw [Prod.map_snd, ih]
    rfl
  | case6 depth c rest h ih =>
    rw [Prod.map_snd, ih]
    rfl

theorem Place.standing_of_over? {p p' : Place} {s : List Char} (h : p.over? s = some p') :
    p'.standing = p.standing.behind s := by
  induction s generalizing p with
  | nil =>
    cases h
    rfl
  | cons c s ih =>
    by_cases hcut : c = ',' ∧ p = ground
    · rw [over?, if_pos hcut] at h
      cases h
    · rw [over?_cons hcut] at h
      exact ih h

/-- Each piece that another one follows ends outside of quotes. -/
theorem Divides.behind_of_mem_dropLast {pieces : List (List Char)} (h : Divides pieces)
    {piece : List Char} (hpiece : piece ∈ pieces.dropLast) :
    Standing.outside.behind piece = .outside :=
  (Place.standing_of_over? (h.grounded piece hpiece)).symm

/-- What stands in front of a piece of an argument list. -/
def front (earlier : List (List Char)) : List Char := earlier.flatMap fun piece => piece ++ [',']

theorem intercalate_eq (earlier later : List (List Char)) (piece : List Char) :
    [','].intercalate (earlier ++ piece :: later)
      = front earlier ++ (piece ++ later.flatMap ([','] ++ ·)) := by
  induction earlier with
  | nil => exact Pieces.intercalate_toList [','] ⟨piece, later⟩
  | cons first earlier ih =>
    have hne : earlier ++ piece :: later ≠ [] :=
      List.append_ne_nil_of_right_ne_nil _ (List.cons_ne_nil _ _)
    rw [List.cons_append, List.intercalate_cons_of_ne_nil hne, ih, front, front,
      List.flatMap_cons]
    simp only [List.append_assoc]

theorem behind_front {earlier : List (List Char)}
    (h : ∀ piece ∈ earlier, Standing.outside.behind piece = .outside) :
    Standing.outside.behind (front earlier) = .outside := by
  induction earlier with
  | nil => rfl
  | cons piece earlier ih =>
    rw [List.forall_mem_cons] at h
    rw [front, List.flatMap_cons, Standing.behind_append, Standing.behind_append, h.1]
    exact ih h.2

end Arguments

/-! ## Calls that stand alone in a text -/

namespace Expression

/-- The text of a call is its name and, in parentheses, its arguments. -/
theorem eq_of_call? {s name args : List Char} (h : call? s = some (name, args)) :
    s = name ++ '(' :: (args ++ [')']) ∧ ∀ c ∈ name, isNameRest c = true := by
  unfold call? at h
  split at h
  · next c rest text hspan =>
    split at h
    · next hends =>
      obtain ⟨rfl, rfl⟩ := Prod.mk.inj (Option.some.inj h)
      rw [List.span_eq_takeWhile_dropWhile] at hspan
      obtain ⟨hname, htext⟩ := Prod.mk.inj hspan
      obtain ⟨init, rfl⟩ := List.getLast?_eq_some_iff.1 hends.2
      refine ⟨?_, fun d hd => ?_⟩
      · rw [List.dropLast_concat, ← htext, ← hname, List.takeWhile_append_dropWhile]
      · rw [← hname] at hd
        exact List.mem_takeWhile_imp hd
    · cases h
  · cases h

theorem isCalm_of_isNameRest {c : Char} (h : isNameRest c = true) : Standing.IsCalm c := by
  refine ⟨?_, ?_, ?_⟩ <;> rintro rfl <;> exact absurd h (by decide)

/-- What stands in front of the arguments where a call stands alone in a text, with blanks around
it. -/
def front (text name : List Char) : List Char := text.takeWhile Text.isBlank ++ (name ++ ['('])

end Expression

theorem Argument.eq_of_placeholder {s body : List Char}
    (h : ofTrimmed s = .placeholder (String.ofList body)) :
    s = ['$', '{'] ++ (body ++ ['}']) := by
  unfold ofTrimmed at h
  split at h
  · next rest =>
    split at h
    · next hends =>
      obtain ⟨init, rfl⟩ := List.getLast?_eq_some_iff.1 hends
      rw [List.dropLast_concat] at h
      obtain rfl := String.ofList_injective (Argument.placeholder.inj h)
      rfl
    · cases h
  · split at h <;> cases h
  · cases h

/-! ## Parts of a text with no quoted run open around them -/

/-- A part of a text, behind a front. A scan that starts outside of quotes in front of the whole
text, or in front of the part, is outside of quotes at both ends of the part. -/
structure Unquoted (text front part : List Char) : Prop where
  prefix_text : front ++ part <+: text
  behind_front : Standing.outside.behind front = .outside
  behind_part : Standing.outside.behind part = .outside

namespace Unquoted

variable {text front part front' part' : List Char}

theorem trans (h : Unquoted text front part) (h' : Unquoted part front' part') :
    Unquoted text (front ++ front') part' where
  prefix_text := by
    rw [List.append_assoc]
    exact ((List.prefix_append_right_inj front).2 h'.prefix_text).trans h.prefix_text
  behind_front := by rw [Standing.behind_append, h.behind_front, h'.behind_front]
  behind_part := h'.behind_part

/-- What stands between calm characters. -/
theorem of_calm (back : List Char) (htext : text = front ++ (part ++ back))
    (hfront : ∀ c ∈ front, Standing.IsCalm c) (hback : ∀ c ∈ back, Standing.IsCalm c)
    (h : Standing.outside.behind text = .outside) : Unquoted text front part := by
  subst htext
  have hstart := (Standing.behind_eq_outside_iff hfront .outside).2 rfl
  rw [Standing.behind_append, hstart, Standing.behind_append,
    Standing.behind_eq_outside_iff hback] at h
  refine ⟨?_, hstart, h⟩
  rw [← List.append_assoc]
  exact List.prefix_append _ _

theorem trim (h : Standing.outside.behind text = .outside) :
    Unquoted text (text.takeWhile Text.isBlank) (Text.trim text) := by
  obtain ⟨trail, htext, htrail⟩ := Text.exists_trail text
  rw [List.append_assoc] at htext
  refine of_calm trail htext (fun c hc => ?_) (fun c hc => ?_) h
  · exact Standing.isCalm_of_isBlank (List.mem_takeWhile_imp hc)
  · exact Standing.isCalm_of_isBlank (htrail c hc)

/-- The arguments of a call that stands alone in a text. -/
theorem call {name args : List Char} (hcall : Expression.call? (Text.trim text) = some (name, args))
    (h : Standing.outside.behind text = .outside) :
    Unquoted text (Expression.front text name) args := by
  obtain ⟨htext, hname⟩ := Expression.eq_of_call? hcall
  have htrim := Unquoted.trim h
  refine htrim.trans (of_calm [')'] ?_ (fun c hc => ?_) ?_ htrim.behind_part)
  · rw [htext, List.append_assoc]
    rfl
  · rcases List.mem_append.1 hc with hc | hc
    · exact Expression.isCalm_of_isNameRest (hname c hc)
    · obtain rfl := List.mem_singleton.1 hc
      decide
  · exact List.forall_mem_singleton.2 (by decide)

/-- One of the pieces that an argument list is split into. -/
theorem piece {args part : List Char} {earlier later : List (List Char)}
    (hpieces : (Arguments.pieces .scanning 0 args).toList = earlier ++ part :: later)
    (h : Standing.outside.behind args = .outside) :
    Unquoted args (Arguments.front earlier) part := by
  have hdivides := Arguments.divides_pieces args
  rw [hpieces] at hdivides
  have hargs : args = Arguments.front earlier ++ (part ++ later.flatMap ([','] ++ ·)) := by
    rw [← Arguments.intercalate_eq, ← hpieces, Pieces.intercalate_toList,
      Arguments.joined_pieces]
  have hfront : Standing.outside.behind (Arguments.front earlier) = .outside := by
    refine Arguments.behind_front fun piece hpiece => hdivides.behind_of_mem_dropLast ?_
    rw [List.dropLast_append_cons]
    exact List.mem_append_left _ hpiece
  refine ⟨?_, hfront, ?_⟩
  · conv_rhs => rw [hargs, ← List.append_assoc]
    exact List.prefix_append _ _
  · cases later with
    | nil =>
      -- the last piece ends where the whole list does
      rwa [hargs, List.flatMap_nil, List.append_nil, Standing.behind_append, hfront] at h
    | cons next later =>
      refine hdivides.behind_of_mem_dropLast ?_
      rw [List.dropLast_append_cons, List.dropLast_cons_cons]
      exact List.mem_append_right _ List.mem_cons_self

/-- The body of a placeholder that is an argument. -/
theorem body {part inner : List Char}
    (hplaceholder : Argument.ofTrimmed (Text.trim part) = .placeholder (String.ofList inner))
    (h : Standing.outside.behind part = .outside) :
    Unquoted part (part.takeWhile Text.isBlank ++ ['$', '{']) inner := by
  have htrim := Unquoted.trim h
  have hfront : ∀ c ∈ ['$', '{'], Standing.IsCalm c := by simp [Standing.IsCalm]
  have hback : ∀ c ∈ ['}'], Standing.IsCalm c := by simp [Standing.IsCalm]
  have htext := Argument.eq_of_placeholder hplaceholder
  exact htrim.trans (of_calm ['}'] htext hfront hback htrim.behind_part)

end Unquoted

/-! ## The argument lists that reading comes to -/

/-- Where in a body the argument lists stand that its reading comes to: its own, if it is a call,
and to any depth those of its arguments that are calls themselves or placeholders of calls. The
second text is what stands in front of the list. -/
inductive ArgumentListIn : List Char → List Char → List Char → Prop
  | own {body name args : List Char}
      (hcall : Expression.call? (Text.trim body) = some (name, args)) :
      ArgumentListIn body (Expression.front body name) args
  | ofCall {body name args piece front inner : List Char} {earlier later : List (List Char)}
      (hcall : Expression.call? (Text.trim body) = some (name, args))
      (hpieces : (Arguments.pieces .scanning 0 args).toList = earlier ++ piece :: later)
      (hinner : ArgumentListIn piece front inner) :
      ArgumentListIn body (Expression.front body name ++ (Arguments.front earlier ++ front)) inner
  | ofPlaceholder {body name args piece nested front inner : List Char}
      {earlier later : List (List Char)}
      (hcall : Expression.call? (Text.trim body) = some (name, args))
      (hpieces : (Arguments.pieces .scanning 0 args).toList = earlier ++ piece :: later)
      (hplaceholder : Argument.ofTrimmed (Text.trim piece) = .placeholder (String.ofList nested))
      (hinner : ArgumentListIn nested front inner) :
      ArgumentListIn body
        (Expression.front body name ++
          (Arguments.front earlier ++ ((piece.takeWhile Text.isBlank ++ ['$', '{']) ++ front)))
        inner

theorem ArgumentListIn.unquoted {body front args : List Char} (h : ArgumentListIn body front args)
    (hbody : Standing.outside.behind body = .outside) : Unquoted body front args := by
  induction h with
  | own hcall => exact .call hcall hbody
  | ofCall hcall hpieces _ ih =>
    have hargs := Unquoted.call hcall hbody
    have hpiece := Unquoted.piece hpieces hargs.behind_part
    exact hargs.trans (hpiece.trans (ih hpiece.behind_part))
  | ofPlaceholder hcall hpieces hplaceholder _ ih =>
    have hargs := Unquoted.call hcall hbody
    have hpiece := Unquoted.piece hpieces hargs.behind_part
    have hnested := Unquoted.body hplaceholder hpiece.behind_part
    exact hargs.trans (hpiece.trans (hnested.trans (ih hnested.behind_part)))

/-- Where a body is closed, every argument list that its reading comes to is a part of it, at whose
characters the splitting of the list and the matching of the braces are in the same quote states.
Splitting ends outside of quotes, and so does scanning any of the arguments alone. The states are
those of the scans themselves, which come to the same without them. -/
theorem quotes_agree {source : List Char} {start : Nat}
    (hclosed : (Body.startingAt source start).closed = true) :
    let body := (Body.startingAt source start).text
    (∀ text name args, Expression.read body = .call text name args →
      ∃ front raw, ArgumentListIn body front raw ∧
        args = (Arguments.split raw).map String.ofList) ∧
    (∀ front args, ArgumentListIn body front args →
      front ++ args <+: body ∧
      Arguments.states .scanning 0 args
        = ((Body.states .scanning 0 (source.drop start)).drop front.length).take
            (args.length + 1) ∧
      (Arguments.states .scanning 0 args).getLast? = some .scanning ∧
      ∀ arg ∈ Arguments.split args,
        (Arguments.states .scanning 0 arg).getLast? = some .scanning) ∧
    (∀ state depth s, (Body.traced state depth s).1 = Body.scan state depth s) ∧
    ∀ state depth s, (Arguments.traced state depth s).1 = Arguments.pieces state depth s := by
  intro body
  refine ⟨fun text name args hread => ?_, fun front args hlist => ?_, Body.fst_traced,
    Arguments.fst_traced⟩
  · obtain ⟨called, raw, hcall, -, -, hargs⟩ := Expression.read_eq_call_iff.1 hread
    exact ⟨_, raw, .own hcall, hargs⟩
  · have hpart := hlist.unquoted (Body.behind_text_of_closed hclosed)
    have hends {part : List Char} (h : Standing.outside.behind part = .outside) :
        (Arguments.states .scanning 0 part).getLast? = some .scanning := by
      rw [Arguments.states_eq, Standing.getLast?_states, Standing.ofState, h]
      rfl
    refine ⟨hpart.prefix_text, ?_, hends hpart.behind_part, fun arg harg => hends ?_⟩
    · obtain ⟨behind, hbody⟩ := hpart.prefix_text
      have hscan : (Body.scan .scanning 0 (source.drop start)).text = front ++ (args ++ behind) :=
        hbody.symm.trans (List.append_assoc _ _ _)
      rw [Arguments.states_eq, Body.states_eq, hscan, Standing.drop_states_append,
        Standing.ofState, hpart.behind_front, Standing.take_states_append]
    · obtain ⟨piece, hpiece, rfl⟩ := Arguments.exists_piece_of_mem_split harg
      obtain ⟨earlier, later, hpieces⟩ := List.append_of_mem hpiece
      exact (Unquoted.trim (Unquoted.piece hpieces hpart.behind_part).behind_part).behind_part

/-- A call that has a call in a placeholder among its arguments, with quoted marks in both. -/
def nestedCalls : List Char := "$\x7bf(\")\", $\x7bg('\x7d,' , a)\x7d)\x7d".toList

theorem quotes_agree_nestedCalls :
    (Body.startingAt nestedCalls 2).closed = true ∧
      ArgumentListIn (Body.startingAt nestedCalls 2).text
        "f(\")\", $\x7bg(".toList "'\x7d,' , a".toList ∧
      Arguments.states .scanning 0 "'\x7d,' , a".toList
        = ((Body.states .scanning 0 (nestedCalls.drop 2)).drop 11).take 9 := by
  have hclosed : (Body.startingAt nestedCalls 2).closed = true := by cbv
  have hlist : ArgumentListIn (Body.startingAt nestedCalls 2).text
      "f(\")\", $\x7bg(".toList "'\x7d,' , a".toList := by
    have hbody : Expression.call? (Text.trim (Body.startingAt nestedCalls 2).text)
        = some (['f'], "\")\", $\x7bg('\x7d,' , a)\x7d".toList) := by cbv
    have hpieces : (Arguments.pieces .scanning 0 "\")\", $\x7bg('\x7d,' , a)\x7d".toList).toList
        = ["\")\"".toList] ++ " $\x7bg('\x7d,' , a)\x7d".toList :: [] := by cbv
    have hplaceholder : Argument.ofTrimmed (Text.trim " $\x7bg('\x7d,' , a)\x7d".toList)
        = .placeholder (String.ofList "g('\x7d,' , a)".toList) := by cbv
    have hnested : Expression.call? (Text.trim "g('\x7d,' , a)".toList)
        = some (['g'], "'\x7d,' , a".toList) := by cbv
    have hlist := ArgumentListIn.ofPlaceholder hbody hpieces hplaceholder (.own hnested)
    have hfront : Expression.front (Body.startingAt nestedCalls 2).text ['f'] ++
        (Arguments.front ["\")\"".toList] ++
          ((" $\x7bg('\x7d,' , a)\x7d".toList.takeWhile Text.isBlank ++ ['$', '{']) ++
            Expression.front "g('\x7d,' , a)".toList ['g']))
        = "f(\")\", $\x7bg(".toList := by cbv
    exact hfront ▸ hlist
  have hstates := ((quotes_agree hclosed).2.1 _ _ hlist).2.1
  have hfront : "f(\")\", $\x7bg(".toList.length = 11 := by cbv
  have hargs : "'\x7d,' , a".toList.length = 8 := by cbv
  rw [hfront, hargs] at hstates
  exact ⟨hclosed, hlist, hstates⟩

end Template

end LiveValue
