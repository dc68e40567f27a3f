import LiveValue.Template.Token

/-!
# Tokens and the text behind them

Reading a template from left to right, the matching of braces looks no further than the brace it
ends at. So a body that is closed does not depend on what follows it, and the tokens of two
templates put together are the tokens of the one and then those of the other, unless a token arises
where they meet or a placeholder of the first one is left open.

* `Body.scan_source_append`: a closed body in front of another text;
* `Token.tokenize_append`: the tokens of two templates put together;
* `Token.tokenize_flatMap_source`: the text of the first few tokens has just these tokens;
* `Token.onlyLastOpen_tokenize`: only the last token can be open.
-/

namespace LiveValue.Template

open Text (Quote QuoteState)

/-! ## Bodies -/

namespace Body

/-! What one step of the scan does. -/

section Steps

variable {depth : Nat} {rest : List Char} {c : Char}

theorem scan_escape (q : Quote) (depth : Nat) (d : Char) (rest : List Char) :
    scan (.inside q) depth ('\\' :: d :: rest) = (scan (.inside q) depth rest).push ['\\', d] :=
  rfl

theorem scan_inside {q : Quote} (h : c ≠ '\\') :
    scan (.inside q) depth (c :: rest)
      = (scan ((QuoteState.inside q).next c) depth rest).push [c] := by
  rw [scan.eq_def]
  exact if_neg h

theorem scan_end (rest : List Char) : scan .scanning 0 ('}' :: rest) = ⟨[], rest, true⟩ := by
  rw [scan.eq_def]
  rfl

theorem scan_close (depth : Nat) (rest : List Char) :
    scan .scanning (depth + 1) ('}' :: rest) = (scan .scanning depth rest).push ['}'] := by
  rw [scan.eq_def]
  rfl

theorem scan_open (depth : Nat) (rest : List Char) :
    scan .scanning depth ('$' :: '{' :: rest)
      = (scan .scanning (depth + 1) rest).push ['$', '{'] := by
  rw [scan.eq_def]
  rfl

theorem scan_dollar (h : rest.head? ≠ some '{') :
    scan .scanning depth ('$' :: rest) = (scan .scanning depth rest).push ['$'] := by
  rw [scan.eq_def]
  dsimp only
  rw [if_neg (by decide), if_pos rfl]
  split
  · exact absurd rfl h
  · rfl

theorem scan_other (hbrace : c ≠ '}') (hdollar : c ≠ '$') :
    scan .scanning depth (c :: rest)
      = (scan (QuoteState.scanning.next c) depth rest).push [c] := by
  rw [scan.eq_def]
  exact (if_neg hbrace).trans (if_neg hdollar)

end Steps

/-- The same body in front of another text. -/
def followedBy (b : Body) (t : List Char) : Body := { b with rest := t }

@[simp]
theorem followedBy_push (front : List Char) (b : Body) (t : List Char) :
    (b.push front).followedBy t = (b.followedBy t).push front := rfl

theorem source_ne_nil {b : Body} (h : b.closed = true) : b.source ≠ [] := by
  simp [source, h]

/-- A closed body starts like the text it was read from, whatever follows it. -/
theorem head?_source_scan_append {state : QuoteState} {depth : Nat} {s : List Char}
    (h : (scan state depth s).closed = true) (t : List Char) :
    ((scan state depth s).source ++ t).head? = s.head? := by
  have hs := congrArg List.head? (source_append_rest_scan state depth s)
  obtain ⟨c, source, hsource⟩ := List.exists_cons_of_ne_nil (source_ne_nil h)
  rw [hsource] at hs ⊢
  exact hs

/-- A closed body is found again in front of any other text. -/
theorem scan_source_append {state : QuoteState} {depth : Nat} {s : List Char}
    (h : (scan state depth s).closed = true) (t : List Char) :
    scan state depth ((scan state depth s).source ++ t) = (scan state depth s).followedBy t := by
  fun_induction scan state depth s with
  | case1 | case2 => cases h
  | case3 q depth d rest ih =>
    rw [source_push, List.append_assoc, followedBy_push, ← ih h]
    exact scan_escape ..
  | case4 q depth c rest hc ih =>
    rw [source_push, List.append_assoc, followedBy_push, ← ih h]
    exact scan_inside hc
  | case5 rest => exact scan_end t
  | case6 rest depth ih =>
    rw [source_push, List.append_assoc, followedBy_push, ← ih h]
    exact scan_close ..
  | case7 depth rest _ ih =>
    rw [source_push, List.append_assoc, followedBy_push, ← ih h]
    exact scan_open ..
  | case8 depth rest hrest _ ih =>
    rw [source_push, List.append_assoc, followedBy_push, ← ih h]
    -- the dollar opens nothing here either, since what follows it starts as before
    have hhead := head?_source_scan_append h t
    refine scan_dollar fun hopens => ?_
    obtain ⟨rest', hrest'⟩ := List.head?_eq_some_iff.1 (hhead.symm.trans hopens)
    exact hrest rest' hrest'
  | case9 depth c rest hbrace hdollar ih =>
    rw [source_push, List.append_assoc, followedBy_push, ← ih h]
    exact scan_other hbrace hdollar

/-- A closed body stays the same when the text goes on. -/
theorem scan_append {state : QuoteState} {depth : Nat} {s : List Char}
    (h : (scan state depth s).closed = true) (t : List Char) :
    scan state depth (s ++ t)
      = (scan state depth s).followedBy ((scan state depth s).rest ++ t) := by
  have hfound := scan_source_append h ((scan state depth s).rest ++ t)
  rwa [← List.append_assoc, source_append_rest_scan] at hfound

theorem read_source_append {s : List Char} (h : (read s).closed = true) (t : List Char) :
    read ((read s).source ++ t) = (read s).followedBy t :=
  scan_source_append h t

theorem read_append {s : List Char} (h : (read s).closed = true) (t : List Char) :
    read (s ++ t) = (read s).followedBy ((read s).rest ++ t) :=
  scan_append h t

end Body

/-! ## Tokens -/

/-- No token arises where the two texts meet. -/
def Seamless (s t : List Char) : Prop :=
  ¬(['$'] <:+ s ∧ ['{'] <+: t) ∧ ¬(['\\'] <:+ s ∧ ['$', '{'] <+: t)

instance (s t : List Char) : Decidable (Seamless s t) :=
  inferInstanceAs (Decidable (_ ∧ _))

theorem Seamless.of_suffix {s s' t : List Char} (h : Seamless s t) (hs : s' <:+ s) :
    Seamless s' t :=
  ⟨fun ⟨hdollar, hopens⟩ => h.1 ⟨hdollar.trans hs, hopens⟩,
    fun ⟨hslash, hopens⟩ => h.2 ⟨hslash.trans hs, hopens⟩⟩

namespace Token

/-- The token is no placeholder without an end. -/
def Closed : Token → Prop
  | .placeholder _ closed => closed = true
  | _ => True

instance : DecidablePred Closed := fun token => by
  cases token <;> unfold Closed <;> infer_instance

theorem tokenize_opening (rest : List Char) :
    tokenize ('\\' :: '$' :: '{' :: rest) = .opening :: tokenize rest := by
  rw [tokenize]

theorem tokenize_placeholder (rest : List Char) :
    tokenize ('$' :: '{' :: rest)
      = .placeholder (Body.read rest).text (Body.read rest).closed
        :: tokenize (Body.read rest).rest := by
  rw [tokenize]

theorem tokenize_literal {c : Char} {rest : List Char}
    (hopening : ¬['\\', '$', '{'] <+: c :: rest) (hplaceholder : ¬['$', '{'] <+: c :: rest) :
    tokenize (c :: rest) = .literal c :: tokenize rest := by
  rw [tokenize]
  · rintro rest' rfl rfl
    exact hopening ⟨rest', rfl⟩
  · rintro rest' rfl rfl
    exact hplaceholder ⟨rest', rfl⟩

/-- A character that is a token of its own stays one when the text goes on. -/
theorem tokenize_literal_append {c : Char} {rest t : List Char}
    (hopening : ∀ rest', c = '\\' → rest = '$' :: '{' :: rest' → False)
    (hplaceholder : ∀ rest', c = '$' → rest = '{' :: rest' → False)
    (hseam : Seamless (c :: rest) t) :
    tokenize (c :: (rest ++ t)) = .literal c :: tokenize (rest ++ t) := by
  -- a longer token would reach over the seam, or have been there before
  refine tokenize_literal (fun hfront => ?_) fun hfront => ?_
  · obtain ⟨rfl, hsecond⟩ := List.cons_prefix_cons.1 hfront
    cases rest with
    | nil => exact hseam.2 ⟨List.suffix_rfl, hsecond⟩
    | cons d rest =>
      obtain ⟨rfl, hthird⟩ := List.cons_prefix_cons.1 hsecond
      cases rest with
      | nil => exact hseam.1 ⟨List.suffix_cons _ _, hthird⟩
      | cons d rest =>
        obtain ⟨rfl, -⟩ := List.cons_prefix_cons.1 hthird
        exact hopening rest rfl rfl
  · obtain ⟨rfl, hsecond⟩ := List.cons_prefix_cons.1 hfront
    cases rest with
    | nil => exact hseam.1 ⟨List.suffix_rfl, hsecond⟩
    | cons d rest =>
      obtain ⟨rfl, -⟩ := List.cons_prefix_cons.1 hsecond
      exact hplaceholder rest rfl rfl

theorem tokenize_append {s t : List Char} (hclosed : ∀ token ∈ tokenize s, token.Closed)
    (hseam : Seamless s t) : tokenize (s ++ t) = tokenize s ++ tokenize t := by
  fun_induction tokenize s with
  | case1 => rfl
  | case2 rest ih =>
    rw [List.forall_mem_cons] at hclosed
    have hend : rest <:+ '\\' :: '$' :: '{' :: rest := ⟨['\\', '$', '{'], rfl⟩
    refine (tokenize_opening (rest ++ t)).trans ?_
    rw [ih hclosed.2 (hseam.of_suffix hend)]
    rfl
  | case3 rest _ ih =>
    rw [List.forall_mem_cons] at hclosed
    have hend : (Body.read rest).rest <:+ '$' :: '{' :: rest :=
      ⟨_, Token.source_placeholder_read rest⟩
    refine (tokenize_placeholder (rest ++ t)).trans ?_
    rw [Body.read_append hclosed.1]
    exact congrArg (List.cons _) (ih hclosed.2 (hseam.of_suffix hend))
  | case4 c rest hopening hplaceholder ih =>
    rw [List.forall_mem_cons] at hclosed
    refine (tokenize_literal_append hopening hplaceholder hseam).trans ?_
    rw [ih hclosed.2 (hseam.of_suffix (List.suffix_cons c rest))]
    rfl

/-- The text of the first few tokens has just these tokens. -/
theorem tokenize_flatMap_source {s : List Char} {first others : List Token}
    (hs : tokenize s = first ++ others) (hclosed : ∀ token ∈ first, token.Closed) :
    tokenize (first.flatMap source) = first := by
  induction first generalizing s with
  | nil => rw [List.flatMap_nil, tokenize]
  | cons token first ih =>
    rw [List.forall_mem_cons] at hclosed
    revert hs
    fun_cases tokenize s with
    | case1 =>
      intro hs
      cases hs
    | case2 rest =>
      intro hs
      obtain ⟨rfl, hrest⟩ := List.cons.inj hs
      refine (tokenize_opening (first.flatMap source)).trans ?_
      rw [ih hrest hclosed.2]
    | case3 rest =>
      intro hs
      obtain ⟨rfl, hrest⟩ := List.cons.inj hs
      refine (tokenize_placeholder ((Body.read rest).source ++ first.flatMap source)).trans ?_
      rw [Body.read_source_append hclosed.1]
      exact congrArg (List.cons _) (ih hrest hclosed.2)
    | case4 c rest hopening hplaceholder =>
      intro hs
      obtain ⟨rfl, hrest⟩ := List.cons.inj hs
      -- what is kept of the rest is a beginning of it, so no other token starts here either
      have hfront : first.flatMap source <+: rest := by
        rw [← flatMap_source_tokenize rest, hrest]
        exact ⟨others.flatMap source, List.flatMap_append.symm⟩
      have hkept := (List.prefix_cons_inj c).2 hfront
      have hliteral : tokenize (c :: first.flatMap source)
          = .literal c :: tokenize (first.flatMap source) := by
        refine tokenize_literal (fun h => ?_) fun h => ?_
        · obtain ⟨rest', hrest'⟩ := h.trans hkept
          obtain ⟨hc, hrest'⟩ := List.cons.inj hrest'
          exact hopening rest' hc.symm hrest'.symm
        · obtain ⟨rest', hrest'⟩ := h.trans hkept
          obtain ⟨hc, hrest'⟩ := List.cons.inj hrest'
          exact hplaceholder rest' hc.symm hrest'.symm
      refine hliteral.trans ?_
      rw [ih hrest hclosed.2]

/-- No token is open, unless it is the last one. -/
def OnlyLastOpen (tokens : List Token) : Prop :=
  (∀ token ∈ tokens, token.Closed) ∨
    ∃ first body, (∀ token ∈ first, token.Closed) ∧ tokens = first ++ [.placeholder body false]

theorem OnlyLastOpen.cons {head : Token} {tokens : List Token} (h : OnlyLastOpen tokens)
    (hhead : head.Closed) : OnlyLastOpen (head :: tokens) := by
  rcases h with hall | ⟨first, body, hfirst, rfl⟩
  · exact .inl (List.forall_mem_cons.2 ⟨hhead, hall⟩)
  · exact .inr ⟨head :: first, body, List.forall_mem_cons.2 ⟨hhead, hfirst⟩, rfl⟩

/-- An open placeholder takes all of the text that is left. -/
theorem onlyLastOpen_tokenize (s : List Char) : OnlyLastOpen (tokenize s) := by
  fun_induction tokenize s with
  | case1 => exact .inl (List.forall_mem_nil _)
  | case2 rest ih => exact ih.cons trivial
  | case3 rest _ ih =>
    cases hclosed : (Body.read rest).closed with
    | true => exact ih.cons rfl
    | false =>
      rw [Body.rest_read_of_open hclosed, tokenize]
      exact .inr ⟨[], _, List.forall_mem_nil _, rfl⟩
  | case4 c rest _ _ ih => exact ih.cons trivial

end Token

end LiveValue.Template
