import LiveValue.Template.Body

/-!
# Tokens of templates

A template is literal characters, escaped openings `\${`, and placeholders `${…}`. Which token
stands where depends on the template alone; `Token.source` gives back what a token was read from,
and `flatMap_source_tokenize` says that no character is lost.
-/

namespace LiveValue.Template

/-- A token of a template. -/
inductive Token where
  | literal (c : Char)
  | opening
  | placeholder (body : List Char) (closed : Bool)
deriving DecidableEq

namespace Token

/-- The text of a token in the template. -/
def source : Token → List Char
  | .literal c => [c]
  | .opening => ['\\', '$', '{']
  | .placeholder body closed => '$' :: '{' :: body ++ if closed then ['}'] else []

def tokenize : List Char → List Token
  | [] => []
  | '\\' :: '$' :: '{' :: rest => .opening :: tokenize rest
  | '$' :: '{' :: rest =>
      have := Body.length_rest_read rest
      .placeholder (Body.read rest).text (Body.read rest).closed :: tokenize (Body.read rest).rest
  | c :: rest => .literal c :: tokenize rest
termination_by s => s.length

theorem source_placeholder_read (s : List Char) :
    (placeholder (Body.read s).text (Body.read s).closed).source ++ (Body.read s).rest =
      '$' :: '{' :: s := by
  have h := Body.source_append_rest_read s
  rw [Body.source] at h
  simp only [source, List.cons_append, h]

/-- No character of a template is lost: its tokens make it up. -/
theorem flatMap_source_tokenize (s : List Char) : (tokenize s).flatMap source = s := by
  fun_induction tokenize s with
  | case1 => rfl
  | case2 rest ih => simp [source, ih]
  | case3 rest _ ih => rw [List.flatMap_cons, ih, source_placeholder_read]
  | case4 c rest _ _ ih => simp [source, ih]

end Token

end LiveValue.Template
