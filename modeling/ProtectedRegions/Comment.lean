import ProtectedRegions.Value

/-
  Comments — one comment syntax of a language, and the comment it cuts off

  A comment begins with an opening token. One with a closing token runs up to
  that token, one without runs to the end of its line; either runs to the end
  of the text when its end does not come. Neither token is empty, so a scan
  always moves on.

  What is stated here:
    1. `Comment.cut_text` — the pieces of a cut are the text it was made in.
    2. `Comment.cut_length` — what is left behind a comment is shorter than
       the text, so a scan that goes on there comes to an end.
-/

namespace ProtectedRegions

/-- How the comments of a syntax end: with their line, with a token, or not at
all because the configured value is no text. -/
inductive Closing where
  | line
  | token (t : Text) (nonempty : t ≠ [])
  | unusable (configured : Value)

structure Comment where
  opening : Text
  closing : Closing
  nonempty : opening ≠ []

inductive CommentFault where
  | emptyOpening
  | emptyClosing
  deriving DecidableEq, Repr

def CommentFault.message : CommentFault → String
  | .emptyOpening => "Comment start token cannot be empty"
  | .emptyClosing => "Comment end token cannot be empty (use None for single-line comments)"

/-- A comment cut off the front of a text: its opening token, its body, what
ended it (nothing at the end of the text), and the text behind it. -/
structure Cut where
  opening : Text
  body : Text
  ending : Text
  rest : Text
  deriving DecidableEq, Repr

def Cut.comment (c : Cut) : Text := c.opening ++ c.body ++ c.ending

namespace Closing

/-- The end that a configured value stands for: the line for null, a token for
a text that is not empty. -/
def ofValue : Value → Except CommentFault Closing
  | .null => .ok .line
  | .text t => if h : t = [] then .error .emptyClosing else .ok (.token t h)
  | v => .ok (.unusable v)

def toValue : Closing → Value
  | .line => .null
  | .token t _ => .text t
  | .unusable v => v

/-- The body of a comment, what ends it and the rest, in the text behind its
opening token. -/
def split : Closing → Text → Except Defect (Text × Text × Text)
  | .line, t => .ok (t.breakLine)
  | .token closing _, t =>
    match Text.breakOn closing t with
    | some (body, rest) => .ok (body, closing, rest)
    | none => .ok (t, [], [])
  | .unusable _, _ => .error .closingToken

theorem split_append {closing : Closing} {t body ending rest : Text}
    (h : closing.split t = .ok (body, ending, rest)) : body ++ ending ++ rest = t := by
  cases closing with
  | line =>
    have hcut : t.breakLine = (body, ending, rest) := by simpa [split] using h
    simpa [hcut] using Text.breakLine_append t
  | token token hne =>
    cases hb : Text.breakOn token t with
    | none =>
      simp [split, hb] at h
      obtain ⟨rfl, rfl, rfl⟩ := h
      simp
    | some cut =>
      simp [split, hb] at h
      obtain ⟨rfl, rfl, rfl⟩ := h
      exact Text.breakOn_append hb
  | unusable v => simp [split] at h

end Closing

namespace Comment

/-- The syntax with an opening token and a configured end. -/
def configured (opening : Text) (closing : Value) : Except CommentFault Comment :=
  if h : opening = [] then .error .emptyOpening
  else (Closing.ofValue closing).map fun c => ⟨opening, c, h⟩

/-- The syntax with an opening token and, if its comments do not end with
their line, a closing token. -/
def make (opening : Text) (closing : Option Text) : Except CommentFault Comment :=
  configured opening ((closing.map Value.text).getD .null)

/-- The comment at the front of a text that begins with the opening token. -/
def cut (c : Comment) (t : Text) : Except Defect Cut :=
  (c.closing.split (t.drop c.opening.length)).map fun (body, ending, rest) =>
    ⟨c.opening, body, ending, rest⟩

/-- Where the body of a comment ends whose body begins at a position of a text,
and where the comment ends. -/
def scan (c : Comment) (t : Text) (bodyStart : Nat) : Except Defect (Nat × Nat) :=
  (c.closing.split (t.drop bodyStart)).map fun (body, ending, _) =>
    let bodyEnd := min bodyStart t.length + body.length
    (bodyEnd, bodyEnd + ending.length)

theorem cut_text {c : Comment} {t : Text} {cut : Cut} (ht : t.startsWith c.opening = true)
    (h : c.cut t = .ok cut) : cut.comment ++ cut.rest = t := by
  unfold Comment.cut at h
  cases hs : c.closing.split (t.drop c.opening.length) with
  | error d => simp [hs, Except.map] at h
  | ok parts =>
    obtain ⟨body, ending, rest⟩ := parts
    simp only [hs, Except.map, Except.ok.injEq] at h
    subst h
    have happ := Closing.split_append hs
    simp only [Cut.comment, List.append_assoc] at happ ⊢
    rw [happ]
    exact List.prefix_iff_eq_append.mp (List.isPrefixOf_iff_prefix.mp ht)

theorem cut_length {c : Comment} {t : Text} {cut : Cut} (ht : t.startsWith c.opening = true)
    (h : c.cut t = .ok cut) : cut.rest.length < t.length := by
  have htext := congrArg List.length (cut_text ht h)
  have hopening : cut.opening = c.opening := by
    unfold Comment.cut at h
    cases hs : c.closing.split (t.drop c.opening.length) with
    | error d => simp [hs, Except.map] at h
    | ok parts =>
      simp only [hs, Except.map, Except.ok.injEq] at h
      rw [← h]
  have hpos : 0 < c.opening.length := List.length_pos_iff.mpr c.nonempty
  simp [Cut.comment, hopening] at htext
  omega

end Comment
end ProtectedRegions
