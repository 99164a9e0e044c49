import ProtectedRegions.Comment

/-
  Lexicons — the comment syntaxes of a language

  A lexicon lists comment syntaxes in the order of their registration. Where
  several begin at one place the longest opening token wins, and of equally
  long ones the first; `match_startsWith` says that the winner's token does
  stand there. The presets are the lexicons of common language families.
-/

namespace ProtectedRegions

/-- Comment syntaxes in the order of their registration. -/
abbrev Lexicon := List Comment

namespace Lexicon

/-- The better of the syntax found so far and one more, at the front of a text. -/
def better (t : Text) (best : Option Comment) (c : Comment) : Option Comment :=
  if t.startsWith c.opening then
    match best with
    | none => some c
    | some b => if b.opening.length < c.opening.length then some c else some b
  else best

/-- The syntax whose comment begins at the front of a text. -/
def match? (lexicon : Lexicon) (t : Text) : Option Comment := lexicon.foldl (better t) none

theorem better_startsWith {t : Text} {best : Option Comment} {c winner : Comment}
    (hbest : ∀ b, best = some b → t.startsWith b.opening = true)
    (h : better t best c = some winner) : t.startsWith winner.opening = true := by
  unfold better at h
  split at h
  · next hc =>
    split at h
    · simp at h; rw [← h]; exact hc
    · split at h
      · simp at h; rw [← h]; exact hc
      · simp at h; rw [← h]; exact hbest _ rfl
  · exact hbest winner h

theorem foldl_better_startsWith {t : Text} {lexicon : Lexicon} {best : Option Comment}
    {winner : Comment} (hbest : ∀ b, best = some b → t.startsWith b.opening = true)
    (h : lexicon.foldl (better t) best = some winner) : t.startsWith winner.opening = true := by
  induction lexicon generalizing best with
  | nil => exact hbest winner h
  | cons c rest ih => exact ih (fun b hb => better_startsWith hbest hb) h

theorem match_startsWith {lexicon : Lexicon} {t : Text} {c : Comment}
    (h : lexicon.match? t = some c) : t.startsWith c.opening = true :=
  foldl_better_startsWith (by simp) h

end Lexicon

/-- The named lexicons. -/
inductive Preset where
  | cLike
  | xml
  | hash
  | sql
  | lua
  | css
  | php
  deriving DecidableEq, Repr

namespace Preset

def all : List Preset := [.cLike, .xml, .hash, .sql, .lua, .css, .php]

def name : Preset → String
  | .cLike => "c-like"
  | .xml => "xml"
  | .hash => "hash"
  | .sql => "sql"
  | .lua => "lua"
  | .css => "css"
  | .php => "php"

def ofName? (t : Text) : Option Preset := all.find? fun p => p.name.toList = t

def slashes : Comment := ⟨['/', '/'], .line, by decide⟩

/-- Comments between a slash with a star and a star with a slash. -/
def slashStar : Comment := ⟨['/', '*'], .token ['*', '/'] (by decide), by decide⟩

def hashSign : Comment := ⟨['#'], .line, by decide⟩

def dashes : Comment := ⟨['-', '-'], .line, by decide⟩

/-- Comments between two dashes with square brackets and closing ones. -/
def dashBrackets : Comment := ⟨['-', '-', '[', '['], .token [']', ']'] (by decide), by decide⟩

def angle : Comment := ⟨['<', '!', '-', '-'], .token ['-', '-', '>'] (by decide), by decide⟩

def lexicon : Preset → Lexicon
  | .cLike => [slashes, slashStar]
  | .xml => [angle]
  | .hash => [hashSign]
  | .sql => [dashes, slashStar]
  | .lua => [dashBrackets, dashes]
  | .css => [slashStar]
  | .php => [slashes, hashSign, slashStar]

theorem lexicon_ne_nil (p : Preset) : p.lexicon ≠ [] := by cases p <;> simp [lexicon]

def unknownMessage (t : Text) : String :=
  s!"Unknown comment preset: {t.str}. Valid: " ++ String.intercalate ", " (all.map name)

end Preset
end ProtectedRegions
