import ProtectedRegions.Pattern.Expression
import ProtectedRegions.Text

/-
  Tags — what kind of value a node of a YAML document stands for

  A node may name its tag; a plain scalar that does not is told by its form.
  The forms are those of YAML 1.1: besides `true` and `false` also `yes`, `no`,
  `on` and `off` are truth values, numbers may be binary, octal, hexadecimal or
  in base sixty, and may have underscores, and dates are values of their own.
-/

namespace ProtectedRegions
namespace Yaml

/-- The kinds of values that are told apart. -/
inductive Tag where
  | null
  | bool
  | int
  | float
  | timestamp
  | text
  | binary
  | sequence
  | pairs
  | mapping
  | set
  | merge
  | value
  | unknown
  deriving DecidableEq, Repr

namespace Tag

/-- The beginning of the names of the tags of YAML itself. -/
def standardStart : Text := "tag:yaml.org,2002:".toList

def named : List (String × Tag) :=
  [("null", .null), ("bool", .bool), ("int", .int), ("float", .float), ("timestamp", .timestamp),
    ("str", .text), ("binary", .binary), ("seq", .sequence), ("omap", .pairs), ("pairs", .pairs),
    ("map", .mapping), ("set", .set), ("merge", .merge), ("value", .value)]

def ofName (t : Text) : Tag :=
  match named.find? fun n => standardStart ++ n.1.toList = t with
  | some n => n.2
  | none => .unknown

/-- The form of a date with a time of day, and of a date alone. -/
def timestampForm : String :=
  "(?P<year>[0-9][0-9][0-9][0-9])-(?P<month>[0-9][0-9]?)-(?P<day>[0-9][0-9]?)"
    ++ "(?:(?:[Tt]|[ \\t]+)(?P<hour>[0-9][0-9]?):(?P<minute>[0-9][0-9]):(?P<second>[0-9][0-9])"
    ++ "(?:\\.(?P<fraction>[0-9]*))?"
    ++ "(?:[ \\t]*(?P<tz>Z|(?P<sign>[-+])(?P<tzhour>[0-9][0-9]?)(?::(?P<tzminute>[0-9][0-9]))?))?)?"

/-- The forms of plain scalars that are not texts, in the order they are tried. -/
def forms : List (Tag × String) :=
  [(.bool, "yes|Yes|YES|no|No|NO|true|True|TRUE|false|False|FALSE|on|On|ON|off|Off|OFF"),
    (.float, "[-+]?[0-9][0-9_]*\\.[0-9_]*(?:[eE][-+][0-9]+)?|\\.[0-9][0-9_]*(?:[eE][-+][0-9]+)?"
      ++ "|[-+]?[0-9][0-9_]*(?::[0-5]?[0-9])+\\.[0-9_]*|[-+]?\\.(?:inf|Inf|INF)|\\.(?:nan|NaN|NAN)"),
    (.int, "[-+]?0b[0-1_]+|[-+]?0[0-7_]+|[-+]?(?:0|[1-9][0-9_]*)|[-+]?0x[0-9a-fA-F_]+"
      ++ "|[-+]?[1-9][0-9_]*(?::[0-5]?[0-9])+"),
    (.merge, "<<"),
    (.null, "~|null|Null|NULL|"),
    (.timestamp, "[0-9][0-9][0-9][0-9]-[0-9][0-9]-[0-9][0-9]"
      ++ "|[0-9][0-9][0-9][0-9]-[0-9][0-9]?-[0-9][0-9]?(?:[Tt]|[ \\t]+)[0-9][0-9]?:[0-9][0-9]:[0-9][0-9]"
      ++ "(?:\\.[0-9]*)?(?:[ \\t]*(?:Z|[-+][0-9][0-9]?(?::[0-9][0-9])?))?"),
    (.value, "=")]

/-- Where the whole of a text has a form, the spot at its end and the
expression of the form. -/
def matching? (form : String) (t : Text) : Option (Expression × Spot) := do
  let e ← Expression.ofText? form.toList
  let s ← e.fullMatch t
  return (e, s)

/-- The tag of a plain scalar. -/
def ofPlain (t : Text) : Tag :=
  match forms.find? fun f => (matching? f.2 t).isSome with
  | some f => f.1
  | none => .text

end Tag
end Yaml
end ProtectedRegions
