import ProtectedRegions.Glob
import ProtectedRegions.Path

/-
  Filters — which files a parser or a read is for

  Anything that answers for every path can be a filter. Those of this module
  accept every path, or the paths with one of some endings, or those whose last
  part or whole text matches one of some globs. The lists of endings and globs
  are not empty.
-/

namespace ProtectedRegions

/-- A choice of paths. -/
inductive Filter where
  | all
  | extensions (endings : List Text) (nonempty : endings ≠ [])
  | globs (patterns : List Text) (nonempty : patterns ≠ [])
  | function (f : Text → Bool)

/-- Why a list makes no filter. -/
inductive FilterFault where
  | noExtensions
  | noGlobs
  deriving DecidableEq, Repr

def FilterFault.message : FilterFault → String
  | .noExtensions => "File extensions cannot be empty"
  | .noGlobs => "Glob patterns cannot be empty"

namespace Filter

def ofExtensions (endings : List Text) : Except FilterFault Filter :=
  if h : endings = [] then .error .noExtensions else .ok (.extensions endings h)

def ofGlobs (patterns : List Text) : Except FilterFault Filter :=
  if h : patterns = [] then .error .noGlobs else .ok (.globs patterns h)

def accepts : Filter → Text → Bool
  | .all, _ => true
  | .extensions endings _, path => endings.any path.endsWith
  | .globs patterns _, path =>
    patterns.any fun pattern =>
      let glob := Glob.ofText pattern
      glob.accepts (Path.ofText path).name || glob.accepts path
  | .function f, path => f path

/-- How a filter of this module is shown. -/
def shown? : Filter → Option String
  | .all => some "AcceptAll()"
  | .extensions endings _ =>
    some ("ExtensionFilter(" ++ (Text.join [',', ' '] endings).str ++ ")")
  | .globs patterns _ => some ("GlobFilter(" ++ (Text.join [',', ' '] patterns).str ++ ")")
  | .function _ => none

end Filter
end ProtectedRegions
