import ProtectedRegions.Yaml.Tag
import ProtectedRegions.Yaml.Token

/-
  Nodes — the tree of a YAML document

  A text holds one document: directives, a mark, a node and a closing mark, all
  but the node optional, and the node may be missing too. A node is a scalar, a
  sequence or a mapping, each with its tag. An alias stands for the whole node
  that its anchor names, and inside of that node for a place where the node
  begins again; an anchor is given once. Reading is bounded by the number of
  tokens: every structure begins with one.
-/

namespace ProtectedRegions
namespace Yaml

inductive Node where
  | scalar (tag : Tag) (t : Text)
  | sequence (tag : Tag) (items : List Node)
  | mapping (tag : Tag) (entries : List (Node × Node))
  | enclosing (isMapping : Bool)

/-- What is left of the tokens, the tag handles in force, and the nodes of the
anchors given so far. -/
structure Reader where
  tokens : List Token
  handles : List (Text × Text)
  anchors : List (Text × Node)

namespace Node

def empty : Node := .scalar .null []

end Node

namespace Reader

/-- The tag handles of every document. -/
def standardHandles : List (Text × Text) := [(['!'], ['!']), (['!', '!'], Tag.standardStart)]

/-- The name of a tag with its handle replaced. -/
def tagName (r : Reader) (handle : Option Text) (suffix : Text) : Except Fault Text :=
  match handle with
  | none => .ok suffix
  | some h =>
    match r.handles.lookup h with
    | some start => .ok (start ++ suffix)
    | none => .error .malformed

/-- The anchor and the tag before a node, in either order, and the reader behind
them. -/
def properties (r : Reader) : Except Fault (Option Text × Option Text × Reader) :=
  match r.tokens with
  | .anchor a :: .tag h s :: rest => (r.tagName h s).map fun t => (some a, some t, { r with tokens := rest })
  | .anchor a :: rest => .ok (some a, none, { r with tokens := rest })
  | .tag h s :: .anchor a :: rest => (r.tagName h s).map fun t => (some a, some t, { r with tokens := rest })
  | .tag h s :: rest => (r.tagName h s).map fun t => (none, some t, { r with tokens := rest })
  | _ => .ok (none, none, r)

def sees (r : Reader) (ts : List Token) : Bool := r.tokens.head?.any ts.contains

/-- The reader with an anchor whose node is about to be read. -/
def reserve (r : Reader) : Option Text → Except Fault Reader
  | none => .ok r
  | some a =>
    if (r.anchors.lookup a).isSome then .error .malformed
    else
      let place := Node.enclosing (r.sees [.openMapping, .blockMapping])
      .ok { r with anchors := (a, place) :: r.anchors }

def bind (r : Reader) (anchor : Option Text) (node : Node) : Reader :=
  match anchor with
  | none => r
  | some a => { r with anchors := (a, node) :: r.anchors.filter (·.1 != a) }

def skip (r : Reader) : Reader := { r with tokens := r.tokens.drop 1 }

/-- The tag of a scalar. A lone exclamation mark has the form decide, also for
scalars that are not plain. -/
def scalarTag (name : Option Text) (t : Text) (plain : Bool) : Tag :=
  match name with
  | none => if plain then Tag.ofPlain t else .text
  | some n => if n = ['!'] then Tag.ofPlain t else Tag.ofName n

/-- The tag of a sequence or a mapping. -/
def structureTag (name : Option Text) (otherwise : Tag) : Tag :=
  match name with
  | none => otherwise
  | some n => if n = ['!'] then otherwise else Tag.ofName n

mutual

/-- A node; in a block, a sequence may begin without an indentation of its own
where `flush` says so. -/
def node : Nat → Bool → Bool → Reader → Except Fault (Node × Reader)
  | 0, _, _, _ => .error .malformed
  | n + 1, block, flush, r =>
    match r.tokens with
    | .alias a :: rest =>
      match r.anchors.lookup a with
      | some node => .ok (node, { r with tokens := rest })
      | none => .error .malformed
    | _ => do
      let (anchor, tag, r) ← r.properties
      let r ← r.reserve anchor
      let (node, r) ← match r.tokens with
        | .blockEntry :: _ =>
          if flush then do
            let (items, r) ← flushItems n r
            pure (Node.sequence (structureTag tag .sequence) items, r)
          else emptyNode anchor tag r
        | .scalar t plain :: _ => pure (Node.scalar (scalarTag tag t plain) t, r.skip)
        | .openSequence :: _ => do
          let (items, r) ← flowItems n true r.skip
          pure (Node.sequence (structureTag tag .sequence) items, r)
        | .openMapping :: _ => do
          let (entries, r) ← flowEntries n true r.skip
          pure (Node.mapping (structureTag tag .mapping) entries, r)
        | .blockSequence :: _ =>
          if block then do
            let (items, r) ← blockItems n r.skip
            pure (Node.sequence (structureTag tag .sequence) items, r)
          else emptyNode anchor tag r
        | .blockMapping :: _ =>
          if block then do
            let (entries, r) ← blockEntries n r.skip
            pure (Node.mapping (structureTag tag .mapping) entries, r)
          else emptyNode anchor tag r
        | _ => emptyNode anchor tag r
      return (node, r.bind anchor node)

def emptyNode (anchor tag : Option Text) (r : Reader) : Except Fault (Node × Reader) :=
  if anchor.isSome || tag.isSome then .ok (.scalar (scalarTag tag [] true) [], r)
  else .error .malformed

/-- A node, or nothing before one of some tokens. -/
def nodeUnless : Nat → Bool → Bool → List Token → Reader → Except Fault (Node × Reader)
  | 0, _, _, _, _ => .error .malformed
  | n + 1, block, flush, ends, r =>
    if r.sees ends then .ok (.empty, r) else node n block flush r

/-- The items of a block sequence, up to its end. -/
def blockItems : Nat → Reader → Except Fault (List Node × Reader)
  | 0, _ => .error .malformed
  | n + 1, r =>
    match r.tokens with
    | .blockEntry :: _ => do
      let (item, r) ← nodeUnless n true false [.blockEntry, .blockEnd] r.skip
      let (items, r) ← blockItems n r
      return (item :: items, r)
    | .blockEnd :: _ => .ok ([], r.skip)
    | _ => .error .malformed

/-- The items of a sequence without an indentation of its own. -/
def flushItems : Nat → Reader → Except Fault (List Node × Reader)
  | 0, _ => .error .malformed
  | n + 1, r =>
    match r.tokens with
    | .blockEntry :: _ => do
      let (item, r) ← nodeUnless n true false [.blockEntry, .key, .value, .blockEnd] r.skip
      let (items, r) ← flushItems n r
      return (item :: items, r)
    | _ => .ok ([], r)

/-- The entries of a block mapping, up to its end. -/
def blockEntries : Nat → Reader → Except Fault (List (Node × Node) × Reader)
  | 0, _ => .error .malformed
  | n + 1, r =>
    match r.tokens with
    | .key :: _ => do
      let ends := [Token.key, .value, .blockEnd]
      let (k, r) ← nodeUnless n true true ends r.skip
      let (v, r) ← if r.sees [.value] then nodeUnless n true true ends r.skip else pure (.empty, r)
      let (entries, r) ← blockEntries n r
      return ((k, v) :: entries, r)
    | .blockEnd :: _ => .ok ([], r.skip)
    | _ => .error .malformed

/-- The items of a sequence in brackets, up to the closing one. An item with a
key is a mapping of one entry. -/
def flowItems : Nat → Bool → Reader → Except Fault (List Node × Reader)
  | 0, _, _ => .error .malformed
  | n + 1, first, r =>
    if r.sees [.closeSequence] then .ok ([], r.skip)
    else do
      let r ← if first then pure r else if r.sees [.flowEntry] then pure r.skip else throw .malformed
      if r.sees [.closeSequence] then return ([], r.skip)
      else if r.sees [.key] then
        let ends := [Token.flowEntry, .closeSequence]
        let (k, r) ← nodeUnless n false false (.value :: ends) r.skip
        let (v, r) ← if r.sees [.value] then nodeUnless n false false ends r.skip else pure (.empty, r)
        let (items, r) ← flowItems n false r
        return (.mapping .mapping [(k, v)] :: items, r)
      else
        let (item, r) ← node n false false r
        let (items, r) ← flowItems n false r
        return (item :: items, r)

/-- The entries of a mapping in braces, up to the closing one. An item without a
key is a key without a value. -/
def flowEntries : Nat → Bool → Reader → Except Fault (List (Node × Node) × Reader)
  | 0, _, _ => .error .malformed
  | n + 1, first, r =>
    if r.sees [.closeMapping] then .ok ([], r.skip)
    else do
      let r ← if first then pure r else if r.sees [.flowEntry] then pure r.skip else throw .malformed
      if r.sees [.closeMapping] then return ([], r.skip)
      else if r.sees [.key] then
        let ends := [Token.flowEntry, .closeMapping]
        let (k, r) ← nodeUnless n false false (.value :: ends) r.skip
        let (v, r) ← if r.sees [.value] then nodeUnless n false false ends r.skip else pure (.empty, r)
        let (entries, r) ← flowEntries n false r
        return ((k, v) :: entries, r)
      else
        let (k, r) ← node n false false r
        let (entries, r) ← flowEntries n false r
        return ((k, .empty) :: entries, r)

end

/-- The reader behind the directives of a document, which may set tag handles;
the version is given once, and is one of the first. -/
def directives : List Token → Bool → List (Text × Text) → Except Fault (List Token × List (Text × Text))
  | .version major :: rest, versioned, handles =>
    if versioned || major ≠ 1 then .error .malformed else directives rest true handles
  | .tagHandle h start :: rest, versioned, handles =>
    if (handles.lookup h).isSome then .error .malformed
    else directives rest versioned ((h, start) :: handles)
  | .otherDirective :: rest, versioned, handles => directives rest versioned handles
  | tokens, _, handles => .ok (tokens, handles ++ standardHandles)

/-- Whether a token can only stand behind an empty document. -/
def endsDocument : Token → Bool
  | .version _ => true
  | .tagHandle _ _ => true
  | .otherDirective => true
  | .documentStart => true
  | .documentEnd => true
  | _ => false

/-- The node of the only document of a text, or nothing where there is none. -/
def document (tokens : List Token) : Except Fault (Option Node) :=
  let bound := 3 * tokens.length + 3
  let close := fun (found : Node × Reader) =>
    if (found.2.tokens.dropWhile (· = .documentEnd)).isEmpty then Except.ok (some found.1)
    else .error .malformed
  match tokens with
  | [] => .ok none
  | t :: _ =>
    if endsDocument t && t ≠ .documentEnd then do
      let (tokens, handles) ← directives tokens false []
      match tokens with
      | .documentStart :: rest =>
        let r : Reader := ⟨rest, handles, []⟩
        if rest.head?.all endsDocument then close (.empty, r)
        else (← node bound true false r) |> close
      | _ => throw .malformed
    else do
      (← node bound true false ⟨tokens, standardHandles, []⟩) |> close

end Reader

def Node.ofText (t : Text) : Except Fault (Option Node) := do
  if !t.all isAllowed then throw .malformed
  let t := if t.head? = some byteOrderMark then t.drop 1 else t
  let tokens ← Token.ofText t
  Reader.document tokens.toList

end Yaml
end ProtectedRegions
