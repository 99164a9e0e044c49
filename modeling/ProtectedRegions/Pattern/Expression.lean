import ProtectedRegions.Pattern

/-
  Expressions — patterns as they are written

  An expression is read from left to right. What is written decides a pattern
  item by item; a repetition sign takes the item before it, and is refused
  behind nothing, behind a place and behind another repetition. Every group
  counts from one in the order of the opening brackets, and may have a name
  that no other group has. What may stand in front of a spot is looked for at a
  fixed distance, so it has to have one width.

  A text that is not read is no expression, or asks for switches that exclude
  each other, or has a count that is out of bounds; which of these it is is
  decided by the first one from the left, and what needs the whole text comes
  last.

  Left out are characters by their Unicode names and the undocumented switch
  `t`, both refused here; group names with characters that are no word
  characters, and group numbers that are not just digits, refused as well; and
  numbers of surrogates, which are no characters.

  The reader is bounded by the number of characters: every item uses up one
  at least.
-/

namespace ProtectedRegions

/-- An expression with the pattern it stands for and the names of its groups. -/
structure Expression where
  source : Text
  pattern : Pattern
  names : List (Text × Nat)
  deriving DecidableEq, Repr

namespace Expression

/-- Why a text is not read as an expression: it is none, its numbers or switches
do not fit, a count is out of bounds, or it is nested too deep to be read. -/
inductive ReadFault where
  | refused
  | unfit
  | outOfBounds
  | tooDeep
  deriving DecidableEq, Repr

abbrev Read := Except ReadFault

/-- What is not there is no expression. -/
def orRefuse {α : Type} : Option α → Read α
  | some x => .ok x
  | none => .error .refused

/-- The least count that is out of bounds. -/
def countBound : Nat := 4294967295

/-- The least number that no group can have. -/
def groupBound : Nat := 1073741823

/-- The least and the greatest number of characters that a pattern uses up. -/
structure Width where
  least : Nat
  most : Nat
  deriving DecidableEq, Repr

/-- The greatest width that is told from others. -/
def widthBound : Nat := 18446744073709551616

/-- The width of a pattern, when that of the groups it refers to is known. -/
def widthOf (groups : List (Nat × Width)) : Pattern → Width
  | .char _ => ⟨1, 1⟩
  | .seq p q =>
    let w := widthOf groups p
    let w' := widthOf groups q
    ⟨min (w.least + w'.least) widthBound, min (w.most + w'.most) widthBound⟩
  | .either p q | .ifClosed _ p q =>
    let w := widthOf groups p
    let w' := widthOf groups q
    ⟨min w.least w'.least, max w.most w'.most⟩
  | .group _ p | .atomic p => widthOf groups p
  | .sameAs number _ => (groups.lookup number).getD ⟨0, 0⟩
  | .repeated least most _ p =>
    let w := widthOf groups p
    ⟨min (w.least * least) widthBound,
      match most with
      | some most => min (w.most * most) widthBound
      | none => if w.most = 0 then 0 else widthBound⟩
  | .empty | .never | .at _ | .ahead .. | .behind .. => ⟨0, 0⟩

/-- The switches that an expression can turn on. -/
structure Switches where
  anyCase : Bool
  multiLine : Bool
  dotAll : Bool
  verbose : Bool
  ascii : Bool
  deriving DecidableEq, Repr

def Switches.none : Switches := ⟨false, false, false, false, false⟩

/-- A reader of expressions: what is left, the switches in force, the number of
groups opened, the width of those closed, and the names given; inside of a look
behind the last group it may refer to; and what is judged in the end: the groups
asked for in conditions, whether something looked for behind has no one width, and
which alphabets the whole expression asked for. -/
structure Reader where
  rest : Text
  switches : Switches
  opened : Nat
  closed : List (Nat × Width)
  names : List (Text × Nat)
  fence : Option Nat
  asked : List Nat
  loose : Bool
  narrow : Bool
  wide : Bool
  deriving Repr

/-- An item of a sequence, as far as a repetition sign behind it cares. -/
inductive Item where
  | plain (p : Pattern)
  | place (a : Anchor)
  | repeated (p : Pattern)

def Item.pattern : Item → Pattern
  | .plain p => p
  | .place a => .at a
  | .repeated p => p

/-- The sequence of items, given from the last to the first. -/
def sequenceOf (items : List Item) : Pattern :=
  items.foldl (fun p item => .seq item.pattern p) .empty

/-! ## Characters and escapes -/

def hexDigit? (c : Char) : Option Nat :=
  if '0' ≤ c ∧ c ≤ '9' then some (c.toNat - 48)
  else if 'a' ≤ c ∧ c ≤ 'f' then some (c.toNat - 87)
  else if 'A' ≤ c ∧ c ≤ 'F' then some (c.toNat - 55)
  else none

def hexValue? (digits : Text) : Option Nat :=
  digits.foldlM (fun n c => (hexDigit? c).map (16 * n + ·)) 0

def decimalValue (digits : Text) : Nat := digits.foldl (fun n c => 10 * n + (c.toNat - 48)) 0

def octalValue (digits : Text) : Nat := digits.foldl (fun n c => 8 * n + (c.toNat - 48)) 0

def isDigit (c : Char) : Bool := '0' ≤ c && c ≤ '9'

def isOctal (c : Char) : Bool := '0' ≤ c && c ≤ '7'

def isLetter (c : Char) : Bool := ('a' ≤ c && c ≤ 'z') || ('A' ≤ c && c ≤ 'Z')

/-- A character given by exactly `width` hexadecimal digits, and the rest. -/
def codePoint? (width : Nat) (t : Text) : Option (Char × Text) := do
  let digits := t.take width
  if digits.length < width then none
  let n ← hexValue? digits
  if n < 0x110000 then some (Char.ofNat n, t.drop width) else none

/-- The character that a letter behind a backslash stands for, inside and
outside of sets. -/
def control? : Char → Option Char
  | 'a' => some (Char.ofNat 7)
  | 'f' => some (Char.ofNat 12)
  | 'n' => some '\n'
  | 'r' => some '\r'
  | 't' => some '\t'
  | 'v' => some (Char.ofNat 11)
  | '\\' => some '\\'
  | _ => none

/-- The class that a letter behind a backslash stands for. -/
def kind? (ascii : Bool) : Char → Option SetItem
  | 'd' => some (.kind .digit ascii false)
  | 'D' => some (.kind .digit ascii true)
  | 's' => some (.kind .space ascii false)
  | 'S' => some (.kind .space ascii true)
  | 'w' => some (.kind .word ascii false)
  | 'W' => some (.kind .word ascii true)
  | _ => none

/-- A character by its number behind a backslash: `x`, `u` or `U` and digits. -/
def numbered? (c : Char) (rest : Text) : Option (Char × Text) :=
  if c = 'x' then codePoint? 2 rest
  else if c = 'u' then codePoint? 4 rest
  else if c = 'U' then codePoint? 8 rest
  else none

/-- One member of a set, written behind a backslash. -/
def setEscape? (ascii : Bool) : Text → Option (SetItem × Text)
  | [] => none
  | c :: rest =>
    if c = 'b' then some (.one (Char.ofNat 8), rest)
    else match control? c, kind? ascii c with
      | some d, _ => some (.one d, rest)
      | none, some item => some (item, rest)
      | none, none =>
        if c = 'x' ∨ c = 'u' ∨ c = 'U' then (numbered? c rest).map fun r => (.one r.1, r.2)
        else if isOctal c then
          let more := (rest.take 2).takeWhile isOctal
          let n := octalValue (c :: more)
          if n ≤ 255 then some (.one (Char.ofNat n), rest.drop more.length) else none
        else if isDigit c || isLetter c then none
        else some (.one c, rest)

/-- The next member of a set as it is written, before a hyphen is looked at. -/
def setMember? (ascii : Bool) (c : Char) (rest : Text) : Option (SetItem × Text) :=
  if c = '\\' then setEscape? ascii rest else some (.one c, rest)

/-- The members of a set up to its closing bracket, which may be the first
member. -/
def setItems? (ascii : Bool) : Nat → List SetItem → Text → Option (List SetItem × Text)
  | 0, _, _ => none
  | _ + 1, _, [] => none
  | n + 1, items, c :: rest =>
    if c = ']' ∧ items ≠ [] then some (items, rest)
    else match setMember? ascii c rest with
      | none => none
      | some (low, '-' :: ']' :: rest) => some (items ++ [low, .one '-'], rest)
      | some (_, ['-']) => none
      | some (low, '-' :: d :: rest) =>
        match low, setMember? ascii d rest with
        | .one first, some (.one last, rest) =>
          if first.toNat ≤ last.toNat then setItems? ascii n (items ++ [.range first last]) rest
          else none
        | _, _ => none
      | some (item, rest) => setItems? ascii n (items ++ [item]) rest

/-- A set behind its opening bracket. -/
def set? (switches : Switches) (t : Text) : Option (CharSet × Text) :=
  let negated := t.head? = some '^'
  let body := if negated then t.drop 1 else t
  (setItems? switches.ascii (body.length + 1) [] body).map fun (items, rest) =>
    (⟨items, negated, switches.anyCase⟩, rest)

/-- Whether a group is closed, and not part of the look behind that is read. -/
def Reader.isClosed (r : Reader) (number : Nat) : Bool :=
  (r.closed.lookup number).isSome && r.fence.all (number ≤ ·)

/-- The group that a number refers to, if it is closed. -/
def Reader.closedGroup? (r : Reader) (number : Nat) : Option Pattern :=
  if r.isClosed number then some (.sameAs number r.switches.anyCase) else none

/-- A digit other than zero behind a backslash: three octal digits are a
character, anything else refers to a group. -/
def reference? (r : Reader) (c : Char) (rest : Text) : Option (Item × Text) :=
  match rest with
  | d :: e :: tail =>
    if isOctal c && isOctal d && isOctal e then
      let n := octalValue [c, d, e]
      if n ≤ 255 then some (.plain (.char (.single (Char.ofNat n) r.switches.anyCase)), tail)
      else none
    else if isDigit d then (r.closedGroup? (decimalValue [c, d])).map (.plain ·, e :: tail)
    else (r.closedGroup? (decimalValue [c])).map (.plain ·, rest)
  | [d] =>
    if isDigit d then (r.closedGroup? (decimalValue [c, d])).map (.plain ·, [])
    else (r.closedGroup? (decimalValue [c])).map (.plain ·, rest)
  | [] => (r.closedGroup? (decimalValue [c])).map (.plain ·, [])

/-- The place that a letter behind a backslash stands for. -/
def place? (ascii : Bool) : Char → Option Anchor
  | 'A' => some .textStart
  | 'Z' => some .textEnd
  | 'b' => some (.wordEdge ascii)
  | 'B' => some (.noWordEdge ascii)
  | _ => none

/-- An item written behind a backslash. -/
def escape? (r : Reader) : Text → Option (Item × Text)
  | [] => none
  | c :: rest =>
    let char := fun (d : Char) => Item.plain (.char (.single d r.switches.anyCase))
    match place? r.switches.ascii c, kind? r.switches.ascii c, control? c with
    | some a, _, _ => some (.place a, rest)
    | none, some item, _ => some (.plain (.char ⟨[item], false, r.switches.anyCase⟩), rest)
    | none, none, some d => some (char d, rest)
    | none, none, none =>
      if c = 'x' ∨ c = 'u' ∨ c = 'U' then (numbered? c rest).map fun d => (char d.1, d.2)
      else if c = '0' then
        let more := (rest.take 2).takeWhile isOctal
        some (char (Char.ofNat (octalValue more)), rest.drop more.length)
      else if isDigit c then reference? r c rest
      else if isLetter c then none
      else some (char c, rest)

/-! ## Repetition signs -/

/-- What a repetition sign asks for. -/
inductive Count where
  | literal
  | refused (fault : ReadFault)
  | rounds (least : Nat) (most : Option Nat) (rest : Text)

/-- The number of rounds that digits ask for; none without digits. -/
def roundsOf (digits : Text) : Read (Option Nat) :=
  if digits = [] then .ok none
  else if Text.digitBound < digits.length then .error .unfit
  else if countBound ≤ decimalValue digits then .error .outOfBounds
  else .ok (some (decimalValue digits))

/-- The counts between braces; braces without counts are ordinary characters. -/
def braces (t : Text) : Count :=
  let low := t.takeWhile isDigit
  let behind := t.drop low.length
  let comma := behind.head? = some ','
  let tail := if comma then behind.drop 1 else behind
  let high := if comma then tail.takeWhile isDigit else low
  let close := if comma then tail.drop high.length else tail
  match close with
  | '}' :: rest =>
    if t.head? = some '}' then .literal
    else if rest = ['\\'] then .refused .refused
    else match roundsOf low, roundsOf high with
      | .error fault, _ => .refused fault
      | _, .error fault => .refused fault
      | .ok least, .ok none => .rounds (least.getD 0) none rest
      | .ok least, .ok (some most) =>
        if most < least.getD 0 then .refused .refused else .rounds (least.getD 0) (some most) rest
  | _ => .literal

/-- The counts of a repetition sign. -/
def count (sign : Char) (rest : Text) : Count :=
  if sign = '?' then .rounds 0 (some 1) rest
  else if sign = '*' then .rounds 0 none rest
  else if sign = '+' then .rounds 1 none rest
  else braces rest

def greed : Text → Greed × Text
  | '?' :: rest => (.fewest, rest)
  | '+' :: rest => (.all, rest)
  | rest => (.most, rest)

/-! ## Groups -/

/-- What stands behind an opening bracket. -/
inductive Opening where
  | capture (name : Option Text) (rest : Text)
  | plain (switches : Switches) (rest : Text)
  | atomic (rest : Text)
  | ahead (wanted : Bool) (rest : Text)
  | behind (wanted : Bool) (rest : Text)
  | ifClosed (name rest : Text)
  | sameAs (name rest : Text)
  | comment (rest : Text)
  | global (letters : Text) (switches : Switches) (rest : Text)

def isName : Text → Bool
  | [] => false
  | c :: rest => Text.isWord c && !Text.isDecimal c && rest.all Text.isWord

def turn (on : Bool) (s : Switches) : Char → Option Switches
  | 'i' => some { s with anyCase := on }
  | 'm' => some { s with multiLine := on }
  | 's' => some { s with dotAll := on }
  | 'x' => some { s with verbose := on }
  | 'a' => if on then some { s with ascii := true } else none
  | 'u' => if on then some { s with ascii := false } else none
  | _ => none

/-- The switches that a run of letters sets. -/
def turnAll (on : Bool) (s : Switches) (letters : Text) : Option Switches :=
  letters.foldlM (turn on) s

/-- Switches behind an opening bracket and a question mark: for the whole
expression up to a closing bracket, for one group up to a colon. -/
def switches? (s : Switches) (t : Text) : Option Opening := do
  let on := t.takeWhile isLetter
  if on.contains 'a' && on.contains 'u' then none
  let s ← turnAll true s on
  match t.drop on.length with
  | ')' :: rest => if on = [] then none else some (.global on s rest)
  | ':' :: rest => some (.plain s rest)
  | '-' :: rest =>
    let off := rest.takeWhile isLetter
    if off = [] ∨ off.any on.contains then none
    let s ← turnAll false s off
    match rest.drop off.length with
    | ':' :: rest => some (.plain s rest)
    | _ => none
  | _ => none

/-- The text behind a comment, which a bracket behind a backslash does not end. -/
def behindComment? : Text → Option Text
  | [] => none
  | ')' :: rest => some rest
  | '\\' :: _ :: rest => behindComment? rest
  | _ :: rest => behindComment? rest

/-- The text behind a comment that ends with its line, unless a backslash stands in
front of the line feed. -/
def behindLine? : Text → Option Text
  | [] => some []
  | '\n' :: rest => some rest
  | ['\\'] => none
  | '\\' :: _ :: rest => behindLine? rest
  | _ :: rest => behindLine? rest

/-- What stands behind an opening bracket. -/
def opening? (s : Switches) (t : Text) : Option Opening :=
  match t with
  | '?' :: 'P' :: '<' :: rest => do
    let (name, rest) ← Text.breakOn ['>'] rest
    if isName name then some (.capture (some name) rest) else none
  | '?' :: 'P' :: '=' :: rest => do
    let (name, rest) ← Text.breakOn [')'] rest
    if isName name then some (.sameAs name rest) else none
  | '?' :: ':' :: rest => some (.plain s rest)
  | '?' :: '>' :: rest => some (.atomic rest)
  | '?' :: '=' :: rest => some (.ahead true rest)
  | '?' :: '!' :: rest => some (.ahead false rest)
  | '?' :: '<' :: '=' :: rest => some (.behind true rest)
  | '?' :: '<' :: '!' :: rest => some (.behind false rest)
  | '?' :: '(' :: rest => (Text.breakOn [')'] rest).map fun (name, rest) => .ifClosed name rest
  | '?' :: '#' :: rest => (behindComment? rest).map .comment
  | '?' :: rest => switches? s rest
  | _ => some (.capture none t)

/-- A reader inside a new group, and the number of the group. -/
def Reader.openGroup (r : Reader) (name : Option Text) (rest : Text) : Option (Nat × Reader) :=
  let number := r.opened + 1
  match name with
  | none => some (number, { r with rest := rest, opened := number })
  | some n =>
    if (r.names.lookup n).isSome then none
    else some (number, { r with rest := rest, opened := number, names := r.names ++ [(n, number)] })

/-- A reader behind the closing bracket of a group, with the switches of before. -/
def Reader.closeGroup (r : Reader) (switches : Switches) (group : Option (Nat × Width)) :
    Option Reader :=
  match r.rest with
  | ')' :: rest =>
    some { r with rest := rest, switches := switches, closed := group.toList ++ r.closed }
  | _ => none

/-- A reader in the text of a look behind. -/
def Reader.lookBehind (r : Reader) (rest : Text) : Reader :=
  { r with rest := rest, fence := r.fence.or (some r.opened) }

/-- A reader that has read what is looked for behind a spot. -/
def Reader.lookedBehind (r : Reader) (fence : Option Nat) (w : Width) : Reader :=
  { r with fence := fence, loose := r.loose || w.least != w.most || countBound < w.least }

/-- A reader behind switches for the whole expression. -/
def Reader.turned (r : Reader) (letters : Text) (switches : Switches) (rest : Text) : Reader :=
  { r with
      rest := rest
      switches := switches
      narrow := r.narrow || letters.contains 'a'
      wide := r.wide || letters.contains 'u' }

/-- A reader behind the group that a condition asks for. In a look behind the group
has to be closed. -/
def Reader.conditioned? (r : Reader) (number : Nat) (asked : List Nat) : Option (Nat × Reader) :=
  if r.fence.isNone || r.isClosed number then some (number, { r with asked := asked ++ r.asked })
  else none

/-- The group that a condition asks for, by its name or its number. A number may be
that of a group which comes later. -/
def Reader.condition? (r : Reader) (name : Text) : Option (Nat × Reader) :=
  if isName name then (r.names.lookup name).bind fun number => r.conditioned? number []
  else if name = [] || !name.all isDigit || Text.digitBound < name.length then none
  else
    let number := decimalValue name
    if number = 0 || groupBound ≤ number then none else r.conditioned? number [number]

/-- Whether a character is passed over in verbose expressions. -/
def isFiller (c : Char) : Bool := c = ' ' || (9 ≤ c.toNat && c.toNat ≤ 13)

mutual

/-- Choices with bars between them, up to a closing bracket or the end. -/
def choices : Nat → Bool → Reader → Read (Pattern × Reader)
  | 0, _, _ => .error .refused
  | n + 1, first, r => do
    let (p, r) ← items n first [] r
    match r.rest with
    | '|' :: rest =>
      let (q, r) ← choices n false { r with rest := rest }
      return (.either p q, r)
    | _ => return (p, r)

/-- Items one after the other, up to a bar, a closing bracket or the end. The
items read so far are given from the last to the first. -/
def items : Nat → Bool → List Item → Reader → Read (Pattern × Reader)
  | 0, _, _, _ => .error .refused
  | n + 1, first, before, r =>
    match r.rest with
    | [] => .ok (sequenceOf before, r)
    | c :: rest =>
      let more := fun (item : Item) (rest : Text) =>
        items n first (item :: before) { r with rest := rest }
      let char := fun (set : CharSet) => Item.plain (.char set)
      if c = '|' ∨ c = ')' then .ok (sequenceOf before, r)
      else if r.switches.verbose && isFiller c then items n first before { r with rest := rest }
      else if r.switches.verbose && c = '#' then do
        let rest ← orRefuse (behindLine? rest)
        items n first before { r with rest := rest }
      else if c = '\\' then do
        let (item, rest) ← orRefuse (escape? r rest)
        more item rest
      else if c = '[' then do
        let (set, rest) ← orRefuse (set? r.switches rest)
        more (char set) rest
      else if c = '.' then
        more (char ⟨if r.switches.dotAll then [] else [.one '\n'], true, false⟩) rest
      else if c = '^' then
        more (.place (if r.switches.multiLine then .lineStart else .textStart)) rest
      else if c = '$' then
        more (.place (if r.switches.multiLine then .lineEnd else .lastLineEnd)) rest
      else if c = '(' then do
        match ← orRefuse (opening? r.switches rest) with
        | .comment rest => items n first before { r with rest := rest }
        | .global letters s rest =>
          if first && before.isEmpty then items n first before (r.turned letters s rest)
          else .error .refused
        | .sameAs name rest =>
          let number ← orRefuse (r.names.lookup name)
          let p ← orRefuse (r.closedGroup? number)
          more (.plain p) rest
        | .capture name rest =>
          let (number, inner) ← orRefuse (r.openGroup name rest)
          let (p, inner) ← choices n false inner
          let r ← orRefuse (inner.closeGroup r.switches (some (number, widthOf inner.closed p)))
          items n first (.plain (.group number p) :: before) r
        | .plain s rest =>
          let (p, inner) ← choices n false { r with rest := rest, switches := s }
          let r ← orRefuse (inner.closeGroup r.switches none)
          items n first (.plain p :: before) r
        | .atomic rest =>
          let (p, inner) ← choices n false { r with rest := rest }
          let r ← orRefuse (inner.closeGroup r.switches none)
          items n first (.plain (.atomic p) :: before) r
        | .ahead wanted rest =>
          let (p, inner) ← choices n false { r with rest := rest }
          let r ← orRefuse (inner.closeGroup r.switches none)
          items n first (.plain (.ahead wanted p) :: before) r
        | .behind wanted rest =>
          let (p, inner) ← choices n false (r.lookBehind rest)
          let closed ← orRefuse (inner.closeGroup r.switches none)
          let w := widthOf closed.closed p
          items n first (.plain (.behind wanted w.least p) :: before) (closed.lookedBehind r.fence w)
        | .ifClosed name rest =>
          let (number, inner) ← orRefuse ({ r with rest := rest }.condition? name)
          let (yes, inner) ← items n false [] inner
          let (no, inner) ← match inner.rest with
            | '|' :: rest => items n false [] { inner with rest := rest }
            | _ => .ok (.empty, inner)
          let r ← orRefuse (inner.closeGroup r.switches none)
          items n first (.plain (.ifClosed number yes no) :: before) r
      else if c = '?' ∨ c = '*' ∨ c = '+' ∨ c = '{' then
        match count c rest with
        | .literal => more (char (.single c r.switches.anyCase)) rest
        | .refused fault => .error fault
        | .rounds least most rest =>
          match before with
          | .plain p :: earlier =>
            let (g, rest) := greed rest
            items n first (.repeated (.repeated least most g p) :: earlier) { r with rest := rest }
          | _ => .error .refused
      else more (char (.single c r.switches.anyCase)) rest

end

/-- The expression that a text is. -/
def read (source : Text) : Read Expression := do
  let start : Reader := ⟨source, .none, 0, [], [], none, [], false, false, false⟩
  let (p, r) ← choices (3 * source.length + 3) true start
  if r.narrow && r.wide then .error .unfit
  else if r.rest ≠ [] || r.loose || r.asked.any (r.opened < ·) then .error .refused
  else return ⟨source, p, r.names⟩

/-- The expression that a text is, if it is read as one. -/
def ofText? (source : Text) : Option Expression := (read source).toOption

def hasGroup (e : Expression) (name : Text) : Bool := (e.names.lookup name).isSome

/-- The spot at the end of a text that the whole expression matches. -/
def fullMatch (e : Expression) (t : Text) : Option Spot := e.pattern.fullMatch t

/-- The text of a named group at a spot, if the group took part in the match. -/
def group? (e : Expression) (name : Text) (s : Spot) : Option Text :=
  (e.names.lookup name).bind s.group?

end Expression
end ProtectedRegions
