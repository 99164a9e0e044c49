import ProtectedRegions.Text

/-
  UTF-8 — texts as bytes

  Decoding is strict: shortest forms only, no surrogates, nothing beyond the
  last code point. A refusal names the first place where the bytes stop being
  well formed: a byte that begins no character, a character cut short by a byte
  that does not continue it, or by the end. The bytes reported are the lead
  byte and those that do continue it.

  `encode_of_decode` and `decode_encode` say that encoding and decoding undo each
  other.
-/

namespace ProtectedRegions

/-- Why bytes are not well formed. -/
inductive Utf8Reason where
  | invalidStart
  | invalidContinuation
  | unexpectedEnd
  deriving DecidableEq, Repr

def Utf8Reason.message : Utf8Reason → String
  | .invalidStart => "invalid start byte"
  | .invalidContinuation => "invalid continuation byte"
  | .unexpectedEnd => "unexpected end of data"

/-- Where bytes stop being well formed: the position and the value of the byte
that begins the broken character, and the number of bytes reported. -/
structure Utf8Fault where
  position : Nat
  first : UInt8
  count : Nat
  reason : Utf8Reason
  deriving DecidableEq, Repr

namespace Text

def encode (t : Text) : ByteArray := t.str.toUTF8

/-- For a byte that begins a character: how many bytes have to follow, and the
range of the first of them. -/
def lead? (b : Nat) : Option (Nat × Nat × Nat) :=
  if b < 0x80 then some (0, 0x80, 0xBF)
  else if b < 0xC2 then none
  else if b < 0xE0 then some (1, 0x80, 0xBF)
  else if b = 0xE0 then some (2, 0xA0, 0xBF)
  else if b = 0xED then some (2, 0x80, 0x9F)
  else if b < 0xF0 then some (2, 0x80, 0xBF)
  else if b = 0xF0 then some (3, 0x90, 0xBF)
  else if b < 0xF4 then some (3, 0x80, 0xBF)
  else if b = 0xF4 then some (3, 0x80, 0x8F)
  else none

/-- What breaks the rest of a character of which `seen` bytes are read and
`needed` are missing, if anything does. -/
def brokenTail (seen low high : Nat) : Nat → List UInt8 → Option (Nat × Utf8Reason)
  | 0, _ => none
  | _ + 1, [] => some (seen, .unexpectedEnd)
  | needed + 1, b :: rest =>
    if low ≤ b.toNat ∧ b.toNat ≤ high then brokenTail (seen + 1) 0x80 0xBF needed rest
    else some (seen, .invalidContinuation)

/-- The first place where bytes stop being well formed. `skip` bytes belong to
a character that was found to be whole. -/
def firstFault (position : Nat) : Nat → List UInt8 → Option Utf8Fault
  | _, [] => none
  | skip + 1, _ :: rest => firstFault (position + 1) skip rest
  | 0, b :: rest =>
    match lead? b.toNat with
    | none => some ⟨position, b, 1, .invalidStart⟩
    | some (needed, low, high) =>
      match brokenTail 1 low high needed rest with
      | some (count, reason) => some ⟨position, b, count, reason⟩
      | none => firstFault (position + 1) needed rest

def decode (bytes : ByteArray) : Except Utf8Fault Text :=
  match String.fromUTF8? bytes with
  | some s => .ok s.toList
  | none => .error ((firstFault 0 0 bytes.toList).getD ⟨0, 0, 1, .invalidStart⟩)

theorem encode_of_decode {bytes : ByteArray} {t : Text} (h : decode bytes = .ok t) :
    encode t = bytes := by
  unfold decode at h
  split at h
  · next s hs =>
    simp only [Except.ok.injEq] at h
    subst h
    unfold String.fromUTF8? at hs
    split at hs
    · simp only [Option.some.injEq] at hs
      subst hs
      simp only [encode, str, String.ofList_toList]
      rfl
    · simp at hs
  · simp at h

theorem decode_encode (t : Text) : decode (encode t) = .ok t := by
  have hvalid : String.fromUTF8? t.str.toUTF8 = some t.str := by
    unfold String.fromUTF8?
    exact dif_pos t.str.isValidUTF8
  unfold decode encode
  rw [hvalid]
  simp [str]

end Text

def Utf8Fault.message (f : Utf8Fault) : String :=
  let last := f.position + f.count - 1
  let place :=
    if f.count = 1 then s!"byte 0x{Text.str (Nat.toDigits 16 f.first.toNat)} in position {f.position}"
    else s!"bytes in position {f.position}-{last}"
  s!"'utf-8' codec can't decode {place}: {f.reason.message}"

end ProtectedRegions
