/-!
# Strict decoding of UTF-8

Octets are read one at a time. Between characters nothing is pending; inside a sequence the
decoder knows how many continuation octets must follow and in which range the next one has
to be, which keeps overlong forms, surrogates and numbers past the last character out at the
second octet. A fault names the octets of the sequence that was begun and could not be
finished.
-/

namespace SampleSchema.Text

/-- Why octets are no text. -/
inductive Utf8Cause where
  | invalidStart
  | invalidContinuation
  | unexpectedEnd
deriving DecidableEq

/-- The octets at fault: where they start, and the octets themselves. -/
structure Utf8Fault where
  cause : Utf8Cause
  start : Nat
  octets : List UInt8
deriving DecidableEq

/-- Why a file and a text do not match: the octets of the file are no text, or what stands at a
position of the text has no octets. -/
inductive CodecFault where
  | undecodable (fault : Utf8Fault)
  | unencodable (position : Nat)
deriving DecidableEq

/-- A sequence that has begun: the octets read, the bits they carry, how many octets are
missing, and the bounds of the next one. -/
structure PendingCharacter where
  octets : List UInt8
  bits : Nat
  missing : Nat
  low : Nat := 0x80
  high : Nat := 0xbf

/-- What the first octet of a character announces; `none` for an octet that starts none. -/
def PendingCharacter.start? (octet : UInt8) : Option PendingCharacter :=
  let n := octet.toNat
  if n < 0x80 then some ⟨[octet], n, 0, 0x80, 0xbf⟩
  else if n < 0xc2 then none
  else if n < 0xe0 then some ⟨[octet], n - 0xc0, 1, 0x80, 0xbf⟩
  else if n = 0xe0 then some ⟨[octet], 0, 2, 0xa0, 0xbf⟩
  else if n = 0xed then some ⟨[octet], 0xd, 2, 0x80, 0x9f⟩
  else if n < 0xf0 then some ⟨[octet], n - 0xe0, 2, 0x80, 0xbf⟩
  else if n = 0xf0 then some ⟨[octet], 0, 3, 0x90, 0xbf⟩
  else if n < 0xf4 then some ⟨[octet], n - 0xf0, 3, 0x80, 0xbf⟩
  else if n = 0xf4 then some ⟨[octet], 4, 3, 0x80, 0x8f⟩
  else none

/-- Takes the next octet of a character, if it is in the range that is still open. -/
def PendingCharacter.next? (p : PendingCharacter) (octet : UInt8) : Option PendingCharacter :=
  let n := octet.toNat
  if p.low ≤ n ∧ n ≤ p.high then
    some ⟨p.octets ++ [octet], p.bits * 64 + (n - 0x80), p.missing - 1, 0x80, 0xbf⟩
  else none

/-- Decodes the octets from `position` on, behind a character that may have begun. -/
def decodeFrom (position : Nat) (pending : Option PendingCharacter) :
    List UInt8 → Except Utf8Fault (List Char)
  | [] =>
    match pending with
    | none => .ok []
    | some p => .error ⟨.unexpectedEnd, position - p.octets.length, p.octets⟩
  | octet :: rest =>
    let advanced : Except Utf8Fault PendingCharacter :=
      match pending with
      | none =>
        match PendingCharacter.start? octet with
        | some p => .ok p
        | none => .error ⟨.invalidStart, position, [octet]⟩
      | some p =>
        match p.next? octet with
        | some q => .ok q
        | none => .error ⟨.invalidContinuation, position - p.octets.length, p.octets⟩
    match advanced with
    | .error fault => .error fault
    | .ok p =>
      if p.missing = 0 then (decodeFrom (position + 1) none rest).map (Char.ofNat p.bits :: ·)
      else decodeFrom (position + 1) (some p) rest

/-- The characters that the octets encode. -/
def decodeUtf8 (octets : List UInt8) : Except Utf8Fault (List Char) :=
  decodeFrom 0 none octets

/-- The octets of a text. -/
def encodeUtf8 (s : String) : List UInt8 :=
  s.toUTF8.toList

/-! ## Wording -/

/-- The hexadecimal digits of a number, padded with zeros to a width. -/
def hexDigits (width n : Nat) : List Char :=
  let digits := Nat.toDigits 16 n
  List.replicate (width - digits.length) '0' ++ digits

def Utf8Cause.message : Utf8Cause → String
  | .invalidStart => "invalid start byte"
  | .invalidContinuation => "invalid continuation byte"
  | .unexpectedEnd => "unexpected end of data"

def Utf8Fault.message (fault : Utf8Fault) : String :=
  let place :=
    match fault.octets with
    | [octet] =>
      "byte 0x" ++ String.ofList (hexDigits 2 octet.toNat) ++ " in position " ++
        toString fault.start
    | octets =>
      "bytes in position " ++ toString fault.start ++ "-" ++
        toString (fault.start + octets.length - 1)
  "'utf-8' codec can't decode " ++ place ++ ": " ++ fault.cause.message

def CodecFault.message : CodecFault → String
  | .undecodable fault => fault.message
  | .unencodable position =>
    "'utf-8' codec can't encode character in position " ++ toString position ++
      ": surrogates not allowed"

end SampleSchema.Text
