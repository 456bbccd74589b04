import SampleSchema.Format.Uuid
import SampleSchema.Text.Split
/-!
# Internet addresses

An address of version four is four decimal octets between dots, without leading zeros. One
of version six is eight groups of hexadecimal digits between colons, where a double colon
stands for at least one group of zeros, and where the last two groups may be written as an
address of version four.

An address of version six that maps one of version four, `::ffff:0:0/96`, counts as both when
its last groups are written with dots. Addresses with a zone count as neither.
-/

namespace SampleSchema.Format

/-! ## Version four -/

/-- The number of a decimal octet: one to three digits, no leading zero, at most 255. -/
def octet? (cs : List Char) : Option Nat :=
  let value := cs.foldl (fun n c => 10 * n + (c.toNat - '0'.toNat)) 0
  if cs.isEmpty || 3 < cs.length || !cs.all Char.isDigit then none
  else if cs.head? = some '0' ∧ cs.length ≠ 1 then none
  else if 255 < value then none
  else some value

/-- The four octets of an address. -/
def ipv4Octets? (cs : List Char) : Option (List Nat) :=
  let parts := Text.split '.' cs
  if parts.length = 4 then parts.mapM octet? else none

/-! ## Version six -/

/-- The value of a hexadecimal digit. -/
def hexDigitValue (c : Char) : Nat :=
  if c.isDigit then c.toNat - '0'.toNat
  else if 'a' ≤ c then c.toNat - 'a'.toNat + 10
  else c.toNat - 'A'.toNat + 10

/-- The number of a group: one to four hexadecimal digits. -/
def group? (cs : List Char) : Option Nat :=
  if cs.isEmpty || 4 < cs.length || !cs.all isHexDigit then none
  else some (cs.foldl (fun n c => 16 * n + hexDigitValue c) 0)

/-- A part between colons. An empty part is where a double colon, or the edge of the text,
left nothing to read. -/
inductive IpPart where
  | empty
  | group (value : Nat)
deriving DecidableEq

/-- The part that a text stands for. -/
def IpPart.ofChars? (cs : List Char) : Option IpPart :=
  if cs.isEmpty then some .empty else (group? cs).map .group

/-- The parts of an address. A last part with a dot is read as four octets and gives two
groups. -/
def ipv6Parts? (cs : List Char) : Option (List IpPart) :=
  let texts := Text.split ':' cs
  match texts.getLast? with
  | some last =>
    if last.contains '.' then do
      match ← ipv4Octets? last with
      | [a, b, c, d] =>
        let before ← texts.dropLast.mapM IpPart.ofChars?
        return before ++ [.group (256 * a + b), .group (256 * c + d)]
      | _ => none
    else texts.mapM IpPart.ofChars?
  | none => none

/-- The numbers of parts that are all groups. -/
def groupValues? : List IpPart → Option (List Nat)
  | [] => some []
  | .group value :: rest => (groupValues? rest).map (value :: ·)
  | .empty :: _ => none

/-- Drops the empty part that an outer edge leaves beside a double colon: it must be all
there is on that side. -/
def outerGroups? : List IpPart → Option (List Nat)
  | [.empty] => some []
  | parts => groupValues? parts

/-- The eight groups of parts: either all of them are there, or an inner part is empty and
stands for the missing ones. -/
def expandGroups? (parts : List IpPart) : Option (List Nat) :=
  let isGroup (part : IpPart) : Bool := part != .empty
  let head := parts.take 1
  let inner := parts.drop 1
  let before := head ++ inner.takeWhile isGroup
  match inner.dropWhile isGroup with
  | _ :: behind =>
    if behind.isEmpty then none
    else do
      let high ← outerGroups? before
      let low ← outerGroups? behind
      let count := high.length + low.length
      if count < 8 then return high ++ List.replicate (8 - count) 0 ++ low else none
  | [] => do
    let values ← groupValues? parts
    if values.length = 8 then return values else none

/-- The eight groups of an address. -/
def ipv6Groups? (cs : List Char) : Option (List Nat) :=
  if (Text.split ':' cs).length < 3 then none
  else do
    let parts ← ipv6Parts? cs
    if 9 < parts.length then none else expandGroups? parts

/-- Whether the groups map an address of version four. -/
def isMappedIpv4 (groups : List Nat) : Bool :=
  groups.take 6 == [0, 0, 0, 0, 0, 0xffff]

/-! ## Formats -/

/-- Whether the text is an address of version six, without a zone. -/
def isIpv6 (s : String) : Bool :=
  (ipv6Groups? s.toList).isSome

/-- Whether the text is an address of version four, or one of version six that maps it and
is written with dots. -/
def isIpv4 (s : String) : Bool :=
  let cs := s.toList
  match ipv4Octets? cs, ipv6Groups? cs with
  | some _, _ => true
  | none, some groups => cs.contains '.' && isMappedIpv4 groups
  | none, none => false

end SampleSchema.Format
