import SampleSchema.Format.IpAddress
import SampleSchema.Text.Blank
import SampleSchema.Text.Compatibility
/-!
# Addresses of web and file transfer

A scheme that names one of the two protocols, plain or secure, then `://` and an authority,
which ends at the first slash, question mark or hash. White space is not allowed anywhere.
The authority must not be empty, but it may be no more than an at sign or a port.

Brackets in an authority enclose a literal address. They come in pairs; behind the last at
sign nothing stands before them, and only a port behind them.
-/

namespace SampleSchema.Format

/-- The schemes of a web address, in lower case. -/
def uriSchemes : List (List Char) :=
  ["http", "https", "ftp", "ftps"].map String.toList

/-- The characters of a scheme. -/
def isSchemeChar (c : Char) : Bool :=
  c.isAlphanum || c == '+' || c == '-' || c == '.'

/-- Whether an authority ends before the character. -/
def endsAuthority (c : Char) : Bool :=
  c == '/' || c == '?' || c == '#'

/-! ## Literal addresses -/

/-- Whether the text is `v`, hexadecimal digits, a dot and more: an address of a version to
come. -/
def isFutureAddress : List Char → Bool
  | 'v' :: rest =>
    match rest.dropWhile isHexDigit with
    | '.' :: more => rest.head?.any isHexDigit && !more.isEmpty
    | _ => false
  | _ => false

/-- Whether the text is an address of version six, with or without a zone. -/
def isZonedIpv6 (cs : List Char) : Bool :=
  match Text.cutFirst? '%' cs with
  | some (address, zone) =>
    (ipv6Groups? address).isSome && !zone.isEmpty && !zone.contains '%'
  | none => (ipv6Groups? cs).isSome

/-- Whether the text may stand in brackets. -/
def isLiteralAddress (cs : List Char) : Bool :=
  if cs.head? = some 'v' then isFutureAddress cs else isZonedIpv6 cs

/-- The host and port of an authority: what stands behind its last at sign. -/
def hostAndPort (authority : List Char) : List Char :=
  match Text.cutLast? '@' authority with
  | some (_, behind) => behind
  | none => authority

/-- Whether the literal address of an authority with brackets is well placed and valid. When
the brackets stand before the last at sign, the plain host has to be a literal address. -/
def hasLiteralHost (authority : List Char) : Bool :=
  let host := hostAndPort authority
  match Text.cutFirst? '[' host with
  | some (before, bracketed) =>
    match Text.cutFirst? ']' bracketed with
    | some (address, port) =>
      before.isEmpty && (port.isEmpty || port.head? == some ':') && isLiteralAddress address
    | none => before.isEmpty && isLiteralAddress bracketed
  | none =>
    match Text.cutFirst? ':' host with
    | some (name, _) => isLiteralAddress name
    | none => isLiteralAddress host

/-- Whether the brackets of an authority are in order. -/
def hasValidBrackets (authority : List Char) : Bool :=
  match authority.contains '[', authority.contains ']' with
  | false, false => true
  | true, true => hasLiteralHost authority
  | _, _ => false

/-! ## Whole addresses -/

/-- The scheme, in lower case, and the authority of an address that has both. -/
def schemeAndAuthority? (cs : List Char) : Option (List Char × List Char) :=
  match Text.cutFirst? ':' cs with
  | some (scheme, '/' :: '/' :: rest) =>
    if scheme.all isSchemeChar then
      some (scheme.map Char.toLower, rest.takeWhile fun c => !endsAuthority c)
    else none
  | _ => none

/-- Whether the text is such an address. It has to begin with the name of a protocol in lower
case; the rest of the scheme may be in either case. -/
def isUri (s : String) : Bool :=
  let cs := s.toList
  if "http".toList.isPrefixOf cs || "ftp".toList.isPrefixOf cs then
    if cs.any Text.isBlank then false
    else
      match schemeAndAuthority? cs with
      | some (scheme, authority) =>
        uriSchemes.contains scheme && !authority.isEmpty && hasValidBrackets authority &&
          !Text.hidesDelimiter authority
      | none => false
  else false

end SampleSchema.Format
