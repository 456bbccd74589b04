import SampleSchema.Text.Split
/-!
# Email addresses

A mailbox, an at sign, and a domain whose last label has at least two letters, all of ASCII.
Neither the mailbox nor the domain can hold an at sign, and the last label holds no dot, so
an address is cut in one way only: at its at sign, and at the last dot behind it. One line
feed may follow the address.
-/

namespace SampleSchema.Format

/-- The characters of a mailbox. -/
def isMailboxChar (c : Char) : Bool :=
  c.isAlphanum || c == '.' || c == '_' || c == '%' || c == '+' || c == '-'

/-- The characters of a domain before its last label. -/
def isDomainChar (c : Char) : Bool :=
  c.isAlphanum || c == '.' || c == '-'

/-- Whether the text is a domain: something, a dot, and a last label of letters. -/
def isDomain (cs : List Char) : Bool :=
  match Text.cutLast? '.' cs with
  | some (before, label) =>
    !before.isEmpty && before.all isDomainChar && 2 ≤ label.length && label.all Char.isAlpha
  | none => false

/-- Whether the text is an email address. -/
def isEmail (s : String) : Bool :=
  match Text.cutFirst? '@' (Text.dropFinalLineFeed s.toList) with
  | some (mailbox, domain) => !mailbox.isEmpty && mailbox.all isMailboxChar && isDomain domain
  | none => false

end SampleSchema.Format
