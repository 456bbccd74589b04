/-!
# Characters that fold to delimiters

Under compatibility folding some characters become several plain ones: the sign for "account
of" becomes `a/c`. A host name is folded when it is looked up, so a character that folds to a
delimiter of an address would move the borders of its parts.
-/

namespace SampleSchema.Text

/-- The characters beyond ASCII whose compatibility folding holds one of `/ ? # @ :`. No
composition undoes these delimiters, so folding character by character is enough. -/
def foldsToDelimiter : List Nat :=
  [0x2047, 0x2048, 0x2049, 0x2100, 0x2101, 0x2105, 0x2106, 0x2a74, 0xfe13, 0xfe16, 0xfe55,
   0xfe56, 0xfe5f, 0xfe6b, 0xff03, 0xff0f, 0xff1a, 0xff1f, 0xff20]

/-- Whether folding the text brings delimiters to light. -/
def hidesDelimiter (cs : List Char) : Bool :=
  cs.any fun c => foldsToDelimiter.contains c.toNat

end SampleSchema.Text
