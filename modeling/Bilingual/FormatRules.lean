/-!
# Format rules

The choices that the formatter leaves to its user, and their defaults.
-/

namespace Bilingual

/-- The choices of the formatter.

* `indentWidth`: columns for each level of indentation.
* `spaceAfterComma`: write `a, b` and not `a,b`.
* `spaceAfterColon`: write `a: b` and not `a:b`.
* `reindentComments`: indent a line with nothing but a comment like the block
  around it, and not at the left margin. -/
structure FormatRules where
  indentWidth : Nat := 4
  spaceAfterComma : Bool := false
  spaceAfterColon : Bool := false
  reindentComments : Bool := true
  deriving DecidableEq, Repr

/-- The rules that hold without any choice. -/
def FormatRules.standard : FormatRules := {}

end Bilingual
