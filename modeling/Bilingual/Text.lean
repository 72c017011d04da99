import Bilingual.WhiteSpace

/-!
# Texts

A text is a list of characters, so that statements about texts are statements
about lists.  Positions in a text are counted in bytes of its UTF-8 form, which
`byteLength` measures.  The file also holds the few operations on texts that the
rest of the library shares: trimming, padding, and replacing.
-/

namespace Bilingual

/-- A text is the list of its characters. -/
abbrev Text := List Char

namespace Text

/-- The length of the UTF-8 form of a text. -/
def byteLength : Text → Nat
  | [] => 0
  | character :: rest => character.utf8Size + byteLength rest

@[simp] theorem byteLength_nil : byteLength [] = 0 := rfl

@[simp] theorem byteLength_cons (character : Char) (text : Text) :
    byteLength (character :: text) = character.utf8Size + byteLength text := rfl

@[simp] theorem byteLength_append (first second : Text) :
    byteLength (first ++ second) = byteLength first + byteLength second := by
  induction first with
  | nil => simp
  | cons character rest induction => simp [induction, Nat.add_assoc]

/-- The first text does not stand behind the second one in the order of code
points. -/
def isUpTo : Text → Text → Bool
  | [], _ => true
  | _ :: _, [] => false
  | first :: firstRest, second :: secondRest =>
      first.toNat < second.toNat || (first = second && isUpTo firstRest secondRest)

/-- A text without any character that is not white space. -/
def isBlank (text : Text) : Bool :=
  text.all isWhiteSpace

/-- Drops white space at the start. -/
def trimStart (text : Text) : Text :=
  text.dropWhile isWhiteSpace

/-- Drops white space at the end. -/
def trimEnd (text : Text) : Text :=
  (text.reverse.dropWhile isWhiteSpace).reverse

/-- Drops white space on both sides. -/
def trim (text : Text) : Text :=
  trimEnd (trimStart text)

/-- A run of spaces. -/
def spaces (count : Nat) : Text :=
  List.replicate count ' '

/-- Where a text stands in a field that is wider than it. -/
inductive Alignment
  | left
  | right
  | centre
  deriving DecidableEq, Repr

/-- Fills a text with spaces up to `width` characters.  A text that is already
as wide stays as it is; in the centre an odd space goes to the right. -/
def pad (alignment : Alignment) (width : Nat) (text : Text) : Text :=
  let missing := width - text.length
  match alignment with
  | .left => text ++ spaces missing
  | .right => spaces missing ++ text
  | .centre => spaces (missing / 2) ++ text ++ spaces (missing - missing / 2)

/-- Replaces every occurrence of `pattern`, found from left to right without
overlap.  `skip` counts the characters of an occurrence that were replaced
already and are still to be passed over. -/
def replaceFrom (pattern replacement : Text) : Nat → Text → Text
  | _, [] => []
  | skip + 1, _ :: rest => replaceFrom pattern replacement skip rest
  | 0, character :: rest =>
      if pattern.isPrefixOf (character :: rest) then
        replacement ++ replaceFrom pattern replacement (pattern.length - 1) rest
      else
        character :: replaceFrom pattern replacement 0 rest

/-- Replaces every occurrence of the nonempty text `pattern`. -/
def replace (pattern replacement text : Text) : Text :=
  replaceFrom pattern replacement 0 text

/-- Lowers the letters A to Z and leaves all other characters alone. -/
def toLowerAscii (text : Text) : Text :=
  text.map Char.toLower

end Text

end Bilingual
