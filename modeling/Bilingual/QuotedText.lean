import Bilingual.Digits
import Bilingual.HiddenCharacters

/-!
# Quoted texts

A quoted text stands on one line of a listing, and nothing in it is invisible:
quotes, backslashes, line ends and hidden characters are escaped.  Apostrophes
are left alone, since the quotes around the text are double ones.
-/

namespace Bilingual

/-- A character as it stands between quotes. -/
def quotedCharacter (character : Char) : Text :=
  match character with
  | '\x00' => ['\\', '0']
  | '\t' => ['\\', 't']
  | '\n' => ['\\', 'n']
  | '\r' => ['\\', 'r']
  | '\x22' => ['\\', '\x22']
  | '\\' => ['\\', '\\']
  | _ =>
      if isHiddenCharacter character then
        ['\\', 'u', '{'] ++ hexDigits character.toNat ++ ['}']
      else [character]

/-- A text between double quotes. -/
def quoted (text : Text) : Text :=
  '\x22' :: text.flatMap quotedCharacter ++ ['\x22']

end Bilingual
