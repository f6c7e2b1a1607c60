import Marginalia.Text.Unprintable

/-! Texts in quotation marks, for messages. Double quotation marks, backslashes and characters that
are not shown as themselves are escaped. -/

namespace Marginalia.Text

/-- A character inside quotation marks. -/
def quotedChar (c : Char) : Text :=
  match c with
  | '\x00' => ['\\', '0']
  | '\t' => ['\\', 't']
  | '\r' => ['\\', 'r']
  | '\n' => ['\\', 'n']
  | '"' => ['\\', '"']
  | '\\' => ['\\', '\\']
  | c =>
    if isUnprintable c then "\\u\x7b" ++ Nat.toDigits 16 c.toNat ++ ['\x7d'] else [c]

def quoted (s : Text) : Text := '"' :: s.flatMap quotedChar ++ ['"']

end Marginalia.Text
