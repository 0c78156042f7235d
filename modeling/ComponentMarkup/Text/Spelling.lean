import ComponentMarkup.Text.Unwritten

set_option autoImplicit false

namespace ComponentMarkup

def spell (c : Char) : List Char :=
  match c with
  | '\x00' => ['\\', '0']
  | '\t' => ['\\', 't']
  | '\n' => ['\\', 'n']
  | '\r' => ['\\', 'r']
  | '"' => ['\\', '"']
  | '\\' => ['\\', '\\']
  | c => if isUnwritten c then ['\\', 'u', '\x7b'] ++ Nat.toDigits 16 c.toNat ++ ['\x7d'] else [c]

def spelled (s : List Char) : List Char := '"' :: (s.flatMap spell ++ ['"'])

end ComponentMarkup
