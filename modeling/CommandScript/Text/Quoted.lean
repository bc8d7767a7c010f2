import CommandScript.Text.Slice

/-!
Quoted text.

Inside quotes a backslash protects the character after it, whichever it is, and
the first quote that is not protected closes the text. `splitQuoted` reads that
form. `Slice.describe` shows a slice to a developer: its text in double quotes,
with controls spelled out, and its span.
-/

namespace CommandScript

/-- The characters up to the first `quote` that no backslash protects, and the
rest, which begins with that quote unless the text ends first. -/
def splitQuoted (quote : Char) : List Char → List Char × List Char
  | [] => ([], [])
  | [c] => if c = quote then ([], [c]) else ([c], [])
  | c :: d :: cs =>
    if c = quote then
      ([], c :: d :: cs)
    else if c = '\\' then
      let (body, rest) := splitQuoted quote cs
      (c :: d :: body, rest)
    else
      let (body, rest) := splitQuoted quote (d :: cs)
      (c :: body, rest)

/-- The written form of one character of a quoted description. -/
def describeChar (c : Char) : List Char :=
  if c = '"' then ['\\', '"']
  else if c = '\\' then ['\\', '\\']
  else if c = '\t' then ['\\', 't']
  else if c = '\r' then ['\\', 'r']
  else if c = '\n' then ['\\', 'n']
  else if c.toNat = 0 then ['\\', '0']
  else if c.toNat < 32 || c.toNat = 127 then
    ['\\', 'u', '{'] ++ Nat.toDigits 16 c.toNat ++ ['}']
  else [c]

namespace Slice

/-- The text in quotes and the span, for instance `"say"@0..3`. -/
def describe (s : Slice) : String :=
  let quoted := String.ofList ('"' :: s.text.flatMap describeChar ++ ['"'])
  quoted ++ "@" ++ s!"{s.start}..{s.stop}"

end Slice

end CommandScript
