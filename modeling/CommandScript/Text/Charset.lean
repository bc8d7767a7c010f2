/-!
Character classes of command text.

Blanks follow the Unicode property White_Space, so a slice trims and a reader
skips the same twenty-five characters everywhere. All other classes are plain
ASCII sets: the ones in which unquoted words, property keys and resource ids are
written.
-/

namespace CommandScript.Charset

/-- The blanks outside ASCII: the rest of the Unicode property White_Space. -/
def wideBlanks : List Char :=
  ['\u0085', '\u00a0', '\u1680', '\u2000', '\u2001', '\u2002', '\u2003', '\u2004',
    '\u2005', '\u2006', '\u2007', '\u2008', '\u2009', '\u200a', '\u2028', '\u2029',
    '\u202f', '\u205f', '\u3000']

/-- White space in the sense of Unicode: space, the controls from tab to
carriage return, and the wide blanks. -/
def isBlank (c : Char) : Bool :=
  c == ' ' || ('\t' ≤ c && c ≤ '\r') || wideBlanks.contains c

/-- A decimal digit of ASCII. -/
def isDigit (c : Char) : Bool :=
  '0' ≤ c && c ≤ '9'

/-- A small letter of ASCII. -/
def isLower (c : Char) : Bool :=
  'a' ≤ c && c ≤ 'z'

/-- A capital letter of ASCII. -/
def isUpper (c : Char) : Bool :=
  'A' ≤ c && c ≤ 'Z'

/-- A letter or digit of ASCII. -/
def isAlphanumeric (c : Char) : Bool :=
  isLower c || isUpper c || isDigit c

/-- Characters of an unquoted string, `[0-9A-Za-z_.+-]`. -/
def isUnquoted (c : Char) : Bool :=
  isAlphanumeric c || c == '_' || c == '-' || c == '.' || c == '+'

/-- Word characters, `[0-9A-Za-z_]`. -/
def isWord (c : Char) : Bool :=
  isAlphanumeric c || c == '_'

/-- Characters of a resource namespace, `[a-z0-9._-]`. -/
def isNamespace (c : Char) : Bool :=
  isLower c || isDigit c || c == '.' || c == '_' || c == '-'

/-- Characters of a resource path: those of a namespace and the slash. -/
def isPath (c : Char) : Bool :=
  isNamespace c || c == '/'

/-- Unquoted text has at least one character, all of them unquoted characters. -/
def isUnquotedText (cs : List Char) : Bool :=
  !cs.isEmpty && cs.all isUnquoted

/-- Text of word characters only; the empty text counts. -/
def isWordText (cs : List Char) : Bool :=
  cs.all isWord

/-- The small form of a capital letter of ASCII; every other character is kept. -/
def toLower (c : Char) : Char :=
  if isUpper c then Char.ofNat (c.toNat + 32) else c

/-- A character that opens and closes a quoted string. -/
def isQuote (c : Char) : Bool :=
  c == '"' || c == '\''

/-- A hexadecimal digit of ASCII, in either case. -/
def isHexDigit (c : Char) : Bool :=
  isDigit c || ('a' ≤ c && c ≤ 'f') || ('A' ≤ c && c ≤ 'F')

end CommandScript.Charset
