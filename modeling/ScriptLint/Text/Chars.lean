/-!
# Character classes

Every scanner of this library works on lists of characters. The classes it tests are collected here,
together with the trimming of surrounding white space.
-/

namespace ScriptLint.Text

/-- White space in the sense of the Unicode property: what trimming removes. -/
def isWhite (c : Char) : Bool :=
  let n := c.toNat
  (9 ≤ n && n ≤ 13) || n == 0x20 || n == 0x85 || n == 0xA0 || n == 0x1680 ||
    (0x2000 ≤ n && n ≤ 0x200A) || n == 0x2028 || n == 0x2029 || n == 0x202F || n == 0x205F ||
    n == 0x3000

/-- What separates the tokens of a script: space, tab, line feed, vertical tab, form feed and
carriage return. -/
def isTokenBlank (c : Char) : Bool :=
  c == ' ' || c == '\t' || c == '\n' || c == '\r' || c == '\x0b' || c == '\x0c'

/-- What separates the words of a condition, and a macro name from its arguments: token blanks
other than the vertical tab. -/
def isWordBlank (c : Char) : Bool :=
  c == ' ' || c == '\t' || c == '\n' || c == '\r' || c == '\x0c'

/-- What may stand between the start of a line and its `#`. -/
def isLineBlank (c : Char) : Bool :=
  c == ' ' || c == '\t'

def isLetter (c : Char) : Bool :=
  ('a' ≤ c && c ≤ 'z') || ('A' ≤ c && c ≤ 'Z')

def isDigit (c : Char) : Bool :=
  '0' ≤ c && c ≤ '9'

def isHexDigit (c : Char) : Bool :=
  isDigit c || ('a' ≤ c && c ≤ 'f') || ('A' ≤ c && c ≤ 'F')

def isIdentStart (c : Char) : Bool :=
  isLetter c || c == '_'

def isIdentPart (c : Char) : Bool :=
  isLetter c || isDigit c || c == '_'

theorem isIdentPart_of_isIdentStart {c : Char} (start : isIdentStart c = true) : isIdentPart c = true := by
  rcases Bool.or_eq_true_iff.mp start with letter | line
  · simp [isIdentPart, letter]
  · simp [isIdentPart, line]

theorem drop_length_takeWhile (test : Char → Bool) (cs : List Char) :
    cs.drop (cs.takeWhile test).length = cs.dropWhile test := by
  have parts := List.takeWhile_append_dropWhile (p := test) (l := cs)
  exact (congrArg (List.drop _) parts.symm).trans List.drop_left

/-- The value of a digit in a base of at most sixteen; zero for any other character. -/
def digitValue (c : Char) : Nat :=
  if isDigit c then c.toNat - '0'.toNat
  else if 'a' ≤ c && c ≤ 'f' then c.toNat - 'a'.toNat + 10
  else if 'A' ≤ c && c ≤ 'F' then c.toNat - 'A'.toNat + 10
  else 0

/-- The lower-case form of an ASCII letter; any other character is kept. -/
def toLower (c : Char) : Char :=
  if 'A' ≤ c && c ≤ 'Z' then Char.ofNat (c.toNat + 32) else c

def trimStart (cs : List Char) : List Char :=
  cs.dropWhile isWhite

def trimEnd (cs : List Char) : List Char :=
  (cs.reverse.dropWhile isWhite).reverse

def trim (cs : List Char) : List Char :=
  trimEnd (trimStart cs)

/-- Drop every trailing character of a class. -/
def trimEndWhile (test : Char → Bool) (cs : List Char) : List Char :=
  (cs.reverse.dropWhile test).reverse

def trimString (s : String) : String :=
  String.ofList (trim s.toList)

def lowerString (s : String) : String :=
  String.ofList (s.toList.map toLower)

/-- Split at every character of a class; there is one more part than separators. -/
def splitAtChars (test : Char → Bool) : List Char → List (List Char)
  | [] => [[]]
  | c :: cs =>
    if test c then [] :: splitAtChars test cs
    else
      match splitAtChars test cs with
      | [] => [[c]]
      | part :: parts => (c :: part) :: parts

/-- The longest identifier at the front of a text, empty when there is none, and what follows. -/
def scanIdent : List Char → List Char × List Char
  | [] => ([], [])
  | c :: cs => if isIdentStart c then (c :: cs.takeWhile isIdentPart, cs.dropWhile isIdentPart)
    else ([], c :: cs)

def isIdent (cs : List Char) : Bool :=
  !cs.isEmpty && (scanIdent cs).2.isEmpty

/-- The text after a given beginning, when it has that beginning. -/
def dropBeginning? : (beginning : List Char) → List Char → Option (List Char)
  | [], cs => some cs
  | _ :: _, [] => none
  | b :: bs, c :: cs => if b == c then dropBeginning? bs cs else none

/-- Both identifier parts together are the scanned text. -/
theorem scanIdent_append (cs : List Char) : (scanIdent cs).1 ++ (scanIdent cs).2 = cs := by
  cases cs with
  | nil => rfl
  | cons c cs =>
    by_cases start : isIdentStart c
    · simp [scanIdent, start]
    · simp [scanIdent, start]

/-- A non-empty identifier leaves a shorter text. -/
theorem length_scanIdent_lt {cs : List Char} (found : (scanIdent cs).1 ≠ []) :
    (scanIdent cs).2.length < cs.length := by
  have parts := congrArg List.length (scanIdent_append cs)
  have positive := List.length_pos_iff.mpr found
  simp only [List.length_append] at parts
  omega

end ScriptLint.Text
