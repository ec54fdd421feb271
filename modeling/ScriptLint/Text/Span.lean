/-!
# Spans

Offsets count the bytes of a text's UTF-8 form. A span is a half-open interval of offsets, and a
slice exists only where both ends fall between two characters.
-/

namespace ScriptLint

namespace Text

def byteLength : List Char → Nat
  | [] => 0
  | c :: cs => c.utf8Size + byteLength cs

@[simp] theorem byteLength_nil : byteLength [] = 0 := rfl

@[simp] theorem byteLength_cons (c : Char) (cs : List Char) :
    byteLength (c :: cs) = c.utf8Size + byteLength cs := rfl

@[simp] theorem byteLength_append (front back : List Char) :
    byteLength (front ++ back) = byteLength front + byteLength back := by
  induction front with
  | nil => simp
  | cons c cs ih => simp [ih, Nat.add_assoc]

/-- Split a text after as many whole characters as fit into a number of bytes. -/
def splitBytes : Nat → List Char → List Char × List Char
  | _, [] => ([], [])
  | bytes, c :: cs =>
    if c.utf8Size ≤ bytes then
      let (front, back) := splitBytes (bytes - c.utf8Size) cs
      (c :: front, back)
    else ([], c :: cs)

theorem splitBytes_append (bytes : Nat) (cs : List Char) :
    (splitBytes bytes cs).1 ++ (splitBytes bytes cs).2 = cs := by
  induction cs generalizing bytes with
  | nil => rfl
  | cons c cs ih =>
    unfold splitBytes
    split
    · simp [ih]
    · rfl

/-- The characters between two offsets, when both fall between characters. -/
def slice? (cs : List Char) (start stop : Nat) : Option (List Char) :=
  let (front, back) := splitBytes start cs
  let (middle, _) := splitBytes (stop - start) back
  if start ≤ stop ∧ byteLength front = start ∧ byteLength middle = stop - start then some middle
  else none

end Text

/-- A half-open interval of byte offsets into a document. -/
structure Span where
  start : Nat
  stop : Nat
  deriving Repr, DecidableEq, Inhabited

namespace Span

def empty (offset : Nat) : Span := ⟨offset, offset⟩

def length (span : Span) : Nat := span.stop - span.start

def isEmpty (span : Span) : Bool := span.start == span.stop

/-- The offset lies inside the span; its end does not count. -/
def contains (span : Span) (offset : Nat) : Bool :=
  span.start ≤ offset && offset < span.stop

/-- The offset lies inside the span or right at its end. -/
def touches (span : Span) (offset : Nat) : Bool :=
  span.start ≤ offset && offset ≤ span.stop

def cover (span other : Span) : Span :=
  ⟨min span.start other.start, max span.stop other.stop⟩

def precedes (span other : Span) : Bool :=
  span.start < other.start || (span.start == other.start && span.stop < other.stop)

/-- The text at a span; empty when the span is not a piece of the text. -/
def slice (span : Span) (text : List Char) : String :=
  String.ofList ((Text.slice? text span.start span.stop).getD [])

def render (span : Span) : String :=
  s!"{span.start}..{span.stop}"

end Span

end ScriptLint
