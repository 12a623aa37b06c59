/-!
# Reading a document character by character

A reader takes a value off the front of a text and returns the rest, or refuses. Here are the
readers for what stands between the values of a TOML document, and the few ways to put readers
together.

## Main definitions

* `Reader`;
* `blanks`, `lineEnd`, `lineRest`, `gap`: white space, ends of lines and comments;
* `listOf`: elements between commas.
-/

namespace DebugBridge.Toml

/-- Takes a value off the front of a text. -/
abbrev Reader (α : Type) := List Char → Option (α × List Char)

/-- Takes one given character. -/
def expect (c : Char) (cs : List Char) : Option (List Char) :=
  match cs with
  | d :: rest => if d = c then some rest else none
  | [] => none

/-- Takes a given word. -/
def expectWord (word : List Char) (cs : List Char) : Option (List Char) :=
  match word with
  | [] => some cs
  | c :: more => (expect c cs).bind (expectWord more)

/-- Whether a character is a space or a tab. -/
def isSpace (c : Char) : Bool :=
  c = ' ' || c = '\t'

/-- Drops spaces and tabs. -/
def blanks (cs : List Char) : List Char :=
  cs.dropWhile isSpace

/-- Takes the end of a line: a line feed, with a carriage return before it or not. -/
def newline : List Char → Option (List Char)
  | '\n' :: rest => some rest
  | '\r' :: '\n' :: rest => some rest
  | _ => none

/-- Takes the end of a line or of the document. -/
def lineEnd (cs : List Char) : Option (List Char) :=
  if cs.isEmpty then some [] else newline cs

/-- Whether a character may stand in a comment or in a string of one line: no control character
other than the tab. -/
def isPlain (c : Char) : Bool :=
  c = '\t' || (' ' ≤ c && c ≤ '~') || '\x80' ≤ c

/-- Drops a comment, if there is one. -/
def comment : List Char → List Char
  | '#' :: rest => rest.dropWhile isPlain
  | cs => cs

/-- Takes what may follow a value on its line: spaces, a comment and the end of the line. -/
def lineRest (cs : List Char) : Option (List Char) :=
  lineEnd (comment (blanks cs))

/-- Drops spaces, comments and ends of lines, as may stand between the elements of an array. Each
round drops at least one character. -/
def gapWithin : Nat → List Char → List Char
  | 0, cs => cs
  | rounds + 1, cs =>
    let rest := comment (blanks cs)
    match newline rest with
    | some next => gapWithin rounds next
    | none => if rest.length < cs.length then gapWithin rounds rest else cs

/-- Drops spaces, comments and ends of lines. -/
def gap (cs : List Char) : List Char :=
  gapWithin (cs.length + 1) cs

/-- Reads one or more elements with commas between them, and leaves a comma after which there is no
element. Each element takes at least one character, so the length of the text bounds their
number. -/
def elementsWithin {α : Type} (element : Reader α) : Nat → Reader (List α)
  | 0, _ => none
  | rounds + 1, cs =>
    match element cs with
    | none => none
    | some (x, rest) =>
      match expect ',' rest with
      | none => some ([x], rest)
      | some next =>
        match elementsWithin element rounds next with
        | none => some ([x], rest)
        | some (xs, rest) => some (x :: xs, rest)

/-- Reads elements with commas between them, none at all if the first one is refused. -/
def listOf {α : Type} (element : Reader α) (cs : List Char) : List α × List Char :=
  (elementsWithin element (cs.length + 1) cs).getD ([], cs)

end DebugBridge.Toml
