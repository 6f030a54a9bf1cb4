import InputDeck.Scan
import InputDeck.Settings
import InputDeck.Text.Lines

/-!
# Logical lines

A deck is compiled by logical lines. Each raw line loses its blanks other than spaces and its
leading spaces; lines with nothing left and lines that begin with the comment mark are dropped. The
others are split at the first comment mark outside quotes. A body that ends in the continuation
mark goes on in the next raw line that is not dropped, and one space joins the two. The comments of
the raw lines are joined likewise. The last raw line ends its logical line in any case.
-/

namespace InputDeck

open InputDeck.Text

/-- A statement or a suit header, with its number and its comment. -/
structure LogicalLine where
  /-- The joined bodies of the raw lines. -/
  text : String
  /-- The number of the first raw line, counted from one. -/
  number : Nat
  /-- The joined comments of the raw lines. -/
  comment : Option String
  deriving DecidableEq, Repr

namespace LogicalLine

/-- Whether a character is a plain space. -/
def isSpace (c : Char) : Bool := c == ' '

/-- A raw line without its blanks other than spaces and without its leading spaces. -/
def clean (raw : List Char) : List Char :=
  (raw.filter fun c => c == ' ' || !isBlank c).dropWhile isSpace

/-- Whether a cleaned line belongs to no logical line. -/
def isDropped (settings : Settings) (line : List Char) : Bool :=
  line.isEmpty || line.head? == some settings.commentMark

/-- What a raw line contributes to a logical line. -/
structure Fragment where
  /-- The text in front of the comment, without trailing spaces. -/
  body : List Char
  /-- The comment, unless nothing of it is left. -/
  comment : Option (List Char)
  deriving DecidableEq, Repr

/-- The comment of a line: continuation marks do not count in it, nor blanks around it. -/
def commentOf (settings : Settings) (text : List Char) : Option (List Char) :=
  let trimmed := trim isBlank (text.filter fun c => c != settings.continuationMark)
  if trimmed.isEmpty then none else some trimmed

/-- The body and the comment of a cleaned line. -/
def fragment (settings : Settings) (line : List Char) : Fragment :=
  match Scan.cutUnquoted settings.commentMark {} line with
  | some (body, comment) => ⟨trimEnd isSpace body, commentOf settings comment⟩
  | none => ⟨trimEnd isSpace line, none⟩

/-- The numbered fragments of a text, without the lines that are dropped. -/
def fragments (settings : Settings) (text : List Char) : List (Nat × Fragment) :=
  ((lines text).zipIdx 1).filterMap fun (raw, number) =>
    let line := clean raw
    if isDropped settings line then none else some (number, fragment settings line)

/-- A logical line that is not complete. -/
structure Open where
  /-- The number of its first raw line. -/
  number : Nat
  /-- The bodies so far, joined by spaces. -/
  text : List Char
  deriving DecidableEq, Repr

/-- Join texts by one space. -/
def joinSpaced : List (List Char) → List Char
  | [] => []
  | [cs] => cs
  | cs :: rest => cs ++ ' ' :: joinSpaced rest

/-- Put a body behind what is open of a logical line, which begins here if nothing is. -/
def extend (pending : Option Open) (number : Nat) (body : List Char) : Open :=
  match pending with
  | some line => ⟨line.number, line.text ++ ' ' :: body⟩
  | none => ⟨number, body⟩

/-- The complete logical line. -/
def close (line : Open) (comments : List (List Char)) : LogicalLine where
  text := String.ofList (trim isBlank line.text)
  number := line.number
  comment := if comments.isEmpty then none else some (String.ofList (joinSpaced comments))

/-- The logical lines of fragments, when a part of the first one and its comments came before. -/
def gather (settings : Settings) (pending : Option Open) (comments : List (List Char)) :
    List (Nat × Fragment) → List LogicalLine
  | [] =>
    match pending with
    | some line => [close line comments]
    | none => []
  | (number, fragment) :: rest =>
    let comments := comments ++ fragment.comment.toList
    match stripLast settings.continuationMark fragment.body with
    | some head =>
      gather settings (some (extend pending number (trimEnd isSpace head))) comments rest
    | none => close (extend pending number fragment.body) comments :: gather settings none [] rest

/-- The logical lines of a text. -/
def ofText (settings : Settings) (text : String) : List LogicalLine :=
  gather settings none [] (fragments settings text.toList)

end LogicalLine

end InputDeck
