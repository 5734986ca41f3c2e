import Star9.Base.Loop
import Star9.Rc.Expand

/-!
# From source text to tokens

A first pass goes through the lines, puts a marker where a here document is announced and
takes its lines away. The lexer turns what is left into tokens. Both are loops over what is
left of the text; indices count characters.
-/
namespace Star9.Rc
open Base

/-! ## Here documents -/

/-- The lines of a text, each with the newline that ends it. -/
def splitInclusive : List Char → List (List Char)
  | [] => []
  | c :: cs =>
    if c = '\n' then [c] :: splitInclusive cs
    else
      match splitInclusive cs with
      | [] => [[c]]
      | line :: lines => (c :: line) :: lines

/-- A marker stands for the characters from `start` to `end` of its line. -/
structure HereMarker where
  start : Nat
  «end» : Nat
  delimiter : List Char
  quoted : Bool
  marker : String
  deriving DecidableEq, Repr

structure PreparedSource where
  source : List Char
  hereDocs : Std.ExtTreeMap String HereDoc

/-- The characters up to and with the first that stops, and what is left. -/
def readThrough (stop : Char) : List Char → List Char × List Char
  | [] => ([], [])
  | c :: cs =>
    if c = stop then ([c], cs)
    else
      let (out, rest) := readThrough stop cs
      (c :: out, rest)

structure MarkerScan where
  rest : List Char
  i : Nat
  quoted : Bool
  markers : List HereMarker

def isDelimiterEnd (c : Char) : Bool := isWhiteSpace c || c = ';' || c = '&' || c = '|'

/-- The delimiter at the front, whether it is quoted, how many characters it takes and what follows. -/
def readDelimiter (cs : List Char) : List Char × Bool × Nat × List Char :=
  match cs with
  | '\'' :: tail =>
    let (out, rest) := readThrough '\'' tail
    (out.filter (· ≠ '\''), true, out.length + 1, rest)
  | _ =>
    let delimiter := cs.takeWhile fun c => !isDelimiterEnd c
    (delimiter, false, delimiter.length, cs.dropWhile fun c => !isDelimiterEnd c)

/-- The number of bytes that the first characters of a line take. -/
def byteIndex (line : List Char) (i : Nat) : Nat := ((line.take i).map Char.utf8Size).sum

/-- One round of the scan for the markers of a line. -/
def findHereMarkersStep (line : List Char) (nextId : Nat) (s : MarkerScan) : Outcome RcError (MarkerScan ⊕ List HereMarker) :=
  match s.rest with
  | [] => .ok (.inr s.markers)
  | ch :: rest =>
    if ch = '\'' then .ok (.inl { s with rest, i := s.i + 1, quoted := !s.quoted })
    else if !s.quoted ∧ ch = '<' ∧ rest.head? = some '<' then
      let blanks := rest.tail.takeWhile fun c => isWhiteSpace c && c != '\n'
      let j := s.i + 2 + blanks.length
      match rest.tail.drop blanks.length with
      | [] => .ok (.inr s.markers)
      | body =>
        let (delimiter, quoted, count, rest) := readDelimiter body
        if delimiter = [] then
          .err (.at "empty here document delimiter" ⟨byteIndex line s.i, byteIndex line (j + count)⟩)
        else
          let marker := "__star9_heredoc_" ++ toString (nextId + s.markers.length) ++ "__"
          .ok (.inl { s with rest, i := j + count, markers := s.markers ++ [⟨j, j + count, delimiter, quoted, marker⟩] })
    else .ok (.inl { s with rest, i := s.i + 1 })

def findHereMarkers (line : List Char) (nextId : Nat) : Outcome RcError (List HereMarker) :=
  iterate (findHereMarkersStep line nextId) (line.length + 1) { rest := line, i := 0, quoted := false, markers := [] }

/-- A line without the newlines at its end and without the carriage returns before them. -/
def trimLineEnd (line : List Char) : List Char := (line.rdropWhile (· == '\n')).rdropWhile (· == '\r')

/-- The lines of a here document and what is left after its delimiter. -/
def takeHereBody (delimiter : List Char) : List (List Char) → Option (List Char × List (List Char))
  | [] => none
  | line :: lines =>
    if trimLineEnd line = delimiter then some ([], lines)
    else (takeHereBody delimiter lines).map fun (body, rest) => (line ++ body, rest)

def takeHereBodies : List HereMarker → List (List Char) → Std.ExtTreeMap String HereDoc →
    Except RcError (Std.ExtTreeMap String HereDoc × List (List Char))
  | [], lines, docs => .ok (docs, lines)
  | marker :: markers, lines, docs =>
    match takeHereBody marker.delimiter lines with
    | none => .error (.new ("unterminated here document " ++ String.ofList marker.delimiter))
    | some (body, rest) => takeHereBodies markers rest (docs.insert marker.marker { body := String.ofList body, expand := !marker.quoted })

def replaceRange (line : List Char) (start stop : Nat) (text : List Char) : List Char := line.take start ++ text ++ line.drop stop

/-- The markers go in from the last to the first. -/
def replaceMarkers (line : List Char) (markers : List HereMarker) : List Char :=
  markers.foldr (fun marker line => replaceRange line marker.start marker.end marker.marker.toList) line

structure HereScan where
  lines : List (List Char)
  nextId : Nat
  out : List Char
  docs : Std.ExtTreeMap String HereDoc

/-- One round of the pass over the lines, once the markers of the line are found. -/
def prepareLine (s : HereScan) (line : List Char) (lines : List (List Char)) (markers : List HereMarker) : Except RcError HereScan :=
  if markers = [] then .ok { s with lines, out := s.out ++ line }
  else
    match takeHereBodies markers lines s.docs with
    | .error err => .error err
    | .ok (docs, rest) =>
      .ok { lines := rest, nextId := s.nextId + markers.length, out := s.out ++ replaceMarkers line markers, docs }

/-- One round of the pass over the lines. -/
def prepareStep (s : HereScan) : Outcome RcError (HereScan ⊕ PreparedSource) :=
  match s.lines with
  | [] => .ok (.inr { source := s.out, hereDocs := s.docs })
  | line :: lines => do
    let markers ← findHereMarkers line s.nextId
    let next ← Outcome.ofExcept (prepareLine s line lines markers)
    pure (.inl next)

def prepareHereDocs (source : List Char) : Outcome RcError PreparedSource :=
  iterate prepareStep ((splitInclusive source).length + 1) { lines := splitInclusive source, nextId := 0, out := [], docs := ∅ }

/-! ## Tokens -/

structure RedirectOp where
  fd : Nat
  mode : RedirectMode
  deriving DecidableEq, Repr

inductive TokenKind where
  | word (raw : String)
  | newline
  | semi
  | andAnd
  | orOr
  | amp
  | pipe (spec : Option PipeSpec)
  | bang
  | lBrace
  | rBrace
  | lParen
  | rParen
  | redirect (op : RedirectOp)
  deriving DecidableEq, Repr

structure Token where
  kind : TokenKind
  span : Span
  deriving DecidableEq, Repr

/-- The text between the bracket at `start` and the one that closes it, and what is left. -/
def readBracket (total start : Nat) (cs : List Char) : Except RcError (String × List Char) :=
  if ']' ∈ cs then .ok (String.ofList (cs.takeWhile (· ≠ ']')), (cs.dropWhile (· ≠ ']')).drop 1)
  else .error (.at "unterminated fd specifier" ⟨start, total⟩)

/-- The descriptors of a pipe after its bar at `start`, and what is left. -/
def parsePipeSpec (total start : Nat) (cs : List Char) : Except RcError (Option PipeSpec × List Char) :=
  match cs with
  | '[' :: rest => do
    let (text, rest) ← readBracket total start rest
    let spec : PipeSpec :=
      match splitOnce '=' text with
      | some (left, right) => { fromFd := (parseUnsigned 32 left).getD 1, toFd := (parseUnsigned 32 right).getD 0 }
      | none => { fromFd := (parseUnsigned 32 text).getD 1, toFd := 0 }
    pure (some spec, rest)
  | _ => .ok (none, cs)

/-- What stands in the brackets of a redirection. -/
def bracketOp (fd : Nat) (mode : RedirectMode) (text : String) : RedirectOp :=
  match splitOnce '=' text with
  | some (left, right) =>
    let fd := (parseUnsigned 32 left).getD fd
    { fd, mode := .dup (if right = "" then none else some ((parseUnsigned 32 right).getD fd)) }
  | none => { fd := if text = "" then fd else (parseUnsigned 32 text).getD fd, mode }

/-- The redirection that starts with `op`, of which `cs` is the rest. -/
def parseRedirect (total start : Nat) (op : Char) (cs : List Char) : Except RcError (RedirectOp × List Char) :=
  let doubled := cs.head? = some op
  let mode : RedirectMode := if op = '<' then (if doubled then .here else .read) else if doubled then .append else .write
  let rest := if doubled then cs.tail else cs
  let fd := if op = '<' then 0 else 1
  match rest with
  | '[' :: tail => do
    let (text, rest) ← readBracket total (start + 1 + (if doubled then 1 else 0)) tail
    pure (bracketOp fd mode text, rest)
  | _ => .ok ({ fd, mode }, rest)

/-! ## Words -/

/-- The characters of a quoted part after its first quote, up to and with the last, and what is left. -/
def readQuoted : List Char → List Char × List Char
  | [] => ([], [])
  | '\'' :: '\'' :: cs =>
    let (out, rest) := readQuoted cs
    ('\'' :: '\'' :: out, rest)
  | '\'' :: cs => (['\''], cs)
  | c :: cs =>
    let (out, rest) := readQuoted cs
    (c :: out, rest)

def isWordEnd (c : Char) : Bool :=
  isWhiteSpace c || c = ';' || c = '\x7b' || c = '\x7d' || c = '(' || c = ')' || c = '&' || c = '|' || c = '<' || c = '>'

structure WordScan where
  rest : List Char
  i : Nat
  out : List Char

/-- One round of the scan of a word. -/
def readWordStep (total : Nat) (s : WordScan) : Outcome RcError (WordScan ⊕ WordScan) :=
  match s.rest with
  | [] => .ok (.inr s)
  | ch :: rest =>
    if ch = '(' ∧ '$' ∈ s.out then
      let (out, left) := readThrough ')' rest
      .ok (.inl { rest := left, i := s.i + 1 + out.length, out := s.out ++ ch :: out })
    else if isWordEnd ch then .ok (.inr s)
    else if ch = '\'' then
      let (out, left) := readQuoted rest
      .ok (.inl { rest := left, i := s.i + 1 + out.length, out := s.out ++ ch :: out })
    else if ch = '\x60' ∧ rest.head? = some '\x7b' then
      match readBracedSubstitution ⟨s.i, total⟩ 0 false [] (ch :: rest) s.i with
      | .error err => .err err
      | .ok (sub, left, next) => .ok (.inl { rest := left, i := next, out := s.out ++ sub })
    else .ok (.inl { rest, i := s.i + 1, out := s.out ++ [ch] })

/-- The word at the front: its text, what is left and where that starts. -/
def readWord (total : Nat) (cs : List Char) (start : Nat) : Outcome RcError (String × List Char × Nat) := do
  let s ← iterate (readWordStep total) (cs.length + 1) { rest := cs, i := start, out := [] }
  if s.out = [] then .err (.at "expected word" ⟨start, s.i⟩) else .ok (String.ofList s.out, s.rest, s.i)

/-! ## The lexer -/

structure LexScan where
  rest : List Char
  i : Nat
  atLineStart : Bool
  out : List Token

namespace LexScan

/-- A token of the characters up to index `next`, and what is left after it. -/
def push (s : LexScan) (kind : TokenKind) (next : Nat) (rest : List Char) : LexScan :=
  { rest, i := next, atLineStart := false, out := s.out ++ [⟨kind, ⟨s.i, next⟩⟩] }

end LexScan

/-- The token of a character that is one on its own. -/
def charToken : Char → Option TokenKind
  | ';' => some .semi
  | '\x7b' => some .lBrace
  | '\x7d' => some .rBrace
  | '(' => some .lParen
  | ')' => some .rParen
  | '!' => some .bang
  | _ => none

/-- One round of the lexer at a character that is not blank. -/
def lexToken (total : Nat) (s : LexScan) (ch : Char) (rest : List Char) : Outcome RcError LexScan :=
  match charToken ch with
  | some kind => .ok (s.push kind (s.i + 1) rest)
  | none =>
    if ch = '&' then
      if rest.head? = some '&' then .ok (s.push .andAnd (s.i + 2) rest.tail) else .ok (s.push .amp (s.i + 1) rest)
    else if ch = '|' then
      if rest.head? = some '|' then .ok (s.push .orOr (s.i + 2) rest.tail)
      else do
        let (spec, left) ← Outcome.ofExcept (parsePipeSpec total (s.i + 1) rest)
        pure (s.push (.pipe spec) (s.i + 1 + (rest.length - left.length)) left)
    else if ch = '<' ∨ ch = '>' then do
      let (op, left) ← Outcome.ofExcept (parseRedirect total s.i ch rest)
      pure (s.push (.redirect op) (s.i + 1 + (rest.length - left.length)) left)
    else do
      let (word, left, next) ← readWord total (ch :: rest) s.i
      pure (s.push (.word word) next left)

def lexChar (total : Nat) (s : LexScan) (ch : Char) (rest : List Char) : Outcome RcError LexScan :=
  if ch = ' ' ∨ ch = '\t' ∨ ch = '\r' then .ok { s with rest, i := s.i + 1 }
  else if ch = '\n' then
    .ok { rest, i := s.i + 1, atLineStart := true, out := s.out ++ [⟨.newline, ⟨s.i, s.i + 1⟩⟩] }
  else if ch = '#' ∧ s.atLineStart then
    let comment := (ch :: rest).takeWhile (· ≠ '\n')
    .ok { s with rest := (ch :: rest).drop comment.length, i := s.i + comment.length }
  else lexToken total s ch rest

/-- One round of the lexer. -/
def lexStep (total : Nat) (s : LexScan) : Outcome RcError (LexScan ⊕ List Token) :=
  match s.rest with
  | [] => .ok (.inr s.out)
  | ch :: rest => .inl <$> lexChar total s ch rest

def lex (source : List Char) : Outcome RcError (List Token) :=
  iterate (lexStep source.length) (source.length + 1) { rest := source, i := 0, atLineStart := true, out := [] }

end Star9.Rc
