import Mathlib

/-!
# The rc language: statuses, outputs and syntax trees

The data of the rc crate. A script is a list of nodes; a simple command carries
its assignments, words and redirections unexpanded, as the parser left them.
-/
namespace Star9.Rc

structure Span where
  start : Nat
  «end» : Nat
  deriving DecidableEq, Repr

structure RcError where
  message : String
  span : Option Span
  deriving DecidableEq, Repr

namespace RcError

def new (message : String) : RcError := { message, span := none }

def «at» (message : String) (span : Span) : RcError := { message, span := some span }

def display (e : RcError) : String :=
  match e.span with
  | some span => e.message ++ " at " ++ toString span.start ++ ".." ++ toString span.end
  | none => e.message

end RcError

structure RcStatus where
  text : String
  deriving DecidableEq, Repr

namespace RcStatus

def success : RcStatus := ⟨""⟩

def failure : RcStatus := ⟨"false"⟩

/-- A pipeline status succeeds when every part of it does. -/
def isSuccess (s : RcStatus) : Bool :=
  s.text == "" || s.text == "0" ||
    ('|' ∈ s.text.toList &&
      (s.text.toList.splitOn '|').all fun part => part == [] || part == ['0'])

def invert (s : RcStatus) : RcStatus := if s.isSuccess then failure else success

/-- The text of a status inside a pipeline status, and as it is displayed. -/
def display (s : RcStatus) : String := if s.text = "" then "0" else s.text

def pipeline (left right : RcStatus) : RcStatus := ⟨left.display ++ "|" ++ right.display⟩

end RcStatus

structure RcOutput where
  status : RcStatus
  stdout : String
  stderr : String
  exited : Bool
  deriving DecidableEq, Repr

namespace RcOutput

protected def default : RcOutput := { status := .success, stdout := "", stderr := "", exited := false }

def success (stdout : String) : RcOutput := { status := .success, stdout, stderr := "", exited := false }

def failure (status stderr : String) : RcOutput := { status := ⟨status⟩, stdout := "", stderr, exited := false }

end RcOutput

/-- The raw text of a word, before expansion. -/
structure Word where
  raw : String
  deriving DecidableEq, Repr

structure Assignment where
  name : String
  values : List Word
  deriving DecidableEq, Repr

structure PipeSpec where
  fromFd : Nat
  toFd : Nat
  deriving DecidableEq, Repr

inductive RedirectMode where
  | read
  | write
  | append
  | here
  | dup (source : Option Nat)
  deriving DecidableEq, Repr

structure HereDoc where
  body : String
  expand : Bool
  deriving DecidableEq, Repr

mutual

inductive Node where
  | empty
  | simple (command : SimpleCommand)
  | block (nodes : List Node)
  | sequence (nodes : List Node)
  | and (left right : Node)
  | or (left right : Node)
  | pipe (left right : Node) (spec : Option PipeSpec)
  | not (inner : Node)
  | background (inner : Node)
  | ite (condition thenBranch : Node) (elseBranch : Option Node)
  | for (var : String) (values : List Word) (body : Node)
  | while (condition body : Node)
  | switch (value : Word) (cases : List SwitchCase)
  | function (name : String) (body : Option Node)

inductive SimpleCommand where
  | mk (assignments : List Assignment) (words : List Word) (redirects : List Redirect)

inductive SwitchCase where
  | mk (patterns : List Word) (body : List Node)

inductive RedirectTarget where
  | word (word : Word)
  | process (node : Node)
  | hereDoc (doc : HereDoc)

inductive Redirect where
  | mk (fd : Nat) (mode : RedirectMode) (target : Option RedirectTarget)

end

namespace SimpleCommand

def assignments : SimpleCommand → List Assignment
  | mk assignments _ _ => assignments

def words : SimpleCommand → List Word
  | mk _ words _ => words

def redirects : SimpleCommand → List Redirect
  | mk _ _ redirects => redirects

end SimpleCommand

namespace SwitchCase

def patterns : SwitchCase → List Word
  | mk patterns _ => patterns

def body : SwitchCase → List Node
  | mk _ body => body

end SwitchCase

namespace Redirect

def fd : Redirect → Nat
  | mk fd _ _ => fd

def mode : Redirect → RedirectMode
  | mk _ mode _ => mode

def target : Redirect → Option RedirectTarget
  | mk _ _ target => target

end Redirect

structure Script where
  commands : List Node

/-- A simple command that is only words. -/
def Node.ofWords (words : List String) : Node := .simple (.mk [] (words.map Word.mk) [])

def joinWith (sep : String) (parts : List String) : String := sep.intercalate parts

def renderWord (word : Word) : String := word.raw

def renderAssignment (a : Assignment) : String :=
  if a.values.isEmpty then a.name ++ "=()"
  else a.name ++ "=(" ++ joinWith " " (a.values.map renderWord) ++ ")"

def renderPipe : Option PipeSpec → String
  | some spec =>
    if spec.toFd = 0 then "|[" ++ toString spec.fromFd ++ "]"
    else "|[" ++ toString spec.fromFd ++ "=" ++ toString spec.toFd ++ "]"
  | none => "|"

def renderMode (fd : Nat) : RedirectMode → String
  | .read => "<"
  | .write => ">"
  | .append => ">>"
  | .here => "<<"
  | .dup (some source) => ">[" ++ toString fd ++ "=" ++ toString source ++ "]"
  | .dup none => ">[" ++ toString fd ++ "=]"

mutual

def renderNode : Node → String
  | .empty => ""
  | .simple (.mk assignments words redirects) =>
    joinWith " " (assignments.map renderAssignment ++ words.map renderWord ++ renderRedirects redirects)
  | .block nodes => "\x7b " ++ joinWith "; " (renderNodes nodes) ++ " \x7d"
  | .sequence nodes => "\x7b " ++ joinWith "; " (renderNodes nodes) ++ " \x7d"
  | .and left right => renderNode left ++ " && " ++ renderNode right
  | .or left right => renderNode left ++ " || " ++ renderNode right
  | .pipe left right spec => renderNode left ++ " " ++ renderPipe spec ++ " " ++ renderNode right
  | .not inner => "! " ++ renderNode inner
  | .background inner => renderNode inner ++ " &"
  | .ite condition thenBranch none => "if(" ++ renderNode condition ++ ") " ++ renderNode thenBranch
  | .ite condition thenBranch (some elseBranch) =>
    "if(" ++ renderNode condition ++ ") " ++ renderNode thenBranch ++ " if not " ++ renderNode elseBranch
  | .for var values body =>
    let shown := joinWith " " (values.map renderWord)
    if shown = "" then "for(" ++ var ++ ") " ++ renderNode body
    else "for(" ++ var ++ " in " ++ shown ++ ") " ++ renderNode body
  | .while condition body => "while(" ++ renderNode condition ++ ") " ++ renderNode body
  | .switch value cases =>
    "switch(" ++ renderWord value ++ ")\x7b\n" ++ joinWith "\n" (renderCases cases) ++ "\n\x7d"
  | .function name (some body) => "fn " ++ name ++ " " ++ renderNode body
  | .function name none => "fn " ++ name

def renderNodes : List Node → List String
  | [] => []
  | node :: nodes => renderNode node :: renderNodes nodes

def renderCases : List SwitchCase → List String
  | [] => []
  | .mk patterns body :: cases =>
    ("case " ++ joinWith " " (patterns.map renderWord) ++ "\n" ++ joinWith "; " (renderNodes body)) ::
      renderCases cases

def renderRedirects : List Redirect → List String
  | [] => []
  | .mk fd mode target :: redirects => (renderMode fd mode ++ renderTarget target) :: renderRedirects redirects

def renderTarget : Option RedirectTarget → String
  | some (.word word) => renderWord word
  | some (.process node) => renderNode node
  | some (.hereDoc _) => "<here-doc>"
  | none => ""

end

end Star9.Rc
