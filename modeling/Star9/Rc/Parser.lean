import Star9.Rc.Lexer

/-!
# From tokens to syntax trees

The parser looks at the token at its position and goes on. Its procedures call each other
through `parseCommand`; the others take it as a parameter. A budget bounds the nesting of
commands and the rounds of a loop, and a parse that runs out of it never comes back.
-/
namespace Star9.Rc
open Base Prog

structure ParserState where
  tokens : List Token
  pos : Nat
  hereDocs : Std.ExtTreeMap String HereDoc

abbrev ParserM (α : Type) := Prog ParserState RcError α

/-! ## Single tokens -/

def peek : ParserM (Option Token) := do
  let s ← get
  pure s.tokens[s.pos]?

def peekKind : ParserM (Option TokenKind) := do
  let token ← peek
  pure (token.map (·.kind))

def advance : ParserM Unit := modify fun s => { s with pos := s.pos + 1 }

def isSeparator (kind : Option TokenKind) : Bool := kind = some .semi || kind = some .newline

def skipSeparators : Nat → ParserM Unit
  | 0 => abort
  | rounds + 1 => do
    let kind ← peekKind
    if isSeparator kind then do
      advance
      skipSeparators rounds
    else pure ()

def consumeSeparator : ParserM Bool := do
  let kind ← peekKind
  if isSeparator kind then do
    advance
    pure true
  else pure false

def expectSymbol (kind : TokenKind) (label : String) : ParserM Unit := do
  match ← peek with
  | some token => if token.kind = kind then advance else throw (RcError.at ("expected " ++ label) token.span)
  | none => throw (RcError.new ("expected " ++ label))

def expectLBrace : ParserM Unit := expectSymbol .lBrace "\x7b"

def expectRBrace : ParserM Unit := expectSymbol .rBrace "\x7d"

def expectLParen : ParserM Unit := expectSymbol .lParen "("

def expectRParen : ParserM Unit := expectSymbol .rParen ")"

def expectWord (expected : String) : ParserM Unit := do
  let kind ← peekKind
  if kind = some (.word expected) then advance else throw (RcError.new ("expected " ++ expected))

def expectAnyWord : ParserM String := do
  match ← peekKind with
  | some (.word raw) => do
    advance
    pure raw
  | _ => throw (RcError.new "expected word")

def matchWord (expected : String) : ParserM Bool := do
  let kind ← peekKind
  if kind = some (.word expected) then do
    advance
    pure true
  else pure false

/-- Words up to a token that stops. -/
def wordsUntil (stop : Option TokenKind → Bool) : Nat → List Word → ParserM (List Word)
  | 0, _ => abort
  | rounds + 1, words => do
    let kind ← peekKind
    if stop kind then pure words
    else do
      let raw ← expectAnyWord
      wordsUntil stop rounds (words ++ [⟨raw⟩])

/-! ## Names -/

def isName (value : List Char) : Bool :=
  match value with
  | [] => false
  | ch :: rest => (ch.isAlpha || ch = '_' || ch = '*') && rest.all fun ch => ch.isAlphanum || ch = '_'

def parseAssignmentHead (raw : String) : Option (String × String) :=
  match splitOnce '=' raw with
  | some (name, suffix) => if isName name.toList then some (name, suffix) else none
  | none => none

/-- The names of the tokens that can stop a command without being part of it. -/
def TokenKind.debug : TokenKind → String
  | word raw => "Word(" ++ raw.quote ++ ")"
  | newline => "Newline"
  | semi => "Semi"
  | andAnd => "AndAnd"
  | orOr => "OrOr"
  | amp => "Amp"
  | pipe _ => "Pipe"
  | bang => "Bang"
  | lBrace => "LBrace"
  | rBrace => "RBrace"
  | lParen => "LParen"
  | rParen => "RParen"
  | redirect _ => "Redirect"

/-! ## Commands in a row -/

section
variable (parseCommand : ParserM Node) (budget : Nat)

def parseUnary : Nat → ParserM Node
  | 0 => abort
  | rounds + 1 => do
    let kind ← peekKind
    if kind = some .bang then do
      advance
      let inner ← parseUnary rounds
      pure (.not inner)
    else parseCommand

def pipelineLoop : Nat → Node → ParserM Node
  | 0, _ => abort
  | rounds + 1, left => do
    match ← peekKind with
    | some (.pipe spec) => do
      advance
      let right ← parseUnary parseCommand budget
      pipelineLoop rounds (.pipe left right spec)
    | _ => pure left

def parsePipeline : ParserM Node := do
  let left ← parseUnary parseCommand budget
  pipelineLoop parseCommand budget budget left

def andOrLoop : Nat → Node → ParserM Node
  | 0, _ => abort
  | rounds + 1, left => do
    match ← peekKind with
    | some .andAnd => do
      advance
      let right ← parsePipeline parseCommand budget
      andOrLoop rounds (.and left right)
    | some .orOr => do
      advance
      let right ← parsePipeline parseCommand budget
      andOrLoop rounds (.or left right)
    | _ => pure left

def parseAndOr : ParserM Node := do
  let left ← parsePipeline parseCommand budget
  andOrLoop parseCommand budget budget left

/-- The command at a token; it has to take some token with it. -/
def parseProgress (token : Token) : ParserM Node := do
  let before ← get
  let node ← parseAndOr parseCommand budget
  let after ← get
  if after.pos = before.pos then throw (RcError.at ("parser made no progress at token " ++ token.kind.debug) token.span)
  else pure node

/-- An ampersand puts the command before it into the background. -/
def parseBackground (node : Node) : ParserM Node := do
  let kind ← peekKind
  if kind = some .amp then do
    advance
    pure (.background node)
  else pure node

/-- Whether another command follows. -/
def commandFollows (stop : TokenKind → Bool) : ParserM Bool := do
  if ← consumeSeparator then do
    skipSeparators budget
    pure true
  else do
    let token ← peek
    pure (token.any fun token => !stop token.kind)

def sequenceLoop (stop : TokenKind → Bool) : Nat → List Node → ParserM (List Node)
  | 0, _ => abort
  | rounds + 1, nodes => do
    match ← peek with
    | none => pure nodes
    | some token =>
      if stop token.kind then pure nodes
      else do
        let node ← parseProgress parseCommand budget token
        let node ← parseBackground node
        if ← commandFollows budget stop then sequenceLoop stop rounds (nodes ++ [node])
        else pure (nodes ++ [node])

def parseSequenceUntil (stop : TokenKind → Bool) : ParserM (List Node) := do
  skipSeparators budget
  sequenceLoop parseCommand budget stop budget []

/-! ## Compound commands -/

def parseBlock : ParserM Node := do
  expectLBrace
  let body ← parseSequenceUntil parseCommand budget (· = .rBrace)
  expectRBrace
  pure (.block body)

def parseParenGroup : ParserM Node := do
  expectLParen
  let body ← parseSequenceUntil parseCommand budget (· = .rParen)
  expectRParen
  pure (.block body)

/-- A list of commands in parentheses that decides. -/
def parseCondition : ParserM Node := do
  expectLParen
  let condition ← parseSequenceUntil parseCommand budget (· = .rParen)
  expectRParen
  pure (.sequence condition)

/-- Whether `if not` stands here. -/
def matchIfNot : ParserM Bool := do
  if ← matchWord "if" then matchWord "not" else pure false

/-- What stands after `if not`, behind separators. Where it does not stand there the parser
goes back to the end of the first branch. -/
def parseElse : ParserM (Option Node) := do
  let beforeElse ← get
  skipSeparators budget
  if ← matchIfNot then do
    skipSeparators budget
    let branch ← parseCommand
    pure (some branch)
  else do
    modify fun s => { s with pos := beforeElse.pos }
    pure none

def parseIf : ParserM Node := do
  expectWord "if"
  let condition ← parseCondition parseCommand budget
  skipSeparators budget
  let thenBranch ← parseCommand
  let elseBranch ← parseElse parseCommand budget
  pure (.ite condition thenBranch elseBranch)

def parseWhile : ParserM Node := do
  expectWord "while"
  let condition ← parseCondition parseCommand budget
  skipSeparators budget
  let body ← parseCommand
  pure (.while condition body)

def forWords : ParserM (List Word) := do
  if ← matchWord "in" then wordsUntil (· = some .rParen) budget [] else pure []

def parseFor : ParserM Node := do
  expectWord "for"
  expectLParen
  let var ← expectAnyWord
  let values ← forWords budget
  expectRParen
  skipSeparators budget
  let body ← parseCommand
  pure (.for var values body)

def parseCase : ParserM SwitchCase := do
  expectWord "case"
  let patterns ← wordsUntil (fun kind => isSeparator kind || kind = some .rBrace || kind = none) budget []
  let _ ← consumeSeparator
  let body ← parseSequenceUntil parseCommand budget fun kind => kind = .rBrace || kind = .word "case"
  skipSeparators budget
  pure (.mk patterns body)

def casesLoop : Nat → List SwitchCase → ParserM (List SwitchCase)
  | 0, _ => abort
  | rounds + 1, cases => do
    let kind ← peekKind
    if kind = some .rBrace ∨ kind = none then pure cases
    else do
      let next ← parseCase parseCommand budget
      casesLoop rounds (cases ++ [next])

def parseSwitch : ParserM Node := do
  expectWord "switch"
  expectLParen
  let value ← expectAnyWord
  expectRParen
  skipSeparators budget
  expectLBrace
  skipSeparators budget
  let cases ← casesLoop parseCommand budget budget []
  expectRBrace
  pure (.switch ⟨value⟩ cases)

def functionBody : ParserM (Option Node) := do
  let kind ← peekKind
  if kind = some .lBrace then do
    let body ← parseBlock parseCommand budget
    pure (some body)
  else pure none

def parseFunction : ParserM Node := do
  expectWord "fn"
  let name ← expectAnyWord
  let body ← functionBody parseCommand budget
  pure (.function name body)

/-! ## Simple commands -/

def parenValues : ParserM (List Word) := do
  advance
  let values ← wordsUntil (fun kind => kind = some .rParen || kind = none) budget []
  expectRParen
  pure values

/-- The values of an assignment whose text after the equals sign is `suffix`. -/
def assignmentValues (suffix : String) : ParserM (List Word) := do
  let kind ← peekKind
  if suffix = "" ∧ kind = some .lParen then parenValues budget
  else if suffix = "" then pure []
  else pure [⟨suffix⟩]

/-- A here document goes to the redirection that names its marker first. -/
def takeHereDoc (raw : String) : ParserM RedirectTarget := do
  let s ← get
  match s.hereDocs[raw]? with
  | some doc => do
    modify fun s => { s with hereDocs := s.hereDocs.erase raw }
    pure (.hereDoc doc)
  | none => pure (.word ⟨raw⟩)

def wordTarget (mode : RedirectMode) : ParserM RedirectTarget := do
  let raw ← expectAnyWord
  if mode = .here then takeHereDoc raw else pure (.word ⟨raw⟩)

def redirectTarget (mode : RedirectMode) : ParserM RedirectTarget := do
  let kind ← peekKind
  if (mode = .read ∨ mode = .write ∨ mode = .append) ∧ kind = some .lBrace then do
    let body ← parseBlock parseCommand budget
    pure (.process body)
  else wordTarget mode

def isDup : RedirectMode → Bool
  | .dup _ => true
  | _ => false

def parseRedirection (op : RedirectOp) : ParserM Redirect := do
  if isDup op.mode then pure (.mk op.fd op.mode none)
  else do
    let target ← redirectTarget parseCommand budget op.mode
    pure (.mk op.fd op.mode (some target))

/-- The words before the first that is no assignment are assignments. -/
def assignmentHead (words : List Word) (raw : String) : Option (String × String) :=
  if words = [] then parseAssignmentHead raw else none

def simpleLoop : Nat → SimpleCommand → ParserM SimpleCommand
  | 0, _ => abort
  | rounds + 1, .mk assignments words redirects => do
    match ← peekKind with
    | some (.word raw) => do
      advance
      match assignmentHead words raw with
      | some (name, suffix) => do
        let values ← assignmentValues budget suffix
        simpleLoop rounds (.mk (assignments ++ [⟨name, values⟩]) words redirects)
      | none => simpleLoop rounds (.mk assignments (words ++ [⟨raw⟩]) redirects)
    | some (.redirect op) => do
      advance
      let redirect ← parseRedirection parseCommand budget op
      simpleLoop rounds (.mk assignments words (redirects ++ [redirect]))
    | _ => pure (.mk assignments words redirects)

/-- Nothing at all is the empty command. -/
def simpleNode : SimpleCommand → Node
  | .mk [] [] [] => .empty
  | simple => .simple simple

def parseSimple : ParserM Node := do
  let simple ← simpleLoop parseCommand budget budget (.mk [] [] [])
  pure (simpleNode simple)

/-! ## Any command -/

def commandBody : ParserM Node := do
  let kind ← peekKind
  if kind = some .lBrace then parseBlock parseCommand budget
  else if kind = some .lParen then parseParenGroup parseCommand budget
  else if kind = some (.word "if") then parseIf parseCommand budget
  else if kind = some (.word "while") then parseWhile parseCommand budget
  else if kind = some (.word "for") then parseFor parseCommand budget
  else if kind = some (.word "switch") then parseSwitch parseCommand budget
  else if kind = some (.word "fn") then parseFunction parseCommand budget
  else parseSimple parseCommand budget

end

def parseCommand : Nat → ParserM Node
  | 0 => abort
  | budget + 1 => commandBody (parseCommand budget) (budget + 1)

def parseScript (budget : Nat) : ParserM Script := do
  let commands ← parseSequenceUntil (parseCommand budget) budget fun kind => kind = .rBrace || kind = .rParen
  pure ⟨commands⟩

/-- Every token can open a level of nesting or a round of a loop. -/
def parse (source : String) : Outcome RcError Script := do
  let prepared ← prepareHereDocs source.toList
  let tokens ← lex prepared.source
  (parseScript (tokens.length + 1) ⟨tokens, 0, prepared.hereDocs⟩).1

end Star9.Rc
