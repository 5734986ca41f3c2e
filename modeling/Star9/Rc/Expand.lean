import Star9.Base.Text
import Star9.Core.Path
import Star9.Rc.Host

/-!
# Sessions and word expansion

The text functions of the rc crate, the environment a session shares with its
host, and the expansion of words: quotes, variables, command substitutions,
concatenation and globbing. Texts are scanned as character lists; a scanner
returns the characters it left and the index they start at.
-/
namespace Star9.Rc
open Base Prog

/-! ## Text -/

def trimEndSlash (s : String) : String := String.ofList (s.toList.rdropWhile (· == '/'))

def joinPath (base leaf : String) : String :=
  if base = "" ∨ base = "." then leaf
  else if leaf = "" then base
  else trimEndSlash base ++ "/" ++ leaf

def isNullPath (path : String) : Bool :=
  path = "/dev/null" || path = "dev/null" || path = "#null" || path = "#null/null"

def isHostExecutablePath (path : String) : Bool :=
  endsWith path ".wasm" || endsWith path ".wat" || endsWith path ".js" || endsWith path ".mjs"

def isHostExecutable (path : String) (bytes : Bytes) : Bool :=
  [0, 0x61, 0x73, 0x6d].isPrefixOf bytes || isHostExecutablePath path

def hasGlobChars (value : String) : Bool := value.toList.any fun ch => ch = '*' || ch = '?' || ch = '['

def charClassMembers (value : Char) : List Char → Bool
  | a :: '-' :: b :: rest => (a ≤ value && value ≤ b) || charClassMembers value rest
  | a :: rest => a = value || charClassMembers value rest
  | [] => false

def charClassMatch (cls : List Char) (value : Char) : Bool :=
  match cls with
  | '~' :: rest => !charClassMembers value rest
  | _ => charClassMembers value cls

/-- Each call drops a character of the pattern or of the value, so `fuel` never
runs out when it starts at the sum of their lengths. -/
def patternMatchInner : Nat → List Char → List Char → Bool
  | _, [], value => value.isEmpty
  | 0, _ :: _, _ => false
  | fuel + 1, '*' :: pattern, value =>
    patternMatchInner fuel pattern value ||
      match value with
      | [] => false
      | _ :: rest => patternMatchInner fuel ('*' :: pattern) rest
  | fuel + 1, '?' :: pattern, value =>
    match value with
    | [] => false
    | _ :: rest => patternMatchInner fuel pattern rest
  | fuel + 1, '[' :: pattern, value =>
    match value with
    | [] => false
    | v :: rest =>
      if ']' ∈ pattern then
        charClassMatch (pattern.takeWhile (· ≠ ']')) v &&
          patternMatchInner fuel ((pattern.dropWhile (· ≠ ']')).drop 1) rest
      else v = '[' && patternMatchInner fuel pattern rest
  | fuel + 1, ch :: pattern, value =>
    match value with
    | [] => false
    | v :: rest => ch = v && patternMatchInner fuel pattern rest

def patternMatch (pattern value : String) : Bool :=
  patternMatchInner (pattern.toList.length + value.toList.length) pattern.toList value.toList

/-! ## Scanners -/

/-- `quoted` says whether the scan is inside a quote, where a caret is text. A
doubled quote inside a quote closes and opens it again. -/
def splitCaretParts (quoted : Bool) (current : List Char) : List Char → List (List Char)
  | [] => [current.reverse]
  | ch :: rest =>
    if ch = '\'' then splitCaretParts (!quoted) (ch :: current) rest
    else if ch = '^' ∧ !quoted then current.reverse :: splitCaretParts quoted [] rest
    else splitCaretParts quoted (ch :: current) rest

def concatValues (left right : List String) : List String := left.flatMap fun l => right.map fun r => l ++ r

def readQuotedLiteral (out : List Char) : List Char → Nat → Except RcError (String × List Char × Nat)
  | [], _ => .error (.new "unterminated quote")
  | '\'' :: '\'' :: rest, i => readQuotedLiteral ('\'' :: out) rest (i + 2)
  | '\'' :: rest, i => .ok (String.ofList out.reverse, rest, i + 1)
  | ch :: rest, i => readQuotedLiteral (ch :: out) rest (i + 1)

/-- Scans from the backquote at `span.start`; `span.end` is the length of the text. -/
def readBracedSubstitution (span : Span) (depth : Int) (quoted : Bool) (out : List Char) :
    List Char → Nat → Except RcError (List Char × List Char × Nat)
  | [], _ => .error (.at "unterminated command substitution" span)
  | ch :: rest, i =>
    if ch = '\'' then readBracedSubstitution span depth (!quoted) (ch :: out) rest (i + 1)
    else if quoted then readBracedSubstitution span depth quoted (ch :: out) rest (i + 1)
    else if ch = '\x7b' then readBracedSubstitution span (depth + 1) quoted (ch :: out) rest (i + 1)
    else if ch = '\x7d' then
      if depth - 1 = 0 then .ok ((ch :: out).reverse, rest, i + 1)
      else readBracedSubstitution span (depth - 1) quoted (ch :: out) rest (i + 1)
    else readBracedSubstitution span depth quoted (ch :: out) rest (i + 1)

def extractCommandSubstitution (total : Nat) (chars : List Char) (start : Nat) :
    Except RcError (String × List Char × Nat) := do
  let (raw, rest, next) ← readBracedSubstitution ⟨start, total⟩ 0 false [] chars start
  pure (String.ofList (raw.drop 2).dropLast, rest, next)

def splitIfs (value : String) (ifs : List String) : List String :=
  let chars := (ifs.head?.getD " \t\n").toList
  ((value.toList.splitOnP fun ch => ch ∈ chars).filter (· ≠ [])).map String.ofList

def selectSubscripts (values : List String) (subs : List Char) : List String :=
  (splitWhitespace subs).filterMap fun sub =>
    match parseUnsigned 64 sub with
    | some index => if 0 < index then values[index - 1]? else none
    | none => none

/-! ## Sessions -/

def BUILTINS : List String :=
  [".", "basename", "builtin", "cd", "echo", "eval", "exec", "exit", "false", "flag", "pwd", "rfork",
    "shift", "status", "test", "true", "wait", "whatis", "~"]

section
variable {H : Type}

namespace RcSession

def lookupVar (s : RcSession H) (name : String) : List String :=
  if name = "*" then s.argv
  else if name = "0" then [s.argv0]
  else if name.toList.all Char.isDigit then
    match parseUnsigned 64 name with
    | some 0 => [s.argv0]
    | some index => s.argv[index - 1]?.toList
    | none => []
  else if name = "status" then [s.lastStatus.display]
  else (s.vars[name]?).getD []

def refreshArgVars (s : RcSession H) : RcSession H := { s with vars := s.vars.insert "*" s.argv }

def exportEnvironment (s : RcSession H) : RcEnvironment :=
  let env := s.vars.toList.foldl (fun env (name, values) => env.insert name (utf8Bytes (joinWith "\x00" values))) ∅
  s.functions.toList.foldl (fun env (name, body) => env.insert ("fn#" ++ name) (utf8Bytes (renderNode body))) env

end RcSession

def restoreVar (vars : RcVars) (name : String) : Option (List String) → RcVars
  | some old => vars.insert name old
  | none => vars.erase name

variable (parse : String → Except RcError Script) (host : RcHost H)

namespace RcSession

def importFunction (name : String) (data : Bytes) (s : RcSession H) : RcSession H :=
  match utf8String? data with
  | some source =>
    match parse ("fn " ++ name ++ " " ++ source) with
    | .ok ⟨.function _ (some body) :: _⟩ => { s with functions := s.functions.insert name body }
    | _ => s
  | none => s

def importEntry (s : RcSession H) (name : String) (data : Bytes) : RcSession H :=
  match stripPrefix "fn#" name with
  | some function => s.importFunction parse function data
  | none => { s with vars := s.vars.insert name ((data.splitOn 0).map utf8Lossy) }

def importEnvironmentWithoutPublish (s : RcSession H) (env : RcEnvironment) : RcSession H :=
  (env.toList.foldl (fun s (name, data) => s.importEntry parse name data) s).refreshArgVars

def replaceEnvironmentWithoutPublish (s : RcSession H) (env : RcEnvironment) : RcSession H :=
  { s with vars := ∅, functions := ∅ }.importEnvironmentWithoutPublish parse env

end RcSession

def importHostEnvironment : RcM H Unit := do
  match ← onHost host.loadEnvironment with
  | some env => modify fun s => s.importEnvironmentWithoutPublish parse env
  | none => pure ()

def publishEnvironment : RcM H Unit := do
  let s ← get
  onHost (host.storeEnvironment s.exportEnvironment)

def setArgs (args : List String) : RcM H Unit := do
  modify fun s => { s with argv := args }.refreshArgVars
  ignore (publishEnvironment host)

/-! ## Expansion -/

def globInner (base : String) : List String → String → RcM H (List String)
  | [], pre => pure [if pre = "" then "." else pre]
  | part :: parts, pre =>
    if !hasGlobChars part then globInner (joinPath base part) parts (joinPath pre part)
    else do
      match ← attempt (onHost (host.readDir base)) with
      | .error _ => pure []
      | .ok entries =>
        let found ← entries.mapM fun entry => do
          let clean := trimEndSlash entry
          if clean.toList.head? = some '.' ∧ part.toList.head? ≠ some '.' then pure []
          else if patternMatch part clean then globInner (joinPath base clean) parts (joinPath pre clean)
          else pure []
        pure found.flatten

def glob (pattern : String) : RcM H (List String) := do
  let s ← get
  let parts := (splitSlash (trimStartSlash pattern)).filter (· ≠ "")
  let base := if startsWithSlash pattern then "." else host.currentDir s.host
  let out ← globInner host base parts ""
  pure (out.mergeSort (fun a b => decide (a ≤ b))).eraseDups

def expandGlobOrLiteral (value : String) : RcM H (List String) :=
  if !hasGlobChars value then pure [value]
  else do
    let found ← glob host value
    pure (if found.isEmpty then [value] else found)

/-- The text after a dollar sign at `start`: the values and where scanning goes on. -/
def readVariableExpansion (s : RcSession H) (chars : List Char) (start : Nat) :
    Except RcError (List String × List Char × Nat) :=
  let (count, quote, body, i) := match chars with
    | '#' :: rest => (true, false, rest, start + 2)
    | '"' :: rest => (false, true, rest, start + 2)
    | _ => (false, false, chars, start + 1)
  let name := match body with
    | '*' :: _ => ['*']
    | _ => body.takeWhile fun ch => ch.isAlphanum || ch = '_'
  if name = [] then .ok (["$"], chars, start + 1)
  else do
    let values := s.lookupVar (String.ofList name)
    let rest := body.drop name.length
    let i := i + name.length
    let (values, rest, i) ← match rest with
      | '(' :: tail =>
        if ')' ∈ tail then
          let subs := tail.takeWhile (· ≠ ')')
          pure (selectSubscripts values subs, tail.drop (subs.length + 1), i + subs.length + 2)
        else throw (RcError.new "unterminated variable subscript")
      | _ => pure (values, rest, i)
    if count then pure ([toString values.length], rest, i)
    else if quote then pure ([joinWith " " values], rest, i)
    else pure (values, rest, i)

variable (evalSource : String → RcM H RcOutput)

/-- The scan of one part of a word from index `i` on; `fuel` is the number of
characters left. -/
def expandPartFrom (total : Nat) : Nat → Nat → List Char → List String → RcM H (List String)
  | _, _, [], acc => pure acc
  | 0, _, _ :: _, acc => pure acc
  | fuel + 1, i, ch :: rest, acc =>
    if ch = '\'' then do
      let (literal, rest, i) ← Prog.ofExcept (readQuotedLiteral [] rest (i + 1))
      expandPartFrom total fuel i rest (concatValues acc [literal])
    else if ch = '$' then do
      let s ← get
      let (values, rest, i) ← Prog.ofExcept (readVariableExpansion s rest i)
      expandPartFrom total fuel i rest (concatValues acc values)
    else if ch = '\x60' ∧ rest.head? = some '\x7b' then do
      let (source, rest, i) ← Prog.ofExcept (extractCommandSubstitution total (ch :: rest) i)
      let out ← evalSource source
      let s ← get
      expandPartFrom total fuel i rest (concatValues acc (splitIfs out.stdout (s.lookupVar "ifs")))
    else expandPartFrom total fuel (i + 1) rest (concatValues acc [String.singleton ch])

def expandPart (chars : List Char) : RcM H (List String) :=
  expandPartFrom evalSource chars.length chars.length 0 chars [""]

def expandRawWord (raw : String) : RcM H (List String) :=
  (splitCaretParts false [] raw.toList).foldlM
    (fun acc part => do
      let values ← expandPart evalSource part
      pure (concatValues acc values))
    [""]

def expandWord (word : Word) : RcM H (List String) := do
  match ← attempt (expandRawWord evalSource word.raw) with
  | .ok values => pure values
  | .error err => pure ["rc-expansion-error:" ++ err.display]

def expandWords (words : List Word) : RcM H (List String) := do
  let found ← words.mapM fun word => do
    let values ← expandWord evalSource word
    let globbed ← values.mapM (expandGlobOrLiteral host)
    pure globbed.flatten
  pure found.flatten

def expandAssignments (assignments : List Assignment) : RcM H (List (String × List String)) :=
  assignments.mapM fun a => do
    let values ← if a.values.isEmpty then pure [] else expandWords host evalSource a.values
    pure (a.name, values)

end

end Star9.Rc
