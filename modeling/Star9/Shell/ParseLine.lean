import Star9.Base.Text
import Star9.Core.Basic

/-!
# Lines of the shell

A line is scanned character by character into commands of words. Quotes and backslashes take
separators into a word; a word that is empty at its end is dropped, quoted or not.
-/
namespace Star9.Shell
open Base

structure ShellCommand where
  name : String
  args : List String
  deriving DecidableEq, Repr

namespace ShellCommand

/-- The first word names the command; nothing is no command. -/
def new : List String → Option ShellCommand
  | [] => none
  | name :: args => some { name, args }

def words (command : ShellCommand) : List String := command.name :: command.args

@[simp] theorem new_words (command : ShellCommand) : new command.words = some command := rfl

theorem words_of_new {words : List String} {command : ShellCommand} (h : new words = some command) : command.words = words := by
  cases words with
  | nil => cases h
  | cons name args =>
    cases h
    rfl

end ShellCommand

inductive Quote where
  | none
  | single
  | double
  deriving DecidableEq, Repr

structure LineScan where
  commands : List ShellCommand
  words : List String
  current : List Char
  quote : Quote
  escaped : Bool
  atWordStart : Bool
  deriving DecidableEq, Repr

namespace LineScan

def start : LineScan := { commands := [], words := [], current := [], quote := .none, escaped := false, atWordStart := true }

def push (s : LineScan) (ch : Char) : LineScan := { s with current := s.current ++ [ch] }

def pushWord (s : LineScan) : LineScan :=
  if s.current = [] then s else { s with words := s.words ++ [String.ofList s.current], current := [] }

def pushCommand (s : LineScan) : LineScan := { s with commands := s.commands ++ (ShellCommand.new s.words).toList, words := [] }

end LineScan

def isCommentMarker (rest : List Char) : Bool := rest.head?.all fun next => isWhiteSpace next || next = ';'

/-- What a character outside quotes does; at a comment the line is over. -/
def scanUnquoted (s : LineScan) (ch : Char) (rest : List Char) : Option LineScan :=
  if ch = '\\' then some { s with escaped := true }
  else if ch = '\'' then some { s with quote := .single, atWordStart := false }
  else if ch = '"' then some { s with quote := .double, atWordStart := false }
  else if ch = ';' then some { s.pushWord.pushCommand with atWordStart := true }
  else if isWhiteSpace ch then some { s.pushWord with atWordStart := true }
  else if ch = '#' ∧ s.atWordStart ∧ isCommentMarker rest then none
  else some { s.push ch with atWordStart := false }

def scanChar (s : LineScan) (ch : Char) (rest : List Char) : Option LineScan :=
  if s.escaped then some { s.push ch with escaped := false, atWordStart := false }
  else
    match s.quote with
    | .single => some (if ch = '\'' then { s with quote := .none } else s.push ch)
    | .double => some (if ch = '"' then { s with quote := .none } else if ch = '\\' then { s with escaped := true } else s.push ch)
    | .none => scanUnquoted s ch rest

def scanLine (s : LineScan) : List Char → LineScan
  | [] => s
  | ch :: rest =>
    match scanChar s ch rest with
    | some s => scanLine s rest
    | none => s

/-- A backslash at the end is kept; a quote has to be closed. -/
def LineScan.finish (s : LineScan) : Except Error (List ShellCommand) :=
  let s := if s.escaped then s.push '\\' else s
  match s.quote with
  | .none => .ok s.pushWord.pushCommand.commands
  | .single => .error (.message "unterminated single quote")
  | .double => .error (.message "unterminated double quote")

def parseLine (line : String) : Except Error (List ShellCommand) := (scanLine .start line.toList).finish

/-! ## Quoting -/

/-- A quote leaves the quotes, and is escaped there. -/
def quoteChar (ch : Char) : List Char := if ch = '\'' then ['\'', '\\', '\'', '\''] else [ch]

def quoteWord (word : String) : String := String.ofList ('\'' :: word.toList.flatMap quoteChar ++ ['\''])

def commandText (command : ShellCommand) : String := " ".intercalate (command.words.map quoteWord)

def lineText (commands : List ShellCommand) : String := ";".intercalate (commands.map commandText)

/-! ## Reading what was quoted -/

/-- The scanner is in a word, outside quotes. -/
def inWord (commands : List ShellCommand) (words : List String) (current : List Char) : LineScan :=
  { commands, words, current, quote := .none, escaped := false, atWordStart := false }

section
variable {commands : List ShellCommand} {words : List String} {current : List Char}

theorem scanLine_quoted (w rest : List Char) :
    scanLine { inWord commands words current with quote := .single } (w.flatMap quoteChar ++ '\'' :: rest) =
      scanLine (inWord commands words (current ++ w)) rest := by
  induction w generalizing current with
  | nil => simp [scanLine, scanChar, inWord]
  | cons ch w ih =>
    rw [List.flatMap_cons, List.append_assoc]
    by_cases hq : ch = '\''
    · subst hq
      have hsteps : scanLine { inWord commands words current with quote := .single } (quoteChar '\'' ++ (w.flatMap quoteChar ++ '\'' :: rest)) =
          scanLine { inWord commands words (current ++ ['\'']) with quote := .single } (w.flatMap quoteChar ++ '\'' :: rest) := by
        simp [quoteChar, scanLine, scanChar, scanUnquoted, inWord, LineScan.push]
      rw [hsteps, ih]
      simp
    · have hstep : scanLine { inWord commands words current with quote := .single } (quoteChar ch ++ (w.flatMap quoteChar ++ '\'' :: rest)) =
          scanLine { inWord commands words (current ++ [ch]) with quote := .single } (w.flatMap quoteChar ++ '\'' :: rest) := by
        simp [quoteChar, hq, scanLine, scanChar, inWord, LineScan.push]
      rw [hstep, ih]
      simp

/-- The scanner takes a quoted word into what it has of the current one. -/
theorem scanLine_quoteWord (start : Bool) (word : String) (rest : List Char) :
    scanLine { inWord commands words current with atWordStart := start } ((quoteWord word).toList ++ rest) =
      scanLine (inWord commands words (current ++ word.toList)) rest := by
  have hopen : scanLine { inWord commands words current with atWordStart := start } ('\'' :: (word.toList.flatMap quoteChar ++ '\'' :: rest)) =
      scanLine { inWord commands words current with quote := .single } (word.toList.flatMap quoteChar ++ '\'' :: rest) := by
    simp [scanLine, scanChar, scanUnquoted, inWord]
  rw [quoteWord, String.toList_ofList]
  simpa using hopen.trans (scanLine_quoted word.toList rest)

theorem pushWord_inWord (word : String) :
    (inWord commands words word.toList).pushWord = inWord commands (words ++ [word].filter (· ≠ "")) [] := by
  by_cases hempty : word = ""
  · subst hempty
    simp [LineScan.pushWord, inWord]
  · have hne : word.toList ≠ [] := by simpa using hempty
    simp [LineScan.pushWord, inWord, hempty, hne]

/-- Of the words of a command those that are not empty come to what the scanner has. -/
theorem scanLine_words {ws : List String} (hws : ws ≠ []) (words : List String) (start : Bool) :
    ∃ words' current, (inWord commands words' current).pushWord = inWord commands (words ++ ws.filter (· ≠ "")) [] ∧
      ∀ rest, scanLine { inWord commands words [] with atWordStart := start } ((" ".intercalate (ws.map quoteWord)).toList ++ rest) =
        scanLine (inWord commands words' current) rest := by
  induction ws generalizing words start with
  | nil => exact absurd rfl hws
  | cons w ws ih =>
    cases ws with
    | nil =>
      refine ⟨words, w.toList, pushWord_inWord w, fun rest => ?_⟩
      rw [List.map_singleton, String.intercalate_singleton, scanLine_quoteWord, List.nil_append]
    | cons v ws =>
      obtain ⟨words', current, hpush, hscan⟩ := ih (List.cons_ne_nil v ws) (words ++ [w].filter (· ≠ "")) true
      refine ⟨words', current, ?_, fun rest => ?_⟩
      · rw [hpush, List.append_assoc, ← List.filter_append, List.singleton_append]
      · have hspace : ∀ rest, scanLine (inWord commands words w.toList) (' ' :: rest) =
            scanLine { (inWord commands words w.toList).pushWord with atWordStart := true } rest := by
          intro rest
          simp [scanLine, scanChar, scanUnquoted, inWord, isWhiteSpace]
        rw [← hscan, List.map_cons, List.map_cons, String.intercalate_cons_cons, String.toList_append, String.toList_append,
          List.append_assoc, List.append_assoc, scanLine_quoteWord, List.nil_append, ← List.map_cons]
        refine (hspace _).trans ?_
        rw [pushWord_inWord]
        rfl

theorem finish_inWord {ws : List String} (hpush : (inWord commands words current).pushWord = inWord commands ws []) :
    (inWord commands words current).finish = .ok (commands ++ (ShellCommand.new ws).toList) := by
  have hfinish : (inWord commands words current).finish = .ok (inWord commands words current).pushWord.pushCommand.commands := rfl
  rw [hfinish, hpush]
  rfl

theorem scanLine_semicolon {ws : List String} (hpush : (inWord commands words current).pushWord = inWord commands ws []) (rest : List Char) :
    scanLine (inWord commands words current) (';' :: rest) =
      scanLine { inWord (commands ++ (ShellCommand.new ws).toList) [] [] with atWordStart := true } rest := by
  have hstep : scanLine (inWord commands words current) (';' :: rest) =
      scanLine { (inWord commands words current).pushWord.pushCommand with atWordStart := true } rest := by
    simp [scanLine, scanChar, scanUnquoted, inWord]
  rw [hstep, hpush]
  rfl

/-- What the line keeps of a list of commands. -/
def keptCommands (commands : List ShellCommand) : List ShellCommand :=
  commands.filterMap fun command => ShellCommand.new (command.words.filter (· ≠ ""))

theorem scanLine_commands (todo : List ShellCommand) (commands : List ShellCommand) (start : Bool) :
    (scanLine { inWord commands [] [] with atWordStart := start } (lineText todo).toList).finish = .ok (commands ++ keptCommands todo) := by
  induction todo generalizing commands start with
  | nil => simp [lineText, scanLine, LineScan.finish, LineScan.pushWord, LineScan.pushCommand, inWord, ShellCommand.new, keptCommands]
  | cons command todo ih =>
    obtain ⟨words, current, hpush, hscan⟩ := scanLine_words (List.cons_ne_nil command.name command.args) [] start
    rw [List.nil_append] at hpush
    cases todo with
    | nil =>
      have htext : (lineText [command]).toList = (commandText command).toList ++ [] := by simp [lineText]
      rw [htext]
      exact (congrArg LineScan.finish (hscan [])).trans (finish_inWord hpush)
    | cons next todo =>
      have htext : (lineText (command :: next :: todo)).toList =
          (commandText command).toList ++ ';' :: (lineText (next :: todo)).toList := by simp [lineText]
      have hkept : keptCommands (command :: next :: todo) =
          (ShellCommand.new (command.words.filter (· ≠ ""))).toList ++ keptCommands (next :: todo) := by
        rw [keptCommands, List.filterMap_cons]
        cases ShellCommand.new (command.words.filter (· ≠ "")) <;> rfl
      rw [htext, hkept, ← List.append_assoc, ← ih _ true]
      exact congrArg LineScan.finish ((hscan _).trans (scanLine_semicolon hpush _))

theorem parseLine_lineText (commands : List ShellCommand) : parseLine (lineText commands) = .ok (keptCommands commands) :=
  scanLine_commands commands [] true

theorem keptCommands_eq_iff (commands : List ShellCommand) :
    keptCommands commands = commands ↔ ∀ command ∈ commands, ∀ word ∈ command.words, word ≠ "" := by
  constructor
  · intro h command hcommand
    rw [← h] at hcommand
    obtain ⟨source, -, hnew⟩ := List.mem_filterMap.mp hcommand
    rw [ShellCommand.words_of_new hnew]
    intro word hword
    simpa using (List.mem_filter.mp hword).2
  · intro h
    have hall : ∀ command ∈ commands, ShellCommand.new (command.words.filter (· ≠ "")) = some command := by
      intro command hcommand
      rw [List.filter_eq_self.mpr fun word hword => by simpa using h command hcommand word hword, ShellCommand.new_words]
    rw [keptCommands, List.filterMap_congr hall, List.filterMap_some]

/-- A line that quotes commands is read as these commands if and only if no word is empty. -/
theorem parseLine_roundTrip_iff (commands : List ShellCommand) :
    parseLine (lineText commands) = .ok commands ↔ ∀ command ∈ commands, ∀ word ∈ command.words, word ≠ "" := by
  rw [parseLine_lineText, Except.ok.injEq]
  exact keptCommands_eq_iff commands

/-- An empty word is lost. -/
theorem parseLine_not_roundTrip : ¬ ∀ commands : List ShellCommand, parseLine (lineText commands) = .ok commands := by
  intro h
  have hempty := h [{ name := "write", args := ["a", ""] }]
  have hline : parseLine (lineText [{ name := "write", args := ["a", ""] }]) = .ok [{ name := "write", args := ["a"] }] := by decide +kernel
  rw [hline] at hempty
  cases hempty

end

end Star9.Shell
