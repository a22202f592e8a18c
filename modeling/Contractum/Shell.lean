import Contractum.Session

/-!
# The shell

The shell takes one line at a time. A line that begins with the name of a command is that
command with the rest of the line as its argument; every other line is a term. A question
mark in front asks for help, an exclamation mark makes any line a term.

What goes wrong in a command is reported, and the shell goes on.
-/

namespace Contractum

open Text

/-- What a line leaves the shell to do. -/
inductive Reply where
  | done
  | blank
  | stop
deriving DecidableEq, Repr

/-- The commands of the shell. -/
inductive Command where
  | redexes
  | step
  | tree
  | history
  | undo
  | help
  | endOfInput
  | exit
deriving DecidableEq, Repr

namespace Command

/-- The names of the commands. -/
def name : Command → String
  | redexes => "redexes"
  | step => "step"
  | tree => "tree"
  | history => "history"
  | undo => "undo"
  | help => "help"
  | endOfInput => "EOF"
  | exit => "exit"

/-- What `help` says of a command. -/
def summary : Command → String
  | redexes => "Lists the redexes of the current term."
  | step => "step N: reduces redex number N (see 'redexes')."
  | tree => "Displays the parse tree of the current term."
  | history => "Lists the terms reduced so far, oldest first."
  | undo => "Goes back to the term before the last step."
  | help => "Doesnt return docs, but rather a short intro."
  | endOfInput => "Exits the rewriter."
  | exit => "Exits the rewriter."

/-- The commands, none left out. -/
def all : List Command := [redexes, step, tree, history, undo, help, endOfInput, exit]

/-- The command of a name. -/
def ofName? (name : String) : Option Command :=
  all.find? (·.name == name)

@[simp] theorem ofName?_name (c : Command) : ofName? c.name = some c := by
  cases c <;> decide

end Command

/-- How a line is understood. -/
inductive Request where
  | blank
  | term (text : String)
  | command (c : Command) (argument : String)
deriving DecidableEq, Repr

namespace Request

/-- The characters of a command's name: ASCII letters, digits and the underscore. -/
def isNameChar (c : Char) : Bool :=
  ('a' ≤ c && c ≤ 'z') || ('A' ≤ c && c ≤ 'Z') || ('0' ≤ c && c ≤ '9') || c == '_'

/-- A line that begins with the longest name it can, if that is the name of a command. -/
def ofNamed (line : List Char) : Request :=
  match Command.ofName? (String.ofList (line.takeWhile isNameChar)) with
  | some c => command c (String.ofList (trimWhile isBlank (line.dropWhile isNameChar)))
  | none => term (String.ofList line)

/-- The request of a line, without the blanks at its ends. -/
def ofLine (line : String) : Request :=
  match trimWhile isBlank line.toList with
  | [] => blank
  | '?' :: rest => ofNamed ("help ".toList ++ rest)
  | '!' :: rest => term (String.ofList ('!' :: rest))
  | cs => ofNamed cs

end Request

namespace Shell

/-- What the shell says before the first line. -/
def intro : String :=
  "Click-to-reduce term rewriter :: Python backend\n" ++
    "Type '?' or 'help' for more information."

/-- What the shell prints to ask for a line. -/
def prompt : String := "> "

/-- What `help` without an argument says. -/
def welcome : String :=
  "Welcome to the term rewriter!\n\n" ++
    "Enter a term such as '(\\x -> x + 1) (2 * 3)'. Terms are built from variables (which must be\n" ++
    "bound by 'let' or '\\'), Constructors, integers, application and + - * /.\n\n" ++
    "Every reducible subterm (redex) is listed with a number. 'step N' reduces redex N by one\n" ++
    "step. 'tree' shows the parse tree, 'history' the previous terms and 'undo' reverts a step."

/-- Prints a line without emphasis. -/
def printLine (text : String) : Action Unit :=
  Session.tell (Reporter.writeLine (Styled.plain text))

/-- Prints the current term and its redexes, their kinds emphasised. -/
def showTerm : Action Unit :=
  Session.showTerm .bold false

/-- Runs the body of a command and reports what goes wrong in it. -/
def reporting (act : Action Unit) : Action Reply := do
  discard (Session.guarded act)
  return .done

/-- Takes a step at the redex that an argument numbers. -/
def step (argument : String) : Action Unit := do
  match readInt argument with
  | .error _ =>
    Session.refuse
      (.general ("step expects a redex number, got '" ++ Template.hole ++ "'") [argument])
  | .ok index =>
    discard (Session.reduce index)
    showTerm

/-- Prints the tree of the current term. -/
def tree : Action Unit := do
  let work ← Session.current
  printLine (← Session.written Term.outline work.term)

/-- Prints the terms before each step, numbered from the oldest. -/
def history : Action Unit := do
  (← get).history.zipIdx.forM fun (t, index) => do
    let text ← Session.written Term.render t
    printLine ("  " ++ naturalText index ++ ": " ++ text)

/-- Prints what there is to say of a command, or an introduction. -/
def help (argument : String) : Action Unit :=
  if argument.isEmpty then printLine welcome
  else
    match Command.ofName? argument with
    | some c => printLine c.summary
    | none => printLine ("*** No help on " ++ argument)

/-- Runs a command. -/
def run (c : Command) (argument : String) : Action Reply :=
  match c with
  | .redexes => reporting showTerm
  | .step => reporting (step argument)
  | .tree => reporting tree
  | .history => do history; return .done
  | .undo => reporting (do discard Session.undo; showTerm)
  | .help => do help argument; return .done
  | .endOfInput => do printLine ""; return .stop
  | .exit => return .stop

/-- Takes a line. -/
def onLine (line : String) : Action Reply :=
  match Request.ofLine line with
  | .blank => return .blank
  | .term text => reporting (do discard (Session.submit text); showTerm)
  | .command c argument => run c argument

/-- Takes lines until one ends the shell, asking for each. The end of the lines acts as the
command of that name. -/
def loop : List String → Action Unit
  | [] => do
    Session.tell (Reporter.write (Styled.plain prompt))
    discard (onLine Command.endOfInput.name)
  | line :: lines => do
    Session.tell (Reporter.write (Styled.plain prompt))
    match ← onLine line with
    | .stop => return
    | _ => loop lines

/-- The lines of a text. A line feed ends a line and is not part of it. -/
def linesOf : List Char → List (List Char)
  | [] => []
  | c :: rest =>
    if c = '\n' then [] :: linesOf rest
    else
      match linesOf rest with
      | [] => [[c]]
      | line :: lines => (c :: line) :: lines

end Shell

end Contractum
