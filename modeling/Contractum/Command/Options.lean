import Contractum.Text.Integer
import Contractum.Text.Quoted

/-!
# Command-line options

The command line holds one term at most and options in any order. Options may be
shortened as long as they stay unambiguous, and a value may be joined to its option by an
equals sign. Behind a separator nothing is an option.

What begins with a dash is still no option when it is a negative number or holds a blank,
so most terms can be written without a separator.
-/

namespace Contractum

open Text

/-- What the command line asks for. -/
structure Options where
  term : Option String := none
  steps : List Int := []
  tree : Bool := false
  trace : Bool := false
deriving DecidableEq, Repr

/-- The reasons why a command line starts nothing. -/
inductive OptionsExit where
  /-- Help was asked for. -/
  | help
  /-- The command line is refused. -/
  | refused (message : String)
deriving DecidableEq, Repr

namespace Options

/-- The usage line. -/
def usage : String :=
  "usage: rewriter [-h] [--step N] [--tree] [--trace] [term]\n"

/-- The help text. -/
def helpText : String :=
  usage ++ "\n" ++
    "Click-to-reduce rewriter for a small lambda calculus.\n\n" ++
    "positional arguments:\n" ++
    "  term        term to rewrite (if empty, goes to interactive mode)\n\n" ++
    "options:\n" ++
    "  -h, --help  show this help message and exit\n" ++
    "  --step N    reduce redex number N of the current term (repeatable)\n" ++
    "  --tree      display the parse tree of the result\n" ++
    "  --trace     print every reduction step as it is taken\n"

/-- The options without a value. -/
inductive Flag where
  | help
  | tree
  | trace
deriving DecidableEq, Repr

/-- How an option is named in a message. -/
def Flag.title : Flag → String
  | help => "-h/--help"
  | tree => "--tree"
  | trace => "--trace"

/-- An argument of the command line by itself. An option comes with the value that is joined
to it, if there is one: behind an equals sign, or right behind the letter of the short one. -/
inductive Argument where
  | separator
  | plain (text : String)
  | short (value : Option (List Char))
  | step (value : Option String)
  | flag (f : Flag) (value : Option String)
  | unknown (text : String)
deriving DecidableEq, Repr

/-- The long options in the order in which they are listed. None begins another. -/
def longOptions : List (String × (Option String → Argument)) :=
  [("--help", .flag .help), ("--step", .step), ("--tree", .flag .tree), ("--trace", .flag .trace)]

/-- What stands before and, if there is one, behind the first equals sign. -/
def splitEquals (cs : List Char) : List Char × Option String :=
  match cs.dropWhile (· != '=') with
  | [] => (cs, none)
  | _ :: value => (cs.takeWhile (· != '='), some (String.ofList value))

/-- Digits, perhaps in front of a final line feed. -/
def allDigits (cs : List Char) : Bool :=
  !cs.isEmpty && cs.all isDigit

/-- A text without the line feed at its end. -/
def dropFinalFeed (cs : List Char) : List Char :=
  if cs.getLast? = some '\n' then cs.dropLast else cs

/-- Whether the characters behind a dash make a negative number, whole or with a point. -/
def isNumber (cs : List Char) : Bool :=
  let cs := dropFinalFeed cs
  allDigits cs ||
    match cs.dropWhile isDigit with
    | '.' :: digits => allDigits digits
    | _ => false

/-- An argument that is no option: plain if it is a negative number or holds a blank. -/
def otherwise (cs : List Char) : Argument :=
  if isNumber (cs.drop 1) || cs.contains ' ' then .plain (String.ofList cs)
  else .unknown (String.ofList cs)

/-- Reads an argument that begins with two dashes and is no separator. -/
def classifyLong (cs : List Char) : Except OptionsExit Argument :=
  let (name, value) := splitEquals cs
  match longOptions.filter fun entry => name.isPrefixOf entry.1.toList with
  | [] => .ok (otherwise cs)
  | [(_, make)] => .ok (make value)
  | entries =>
    .error (.refused ("ambiguous option: " ++ String.ofList cs ++ " could match " ++
      ", ".intercalate (entries.map (·.1))))

/-- Reads an argument that stands before every separator. -/
def classify (arg : String) : Except OptionsExit Argument :=
  match arg.toList with
  | ['-'] => .ok (.plain arg)
  | ['-', 'h'] => .ok (.short none)
  | '-' :: 'h' :: '=' :: value => .ok (.short (some value))
  | '-' :: 'h' :: value => .ok (.short (some value))
  | '-' :: '-' :: rest => classifyLong ('-' :: '-' :: rest)
  | '-' :: rest => .ok (otherwise ('-' :: rest))
  | _ => .ok (.plain arg)

/-- Reads all arguments. Behind the first separator they are plain. -/
def classifyAll : List String → Except OptionsExit (List Argument)
  | [] => .ok []
  | arg :: args =>
    if arg = "--" then .ok (.separator :: args.map .plain)
    else do return (← classify arg) :: (← classifyAll args)

/-- Refuses the value joined to an option. -/
def ignoredValue (f : Flag) (value : String) : OptionsExit :=
  .refused ("argument " ++ f.title ++ ": ignored explicit argument " ++ quote value)

/-- The exit that the short option leads to: help, unless a value is joined to it. Its own
letter in front of a value repeats the option and is no part of the value. -/
def shortExit : Option (List Char) → OptionsExit
  | none => .help
  | some value =>
    match value.dropWhile (· == 'h') with
    | [] => if value.isEmpty then ignoredValue .help "" else .help
    | rest => ignoredValue .help (String.ofList rest)

/-- A step of this number. -/
def addStep (options : Options) (value : String) : Except OptionsExit Options :=
  match readInt value with
  | .ok n => .ok { options with steps := options.steps ++ [n] }
  | .error _ => .error (.refused ("argument --step: invalid int value: " ++ quote value))

/-- An option without a value. -/
def addFlag (options : Options) (f : Flag) (value : Option String) :
    Except OptionsExit Options :=
  match value, f with
  | some value, f => .error (ignoredValue f value)
  | none, .help => .error .help
  | none, .tree => .ok { options with tree := true }
  | none, .trace => .ok { options with trace := true }

/-- Takes the arguments from left to right. The place of the term is taken by the first
plain argument, and with it a separator beside it; what finds no place is left over. -/
def take (options : Options) (placed : Bool) (extras : List String) :
    List Argument → Except OptionsExit Options
  | [] =>
    if extras.isEmpty then .ok options
    else .error (.refused ("unrecognized arguments: " ++ " ".intercalate extras))
  | .plain text :: .separator :: rest =>
    if placed then take options true (extras ++ [text, "--"]) rest
    else take { options with term := some text } true extras rest
  | .plain text :: rest =>
    if placed then take options true (extras ++ [text]) rest
    else take { options with term := some text } true extras rest
  | .separator :: .plain text :: rest =>
    if placed then take options true (extras ++ ["--", text]) rest
    else take { options with term := some text } true extras rest
  | .separator :: rest =>
    if placed then take options true (extras ++ ["--"]) rest
    else take options true extras rest
  | .unknown text :: rest => take options placed (extras ++ [text]) rest
  | .short value :: _ => .error (shortExit value)
  | .step (some value) :: rest => do take (← options.addStep value) placed extras rest
  | .step none :: .plain text :: rest => do take (← options.addStep text) placed extras rest
  | .step none :: _ => .error (.refused "argument --step: expected one argument")
  | .flag f value :: rest => do take (← options.addFlag f value) placed extras rest

/-- The options of a command line. -/
def ofArguments (args : List String) : Except OptionsExit Options := do
  take {} false [] (← classifyAll args)

end Options

end Contractum
