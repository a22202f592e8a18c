import Contractum.Report.Defect
import Contractum.Report.Host
import Contractum.Token.Basic

/-!
# Problems

A problem is what the library reports to its user: the rule that was broken, the text it is
about with the offending part of that text, and how it is to be shown.

The message of a problem is a template that is filled when the problem is shown, and this
can fail: a problem without a message is a defect of the program.
-/

namespace Contractum

open Text

/-- The rules that a user's input can break, with what their messages mention. -/
inductive Cause where
  /-- A rule of its own, worded by a template and its arguments. -/
  | general (template : String) (args : List String)
  /-- A rule about steps, worded by a template and its arguments. -/
  | reduction (template : String) (args : List String)
  /-- One of some kinds was expected. -/
  | expected (kinds : List String) (got : String)
  /-- A certain kind was demanded. -/
  | wrongKind (kinds : List String) (got : String)
  /-- A character opens no token. -/
  | unknownChar (kinds : List String) (char : String)
  /-- A variable is bound by no enclosing binder. -/
  | freeVariable (name : String)
  /-- A step was asked for at a node that is no redex. -/
  | notRedex (form : String)
  /-- A step would divide by zero. -/
  | divisionByZero (dividend : Int)
deriving DecidableEq, Repr

/-- What is reported to the user. The offending part of the text runs from `start` to
before `stop`. -/
structure Problem where
  cause : Cause
  text : String
  start : Int := 0
  stop : Int := text.length
  diagnosed : Bool := true
  internal : Bool := false
deriving DecidableEq, Repr

/-- The end of a part of a text, where -1 stands for the end of the text. -/
def partEnd (stop : Int) (text : String) : Int :=
  if stop = -1 then text.length else stop

namespace Cause

/-- The name of a kind in a message: classes of tokens bare, spellings in quotation marks. -/
def kindWord (kind : String) : String :=
  if kind ∈ ["END", "VAR", "CONSTR", "LITERAL"] then kind else "\"" ++ kind ++ "\""

/-- The kinds in a sentence: `a`, `a or b`, `a, b, or c`. -/
def kindList (kinds : List String) : Except Defect String :=
  match kinds.map kindWord with
  | [] => .error .listIndex
  | [kind] => .ok kind
  | [kind, other] => .ok (kind ++ " or " ++ other)
  | kind :: other :: more =>
    let words := kind :: other :: more
    .ok (", ".intercalate words.dropLast ++ ", or " ++ words.getLastD "")

/-- The template for another token than the expected ones. The text is mentioned unless it
is empty. -/
def gotTemplate (kinds : List String) (got text : String) : Except Defect String := do
  let words ← kindList kinds
  let place := if text.isEmpty then "" else " in '" ++ Template.hole ++ "'"
  return "expected " ++ words ++ ", got " ++ got ++ place

/-- A division by zero as a text. -/
def quotientText (dividend : Int) : String :=
  integerText dividend ++ " / 0"

/-- The template of the message in a problem about a text, and its arguments. -/
def wording (text : String) : Cause → Except Defect (String × List String)
  | general template args | reduction template args => .ok (template, args)
  | expected kinds got | wrongKind kinds got => do
    return (← gotTemplate kinds got text, [text])
  | unknownChar kinds _ => do
    return (← gotTemplate kinds Kind.unknown.label text, [text])
  | freeVariable name =>
    .ok ("use of free variable '" ++ Template.hole ++
      "'; free variables are not allowed, use constructors instead", [name])
  | notRedex form => .ok ("'" ++ Template.hole ++ "' is not a redex", [form])
  | divisionByZero dividend =>
    if Text.isWritable dividend then
      .ok ("division by zero in '" ++ Template.hole ++ "'", [quotientText dividend])
    else .error .unwritable

end Cause

namespace Problem

/-- A problem that a template words, about the first argument of the template. -/
def general (template : String) (args : List String) : Problem where
  cause := .general template args
  text := args.headD ""

/-- A problem about nothing that could be shown. -/
def sentence (template : String) : Problem :=
  general template [""]

/-- The same problem without a diagnosis. -/
def undiagnosed (p : Problem) : Problem :=
  { p with diagnosed := false }

/-- One of some kinds was expected. -/
def expected (kinds : List String) (got text : String) (start stop : Int) : Problem where
  cause := .expected kinds got
  text := text
  start := start
  stop := partEnd stop text

/-- A certain kind was demanded. -/
def wrongKind (kinds : List String) (got text : String) (start stop : Int) : Problem where
  cause := .wrongKind kinds got
  text := text
  start := start
  stop := partEnd stop text

/-- A character that opens no token. -/
def unknownChar (kinds : List String) (char text : String) (start : Int) : Problem where
  cause := .unknownChar kinds char
  text := text
  start := start
  stop := partEnd (start + 1) text

/-- A variable that no enclosing binder binds. Without a text, the name itself is shown. -/
def freeVariable (name text : String) (start stop : Int) : Problem :=
  if text.isEmpty then { cause := .freeVariable name, text := name, diagnosed := false }
  else { cause := .freeVariable name, text, start, stop := partEnd stop text }

/-- A step at a node that is no redex. -/
def notRedex (form : String) : Problem where
  cause := .notRedex form
  text := form
  diagnosed := false

/-- A step that would divide by zero. -/
def divisionByZero (dividend : Int) : Problem where
  cause := .divisionByZero dividend
  text := Cause.quotientText dividend
  diagnosed := false

/-- What a problem says on a host. -/
def message (host : Host) (p : Problem) : Except Defect String := do
  let (template, args) ← p.cause.wording p.text
  let shown := args.map host.painting.bold
  let said ← (Template.fill host.objects template shown).mapError .template
  match p.cause with
  | .unknownChar _ char =>
    return "unrecognized character " ++ host.painting.bold (quote char) ++ " (" ++ said ++ ")"
  | _ => return said

end Problem

end Contractum
