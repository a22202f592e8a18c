import Contractum.Text.Layout
import Contractum.Text.Quoted

/-!
# Objects behind texts

Arguments of templates are texts, and the items of a text are its characters. But texts have
attributes too, and these can be objects of other kinds, with attributes and items of their
own. Which objects there are and how they are shown is not decided here: it belongs to the host
of the program, and is taken as a parameter.
-/

namespace Contractum.Text

/-- The reasons why a template cannot be filled. -/
inductive TemplateFault where
  /-- A brace that opens or closes no field. -/
  | loneBrace (brace : Char)
  /-- A field that is not closed behind its name. -/
  | unclosed
  /-- A brace in the name of a field. -/
  | nestedBrace
  /-- A text that ends where the way of quoting should stand. -/
  | endAtQuoting
  /-- Something else than a layout behind the way of quoting. -/
  | behindQuoting
  /-- A layout that is not closed. -/
  | unclosedLayout
  /-- Fields inside the layouts of fields inside layouts. -/
  | tooDeep
  /-- An argument that there is not. -/
  | missing (index : Nat)
  /-- A name, although arguments have only positions. -/
  | unknownName (name : String)
  /-- The next argument after arguments by position. -/
  | numberedThenNext
  /-- An argument by position after the next one. -/
  | nextThenNumbered
  /-- A part without a name. -/
  | emptyPart
  /-- Something else than a part behind a part in brackets. -/
  | behindPart
  /-- A character beyond the end of a text. -/
  | missingPart
  /-- A part of a text in brackets that is no position. -/
  | namedPart
  /-- A fault of an object or in the search for one. -/
  | raised (className message : String)
  /-- A way of quoting that there is not. -/
  | unknownQuoting (c : Char)
  /-- A layout that texts do not have. -/
  | layout (fault : LayoutFault)
deriving DecidableEq, Repr

namespace TemplateFault

/-- The class of errors that a fault belongs to. -/
def className : TemplateFault → String
  | missing _ | missingPart => "IndexError"
  | unknownName _ => "KeyError"
  | namedPart => "TypeError"
  | raised name _ => name
  | _ => "ValueError"

/-- What a fault says. -/
def message : TemplateFault → String
  | loneBrace brace => "Single '" ++ String.singleton brace ++ "' encountered in format string"
  | unclosed => "expected '\x7d' before end of string"
  | nestedBrace => "unexpected '\x7b' in field name"
  | endAtQuoting => "end of string while looking for conversion specifier"
  | behindQuoting => "expected ':' after conversion specifier"
  | unclosedLayout => "unmatched '\x7b' in format spec"
  | tooDeep => "Max string recursion exceeded"
  | missing index =>
    "Replacement index " ++ naturalText index ++ " out of range for positional args tuple"
  | unknownName name => quote name
  | numberedThenNext =>
    "cannot switch from manual field specification to automatic field numbering"
  | nextThenNumbered =>
    "cannot switch from automatic field numbering to manual field specification"
  | emptyPart => "Empty attribute in format string"
  | behindPart => "Only '.' or '[' may follow ']' in format field specifier"
  | missingPart => "string index out of range"
  | namedPart => "string indices must be integers, not 'str'"
  | raised _ message => message
  | unknownQuoting c => "Unknown conversion specifier " ++ codeText 127 c
  | layout fault => fault.message

end TemplateFault

/-- What a field can lead to: a text, or an object of another kind, which is known to the
host by a number. -/
inductive Value where
  | text (cs : List Char)
  | object (handle : Nat)
deriving DecidableEq, Repr

/-- What stands in brackets behind a value: a position, or anything else. -/
inductive Key where
  | position (index : Nat)
  | name (name : String)
deriving DecidableEq, Repr

/-- The ways of quoting. -/
inductive Quoting where
  | plain
  | quoted
  | escaped
deriving DecidableEq, Repr

/-- A text in a way of quoting. -/
def Quoting.apply (cs : List Char) : Quoting → List Char
  | plain => cs
  | quoted => quoteWith isPrintable cs
  | escaped => quoteWith isPlain cs

/-- The objects of a host, as far as fields can reach them. Each of these can fail. -/
structure Objects where
  /-- The attribute of a value that has this name. -/
  attributeOf : Value → String → Except TemplateFault Value
  /-- The item of an object at a key. -/
  itemOf : Nat → Key → Except TemplateFault Value
  /-- The text of an object in a way of quoting. -/
  textOf : Nat → Quoting → Except TemplateFault (List Char)
  /-- An object as the code of a layout lays it out. -/
  layoutOf : Nat → List Char → Except TemplateFault (List Char)

end Contractum.Text
