import Contractum.Text.Quoted
import Contractum.Text.Integer

/-!
# Tokens

A token is a mark with a fixed spelling, an identifier, a literal, the end of a text
or a character that opens no token. Errors name tokens by their kinds.

Places in a text count characters from zero, the end of a token excluded.
-/

namespace Contractum

/-- Tokens of a fixed spelling: the two keywords, the arrow and the single characters. -/
inductive Mark where
  | letWord
  | inWord
  | lambda
  | opening
  | closing
  | plus
  | minus
  | star
  | slash
  | equals
  | arrow
deriving DecidableEq, Repr

namespace Mark

/-- How a mark is written. -/
def spelling : Mark → String
  | letWord => "let"
  | inWord => "in"
  | lambda => "\\"
  | opening => "("
  | closing => ")"
  | plus => "+"
  | minus => "-"
  | star => "*"
  | slash => "/"
  | equals => "="
  | arrow => "->"

/-- The mark that a single character is. -/
def ofChar? : Char → Option Mark
  | '\\' => some lambda
  | '(' => some opening
  | ')' => some closing
  | '+' => some plus
  | '-' => some minus
  | '*' => some star
  | '/' => some slash
  | '=' => some equals
  | _ => none

/-- The keyword that an identifier is. -/
def ofWord? (word : List Char) : Option Mark :=
  if word = ['l', 'e', 't'] then some letWord
  else if word = ['i', 'n'] then some inWord
  else none

end Mark

/-- What an error says of a token: its mark, or the class it belongs to. -/
inductive Kind where
  | mark (m : Mark)
  | var
  | constr
  | literal
  | finish
  | unknown
deriving DecidableEq, Repr

/-- The name of a kind. Marks are named by their spellings. -/
def Kind.label : Kind → String
  | mark m => m.spelling
  | var => "VAR"
  | constr => "CONSTR"
  | literal => "LITERAL"
  | finish => "END"
  | unknown => "ERROR"

/-- Tokens with what they say. -/
inductive Token where
  | mark (m : Mark)
  | var (name : String)
  | constr (name : String)
  | literal (value : Nat)
  | finish
  | unknown (char : Char)
deriving DecidableEq, Repr

namespace Token

/-- The kind of a token, which forgets names, values and characters. -/
def kind : Token → Kind
  | mark m => .mark m
  | var _ => .var
  | constr _ => .constr
  | literal _ => .literal
  | finish => .finish
  | unknown _ => .unknown

/-- The kind of a token with its value, the text in quotation marks and the number bare. -/
def constructorForm (t : Token) : String :=
  let value := match t with
    | var name | constr name => ", " ++ Text.quote name
    | literal n => ", " ++ Text.naturalText n
    | unknown c => ", " ++ Text.quote (String.singleton c)
    | mark _ | finish => ""
  "Token(" ++ Text.quote t.kind.label ++ value ++ ")"

end Token

/-- A token with its place in the text. -/
structure Located where
  token : Token
  start : Nat
  stop : Nat
deriving DecidableEq, Repr

/-- Where a mark under a token ends. A token without characters is marked one character wide. -/
def Located.markEnd (t : Located) : Nat :=
  max t.stop (t.start + 1)

/-- How far a text is read once this token is the current one: behind the token, but not
behind one that ends the reading. -/
def Located.readTo (t : Located) : Nat :=
  match t.token with
  | .finish | .unknown _ => t.start
  | _ => t.stop

end Contractum
