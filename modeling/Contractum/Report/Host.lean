import Contractum.Text.Objects
import Contractum.Text.Styled

/-!
# Hosts

A program runs on a host, to which belongs how emphasis is painted and which objects there are
besides texts. Everything that is printed is a function of the host, and no property of it is
taken for granted.

The host of the program itself paints emphasis by the control sequences of terminals, or not at
all. Its objects are a small part of what there is: the class and the description of texts, and
the name of the class. Everything else counts as missing there. The other attributes of texts are
functions, which show where they stand in memory, and no two runs agree about that.
-/

namespace Contractum

open Text

/-- What belongs to whatever a program runs on. -/
structure Host where
  painting : Painting
  objects : Objects

namespace Text

/-- A text between a control sequence of terminals and the one that ends all emphasis. -/
def betweenControls (control text : String) : String :=
  control ++ text ++ "\x1b[0m"

/-- The painting of terminals. Coloured texts are bold as well. -/
def Painting.terminal : Painting where
  bold := betweenControls "\x1b[1m"
  colour
    | .red => betweenControls "\x1b[1m\x1b[31m"
    | .magenta => betweenControls "\x1b[1m\x1b[35m"

/-- The painting of a terminal that shows emphasis, or of one that does not. -/
def Painting.ofEmphasis (emphasis : Bool) : Painting :=
  if emphasis then terminal else unpainted

namespace Objects

/-- What the class of texts says about itself. -/
def description : String :=
  "str(object='') -> str\nstr(bytes_or_buffer[, encoding[, errors]]) -> str\n\n" ++
    "Create a new string object from the given object. If encoding or\n" ++
    "errors is specified, then the object must expose a data buffer\n" ++
    "that will be decoded using the given encoding and error handler.\n" ++
    "Otherwise, returns the result of object.__str__() (if defined)\nor repr(object).\n" ++
    "encoding defaults to sys.getdefaultencoding().\nerrors defaults to 'strict'."

/-- A fault in the search for an attribute, of something named so. -/
def missing (owner name : String) : TemplateFault :=
  .raised "AttributeError" (owner ++ " has no attribute '" ++ name ++ "'")

/-- The class of texts as the only object, with nothing but its name and its description. -/
def textClass : Objects where
  attributeOf
    | _, "__doc__" => .ok (.text description.toList)
    | .text _, "__class__" => .ok (.object 0)
    | .text _, name => .error (missing "'str' object" name)
    | .object _, "__name__" => .ok (.text "str".toList)
    | .object _, name => .error (missing "type object 'str'" name)
  itemOf _ _ := .error (.raised "TypeError" "type 'str' is not subscriptable")
  textOf _ _ := .ok "<class 'str'>".toList
  layoutOf
    | _, [] => .ok "<class 'str'>".toList
    | _, _ => .error (.raised "TypeError" "unsupported format string passed to type.__format__")

end Objects

end Text

/-- The host of the program, with or without emphasis. -/
def Host.ofEmphasis (emphasis : Bool) : Host where
  painting := .ofEmphasis emphasis
  objects := .textClass

/-! Where nothing but emphasis matters, a host is given by whether it shows any. -/

instance : Coe Bool Painting := ⟨.ofEmphasis⟩

instance : Coe Bool Host := ⟨.ofEmphasis⟩

end Contractum
