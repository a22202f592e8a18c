/-!
# Styled text

Messages emphasise pieces of text. How emphasis is painted, or whether it is at all, is not
decided here: it belongs to whoever writes the text out, and is taken as a parameter.
-/

namespace Contractum.Text

/-- The colours of emphasis. -/
inductive Colour where
  | red
  | magenta
deriving DecidableEq, Repr

/-- The emphasis of a piece of text. A coloured piece is bold as well. -/
inductive Style where
  | plain
  | bold
  | colour (c : Colour)
deriving DecidableEq, Repr

/-- A piece of text with its emphasis. -/
structure Span where
  style : Style
  text : String
deriving DecidableEq, Repr

/-- Pieces of text one behind the other. -/
abbrev Styled := List Span

/-- How emphasised pieces of text are painted. -/
structure Painting where
  bold : String → String
  colour : Colour → String → String

namespace Painting

/-- The painting that shows no emphasis. -/
def unpainted : Painting where
  bold text := text
  colour _ text := text

/-- A piece of text as it is written out. -/
def span (painting : Painting) (span : Span) : String :=
  match span.style with
  | .plain => span.text
  | .bold => painting.bold span.text
  | .colour c => painting.colour c span.text

@[simp] theorem unpainted_bold (text : String) : unpainted.bold text = text := rfl

@[simp] theorem unpainted_colour (c : Colour) (text : String) : unpainted.colour c text = text :=
  rfl

end Painting

namespace Styled

/-- A text without emphasis. -/
def plain (text : String) : Styled := [⟨.plain, text⟩]

/-- A bold text. -/
def bold (text : String) : Styled := [⟨.bold, text⟩]

/-- A text in a colour. -/
def colour (c : Colour) (text : String) : Styled := [⟨.colour c, text⟩]

/-- The text as it is written out. -/
def render (painting : Painting) : Styled → String
  | [] => ""
  | span :: rest => painting.span span ++ render painting rest

variable (painting : Painting)

@[simp] theorem render_append (s t : Styled) :
    render painting (s ++ t) = render painting s ++ render painting t := by
  induction s with
  | nil => simp [render]
  | cons span rest ih => simp [render, ih, String.append_assoc]

@[simp] theorem render_plain (text : String) : render painting (plain text) = text := by
  simp [render, plain, Painting.span]

@[simp] theorem render_bold (text : String) : render painting (bold text) = painting.bold text := by
  simp [render, bold, Painting.span]

@[simp] theorem render_colour (c : Colour) (text : String) :
    render painting (colour c text) = painting.colour c text := by
  simp [render, colour, Painting.span]

end Styled

end Contractum.Text
