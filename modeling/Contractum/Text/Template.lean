import Contractum.Text.Objects

/-!
# Message templates

A template is a text with fields in braces, and doubled braces are braces. A field names an
argument, by its position or as the next one, and a part of it, which may be an object of
another kind than texts; how it is quoted; and its layout. The layout may hold fields of its
own.

A template can fail: at a brace that opens or closes no field, at a field that is not
written correctly, at an argument or a part that is not there, at an object that cannot be
shown, and where the two ways of naming arguments are mixed. The leftmost fault counts.
-/

namespace Contractum.Text

namespace Template

/-- An empty field, which takes the next argument. -/
def hole : String := "\x7b\x7d"

/-- The character that opens a field. -/
def openBrace : Char := '\x7b'

/-- The character that closes a field. -/
def closeBrace : Char := '\x7d'

/-- A field between its braces, not yet looked into. -/
structure Field where
  name : List Char
  quoting : Option Char
  layout : List Char
deriving DecidableEq, Repr

/-- How many characters at the front of a text name an argument. What stands in brackets
belongs to the name, whatever it is. -/
def nameWidth : Bool → List Char → Nat
  | _, [] => 0
  | true, c :: cs => nameWidth (c != ']') cs + 1
  | false, c :: cs =>
    if c = openBrace || c = closeBrace || c = ':' || c = '!' then 0
    else nameWidth (c == '[') cs + 1

/-- How many characters at the front of a text belong to the layout of a field, in which
`opened` braces are still to be closed. -/
def layoutWidth : Nat → List Char → Nat
  | _, [] => 0
  | opened, c :: cs =>
    if c = closeBrace then
      match opened with
      | 0 => 0
      | opened + 1 => layoutWidth opened cs + 1
    else layoutWidth (if c = openBrace then opened + 1 else opened) cs + 1

/-- The field of this name and quoting whose layout a text begins with, and what follows. -/
def readLayout (name : List Char) (quoting : Option Char) (cs : List Char) :
    Except TemplateFault (Field × List Char) :=
  match cs.drop (layoutWidth 0 cs) with
  | [] => .error .unclosedLayout
  | _ :: rest => .ok (⟨name, quoting, cs.take (layoutWidth 0 cs)⟩, rest)

/-- The field of this name whose way of quoting a text begins with, and what follows. -/
def readQuoting (name : List Char) : List Char → Except TemplateFault (Field × List Char)
  | [] => .error .endAtQuoting
  | [_] => .error .unclosedLayout
  | quoting :: next :: rest =>
    if next = closeBrace then .ok (⟨name, some quoting, []⟩, rest)
    else if next = ':' then readLayout name (some quoting) rest
    else .error .behindQuoting

/-- The field that a text begins with, behind its opening brace, and what follows it. -/
def readField (cs : List Char) : Except TemplateFault (Field × List Char) :=
  let name := cs.take (nameWidth false cs)
  match cs.drop (nameWidth false cs) with
  | [] => .error .unclosed
  | last :: rest =>
    if last = openBrace then .error .nestedBrace
    else if last = closeBrace then .ok (⟨name, none, []⟩, rest)
    else if last = ':' then readLayout name none rest
    else readQuoting name rest

/-- How the arguments met so far were named. -/
inductive Numbering where
  | undecided
  | next (index : Nat)
  | numbered
deriving DecidableEq, Repr

/-- The position of the next argument, and the numbering behind it. -/
def Numbering.takeNext : Numbering → Except TemplateFault (Nat × Numbering)
  | undecided => .ok (0, next 1)
  | next index => .ok (index, next (index + 1))
  | numbered => .error .numberedThenNext

/-- The numbering behind an argument that was named by its position. -/
def Numbering.takeNumbered : Numbering → Except TemplateFault Numbering
  | next _ => .error .nextThenNumbered
  | _ => .ok numbered

/-- The position that a text writes, if it is all digits. -/
def position? (cs : List Char) : Except TemplateFault (Option Nat) := do
  let (count, rest) ← (readCount cs).mapError .layout
  return if rest.isEmpty then count else none

/-- The argument that a name takes, and the numbering behind it. -/
def argument (args : List String) (numbering : Numbering) (name : List Char) :
    Except TemplateFault (List Char × Numbering) := do
  let (index, numbering) ← match ← position? name with
    | some index => do pure (index, ← numbering.takeNumbered)
    | none =>
      if name.isEmpty then numbering.takeNext
      else throw (.unknownName (String.ofList name))
  match args[index]? with
  | some arg => return (arg.toList, numbering)
  | none => throw (.missing index)

/-- The characters that begin the name of a part. -/
def beginsPart (c : Char) : Bool :=
  c == '.' || c == '['

/-- The item of a value in brackets, which are named by positions or by keys. The items of a
text are its characters. -/
def item (objects : Objects) : Value → Key → Except TemplateFault Value
  | .object handle, key => objects.itemOf handle key
  | .text _, .name _ => .error .namedPart
  | .text cs, .position index =>
    match cs[index]? with
    | some c => .ok (.text [c])
    | none => .error .missingPart

/-- The part of a value that a name describes: attributes behind points and items in
brackets, one part of another. -/
def part (objects : Objects) (value : Value) : List Char → Except TemplateFault Value
  | [] => .ok value
  | c :: cs =>
    if c = '.' then do
      let name := cs.takeWhile (!beginsPart ·)
      if name.isEmpty then throw .emptyPart
      let value ← objects.attributeOf value (String.ofList name)
      part objects value (cs.drop name.length)
    else if c = '[' then do
      let name := cs.takeWhile (· != ']')
      let index ← position? name
      if name.isEmpty then throw .emptyPart
      let key := (index.map Key.position).getD (.name (String.ofList name))
      let value ← item objects value key
      part objects value (cs.drop (name.length + 1))
    else .error .behindPart
termination_by cs => cs.length
decreasing_by all_goals simp only [List.length_drop, List.length_cons]; omega

/-- The text of a value in a way of quoting. -/
def shown (objects : Objects) (quoting : Quoting) : Value → Except TemplateFault (List Char)
  | .object handle => objects.textOf handle quoting
  | .text cs => .ok (quoting.apply cs)

/-- A value in the way of quoting that a field asks for, which may be none. -/
def quoted (objects : Objects) (value : Value) : Option Char → Except TemplateFault Value
  | none | some '\x00' => .ok value
  | some 's' => Value.text <$> shown objects .plain value
  | some 'r' => Value.text <$> shown objects .quoted value
  | some 'a' => Value.text <$> shown objects .escaped value
  | some c => .error (.unknownQuoting c)

/-- What a field shows before it is laid out, and the numbering behind it. -/
def Field.value (objects : Objects) (args : List String) (numbering : Numbering)
    (field : Field) : Except TemplateFault (Value × Numbering) := do
  let first := field.name.takeWhile (!beginsPart ·)
  let (arg, numbering) ← argument args numbering first
  let value ← part objects (.text arg) (field.name.drop first.length)
  return (← quoted objects value field.quoting, numbering)

/-- A value as the code of a layout lays it out. Objects have codes of their own. -/
def layOut (objects : Objects) (code : List Char) : Value → Except TemplateFault (List Char)
  | .object handle => objects.layoutOf handle code
  | .text cs => do
    let layout ← (Layout.ofCode code).mapError .layout
    return layout.apply cs

theorem length_of_readLayout {name cs rest : List Char} {quoting : Option Char} {field : Field}
    (h : readLayout name quoting cs = .ok (field, rest)) : rest.length < cs.length := by
  unfold readLayout at h
  split at h
  · simp at h
  · rename_i heq
    simp only [Except.ok.injEq, Prod.mk.injEq] at h
    obtain ⟨-, rfl⟩ := h
    have := congrArg List.length heq
    simp only [List.length_drop, List.length_cons] at this
    omega

theorem length_of_readQuoting {name cs rest : List Char} {field : Field}
    (h : readQuoting name cs = .ok (field, rest)) : rest.length < cs.length := by
  unfold readQuoting at h
  split at h
  · simp at h
  · simp at h
  · split at h
    · simp only [Except.ok.injEq, Prod.mk.injEq] at h
      obtain ⟨-, rfl⟩ := h
      simp only [List.length_cons]
      omega
    · split at h
      · exact Nat.lt_succ_of_lt (Nat.lt_succ_of_lt (length_of_readLayout h))
      · simp at h

/-- A field takes up characters, so a text with fewer characters follows it. -/
theorem length_of_readField {cs rest : List Char} {field : Field}
    (h : readField cs = .ok (field, rest)) : rest.length < cs.length := by
  unfold readField at h
  split at h
  · simp at h
  · rename_i last tail heq
    have hlen : tail.length < cs.length := by
      have := congrArg List.length heq
      simp only [List.length_drop, List.length_cons] at this
      omega
    split at h
    · simp at h
    · split at h
      · simp only [Except.ok.injEq, Prod.mk.injEq] at h
        exact h.2 ▸ hlen
      · split at h
        · exact Nat.lt_trans (length_of_readLayout h) hlen
        · exact Nat.lt_trans (length_of_readQuoting h) hlen

/-- Fills the fields of a text, in which fields may stand inside the layouts of fields for
`depth` more levels. -/
def fillFrom (objects : Objects) (args : List String) (depth : Nat) (numbering : Numbering)
    (cs : List Char) : Except TemplateFault (List Char × Numbering) :=
  match cs with
  | [] => .ok ([], numbering)
  | c :: cs =>
    if c = openBrace || c = closeBrace then
      match cs with
      | [] => .error (.loneBrace c)
      | d :: cs =>
        if d = c then do
          let (text, numbering) ← fillFrom objects args depth numbering cs
          return (c :: text, numbering)
        else if c = closeBrace then .error (.loneBrace c)
        else
          match h : readField (d :: cs) with
          | .error fault => .error fault
          | .ok (field, rest) => do
            have : rest.length < cs.length + 1 := length_of_readField h
            let (value, numbering) ← field.value objects args numbering
            let (code, numbering) ←
              if field.layout.contains openBrace then
                match depth with
                | 0 => throw .tooDeep
                | depth + 1 => fillFrom objects args depth numbering field.layout
              else pure (field.layout, numbering)
            let shown ← layOut objects code value
            let (text, numbering) ← fillFrom objects args depth numbering rest
            return (shown ++ text, numbering)
    else do
      let (text, numbering) ← fillFrom objects args depth numbering cs
      return (c :: text, numbering)
termination_by (depth, cs.length)

/-- The template with its fields filled. -/
def fill (objects : Objects) (template : String) (args : List String) :
    Except TemplateFault String := do
  let (text, _) ← fillFrom objects args 1 .undecided template.toList
  return String.ofList text

end Template

end Contractum.Text
