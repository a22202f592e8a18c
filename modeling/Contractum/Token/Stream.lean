import Contractum.Token.Scan

/-!
# Token streams

A stream hands out the tokens of a text one by one. The current token is looked at
without being consumed, and consuming it reads the next one.

The last token is never consumed. A literal of too many digits is met when the token
before it is consumed: that token stays current, and reading goes on behind the literal.
-/

namespace Contractum

/-- A text of which the tokens up to the current one have been read. -/
structure Stream where
  text : String
  current : Located
  ahead : List Item
  pos : Nat
deriving DecidableEq, Repr

/-- The reasons why no token is handed out. -/
inductive StreamFault where
  /-- The next token would be a literal of too many digits. -/
  | tooLong (digits : Nat)
  /-- The current token is not of the kind asked for. -/
  | wrongKind (expected : String) (got : Kind) (start stop : Nat)
deriving DecidableEq, Repr

namespace Stream

/-- A text with its first token, unless that is a literal of too many digits. -/
def ofText (text : String) : Except StreamFault Stream :=
  match scan 0 text.toList with
  | .tooLong digits _ :: _ => .error (.tooLong digits)
  | .token t :: ahead => .ok ⟨text, t, ahead, t.readTo⟩
  | [] => .ok ⟨text, ⟨.finish, text.length, text.length⟩, [], text.length⟩

/-- Consumes and returns the current token. -/
def next : EStateM StreamFault Stream Located := fun s =>
  match s.ahead with
  | [] => .ok s.current s
  | .token t :: ahead => .ok s.current { s with current := t, ahead, pos := t.readTo }
  | .tooLong digits stop :: ahead => .error (.tooLong digits) { s with ahead, pos := stop }

/-- Consumes and returns the current token if it is of the named kind. -/
def expect (kind : String) : EStateM StreamFault Stream Located := do
  let t := (← get).current
  if t.token.kind.label = kind then next
  else throw (.wrongKind kind t.token.kind t.start t.markEnd)

/-- Consumes and returns at most a number of tokens, up to and including the last one. -/
def take : Nat → EStateM StreamFault Stream (List Located)
  | 0 => pure []
  | count + 1 => do
    let t ← next
    match t.token with
    | .finish | .unknown _ => return [t]
    | _ => return t :: (← take count)

/-- Consumes and returns all tokens, up to and including the last one. -/
def drain : EStateM StreamFault Stream (List Located) := do
  take ((← get).ahead.length + 1)

end Stream

/-- All tokens of a text, unless a literal among them has too many digits. -/
def Token.ofText (text : String) : Except StreamFault (List Located) :=
  (scan 0 text.toList).mapM fun
    | .token t => .ok t
    | .tooLong digits _ => .error (.tooLong digits)

end Contractum
