import Contractum.Term.Basic
import Contractum.Token.Stream

/-!
# Reading a term

A term is read by recursive descent, one rule for each tier of the grammar, loosest
first. Binder bodies reach as far to the right as they can; sums, products and
applications group to the left.

Names are resolved on the way: a rule is given the names in scope, and a variable that is
none of them is refused when it is read. Binders are numbered from zero in the order in
which they are met.

The rules call each other at most a fixed number of times between two tokens that they
consume, so the depth that `depthBound` allows is never exceeded. This depth is no more than a
measure by which the rules are seen to end. How deeply calls may be nested on the machine that
runs them is another matter: that limit is not modelled, and where it strikes, a reading ends
with `Fault.tooDeep` from outside.
-/

namespace Contractum

/-- The names in scope with the numbers of their binders, the innermost first. -/
abbrev Scope := List (String × Option Int)

/-- The reasons why a text is no term. -/
inductive ParseFault where
  /-- A character that opens no token where one of some kinds was expected. -/
  | unknownChar (expected : List Kind) (char : Char) (start : Nat)
  /-- A token of another kind than the expected ones. -/
  | unexpected (expected : List Kind) (got : Kind) (start stop : Nat)
  /-- A variable outside every binder of its name. -/
  | freeVariable (name : String) (start stop : Nat)
  /-- A token that the stream did not hand out. -/
  | stream (fault : StreamFault)
  /-- The rules have called each other more deeply than `Parse.depthBound` allows, which does not
  happen. The limit of the machine on nested calls is not meant. -/
  | tooDeep
deriving DecidableEq, Repr

/-- The tokens still to be read and the number of the next binder. -/
structure ParseState where
  stream : Stream
  count : Nat
deriving DecidableEq, Repr

/-- Readers, which leave the state they have reached also when they fail. -/
abbrev Parse := EStateM ParseFault ParseState

/-- The kinds that an atom can begin with. -/
def atomStart : List Kind := [.var, .constr, .literal, .mark .opening]

/-- The kinds that a negation or an application can begin with. -/
def unaryStart : List Kind := atomStart ++ [.mark .minus]

/-- The kinds that a term can begin with. -/
def termStart : List Kind := [.mark .letWord, .mark .lambda] ++ unaryStart

namespace Parse

/-- The current token. -/
def peek : Parse Located := do
  return (← get).stream.current

/-- Consumes the current token. -/
def next : Parse Located := fun s =>
  match s.stream.next with
  | .ok t stream => .ok t { s with stream }
  | .error fault stream => .error (.stream fault) { s with stream }

/-- Refuses the current token, since it is of none of the expected kinds. -/
def fail (expected : List Kind) : Parse α := do
  let t ← peek
  match t.token with
  | .unknown c => throw (.unknownChar expected c t.start)
  | token => throw (.unexpected expected token.kind t.start t.markEnd)

/-- Refuses the current token, since it is not of the one kind that could stand there. -/
def failKind (expected : Kind) : Parse α := do
  let t ← peek
  match t.token with
  | .unknown c => throw (.unknownChar [expected] c t.start)
  | token => throw (.stream (.wrongKind expected.label token.kind t.start t.markEnd))

/-- Consumes a mark. -/
def expect (m : Mark) : Parse Unit := do
  if (← peek).token = .mark m then discard next else failKind (.mark m)

/-- Consumes a variable and returns its name. -/
def name : Parse String := do
  match (← peek).token with
  | .var x => do discard next; return x
  | _ => failKind .var

/-- Takes the next number for a binder. -/
def newId : Parse (Option Int) :=
  modifyGet fun s => (some (s.count : Int), { s with count := s.count + 1 })

/-- The operator of a sum that a token is. -/
def sumOp? : Token → Option Op
  | .mark .plus => some .add
  | .mark .minus => some .sub
  | _ => none

/-- The operator of a product that a token is. -/
def prodOp? : Token → Option Op
  | .mark .star => some .mul
  | .mark .slash => some .div
  | _ => none

mutual

/-- A `let`, a function or a sum. -/
@[grind =] def term : Nat → Scope → Parse Term
  | 0, _ => throw .tooDeep
  | depth + 1, scope => do
    let t ← peek
    match t.token with
    | .mark .letWord => do
      discard next
      let x ← name
      let id ← newId
      expect .equals
      let value ← term depth scope
      expect .inWord
      let body ← term depth ((x, id) :: scope)
      return .letIn x value body id
    | .mark .lambda => do
      discard next
      let x ← name
      let id ← newId
      expect .arrow
      let body ← term depth ((x, id) :: scope)
      return .lam x body id
    | token => if token.kind ∈ unaryStart then sum depth scope else fail termStart

/-- Products joined by plus and minus. -/
@[grind =] def sum : Nat → Scope → Parse Term
  | 0, _ => throw .tooDeep
  | depth + 1, scope => do
    let left ← prod depth scope
    sumTail depth scope left

/-- What is joined to the left part of a sum. -/
@[grind =] def sumTail : Nat → Scope → Term → Parse Term
  | 0, _, _ => throw .tooDeep
  | depth + 1, scope, left => do
    match sumOp? (← peek).token with
    | some op => do
      discard next
      let right ← prod depth scope
      sumTail depth scope (.arith op left right)
    | none => return left

/-- Negations and applications joined by star and slash. -/
@[grind =] def prod : Nat → Scope → Parse Term
  | 0, _ => throw .tooDeep
  | depth + 1, scope => do
    let left ← unary depth scope
    prodTail depth scope left

/-- What is joined to the left part of a product. -/
@[grind =] def prodTail : Nat → Scope → Term → Parse Term
  | 0, _, _ => throw .tooDeep
  | depth + 1, scope, left => do
    match prodOp? (← peek).token with
    | some op => do
      discard next
      let right ← unary depth scope
      prodTail depth scope (.arith op left right)
    | none => return left

/-- An application behind any number of minus signs. -/
@[grind =] def unary : Nat → Scope → Parse Term
  | 0, _ => throw .tooDeep
  | depth + 1, scope => do
    let t ← peek
    match t.token with
    | .mark .minus => do
      discard next
      let operand ← unary depth scope
      return .neg operand
    | token => if token.kind ∈ atomStart then app depth scope else fail unaryStart

/-- Atoms one behind the other. -/
@[grind =] def app : Nat → Scope → Parse Term
  | 0, _ => throw .tooDeep
  | depth + 1, scope => do
    let fn ← atom depth scope
    appTail depth scope fn

/-- The arguments behind a function. -/
@[grind =] def appTail : Nat → Scope → Term → Parse Term
  | 0, _, _ => throw .tooDeep
  | depth + 1, scope, fn => do
    if (← peek).token.kind ∈ atomStart then do
      let arg ← atom depth scope
      appTail depth scope (.app fn arg)
    else return fn

/-- A variable, a constructor, a literal or a term in parentheses. -/
@[grind =] def atom : Nat → Scope → Parse Term
  | 0, _ => throw .tooDeep
  | depth + 1, scope => do
    let t ← peek
    match t.token with
    | .var x => do
      discard next
      match scope.lookup x with
      | some id => return .var x id
      | none => throw (.freeVariable x t.start t.stop)
    | .constr c => do
      discard next
      return .constr c
    | .literal n => do
      discard next
      return .lit n
    | .mark .opening => do
      discard next
      let inner ← term depth scope
      expect .closing
      return inner
    | _ => fail atomStart

end

/-- A depth that no reading of the stream reaches: the rules pass through the tiers once
for every token they consume. The limit of the machine on nested calls, which is left out here,
can be reached much earlier. -/
def depthBound (s : Stream) : Nat :=
  8 * (s.ahead.length + 2)

/-- Runs a rule with a depth that suffices for the rest of the stream. -/
def bounded (rule : Nat → Scope → Parse Term) (scope : Scope) : Parse Term := do
  rule (depthBound (← get).stream) scope

end Parse

/-- Reads a term from the tokens of a stream, and leaves what follows it. -/
def Stream.term : EStateM ParseFault Stream Term := fun s =>
  match Parse.bounded Parse.term [] ⟨s, 0⟩ with
  | .ok t s' => .ok t s'.stream
  | .error fault s' => .error fault s'.stream

/-- The term that a stream holds, all its tokens taken together. -/
def Parse.whole : Parse Term := do
  let t ← bounded term []
  match (← peek).token with
  | .finish => return t
  | _ => fail [.finish]

/-- The term that a text is. -/
def Term.parse (text : String) : Except ParseFault Term :=
  match Stream.ofText text with
  | .error fault => .error (.stream fault)
  | .ok stream =>
    match Parse.whole ⟨stream, 0⟩ with
    | .ok t _ => .ok t
    | .error fault _ => .error fault

end Contractum
