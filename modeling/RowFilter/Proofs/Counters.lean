import RowFilter.Proofs.Sessions

namespace RowFilter

/-- A session with its counters. -/
structure Parser where
  source : List Char
  tokens : List Token
  rest : List Token
  height : Nat
  nesting : Nat

/-- Why a reading with counters ends. -/
inductive Fault
  | failed (e : ParseError)
  /-- A parenthesis would be closed that is not counted as open. -/
  | underflow
  /-- A loop would go on for longer than it can. -/
  | exhausted

/-- Steps of a session with counters. A step that fails leaves the session where it is. -/
abbrev Counting := EStateM Fault Parser

namespace Counting

variable {α : Type}

/-- Stops at the tokens that are left. -/
def stop (reason : Reason) : Counting α := do
  let p ← get
  throw (.failed (Stop.toError p.source p.tokens ⟨reason, p.rest, 0⟩))

/-- Takes the next token if it is of a kind. -/
def accept (kind : TokenKind) : Counting Bool := do
  let p ← get
  match p.rest with
  | [] => return false
  | t :: rest =>
    if t.kind = kind then
      set { p with rest := rest }
      return true
    else return false

def expect (kind : TokenKind) (e : Expected) : Counting Unit := do
  if ← accept kind then return ()
  else stop (.expected e)

/-- The height of a tree over one of this height. -/
def deeper (child : Nat) : Counting Nat :=
  if maxDepth ≤ child then stop .tooDeep else return child + 1

def setHeight (height : Nat) : Counting Unit :=
  modify fun p => { p with height := height }

/-- Adds a level to the tree that was read last. -/
def grow : Counting Unit := do
  let height ← deeper (← get).height
  setHeight height

/-- Counts a parenthesis as open. -/
def enter : Counting Unit := do
  let p ← get
  if maxDepth ≤ p.nesting then stop .tooDeep
  else set { p with nesting := p.nesting + 1 }

/-- Counts a parenthesis as closed. -/
def leave : Counting Unit := do
  let p ← get
  match p.nesting with
  | 0 => throw .underflow
  | n + 1 => set { p with nesting := n }

/-- An item, which has one level. -/
def item : Counting Expr := do
  let p ← get
  match Reader.item p.rest with
  | .ok (e, rest) =>
    set { p with rest := rest, height := 1 }
    return e
  | .error s =>
    set { p with rest := s.rest }
    stop s.reason

def factor (expression : Counting Expr) : Counting Expr := do
  if ← accept (.mark .openParen) then
    enter
    let e ← expression
    leave
    expect (.mark .closeParen) .closeParen
    return e
  else item

def negation (expression : Counting Expr) : Counting Expr := do
  if ← accept (.keyword .not) then
    let e ← factor expression
    grow
    return .unary .not e
  else factor expression

def nullTest (e : Expr) : Counting Expr := do
  if ← accept (.keyword .is) then
    grow
    if ← accept (.keyword .null) then return .unary .isNull e
    else if ← accept (.keyword .not) then
      expect (.keyword .null) .null
      return .unary .isNotNull e
    else stop (.expected .nullTest)
  else return e

def operand (expression : Counting Expr) : Counting Expr := do
  let e ← negation expression
  nullTest e

/-- Operands behind `left`, which has `height` levels, in at most `fuel` rounds. The height of the
whole stays aside while operands are read, since each sets the counter to its own. -/
def chain (operator : List Token → Option (BinaryOp × List Token)) (operand : Counting Expr) :
    Nat → Expr → Nat → Counting Expr
  | fuel, left, height => do
    let p ← get
    match operator p.rest with
    | none =>
      setHeight height
      return left
    | some (op, rest) =>
      match fuel with
      | 0 => throw .exhausted
      | fuel + 1 =>
        set { p with rest := rest }
        let right ← operand
        let q ← get
        let height ← deeper (max height q.height)
        chain operator operand fuel (.binary op left right) height

def comparison (expression : Counting Expr) : Counting Expr := do
  let left ← operand expression
  let p ← get
  chain Reader.test? (operand expression) maxDepth left p.height

def expressionWith (expression : Counting Expr) : Counting Expr := do
  let left ← comparison expression
  let p ← get
  chain Reader.connective? (comparison expression) maxDepth left p.height

/-- An expression, with recursion through at most `fuel` parentheses. -/
def expression : Nat → Counting Expr
  | 0 => throw .exhausted
  | fuel + 1 => expressionWith (expression fuel)

/-- An expression that takes all tokens. -/
def complete : Counting Expr := do
  let e ← expression (maxDepth + 1)
  let p ← get
  if p.rest.isEmpty then return e
  else stop (.expected .endOfInput)

end Counting

namespace Parser

def ofTokens (source : List Char) (tokens : List Token) : Parser :=
  ⟨source, tokens, tokens, 0, 0⟩

/-- The number of tokens that were taken. -/
def current (p : Parser) : Nat :=
  p.tokens.length - p.rest.length

def reads : Session.Call → Counting Expr
  | .expression => Counting.expression (maxDepth + 1)
  | .complete => Counting.complete

def call (p : Parser) (c : Session.Call) : EStateM.Result Fault Parser Expr :=
  (reads c).run p

/-- The session that a call leaves. -/
def behind : EStateM.Result Fault Parser Expr → Parser
  | .ok _ q => q
  | .error _ q => q

/-- The sessions with counters that a text leads to, whatever is read and whatever fails. -/
inductive Over (text : List Char) : Parser → Prop
  | new {l : Lexer} {tokens : List Token} : Lexer.Visits text l → l.tokens = .ok tokens →
      Over text (ofTokens text tokens)
  | call {p : Parser} (c : Session.Call) : Over text p → Over text (behind (p.call c))

/-- The session without its counters. -/
def session (p : Parser) : Session :=
  ⟨p.source, p.tokens, p.rest, maxDepth - p.nesting⟩

/-- What is left of a call without the counters. There is nothing for a fault of the counting. -/
def erase : EStateM.Result Fault Parser Expr → Option (Except ParseError Expr × Session)
  | .ok e q => some (.ok e, q.session)
  | .error (.failed e) q => some (.error e, q.session)
  | .error _ _ => none

end Parser

end RowFilter
