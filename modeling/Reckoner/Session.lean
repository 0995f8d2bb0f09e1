import Reckoner.Reckoning

/-!
# Sessions on one line

A session drives the readers of one line step by step: the cursor itself, any number of iterators,
and at most one reckoning, all on the same feed. A step that meets a fault keeps what it changed
before, and the session goes on.
-/

set_option autoImplicit false

namespace Reckoner

inductive Step where
  | advance
  | skipBlanks
  | peek
  | nextToken
  | scan
  | readNumber
  | newIterator
  | next (age : Nat)
  | list
  | newReckoning
  | expect (kind : Kind)
  | factor
  | term
  | expression
  | evaluate
  deriving DecidableEq, Repr

inductive Answer where
  | nothing
  | char (c : Option Char)
  | token (t : Token)
  | tokens (ts : List Token)
  | exhausted
  | matched (value : Option Nat)
  | value (q : Rat)
  | fault (fault : Fault)
  | noReckoning

/-- The age of an iterator is the number of iterators made after it; `live` tells, by age, which of
them have met neither the end nor a fault. -/
structure Session where
  feed : Feed
  lookahead : Option Token := none
  live : List Bool := []

namespace Session

def ofLine (line : String) : Session := { feed := .ofLine line }

def moveTo (session : Session) (cursor : Cursor) : Session :=
  { session with feed := { session.feed with cursor } }

def answerItem : Item → Answer
  | .ok t => .token t
  | .error fault => .fault fault

def next (age : Nat) (session : Session) : Answer × Session :=
  if session.live[age]? = some true then
    match session.feed.pull with
    | ⟨.ok t, feed⟩ =>
      if t.lexeme = .eof then
        (.exhausted, { session with feed, live := session.live.set age false })
      else (.token t, { session with feed })
    | ⟨.error fault, feed⟩ =>
      (.fault fault, { session with feed, live := session.live.set age false })
  else (.exhausted, session)

def list (session : Session) : Answer × Session :=
  match session.feed.drain with
  | ⟨.ok ts, feed⟩ => (.tokens ts, { session with feed })
  | ⟨.error fault, feed⟩ => (.fault fault, { session with feed })

/-- A new reckoning replaces the old one even if its lookahead cannot be pulled. -/
def newReckoning (session : Session) : Answer × Session :=
  match session.feed.pull with
  | ⟨.ok t, feed⟩ => (.nothing, { session with feed, lookahead := some t })
  | ⟨.error fault, feed⟩ => (.fault fault, { session with feed, lookahead := none })

def reckon {α : Type} (operation : Reckoning → Outcome Reckoning α) (answer : α → Answer)
    (session : Session) : Answer × Session :=
  match session.lookahead with
  | none => (.noReckoning, session)
  | some t =>
    match operation ⟨session.feed, t⟩ with
    | ⟨.ok a, left⟩ =>
      (answer a, { session with feed := left.feed, lookahead := some left.lookahead })
    | ⟨.error fault, left⟩ =>
      (.fault fault, { session with feed := left.feed, lookahead := some left.lookahead })

/-- Only a bare reading of a number can be refused for a number, which its fault quotes; what the other
steps meet quotes none, so the allowance is nothing to them. -/
def step (session : Session) (s : Step) (allowance : Allowance := .unlimited) : Answer × Session :=
  match s with
  | .advance => (.nothing, session.moveTo session.feed.cursor.advance)
  | .skipBlanks => (.nothing, session.moveTo session.feed.cursor.skipBlanks)
  | .peek => (.char session.feed.cursor.peek?, session)
  | .nextToken =>
    match session.feed.pull with
    | ⟨item, feed⟩ => (answerItem item, { session with feed })
  | .scan =>
    match session.feed.cursor.scan with
    | ⟨item, cursor⟩ => (answerItem item, session.moveTo cursor)
  | .readNumber =>
    match session.feed.cursor.readNumber allowance with
    | ⟨item, cursor⟩ => (answerItem item, session.moveTo cursor)
  | .newIterator => (.nothing, { session with live := true :: session.live })
  | .next age => session.next age
  | .list => session.list
  | .newReckoning => session.newReckoning
  | .expect kind => session.reckon (Reckoning.expect kind) .matched
  | .factor => session.reckon Reckoning.factor .value
  | .term => session.reckon Reckoning.term .value
  | .expression => session.reckon Reckoning.expression .value
  | .evaluate => session.reckon Reckoning.evaluate .value

/-- The answer of each step with the session that it leaves. -/
def run (session : Session) (steps : List Step) (allowance : Allowance := .unlimited) :
    List (Answer × Session) :=
  match steps with
  | [] => []
  | s :: steps =>
    let result := session.step s allowance
    result :: result.2.run steps allowance

end Session

end Reckoner
