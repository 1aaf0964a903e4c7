import ScriptTidy.Token.Basic

/-!
# Failures

What went wrong, with the contexts in which it did. A failure is a message, an error at a
position of a source, a failure with a context or a trace around it, or a list of failures of
independent tasks. Lists are flat: adding a list to a list adds its members.
-/

namespace ScriptTidy

/-- What went wrong. -/
inductive Failure
  | plain (message : Bytes)
  | positioned (error : PositionedError)
  /-- A failure while doing what `context` says. -/
  | within (context : Bytes) (inner : Failure)
  /-- A failure whose origin was recorded. -/
  | traced (inner : Failure)
  /-- The failures of independent tasks. -/
  | several (failures : List Failure)

namespace Failure

mutual

/-- The whole message: contexts come first, and the members of a list stand on lines of their
own. -/
def message : Failure → Bytes
  | plain text => text
  | positioned e => e.render
  | within context inner => context ++ utf8 ": " ++ inner.message
  | traced inner => inner.message
  | several failures => Bytes.joinWith [0x0A] (messages failures)

/-- The messages of a list of failures. -/
def messages : List Failure → List Bytes
  | [] => []
  | f :: rest => f.message :: messages rest

end

/-- What is left of a failure without its contexts and traces. -/
def cause : Failure → Failure
  | within _ inner => inner.cause
  | traced inner => inner.cause
  | f => f

/-- The error at a position that lies behind the failure. -/
def positioned? (f : Failure) : Option PositionedError :=
  match f.cause with
  | positioned e => some e
  | _ => none

/-- The members of a list of failures; a single failure is its only member. -/
def members : Failure → List Failure
  | several failures => failures
  | f => [f]

/-- The failure as a member of a list. -/
def append (failures : List Failure) : Option Failure → List Failure
  | none => failures
  | some f => failures ++ f.members

end Failure

end ScriptTidy
