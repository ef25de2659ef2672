import GraphQLSyntax.Grammar.Log

/-!
# Outcomes of commands

* `Outcome`: whether a command succeeded, and what it printed and logged.
-/

namespace GraphQLSyntax

/-- What came of a command. -/
structure Outcome where
  success : Bool
  stdout : Option String
  stderr : Option String
  log : List LogLine
deriving DecidableEq, Repr, Inhabited

namespace Outcome

/-- A command that succeeded. -/
def succeeded (stdout : String) (log : List LogLine) : Outcome := ⟨true, some stdout, none, log⟩

/-- A command that failed, with what it had printed until then. -/
def failed (stdout stderr : String) (log : List LogLine) : Outcome :=
  ⟨false, if stdout = "" then none else some stdout, some stderr, log⟩

/-- A green check mark. -/
def check : String := "\x1b[32m✔\x1b[0m"

/-- A red cross. -/
def cross : String := "\x1b[31m✘\x1b[0m"

end Outcome

end GraphQLSyntax
