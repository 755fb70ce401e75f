/-
# ModuleLinker.Error -- why linking fails

An error is a cause, possibly wrapped in the modules it was found in. `LinkError.message` gives
its wording, `LinkError.rootCause` takes the modules off again, and `LinkError.chain` lists the
messages from the outside in.
-/

import ModuleLinker.Module.Identifier
import ModuleLinker.Text.Slice

namespace ModuleLinker

/-- Why modules could not be linked. Lines are zero-based. -/
inductive LinkError where
  | unsupportedModulePath (path : String)
  | invalidTopLevel
  | unparsable (line : Nat) (reason : String)
  | unsupportedExport (text : String)
  | missingEntryPoint (name : String)
  | missingMainModule (name : String)
  | inModule (id : ModuleId) (cause : LinkError)
deriving DecidableEq, Repr, Inhabited

namespace LinkError

/-- The wording of an error; lines are counted from one. -/
def message : LinkError → String
  | .unsupportedModulePath path => "Unsupported module path: " ++ path
  | .invalidTopLevel => "Expected a list of top-level statements"
  | .unparsable line reason =>
    "Unable to parse module (line " ++ toString (line + 1) ++ "): " ++ reason
  | .unsupportedExport text => "Unsupported export: " ++ text
  | .missingEntryPoint name => "Entry point module " ++ name ++ " was not found in the input"
  | .missingMainModule name => "Main module " ++ name ++ " was not found in the input"
  | .inModule id cause => "Error in module " ++ id.display ++ ": " ++ cause.message

/-- The error without the modules around it. -/
def rootCause : LinkError → LinkError
  | .inModule _ cause => cause.rootCause
  | error => error

/-- The messages of the error and of every error inside it. -/
def chain : LinkError → List String
  | .inModule id cause => message (.inModule id cause) :: cause.chain
  | error => [error.message]

end LinkError

/-- How a stage ends without a result: with an error, or because it was asked for a piece of text
that does not exist. -/
inductive Failure where
  | error (error : LinkError)
  | outOfText (span : Span)

end ModuleLinker
