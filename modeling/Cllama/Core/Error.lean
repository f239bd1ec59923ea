import Cllama.Library.Bytes

/-!
# Errors and results

The error codes and the result type that the server's operations return.
-/

namespace Cllama.Core

open Cllama.Library

inductive ErrorCode where
  | success
  | unknownError
  | invalidArgument
  | notFound
  | alreadyExists
  | permissionDenied
  | unavailable
  | modelError
  | networkError
  deriving DecidableEq, Repr

structure Error where
  code : ErrorCode
  message : Bytes
  deriving DecidableEq, Repr

/-- A value, or the error that stands in its place. -/
abbrev CLlamaResult (α : Type) := Except Error α

end Cllama.Core
