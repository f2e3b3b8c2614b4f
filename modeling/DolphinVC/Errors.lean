import DolphinVC.Types

/-!
# Exceptions

`AppError` and its subclasses carry the code, text and status that the HTTP layer
reports. The other exceptions come from below: a violated constraint, a statement
on a session that a failed flush has made unusable, and any other Python exception
by its class name and text.
-/

namespace DolphinVC

structure FieldError where
  field : String
  code : String
  message : String
  deriving DecidableEq

structure AppError where
  code : String
  message : String
  statusCode : Nat := 400
  fieldErrors : List FieldError := []
  retryable : Bool := false
  retryAfterS : Option Nat := none
  deriving DecidableEq

inductive Exc where
  | app (error : AppError)
  | integrity (constraint : String)
  | pendingRollback
  | raised (className : String) (text : String)
  deriving DecidableEq

namespace Exc

def notFound (resource : String) : Exc :=
  .app { code := "NOT_FOUND", message := resource ++ " was not found.", statusCode := 404 }

def conflict (message : String) (code : String := "CONFLICT") : Exc :=
  .app { code, message, statusCode := 409 }

def forbidden : Exc :=
  .app
    { code := "FORBIDDEN"
      message := "You do not have permission to perform this action."
      statusCode := 403 }

def unauthenticated (code : String := "UNAUTHENTICATED")
    (message : String := "Authentication required.") : Exc :=
  .app { code, message, statusCode := 401 }

def validation (message : String) : Exc := .app { code := "VALIDATION_ERROR", message }

def unprocessable (message : String) : Exc :=
  .app { code := "UNPROCESSABLE", message, statusCode := 422 }

/-- An expired column is read where no statement can be awaited. -/
def missingGreenlet : Exc :=
  .raised "MissingGreenlet" ("greenlet_spawn has not been called; can't call await_only() here. " ++
    "Was IO attempted in an unexpected place?")

/-- The class name, as `type(exc).__name__` gives it. -/
def className : Exc → String
  | .app _ => "AppError"
  | .integrity _ => "IntegrityError"
  | .pendingRollback => "PendingRollbackError"
  | .raised name _ => name

/-- `str(exc)`. -/
def text : Exc → String
  | .app error => error.message
  | .integrity constraint => constraint
  | .pendingRollback => "This Session's transaction has been rolled back."
  | .raised _ text => text

end Exc
end DolphinVC
