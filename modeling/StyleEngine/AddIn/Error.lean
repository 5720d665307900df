/-! # What goes wrong with add-ins

An add-in can fail with an error or crash.  Errors have one wording each; of
them, only exhausted resources keep other work from going on.
-/
namespace StyleEngine

/-- Why an add-in, or the loading of one, failed. -/
inductive AddInError where
  | file (message : String)
  | malformed (file detail : String)
  | invalid (message : String)
  | unknownFactory (name : String)
  | initialization (addin message : String)
  | failed (message : String)
  | exhausted (message : String)
deriving DecidableEq

namespace AddInError

def message : AddInError → String
  | .file m => "IO error: " ++ m
  | .malformed place detail => "Parse error in " ++ place ++ ": " ++ detail
  | .invalid m => "Invalid add-in: " ++ m
  | .unknownFactory name => "Unknown add-in factory: " ++ name
  | .initialization addin m => "Add-in " ++ addin ++ " failed to initialize: " ++ m
  | .failed m => m
  | .exhausted m => "Resources exhausted: " ++ m

/-- Whether no further work can safely go on. -/
def isExhaustion : AddInError → Bool
  | .exhausted _ => true
  | _ => false

end AddInError

/-- The end of an add-in that broke down, with the words it left, if any. -/
structure Crash where
  words : Option String := none
deriving DecidableEq

def Crash.message (c : Crash) : String := c.words.getD "unknown panic"

/-- Why an add-in stopped. -/
inductive Stop where
  | error (e : AddInError)
  | crash (c : Crash)
deriving DecidableEq

/-- A stop as an error: a crash is a failure like others to those around it. -/
def Stop.toError : Stop → AddInError
  | .error e => e
  | .crash c => .failed ("panicked: " ++ c.message)

end StyleEngine
