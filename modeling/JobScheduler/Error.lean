/-!
The errors of the library: refused service calls, instants that cannot be computed, and failures to
set up. Each has a stable code for programs and a message for people.
-/

namespace JobScheduler

/-- Why a service call is refused. -/
inductive ServiceError where
  | noJobName
  | noJobFunc
  | noRuntimeFunc
  | jobAlreadyExists (name : String)
  | noSuchJob (name : String)
  | jobRunning (name : String)
  | jobFinalised (name : String)
deriving DecidableEq, Repr

namespace ServiceError

def code : ServiceError → String
  | noJobName => "NO_JOB_NAME"
  | noJobFunc => "NO_JOB_FUNC"
  | noRuntimeFunc => "NO_RUNTIME_FUNC"
  | jobAlreadyExists _ => "JOB_ALREADY_EXISTS"
  | noSuchJob _ => "NO_SUCH_JOB"
  | jobRunning _ => "JOB_RUNNING"
  | jobFinalised _ => "JOB_FINALISED"

def message : ServiceError → String
  | noJobName => "No job name supplied"
  | noJobFunc => "No job function supplied"
  | noRuntimeFunc => "No runtime function supplied"
  | jobAlreadyExists name => "Job already exists: " ++ name
  | noSuchJob name => "Job not found: " ++ name
  | jobRunning name => "Job already running: " ++ name
  | jobFinalised name => "Job already finalised: " ++ name

end ServiceError

/-- Why a periodic job has no next instant: its instances have run out, or computing one failed. -/
inductive RuntimeError where
  | noMoreInstances
  | failed (reason : String)
deriving DecidableEq, Repr

namespace RuntimeError

def message : RuntimeError → String
  | noMoreInstances => "No more instances"
  | failed reason => "Runtime computation failed: " ++ reason

/-- The failure with a root cause and the contexts around it, given from the inside out and told
from the outside in. -/
def ofChain (causes : List String) : RuntimeError :=
  failed (String.intercalate ": " causes.reverse)

end RuntimeError

/-- What can fail before a service exists. -/
inductive SetupError where
  | config (reason : String)
  | logging (reason : String)
deriving DecidableEq, Repr

namespace SetupError

def code : SetupError → String
  | config _ => "CONFIG_ERROR"
  | logging _ => "LOGGING_ERROR"

def message : SetupError → String
  | config reason => "Configuration error: " ++ reason
  | logging reason => "Logging setup failed: " ++ reason

end SetupError

end JobScheduler
