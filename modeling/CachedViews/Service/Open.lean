import CachedViews.Engine.World

/-!
Setting up an engine and its stores from a configuration. Whether a directory of views can be
attached is for the storage library and the machine to say; their answer is an argument here.
-/
namespace CachedViews

def Engine.ofConfig (config : Config) (registry : Registry) : Engine :=
  ⟨registry, config.invalidationMode, config.pipeline, .ascending⟩

/-- Why a directory of views cannot be attached, in the words of the system or the library. -/
inductive AttachError where
  | directory (reason : String)
  | environment (reason : String)
  | database (reason : String)
  | transaction (reason : String)

namespace AttachError

def text : AttachError → String
  | directory reason => "I/O error: " ++ reason
  | environment reason => "Failed to open LMDB environment: " ++ reason
  | database reason => "Failed to open database: " ++ reason
  | transaction reason => "Transaction error: " ++ reason

def engineError (error : AttachError) : EngineError := .storage (.transactionFailed error.text)

end AttachError

namespace Service

/-- Attaching a directory under a memory map of so many bytes. -/
abbrev Attach := String → Nat → Except AttachError Unit

/-- The library's answer on a machine whose programs address so many bytes, in a directory that
can be made and written. -/
def Attach.addressing (room : Nat) : Attach := fun _ bytes =>
  if bytes ≤ room then .ok () else .error (.environment "Cannot allocate memory")

/-- Views are kept in memory unless the configuration names a directory for them. -/
def readStoreOf (config : ReadStoreConfig) : ReadStore :=
  if config.path.isSome then .durable .empty else .memory .empty

def start (config : Config) : World := .start (readStoreOf config.readStore)

/-- The size of a memory map is a word of 64 bits. -/
def attachViews (attach : Attach) (config : ReadStoreConfig) : Except EngineError Unit :=
  match config.path with
  | some path => (attach path (config.mapBytes % Width.values 64)).mapError AttachError.engineError
  | none => .ok ()

/-- An engine over empty stores, when the configuration is valid and its directory can be
attached. -/
def openEngineOn (attach : Attach) (config : Config) (registry : Registry) :
    Except EngineError (Engine × World) := do
  config.validate.mapError .config
  attachViews attach config.readStore
  return (.ofConfig config registry, start config)

def openEngine : Config → Registry → Except EngineError (Engine × World) :=
  openEngineOn (.addressing (Width.values 46))

end Service

end CachedViews
