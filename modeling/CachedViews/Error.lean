import CachedViews.Entity.Basic
import CachedViews.Text.Quoted

/-!
Everything that can go wrong, by cause, with the wording of each in one place.
-/
namespace CachedViews

inductive StoreKind where
  | write
  | read
  deriving DecidableEq, Repr

def StoreKind.text : StoreKind → String
  | write => "write store"
  | read => "read store"

inductive StorageError where
  | uuidConflict (uuid : Uuid)
  | keyConflict (keys : List UniqueKey)
  | staleWrite (uuid : Uuid) (expected actual : Sid)
  | notFound (uuid : Uuid)
  | keyNotFound (key : UniqueKey)
  | referentialIntegrity (uuid : Uuid) (linkedFrom : List Uuid)
  | transactionFailed (reason : String)
  | unavailable (store : StoreKind)
  | lockPoisoned
  deriving DecidableEq

inductive IndexError where
  | transient (uuid : Uuid) (reason : String)
  | permanent (uuid : Uuid) (attempts : UInt32) (reason : String)
  | timeout (uuid : Uuid) (elapsedMillis : Nat)
  deriving DecidableEq

inductive ValidationError where
  | unknownItemType (itemType : ItemType)
  | invalidEmbedPath (itemType : ItemType) (path reason : String)
  | invalidLink (itemType : ItemType) (field reason : String)
  | duplicateItemType (itemType : ItemType)
  deriving DecidableEq

inductive ConfigError where
  | invalidValue (field value reason : String)
  | parse (reason : String)
  deriving DecidableEq

inductive EngineError where
  | storage (error : StorageError)
  | index (error : IndexError)
  | validation (error : ValidationError)
  | config (error : ConfigError)
  deriving DecidableEq

instance : Coe StorageError EngineError := ⟨.storage⟩
instance : Coe IndexError EngineError := ⟨.index⟩
instance : Coe ValidationError EngineError := ⟨.validation⟩
instance : Coe ConfigError EngineError := ⟨.config⟩

def UniqueKey.quoted (key : UniqueKey) : String :=
  "UniqueKey \x7b name: " ++ Quoted.text key.name ++ ", value: " ++ Quoted.text key.value ++ " \x7d"

def StorageError.message : StorageError → String
  | uuidConflict uuid => "UUID conflict: " ++ uuid.text ++ " already exists"
  | keyConflict keys => "Keys conflict: " ++ Quoted.listText (keys.map UniqueKey.quoted)
  | staleWrite uuid expected actual =>
    "Stale write for " ++ uuid.text ++ ": expected sid " ++ toString expected ++
      ", current sid " ++ toString actual
  | notFound uuid => "Entity not found: " ++ uuid.text
  | keyNotFound key => "No entity owns unique key " ++ key.text
  | referentialIntegrity uuid linkedFrom =>
    "Cannot purge " ++ uuid.text ++ ": still linked from " ++
      Quoted.listText (linkedFrom.map Uuid.text)
  | transactionFailed reason => "Transaction failed: " ++ reason
  | unavailable store => store.text ++ " unavailable"
  | lockPoisoned => "Storage lock poisoned"

def IndexError.message : IndexError → String
  | transient uuid reason => "Transient index failure for " ++ uuid.text ++ ": " ++ reason
  | permanent uuid attempts reason =>
    "Indexing " ++ uuid.text ++ " failed permanently after " ++ toString attempts ++
      " attempts: " ++ reason
  | timeout uuid elapsedMillis =>
    "Indexing " ++ uuid.text ++ " timed out after " ++ toString elapsedMillis ++ "ms"

def ValidationError.message : ValidationError → String
  | unknownItemType itemType => "Unknown item type: " ++ itemType.name
  | invalidEmbedPath itemType path reason =>
    "Invalid embed path " ++ Quoted.text path ++ " on " ++ itemType.name ++ ": " ++ reason
  | invalidLink itemType field reason =>
    "Invalid link value in " ++ itemType.name ++ "." ++ field ++ ": " ++ reason
  | duplicateItemType itemType => "Item type " ++ itemType.name ++ " is already registered"

def ConfigError.message : ConfigError → String
  | invalidValue field value reason =>
    "Invalid value for " ++ field ++ ": " ++ value ++ " - " ++ reason
  | parse reason => "Failed to parse configuration: " ++ reason

def EngineError.message : EngineError → String
  | storage error => "Storage error: " ++ error.message
  | index error => "Index error: " ++ error.message
  | validation error => "Validation error: " ++ error.message
  | config error => "Config error: " ++ error.message

/-- Whether a caller hit an identifier or a unique key that is taken. -/
def StorageError.isConflict : StorageError → Bool
  | uuidConflict _ | keyConflict _ => true
  | _ => false

/-- Whether the same operation may succeed later. -/
def EngineError.isTransient : EngineError → Bool
  | index (.transient ..) | index (.timeout ..) => true
  | storage (.unavailable _) | storage (.transactionFailed _) => true
  | _ => false

def EngineError.isNotFound : EngineError → Bool
  | storage (.notFound _) => true
  | _ => false

end CachedViews
