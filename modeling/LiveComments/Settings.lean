import LiveComments.Hub.Ring
import LiveComments.Text.Blank

namespace LiveComments

structure Settings where
  serviceName : String
  host : String
  port : Nat
  secret : String
  archiveUrl : String
  archiveName : String
  feedUrl : Option String
  feedChannel : String
  directoryUrl : String
  -- in milliseconds; the other times are in seconds
  directoryTimeout : Nat
  directoryRetries : Nat
  historySize : Nat
  historyLifetime : Nat
  repairTimeout : Nat

namespace Settings

abbrev Lookup := String → Option String

def notBlank (s : String) : Bool := !Text.blank s

def text (look : Lookup) (name absent : String) : String :=
  ((look name).filter notBlank).getD absent

def number (look : Lookup) (name : String) (bits absent : Nat) : Nat :=
  ((look name).bind fun s => Text.below? (Nat.pow 2 bits) (Text.trim s)).getD absent

def of (look : Lookup) : Settings where
  serviceName := text look "SERVICE_NAME" "comment-hub"
  host := text look "HTTP_HOST" "localhost"
  port := number look "HTTP_PORT" 16 8000
  secret := (look "JWT_SECRET").getD "secret"
  archiveUrl := text look "MONGODB_URI" "mongodb://localhost:27017"
  archiveName := text look "MONGODB_DATABASE_NAME" "uniposts"
  feedUrl := (look "REDIS_URL").filter notBlank
  feedChannel := text look "USER_EVENTS_CHANNEL" "user.updated"
  directoryUrl := text look "USER_DIRECTORY_URL" "http://localhost:8081"
  directoryTimeout := number look "USER_DIRECTORY_TIMEOUT_MS" 64 2000
  directoryRetries := number look "USER_DIRECTORY_RETRIES" 32 3
  historySize := number look "HISTORY_SIZE" 64 300
  historyLifetime := number look "HISTORY_TTL_SECS" 64 60
  repairTimeout := number look "CACHE_REPAIR_TIMEOUT_SECS" 64 5

def historyBounds (s : Settings) : HistoryBounds := ⟨s.historySize, s.historyLifetime * 1000⟩

end Settings

end LiveComments
