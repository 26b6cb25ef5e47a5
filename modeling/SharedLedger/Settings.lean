import SharedLedger.Error
import SharedLedger.Text.Blank
import SharedLedger.Text.Numeral

/-!
# Settings

The settings of a running service, read from named values. A value that is
not given has a default, except for the secret, which has to be given. The
settings are looked at in a fixed order and the first fault is reported.
-/

namespace SharedLedger

/-- How much is logged. -/
inductive LogLevel where
  | error
  | warn
  | info
  | debug
  | trace
  deriving DecidableEq, Repr

/-- Where log lines go. -/
inductive LogOutput where
  | stdout
  | file
  | both
  deriving DecidableEq, Repr

/-- What log lines look like. -/
inductive LogFormat where
  | plain
  | json
  deriving DecidableEq, Repr

/-- A text with its ASCII letters in lower case. -/
def lowered (s : String) : String := String.ofList (s.toList.map Text.lowerAscii)

namespace LogLevel

/-- The name of a level as it is configured. -/
def name : LogLevel → String
  | error => "ERROR"
  | warn => "WARN"
  | info => "INFO"
  | debug => "DEBUG"
  | trace => "TRACE"

/-- The name of a level as it is reported. -/
def label : LogLevel → String
  | error => "Error"
  | warn => "Warn"
  | info => "Info"
  | debug => "Debug"
  | trace => "Trace"

/-- All levels, from the quietest, which has number one. -/
def all : List LogLevel := [error, warn, info, debug, trace]

/-- A level by its number or, in any case, by its name. -/
def ofText? (s : String) : Option LogLevel :=
  match Numeral.natOfBits? 64 s.toList with
  | some n => if n = 0 then none else all[n - 1]?
  | none => all.find? fun l => lowered l.name == lowered s

end LogLevel

namespace LogOutput

/-- The name of an output as it is reported. -/
def label : LogOutput → String
  | stdout => "Stdout"
  | file => "File"
  | both => "Both"

/-- An output by its name in any case. -/
def ofText (s : String) : Except String LogOutput :=
  if lowered s = "stdout" then .ok stdout
  else if lowered s = "file" then .ok file
  else if lowered s = "both" then .ok both
  else .error ("unknown log output " ++ Text.quoted (lowered s))

end LogOutput

namespace LogFormat

/-- The name of a format as it is reported. -/
def label : LogFormat → String
  | plain => "Text"
  | json => "Json"

/-- A format by its name in any case. -/
def ofText (s : String) : Except String LogFormat :=
  if lowered s = "text" then .ok plain
  else if lowered s = "json" then .ok json
  else .error ("unknown log format " ++ Text.quoted (lowered s))

end LogFormat

/-- The settings of a service. -/
structure Settings where
  port : Nat
  databaseUrl : String
  secret : String
  accessHours : Int
  refreshDays : Int
  hashCost : Nat
  level : LogLevel
  output : LogOutput
  format : LogFormat
  logFile : String
  deriving DecidableEq, Repr

namespace Settings

/-- The stores there are. -/
def inMemoryUrls : List String := ["memory://", "sqlite::memory:"]

/-- The value of a key, white space around it dropped, or its default. -/
def parsed {α : Type} (lookup : String → Option String) (key : String)
    (parse? : String → Option α) (default : α) : Except LedgerError α :=
  match lookup key with
  | none => .ok default
  | some raw =>
    match parse? (String.ofList (Text.trim raw.toList)) with
    | some a => .ok a
    | none => .error (.settings (key ++ " has an invalid value: " ++ Text.quoted raw))

/-- The settings given by the named values. -/
def ofLookup (lookup : String → Option String) : Except LedgerError Settings := do
  let databaseUrl := (lookup "DATABASE_URL").getD "memory://"
  if !inMemoryUrls.contains databaseUrl then
    throw (.settings "DATABASE_URL: only the in-memory store (memory://) is available")
  let some secret := (lookup "JWT_SECRET").filter fun s => !s.toList.all Text.isBlank
    | throw (.settings "JWT_SECRET must be set")
  let int64? (s : String) : Option Int := Numeral.int64? s.toList
  let accessHours ← parsed lookup "JWT_EXPIRATION_HOURS" int64? 24
  let refreshDays ← parsed lookup "REFRESH_TOKEN_EXPIRATION_DAYS" int64? 7
  if accessHours ≤ 0 ∨ refreshDays ≤ 0 then throw (.settings "token lifetimes must be positive")
  let hashCost ← parsed lookup "BCRYPT_COST" (fun s => Numeral.natOfBits? 32 s.toList) 12
  if hashCost < 4 ∨ 31 < hashCost then throw (.settings "BCRYPT_COST must be between 4 and 31")
  let level ← parsed lookup "LOG_LEVEL" LogLevel.ofText? .info
  let output ← parsed lookup "LOG_OUTPUT" (fun s => (LogOutput.ofText s).toOption) .stdout
  let format ← parsed lookup "LOG_FORMAT" (fun s => (LogFormat.ofText s).toOption) .plain
  let port ← parsed lookup "PORT" (fun s => Numeral.natOfBits? 16 s.toList) 3000
  return {
    port, databaseUrl, secret, accessHours, refreshDays, hashCost, level, output, format
    logFile := (lookup "LOG_FILE_PATH").getD "settleup.log" }

/-- The settings with their parts named and the secret and the store left
out. -/
def inspect (s : Settings) : String :=
  "Config \x7b port: " ++ toString s.port
    ++ ", database_url: \"<redacted>\", jwt_secret: \"<redacted>\", jwt_expiration_hours: "
    ++ toString s.accessHours ++ ", refresh_token_expiration_days: " ++ toString s.refreshDays
    ++ ", bcrypt_cost: " ++ toString s.hashCost ++ ", logging: LoggingConfig \x7b level: Level("
    ++ s.level.label ++ "), output: " ++ s.output.label ++ ", format: " ++ s.format.label
    ++ ", file_path: " ++ Text.quoted s.logFile ++ " \x7d \x7d"

end Settings

end SharedLedger
