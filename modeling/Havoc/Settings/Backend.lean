import Havoc.Backend.Kind
import Havoc.Json.Record
import Havoc.Settings.Basic
import Havoc.Url.Reader

/-! # Settings of the back ends

    How each back end is reached.  An SQL engine is described by one document, or else by
    separate settings. -/

namespace Havoc.Settings

open Havoc.Text Havoc.Backend

/-- How an SQL engine is reached. -/
structure SqlSettings where
  engine : Engine
  host : String
  port : Nat
  username : String
  password : String
  dbname : String
  deriving DecidableEq, Repr

/-- How the cache is reached. -/
structure RedisSettings where
  host : String
  port : Nat
  tls : Bool
  deriving DecidableEq, Repr

/-- How the broker is reached. -/
structure KafkaSettings where
  servers : List String
  topic : String
  tls : Bool
  deriving DecidableEq, Repr

/-! ## Documents -/

/-- How a document describes an SQL engine. -/
structure ConnectionInfo where
  username : String
  password : String
  host : String
  port : Option Nat
  dbname : String
  deriving DecidableEq, Repr

/-- A port in a document; null stands for none. -/
def documentPort? : Json.Written → Option (Option Nat)
  | .null => some none
  | .number lexeme =>
    match Json.Number.ofLexeme? lexeme with
    | some (.integer n) => if 0 ≤ n ∧ n < 65536 then some (some n.toNat) else none
    | _ => none
  | _ => none

/-- The description that a document gives. -/
def ConnectionInfo.ofWritten? (w : Json.Written) : Option ConnectionInfo := do
  let r ← Json.record? ["username", "password", "host", "port", "dbname"] w
  return {
    username := ← r.get? "username" Json.Written.text? ""
    password := ← r.get? "password" Json.Written.text? ""
    host := ← r.get? "host" Json.Written.text? ""
    port := ← r.get? "port" documentPort? none
    dbname := ← r.get? "dbname" Json.Written.text? "" }

/-! ## Looking up -/

/-- How an SQL engine is reached. -/
def sql (s : Settings) (engine : Engine) : Lookup SqlSettings :=
  let key (name : String) : String := engine.settingsKey ++ "_" ++ name
  match s.get? (key "DBINFO") with
  | some document =>
    match (Json.read? (utf8 document)).bind ConnectionInfo.ofWritten? with
    | none => throw (.invalidDocument (key "DBINFO"))
    | some info =>
      if info.host.isEmpty then throw (.notConfigured engine.name)
      else return {
        engine
        host := info.host
        port := info.port.getD engine.defaultPort
        username := info.username
        password := info.password
        dbname := info.dbname }
  | none =>
    match s.get? (key "HOST") with
    | none => throw (.notConfigured engine.name)
    | some host => do
      return {
        engine
        host
        port := ← s.portOr (key "PORT") engine.defaultPort
        username := (s.get? (key "USERNAME")).getD ""
        password := (s.get? (key "PASSWORD")).getD ""
        dbname := (s.get? (key "DBNAME")).getD "" }

/-- How the cache is reached. -/
def redis (s : Settings) : Lookup RedisSettings :=
  match s.get? "REDIS_HOST" with
  | none => throw (.notConfigured "redis")
  | some host => do
    return {
      host
      port := ← s.portOr "REDIS_PORT" 6379
      tls := (s.getBool? "REDIS_TLS_ENABLED").getD false }

/-- The servers in a list with commas; blank ones do not count. -/
def serverList (text : String) : List String :=
  ((splitOn ',' text.toList).map trim |>.filter (!·.isEmpty)).map String.ofList

/-- How the broker is reached. -/
def kafka (s : Settings) : Lookup KafkaSettings :=
  match (s.get? "KAFKA_SERVERS").map serverList with
  | none | some [] => throw (.notConfigured "kafka")
  | some servers =>
    match s.get? "KAFKA_TOPIC" with
    | none => throw (.missing "KAFKA_TOPIC")
    | some topic =>
      return { servers, topic, tls := (s.getBool? "KAFKA_TLS_ENABLED").getD false }

/-- Whether the settings tell how a back end is reached. -/
def isConfigured (s : Settings) (kind : Kind) : Draw Bool := do
  let answer ← match kind with
    | .sql engine => (do let _ ← s.sql engine : Lookup Unit).run
    | .redis => (do let _ ← s.redis : Lookup Unit).run
    | .kafka => (do let _ ← s.kafka : Lookup Unit).run
  match answer with
  | .ok _ => return true
  | .error _ => return false

/-! ## Addresses -/

/-- Why an SQL engine has no address. -/
inductive AddressError where
  | url (cause : Url.UrlError)
  /-- A host that takes no port, user or password. -/
  | cannotSet (part host : String)
  deriving DecidableEq, Repr

/-- What is told about the error. -/
def AddressError.message : AddressError → String
  | url cause => cause.message
  | cannotSet part host => s!"cannot set {part} on {host}"

/-- The address of an SQL engine. -/
def SqlSettings.url (s : SqlSettings) : Except AddressError Url := do
  let part (name : String) (u : Option Url) : Except AddressError Url :=
    match u with
    | some u => .ok u
    | none => .error (.cannotSet name s.host)
  let u ← (Url.parse (s.engine.scheme ++ "://" ++ s.host)).mapError .url
  let u ← part "port" (u.withPort s.port)
  let u ← if s.username.isEmpty then pure u else part "username" (u.withUsername s.username.toList)
  let u ← if s.password.isEmpty then pure u else part "password" (u.withPassword s.password.toList)
  let u := u.withPath s.dbname.toList
  return if s.engine = .mysql then u else u.withQuery "sslmode=disable".toList

/-- The address of the cache. -/
def RedisSettings.url (s : RedisSettings) : String :=
  if s.tls then s!"rediss://{s.host}:{s.port}/#insecure" else s!"redis://{s.host}:{s.port}/"

end Havoc.Settings
