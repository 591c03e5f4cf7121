/-! # Back ends

    The five systems that stress jobs run against, and the three shapes of job. -/

namespace Havoc.Backend

/-- The SQL engines. -/
inductive Engine where
  | mysql | postgres | redshift
  deriving DecidableEq, Repr

namespace Engine

/-- Every engine. -/
def all : List Engine := [mysql, postgres, redshift]

/-- The name of an engine in routes and metrics. -/
def name : Engine → String
  | mysql => "mysql"
  | postgres => "postgres"
  | redshift => "redshift"

/-- How the settings of an engine begin. -/
def settingsKey : Engine → String
  | mysql => "MYSQL"
  | postgres => "POSTGRES"
  | redshift => "REDSHIFT"

/-- The port of an engine when the settings name none. -/
def defaultPort : Engine → Nat
  | mysql => 3306
  | postgres => 5432
  | redshift => 5439

/-- The scheme of an engine's addresses; Redshift is reached as PostgreSQL. -/
def scheme : Engine → String
  | mysql => "mysql"
  | postgres | redshift => "postgres"

end Engine

/-- The systems that stress jobs run against. -/
inductive Kind where
  | sql (engine : Engine)
  | redis
  | kafka
  deriving DecidableEq, Repr

namespace Kind

/-- Every kind of back end. -/
def all : List Kind := [sql .mysql, sql .postgres, sql .redshift, redis, kafka]

/-- The name of a back end in routes and metrics. -/
def name : Kind → String
  | sql engine => engine.name
  | redis => "redis"
  | kafka => "kafka"

/-- The name of a back end in messages. -/
def displayName : Kind → String
  | sql .mysql => "MySQL"
  | sql .postgres => "PostgreSQL"
  | sql .redshift => "Redshift"
  | redis => "Redis"
  | kafka => "Kafka"

/-- The error code of a job that cannot connect. -/
def errorCode : Kind → String
  | sql _ => "DB_ERROR"
  | redis => "REDIS_ERROR"
  | kafka => "KAFKA_ERROR"

/-- The back end with a name. -/
def ofName? (name : String) : Option Kind := all.find? fun k => k.name = name

end Kind

/-- The shapes of a job: one connection, many connections, or connections opened step by step. -/
inductive Operation where
  | heavy | multiHeavy | connection
  deriving DecidableEq, Repr

namespace Operation

/-- Every operation. -/
def all : List Operation := [heavy, multiHeavy, connection]

/-- The name of an operation in routes. -/
def name : Operation → String
  | heavy => "heavy"
  | multiHeavy => "multi_heavy"
  | connection => "connection"

/-- The operation with a name. -/
def ofName? (name : String) : Option Operation := all.find? fun o => o.name = name

end Operation

end Havoc.Backend
