import CatalogAccess.Error
import CatalogAccess.Json.Record
import CatalogAccess.Toml

/-!
# Configuration

What an installation is set to: how often snapshots are renewed, the deadlines and sizes of calls
and queries, and the audit log. Every setting has a value when it is not given, so that the empty
text is a configuration. `Configuration.problems` lists the settings that are out of bounds.
-/

namespace CatalogAccess

/-- What the audit log is set to. -/
structure AuditConfiguration where
  /-- The length of the queue. -/
  capacity : Nat := 4096
  /-- How often the queue is emptied, in milliseconds. -/
  flushMs : Nat := 500
  /-- The length of batches. -/
  batchSize : Nat := 256
deriving DecidableEq, Repr

/-- What an installation is set to. -/
structure Configuration where
  /-- How often snapshots are renewed, in seconds. -/
  refreshSeconds : Nat := 12
  /-- The deadline of calls in milliseconds. -/
  deadlineMs : Nat := 10000
  /-- How many mutations run at a time. -/
  workers : Nat := 8
  /-- The length of the pages in which listings are read. -/
  pageSize : Nat := 25
  /-- How many clauses a search query may list side by side. -/
  clauseLimit : Nat := 1024
  /-- How many compiled patterns are kept. -/
  patternCapacity : Nat := 1024
  /-- The tenant of personas that name none. -/
  tenant : String := "tenant"
  /-- The audit log. -/
  audit : AuditConfiguration := {}
deriving DecidableEq, Repr

/-- Why a configuration cannot be used. -/
inductive ConfigurationError where
  /-- The text does not hold a configuration. -/
  | unreadable
  /-- Settings are out of bounds. -/
  | outOfBounds (settings : List String)
deriving DecidableEq, Repr

namespace AuditConfiguration

/-- The names of the settings, in the order of their list form. -/
def fieldNames : List String := ["channel_capacity", "flush_interval_ms", "batch_size"]

/-- Reads the settings of the audit log. -/
def ofDocument? (d : Document) : Option AuditConfiguration := do
  let r ← d.record? fieldNames 0
  let capacity ← r.withDefault "channel_capacity" 4096 Document.nat?
  let flushMs ← r.withDefault "flush_interval_ms" 500 Document.nat?
  let batchSize ← r.withDefault "batch_size" 256 Document.nat?
  return { capacity, flushMs, batchSize }

/-- The JSON form of the settings of the audit log. -/
def toJson (c : AuditConfiguration) : Json :=
  .obj [("batch_size", Json.nat c.batchSize), ("channel_capacity", Json.nat c.capacity),
    ("flush_interval_ms", Json.nat c.flushMs)]

end AuditConfiguration

namespace Configuration

/-- Reads a configuration. -/
def ofDocument? (d : Document) : Option Configuration := do
  let r ← d.record? ["refresh_interval_secs", "authority_timeout_ms", "worker_pool_size",
    "search_page_size", "max_clause_limit", "pattern_cache_capacity", "default_tenant", "audit"] 0
  let refreshSeconds ← r.withDefault "refresh_interval_secs" 12 Document.nat?
  let deadlineMs ← r.withDefault "authority_timeout_ms" 10000 Document.nat?
  let workers ← r.withDefault "worker_pool_size" 8 Document.nat?
  let pageSize ← r.withDefault "search_page_size" 25 Document.nat?
  let clauseLimit ← r.withDefault "max_clause_limit" 1024 Document.nat?
  let patternCapacity ← r.withDefault "pattern_cache_capacity" 1024 Document.nat?
  let tenant ← r.withDefault "default_tenant" "tenant" Document.string?
  let audit ← r.withDefault "audit" {} AuditConfiguration.ofDocument?
  return { refreshSeconds, deadlineMs, workers, pageSize, clauseLimit, patternCapacity, tenant,
           audit }

/-- The JSON form of a configuration. -/
def toJson (c : Configuration) : Json :=
  .obj [("audit", c.audit.toJson), ("authority_timeout_ms", Json.nat c.deadlineMs),
    ("default_tenant", .str c.tenant), ("max_clause_limit", Json.nat c.clauseLimit),
    ("pattern_cache_capacity", Json.nat c.patternCapacity),
    ("refresh_interval_secs", Json.nat c.refreshSeconds),
    ("search_page_size", Json.nat c.pageSize), ("worker_pool_size", Json.nat c.workers)]

/-- Each setting with whether it is within bounds, by name. -/
def bounds (c : Configuration) : List (String × Bool) :=
  [("audit.batch_size", 1 ≤ c.audit.batchSize),
    ("audit.channel_capacity", 1 ≤ c.audit.capacity),
    ("audit.flush_interval_ms", 1 ≤ c.audit.flushMs),
    ("authority_timeout_ms", 1 ≤ c.deadlineMs),
    ("default_tenant", !c.tenant.isEmpty), ("max_clause_limit", 2 ≤ c.clauseLimit),
    ("pattern_cache_capacity", 1 ≤ c.patternCapacity),
    ("refresh_interval_secs", 1 ≤ c.refreshSeconds && c.refreshSeconds ≤ 3600),
    ("search_page_size", 1 ≤ c.pageSize && c.pageSize ≤ 1000),
    ("worker_pool_size", 1 ≤ c.workers && c.workers ≤ 256)]

/-- The settings that are out of bounds, by name. -/
def problems (c : Configuration) : List String := (c.bounds.filter (!·.2)).map Prod.fst

/-- Refuses a configuration with a setting that is out of bounds. -/
def check (c : Configuration) : Except ConfigurationError Configuration :=
  if c.problems.isEmpty then .ok c else .error (.outOfBounds c.problems)

/-- A list cut to the length of the list form of the audit settings: in a configuration text, the
values behind it do not count. -/
def cutList : Document → Document
  | .arr items => .arr (items.take AuditConfiguration.fieldNames.length)
  | d => d

/-- The document of a configuration text with the list form of the audit settings cut. -/
def cutAudit : Document → Document
  | .obj members => .obj (members.map fun m => if m.1 = some "audit" then (m.1, cutList m.2) else m)
  | d => d

/-- The configuration of a text. -/
def ofText (text : String) : Except ConfigurationError Configuration :=
  match (Toml.parse? text).bind fun d => ofDocument? (cutAudit d) with
  | some c => c.check
  | none => .error .unreadable

/-- The wording of an unusable configuration. -/
def describe : ConfigurationError → String
  | .unreadable => "the text cannot be read"
  | .outOfBounds settings => "out of bounds: " ++ ", ".intercalate settings

/-- The configuration in a file, of which the content is given. -/
def ofFile : Option String → Except AccessError Configuration
  | none => .error (.io "there is no such file")
  | some text => (ofText text).mapError fun e => .config (describe e)

end Configuration

end CatalogAccess
