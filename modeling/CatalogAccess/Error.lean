/-!
# Errors

What can go wrong when access is decided or personas are managed, by kind, and the wording of each
kind. Failures of the policy authority, of the search engine and of deadlines may pass when the
request is tried again.
-/

namespace CatalogAccess

/-- A span of time as it is shown: in milliseconds below a second and in seconds from there on,
with as many decimals as it takes. -/
def showMilliseconds (ms : Nat) : String :=
  if ms = 0 then "0ns"
  else if ms < 1000 then Nat.repr ms ++ "ms"
  else
    let digits := (Nat.repr (1000 + ms % 1000)).toList.drop 1
    let decimals := (digits.reverse.dropWhile (· == '0')).reverse
    Nat.repr (ms / 1000) ++ (if decimals.isEmpty then "" else "." ++ String.ofList decimals) ++ "s"

/-- What can go wrong. -/
inductive AccessError where
  /-- A request that is refused before anything is called. -/
  | validation (text : String)
  /-- A request that clashes with what is stored. -/
  | conflict (text : String)
  /-- A failed call of the policy authority or of the catalog. -/
  | authority (operation text : String)
  /-- A failed search. -/
  | search (text : String)
  /-- A negative decision. -/
  | unauthorized (principal action target : String)
  /-- An object that does not exist. -/
  | notFound (what : String)
  /-- A call that took longer than it may. -/
  | timeout (operation : String) (afterMs : Nat)
  /-- A configuration that cannot be used. -/
  | config (text : String)
  /-- A document that cannot be read. -/
  | json (text : String)
  /-- A file that cannot be read. -/
  | io (text : String)
deriving DecidableEq, Repr

namespace AccessError

/-- The name of the kind of an error. -/
def kind : AccessError → String
  | validation _ => "Validation"
  | conflict _ => "Conflict"
  | authority _ _ => "Authority"
  | search _ => "Search"
  | unauthorized _ _ _ => "Unauthorized"
  | notFound _ => "NotFound"
  | timeout _ _ => "Timeout"
  | config _ => "Config"
  | json _ => "Json"
  | io _ => "Io"

/-- The wording of an error. -/
def message : AccessError → String
  | validation text => "Validation failed: " ++ text
  | conflict text => "Conflict: " ++ text
  | authority operation text => "Policy authority error during " ++ operation ++ ": " ++ text
  | search text => "Search engine error: " ++ text
  | unauthorized principal action target =>
    "Unauthorized: " ++ principal ++ " is not allowed to " ++ action ++ " on " ++ target
  | notFound what => "Not found: " ++ what
  | timeout operation afterMs => operation ++ " timed out after " ++ showMilliseconds afterMs
  | config text => "Configuration error: " ++ text
  | json text => "JSON error: " ++ text
  | io text => "I/O error: " ++ text

/-- Whether the same request may succeed later. -/
def isRetryable : AccessError → Bool
  | authority _ _ => true
  | search _ => true
  | timeout _ _ => true
  | _ => false

end AccessError

end CatalogAccess
