import CatalogAccess.Configuration
import CatalogAccess.Criteria.Compilation
import CatalogAccess.Decision
import CatalogAccess.Json.Pretty
import CatalogAccess.Policy.Codec
import CatalogAccess.Synthesis

/-!
# Commands

Three commands work on files alone: `evaluate` decides a request by the policies in some files,
`compile` turns criteria into search queries, and `synthesize` expands a persona policy. A command
is given with its files, by path or, once they have been read, by content, of which there is none
when the file does not exist. `Invocation.run` is the output.
-/

namespace CatalogAccess

/-- A command with its files. -/
inductive Command (File : Type) where
  /-- Decides a request by the policies in some files. -/
  | evaluate (request : File) (policies : List File)
  /-- Turns criteria into search queries. -/
  | compile (criteria : File)
  /-- Expands a persona policy. -/
  | synthesize (persona policy : File)
deriving Repr

/-- A command with a configuration file. -/
structure Invocation (File : Type) where
  /-- The configuration file. -/
  config : Option File
  /-- The command. -/
  command : Command File
deriving Repr

/-- A request with the subjects that it is decided by. -/
structure EvaluateRequest where
  /-- The user. -/
  user : String
  /-- The action. -/
  action : String
  /-- The groups of the user. -/
  groups : NameSet := ∅
  /-- The roles. -/
  roles : List Role := []
  /-- The target, when it is an entity. -/
  entity : Option Entity
  /-- The target, when it is a relationship. -/
  relationship : Option Relationship

namespace EvaluateRequest

/-- Reads a request. -/
def ofDocument? (d : Document) : Option EvaluateRequest := do
  let r ← d.record? ["user", "action", "groups", "roles", "entity", "relationship"] 6
  let user ← r.required "user" Document.string?
  let action ← r.required "action" Document.string?
  let groups ← r.withDefault "groups" ∅ Document.names?
  let roles ← r.withDefault "roles" [] (Document.list? Role.ofDocument?)
  let entity ← r.optional "entity" Entity.ofDocument?
  let relationship ← r.optional "relationship" Relationship.ofDocument?
  return { user, action, groups, roles, entity, relationship }

/-- The target of a request, of which there must be exactly one. -/
def target? (r : EvaluateRequest) : Option Target :=
  match r.entity, r.relationship with
  | some e, none => some (.entity e)
  | none, some r => some (.relationship r)
  | _, _ => none

/-- What the request is decided by. -/
def view (r : EvaluateRequest) (c : Configuration) (policies : List Policy) : AccessView where
  policies := .ofPolicies policies
  subjects := ⟨r.roles, (∅ : NameMap NameSet).insert r.user r.groups⟩
  clauseLimit := c.clauseLimit

end EvaluateRequest

namespace Invocation

/-- Reads the JSON text of a file. -/
def readFile {α : Type} (read : Document → Option α) : Option String → Except AccessError α
  | none => .error (.io "there is no such file")
  | some text =>
    match (Document.parse? text).bind read with
    | some a => .ok a
    | none => .error (.json "unexpected content")

/-- The query of a condition tree, or `null`. -/
def treeQuery : Option Criteria.Tree → Json
  | none => .null
  | some t => t.toQuery

/-- The output of a command on the contents of its files. Fresh names are drawn from a number on. -/
def runCommand (draw : Nat) (config : Configuration) :
    Command (Option String) → Except AccessError Json
  | .evaluate request policies => do
    let r ← readFile EvaluateRequest.ofDocument? request
    let batches ← policies.mapM (readFile (Document.list? Policy.ofDocument?))
    match r.target? with
    | some t => return ((r.view config batches.flatten).decide r.user r.action t).toJson
    | none =>
      throw (.validation "request must carry exactly one of entity or relationship")
  | .compile criteria => do
    let c ← readFile Criteria.ofDocument? criteria
    return .obj [("endOneEntity", treeQuery c.endOne), ("endTwoEntity", treeQuery c.endTwo),
      ("entity", treeQuery c.entity)]
  | .synthesize persona policy => do
    let persona ← readFile Persona.ofDocument? persona
    let policy ← readFile PersonaPolicy.ofDocument? policy
    policy.check
    return .arr ((CatalogAccess.synthesize draw persona policy).map Policy.toJson)

/-- The output of an invocation. -/
def run (draw : Nat) (i : Invocation (Option String)) : Except AccessError Json := do
  let config ← match i.config with
    | none => pure {}
    | some file => Configuration.ofFile file
  runCommand draw config i.command

/-- The invocation with something done to each of its files. -/
def mapFiles {m : Type → Type} [Monad m] {File File' : Type} (f : File → m File')
    (i : Invocation File) : m (Invocation File') := do
  let config ← match i.config with
    | none => pure none
    | some file => some <$> f file
  let command ← match i.command with
    | .evaluate request policies => .evaluate <$> f request <*> policies.mapM f
    | .compile criteria => .compile <$> f criteria
    | .synthesize persona policy => .synthesize <$> f persona <*> f policy
  return ⟨config, command⟩

end Invocation

end CatalogAccess
