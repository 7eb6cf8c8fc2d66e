import CatalogAccess.Authority
import CatalogAccess.PersonaCatalog
import CatalogAccess.Reconcile.Plan
import CatalogAccess.Synthesis

/-!
# The state behind persona management

Personas are managed on two stores, the policy authority and the persona catalog. `System` joins
them with the supply of fresh identifiers and with the faults that calls of the stores meet. An
`Operation` changes the system and ends with a result or with an error; what it has written before
an error stays written.

Calls are named after what they ask for and carry one argument. A fault names a call, or a call
with its argument.
-/

namespace CatalogAccess

/-- The calls that do not go through. -/
structure Faults where
  /-- The calls that fail before anything happens. -/
  failing : NameSet := ∅
  /-- The calls that never finish. -/
  hanging : NameSet := ∅

namespace Faults

/-- Whether a call with an argument is among the calls named. -/
def concerns (calls : NameSet) (call argument : String) : Bool :=
  calls.contains call || calls.contains (call ++ ":" ++ argument)

/-- Fails when the call does. -/
def check (f : Faults) (call argument : String) : Except AccessError Unit :=
  if concerns f.failing call argument then .error (.authority call "injected") else .ok ()

/-- Fails when the call does, or when it does not finish before its deadline. -/
def checkWithin (f : Faults) (deadlineMs : Nat) (label call argument : String) :
    Except AccessError Unit :=
  if concerns f.hanging call argument then .error (.timeout label deadlineMs)
  else f.check call argument

end Faults

/-- The stores of persona management. -/
structure System where
  /-- The policy authority. -/
  authority : Authority := {}
  /-- The persona catalog. -/
  catalog : PersonaCatalog := {}
  /-- How many fresh identifiers have been drawn. -/
  drawn : Nat := 0
  /-- The faults that calls meet. -/
  faults : Faults := {}

/-- A change of the system that ends with a result or with an error. -/
abbrev Operation (α : Type) := ExceptT AccessError (StateM System) α

namespace Operation

/-- Reads the system. -/
def read {α : Type} (f : System → Except AccessError α) : Operation α := fun s => (f s, s)

/-- Writes to the system; after an error it is as before. -/
def write {α : Type} (f : System → Except AccessError (α × System)) : Operation α := fun s =>
  match f s with
  | .ok (a, s') => (.ok a, s')
  | .error e => (.error e, s)

/-- Draws fresh identifiers, and returns the number of the first. -/
def draw (count : Nat) : Operation Nat := fun s =>
  (.ok s.drawn, { s with drawn := s.drawn + count })

/-- A fresh identifier. -/
def fresh : Operation String := do
  let n ← draw 1
  return Uuid.ofDraw n

/-- The provisional policies of a persona policy, under fresh names. -/
def synthesize (persona : Persona) (policy : PersonaPolicy) (actions : NameSet) :
    Operation (List Policy) := do
  let n ← draw (Synthesis.provisionals persona policy actions).length
  return synthesizeActions n persona policy actions

end Operation

namespace System

/-- The persona of an identifier. -/
def persona? (s : System) (guid : String) : Except AccessError (Option Persona) := do
  s.faults.check "get_persona" guid
  return s.catalog.personas.get? guid

/-- All personas. -/
def personas (s : System) : Except AccessError (List Persona) := do
  s.faults.check "list_personas" ""
  return s.catalog.personas.values

/-- The persona policy of an identifier. -/
def personaPolicy? (s : System) (guid : String) : Except AccessError (Option PersonaPolicy) := do
  s.faults.check "get_persona_policy" guid
  return s.catalog.policies.get? guid

/-- The policies of a persona. -/
def policiesOf (s : System) (personaGuid : String) : Except AccessError (List PersonaPolicy) := do
  s.faults.check "persona_policies" personaGuid
  return s.catalog.policiesOf personaGuid

/-- The role of an identifier. -/
def role? (s : System) (id : String) : Except AccessError (Option Role) := do
  s.faults.check "get_role" id
  return s.authority.roles.get? id

/-- The policies with a label, read page by page. -/
def policiesWithLabel (s : System) (pageSize : Nat) (label : String) :
    Except AccessError (List Policy) := do
  s.faults.check "list_by_label" label
  return Page.drain pageSize (s.authority.withLabel label)

/-- A policy of the authority with the same target as a provisional one, looked for page by page
among those with overlapping resources. -/
def sameTarget? (s : System) (pageSize : Nat) (provisional : Policy) :
    Except AccessError (Option Policy) := do
  s.faults.check "list_by_resources" provisional.service.text
  return Page.find? pageSize (·.sameTarget provisional)
    (s.authority.withResources provisional.service provisional.resources)

/-- The system with a new state of the authority. -/
def withAuthority {α : Type} (s : System) (r : α × Authority) : α × System :=
  (r.1, { s with authority := r.2 })

/-- The system with a new state of the catalog. -/
def withCatalog {α : Type} (s : System) (r : α × PersonaCatalog) : α × System :=
  (r.1, { s with catalog := r.2 })

end System

namespace Operation

/-- Creates a role. -/
def createRole (r : Role) : Operation Role := write fun s => do
  s.faults.check "create_role" r.name
  return s.withAuthority (← s.authority.createRole r)

/-- Replaces a role. -/
def updateRole (r : Role) : Operation Role := write fun s => do
  s.faults.check "update_role" r.name
  return s.withAuthority (← s.authority.updateRole r)

/-- Deletes a role. -/
def deleteRole (id : String) : Operation Unit := write fun s => do
  s.faults.check "delete_role" id
  return ((), { s with authority := s.authority.deleteRole id })

/-- Saves a persona, under a fresh identifier when it has none. -/
def savePersona (p : Persona) : Operation Persona := do
  let guid ← fresh
  write fun s => do
    s.faults.check "save_persona" p.name
    return s.withCatalog (s.catalog.savePersona guid p)

/-- Saves a persona policy, under a fresh identifier when it has none. -/
def savePersonaPolicy (p : PersonaPolicy) : Operation PersonaPolicy := do
  let guid ← fresh
  write fun s => do
    s.faults.check "save_persona_policy" p.name
    return s.withCatalog (s.catalog.savePolicy guid p)

/-- Deletes a persona with its policies. -/
def deletePersona (guid : String) : Operation Unit := write fun s => do
  s.faults.check "delete_persona" guid
  return ((), { s with catalog := s.catalog.deletePersona guid })

/-- Deletes a persona policy. -/
def deletePersonaPolicy (guid : String) : Operation Unit := write fun s => do
  s.faults.check "delete_persona_policy" guid
  return ((), { s with catalog := s.catalog.deletePolicy guid })

end Operation

end CatalogAccess
