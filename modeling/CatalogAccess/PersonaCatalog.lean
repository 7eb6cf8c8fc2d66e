import CatalogAccess.Persona

/-!
# The persona catalog

The catalog stores personas and persona policies by identifier. An object without identifier gets a
fresh one when it is saved. The policies of a persona are deleted with it.
-/

namespace CatalogAccess

/-- The state of the persona catalog. -/
structure PersonaCatalog where
  /-- The personas by identifier. -/
  personas : NameMap Persona := ∅
  /-- The persona policies by identifier. -/
  policies : NameMap PersonaPolicy := ∅

namespace PersonaCatalog

/-- Stores a persona, under the fresh identifier given when it has none. -/
def savePersona (c : PersonaCatalog) (fresh : String) (p : Persona) : Persona × PersonaCatalog :=
  let saved := if p.guid.isEmpty then { p with guid := fresh } else p
  (saved, { c with personas := c.personas.insert saved.guid saved })

/-- Stores a persona policy, under the fresh identifier given when it has none. -/
def savePolicy (c : PersonaCatalog) (fresh : String) (p : PersonaPolicy) :
    PersonaPolicy × PersonaCatalog :=
  let saved := if p.guid.isEmpty then { p with guid := fresh } else p
  (saved, { c with policies := c.policies.insert saved.guid saved })

/-- The policies of a persona, by identifier. -/
def policiesOf (c : PersonaCatalog) (personaGuid : String) : List PersonaPolicy :=
  c.policies.values.filter (·.personaGuid == personaGuid)

/-- Deletes a persona with its policies. -/
def deletePersona (c : PersonaCatalog) (guid : String) : PersonaCatalog where
  personas := c.personas.erase guid
  policies := c.policies.filter fun _ p => p.personaGuid ≠ guid

/-- Deletes a persona policy. -/
def deletePolicy (c : PersonaCatalog) (guid : String) : PersonaCatalog :=
  { c with policies := c.policies.erase guid }

/-- Orders objects by name, and those of one name by identifier. -/
def nameOrder (a b : String × String) : Bool := a.1 < b.1 || (a.1 == b.1 && a.2 ≤ b.2)

/-- The personas by name, each with its policies by name. -/
def byName (c : PersonaCatalog) : List (Persona × List PersonaPolicy) :=
  (c.personas.values.mergeSort fun a b => nameOrder (a.name, a.guid) (b.name, b.guid)).map fun p =>
    (p, (c.policiesOf p.guid).mergeSort fun a b => nameOrder (a.name, a.guid) (b.name, b.guid))

end PersonaCatalog

end CatalogAccess
