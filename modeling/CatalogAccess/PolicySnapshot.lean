import CatalogAccess.Policy
import CatalogAccess.Subjects
import CatalogAccess.Text

/-!
# Policy snapshots

A snapshot holds the policies that decisions consult, in three collections by service; data
policies are left out. `PolicySnapshot.relevant` selects from a collection the policies that may
apply to a request: only the first item of the effect in question is consulted.
-/

namespace CatalogAccess

/-- The policies that decisions consult, at one point in time. -/
structure PolicySnapshot where
  /-- The resource policies. -/
  resource : List Policy := []
  /-- The tag policies. -/
  tag : List Policy := []
  /-- The condition policies. -/
  condition : List Policy := []

/-- What a policy must satisfy to be relevant. -/
structure PolicyQuery where
  /-- The collection. -/
  service : Policy.Service
  /-- The effect. -/
  effect : Effect
  /-- The actions, one of which must be granted; any when there are none. -/
  actions : List String := []
  /-- The subject that must be named; anyone when missing. -/
  subject : Option Subject := none
  /-- What the name must start with. -/
  nameStart : Option String := none
  /-- The category; any when missing. -/
  category : Option Policy.Category := none

namespace PolicySnapshot

/-- Sorts policies into collections. -/
def ofPolicies (policies : List Policy) : PolicySnapshot where
  resource := policies.filter (·.service == .resource)
  tag := policies.filter (·.service == .tag)
  condition := policies.filter (·.service == .condition)

/-- The collection of a service. -/
def collection (s : PolicySnapshot) : Policy.Service → List Policy
  | .resource => s.resource
  | .tag => s.tag
  | .condition => s.condition
  | .data => []

/-- The number of policies. -/
def size (s : PolicySnapshot) : Nat := s.resource.length + s.tag.length + s.condition.length

/-- Whether there are no policies. -/
def isEmpty (s : PolicySnapshot) : Bool := s.size == 0

end PolicySnapshot

namespace PolicyQuery

/-- Whether the first item of the effect names the subject of the query. -/
def admitsSubject (q : PolicyQuery) (p : Policy) : Bool :=
  q.subject.all fun s =>
    (p.firstItem? q.effect).any fun i => i.includesSubject s.user s.groups s.roles

/-- Whether the first item of the effect grants one of the actions of the query. -/
def admitsActions (q : PolicyQuery) (p : Policy) : Bool :=
  q.actions.isEmpty || (p.firstItem? q.effect).any fun i => i.grantsAny q.actions

/-- Whether a policy is relevant: it is enabled, of the category asked for, has the right name, and
the first item of the effect names the subject and grants one of the actions. -/
def admits (q : PolicyQuery) (p : Policy) : Bool :=
  p.enabled && q.category.all (p.category == ·) && q.nameStart.all (Text.startsWith p.name) &&
    q.admitsSubject p && q.admitsActions p

end PolicyQuery

/-- The policies that are relevant to a query, in the order of their collection. -/
def PolicySnapshot.relevant (s : PolicySnapshot) (q : PolicyQuery) : List Policy :=
  (s.collection q.service).filter q.admits

end CatalogAccess
