import CatalogAccess.Pattern.Cache
import CatalogAccess.Deployment
import CatalogAccess.Main
import CatalogAccess.Proofs.Glob
import CatalogAccess.Proofs.Query.Criteria
import CatalogAccess.Proofs.Pattern
import CatalogAccess.Proofs.Pattern.Expression
import CatalogAccess.Proofs.Pattern.Cache
import CatalogAccess.Proofs.Query.Coverage
import CatalogAccess.Proofs.NameMap
import CatalogAccess.Proofs.Query.Prefilter
import CatalogAccess.Proofs.Query.Hits
import CatalogAccess.Proofs.Query.EntityCheck
import CatalogAccess.Proofs.Query.Ends
import CatalogAccess.Proofs.Query.RelationshipCheck
import CatalogAccess.Proofs.Query.Acceptance
import CatalogAccess.Proofs.Query.ClauseNames
import CatalogAccess.Proofs.Query.TypedConditions
import CatalogAccess.Proofs.Decision.Accessors
import CatalogAccess.Proofs.Saturation
import CatalogAccess.Proofs.Subjects
import CatalogAccess.Proofs.Operation
import CatalogAccess.Proofs.Page
import CatalogAccess.Proofs.Signature
import CatalogAccess.Proofs.Reconcile.Items
import CatalogAccess.Proofs.Reconcile.Policies
import CatalogAccess.Proofs.Reconcile.Outcomes
import CatalogAccess.Proofs.Reconcile.Grantees
import CatalogAccess.Proofs.Reconcile.Plan
import CatalogAccess.Proofs.Reconcile.Building
import CatalogAccess.Proofs.Reconcile.Drafts
import CatalogAccess.Proofs.Authority
import CatalogAccess.Proofs.Batches
import CatalogAccess.Proofs.FanOut
import CatalogAccess.Proofs.Synthesis
import CatalogAccess.Proofs.Outline
import CatalogAccess.Proofs.Targets
import CatalogAccess.Proofs.Persona.Placement
import CatalogAccess.Proofs.Persona.Planning
import CatalogAccess.Proofs.Persona.Reachable
import CatalogAccess.Proofs.Persona.Reconciliation
import CatalogAccess.Proofs.Persona.Replanning
import CatalogAccess.Proofs.Persona.Grants
import CatalogAccess.Proofs.Persona.Idempotence
import CatalogAccess.Proofs.Persona.Coexistence
import CatalogAccess.Proofs.Persona.Siblings
import CatalogAccess.Proofs.Persona.Exactness
import CatalogAccess.Proofs.Persona.Retrying
import CatalogAccess.Proofs.Uuid
import CatalogAccess.Proofs.Persona.Revisions
import CatalogAccess.Proofs.Persona.Registry
import CatalogAccess.Proofs.Persona.Marking
import CatalogAccess.Proofs.Persona.Switching
import CatalogAccess.Proofs.Persona.Revocation
import CatalogAccess.Proofs.Persona.Effects
import CatalogAccess.Proofs.Persona.InStep
import CatalogAccess.Proofs.Persona.Upkeep
import CatalogAccess.Proofs.Persona.Putting
import CatalogAccess.Proofs.Persona.Completion
import CatalogAccess.Proofs.Persona.Orderly
import CatalogAccess.Proofs.Persona.Refusals
import CatalogAccess.Proofs.Persona.Drafting
import CatalogAccess.Proofs.Persona.Administration
import CatalogAccess.Proofs.Audit
import CatalogAccess.Proofs.Query.Malformed
import CatalogAccess.Proofs.Persona.Distinctness
import CatalogAccess.Proofs.Persona.Membership
import CatalogAccess.Proofs.Query.Accuracy
import CatalogAccess.Proofs.RoundTrip
import CatalogAccess.Proofs.Reconcile.Stripping
import CatalogAccess.Proofs.Reconcile.Undoing
import CatalogAccess.Proofs.Signature.Contents
import CatalogAccess.Proofs.Synthesis.Union
import CatalogAccess.Proofs.Synthesis.Provenance
import CatalogAccess.Proofs.Synthesis.Extent
import CatalogAccess.Proofs.Listing
import CatalogAccess.Proofs.Ancestors
