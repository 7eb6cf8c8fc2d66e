import CatalogAccess.Proofs.Decision.Outcome
import CatalogAccess.Proofs.Persona.Idempotence
import Mathlib.Data.List.Sort

/-!
# What a request grants

A metadata policy that allows a basic operation is there to let those who hold the role of its
persona take it. `putPolicy_grants` says how far it does: the authority then has a policy with an item
for the role (`Policy.Offers`), and decisions heed the item when it is the first of its list. Policies
are shared by all personas with the same target, and their items stand in the order in which the
personas came, so that the item of the persona comes first unless another one was there before
(`putPolicy_unheeded`).
-/

namespace CatalogAccess

/-- The snapshot in which one user holds one role. -/
def Subjects.holding (user role : String) : Subjects := { roles := [{ name := role, users := [user] }] }

theorem Subjects.holding_holds_iff {user role r : String} :
    (holding user role).Holds user r ↔ r = role := by
  constructor
  · intro h
    obtain ⟨x, hx, rfl⟩ := h.exists_role
    obtain rfl := List.mem_singleton.1 hx
    rfl
  · rintro rfl
    exact .direct (r := { name := r, users := [user] }) List.mem_cons_self (.inl List.mem_cons_self)

namespace Policy

/-- An item that names one role names those who hold it. -/
theorem Item.NamesOneRole.names_iff {i : Item} (h : i.NamesOneRole) {s : Subjects} {user : String} :
    i.Names s user ↔ ∃ r, i.roles = [r] ∧ s.Holds user r := by
  obtain ⟨r, hr⟩ := h.roles
  simp [Item.Names, h.users, h.groups, hr]

/-- A resource policy has one item that grants an action to a role, and it is about a target. -/
structure Offers (p : Policy) (role action : String) (t : Target) : Prop where
  /-- The policy is a resource policy. -/
  service : p.service = .resource
  /-- The policy is in force. -/
  enabled : p.enabled = true
  /-- The policy is about targets of this category. -/
  category : p.category = t.category
  /-- The policy is about the target, whoever asks. -/
  target : ∀ user, p.Concerns .resource user t
  /-- Every grant names one role. -/
  tidy : TidyList Item.itself p.allowItems
  /-- One grant names the role, and it is of the action. -/
  once : NamedOnce Item.itself p.allowItems role fun i => action ∈ i.accesses

variable {p : Policy} {role action : String} {t : Target}

/-- Some grant comes first. -/
theorem Offers.firstItem (h : p.Offers role action t) :
    ∃ first, p.firstItem? .allow = some first ∧ first ∈ p.allowItems := by
  obtain ⟨x, hx, -⟩ := h.once
  have hmem : x ∈ p.allowItems := (List.mem_filter.1 (hx ▸ List.mem_cons_self)).1
  obtain ⟨first, rest, hitems⟩ := List.exists_cons_of_ne_nil (List.ne_nil_of_mem hmem)
  exact ⟨first, congrArg List.head? hitems, hitems ▸ List.mem_cons_self⟩

/-- The policy matches for all who hold the role exactly when the grant to the role is its first. -/
theorem Offers.matches_iff (h : p.Offers role action t) {first : Item}
    (hfirst : p.firstItem? .allow = some first) (user : String) :
    (∀ s : Subjects, s.Holds user role → p.Matches .resource s user action t .allow) ↔
      first.roles = [role] := by
  have hmem : first ∈ p.allowItems := List.mem_of_head? hfirst
  have hone : first.NamesOneRole := h.tidy.each first hmem
  constructor
  · -- Somebody may hold the role and no other.
    intro hall
    obtain ⟨i, hi, -, hnames⟩ :=
      (hall (.holding user role) (Subjects.holding_holds_iff.2 rfl)).item
    obtain rfl : i = first := Option.some.inj (hi.symm.trans hfirst)
    obtain ⟨r, hr, hholds⟩ := hone.names_iff.1 hnames
    rw [hr, Subjects.holding_holds_iff.1 hholds]
  · intro hroles s hs
    -- The first grant is the one that names the role.
    obtain ⟨x, hx, haction⟩ := h.once
    have hfound : first ∈ p.allowItems.filter fun y => (Item.itself y).hasRole role :=
      List.mem_filter.2 ⟨hmem, hone.hasRole_iff.2 hroles⟩
    rw [hx, List.mem_singleton] at hfound
    exact ⟨h.enabled, h.category, ⟨first, hfirst, hfound ▸ haction,
      hone.names_iff.2 ⟨role, hroles, hs⟩⟩, h.target user⟩

end Policy

/-- An action that some policy of a list grants is allowed unless one denies it. -/
theorem AccessView.decide_allowed_of_matches {v : AccessView} {policies : List Policy}
    (hv : v.policies = .ofPolicies policies) {user action : String} {t : Target} {p : Policy}
    (hp : p ∈ policies) (hservice : p.service = .resource)
    (hmatches : p.Matches .resource v.subjects user action t .allow) :
    (v.decide user action t).allowed = true ↔ ¬ v.HasMatch user action t .deny := by
  have hconsulted : (.resource, p) ∈ v.consulted := by
    have hmem := (mem_consulted_ofPolicies (v := v) (c := (.resource, p))).2
      ⟨hp, hservice, Policy.Service.noConfusion⟩
    rwa [← hv] at hmem
  have hallow : v.applying user action t .allow ≠ [] := fun hnil =>
    applying_eq_nil_iff.1 hnil ⟨_, hconsulted, hmatches⟩
  rw [decide_allowed_iff, applying_eq_nil_iff, and_iff_right hallow]

/-! ### The policy that carries a grant -/

namespace Synthesis

/-- The resources of entities of some types among assets admit an entity of one of the types that has
the name of an asset. -/
theorem entityResources_admit {types assets : List String} {e : Entity}
    (htypes : types = [wildcard] ∨ types = metadataTypes)
    (htype : ∃ type ∈ e.typeName :: e.superTypeNames, type ∈ metadataTypes) {name : String}
    (hname : e.qualifiedName? = some name) (hasset : name ∈ assets)
    (hliteral : Pattern.isLiteral name = true) {d : String} {values : List String}
    (hd : (d, values) ∈ entityResources types ⟨hierarchicalAssets assets, types⟩) (user : String) :
    (Target.entity e).Admits user d values := by
  have hself : ∀ {text : String}, Pattern.isLiteral text = true →
      Glob.Matches (Pattern.glob text user) text.toList := fun h => by
    rw [Pattern.glob_of_isLiteral h]
    exact Glob.matches_ofText_iff.2 rfl
  simp only [entityResources, List.mem_cons, Prod.mk.injEq, List.not_mem_nil, or_false] at hd
  rcases hd with ⟨rfl, rfl⟩ | ⟨rfl, rfl⟩ | ⟨rfl, rfl⟩
  · -- The types.
    rcases htypes with rfl | rfl
    · exact .inl List.mem_cons_self
    · refine .inr fun seen hseen => ?_
      obtain rfl : e.typeName :: e.superTypeNames = seen := Option.some.inj hseen
      obtain ⟨type, hmem, hmetadata⟩ := htype
      have hplain : ∀ text ∈ metadataTypes, Pattern.isLiteral text = true := by decide
      exact ⟨type, hmem, type, hmetadata, hself (hplain type hmetadata)⟩
  · -- The classifications, left open.
    exact .inl List.mem_cons_self
  · -- The assets.
    refine .inr fun seen hseen => ?_
    obtain rfl : e.qualifiedName?.toList = seen := Option.some.inj hseen
    exact ⟨name, by simp [hname], name, List.mem_append_left _ hasset, hself hliteral⟩

/-- The resources of entities are not about relationships. -/
theorem entityResources_contains (types : List String) (s : Scope) :
    (NameMap.ofList (entityResources types s)).contains Dimension.relationshipType = false := by
  have hmem : Dimension.relationshipType ∉
      [Dimension.entityType, Dimension.entityClassification, Dimension.entity] := by decide
  rw [← Bool.not_eq_true, NameMap.contains_ofList]
  exact hmem

end Synthesis

namespace Policy

variable {p q : Policy} {role : String}

/-- Synthetic policies with the same target are about the same, if it fits into memory. -/
theorem IsSynthetic.concerns (hp : p.IsSynthetic) (hq : q.IsSynthetic)
    (hshort : (ResourceMap.canonicalBytes q.resources).length < 2 ^ 60)
    (htarget : p.target = q.target) {user : String} {t : Target}
    (h : q.Concerns .resource user t) : p.category = q.category ∧ p.Concerns .resource user t := by
  have hbytes := canonicalBytes_eq_of_target htarget
  have hshort' := hshort
  rw [← hbytes] at hshort'
  -- The same dimensions are declared, with the same values.
  have hsame : ∀ d, p.resources.contains d = true ↔ q.resources.contains d = true := by
    intro d
    simp only [NameMap.contains, Option.isSome_iff_exists]
    constructor
    · rintro ⟨vs, hvs⟩
      obtain ⟨ws, hws, -⟩ := ResourceMap.canonicalBytes_injective hp.plain hq.plain hshort' hbytes hvs
      exact ⟨ws, hws⟩
    · rintro ⟨vs, hvs⟩
      obtain ⟨ws, hws, -⟩ :=
        ResourceMap.canonicalBytes_injective hq.plain hp.plain hshort hbytes.symm hvs
      exact ⟨ws, hws⟩
  constructor
  · rw [hp.category, hq.category]
    simp only [hsame]
  · intro d vs hd
    obtain ⟨ws, hws, hperm⟩ :=
      ResourceMap.canonicalBytes_injective hp.plain hq.plain hshort' hbytes hd
    exact (h d ws hws).of_subset hperm.symm.subset

/-- A tidy policy that carries a grant to a role offers it. -/
theorem Carries.offers (h : p.Carries q role) (htidy : p.Tidy) (hp : p.IsSynthetic)
    (hq : q.IsSynthetic) (hshort : (ResourceMap.canonicalBytes q.resources).length < 2 ^ 60)
    (hservice : q.service = .resource) {accesses : NameSet}
    (hitem : .forRole accesses role ∈ q.allowItems) {action : String} (haction : action ∈ accesses)
    {t : Target} (hcategory : q.category = t.category)
    (hconcerns : ∀ user, q.Concerns .resource user t) : p.Offers role action t := by
  have hsame := fun user => hp.concerns hq hshort h.target (hconcerns user)
  constructor
  · exact (service_eq_of_target h.target).trans hservice
  · exact hp.enabled
  · exact (hsame "").1.trans hcategory
  · exact fun user => (hsame user).2
  · exact htidy.allow
  · obtain ⟨x, hx, haccesses⟩ := h.allow _ hitem
    have hgranted : action ∈ x.accesses := by rw [haccesses]; exact haction
    exact ⟨x, hx, hgranted⟩

end Policy

namespace PersonaService

open Operation (runOn)

variable {σ : ServiceSettings} {subjects : Subjects} {user : String}
  {policy : PersonaPolicy} {persona : Persona} {o : PolicyOutcome} {s s' : System}

/-- After a request for an allowing metadata policy of a persona in use the authority has a policy that
offers the basic operations asked for on the entities named as assets. -/
theorem putPolicy_offers (hs : s.Reachable)
    (hrun : runOn (putPolicy σ subjects user policy) s = (.ok o, s'))
    (hcomplete : o.report.isComplete = true)
    (hpersona : s.catalog.personas.get? policy.personaGuid = some persona)
    (henabled : persona.enabled = true) (hcategory : o.policy.category = .metadata)
    (hallow : o.policy.allow = true) {draw : Nat}
    (hshort : ∀ q ∈ synthesize draw persona o.policy,
      (ResourceMap.canonicalBytes q.resources).length < 2 ^ 60)
    {action : String} (hasked : action ∈ o.policy.actions) (hbasic : action ∈ Action.entityActions)
    {e : Entity} (htype : ∃ type ∈ e.typeName :: e.superTypeNames, type ∈ Synthesis.metadataTypes)
    {asset : String} (hname : e.qualifiedName? = some asset) (hasset : asset ∈ o.policy.assets)
    (hliteral : Pattern.isLiteral asset = true) :
    ∃ p ∈ s'.authority.withLabel (Label.personaPolicy o.policy.guid),
      p.Offers persona.roleName action (.entity e) := by
  obtain ⟨q, hq, hservice, ⟨accesses, hitems, haction⟩, types, htypes, hresources⟩ :=
    exists_grant_synthesize draw persona hcategory hallow hasked hbasic
  have henforces := putPolicy_enforces hs hrun hcomplete hpersona henabled hshort
    (List.ne_nil_of_mem hasset)
  obtain ⟨p, hp, hcarries⟩ := henforces.carried q hq
  obtain ⟨⟨id, hid⟩, -⟩ := Authority.mem_withLabel.1 hp
  have hstored := (hs.putPolicy hrun).wellKept.toWellStored
  have hsynthetic : q.IsSynthetic :=
    (synthesizeActions_areProvisional draw persona o.policy o.policy.actions).synthetic q hq
  have hentity : q.category = .entity := by
    rw [hsynthetic.category, hresources, Synthesis.entityResources_contains]
    rfl
  refine ⟨p, hp, hcarries.offers (hstored.tidy id p hid) (hstored.synthetic id p hid) hsynthetic
    (hshort q hq) hservice (hitems ▸ List.mem_cons_self) haction hentity fun reader d values hd => ?_⟩
  rw [Policy.resource?, hresources] at hd
  exact Synthesis.entityResources_admit htypes htype hname hasset hliteral
    (NameMap.mem_of_mem_ofList (NameMap.get?_eq_some_iff.1 hd)) reader

/-- After a request for an allowing metadata policy of a persona in use was carried out in full, the
authority has a policy of the persona policy with exactly one grant to the role of the persona, of each
basic operation asked for on the entities named as assets. The policy matches for all who hold the role
if and only if that grant is its first, and then all who hold the role may take the action unless some
policy denies it. -/
theorem putPolicy_grants (hs : s.Reachable)
    (hrun : runOn (putPolicy σ subjects user policy) s = (.ok o, s'))
    (hcomplete : o.report.isComplete = true)
    (hpersona : s.catalog.personas.get? policy.personaGuid = some persona)
    (henabled : persona.enabled = true) (hcategory : o.policy.category = .metadata)
    (hallow : o.policy.allow = true) {draw : Nat}
    (hshort : ∀ q ∈ synthesize draw persona o.policy,
      (ResourceMap.canonicalBytes q.resources).length < 2 ^ 60)
    {action : String} (hasked : action ∈ o.policy.actions) (hbasic : action ∈ Action.entityActions)
    {e : Entity} (htype : ∃ type ∈ e.typeName :: e.superTypeNames, type ∈ Synthesis.metadataTypes)
    {asset : String} (hname : e.qualifiedName? = some asset) (hasset : asset ∈ o.policy.assets)
    (hliteral : Pattern.isLiteral asset = true) (reader : String) :
    ∃ p ∈ s'.authority.withLabel (Label.personaPolicy o.policy.guid), ∃ first,
      p.Offers persona.roleName action (.entity e) ∧ p.firstItem? .allow = some first ∧
      ((∀ snapshot : Subjects, snapshot.Holds reader persona.roleName →
        p.Matches .resource snapshot reader action (.entity e) .allow) ↔
          first.roles = [persona.roleName]) ∧
      (first.roles = [persona.roleName] → ∀ view : AccessView,
        view.policies = .ofPolicies s'.authority.policies.values →
        view.subjects.Holds reader persona.roleName →
        ((view.decide reader action (.entity e)).allowed = true ↔
          ¬ view.HasMatch reader action (.entity e) .deny)) := by
  obtain ⟨p, hp, hoffers⟩ := putPolicy_offers hs hrun hcomplete hpersona henabled hcategory hallow
    hshort hasked hbasic htype hname hasset hliteral
  obtain ⟨first, hfirst, -⟩ := hoffers.firstItem
  have hmatches := hoffers.matches_iff hfirst reader
  refine ⟨p, hp, first, hoffers, hfirst, hmatches, fun hroles view hview hholds => ?_⟩
  exact AccessView.decide_allowed_of_matches hview (List.mem_filter.1 hp).1 hoffers.service
    (hmatches.2 hroles view.subjects hholds)

/-! ### Two personas that ask for the same -/

/-- The values of a dimension may be sorted by insertion, which is done by structural recursion. -/
theorem dimensionBytes_eq_insertionSort (d : String) (vs : List String) :
    ResourceMap.dimensionBytes d vs = utf8 d ++ 0x1f ::
      ((vs.insertionSort (· ≤ ·)).flatMap ResourceMap.valueBytes ++ [0x1e]) := by
  rw [ResourceMap.dimensionBytes, ← List.mergeSort_eq_insertionSort]

/-- A persona policy on reading what is called db. -/
def readPolicy (persona : String) : PersonaPolicy where
  guid := persona
  personaGuid := persona
  name := persona
  category := .metadata
  actions := NameSet.ofList [Action.entityRead]
  assets := ["db"]
  connectionId := some "warehouse"

/-- The process called db. -/
def process : Entity := Entity.withQualifiedName { typeName := "Process" } "db"

/-- The subjects when one user administers the connection. -/
def administrators : Subjects := .holding "root" (connectionAdminRole "warehouse")

/-- The system after two personas have been created. -/
def staffed : System :=
  Request.run {} (Request.run {} {} (.createPersona { guid := "analysts", name := "analysts" }))
    (.createPersona { guid := "stewards", name := "stewards" })

theorem staffed_reachable : staffed.Reachable :=
  (System.Reachable.empty.request _ _).request _ _

/-- Whoever holds the role of the first persona that asks for a grant has it. -/
theorem putPolicy_grants_first_persona :
    ∃ s', ∃ persona : Persona, ∃ o, ∃ p ∈ s'.authority.withLabel (Label.personaPolicy o.policy.guid), ∃ first,
      runOn (putPolicy {} administrators "root" (readPolicy "analysts")) staffed = (.ok o, s') ∧
      p.Offers persona.roleName Action.entityRead (.entity process) ∧
      p.firstItem? .allow = some first ∧ first.roles = [persona.roleName] ∧
      ∀ view : AccessView, view.policies = .ofPolicies s'.authority.policies.values →
        view.subjects.Holds "reader" persona.roleName →
        ((view.decide "reader" Action.entityRead (.entity process)).allowed = true ↔
          ¬ view.HasMatch "reader" Action.entityRead (.entity process) .deny) := by
  have htest : (staffed.catalog.personas.get? "analysts").any (fun persona => persona.enabled &&
      (putPolicy {} administrators "root" (readPolicy "analysts")).passes staffed fun o s' =>
        o.report.isComplete && decide (o.policy.category = .metadata) && o.policy.allow &&
        o.policy.actions.contains Action.entityRead && o.policy.assets.contains "db" &&
        (synthesize 0 persona o.policy).all (fun q =>
          decide ((ResourceMap.canonicalBytes q.resources).length < 2 ^ 60)) &&
        (s'.authority.withLabel (Label.personaPolicy o.policy.guid)).all fun p =>
          (p.firstItem? .allow).all fun i => decide (i.roles = [persona.roleName])) = true := by
    unfold ResourceMap.canonicalBytes
    simp only [dimensionBytes_eq_insertionSort]
    decide +kernel
  obtain ⟨persona, hpersona, hpasses⟩ := (Option.any_eq_true _ _).1 htest
  rw [Bool.and_eq_true] at hpasses
  obtain ⟨o, s', hrun, hall⟩ := Operation.exists_of_passes hpasses.2
  simp only [Bool.and_eq_true, List.all_eq_true, decide_eq_true_eq, NameSet.contains_iff,
    List.contains_iff_mem] at hall
  obtain ⟨⟨⟨⟨⟨⟨hcomplete, hcategory⟩, hallow⟩, hasked⟩, hasset⟩, hshort⟩, hfirst⟩ := hall
  obtain ⟨p, hp, first, hoffers, hitem, -, hdecide⟩ :=
    putPolicy_grants staffed_reachable hrun hcomplete hpersona hpasses.1 hcategory hallow hshort
      hasked (by decide) (e := process) ⟨"Process", List.mem_cons_self, by decide⟩ rfl hasset
      (by decide) "reader"
  have hroles : first.roles = [persona.roleName] := by
    have htest := hfirst p hp
    rw [hitem, Option.all_some, decide_eq_true_eq] at htest
    exact htest
  exact ⟨s', persona, o, p, hp, first, hrun, hoffers, hitem, hroles, hdecide hroles⟩

/-- Whoever holds the role of the second persona that asks for a grant is refused, although nothing
denies it and no write has failed. -/
theorem putPolicy_unheeded :
    ∃ s s', ∃ persona : Persona, ∃ o, ∃ view : AccessView,
      s = Request.run {} staffed (.putPolicy administrators "root" (readPolicy "analysts")) ∧
      s.Reachable ∧
      runOn (putPolicy {} administrators "root" (readPolicy "stewards")) s = (.ok o, s') ∧
      o.report.isComplete = true ∧ o.policy.isActive = true ∧
      s.catalog.personas.get? o.policy.personaGuid = some persona ∧ persona.enabled = true ∧
      o.policy.category = .metadata ∧ o.policy.allow = true ∧
      Action.entityRead ∈ o.policy.actions ∧ "db" ∈ o.policy.assets ∧
      view.policies = .ofPolicies s'.authority.policies.values ∧
      view.subjects.Holds "reader" persona.roleName ∧
      (view.decide "reader" Action.entityRead (.entity process)).allowed = false ∧
      ¬ view.HasMatch "reader" Action.entityRead (.entity process) .deny := by
  let s := Request.run {} staffed (.putPolicy administrators "root" (readPolicy "analysts"))
  have htest : (s.catalog.personas.get? "stewards").any (fun persona => persona.enabled &&
      (putPolicy {} administrators "root" (readPolicy "stewards")).passes s fun o s' =>
        let view : AccessView := ⟨.ofPolicies s'.authority.policies.values,
          .holding "reader" persona.roleName, 1024⟩
        o.report.isComplete && o.policy.isActive && decide (o.policy.personaGuid = "stewards") &&
        decide (o.policy.category = .metadata) && o.policy.allow &&
        o.policy.actions.contains Action.entityRead && o.policy.assets.contains "db" &&
        !(view.decide "reader" Action.entityRead (.entity process)).allowed &&
        (view.applying "reader" Action.entityRead (.entity process) .deny).isEmpty) = true := by
    -- The policy of the first persona is found by comparing bytes.
    unfold putPolicy planPolicy planCreate placeAll place System.sameTarget? Policy.sameTarget
      ResourceMap.canonicalBytes
    simp only [dimensionBytes_eq_insertionSort]
    decide +kernel
  obtain ⟨persona, hpersona, hpasses⟩ := (Option.any_eq_true _ _).1 htest
  rw [Bool.and_eq_true] at hpasses
  obtain ⟨o, s', hrun, hall⟩ := Operation.exists_of_passes hpasses.2
  simp only [Bool.and_eq_true, decide_eq_true_eq, NameSet.contains_iff, List.contains_iff_mem,
    Bool.not_eq_true', List.isEmpty_iff, AccessView.applying_eq_nil_iff] at hall
  obtain ⟨⟨⟨⟨⟨⟨⟨⟨hcomplete, hactive⟩, hguid⟩, hcategory⟩, hallow⟩, hasked⟩, hasset⟩, hrefused⟩, hdeny⟩ :=
    hall
  exact ⟨s, s', persona, o, _, rfl, staffed_reachable.request _ _, hrun, hcomplete, hactive,
    hguid ▸ hpersona, hpasses.1, hcategory, hallow, hasked, hasset, rfl,
    Subjects.holding_holds_iff.2 rfl, hrefused, hdeny⟩

end PersonaService

end CatalogAccess
