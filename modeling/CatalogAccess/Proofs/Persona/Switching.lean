import CatalogAccess.Proofs.Persona.Marking
import CatalogAccess.Proofs.Persona.Retrying

/-!
# Switching personas on and off

A persona that is deleted or disabled loses all its grants, and one that is enabled gets the grants of
all its policies in use (`PersonaService.switch_complete`). Cleaning up strips the policies with the
label of the persona, which are all that name its role (`Plan.stripAll_clears`). Enabling places the
provisional policies of several persona policies in one plan (`PersonaService.foldlM_planCreate_ok`),
where none undoes another, since the policies in use of a persona have different targets
(`PersonaService.Provisions.areProvisional`).
-/

namespace CatalogAccess

open Operation (runOn)

/-! ### Cleaning up -/

/-- Stripping all policies with a label that is dropped yields a working copy. -/
theorem Plan.stripAll_tracks {a : Authority} (ha : Policy.WellStored a.policies) (role : String)
    {label : String} {dropped : List String} (hlabel : label ∈ dropped) :
    (Plan.stripAll {} (a.withLabel label) role dropped).Tracks a.policies := by
  exact (Plan.stripAll_withLabel ha role hlabel).tracks (Plan.tracks_empty _) ha
    fun p hp => (Authority.mem_withLabel.1 hp).1

/-- Stripping a role from all policies with a label that marks it leaves no item of the role. -/
theorem Plan.stripAll_clears {a a' : Authority} {role label : String} {dropped : List String}
    (ha : a.WellKept) (hmarks : a.Marks role label) (hlabel : label ∈ dropped)
    (hrealized : (Plan.stripAll {} (a.withLabel label) role dropped).Realized a a') :
    ∀ p ∈ a'.policies.values, p.itemsNaming role = ∅ := by
  have hstrips := Plan.stripAll_withLabel ha.toWellStored role hlabel
  intro p hp
  obtain ⟨id, hget⟩ := NameMap.mem_values_iff.1 hp
  rcases hrealized.cases hget with ⟨t, ht, hsettled⟩ | ⟨huntracked, hbefore⟩ | ⟨c, hc, -⟩
  · rcases hstrips.cases ha.toWellStored (fun p hp => (Authority.mem_withLabel.1 hp).1) ht with
      ht | ⟨old, -, hold, rfl⟩
    · exact absurd ht.symm (Option.some_ne_none t)
    · obtain rfl := Tracked.policy_of_settled hsettled
      exact Policy.itemsNaming_stripped (ha.tidy id old hold) role dropped
  · -- What names the role has the label, and would be tracked.
    refine Classical.byContradiction fun hnamed => ?_
    have hmem : p ∈ a.withLabel label :=
      Authority.mem_withLabel.2 ⟨⟨id, hbefore⟩, hmarks id p hbefore hnamed⟩
    obtain ⟨p', -, -, ht⟩ := hstrips.stripped p hmem id (ha.id id p hbefore)
    exact Option.some_ne_none _ (ht.symm.trans huntracked)
  · rw [hstrips.creates] at hc
    exact absurd hc List.not_mem_nil

/-- The labels that a persona drops when it cleans up: its own and those of its policies. -/
def Persona.cleanedLabels (persona : Persona) (c : PersonaCatalog) : List String :=
  Label.persona persona.guid :: (c.policiesOf persona.guid).map fun p => Label.personaPolicy p.guid

/-! ### Provisional policies of several persona policies -/

/-- The resources of what a persona policy needs fit into memory. -/
def PersonaPolicy.Fits (policy : PersonaPolicy) (persona : Persona) : Prop :=
  ∀ q ∈ synthesize 0 persona policy, (ResourceMap.canonicalBytes q.resources).length < 2 ^ 60

/-- So do the same resources for another persona whose grants apply to the same types. -/
theorem PersonaPolicy.Fits.congr {policy policy' : PersonaPolicy} {persona persona' : Persona}
    (h : policy.Fits persona) (hcategory : policy'.category = policy.category)
    (hactions : policy'.actions = policy.actions) (hassets : policy'.assets = policy.assets)
    (htypes : persona'.isTypeUnrestricted = persona.isTypeUnrestricted) : policy'.Fits persona' := by
  intro q hq
  obtain ⟨q', hq', hsame⟩ :=
    exists_resources_synthesize hcategory.symm hactions.symm hassets.symm htypes.symm hq
  exact hsame ▸ h q' hq'

namespace PersonaService

variable {σ : ServiceSettings} {persona : Persona} {policies : List PersonaPolicy}
  {qs : List Policy} {s s' : System} {plan plan' : Plan}

/-- What several persona policies need, whatever identifiers were drawn for names. -/
structure Provisions (persona : Persona) (policies : List PersonaPolicy) (qs : List Policy) : Prop where
  /-- Nothing else is there. -/
  mem : ∀ q ∈ qs, ∃ policy ∈ policies, ∃ draw, q ∈ synthesize draw persona policy
  /-- All of it is there. -/
  all : ∀ policy ∈ policies, ∀ draw, ∀ q ∈ synthesize draw persona policy,
    ∃ q' ∈ qs, Policy.Alike q' q

theorem provisions_nil (persona : Persona) : Provisions persona [] [] :=
  ⟨fun _ hq => absurd hq List.not_mem_nil, fun _ hp => absurd hp List.not_mem_nil⟩

theorem provisions_synthesize (draw : Nat) (persona : Persona) (policy : PersonaPolicy) :
    Provisions persona [policy] (synthesize draw persona policy) := by
  refine ⟨fun q hq => ⟨policy, List.mem_singleton_self policy, draw, hq⟩, fun p hp draw' q hq => ?_⟩
  obtain rfl := List.mem_singleton.1 hp
  exact exists_alike_synthesize hq

theorem Provisions.append {policies' : List PersonaPolicy} {qs' : List Policy}
    (h : Provisions persona policies qs) (h' : Provisions persona policies' qs') :
    Provisions persona (policies ++ policies') (qs ++ qs') := by
  constructor
  · intro q hq
    rcases List.mem_append.1 hq with hq | hq
    · obtain ⟨policy, hpolicy, hmem⟩ := h.mem q hq
      exact ⟨policy, List.mem_append_left _ hpolicy, hmem⟩
    · obtain ⟨policy, hpolicy, hmem⟩ := h'.mem q hq
      exact ⟨policy, List.mem_append_right _ hpolicy, hmem⟩
  · intro policy hpolicy draw q hq
    rcases List.mem_append.1 hpolicy with hpolicy | hpolicy
    · obtain ⟨q', hq', halike⟩ := h.all policy hpolicy draw q hq
      exact ⟨q', List.mem_append_left _ hq', halike⟩
    · obtain ⟨q', hq', halike⟩ := h'.all policy hpolicy draw q hq
      exact ⟨q', List.mem_append_right _ hq', halike⟩

/-- What persona policies need may be placed together, if none of them duplicates another one. -/
theorem Provisions.areProvisional (h : Provisions persona policies qs)
    (hfits : ∀ policy ∈ policies, policy.Fits persona)
    (hapart : ∀ p ∈ policies, ∀ p' ∈ policies,
      p = p' ∨ p'.guid ≠ p.guid ∧ p'.isActive = true ∧ duplicates p p' = false) :
    Policy.AreProvisional persona.roleName qs := by
  have heach := fun draw policy =>
    synthesizeActions_areProvisional draw persona policy policy.actions
  refine ⟨fun q hq => ?_, fun q hq => ?_, fun q hq => ?_, fun q hq q' hq' htarget => ?_⟩
  · obtain ⟨policy, -, draw, hmem⟩ := h.mem q hq
    exact (heach draw policy).each q hmem
  · obtain ⟨policy, -, draw, hmem⟩ := h.mem q hq
    exact (heach draw policy).id q hmem
  · obtain ⟨policy, -, draw, hmem⟩ := h.mem q hq
    exact (heach draw policy).synthetic q hmem
  · obtain ⟨p, hp, draw, hmem⟩ := h.mem q hq
    obtain ⟨p', hp', draw', hmem'⟩ := h.mem q' hq'
    rcases hapart p hp p' hp' with rfl | ⟨hguid, hactive, hfree⟩
    · -- Of one persona policy only the names of what it needs may differ.
      obtain ⟨q₀, hq₀, halike⟩ : ∃ q₀ ∈ synthesize draw persona p, Policy.Alike q₀ q' :=
        exists_alike_synthesize hmem'
      have hsame := (heach draw p).alike q hmem q₀ hq₀ (htarget.trans halike.target.symm)
      exact ⟨hsame.allow.trans halike.allow, hsame.deny.trans halike.deny,
        hsame.mask.trans halike.mask, hsame.labels.trans halike.labels, htarget⟩
    · have hduplicates := duplicates_of_target_eq hmem hmem'
        (short_synthesize (hfits p hp) draw q hmem) htarget hguid hactive
      exact absurd (hfree.symm.trans hduplicates) Bool.false_ne_true

/-- Planning several persona policies places all that they need. -/
theorem foldlM_planCreate_ok
    (hrun : runOn (policies.foldlM (planCreate σ persona) plan) s = (.ok plan', s')) :
    ∃ qs, Provisions persona policies qs ∧
      placeAll σ.pageSize persona.roleName s plan qs = .ok plan' ∧
      s' = { s with drawn := s'.drawn } := by
  induction policies generalizing plan s with
  | nil =>
    obtain ⟨hplan, rfl⟩ := Prod.mk.inj hrun
    exact ⟨[], provisions_nil persona, hplan, rfl⟩
  | cons policy policies ih =>
    rw [List.foldlM_cons, Operation.runOn_bind_ok] at hrun
    obtain ⟨mid, s₁, hfirst, hrest⟩ := hrun
    unfold planCreate at hfirst
    simp only [Operation.runOn_bind_ok, Operation.runOn_synthesize, Operation.runOn_read,
      Prod.mk.injEq, Except.ok.injEq] at hfirst
    obtain ⟨_, _, ⟨rfl, rfl⟩, hplace, rfl⟩ := hfirst
    obtain ⟨qs, hqs, hplaces, hdrawn⟩ := ih hrest
    refine ⟨synthesize s.drawn persona policy ++ qs,
      (provisions_synthesize s.drawn persona policy).append hqs, ?_, hdrawn⟩
    unfold placeAll
    rw [List.foldlM_append, Except.bind_eq_ok_iff]
    exact ⟨mid, hplace, hplaces⟩

/-! ### Requests on personas -/

/-- How a persona cleans up: the policies with its label are stripped of its role and of labels. -/
theorem planClean_ok (hrun : runOn (planClean σ persona) s = (.ok plan, s')) :
    plan = Plan.stripAll {} (s.authority.withLabel (Label.persona persona.guid)) persona.roleName
      (persona.cleanedLabels s.catalog) ∧ s' = s := by
  unfold planClean at hrun
  simp only [Operation.runOn_bind_ok, Operation.runOn_read, Operation.runOn_pure, Prod.mk.injEq,
    Except.ok.injEq] at hrun
  obtain ⟨labelled, _, ⟨hlabelled, rfl⟩, policies, _, ⟨hpolicies, rfl⟩, rfl, rfl⟩ := hrun
  obtain rfl := System.policiesWithLabel_eq hlabelled
  unfold System.policiesOf at hpolicies
  rw [Except.bind_eq_ok_iff] at hpolicies
  obtain ⟨-, -, hsame⟩ := hpolicies
  obtain rfl := Except.ok.inj hsame
  exact ⟨rfl, rfl⟩

/-- A persona that has been deleted was stored. -/
theorem deletePersona_stored {guid : String} {report : Report}
    (hrun : runOn (deletePersona σ guid) s = (.ok report, s')) :
    ∃ persona, s.catalog.personas.get? guid = some persona := by
  unfold deletePersona at hrun
  rw [Operation.runOn_bind_ok] at hrun
  obtain ⟨persona, _, hfound, -⟩ := hrun
  exact ⟨persona, (requirePersona_ok hfound).1⟩

/-- How the deletion of a persona is planned and carried out. -/
theorem deletePersona_ok {guid : String} {report : Report}
    (hrun : runOn (deletePersona σ guid) s = (.ok report, s'))
    (hpersona : s.catalog.personas.get? guid = some persona) :
    ∃ plan s₁, runOn (planClean σ persona) s = (.ok plan, s) ∧
      runOn (Operation.execute σ.deadlineMs plan.mutations) s = (.ok report, s₁) ∧
      s'.authority.policies = s₁.authority.policies ∧
      s'.catalog = s₁.catalog.deletePersona guid := by
  unfold deletePersona at hrun
  simp only [Operation.runOn_bind_ok] at hrun
  obtain ⟨found, s₀, hfound, plan, s₁, hplan, report', s₂, hexecute, hrun⟩ := hrun
  obtain ⟨hget, rfl⟩ := requirePersona_ok hfound
  obtain rfl : persona = found := Option.some.inj (hpersona.symm.trans hget)
  obtain ⟨-, rfl⟩ := planClean_ok hplan
  have hlast : ∀ {s₃ : System}, runOn (do Operation.deletePersona guid; return report') s₃ =
      (.ok report, s') → report' = report ∧ s'.authority = s₃.authority ∧
        s'.catalog = s₃.catalog.deletePersona guid := by
    intro s₃ hdelete
    unfold Operation.deletePersona at hdelete
    simp only [Operation.runOn_bind_ok, Operation.runOn_write_ok, Except.bind_eq_ok_iff,
      Operation.runOn_pure, Prod.mk.injEq, Except.ok.injEq] at hdelete
    obtain ⟨_, _, ⟨-, -, hwrite⟩, rfl, rfl⟩ := hdelete
    obtain ⟨-, rfl⟩ := Prod.mk.inj (Except.ok.inj hwrite)
    exact ⟨rfl, rfl, rfl⟩
  split at hrun
  · rw [Operation.runOn_bind_ok] at hrun
    obtain ⟨_, s₃, hrole, hrun⟩ := hrun
    unfold Operation.deleteRole at hrole
    rw [Operation.runOn_write_ok, Except.bind_eq_ok_iff] at hrole
    obtain ⟨-, -, hwrite⟩ := hrole
    obtain ⟨-, rfl⟩ := Prod.mk.inj (Except.ok.inj hwrite)
    obtain ⟨rfl, hauthority, hcatalog⟩ := hlast hrun
    exact ⟨plan, s₂, hplan, hexecute, by rw [hauthority]; rfl, hcatalog⟩
  · obtain ⟨rfl, hauthority, hcatalog⟩ := hlast hrun
    exact ⟨plan, s₂, hplan, hexecute, by rw [hauthority], hcatalog⟩

/-- Giving a role its members touches nothing but roles. -/
theorem updateRoleMembers_ok {u : Unit} (hrun : runOn (updateRoleMembers persona) s = (.ok u, s')) :
    ∃ roles, s' = { s with authority := { s.authority with roles } } := by
  unfold updateRoleMembers at hrun
  split at hrun
  · obtain ⟨-, rfl⟩ := Prod.mk.inj hrun
    exact ⟨_, rfl⟩
  · simp only [Operation.runOn_bind_ok, Operation.runOn_read, Prod.mk.injEq] at hrun
    obtain ⟨found, _, ⟨-, rfl⟩, hrun⟩ := hrun
    split at hrun
    · exact absurd hrun (by simp)
    · simp only [Operation.runOn_bind_ok, Operation.updateRole, Operation.runOn_write_ok,
        Except.bind_eq_ok_iff, Operation.runOn_pure, Prod.mk.injEq, Authority.updateRole] at hrun
      obtain ⟨_, _, ⟨-, -, b, hb, hwrite⟩, -, rfl⟩ := hrun
      obtain ⟨-, rfl⟩ := Prod.mk.inj (Except.ok.inj hwrite)
      split at hb
      · exact absurd hb (by simp)
      · split at hb
        · obtain rfl := Except.ok.inj hb
          exact ⟨_, rfl⟩
        · exact absurd hb (by simp)

/-- How the concrete policies of an updated persona are planned and written before it is saved. Nothing
but roles has changed until then. -/
def Toggles (σ : ServiceSettings) (existing : Persona) (o : PersonaOutcome) (s s' : System) : Prop :=
  ∃ roles plan s₁ s₂,
    runOn (planToggle σ o.persona existing) { s with authority := { s.authority with roles } } =
      (.ok plan, s₁) ∧
    runOn (Operation.execute σ.deadlineMs plan.mutations) s₁ = (.ok o.report, s₂) ∧
    s'.authority = s₂.authority ∧ s'.catalog = s₂.catalog.withPersona o.persona

/-- How an update goes on once it is admitted and the role has its members. -/
theorem toggles_of_run {existing : Persona} {o : PersonaOutcome} {roles : NameMap Role}
    (hguid : persona.guid ≠ "")
    (hrun : runOn (do
      let plan ← planToggle σ persona existing
      let report ← Operation.execute σ.deadlineMs plan.mutations
      let persona ← Operation.savePersona persona
      return ({ persona, report } : PersonaOutcome))
        { s with authority := { s.authority with roles } } = (.ok o, s')) :
    o.persona = persona ∧ Toggles σ existing o s s' := by
  simp only [Operation.runOn_bind_ok, Operation.savePersona, Operation.runOn_fresh,
    Operation.runOn_write_ok, Except.bind_eq_ok_iff, Operation.runOn_pure, Prod.mk.injEq,
    Except.ok.injEq] at hrun
  obtain ⟨plan, s₁, hplan, report, s₂, hexecute, saved, _, ⟨_, _, ⟨-, rfl⟩, -, -, hwrite⟩, rfl, rfl⟩ :=
    hrun
  have hgiven : ¬ persona.guid.isEmpty = true := fun hempty => hguid (String.isEmpty_iff.1 hempty)
  simp only [PersonaCatalog.savePersona, if_neg hgiven] at hwrite
  obtain ⟨rfl, rfl⟩ := Prod.mk.inj (Except.ok.inj hwrite)
  exact ⟨rfl, roles, plan, s₁, s₂, hplan, hexecute, rfl, rfl⟩

/-- A persona that has been updated was stored. -/
theorem updatePersona_stored {update : Persona} {o : PersonaOutcome}
    (hrun : runOn (updatePersona σ update) s = (.ok o, s')) :
    ∃ existing, s.catalog.personas.get? update.guid = some existing := by
  unfold updatePersona at hrun
  simp only [Operation.runOn_bind_ok, Operation.runOn_lift, Prod.mk.injEq] at hrun
  obtain ⟨_, _, ⟨-, rfl⟩, existing, _, hfound, -⟩ := hrun
  exact ⟨existing, (requirePersona_ok hfound).1⟩

/-- How an update of a persona is planned and carried out. -/
theorem updatePersona_ok {update existing : Persona} {o : PersonaOutcome}
    (hrun : runOn (updatePersona σ update) s = (.ok o, s'))
    (hexisting : s.catalog.personas.get? update.guid = some existing) (hguid : update.guid ≠ "") :
    update.check = .ok () ∧ requireActive existing = .ok () ∧
      ¬ (update.roleId.isSome && update.roleId != existing.roleId) = true ∧
      o.persona = updatedPersona update existing ∧ Toggles σ existing o s s' := by
  unfold updatePersona at hrun
  simp only [Operation.runOn_bind_ok, Operation.runOn_lift, Prod.mk.injEq] at hrun
  obtain ⟨_, _, ⟨hcheck, rfl⟩, found, s₀, hfound, _, _, ⟨hactive, rfl⟩, hrun⟩ := hrun
  obtain ⟨hget, rfl⟩ := requirePersona_ok hfound
  obtain rfl : existing = found := Option.some.inj (hexisting.symm.trans hget)
  refine ⟨hcheck, hactive, ?_⟩
  have hguid' : (updatedPersona update existing).guid ≠ "" := hguid
  -- The members of the role are the only thing that changes before planning.
  have hmembers : runOn (do
      if (updatedPersona update existing).users != existing.users ||
          (updatedPersona update existing).groups != existing.groups then
        updateRoleMembers (updatedPersona update existing)
      let plan ← planToggle σ (updatedPersona update existing) existing
      let report ← Operation.execute σ.deadlineMs plan.mutations
      let persona ← Operation.savePersona (updatedPersona update existing)
      return ({ persona, report } : PersonaOutcome)) s₀ = (.ok o, s') →
      o.persona = updatedPersona update existing ∧ Toggles σ existing o s₀ s' := by
    intro hrun
    split at hrun
    · rw [Operation.runOn_bind_ok] at hrun
      obtain ⟨_, s₁, hrole, hrun⟩ := hrun
      obtain ⟨roles, rfl⟩ := updateRoleMembers_ok hrole
      exact toggles_of_run hguid' hrun
    · have hsame : s₀ = { s₀ with authority := { s₀.authority with roles := s₀.authority.roles } } := rfl
      rw [hsame] at hrun
      exact toggles_of_run hguid' hrun
  split at hrun
  · exact absurd hrun (by simp)
  · next hroleId =>
    refine ⟨hroleId, ?_⟩
    split at hrun
    · simp only [Operation.runOn_bind_ok, Operation.runOn_read, Operation.runOn_lift,
        Prod.mk.injEq] at hrun
      obtain ⟨_, _, ⟨-, rfl⟩, _, _, ⟨-, rfl⟩, hrun⟩ := hrun
      exact hmembers hrun
    · exact hmembers hrun

/-! ### What they leave -/

variable {report : Report} {existing : Persona} {o : PersonaOutcome}

/-- A persona that cleans up completely is not named any more. -/
theorem planClean_clears (ha : s.authority.WellKept)
    (hmarks : s.authority.Marks persona.roleName (Label.persona persona.guid))
    (hplan : runOn (planClean σ persona) s = (.ok plan, s))
    (hexecute : runOn (Operation.execute σ.deadlineMs plan.mutations) s = (.ok report, s'))
    (hcomplete : report.isComplete = true) :
    ∀ p ∈ s'.authority.policies.values, p.itemsNaming persona.roleName = ∅ := by
  obtain ⟨rfl, -⟩ := planClean_ok hplan
  have hlabel : Label.persona persona.guid ∈ persona.cleanedLabels s.catalog := List.mem_cons_self
  obtain ⟨hrealized, -⟩ := (Plan.stripAll_tracks ha.toWellStored persona.roleName
    hlabel).execute_realized ha.numbered hexecute hcomplete
  exact Plan.stripAll_clears ha hmarks hlabel hrealized

/-- How a persona that is enabled is planned. -/
theorem planToggle_enables (hdisabled : existing.enabled = false) (henabled : persona.enabled = true)
    (hrun : runOn (planToggle σ persona existing) s = (.ok plan, s')) :
    ∃ qs, Provisions persona ((s.catalog.policiesOf persona.guid).filter PersonaPolicy.isActive) qs ∧
      placeAll σ.pageSize persona.roleName s {} qs = .ok plan ∧ s' = { s with drawn := s'.drawn } := by
  unfold planToggle at hrun
  rw [hdisabled, henabled] at hrun
  simp only [Operation.runOn_bind_ok, Operation.runOn_read, Prod.mk.injEq] at hrun
  obtain ⟨policies, _, ⟨hread, rfl⟩, hrun⟩ := hrun
  unfold System.policiesOf at hread
  rw [Except.bind_eq_ok_iff] at hread
  obtain ⟨-, -, hsame⟩ := hread
  obtain rfl := Except.ok.inj hsame
  exact foldlM_planCreate_ok hrun

/-- A persona that is enabled completely has what all its policies in use need. -/
theorem planToggle_serves (ha : s.authority.WellKept) (hc : s.catalog.InOrder s.drawn)
    (hdisabled : existing.enabled = false) (henabled : persona.enabled = true)
    (hfits : ∀ policy ∈ s.catalog.policiesOf persona.guid, policy.isActive = true →
      policy.Fits persona)
    (hplan : runOn (planToggle σ persona existing) s = (.ok plan, s'))
    {s₂ : System} (hexecute : runOn (Operation.execute σ.deadlineMs plan.mutations) s' =
      (.ok report, s₂)) (hcomplete : report.isComplete = true) {policy : PersonaPolicy}
    (hpolicy : policy ∈ s.catalog.policiesOf persona.guid) (hactive : policy.isActive = true)
    {draw : Nat} {q : Policy} (hq : q ∈ synthesize draw persona policy) :
    ∃ p ∈ s₂.authority.policies.values, p.Carries q persona.roleName := by
  obtain ⟨qs, hqs, hplace, hdrawn⟩ := planToggle_enables hdisabled henabled hplan
  have hprovisional := hqs.areProvisional (fun p hp => hfits p (List.mem_filter.1 hp).1
    (List.mem_filter.1 hp).2) (hc.active_apart persona.guid)
  have hplacing := Plan.placing_empty s.authority.policies "" qs (fun _ => False) (fun _ => False)
  obtain ⟨hplanned, -⟩ := Plan.placeAll_planned ha.toWellStored hprovisional hplacing hplace
  -- The mutations are executed on the authority that planning has read.
  have hauthority : s'.authority = s.authority := by rw [hdrawn]
  have htracks := hplanned.toTracks
  rw [← hauthority] at htracks
  obtain ⟨hrealized, -⟩ :=
    htracks.execute_realized (hauthority ▸ ha.numbered) hexecute hcomplete
  obtain ⟨q', hq', halike⟩ := hqs.all policy (List.mem_filter.2 ⟨hpolicy, hactive⟩) draw q hq
  obtain ⟨p, hp, hcarries⟩ := hrealized.carries (hplanned.holds q' hq')
  exact ⟨p, hp, hcarries.of_alike halike⟩

/-- When its writes all go through, a persona that is deleted or disabled is named by no policy any more,
and one that is enabled has every provisional policy of its policies in use carried by a stored policy.
It does not matter which writes were lost before. -/
theorem switch_complete (hs : s.WellNamed) :
    (∀ guid persona report s', s.catalog.personas.get? guid = some persona →
      runOn (deletePersona σ guid) s = (.ok report, s') → report.isComplete = true →
      ∀ p ∈ s'.authority.policies.values, p.itemsNaming persona.roleName = ∅) ∧
    ∀ update existing o s', s.catalog.personas.get? update.guid = some existing →
      runOn (updatePersona σ update) s = (.ok o, s') → o.report.isComplete = true →
      (existing.enabled = true → update.enabled = false →
        ∀ p ∈ s'.authority.policies.values, p.itemsNaming existing.roleName = ∅) ∧
      (existing.enabled = false → update.enabled = true →
        (∀ policy ∈ s'.catalog.policiesOf update.guid, policy.isActive = true →
          policy.Fits o.persona) →
        ∀ policy ∈ s'.catalog.policiesOf update.guid, policy.isActive = true →
          ∀ draw, ∀ q ∈ synthesize draw o.persona policy, q.IsProvisional existing.roleName ∧
            ∃ p ∈ s'.authority.policies.values, p.Carries q existing.roleName) := by
  have hkept := hs.reachable.wellKept
  have hc := hs.reachable.catalog_inOrder
  constructor
  · intro guid persona report s' hpersona hrun hcomplete
    obtain ⟨plan, s₁, hplan, hexecute, hpolicies, -⟩ := deletePersona_ok hrun hpersona
    have hmarks := hs.marked.marks guid persona hpersona
    rw [← (hc.persona guid persona hpersona).1] at hmarks
    rw [hpolicies]
    exact planClean_clears hkept hmarks hplan hexecute hcomplete
  · intro update existing o s' hexisting hrun hcomplete
    obtain ⟨-, -, -, hsaved, roles, plan, s₁, s₂, hplan, hexecute, hauthority, hcatalog⟩ :=
      updatePersona_ok hrun hexisting (hc.persona _ _ hexisting).2
    have hkept₀ : ({ s.authority with roles } : Authority).WellKept := hkept.mono rfl (Nat.le_refl _)
    have hrole : o.persona.roleName = existing.roleName := by
      rw [hsaved]
      rfl
    have hguid : o.persona.guid = update.guid := by
      rw [hsaved]
      rfl
    have hswitch : o.persona.enabled = update.enabled := by
      rw [hsaved]
      rfl
    constructor
    · intro hbefore hafter
      have hclean : planToggle σ o.persona existing = planClean σ o.persona := by
        rw [planToggle, hbefore, hswitch, hafter]
      rw [hclean] at hplan
      obtain ⟨-, rfl⟩ := planClean_ok hplan
      have hmarks := hs.marked.marks update.guid existing hexisting
      rw [← hrole, ← hguid] at hmarks
      rw [hauthority, ← hrole]
      exact planClean_clears (s := { s with authority := { s.authority with roles } }) hkept₀ hmarks
        hplan hexecute hcomplete
    · intro hbefore hafter hfits policy hpolicy hactive draw q hq
      -- Nothing but personas has changed in the catalog.
      have hsame : s'.catalog.policiesOf update.guid = s.catalog.policiesOf o.persona.guid := by
        obtain ⟨-, -, -, hdrawn⟩ := planToggle_enables hbefore (hswitch.trans hafter) hplan
        obtain ⟨a, hleft, -⟩ := s₁.execute_leaves σ.deadlineMs plan.mutations
        have hs₂ : s₂ = { s₁ with authority := a } := (congrArg Prod.snd hexecute).symm.trans hleft
        rw [hcatalog, hs₂, hdrawn, hguid]
        rfl
      rw [hsame] at hfits hpolicy
      refine ⟨?_, ?_⟩
      · rw [← hrole]
        exact (synthesizeActions_areProvisional draw o.persona policy _).each q hq
      · rw [hauthority, ← hrole]
        exact planToggle_serves (s := { s with authority := { s.authority with roles } }) hkept₀ hc
          hbefore (hswitch.trans hafter) hfits hplan hexecute hcomplete hpolicy hactive hq

/-- The system after a persona has been created, under an identifier of the catalog, and a policy for it
has been updated while deletions failed. -/
def halfUpdated : System :=
  let s := Request.run {} {} (.createPersona { name := "stewards" })
  let policy (glossary : String) := { termsPolicy glossary with personaGuid := Uuid.ofDraw 1 }
  let s := Request.run {} s (.putPolicy {} "" (policy "finance"))
  let s := { s with faults := { failing := NameSet.ofList ["delete_policy"] }
                    authority := { s.authority with failing := ∅ } }
  (Request.run {} s (.putPolicy {} "" (policy "risk"))).repaired

theorem halfUpdated_wellNamed : halfUpdated.WellNamed := by
  have hcreate : Request.NamesPlainly (.createPersona { name := "stewards" }) := rfl
  have hput : ∀ policy, Request.NamesPlainly (.putPolicy {} "" policy) := fun _ => trivial
  exact ((((System.WellNamed.empty.request _ _ hcreate).request _ _ (hput _)).faults _ _).request _ _
    (hput _)).faults _ _

/-- Two policies name the persona. They cease to do so when it is deleted or disabled, and the one that
its policy needs is back when it is enabled again. -/
theorem switch_complete_halfUpdated :
    ∃ persona report s' o₁ s₁ o₂ s₂,
      halfUpdated.catalog.personas.get? (Uuid.ofDraw 1) = some persona ∧
      (halfUpdated.authority.policies.values.filter
        fun p => decide (p.itemsNaming persona.roleName ≠ ∅)).length = 2 ∧
      runOn (deletePersona {} (Uuid.ofDraw 1)) halfUpdated = (.ok report, s') ∧
      report.isComplete = true ∧
      (∀ p ∈ s'.authority.policies.values, p.itemsNaming persona.roleName = ∅) ∧
      runOn (updatePersona {} { persona with enabled := false }) halfUpdated = (.ok o₁, s₁) ∧
      o₁.report.isComplete = true ∧
      (∀ p ∈ s₁.authority.policies.values, p.itemsNaming persona.roleName = ∅) ∧
      runOn (updatePersona {} { persona with enabled := true }) s₁ = (.ok o₂, s₂) ∧
      o₂.report.isComplete = true ∧
      ∃ policy ∈ s₂.catalog.policiesOf (Uuid.ofDraw 1), ∃ q ∈ synthesize 0 o₂.persona policy,
        ∃ p ∈ s₂.authority.policies.values, p.Carries q persona.roleName := by
  have htest : (halfUpdated.catalog.personas.get? (Uuid.ofDraw 1)).any (fun persona =>
      persona.guid == Uuid.ofDraw 1 && persona.enabled &&
      decide ((halfUpdated.authority.policies.values.filter
        fun p => decide (p.itemsNaming persona.roleName ≠ ∅)).length = 2) &&
      (deletePersona {} (Uuid.ofDraw 1)).passes halfUpdated (fun report _ => report.isComplete) &&
      (updatePersona {} { persona with enabled := false }).passes halfUpdated fun o₁ s₁ =>
        o₁.report.isComplete &&
        (s₁.catalog.personas.get? (Uuid.ofDraw 1)).any (fun disabled => !disabled.enabled &&
          disabled.roleName == persona.roleName) &&
        (updatePersona {} { persona with enabled := true }).passes s₁ fun o₂ s₂ =>
          o₂.report.isComplete &&
          (s₂.catalog.policiesOf (Uuid.ofDraw 1)).any (fun policy =>
            policy.isActive && !(synthesize 0 o₂.persona policy).isEmpty) &&
          (s₂.catalog.policiesOf (Uuid.ofDraw 1)).all fun policy =>
            (synthesize 0 o₂.persona policy).all fun q =>
              decide ((ResourceMap.canonicalBytes q.resources).length < 2 ^ 60)) = true := by
    decide +kernel
  obtain ⟨persona, hpersona, htest⟩ := (Option.any_eq_true _ _).1 htest
  simp only [Bool.and_eq_true, beq_iff_eq, decide_eq_true_eq] at htest
  obtain ⟨⟨⟨⟨hguid, henabled⟩, htwo⟩, hdeletes⟩, hdisables⟩ := htest
  obtain ⟨report, s', hdelete, hcomplete⟩ := Operation.exists_of_passes hdeletes
  obtain ⟨o₁, s₁, hdisable, hdisables⟩ := Operation.exists_of_passes hdisables
  simp only [Bool.and_eq_true] at hdisables
  obtain ⟨⟨hcomplete₁, hdisabled⟩, henables⟩ := hdisables
  obtain ⟨disabled, hdisabled, hsame⟩ := (Option.any_eq_true _ _).1 hdisabled
  simp only [Bool.and_eq_true, Bool.not_eq_true', beq_iff_eq] at hsame
  obtain ⟨o₂, s₂, henable, henables⟩ := Operation.exists_of_passes henables
  simp only [Bool.and_eq_true, List.any_eq_true, List.all_eq_true, Bool.not_eq_true',
    decide_eq_true_eq] at henables
  obtain ⟨⟨hcomplete₂, policy, hpolicy, hactive, hneeds⟩, hfits⟩ := henables
  obtain ⟨q, hq⟩ := List.isEmpty_eq_false_iff_exists_mem.1 hneeds
  have hwellNamed₁ : s₁.WellNamed := by
    have hrun : Request.run {} halfUpdated (.updatePersona { persona with enabled := false }) = s₁ :=
      congrArg Prod.snd hdisable
    exact hrun ▸ halfUpdated_wellNamed.request {} _ trivial
  have hget : s₁.catalog.personas.get? ({ persona with enabled := true } : Persona).guid =
      some disabled := by
    show s₁.catalog.personas.get? persona.guid = some disabled
    rw [hguid, hdisabled]
  refine ⟨persona, report, s', o₁, s₁, o₂, s₂, hpersona, htwo, hdelete, hcomplete,
    (switch_complete halfUpdated_wellNamed).1 _ persona report s' hpersona hdelete hcomplete,
    hdisable, hcomplete₁, ?_, henable, hcomplete₂, policy, hpolicy, q, hq, ?_⟩
  · exact ((switch_complete halfUpdated_wellNamed).2 { persona with enabled := false } persona o₁ s₁
      (hguid ▸ hpersona) hdisable hcomplete₁).1 henabled rfl
  · rw [← hsame.2]
    rw [← hguid] at hfits hpolicy
    exact (((switch_complete hwellNamed₁).2 { persona with enabled := true } disabled o₂ s₂ hget
      henable hcomplete₂).2 hsame.1 rfl (fun p hp _ q hq => hfits p hp q hq) policy hpolicy hactive 0
      q hq).2

end PersonaService

end CatalogAccess
