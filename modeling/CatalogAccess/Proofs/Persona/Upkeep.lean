import CatalogAccess.Proofs.Persona.InStep
import CatalogAccess.Proofs.Persona.Revocation

/-!
# Requests keep the stores in step

What a request that is carried out in full makes of the authority and of the catalog goes together, if
the request is a regular one (`PersonaService.Request.Regular`): it does not overwrite a persona by
another one, does not put a persona policy that is not in use, and does not hand a policy over to another
persona or rename a persona so that its policies mean something else. Requests that plan for a persona
are instances of `System.InStep.of_effects`, and only for that persona there is something to show.
-/

namespace CatalogAccess

open Operation (runOn)
open PersonaService (Assigns)

/-! ### Catalogs -/

namespace PersonaCatalog

variable {c : PersonaCatalog} {d d' : Nat} {persona : Persona} {policy saved : PersonaPolicy}

/-- Saving a persona leaves the persona policies alone. -/
theorem inForce_withPersona_iff {saved : Persona} :
    (c.withPersona saved).InForce persona policy ↔ c.InForce persona policy :=
  ⟨fun h => ⟨h.enabled, h.stored, h.owner, h.active⟩, fun h => ⟨h.enabled, h.stored, h.owner, h.active⟩⟩

/-- Saving a persona policy leaves those under other identifiers alone. -/
theorem inForce_withPolicy_iff (hguid : policy.guid ≠ saved.guid) :
    (c.withPolicy saved).InForce persona policy ↔ c.InForce persona policy := by
  have hget : (c.withPolicy saved).policies.get? policy.guid = c.policies.get? policy.guid := by
    rw [withPolicy, NameMap.get?_insert, if_neg hguid]
  exact ⟨fun h => ⟨h.enabled, hget ▸ h.stored, h.owner, h.active⟩,
    fun h => ⟨h.enabled, hget ▸ h.stored, h.owner, h.active⟩⟩

/-- What is in force under the identifier of a policy that has been saved is that policy. -/
theorem InForce.eq_saved (h : (c.withPolicy saved).InForce persona policy)
    (hguid : policy.guid = saved.guid) : policy = saved := by
  have hstored := h.stored
  rw [withPolicy, NameMap.get?_insert, if_pos hguid] at hstored
  exact (Option.some.inj hstored).symm

/-- Deleting a persona policy leaves those under other identifiers alone. -/
theorem inForce_deletePolicy_iff {guid : String} :
    (c.deletePolicy guid).InForce persona policy ↔ policy.guid ≠ guid ∧ c.InForce persona policy := by
  constructor
  · intro h
    obtain ⟨hne, hold⟩ := NameMap.get?_erase_eq_some.1 h.stored
    exact ⟨hne, h.enabled, hold, h.owner, h.active⟩
  · rintro ⟨hne, h⟩
    exact ⟨h.enabled, NameMap.get?_erase_eq_some.2 ⟨hne, h.stored⟩, h.owner, h.active⟩

/-- Deleting a persona leaves the policies of the others alone. -/
theorem inForce_deletePersona_iff {guid : String} (hguid : persona.guid ≠ guid) :
    (c.deletePersona guid).InForce persona policy ↔ c.InForce persona policy := by
  constructor
  · exact fun h => ⟨h.enabled, (get?_deletePersona_policies.1 h.stored).1, h.owner, h.active⟩
  · exact fun h => ⟨h.enabled, get?_deletePersona_policies.2 ⟨h.stored, h.owner ▸ hguid⟩, h.owner,
      h.active⟩

/-- The policies in force of a persona are among its policies. -/
theorem InForce.mem_policiesOf (h : c.InForce persona policy) : policy ∈ c.policiesOf persona.guid :=
  List.mem_filter.2 ⟨NameMap.mem_values_iff.2 ⟨_, h.stored⟩, beq_iff_eq.2 h.owner⟩

/-- The policies in use of a persona that is enabled are in force. -/
theorem InOrder.inForce_of_mem (h : c.InOrder d) (henabled : persona.enabled = true)
    (hpolicy : policy ∈ c.policiesOf persona.guid) (hactive : policy.isActive = true) :
    c.InForce persona policy := by
  obtain ⟨hvalues, howner⟩ := List.mem_filter.1 hpolicy
  obtain ⟨k, hk⟩ := NameMap.mem_values_iff.1 hvalues
  exact ⟨henabled, (h.policy k policy hk).1 ▸ hk, beq_iff_eq.1 howner, hactive⟩

namespace Regular

/-- More identifiers may be drawn. -/
theorem mono (h : c.Regular d) (hd : d ≤ d') : c.Regular d' :=
  ⟨fun n hn => h.persona n (Nat.le_trans hd hn), fun n hn => h.policy n (Nat.le_trans hd hn), h.fits⟩

/-- A persona is saved under an identifier that is not to be drawn. -/
theorem withPersona (h : c.Regular d) {saved : Persona}
    (hguid : ∀ n, d ≤ n → Uuid.ofDraw n ≠ saved.guid) : (c.withPersona saved).Regular d := by
  refine ⟨fun n hn => ?_, h.policy, h.fits⟩
  rw [PersonaCatalog.withPersona, NameMap.get?_insert, if_neg (hguid n hn), h.persona n hn]

/-- A persona policy is saved under such an identifier. -/
theorem withPolicy (h : c.Regular d) (hguid : ∀ n, d ≤ n → Uuid.ofDraw n ≠ saved.guid)
    (hfits : ∀ persona, saved.Fits persona) : (c.withPolicy saved).Regular d := by
  refine ⟨h.persona, fun n hn => ?_, fun guid policy hget => ?_⟩
  · rw [PersonaCatalog.withPolicy, NameMap.get?_insert, if_neg (hguid n hn), h.policy n hn]
  · obtain ⟨-, rfl⟩ | ⟨-, hold⟩ := NameMap.get?_insert_eq_some.1 hget
    · exact hfits
    · exact h.fits guid policy hold

/-- A persona is deleted with its policies. -/
theorem deletePersona (h : c.Regular d) (guid : String) : (c.deletePersona guid).Regular d := by
  refine ⟨fun n hn => ?_, fun n hn => ?_, fun x policy hget => ?_⟩
  · rw [PersonaCatalog.deletePersona, NameMap.get?_erase, h.persona n hn, ite_self]
  · rw [PersonaCatalog.deletePersona, NameMap.get?_filter, h.policy n hn, Option.filter_none]
  · exact h.fits x policy (PersonaCatalog.get?_deletePersona_policies.1 hget).1

/-- A persona policy is deleted. -/
theorem deletePolicy (h : c.Regular d) (guid : String) : (c.deletePolicy guid).Regular d := by
  refine ⟨h.persona, fun n hn => ?_, fun x policy hget => ?_⟩
  · rw [PersonaCatalog.deletePolicy, NameMap.get?_erase, h.policy n hn, ite_self]
  · exact h.fits x policy (NameMap.get?_erase_eq_some.1 hget).2

end Regular

end PersonaCatalog

/-! ### Regular requests -/

namespace PersonaService

/-- A request after which the catalog means for each persona what it meant before, or what the request
changes in the authority. -/
inductive Request.Regular (s : System) : Request → Prop
  /-- A persona is created under no identifier, or under one that is not to be drawn, that has no persona
  policies, and that does not read like a label of them. -/
  | createPersona (persona : Persona) (hundrawn : ∀ n, s.drawn ≤ n → persona.guid ≠ Uuid.ofDraw n)
      (hplain : Text.startsWith persona.guid "policy:" = false)
      (hnew : s.catalog.policiesOf persona.guid = []) : Regular s (.createPersona persona)
  /-- The new name of a persona that is and stays enabled goes with the same types, if the persona has
  metadata policies in use. -/
  | updatePersona (update : Persona)
      (htypes : ∀ existing, s.catalog.personas.get? update.guid = some existing →
        existing.enabled = true → update.enabled = true →
        ∀ policy ∈ s.catalog.policiesOf update.guid, policy.isActive = true →
          policy.category = .metadata → update.isTypeUnrestricted = existing.isTypeUnrestricted) :
      Regular s (.updatePersona update)
  /-- Whatever persona is deleted. -/
  | deletePersona (guid : String) : Regular s (.deletePersona guid)
  /-- A persona policy has no identifier, or one that is not to be drawn, and what it asks for fits into
  memory. Where the persona is enabled, the policy is in use, and where its former persona is enabled, it
  stays with it. -/
  | putPolicy (subjects : Subjects) (user : String) (policy : PersonaPolicy)
      (hundrawn : ∀ n, s.drawn ≤ n → policy.guid ≠ Uuid.ofDraw n)
      (hfits : ∀ persona, policy.Fits persona)
      (hactive : ∀ persona, s.catalog.personas.get? policy.personaGuid = some persona →
        persona.enabled = true → policy.isActive = true)
      (howner : ∀ prior owner, s.catalog.policies.get? policy.guid = some prior →
        s.catalog.personas.get? prior.personaGuid = some owner → owner.enabled = true →
        policy.personaGuid = prior.personaGuid) : Regular s (.putPolicy subjects user policy)
  /-- Whatever persona policy is deleted. -/
  | deletePolicy (guid : String) : Regular s (.deletePolicy guid)

variable {σ : ServiceSettings} {s s' : System} {r : Request} {given guid : String}

theorem Request.Regular.namesPlainly (h : r.Regular s) : r.NamesPlainly := by
  cases h with
  | createPersona persona hundrawn hplain hnew => exact hplain
  | updatePersona => trivial
  | deletePersona => trivial
  | putPolicy => trivial
  | deletePolicy => trivial

/-- An identifier that is assigned is not drawn again, unless it was given as one to be drawn. -/
theorem Assigns.undrawn (h : Assigns s s' given guid) (hdrawn : s.drawn ≤ s'.drawn)
    (hgiven : ∀ n, s.drawn ≤ n → given ≠ Uuid.ofDraw n) :
    ∀ n, s'.drawn ≤ n → Uuid.ofDraw n ≠ guid := by
  rcases h with ⟨-, rfl⟩ | ⟨-, m, -, hlt, rfl⟩
  · exact fun n hn heq => hgiven n (Nat.le_trans hdrawn hn) heq.symm
  · intro n hn heq
    have := Uuid.ofDraw_injective heq
    omega

/-- A regular request keeps the catalog regular. -/
theorem Request.Ends.catalog_regular (h : r.Ends s s') (hr : r.Regular s)
    (hc : s.catalog.Regular s.drawn) : s'.catalog.Regular s'.drawn := by
  obtain ⟨hdrawn, hrevises⟩ := h
  have hc' := hc.mono hdrawn
  cases hrevises with
  | kept r hcatalog => exact hcatalog ▸ hc'
  | created persona saved hsaved hguid hrole hcatalog =>
    cases hr with
    | createPersona _ hundrawn => exact hcatalog ▸ hc'.withPersona (hguid.undrawn hdrawn hundrawn)
  | updated update existing saved hexisting hsaved hguid hcatalog =>
    refine hcatalog ▸ hc'.withPersona (hguid.undrawn hdrawn fun n hn heq => ?_)
    exact Option.some_ne_none _ (hexisting.symm.trans (heq ▸ hc.persona n hn))
  | deleted guid hcatalog => exact hcatalog ▸ hc'.deletePersona guid
  | put subjects user persona policy saved hpersona hadmitted hprior hsaved hguid hcatalog =>
    cases hr with
    | putPolicy _ _ _ hundrawn hfits =>
      refine hcatalog ▸ hc'.withPolicy (hguid.undrawn hdrawn hundrawn) fun persona => ?_
      exact (hfits persona).congr (by rw [hsaved]) (by rw [hsaved]) (by rw [hsaved]) rfl
  | removed guid hcatalog => exact hcatalog ▸ hc'.deletePolicy guid

end PersonaService

/-! ### What is kept up -/

/-- Requests that name personas plainly have led to the system, and its catalog is regular. -/
structure System.Regular (s : System) : Prop where
  /-- The requests name personas plainly. -/
  wellNamed : s.WellNamed
  /-- The catalog is regular. -/
  catalog : s.catalog.Regular s.drawn

/-- The stores of the system are in step. -/
structure System.Upkept (s : System) : Prop extends s.Regular where
  /-- They are. -/
  inStep : s.InStep

theorem System.Regular.inOrder {s : System} (h : s.Regular) : s.catalog.InOrder s.drawn :=
  h.wellNamed.reachable.catalog_inOrder

theorem System.Regular.wellKept {s : System} (h : s.Regular) : s.authority.WellKept :=
  h.wellNamed.reachable.wellKept

/-- The policies in force of a persona may be enforced beside each other. -/
theorem System.Regular.admits {s : System} (h : s.Regular) (persona : Persona) :
    persona.Admits (s.catalog.InForce persona) :=
  h.wellNamed.reachable.keeps.admits h.inOrder h.catalog persona

namespace PersonaService

variable {σ : ServiceSettings} {s s' : System} {persona existing : Persona} {o : PersonaOutcome}
  {report : Report} {plan : Plan}

/-! ### Creating a persona -/

/-- Creating a persona leaves the policies of the authority alone. -/
theorem createPersona_policies (hs : s.WellKept) (p : Persona) :
    ((Request.createPersona p).run σ s).authority.policies = s.authority.policies := by
  have hinvariant : System.Invariant (fun _ => False)
      fun s' => s'.WellKept ∧ s'.authority.policies = s.authority.policies :=
    ⟨fun h => h.1, fun h hleaves => ⟨h.1.leaves hleaves, hleaves.policies.trans h.2⟩,
      fun _ hacts => hacts.elim⟩
  exact (Request.keeps hinvariant ⟨hs, rfl⟩ (.createPersona p)
    fun persona hplanned => Option.some_ne_none persona hplanned.symm).2

/-- A persona that has been created has no policies, and its role is not named yet. -/
theorem createPersona_inStep (hs : s.Upkept) {p : Persona}
    (hr : (Request.createPersona p).Regular s) : ((Request.createPersona p).run σ s).InStep := by
  have hpolicies := createPersona_policies (σ := σ) hs.wellNamed.reachable.keeps p
  obtain ⟨-, hrevises⟩ := Request.run_revises σ s (.createPersona p)
  generalize (Request.createPersona p).run σ s = s' at hpolicies hrevises
  cases hr with
  | createPersona _ _ _ hnew =>
  cases hrevises with
  | kept _ hcatalog => exact hs.inStep.of_same hpolicies hcatalog
  | created _ saved _ hguid hrole hcatalog =>
    have hnone : ∀ {other policy}, s.catalog.InForce other policy → other.guid ≠ saved.guid := by
      intro other policy hpolicy heq
      rcases hguid with ⟨-, hgiven⟩ | ⟨-, n, hn, -, hdraw⟩
      · have hmem := hpolicy.mem_policiesOf
        rw [heq, hgiven, hnew] at hmem
        exact List.not_mem_nil hmem
      · obtain ⟨owner, howner⟩ := hs.inOrder.owner _ policy hpolicy.stored
        rw [hpolicy.owner, heq, hdraw, hs.catalog.persona n hn] at howner
        exact Option.some_ne_none owner howner.symm
    have hunnamed : ∀ q ∈ s'.authority.policies.values, q.itemsNaming saved.roleName = ∅ := by
      intro q hq
      obtain ⟨tenant, _, ⟨n, hn, -, rfl⟩, hname⟩ := hrole
      obtain ⟨id, hget⟩ := NameMap.mem_values_iff.1 hq
      have hitems := hs.wellNamed.marked.unnamed tenant n hn id
      rw [Authority.itemsNaming, ← hpolicies, hget, ← hname] at hitems
      exact hitems
    constructor
    · intro guid other hother
      rw [hcatalog] at hother ⊢
      obtain ⟨-, rfl⟩ | ⟨-, hold⟩ := NameMap.get?_insert_eq_some.1 hother
      · exact .of_unnamed hunnamed fun policy hpolicy =>
          hnone (PersonaCatalog.inForce_withPersona_iff.1 hpolicy) rfl
      · exact ((hs.inStep.reflects guid other hold).of_same hpolicies).congr
          fun _ => PersonaCatalog.inForce_withPersona_iff.symm
    · intro q hq guid hlabel
      obtain ⟨other, policy, hother, hpolicy, hsame⟩ := hs.inStep.labelled q (hpolicies ▸ hq) guid hlabel
      refine ⟨other, policy, ?_, hcatalog ▸ PersonaCatalog.inForce_withPersona_iff.2 hpolicy, hsame⟩
      rw [hcatalog, PersonaCatalog.withPersona, NameMap.get?_insert, if_neg (hnone hpolicy), hother]

/-! ### Cleaning up after a persona -/

/-- A persona has let go of all its concrete policies, and is enabled no more, or deleted. -/
theorem cleanUp_inStep (hs : s.Upkept) {old : Persona}
    (hold : s.catalog.personas.get? persona.guid = some old) (hrole : old.roleName = persona.roleName)
    (hrealized : (Plan.stripAll {} (s.authority.withLabel (Label.persona persona.guid)) persona.roleName
      (persona.cleanedLabels s.catalog)).Realized s.authority s'.authority)
    (hothers : ∀ guid, guid ≠ persona.guid →
      s'.catalog.personas.get? guid = s.catalog.personas.get? guid)
    (hforce : ∀ other policy, other.guid ≠ persona.guid →
      (s.catalog.InForce other policy ↔ s'.catalog.InForce other policy))
    (hself : ∀ p, s'.catalog.personas.get? persona.guid = some p →
      p.roleName = persona.roleName ∧ p.enabled = false) : s'.InStep := by
  have hkept := hs.wellKept
  have hkey := (hs.inOrder.persona _ old hold).1
  have hlabel : Label.persona persona.guid ∈ persona.cleanedLabels s.catalog := List.mem_cons_self
  have heffects : Plan.Effects s.authority s'.authority persona.roleName (persona.Asks fun _ => False)
      (· ∈ s.authority.withLabel (Label.persona persona.guid)) (· ∈ persona.cleanedLabels s.catalog) :=
    ((Plan.stripAll_built hkept.toWellStored persona.roleName hlabel).effects hkept
      (fun _ h => h.elim) hrealized).mono (fun _ h => h.elim) (fun _ h => h) fun _ h => h
  refine hs.inStep.of_effects hkept hs.inOrder hs.wellNamed.marked.plain hold hrole heffects
    (fun l hl => ?_) hothers (fun guid other hother hne policy => hforce other policy ?_) (fun p hp => ?_)
    (fun _ h => h.elim) fun policy hpolicy p hp hmem htarget => ?_
  · rcases List.mem_cons.1 hl with rfl | hl
    · exact .inl rfl
    · obtain ⟨x, hx, rfl⟩ := List.mem_map.1 hl
      refine .inr ⟨x.guid, rfl, fun other policy hother hpolicy hsame => ?_⟩
      -- The catalog holds one persona policy under the identifier.
      obtain ⟨hvalues, howner⟩ := List.mem_filter.1 hx
      obtain ⟨k, hk⟩ := NameMap.mem_values_iff.1 hvalues
      rw [← (hs.inOrder.policy k x hk).1, ← hsame] at hk
      obtain rfl := Option.some.inj (hk.symm.trans hpolicy.stored)
      exact hpolicy.owner.symm.trans (beq_iff_eq.1 howner)
  · exact (hs.inOrder.persona guid other hother).1 ▸ hne
  · obtain ⟨hname, hdisabled⟩ := hself p hp
    refine .of_unnamed (fun q hq => ?_) fun policy hpolicy => ?_
    · have hmarks := hs.wellNamed.marked.marks persona.guid old hold
      rw [hrole] at hmarks
      rw [hname]
      exact Plan.stripAll_clears hkept hmarks hlabel hrealized q hq
    · exact Bool.false_ne_true (hdisabled.symm.trans hpolicy.enabled)
  · -- What has the label of a persona policy has that of its persona, too, and has lost both.
    obtain ⟨q, hq, htarget⟩ := htarget
    obtain ⟨hstored, hunlabelled⟩ := Plan.stripAll_sheds hkept.toWellStored hlabel hrealized hp
      (List.mem_cons_of_mem _ (List.mem_map_of_mem (hkey ▸ hpolicy.mem_policiesOf))) hmem
    have hcarries := (hs.inStep.reflects _ old hold).carries hkept (hs.admits old)
      (hq.mono fun _ heq => heq ▸ hpolicy) hstored htarget
    obtain ⟨x, -, draw, hsynthesized⟩ := hq
    exact absurd (hkey ▸ hcarries.labels _ (persona_mem_labels_of_mem_synthesize hsynthesized))
      hunlabelled

/-- A persona is deleted, with all its writes going through. -/
theorem deletePersona_inStep (hs : s.Upkept) {guid : String}
    (hrun : runOn (deletePersona σ guid) s = (.ok report, s')) (hcomplete : report.isComplete = true) :
    s'.InStep := by
  obtain ⟨persona, hpersona⟩ := deletePersona_stored hrun
  obtain ⟨plan, s₁, hplan, hexecute, hpolicies, hcatalog⟩ := deletePersona_ok hrun hpersona
  obtain ⟨rfl, -⟩ := planClean_ok hplan
  have hkept := hs.wellKept
  obtain rfl := (hs.inOrder.persona guid persona hpersona).1
  obtain ⟨hrealized, hsystem⟩ := (Plan.stripAll_tracks hkept.toWellStored persona.roleName
    List.mem_cons_self).execute_realized hkept.numbered hexecute hcomplete
  have hsame : s₁.catalog = s.catalog := by rw [hsystem]
  rw [hsame] at hcatalog
  have hget : ∀ guid, s'.catalog.personas.get? guid =
      if guid = persona.guid then none else s.catalog.personas.get? guid := by
    intro guid
    rw [hcatalog, PersonaCatalog.deletePersona, NameMap.get?_erase]
  refine cleanUp_inStep hs hpersona rfl (hrealized.of_same hpolicies)
    (fun guid hne => (hget guid).trans (if_neg hne)) (fun other policy hne => ?_) fun p hp => ?_
  · rw [hcatalog]
    exact (PersonaCatalog.inForce_deletePersona_iff hne).symm
  · exact absurd ((hget _).symm.trans hp).symm (by simp)

/-! ### Updating a persona -/

/-- A persona is saved once its plan is carried out. Nothing else changes in the catalog. -/
theorem Toggles.catalog (h : Toggles σ existing o s s') :
    s'.catalog = s.catalog.withPersona o.persona := by
  obtain ⟨roles, plan, s₁, s₂, hplan, hexecute, -, hcatalog⟩ := h
  have hquiet : Operation.Quiet (planToggle σ o.persona existing) := quiet_planToggle existing
  have hplanned := (hquiet s.catalog s.drawn { s with authority := { s.authority with roles } }
    ⟨rfl, Nat.le_refl _⟩).1
  rw [hplan] at hplanned
  have hexecuted := (Operation.quiet_execute σ.deadlineMs plan.mutations s.catalog s.drawn s₁ hplanned).1
  rw [hexecute] at hexecuted
  rw [hcatalog, hexecuted.catalog]

/-- The other personas stay as they are when one is saved. -/
theorem Toggles.get? (h : Toggles σ existing o s s') (guid : String) :
    s'.catalog.personas.get? guid =
      if guid = o.persona.guid then some o.persona else s.catalog.personas.get? guid := by
  rw [h.catalog, PersonaCatalog.withPersona, NameMap.get?_insert]

/-- What is planned for an update is carried out in full. -/
theorem Toggles.realizes (h : Toggles σ existing o s s') (hs : s.WellKept)
    (hcomplete : o.report.isComplete = true) :
    ∃ roles plan s₁, runOn (planToggle σ o.persona existing)
        { s with authority := { s.authority with roles } } = (.ok plan, s₁) ∧
      plan.Realized s.authority s'.authority := by
  obtain ⟨roles, plan, s₁, s₂, hplan, hexecute, hauthority, -⟩ := h
  let a : Authority := { s.authority with roles }
  have ha : a.WellKept := hs.authority.mono rfl (Nat.le_refl _)
  have hplans : Plans a s.catalog o.persona (planToggle σ o.persona existing) :=
    planToggle_plans ha hs.assets existing
  obtain ⟨⟨hsame, -⟩, hacts⟩ := hplans { s with authority := a } ⟨rfl, rfl⟩
  rw [hplan] at hsame hacts
  have htracks := (hacts plan rfl).tracks ha.toWellStored
  rw [← hsame] at htracks
  obtain ⟨hrealized, -⟩ := htracks.execute_realized (hsame ▸ ha.numbered) hexecute hcomplete
  rw [hsame, ← hauthority] at hrealized
  exact ⟨roles, plan, s₁, hplan, hrealized.tracked, hrealized.created, hrealized.other⟩

/-- A persona is disabled, with all its writes going through. -/
theorem disable_inStep (hs : s.Upkept)
    (hexisting : s.catalog.personas.get? o.persona.guid = some existing)
    (hrole : existing.roleName = o.persona.roleName) (henabled : existing.enabled = true)
    (hdisabled : o.persona.enabled = false) (htoggles : Toggles σ existing o s s')
    (hcomplete : o.report.isComplete = true) : s'.InStep := by
  obtain ⟨roles, plan, s₁, hplan, hrealized⟩ :=
    htoggles.realizes hs.wellNamed.reachable.keeps hcomplete
  have hclean : planToggle σ o.persona existing = planClean σ o.persona := by
    rw [planToggle, henabled, hdisabled]
  rw [hclean] at hplan
  obtain ⟨rfl, -⟩ := planClean_ok hplan
  refine cleanUp_inStep hs hexisting hrole hrealized
    (fun guid hne => (htoggles.get? guid).trans (if_neg hne)) (fun other policy _ => ?_) fun p hp => ?_
  · rw [htoggles.catalog]
    exact PersonaCatalog.inForce_withPersona_iff.symm
  · rw [htoggles.get?, if_pos rfl] at hp
    obtain rfl := Option.some.inj hp
    exact ⟨rfl, hdisabled⟩

/-- Placing what persona policies ask for, for a persona that no policy names, makes the authority reflect
the persona by them. -/
theorem placeAll_reflects {a : Authority} {policies : PersonaPolicy → Prop} {qs : List Policy}
    (hkept : s.authority.WellKept) (hkept' : a.WellKept) (hadmits : persona.Admits policies)
    (hunnamed : ∀ p ∈ s.authority.policies.values, p.itemsNaming persona.roleName = ∅)
    (hqs : Policy.AreProvisional persona.roleName qs) (hasks : ∀ q ∈ qs, persona.Asks policies q)
    (halikes : ∀ q, persona.Asks policies q → ∃ q' ∈ qs, Policy.Alike q' q)
    (hplace : placeAll σ.pageSize persona.roleName s {} qs = .ok plan)
    (hrealized : plan.Realized s.authority a) :
    Plan.Effects s.authority a persona.roleName (persona.Asks policies) (fun _ => False)
        (fun _ => False) ∧
      a.Reflects persona policies := by
  have hplaceable : ∀ q, persona.Asks policies q → q.IsPlaceable persona.roleName :=
    fun _ hq => hq.placeable
  have hbuilt : plan.Built s.authority.policies persona.roleName (persona.Asks policies)
      (fun _ => False) fun _ => False :=
    Plan.placeAll_built hkept.toWellStored hplaceable .empty hasks hplace
  have heffects := hbuilt.effects hkept hplaceable hrealized
  have hcarried : ∀ q, persona.Asks policies q →
      ∃ p ∈ a.policies.values, p.Carries q persona.roleName := by
    intro q hq
    obtain ⟨q', hq', halike⟩ := halikes q hq
    have hplacing := Plan.placing_empty s.authority.policies "" qs (fun _ => False) fun _ => False
    obtain ⟨hplanned, -⟩ := Plan.placeAll_planned hkept.toWellStored hqs hplacing hplace
    obtain ⟨p, hp, hcarries⟩ := hrealized.carries (hplanned.holds q' hq')
    exact ⟨p, hp, hcarries.of_alike halike⟩
  have hconfined : ∀ q, persona.Asks policies q → ∀ p ∈ a.policies.values, p.target = q.target →
      p.ConfinedTo q persona.roleName := by
    intro q hq p hp htarget
    obtain ⟨q', hq', halike⟩ := halikes q hq
    have hconfines := Plan.placeAll_confines hkept.toWellStored hqs (Plan.tracks_empty _) hq'
      (Plan.confines_empty fun id p hp _ =>
        .of_unnamed (hunnamed p (NameMap.mem_values_iff.2 ⟨id, hp⟩))) hplace
    exact halike.confinedTo_iff.1
      (hconfines.realized hrealized hp (htarget.trans halike.target.symm))
  have hbefore : s.authority.Reflects persona fun _ => False := .of_unnamed hunnamed fun _ h => h
  exact ⟨heffects, heffects.reflects_self hkept hkept' hbefore (hadmits.mono fun _ h => h.elim) hadmits
    (fun _ h => h) hcarried hconfined (fun _ h => .inl h) fun _ h => h.elim⟩

/-- A persona is enabled, with all its writes going through. -/
theorem enable_inStep (hs : s.Upkept) (hs' : s'.Regular)
    (hexisting : s.catalog.personas.get? o.persona.guid = some existing)
    (hrole : existing.roleName = o.persona.roleName) (hdisabled : existing.enabled = false)
    (henabled : o.persona.enabled = true) (htoggles : Toggles σ existing o s s')
    (hcomplete : o.report.isComplete = true) : s'.InStep := by
  obtain ⟨roles, plan, s₁, hplan, hrealized⟩ :=
    htoggles.realizes hs.wellNamed.reachable.keeps hcomplete
  have hnone : ∀ policy, ¬ s.catalog.InForce existing policy :=
    fun policy hpolicy => Bool.false_ne_true (hdisabled.symm.trans hpolicy.enabled)
  -- No policy names the persona while it is disabled.
  have hunnamed : ∀ p ∈ s.authority.policies.values, p.itemsNaming o.persona.roleName = ∅ :=
    hrole ▸ (hs.inStep.reflects _ existing hexisting).unnamed hnone
  have hforce : ∀ {other policy}, s'.catalog.InForce other policy ↔ s.catalog.InForce other policy := by
    rw [htoggles.catalog]
    exact PersonaCatalog.inForce_withPersona_iff
  have hpolicies : ∀ {policy}, s'.catalog.InForce o.persona policy ↔
      policy ∈ (s.catalog.policiesOf o.persona.guid).filter PersonaPolicy.isActive := by
    intro policy
    rw [hforce, List.mem_filter]
    exact ⟨fun h => ⟨h.mem_policiesOf, h.active⟩,
      fun h => hs.inOrder.inForce_of_mem henabled h.1 h.2⟩
  obtain ⟨qs, hqs, hplace, -⟩ := planToggle_enables hdisabled henabled hplan
  have hprovisional : Policy.AreProvisional o.persona.roleName qs :=
    hqs.areProvisional (fun p hp => hs.catalog.fits _ p (hforce.1 (hpolicies.2 hp)).stored o.persona)
      (hs.inOrder.active_apart o.persona.guid)
  have hasks : ∀ q ∈ qs, o.persona.Asks (s'.catalog.InForce o.persona) q := by
    intro q hq
    obtain ⟨policy, hpolicy, hdraw⟩ := hqs.mem q hq
    exact ⟨policy, hpolicies.2 hpolicy, hdraw⟩
  have halikes : ∀ q, o.persona.Asks (s'.catalog.InForce o.persona) q →
      ∃ q' ∈ qs, Policy.Alike q' q := by
    rintro q ⟨policy, hpolicy, draw, hq⟩
    exact hqs.all policy (hpolicies.1 hpolicy) draw q hq
  obtain ⟨heffects, hself⟩ := placeAll_reflects hs.wellKept hs'.wellKept (hs'.admits o.persona) hunnamed
    hprovisional hasks halikes hplace hrealized
  refine hs.inStep.of_effects hs.wellKept hs.inOrder hs.wellNamed.marked.plain hexisting hrole heffects
    (fun _ h => h.elim) (fun guid hne => (htoggles.get? guid).trans (if_neg hne))
    (fun _ _ _ _ _ => hforce.symm) (fun p hp => ?_)
    (fun policy hpolicy => ⟨(htoggles.get? _).trans (if_pos rfl), hpolicy⟩)
    fun policy hpolicy => absurd hpolicy (hnone policy)
  rw [htoggles.get?, if_pos rfl] at hp
  exact Option.some.inj hp ▸ hself

/-- A persona is updated that is enabled as before, and its policies go on asking for the same. -/
theorem update_inStep (hs : s.Upkept)
    (hexisting : s.catalog.personas.get? o.persona.guid = some existing)
    (hrole : existing.roleName = o.persona.roleName) (hsame : existing.enabled = o.persona.enabled)
    (htypes : ∀ policy, s.catalog.InForce existing policy → policy.category = .metadata →
      o.persona.isTypeUnrestricted = existing.isTypeUnrestricted)
    (htoggles : Toggles σ existing o s s') : s'.InStep := by
  have hkey := (hs.inOrder.persona _ existing hexisting).1
  have hpolicies : s'.authority.policies = s.authority.policies := by
    obtain ⟨roles, plan, s₁, s₂, hplan, hexecute, hauthority, -⟩ := htoggles
    rw [planToggle_same hsame, Operation.runOn_pure, Prod.mk.injEq, Except.ok.injEq] at hplan
    obtain ⟨rfl, rfl⟩ := hplan
    obtain ⟨-, rfl⟩ := Prod.mk.inj hexecute
    rw [hauthority]
    rfl
  have hforce : ∀ {policy}, s'.catalog.InForce o.persona policy ↔ s.catalog.InForce existing policy := by
    intro policy
    rw [htoggles.catalog, PersonaCatalog.inForce_withPersona_iff]
    exact ⟨fun h => ⟨hsame.trans h.enabled, h.stored, h.owner.trans hkey.symm, h.active⟩,
      fun h => ⟨hsame.symm.trans h.enabled, h.stored, h.owner.trans hkey, h.active⟩⟩
  have hasks : ∀ {policies : PersonaPolicy → Prop} {q}, (∀ policy, policies policy →
      s.catalog.InForce existing policy) → (o.persona.Asks policies q ↔ existing.Asks policies q) := by
    intro policies q hsub
    exact Persona.asks_congr fun policy hpolicy draw =>
      synthesize_congr hkey.symm hrole.symm (htypes policy (hsub policy hpolicy))
  constructor
  · intro guid other hother
    rw [htoggles.get?] at hother
    split at hother
    · obtain rfl := Option.some.inj hother
      have hreflects := (hs.inStep.reflects _ existing hexisting).of_same hpolicies
      exact (hreflects.of_persona hrole.symm fun q => hasks fun _ h => h).congr fun _ => hforce.symm
    · refine ((hs.inStep.reflects guid other hother).of_same hpolicies).congr fun policy => ?_
      rw [htoggles.catalog]
      exact PersonaCatalog.inForce_withPersona_iff.symm
  · intro p hp guid hlabel
    obtain ⟨other, policy, hother, hpolicy, rfl, q, hq, htarget⟩ :=
      hs.inStep.labelled p (hpolicies ▸ hp) guid hlabel
    by_cases hguid : other.guid = o.persona.guid
    · obtain rfl := Option.some.inj (hexisting.symm.trans (hguid ▸ hother))
      have hsub : ∀ x, x = policy → s.catalog.InForce existing x := fun _ heq => heq ▸ hpolicy
      exact ⟨o.persona, policy, (htoggles.get? _).trans (if_pos rfl), hforce.2 hpolicy, rfl, q,
        (hasks hsub).2 hq, htarget⟩
    · refine ⟨other, policy, (htoggles.get? _).trans ((if_neg hguid).trans hother), ?_, rfl, q, hq,
        htarget⟩
      rw [htoggles.catalog]
      exact PersonaCatalog.inForce_withPersona_iff.2 hpolicy

/-- A persona is updated by a regular request, with all its writes going through. -/
theorem updatePersona_inStep (hs : s.Upkept) (hs' : s'.Regular) {update : Persona}
    (hr : (Request.updatePersona update).Regular s)
    (hrun : runOn (updatePersona σ update) s = (.ok o, s')) (hcomplete : o.report.isComplete = true) :
    s'.InStep := by
  obtain ⟨existing, hexisting⟩ := updatePersona_stored hrun
  obtain ⟨-, -, -, hsaved, htoggles⟩ :=
    updatePersona_ok hrun hexisting (hs.inOrder.persona _ _ hexisting).2
  have hrole : existing.roleName = o.persona.roleName := by
    rw [hsaved]
    rfl
  have hguid : o.persona.guid = update.guid := by
    rw [hsaved]
    rfl
  have hswitch : o.persona.enabled = update.enabled := by
    rw [hsaved]
    rfl
  rw [← hguid] at hexisting
  cases hbefore : existing.enabled with
  | false =>
    cases hafter : o.persona.enabled with
    | false =>
      refine update_inStep hs hexisting hrole (hbefore.trans hafter.symm) (fun policy hpolicy => ?_)
        htoggles
      exact absurd (hbefore.symm.trans hpolicy.enabled) Bool.false_ne_true
    | true => exact enable_inStep hs hs' hexisting hrole hbefore hafter htoggles hcomplete
  | true =>
    cases hafter : o.persona.enabled with
    | false => exact disable_inStep hs hexisting hrole hbefore hafter htoggles hcomplete
    | true =>
      refine update_inStep hs hexisting hrole (hbefore.trans hafter.symm) (fun policy hpolicy => ?_)
        htoggles
      have hkey := (hs.inOrder.persona _ _ hexisting).1
      have hunrestricted : o.persona.isTypeUnrestricted = update.isTypeUnrestricted := by
        rw [hsaved]
        rfl
      cases hr with
      | updatePersona _ htypes =>
        rw [hunrestricted]
        exact htypes existing (hguid ▸ hexisting) hbefore (hswitch.symm.trans hafter) policy
          (hguid ▸ hkey ▸ hpolicy.mem_policiesOf) hpolicy.active

/-! ### Deleting a persona policy -/

/-- A persona policy is deleted, with all writes of the request going through. -/
theorem deletePolicy_inStep (hs : s.Upkept) (hs' : s'.Regular) {guid : String}
    (hrun : runOn (deletePolicy σ guid) s = (.ok report, s')) (hcomplete : report.isComplete = true) :
    s'.InStep := by
  obtain ⟨policy, persona, hpolicy, hpersona⟩ := deletePolicy_stored hrun
  obtain ⟨s₁, hexecute, hauthority, hcatalog⟩ := deletePolicy_ok hrun hpolicy hpersona
  have hkept := hs.wellKept
  obtain rfl := (hs.inOrder.policy guid policy hpolicy).1
  have howner := (hs.inOrder.persona _ persona hpersona).1
  rw [← howner] at hpersona
  have hlabel : Label.personaPolicy policy.guid ∈ policy.droppedLabels persona := List.mem_cons_self
  obtain ⟨hrealized, hsystem⟩ := (Plan.stripAll_tracks hkept.toWellStored persona.roleName
    hlabel).execute_realized hkept.numbered hexecute hcomplete
  rw [← hauthority] at hrealized
  have hsame : s₁.catalog = s.catalog := by rw [hsystem]
  rw [hsame] at hcatalog
  have hpersonas : s'.catalog.personas = s.catalog.personas := by
    rw [hcatalog]
    rfl
  have hforce : ∀ {other policy'}, s'.catalog.InForce other policy' ↔
      policy'.guid ≠ policy.guid ∧ s.catalog.InForce other policy' := by
    rw [hcatalog]
    exact PersonaCatalog.inForce_deletePolicy_iff
  -- What is in force under the identifier is the persona policy that is deleted.
  have hdeleted : ∀ {other policy'}, s.catalog.InForce other policy' → policy'.guid = policy.guid →
      policy' = policy ∧ other.guid = persona.guid := by
    intro other policy' hpolicy' hguid
    obtain rfl := Option.some.inj (hpolicy'.stored.symm.trans (hguid ▸ hpolicy))
    exact ⟨rfl, hpolicy'.owner.symm.trans howner.symm⟩
  have hcleared : ∀ p ∈ s'.authority.policies.values, Label.personaPolicy policy.guid ∉ p.labels :=
    fun p hp hmem => (Plan.stripAll_sheds hkept.toWellStored hlabel hrealized hp hlabel hmem).2 hmem
  have heffects : Plan.Effects s.authority s'.authority persona.roleName (persona.Asks fun _ => False)
      (· ∈ s.authority.withLabel (Label.personaPolicy policy.guid))
      (· ∈ policy.droppedLabels persona) :=
    ((Plan.stripAll_built hkept.toWellStored persona.roleName hlabel).effects hkept
      (fun _ h => h.elim) hrealized).mono (fun _ h => h.elim) (fun _ h => h) fun _ h => h
  have hself : s'.authority.Reflects persona (s'.catalog.InForce persona) := by
    refine heffects.reflects_self hkept hs'.wellKept (hs.inStep.reflects _ persona hpersona)
      (hs.admits persona) (hs'.admits persona) (fun _ h => h.elim) ?_ ?_
      (fun policy' hpolicy' => .inr ⟨(hforce.1 hpolicy').2, ?_⟩) fun policy' hpolicy' hgone p hp hmem => ?_
    · exact fun _ hq => hq.elim fun _ h => h.1.elim
    · exact fun _ hq => hq.elim fun _ h => h.1.elim
    · -- What has the label is asked for by the persona policy that is deleted, and by no other one.
      intro p hp hstripped q hq htarget
      obtain ⟨other, policy₀, hother, hpolicy₀, hguid, q₀, hq₀, htarget₀⟩ :=
        hs.inStep.labelled p hp policy.guid (Authority.mem_withLabel.1 hstripped).2
      have howned := (hdeleted hpolicy₀ hguid).2
      obtain rfl := Option.some.inj (hpersona.symm.trans (howned ▸ hother))
      have heq := (hs.admits persona).eq_of_target (hforce.1 hpolicy').2 hpolicy₀ hq hq₀
        (htarget.symm.trans htarget₀)
      exact (hforce.1 hpolicy').1 (heq ▸ hguid)
    · have hguid : policy'.guid = policy.guid :=
        Classical.byContradiction fun hne => hgone (hforce.2 ⟨hne, hpolicy'⟩)
      exact absurd (hguid ▸ hmem) (hcleared p hp)
  refine hs.inStep.of_effects hkept hs.inOrder hs.wellNamed.marked.plain hpersona rfl heffects
    (fun l hl => ?_) (fun guid _ => by rw [hpersonas]) (fun guid other hother hne policy' => ?_)
    (fun p hp => ?_) (fun _ h => h.elim) fun policy' hpolicy' p hp hmem htarget => ?_
  · simp only [PersonaPolicy.droppedLabels, List.mem_cons, List.not_mem_nil, or_false] at hl
    rcases hl with rfl | rfl
    · exact .inr ⟨policy.guid, rfl, fun other policy' _ hpolicy' hguid => (hdeleted hpolicy' hguid).2⟩
    · exact .inl rfl
  · rw [hforce]
    refine ⟨fun h => ⟨fun hguid => hne ?_, h⟩, fun h => h.2⟩
    exact (hs.inOrder.persona guid other hother).1.symm.trans (hdeleted h hguid).2
  · rw [hpersonas, hpersona] at hp
    exact Option.some.inj hp ▸ hself
  · have hne : policy'.guid ≠ policy.guid := fun hguid => hcleared p hp (hguid ▸ hmem)
    exact ⟨persona, policy', hpersonas ▸ hpersona, hforce.2 ⟨hne, hpolicy'⟩, rfl, htarget⟩

end PersonaService

end CatalogAccess
