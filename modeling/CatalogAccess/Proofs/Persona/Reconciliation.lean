import CatalogAccess.Proofs.Persona.Reachable

/-!
# What a request on a persona policy leaves

`putPolicy_reconciles` says what the authority is like after a request that creates or updates a
policy of a persona in use and has all its writes go through. Every provisional policy is carried by
a stored policy. A labelled policy that no provisional policy asks for (`Authority.Stray`) is left
only by a request that creates the persona policy, and only if it was there before: creating places
the provisional policies and does not look for policies that already have the label.
-/

namespace CatalogAccess

/-- A policy with the label whose target no provisional policy has. -/
structure Authority.Stray (a : Authority) (label : String) (qs : List Policy) (p : Policy) :
    Prop where
  /-- The policy is stored and has the label. -/
  labelled : p ∈ a.withLabel label
  /-- No provisional policy has its target. -/
  unwanted : ∀ q ∈ qs, p.sameTarget q = false

theorem Authority.stray_iff {a : Authority} {label : String} {qs : List Policy} {p : Policy} :
    a.Stray label qs p ↔
      (∃ id, a.policies.get? id = some p) ∧ label ∈ p.labels ∧ ¬ p.IsWanted qs := by
  have hunwanted : (∀ q ∈ qs, p.sameTarget q = false) ↔ ¬ p.IsWanted qs := by
    simp only [Policy.IsWanted, ← Policy.sameTarget_iff, not_exists, not_and, Bool.not_eq_true]
  constructor
  · rintro ⟨h, hq⟩
    obtain ⟨hstored, hlabel⟩ := mem_withLabel.1 h
    exact ⟨hstored, hlabel, hunwanted.1 hq⟩
  · rintro ⟨h, hmem, hq⟩
    exact ⟨mem_withLabel.2 ⟨h, hmem⟩, hunwanted.2 hq⟩

/-! ### Carrying out what is planned -/

namespace Plan

variable {plan : Plan} {a a' : Authority} {label role : String} {qs : List Policy}
  {loaded : String → Prop}

/-- What the plan holds is stored once the plan is carried out. -/
theorem Realized.carries (h : plan.Realized a a') {q : Policy}
    (hq : plan.Holds (fun _ => True) role q) : ∃ p ∈ a'.policies.values, p.Carries q role := by
  rcases hq with ⟨id, t, -, ht, hfate, hcarries⟩ | ⟨c, hc, hcarries⟩
  · have hget := (h.tracked id t ht).trans (Tracked.settled_eq_some_iff.2 ⟨hfate, rfl⟩)
    exact ⟨t.policy, NameMap.mem_values_iff.2 ⟨id, hget⟩, hcarries⟩
  · obtain ⟨i, hi⟩ := List.mem_iff_getElem?.1 hc
    exact ⟨_, NameMap.mem_values_iff.2 ⟨_, h.created i c hi⟩,
      hcarries.alike ⟨rfl, rfl, rfl, rfl, rfl⟩⟩

/-- What is stored once the plan is carried out is tracked, or was there before, or is planned. -/
theorem Realized.cases (h : plan.Realized a a') {id : String} {p : Policy}
    (hp : a'.policies.get? id = some p) :
    (∃ t, plan.tracked.get? id = some t ∧ t.settled = some p) ∨
      (plan.tracked.get? id = none ∧ a.policies.get? id = some p) ∨
      ∃ c ∈ plan.creates, p = { c with id := some id } := by
  cases ht : plan.tracked.get? id with
  | some t => exact .inl ⟨t, rfl, (h.tracked id t ht).symm.trans hp⟩
  | none =>
    by_cases hnew : ∃ i < plan.creates.length, id = createdId a i
    · obtain ⟨i, hi, rfl⟩ := hnew
      have hc := List.getElem?_eq_getElem hi
      have hget := h.created i _ hc
      rw [hp] at hget
      exact .inr (.inr ⟨_, List.mem_of_getElem? hc, Option.some.inj hget⟩)
    · refine .inr (.inl ⟨rfl, ?_⟩)
      rw [← h.other id ht fun i hi heq => hnew ⟨i, hi, heq⟩, hp]

/-- What is not wanted and has the label has not been touched. -/
theorem Planned.untouched (hplanned : Planned a.policies label role qs loaded plan)
    (h : plan.Realized a a') {id : String} {p : Policy} (hp : a'.policies.get? id = some p)
    (hlabel : label ∈ p.labels) (hunwanted : ¬ p.IsWanted qs) :
    plan.tracked.get? id = none ∧ a.policies.get? id = some p := by
  rcases h.cases hp with ⟨t, ht, hsettled⟩ | hbefore | ⟨c, hc, rfl⟩
  · obtain rfl := Tracked.policy_of_settled hsettled
    rcases hplanned.tracked id t ht with hwanted | ⟨-, hnone⟩
    · exact absurd hwanted hunwanted
    · exact absurd hlabel hnone
  · exact hbefore
  · exact absurd (hplanned.planned c hc) hunwanted

/-- It matters only which policies are stored in the end. -/
theorem Realized.of_same {b : Authority} (h : plan.Realized a a') (hpolicies : b.policies = a'.policies) :
    plan.Realized a b :=
  ⟨hpolicies ▸ h.tracked, hpolicies ▸ h.created, hpolicies ▸ h.other⟩

/-- What the plan does not track stays stored. -/
theorem Realized.keeps (h : plan.Realized a a') (ha : a.Numbered) {id : String} {p : Policy}
    (ht : plan.tracked.get? id = none) (hp : a.policies.get? id = some p) :
    a'.policies.get? id = some p := by
  rw [h.other id ht fun i _ => ne_createdId (ha id p hp) i, hp]

/-- When the report is complete, the authority is as planned, and nothing else has changed. -/
theorem Tracks.execute_realized {s s' : System} {deadlineMs : Nat} {report : Report}
    (h : plan.Tracks s.authority.policies) (hs : s.authority.Numbered)
    (hrun : Operation.runOn (Operation.execute deadlineMs plan.mutations) s = (.ok report, s'))
    (hcomplete : report.isComplete = true) :
    plan.Realized s.authority s'.authority ∧ s' = { s with authority := s'.authority } := by
  have hreport : (s.execute deadlineMs plan.mutations).1 = report :=
    Except.ok.inj (congrArg Prod.fst hrun)
  have hfinal : (s.execute deadlineMs plan.mutations).2 = s' := congrArg Prod.snd hrun
  rw [← hreport] at hcomplete
  obtain ⟨a, hs', hresults⟩ := System.execute_complete (h.mirrors.independent hs) hcomplete
  rw [← hfinal, hs']
  exact ⟨h.mirrors.realized hs hresults, rfl⟩

end Plan

namespace PersonaService

variable {σ : ServiceSettings} {subjects : Subjects} {user : String} {policy : PersonaPolicy}
  {persona : Persona} {o : PolicyOutcome} {s s' : System}

/-- The request creates the persona policy: it names none that is stored. -/
def Creates (s : System) (policy : PersonaPolicy) : Prop :=
  policy.guid.isEmpty = true ∨ s.catalog.policies.get? policy.guid = none

/-- What is found of an earlier version tells whether the request creates the persona policy, and is the
stored one otherwise. -/
theorem priorPolicy_ok {prior : Option PersonaPolicy}
    (h : Operation.runOn (priorPolicy policy) s = (.ok prior, s')) :
    ((prior = none ↔ Creates s policy) ∧
      ∀ p, prior = some p → s.catalog.policies.get? policy.guid = some p) ∧ s' = s := by
  unfold priorPolicy at h
  unfold Creates
  split at h
  · next hempty =>
    obtain ⟨rfl, rfl⟩ := by simpa using h
    exact ⟨⟨⟨fun _ => .inl hempty, fun _ => rfl⟩,
      fun p hp => absurd hp.symm (Option.some_ne_none p)⟩, rfl⟩
  · next hguid =>
    simp only [Operation.runOn_bind_ok, Operation.runOn_read, Prod.mk.injEq] at h
    obtain ⟨found, _, ⟨hread, rfl⟩, h⟩ := h
    unfold System.personaPolicy? at hread
    rw [Except.bind_eq_ok_iff] at hread
    obtain ⟨-, -, hget⟩ := hread
    have hfound : s.catalog.policies.get? policy.guid = found := Except.ok.inj hget
    cases found with
    | none =>
      obtain ⟨rfl, rfl⟩ := by simpa using h
      exact ⟨⟨⟨fun _ => .inr hfound, fun _ => rfl⟩,
        fun p hp => absurd hp.symm (Option.some_ne_none p)⟩, rfl⟩
    | some p =>
      simp only [Operation.runOn_bind_ok, Operation.runOn_lift, Operation.runOn_pure,
        Prod.mk.injEq, Except.ok.injEq] at h
      obtain ⟨-, _, ⟨-, rfl⟩, rfl, rfl⟩ := h
      refine ⟨⟨⟨fun hnone => absurd hnone (Option.some_ne_none p), ?_⟩,
        fun _ hp => Option.some.inj hp ▸ hfound⟩, rfl⟩
      rintro (hempty | hnone)
      · exact absurd hempty hguid
      · exact absurd (hfound.symm.trans hnone) (Option.some_ne_none p)

/-- What a request on a policy of a persona has to pass. -/
structure Admitted (subjects : Subjects) (user : String) (persona : Persona)
    (policy : PersonaPolicy) (c : PersonaCatalog) : Prop where
  /-- The fields of the policy are in order. -/
  check : policy.check = .ok ()
  /-- The persona is in use. -/
  active : requireActive persona = .ok ()
  /-- No other policy of the persona has the name. -/
  name : ensureUniquePolicyName policy (c.policiesOf persona.guid) = .ok ()
  /-- The user administers the connection. -/
  admin : ensureConnectionAdmin subjects user policy = .ok ()
  /-- No other policy of the persona is about the same assets. -/
  assets : ensureUniqueAssets policy (c.policiesOf persona.guid) = .ok ()

/-- Admission checks, and changes nothing. -/
theorem admitPolicy_ok {u : Unit}
    (h : Operation.runOn (admitPolicy subjects user persona policy) s = (.ok u, s')) :
    ensureUniquePolicyName policy (s.catalog.policiesOf persona.guid) = .ok () ∧
      ensureConnectionAdmin subjects user policy = .ok () ∧
      ensureUniqueAssets policy (s.catalog.policiesOf persona.guid) = .ok () ∧ s' = s := by
  unfold admitPolicy at h
  simp only [Operation.runOn_bind_ok, Operation.runOn_read, Operation.runOn_lift,
    Prod.mk.injEq] at h
  obtain ⟨siblings, _, ⟨hread, rfl⟩, _, _, ⟨hname, rfl⟩, _, _, ⟨hadmin, rfl⟩, hassets, rfl⟩ := h
  unfold System.policiesOf at hread
  rw [Except.bind_eq_ok_iff] at hread
  obtain ⟨-, -, hsiblings⟩ := hread
  obtain rfl := Except.ok.inj hsiblings
  exact ⟨hname, hadmin, hassets, rfl⟩

/-- How a policy is saved: the catalog has it under its identifier, and nothing else has changed in
the stores. -/
structure Saves (policy saved : PersonaPolicy) (s s' : System) : Prop where
  /-- Only the identifier and the qualified name may have been filled in. -/
  same : saved = { policy with guid := saved.guid, qualifiedName := saved.qualifiedName }
  /-- It has an identifier. -/
  guid : saved.guid ≠ ""
  /-- An identifier that was given is kept. -/
  kept : policy.guid ≠ "" → saved.guid = policy.guid
  /-- One that was not given is drawn. -/
  fresh : policy.guid = "" → ∃ n, s.drawn ≤ n ∧ saved.guid = Uuid.ofDraw n
  /-- It has a qualified name. -/
  qualifiedName : saved.qualifiedName ≠ ""
  /-- It is in the catalog. -/
  catalog : s'.catalog =
    { s.catalog with policies := s.catalog.policies.insert saved.guid saved }
  /-- The authority stays. -/
  authority : s'.authority = s.authority
  /-- Faults stay. -/
  faults : s'.faults = s.faults

/-- What a policy is saved as. -/
theorem storePolicy_ok {saved : PersonaPolicy}
    (h : Operation.runOn (storePolicy persona policy) s = (.ok saved, s')) :
    Saves policy saved s s' := by
  unfold storePolicy Operation.savePersonaPolicy at h
  simp only [Operation.runOn_bind_ok, Operation.runOn_fresh, Prod.mk.injEq, Except.ok.injEq,
    Operation.runOn_write_ok, Except.bind_eq_ok_iff] at h
  obtain ⟨_, _, ⟨rfl, rfl⟩, unique, _, ⟨hunique, rfl⟩, -, -, h⟩ := h
  generalize hnamed : (if policy.qualifiedName.isEmpty then
      { policy with qualifiedName := persona.qualifiedName ++ "/" ++ Uuid.ofDraw s.drawn }
    else policy) = named at h
  -- The policy is completed by a qualified name and then by an identifier.
  have hname : named = { policy with qualifiedName := named.qualifiedName } ∧
      named.qualifiedName ≠ "" := by
    rw [← hnamed]
    split
    · refine ⟨rfl, fun hempty => ?_⟩
      have hlist := congrArg String.toList hempty
      simp at hlist
    · next hqualified =>
      exact ⟨rfl, fun hempty => hqualified (by rw [hempty]; rfl)⟩
  have hne : unique ≠ "" := hunique ▸ Uuid.ofDraw_ne_empty _
  have hidentified := s.catalog.savePolicy_spec hne named
  obtain ⟨rfl, rfl⟩ := Prod.mk.inj (Except.ok.inj h)
  obtain ⟨hnameSame, hnameNe⟩ := hname
  obtain ⟨hguidSame, hguidNe, hguidKept⟩ := hidentified
  have hguid : named.guid = policy.guid := by rw [hnameSame]
  have hqualified : (s.catalog.savePolicy unique named).1.qualifiedName = named.qualifiedName := by
    rw [hguidSame]
  refine ⟨?_, hguidNe, fun hgiven => ?_, fun hempty => ⟨s.drawn + 1, Nat.le_succ _, ?_⟩, ?_, rfl, rfl,
    rfl⟩
  · show (s.catalog.savePolicy unique named).1 = _
    rw [hqualified]
    exact hguidSame.trans (by rw [hnameSame])
  · rw [← hguid] at hgiven ⊢
    exact hguidKept hgiven
  · have hmissing : named.guid.isEmpty = true := String.isEmpty_iff.2 (hguid.trans hempty)
    rw [hunique, PersonaCatalog.savePolicy]
    simp only [if_pos hmissing]
  · show (s.catalog.savePolicy unique named).1.qualifiedName ≠ ""
    rw [hqualified]
    exact hnameNe

/-- The persona of a policy that has been put was stored. -/
theorem putPolicy_stored
    (hrun : Operation.runOn (putPolicy σ subjects user policy) s = (.ok o, s')) :
    ∃ persona, s.catalog.personas.get? policy.personaGuid = some persona := by
  unfold putPolicy at hrun
  simp only [Operation.runOn_bind_ok, Operation.runOn_lift, Prod.mk.injEq] at hrun
  obtain ⟨_, _, ⟨-, rfl⟩, persona, _, hfound, -⟩ := hrun
  exact ⟨persona, (requirePersona_ok hfound).1⟩

/-- How a request for a persona in use is planned and carried out. -/
theorem putPolicy_ok
    (hrun : Operation.runOn (putPolicy σ subjects user policy) s = (.ok o, s'))
    (hpersona : s.catalog.personas.get? policy.personaGuid = some persona) :
    ∃ prior plan s₁ s₂, Admitted subjects user persona policy s.catalog ∧
      ((prior = none ↔ Creates s policy) ∧
        ∀ p, prior = some p → s.catalog.policies.get? policy.guid = some p) ∧
      Saves policy o.policy s s₁ ∧
      Operation.runOn (planPolicy σ persona prior o.policy) s₁ = (.ok plan, s₂) ∧
      Operation.runOn (Operation.execute σ.deadlineMs plan.mutations) s₂ = (.ok o.report, s') := by
  unfold putPolicy at hrun
  simp only [Operation.runOn_bind_ok, Operation.runOn_lift, Prod.mk.injEq] at hrun
  obtain ⟨_, _, ⟨hcheck, rfl⟩, found, s₁, hfound, _, _, ⟨hactive, rfl⟩, hrun⟩ := hrun
  obtain ⟨hget, rfl⟩ := requirePersona_ok hfound
  obtain rfl : persona = found := Option.some.inj (hpersona.symm.trans hget)
  obtain ⟨prior, s₂, hprior, _, s₃, hadmit, saved, s₄, hstore, plan, s₅, hplan, report, s₆,
    hexecute, hreturn⟩ := hrun
  obtain ⟨hcreates, rfl⟩ := priorPolicy_ok hprior
  obtain ⟨hname, hadmin, hassets, rfl⟩ := admitPolicy_ok hadmit
  obtain ⟨rfl, rfl⟩ : { policy := saved, report := report } = o ∧ s₆ = s' := by
    simpa using hreturn
  exact ⟨prior, plan, s₄, s₅, ⟨hcheck, hactive, hname, hadmin, hassets⟩, hcreates,
    storePolicy_ok hstore, hplan, hexecute⟩

/-- Planning a policy of a persona in use ends with its provisional policies held. A request that
creates the persona policy tracks nothing but what is wanted, and one that updates it tracks all
that has the label. -/
theorem planPolicy_planned {prior : Option PersonaPolicy} {saved : PersonaPolicy} {plan : Plan}
    (hs : Policy.WellStored s.authority.policies) (henabled : persona.enabled = true)
    (hrun : Operation.runOn (planPolicy σ persona prior saved) s = (.ok plan, s')) :
    ∃ loaded : String → Prop,
      Plan.Planned s.authority.policies (Label.personaPolicy saved.guid) persona.roleName
        (synthesize s.drawn persona saved) loaded plan ∧
      (prior = none → ∀ id, ¬ loaded id) ∧
      (prior ≠ none → ∀ id p, s.authority.policies.get? id = some p →
        Label.personaPolicy saved.guid ∈ p.labels → ∃ t, plan.tracked.get? id = some t) ∧
      s' = { s with drawn := s'.drawn } := by
  unfold planPolicy at hrun
  rw [if_pos henabled] at hrun
  cases prior with
  | none =>
    obtain ⟨hplanned, hsystem⟩ := planCreate_planned hs (Label.personaPolicy saved.guid) hrun
    exact ⟨_, hplanned, fun _ _ h => h, fun h => absurd rfl h, hsystem⟩
  | some prior =>
    obtain ⟨loaded, hplanned, htracked, hsystem⟩ := planUpdate_planned hs hrun
    exact ⟨loaded, hplanned, fun h => absurd h (Option.some_ne_none prior), fun _ => htracked,
      hsystem⟩

/-- What is planned for a persona that is enabled, and then carried out in full. -/
theorem putPolicy_realizes (hs : s.Reachable)
    (hrun : Operation.runOn (putPolicy σ subjects user policy) s = (.ok o, s'))
    (hcomplete : o.report.isComplete = true)
    (hpersona : s.catalog.personas.get? policy.personaGuid = some persona)
    (henabled : persona.enabled = true) :
    ∃ prior plan s₁ s₂, Admitted subjects user persona policy s.catalog ∧
      ((prior = none ↔ Creates s policy) ∧
        ∀ p, prior = some p → s.catalog.policies.get? policy.guid = some p) ∧
      Saves policy o.policy s s₁ ∧
      Operation.runOn (planPolicy σ persona prior o.policy) s₁ = (.ok plan, s₂) ∧
      plan.Realized s₁.authority s'.authority := by
  obtain ⟨prior, plan, s₁, s₂, hadmitted, hprior, hsaves, hplan, hexecute⟩ :=
    putPolicy_ok hrun hpersona
  have hkept := hs.wellKept
  rw [← hsaves.authority] at hkept
  obtain ⟨loaded, hplanned, -, -, hsystem⟩ := planPolicy_planned hkept.toWellStored henabled hplan
  -- The mutations are executed on the authority that planning has read.
  have hauthority : s₂.authority = s₁.authority := by rw [hsystem]
  rw [← hauthority] at hkept hplanned
  obtain ⟨hrealized, -⟩ := hplanned.toTracks.execute_realized hkept.numbered hexecute hcomplete
  exact ⟨prior, plan, s₁, s₂, hadmitted, hprior, hsaves, hplan, hauthority ▸ hrealized⟩

/-- A request for a persona in use that is carried out in full leaves the authority as planned. -/
theorem putPolicy_realized (hs : s.Reachable)
    (hrun : Operation.runOn (putPolicy σ subjects user policy) s = (.ok o, s'))
    (hcomplete : o.report.isComplete = true)
    (hpersona : s.catalog.personas.get? policy.personaGuid = some persona)
    (henabled : persona.enabled = true) :
    ∃ draw plan, ∃ loaded : String → Prop, plan.Realized s.authority s'.authority ∧
      Plan.Planned s.authority.policies (Label.personaPolicy o.policy.guid) persona.roleName
        (synthesize draw persona o.policy) loaded plan ∧
      (Creates s policy → ∀ id, ¬ loaded id) ∧
      (¬ Creates s policy → ∀ id p, s.authority.policies.get? id = some p →
        Label.personaPolicy o.policy.guid ∈ p.labels → ∃ t, plan.tracked.get? id = some t) := by
  obtain ⟨prior, plan, s₁, s₂, -, ⟨hcreates, -⟩, hsaves, hplan, hrealized⟩ :=
    putPolicy_realizes hs hrun hcomplete hpersona henabled
  have hkept := hs.wellKept
  rw [← hsaves.authority] at hkept ⊢
  obtain ⟨loaded, hplanned, hcreate, hupdate, -⟩ :=
    planPolicy_planned hkept.toWellStored henabled hplan
  exact ⟨s₁.drawn, plan, loaded, hrealized, hplanned, fun h => hcreate (hcreates.2 h),
    fun h => hupdate fun hprior => h (hcreates.1 hprior)⟩

/-- A request for a persona in use that is carried out in full leaves every provisional policy
carried by a stored one. Of the policies with the label of the persona policy, those that no
provisional policy asks for are gone after an update, and after a creation those are left that were
there before. -/
theorem putPolicy_reconciles (hs : s.Reachable)
    (hrun : Operation.runOn (putPolicy σ subjects user policy) s = (.ok o, s'))
    (hcomplete : o.report.isComplete = true)
    (hpersona : s.catalog.personas.get? policy.personaGuid = some persona)
    (henabled : persona.enabled = true) (draw : Nat) :
    (∀ q ∈ synthesize draw persona o.policy, q.IsProvisional persona.roleName ∧
      ∃ p ∈ s'.authority.policies.values, p.Carries q persona.roleName) ∧
    ∀ p, s'.authority.Stray (Label.personaPolicy o.policy.guid)
        (synthesize draw persona o.policy) p ↔
      Creates s policy ∧ s.authority.Stray (Label.personaPolicy o.policy.guid)
        (synthesize draw persona o.policy) p := by
  obtain ⟨draw', plan, loaded, hrealized, hplanned, hcreate, hupdate⟩ :=
    putPolicy_realized hs hrun hcomplete hpersona henabled
  have hnumbered := hs.wellKept.numbered
  constructor
  · intro q hq
    -- Planning drew other identifiers, which show in names only.
    obtain ⟨q', hq', halike⟩ := exists_alike_synthesize hq
    obtain ⟨p, hp, hcarries⟩ := hrealized.carries (hplanned.holds q' hq')
    exact ⟨(synthesizeActions_areProvisional draw persona o.policy _).each q hq, p, hp,
      hcarries.of_alike halike⟩
  · intro p
    rw [Authority.stray_iff, Authority.stray_iff, Policy.isWanted_synthesize_iff draw draw']
    constructor
    · rintro ⟨⟨id, hp⟩, hlabel, hunwanted⟩
      obtain ⟨huntracked, hbefore⟩ := hplanned.untouched hrealized hp hlabel hunwanted
      refine ⟨Classical.byContradiction fun h => ?_, ⟨id, hbefore⟩, hlabel, hunwanted⟩
      -- An update tracks whatever has the label.
      obtain ⟨t, ht⟩ := hupdate h id p hbefore hlabel
      exact Option.some_ne_none t (ht.symm.trans huntracked)
    · rintro ⟨h, ⟨id, hp⟩, hlabel, hunwanted⟩
      refine ⟨⟨id, hrealized.keeps hnumbered ?_ hp⟩, hlabel, hunwanted⟩
      -- A creation tracks only what is wanted.
      rw [Option.eq_none_iff_forall_not_mem]
      intro t ht
      obtain ⟨p', hp', htarget, -⟩ := hplanned.origin id t ht
      obtain rfl : p = p' := Option.some.inj (hp.symm.trans hp')
      rcases hplanned.tracked id t ht with ⟨q, hq, hsame⟩ | ⟨hloaded, -⟩
      · exact hunwanted ⟨q, hq, htarget.symm.trans hsame⟩
      · exact hcreate h id hloaded

/-! ### After an interrupted request -/

/-- A persona policy on relations between the terms of a glossary. -/
def termsPolicy (glossary : String) : PersonaPolicy where
  guid := "terms"
  personaGuid := "stewards"
  name := "terms"
  category := .glossary
  actions := NameSet.ofList [Action.glossaryTermRelationship]
  assets := [glossary]

/-- The system after a persona and a policy for it have been created, and after a request has been
carried out whose deletions failed. -/
def interrupted (r : Request) : System :=
  let s := Request.run {} {} (.createPersona { guid := "stewards", name := "stewards" })
  let s := Request.run {} s (.putPolicy {} "" (termsPolicy "finance"))
  let s := { s with faults := { failing := NameSet.ofList ["delete_policy"] }
                    authority := { s.authority with failing := ∅ } }
  let s := r.run {} s
  { s with faults := {}, authority := { s.authority with failing := ∅ } }

theorem interrupted_reachable (r : Request) : (interrupted r).Reachable :=
  ((((System.Reachable.empty.request _ _).request _ _).faults _ _).request _ r).faults _ _

/-- An update whose deletion failed is completed by the same request. -/
theorem putPolicy_reconciles_interrupted_update :
    ∃ s s' persona o, s = interrupted (.putPolicy {} "" (termsPolicy "risk")) ∧
      Operation.runOn (putPolicy {} {} "" (termsPolicy "risk")) s = (.ok o, s') ∧
      (∀ q ∈ synthesize 0 persona o.policy, q.IsProvisional persona.roleName ∧
        ∃ p ∈ s'.authority.policies.values, p.Carries q persona.roleName) ∧
      ∀ p, s'.authority.Stray (Label.personaPolicy o.policy.guid)
          (synthesize 0 persona o.policy) p ↔
        Creates s (termsPolicy "risk") ∧ s.authority.Stray
          (Label.personaPolicy o.policy.guid) (synthesize 0 persona o.policy) p := by
  let s := interrupted (.putPolicy {} "" (termsPolicy "risk"))
  have hstored : (s.catalog.personas.get? "stewards").any (·.enabled) = true := by decide +kernel
  obtain ⟨persona, hpersona, henabled⟩ := (Option.any_eq_true _ _).1 hstored
  have htest : (putPolicy {} {} "" (termsPolicy "risk")).passes s
      (fun o _ => o.report.isComplete) = true := by decide +kernel
  obtain ⟨o, s', hrun, hcomplete⟩ := Operation.exists_of_passes htest
  exact ⟨s, s', persona, o, rfl, hrun,
    putPolicy_reconciles (interrupted_reachable _) hrun hcomplete hpersona henabled 0⟩

/-- After a deletion that failed, a request that creates the persona policy again may leave a stray
policy although all its writes go through. -/
theorem stray_left_by_creation :
    ∃ s s' persona o p, s.Reachable ∧
      Operation.runOn (putPolicy {} {} "" (termsPolicy "risk")) s = (.ok o, s') ∧
      o.report.isComplete = true ∧
      s.catalog.personas.get? (termsPolicy "risk").personaGuid = some persona ∧
      persona.enabled = true ∧
      s'.authority.Stray (Label.personaPolicy o.policy.guid) (synthesize 0 persona o.policy) p := by
  let s := interrupted (.deletePolicy "terms")
  have hstored : (s.catalog.personas.get? "stewards").any (fun persona => persona.enabled &&
      (putPolicy {} {} "" (termsPolicy "risk")).passes s fun o s' => o.report.isComplete &&
        (s'.authority.withLabel (Label.personaPolicy o.policy.guid)).any fun p =>
          (synthesize 0 persona o.policy).all fun q => !p.sameTarget q) = true := by
    decide +kernel
  obtain ⟨persona, hpersona, htest⟩ := (Option.any_eq_true _ _).1 hstored
  rw [Bool.and_eq_true] at htest
  obtain ⟨o, s', hrun, hstray⟩ := Operation.exists_of_passes htest.2
  rw [Bool.and_eq_true, List.any_eq_true] at hstray
  obtain ⟨hcomplete, p, hlabelled, hunwanted⟩ := hstray
  refine ⟨s, s', persona, o, p, interrupted_reachable _, hrun, hcomplete, hpersona, htest.1,
    hlabelled, fun q hq => ?_⟩
  simpa using List.all_eq_true.1 hunwanted q hq

end PersonaService

end CatalogAccess
