import CatalogAccess.Proofs.Persona.Replanning

/-!
# Making a request again

`putPolicy_again` is about a request on a persona policy that was carried out in full and is made
again at once with the policy that it returned. The second request is admitted, since the policy is
not held against itself (`Admitted.again`), and plans an update that changes nothing but stray policies.
-/

namespace CatalogAccess

open Operation (runOn)

/-- A request leads from systems that requests lead to, to another one. -/
theorem System.Reachable.putPolicy {s s' : System} (hs : s.Reachable) {σ : ServiceSettings}
    {subjects : Subjects} {user : String} {policy : PersonaPolicy} {o : PolicyOutcome}
    (hrun : runOn (PersonaService.putPolicy σ subjects user policy) s = (.ok o, s')) :
    s'.Reachable := by
  have hreached := hs.request σ (.putPolicy subjects user policy)
  rwa [PersonaService.Request.run, hrun] at hreached

/-- Every mutation of a batch is attempted. -/
theorem System.execute_attempted (s : System) (deadlineMs : Nat) (ms : List Mutation) :
    (s.execute deadlineMs ms).1.attempted = ms.length := by
  have hone : ∀ state m, (attempt deadlineMs state m).1.attempted = state.1.attempted + 1 := by
    intro state m
    unfold attempt
    dsimp only
    split <;> rfl
  have hcount : ∀ state, (ms.foldl (attempt deadlineMs) state).1.attempted =
      state.1.attempted + ms.length := by
    induction ms with
    | nil => exact fun _ => rfl
    | cons m ms ih =>
      intro state
      rw [List.foldl_cons, ih, hone, List.length_cons]
      omega
  rw [execute, hcount]
  exact Nat.zero_add _

/-- The stray policies after a plan is carried out are those from before that it does not track. -/
theorem Plan.Planned.stray_iff {plan : Plan} {a a' : Authority} {label role : String}
    {qs : List Policy} {loaded : String → Prop}
    (h : Plan.Planned a.policies label role qs loaded plan) (hrealized : plan.Realized a a')
    (ha : a.Numbered) {p : Policy} :
    a'.Stray label qs p ↔
      (∃ id, a.policies.get? id = some p ∧ plan.tracked.get? id = none) ∧
        label ∈ p.labels ∧ ¬ p.IsWanted qs := by
  rw [Authority.stray_iff]
  constructor
  · rintro ⟨⟨id, hp⟩, hlabel, hunwanted⟩
    obtain ⟨hnone, hbefore⟩ := h.untouched hrealized hp hlabel hunwanted
    exact ⟨⟨id, hbefore, hnone⟩, hlabel, hunwanted⟩
  · rintro ⟨⟨id, hp, hnone⟩, hlabel, hunwanted⟩
    exact ⟨⟨id, hrealized.keeps ha hnone hp⟩, hlabel, hunwanted⟩

namespace PersonaService

variable {σ : ServiceSettings} {subjects : Subjects} {user : String}
  {policy p : PersonaPolicy} {persona : Persona} {o : PolicyOutcome} {s s' : System}

/-! ### Admission -/

theorem ensureUniquePolicyName_iff {siblings : List PersonaPolicy} :
    ensureUniquePolicyName policy siblings = .ok () ↔
      ∀ x ∈ siblings, x.guid ≠ policy.guid → x.isActive = true → x.name ≠ policy.name := by
  unfold ensureUniquePolicyName
  split
  · next htaken =>
    obtain ⟨x, hx, htest⟩ := List.any_eq_true.1 htaken
    simp only [Bool.and_eq_true, bne_iff_ne, beq_iff_eq] at htest
    refine ⟨fun h => absurd h (by simp), fun h => ?_⟩
    exact absurd htest.2 (h x hx htest.1.1 htest.1.2)
  · next hfree =>
    refine ⟨fun _ x hx hguid hactive hname => hfree ?_, fun _ => rfl⟩
    rw [List.any_eq_true]
    exact ⟨x, hx, by simp [hguid, hactive, hname]⟩

theorem ensureUniqueAssets_iff {siblings : List PersonaPolicy} :
    ensureUniqueAssets policy siblings = .ok () ↔ ∀ x ∈ siblings, duplicates policy x = false := by
  unfold ensureUniqueAssets
  cases hfind : siblings.find? (duplicates policy) with
  | some x =>
    have hx := List.mem_of_find?_eq_some hfind
    have htest := List.find?_some hfind
    refine ⟨fun h => absurd h (by simp), fun h => ?_⟩
    rw [h x hx] at htest
    exact absurd htest Bool.false_ne_true
  | none =>
    refine ⟨fun _ x hx => ?_, fun _ => rfl⟩
    simpa using List.find?_eq_none.1 hfind x hx

/-- A stored policy with another identifier than the one saved was no earlier version of it. -/
theorem Saves.guid_ne {saved x : PersonaPolicy} (h : Saves policy saved s s') (hs : s.WellKept)
    {k : String} (hx : s.catalog.policies.get? k = some x) (hguid : x.guid ≠ saved.guid) :
    x.guid ≠ policy.guid := by
  intro heq
  by_cases hempty : policy.guid = ""
  · exact hs.named k x hx (heq.trans hempty)
  · exact hguid (heq.trans (h.kept hempty).symm)

/-- What a policy is held to duplicate does not depend on how it was completed when it was saved. -/
theorem Saves.duplicates {saved x : PersonaPolicy} (h : Saves policy saved s s')
    (hguid : x.guid ≠ saved.guid) (hother : x.guid ≠ policy.guid) :
    duplicates saved x = duplicates policy x := by
  have hguid' : (x.guid != saved.guid) = true := bne_iff_ne.2 hguid
  have hother' : (x.guid != policy.guid) = true := bne_iff_ne.2 hother
  rw [h.same]
  simp only [PersonaService.duplicates, hguid', hother']
  rfl

/-- A policy that was admitted and saved is admitted again: what differs from it by identifier did so
before. -/
theorem Admitted.again (hs : s.WellKept) (h : Admitted subjects user persona policy s.catalog)
    {saved : PersonaPolicy} (hsaves : Saves policy saved s s') :
    Admitted subjects user persona saved s'.catalog := by
  have hsame := hsaves.same
  -- A policy of the persona with another identifier was there before.
  have hsiblings : ∀ x ∈ s'.catalog.policiesOf persona.guid, x.guid ≠ saved.guid →
      x ∈ s.catalog.policiesOf persona.guid ∧ x.guid ≠ policy.guid := by
    intro x hx hguid
    obtain ⟨hvalues, hpersona⟩ := List.mem_filter.1 hx
    obtain ⟨k, hk⟩ := NameMap.mem_values_iff.1 hvalues
    rw [hsaves.catalog] at hk
    obtain ⟨-, rfl⟩ | ⟨-, hold⟩ := NameMap.get?_insert_eq_some.1 hk
    · exact absurd rfl hguid
    · exact ⟨List.mem_filter.2 ⟨NameMap.mem_values_iff.2 ⟨k, hold⟩, hpersona⟩,
        hsaves.guid_ne hs hold hguid⟩
  constructor
  · rw [hsame]
    exact h.check
  · exact h.active
  · rw [ensureUniquePolicyName_iff]
    intro x hx hguid hactive
    obtain ⟨hold, hother⟩ := hsiblings x hx hguid
    rw [hsame]
    exact ensureUniquePolicyName_iff.1 h.name x hold hother hactive
  · rw [hsame]
    exact h.admin
  · rw [ensureUniqueAssets_iff]
    intro x hx
    by_cases hguid : x.guid = saved.guid
    · simp [duplicates, hguid]
    · obtain ⟨hold, hother⟩ := hsiblings x hx hguid
      rw [hsaves.duplicates hguid hother]
      exact ensureUniqueAssets_iff.1 h.assets x hold

/-! ### The second request -/

theorem runOn_requirePersona (hf : s.faults.OnlyWrites) {guid : String}
    (h : s.catalog.personas.get? guid = some persona) :
    runOn (requirePersona guid) s = (.ok persona, s) := by
  have hread : s.persona? guid = .ok (some persona) := by
    rw [System.persona?, hf "get_persona" guid (by decide), h]
    rfl
  rw [requirePersona, Operation.runOn_bind, Operation.runOn_read, hread]
  rfl

/-- The stored policy of an identifier is found as the prior version, if it is updatable. -/
theorem runOn_priorPolicy (hf : s.faults.OnlyWrites) {prior : PersonaPolicy} (hguid : p.guid ≠ "")
    (h : s.catalog.policies.get? p.guid = some prior) :
    runOn (priorPolicy p) s = match ensureUpdatable p prior with
      | .ok _ => (.ok (some prior), s)
      | .error e => (.error e, s) := by
  have hread : s.personaPolicy? p.guid = .ok (some prior) := by
    rw [System.personaPolicy?, hf "get_persona_policy" p.guid (by decide), h]
    rfl
  have hne : ¬ p.guid.isEmpty = true := fun h => hguid (String.isEmpty_iff.1 h)
  rw [priorPolicy, if_neg hne, Operation.runOn_bind, Operation.runOn_read, hread]
  dsimp only
  rw [Operation.runOn_bind, Operation.runOn_lift]
  cases ensureUpdatable p prior <;> rfl

/-- An admitted policy passes admission. -/
theorem runOn_admitPolicy (hf : s.faults.OnlyWrites)
    (h : Admitted subjects user persona p s.catalog) :
    runOn (admitPolicy subjects user persona p) s = (.ok (), s) := by
  simp only [admitPolicy, Operation.runOn_bind, Operation.runOn_read, Operation.runOn_lift,
    System.policiesOf_ok hf, h.name, h.admin, h.assets]

/-- A stored policy with a qualified name is saved as it is. -/
theorem runOn_storePolicy (hf : s.faults.OnlyWrites) (hguid : p.guid ≠ "")
    (hname : p.qualifiedName ≠ "") (h : s.catalog.policies.get? p.guid = some p) :
    runOn (storePolicy persona p) s = (.ok p, { s with drawn := s.drawn + 2 }) := by
  have hguid' : ¬ p.guid.isEmpty = true := fun h => hguid (String.isEmpty_iff.1 h)
  have hname' : ¬ p.qualifiedName.isEmpty = true := fun h => hname (String.isEmpty_iff.1 h)
  have hinsert : s.catalog.policies.insert p.guid p = s.catalog.policies := by
    refine NameMap.ext_get? fun x => ?_
    rw [NameMap.get?_insert]
    split
    · next heq => rw [heq, h]
    · rfl
  have hsave : ∀ unique, s.catalog.savePolicy unique p = (p, s.catalog) := by
    intro unique
    rw [PersonaCatalog.savePolicy, if_neg hguid', hinsert]
  have hwrite : s.faults.check "save_persona_policy" p.name = .ok () :=
    hf "save_persona_policy" p.name (by decide)
  have hrun : runOn (Operation.savePersonaPolicy p) { s with drawn := s.drawn + 1 } =
      (.ok p, { s with drawn := s.drawn + 2 }) := by
    rw [Operation.savePersonaPolicy, Operation.runOn_bind, Operation.runOn_fresh]
    dsimp only
    rw [Operation.runOn_write_ok]
    simp only [hwrite, hsave]
    rfl
  rw [storePolicy, Operation.runOn_bind, Operation.runOn_fresh]
  dsimp only
  rw [if_neg hname']
  exact hrun

/-- A request on a stored policy that is admitted goes as far as planning an update. -/
theorem runOn_putPolicy_update (hf : s.faults.OnlyWrites)
    (h : Admitted subjects user persona p s.catalog)
    (hpersona : s.catalog.personas.get? p.personaGuid = some persona) (hguid : p.guid ≠ "")
    {prior : PersonaPolicy} (hstored : s.catalog.policies.get? p.guid = some prior)
    (hupdatable : ensureUpdatable p prior = .ok ()) {saved : PersonaPolicy} {s₁ : System}
    (hstore : runOn (storePolicy persona p) s = (.ok saved, s₁)) {plan : Plan}
    (hplan : runOn (planPolicy σ persona (some prior) saved) s₁ = (.ok plan, s')) :
    runOn (putPolicy σ subjects user p) s =
      (.ok ⟨saved, (s'.execute σ.deadlineMs plan.mutations).1⟩,
        (s'.execute σ.deadlineMs plan.mutations).2) := by
  simp only [putPolicy, Operation.runOn_bind, Operation.runOn_lift, h.check,
    runOn_requirePersona hf hpersona, h.active, runOn_priorPolicy hf hguid hstored, hupdatable,
    runOn_admitPolicy hf h, hstore, hplan]
  rfl

/-- A request on a stored policy that is not updatable is refused, and changes nothing. -/
theorem runOn_putPolicy_refused (hf : s.faults.OnlyWrites)
    (h : Admitted subjects user persona p s.catalog)
    (hpersona : s.catalog.personas.get? p.personaGuid = some persona) (hguid : p.guid ≠ "")
    {prior : PersonaPolicy} (hstored : s.catalog.policies.get? p.guid = some prior)
    {e : AccessError} (hrefused : ensureUpdatable p prior = .error e) :
    runOn (putPolicy σ subjects user p) s = (.error e, s) := by
  simp only [putPolicy, Operation.runOn_bind, Operation.runOn_lift, h.check,
    runOn_requirePersona hf hpersona, h.active, runOn_priorPolicy hf hguid hstored, hrefused]

/-- A request for a stored policy in use, as it is stored, goes as far as planning an update. -/
theorem runOn_putPolicy_stored (hf : s.faults.OnlyWrites)
    (h : Admitted subjects user persona p s.catalog)
    (hpersona : s.catalog.personas.get? p.personaGuid = some persona) (hguid : p.guid ≠ "")
    (hname : p.qualifiedName ≠ "") (hstored : s.catalog.policies.get? p.guid = some p)
    (hactive : p.isActive = true) {plan : Plan}
    (hplan : runOn (planPolicy σ persona (some p) p) { s with drawn := s.drawn + 2 } =
      (.ok plan, s')) :
    runOn (putPolicy σ subjects user p) s =
      (.ok ⟨p, (s'.execute σ.deadlineMs plan.mutations).1⟩,
        (s'.execute σ.deadlineMs plan.mutations).2) := by
  have hupdatable : ensureUpdatable p p = .ok () := by simp [ensureUpdatable, hactive]
  exact runOn_putPolicy_update hf h hpersona hguid hstored hupdatable
    (runOn_storePolicy hf hguid hname hstored) hplan

/-! ### The stores in between -/

/-- Planning draws identifiers, and leaves the stores as they are. -/
theorem planPolicy_drawn {prior : Option PersonaPolicy} {plan : Plan}
    (hs : Policy.WellStored s.authority.policies)
    (hrun : runOn (planPolicy σ persona prior p) s = (.ok plan, s')) :
    s' = { s with drawn := s'.drawn } := by
  by_cases henabled : persona.enabled = true
  · obtain ⟨-, -, -, -, hsystem⟩ := planPolicy_planned hs henabled hrun
    exact hsystem
  · unfold planPolicy at hrun
    rw [if_neg henabled, Operation.runOn_pure] at hrun
    obtain ⟨-, rfl⟩ := Prod.mk.inj hrun
    rfl

/-- A request with a result was admitted, and has saved the policy that it returns. -/
theorem putPolicy_saves (hs : s.Reachable)
    (hrun : runOn (putPolicy σ subjects user policy) s = (.ok o, s'))
    (hpersona : s.catalog.personas.get? policy.personaGuid = some persona) :
    Admitted subjects user persona policy s.catalog ∧
      ∃ s₁, Saves policy o.policy s s₁ ∧ s'.catalog = s₁.catalog ∧ s'.faults = s₁.faults := by
  obtain ⟨prior, plan, s₁, s₂, hadmitted, -, hsaves, hplan, hexecute⟩ :=
    putPolicy_ok hrun hpersona
  have hstored : Policy.WellStored s₁.authority.policies :=
    hsaves.authority ▸ hs.wellKept.toWellStored
  have hdrawn := planPolicy_drawn hstored hplan
  have hfinal : (s₂.execute σ.deadlineMs plan.mutations).2 = s' := congrArg Prod.snd hexecute
  -- Carrying out the plan touches nothing but the authority.
  obtain ⟨a, hs', -⟩ := s₂.execute_leaves σ.deadlineMs plan.mutations
  rw [← hfinal, hs', hdrawn]
  exact ⟨hadmitted, s₁, hsaves, rfl, rfl⟩

/-- The provisional policies of a policy that a request has returned are in force, if the request was
for a persona in use and was carried out in full. -/
theorem putPolicy_enforces (hs : s.Reachable)
    (hrun : runOn (putPolicy σ subjects user policy) s = (.ok o, s'))
    (hcomplete : o.report.isComplete = true)
    (hpersona : s.catalog.personas.get? policy.personaGuid = some persona)
    (henabled : persona.enabled = true) {draw : Nat}
    (hshort : ∀ q ∈ synthesize draw persona o.policy,
      (ResourceMap.canonicalBytes q.resources).length < 2 ^ 60) (hassets : o.policy.assets ≠ []) :
    s'.authority.Enforces (Label.personaPolicy o.policy.guid) persona.roleName
      (synthesize draw persona o.policy) := by
  obtain ⟨draw', plan, loaded, hrealized, hplanned, -, -⟩ :=
    putPolicy_realized hs hrun hcomplete hpersona henabled
  have hs' : s'.Reachable := hs.putPolicy hrun
  constructor
  · intro q hq
    -- Planning drew other identifiers, which show in names only.
    obtain ⟨q', hq', halike⟩ := exists_alike_synthesize hq
    obtain ⟨p, hp, hcarries⟩ := hrealized.carries (hplanned.holds q' hq')
    have hcarries := hcarries.of_alike halike
    refine ⟨p, List.mem_filter.2 ⟨hp, ?_⟩, hcarries⟩
    exact NameSet.contains_iff.2 (hcarries.labels _ (mem_labels_of_mem_synthesize hq))
  · exact hs'.wellKept.toWellStored.unique_synthesize hassets hshort

/-- Which identifiers are drawn for names does not matter to what is stray. -/
theorem stray_synthesize_iff {a : Authority} {label : String} (draw draw' : Nat) {p : Policy} :
    a.Stray label (synthesize draw persona policy) p ↔
      a.Stray label (synthesize draw' persona policy) p := by
  rw [Authority.stray_iff, Authority.stray_iff, Policy.isWanted_synthesize_iff draw draw']

/-- Policies that are stray after a request for a persona in use were so before, and the request has
created the persona policy. -/
theorem putPolicy_stray_iff (hs : s.Reachable)
    (hrun : runOn (putPolicy σ subjects user policy) s = (.ok o, s'))
    (hcomplete : o.report.isComplete = true)
    (hpersona : s.catalog.personas.get? policy.personaGuid = some persona)
    (henabled : persona.enabled = true) (draw : Nat) (p : Policy) :
    s'.authority.Stray (Label.personaPolicy o.policy.guid) (synthesize draw persona o.policy) p ↔
      Creates s policy ∧ s.authority.Stray (Label.personaPolicy o.policy.guid)
        (synthesize draw persona o.policy) p := by
  obtain ⟨draw', plan, loaded, hrealized, hplanned, hcreate, hupdate⟩ :=
    putPolicy_realized hs hrun hcomplete hpersona henabled
  rw [stray_synthesize_iff draw draw', stray_synthesize_iff draw draw',
    hplanned.stray_iff hrealized hs.wellKept.numbered, Authority.stray_iff]
  constructor
  · rintro ⟨⟨id, hp, hnone⟩, hlabel, hunwanted⟩
    refine ⟨Classical.byContradiction fun h => ?_, ⟨id, hp⟩, hlabel, hunwanted⟩
    -- An update tracks whatever has the label.
    obtain ⟨t, ht⟩ := hupdate h id p hp hlabel
    exact Option.some_ne_none t (ht.symm.trans hnone)
  · rintro ⟨h, ⟨id, hp⟩, hlabel, hunwanted⟩
    refine ⟨⟨id, hp, Option.eq_none_iff_forall_not_mem.2 fun t ht => ?_⟩, hlabel, hunwanted⟩
    -- A creation tracks only what is wanted.
    have htarget := Policy.target_eq_of_frame (hplanned.frame id t p ht hp)
    rcases hplanned.tracked id t ht with ⟨q, hq, hsame⟩ | ⟨hloaded, -⟩
    · exact hunwanted ⟨q, hq, htarget.symm.trans hsame⟩
    · exact hcreate h id hloaded

/-! ### Making the request again -/

/-- A second request plans nothing, unless the first one has left stray policies of a persona in use. -/
theorem planPolicy_again (hs : s.Reachable)
    (hrun : runOn (putPolicy σ subjects user policy) s = (.ok o, s'))
    (hcomplete : o.report.isComplete = true)
    (hpersona : s.catalog.personas.get? policy.personaGuid = some persona)
    (hassets : o.policy.assets ≠ []) {draw : Nat}
    (hshort : ∀ q ∈ synthesize draw persona o.policy,
      (ResourceMap.canonicalBytes q.resources).length < 2 ^ 60)
    (s₁ : System) (hf : s₁.faults.OnlyWrites) (hauthority : s₁.authority = s'.authority) :
    ∃ plan s₂, runOn (planPolicy σ persona (some o.policy) o.policy) s₁ = (.ok plan, s₂) ∧
      s₂ = { s₁ with drawn := s₂.drawn } ∧
      (plan.mutations = [] ↔ ¬ (persona.enabled = true ∧ Creates s policy ∧
        ∃ p, s.authority.Stray (Label.personaPolicy o.policy.guid)
          (synthesize draw persona o.policy) p)) := by
  unfold planPolicy
  by_cases henabled : persona.enabled = true
  · have henforces := putPolicy_enforces hs hrun hcomplete hpersona henabled
      (short_synthesize hshort s₁.drawn) hassets
    have hs' : s'.Reachable := hs.putPolicy hrun
    rw [if_pos henabled]
    rw [← hauthority] at henforces
    obtain ⟨plan, s₂, hplan, hs₂, hnothing⟩ :=
      planUpdate_enforced (σ := σ) hf (hauthority ▸ hs'.wellKept.toWellStored) henforces
    refine ⟨plan, s₂, hplan, hs₂, hnothing.trans ?_⟩
    have hstray := fun p => (stray_synthesize_iff s₁.drawn draw).trans
      (putPolicy_stray_iff hs hrun hcomplete hpersona henabled draw p)
    rw [hauthority]
    simp only [hstray, henabled, true_and, not_and, not_exists]
    exact ⟨fun h hcreates p => h p hcreates, fun h p hcreates => h hcreates p⟩
  · rw [if_neg henabled]
    refine ⟨{}, s₁, rfl, rfl, ?_⟩
    exact ⟨fun _ h => henabled h.1, fun _ => rfl⟩

/-- A request on a persona policy that was carried out in full is made again at once, with the policy
that it returned. It goes through again, and it attempts nothing and leaves the policies of the
authority alone, unless the first request has created a policy of a persona in use while stray
policies from before had its label: these are stripped by the second request. -/
theorem putPolicy_again (hs : s.Reachable) (hf : s.faults.OnlyWrites)
    (hrun : runOn (putPolicy σ subjects user policy) s = (.ok o, s'))
    (hcomplete : o.report.isComplete = true) (hactive : o.policy.isActive = true)
    (hpersona : s.catalog.personas.get? policy.personaGuid = some persona) {draw : Nat}
    (hshort : ∀ q ∈ synthesize draw persona o.policy,
      (ResourceMap.canonicalBytes q.resources).length < 2 ^ 60) :
    ∃ o₂ s₂, runOn (putPolicy σ subjects user o.policy) s' = (.ok o₂, s₂) ∧
      o₂.policy = o.policy ∧
      (o₂.report.attempted = 0 ∧ s₂.authority.policies = s'.authority.policies ↔
        ¬ (persona.enabled = true ∧ Creates s policy ∧
          ∃ p, s.authority.Stray (Label.personaPolicy o.policy.guid)
            (synthesize draw persona o.policy) p)) := by
  obtain ⟨hadmitted, s₁, hsaves, hcatalog, hfaults⟩ := putPolicy_saves hs hrun hpersona
  -- The second request is admitted, and finds the policy in the catalog.
  have hf' : s'.faults.OnlyWrites := by
    rw [hfaults, hsaves.faults]
    exact hf
  have hadmitted' : Admitted subjects user persona o.policy s'.catalog :=
    hcatalog ▸ hadmitted.again hs.keeps hsaves
  have hpersonaGuid : o.policy.personaGuid = policy.personaGuid := by rw [hsaves.same]
  have hpersona' : s'.catalog.personas.get? o.policy.personaGuid = some persona := by
    rw [hcatalog, hsaves.catalog, hpersonaGuid]
    exact hpersona
  have hstored : s'.catalog.policies.get? o.policy.guid = some o.policy := by
    rw [hcatalog, hsaves.catalog, NameMap.get?_insert, if_pos rfl]
  -- What is planned depends on the persona.
  have hassets : o.policy.assets ≠ [] := assets_ne_nil_of_check hadmitted'.check
  obtain ⟨plan, s₂, hplan, hs₂, hnothing⟩ := planPolicy_again hs hrun hcomplete hpersona hassets
    hshort { s' with drawn := s'.drawn + 2 } hf' rfl
  refine ⟨_, _, runOn_putPolicy_stored hf' hadmitted' hpersona' hsaves.guid hsaves.qualifiedName
    hstored hactive hplan, rfl, ?_⟩
  rw [← hnothing, System.execute_attempted, List.length_eq_zero_iff]
  constructor
  · exact fun h => h.1
  · intro hnil
    refine ⟨hnil, ?_⟩
    rw [hnil, hs₂]
    rfl

/-- An update whose deletion failed is completed by the same request, and nothing is left to do for
another one. -/
theorem putPolicy_again_interrupted_update :
    ∃ s s' persona o o₂ s₂, s = interrupted (.putPolicy {} "" (termsPolicy "risk")) ∧
      runOn (putPolicy {} {} "" (termsPolicy "risk")) s = (.ok o, s') ∧
      runOn (putPolicy {} {} "" o.policy) s' = (.ok o₂, s₂) ∧ o₂.policy = o.policy ∧
      (o₂.report.attempted = 0 ∧ s₂.authority.policies = s'.authority.policies ↔
        ¬ (persona.enabled = true ∧ Creates s (termsPolicy "risk") ∧
          ∃ p, s.authority.Stray (Label.personaPolicy o.policy.guid)
            (synthesize 0 persona o.policy) p)) := by
  let s := interrupted (.putPolicy {} "" (termsPolicy "risk"))
  have hfaults : s.faults.OnlyWrites := fun _ _ _ => rfl
  have htest : (s.catalog.personas.get? "stewards").any (fun persona =>
      (putPolicy {} {} "" (termsPolicy "risk")).passes s fun o _ =>
        o.report.isComplete && o.policy.isActive && (synthesize 0 persona o.policy).all fun q =>
          decide ((ResourceMap.canonicalBytes q.resources).length < 2 ^ 60)) = true := by
    decide +kernel
  obtain ⟨persona, hpersona, hpasses⟩ := (Option.any_eq_true _ _).1 htest
  obtain ⟨o, s', hrun, hall⟩ := Operation.exists_of_passes hpasses
  simp only [Bool.and_eq_true, List.all_eq_true, decide_eq_true_eq] at hall
  obtain ⟨⟨hcomplete, hactive⟩, hshort⟩ := hall
  obtain ⟨o₂, s₂, hagain, hpolicy, hnothing⟩ :=
    putPolicy_again (interrupted_reachable _) hfaults hrun hcomplete hactive hpersona hshort
  exact ⟨s, s', persona, o, o₂, s₂, rfl, hrun, hagain, hpolicy, hnothing⟩

/-- After a deletion that failed, a request that creates the persona policy again may leave something
to do for the same request although all its writes go through. -/
theorem putPolicy_again_after_creation :
    ∃ s s' o o₂ s₂, s.Reachable ∧ s.faults.OnlyWrites ∧
      runOn (putPolicy {} {} "" (termsPolicy "risk")) s = (.ok o, s') ∧
      o.report.isComplete = true ∧ o.policy.isActive = true ∧
      runOn (putPolicy {} {} "" o.policy) s' = (.ok o₂, s₂) ∧ o₂.report.attempted = 1 ∧
      s₂.authority.policies ≠ s'.authority.policies := by
  let s := interrupted (.deletePolicy "terms")
  have htest : (putPolicy {} {} "" (termsPolicy "risk")).passes s (fun o s' =>
      o.report.isComplete && o.policy.isActive &&
        (putPolicy {} {} "" o.policy).passes s' fun o₂ s₂ =>
          decide (o₂.report.attempted = 1 ∧ s₂.authority.policies ≠ s'.authority.policies)) =
      true := by
    decide +kernel
  obtain ⟨o, s', hrun, hpasses⟩ := Operation.exists_of_passes htest
  simp only [Bool.and_eq_true] at hpasses
  obtain ⟨⟨hcomplete, hactive⟩, hagain⟩ := hpasses
  obtain ⟨o₂, s₂, hrun₂, hchanged⟩ := Operation.exists_of_passes hagain
  rw [decide_eq_true_eq] at hchanged
  exact ⟨s, s', o, o₂, s₂, interrupted_reachable _, fun _ _ _ => rfl, hrun, hcomplete, hactive,
    hrun₂, hchanged.1, hchanged.2⟩

end PersonaService

end CatalogAccess
