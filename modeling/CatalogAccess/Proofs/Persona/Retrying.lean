import CatalogAccess.Proofs.Persona.Exactness
import CatalogAccess.Proofs.Persona.Idempotence
import CatalogAccess.Proofs.Targets

/-!
# Retrying a request

`PersonaService.putPolicy_retry` is about a request on a persona policy whose writes may have failed, and
which is made once more when no call fails. The first request has saved the persona policy, so that the
second one is an update of it to itself (`PersonaService.Resumes`). Such an update changes no targets: it
merges into the policies that the first request has left, and strips labelled policies that no
provisional policy asks for. It goes through, but a policy that it merges into may have an item for the
role in another list, which the first request was to strip and did not.
-/

namespace CatalogAccess

open Operation (runOn)

/-- The system when no call fails any more. -/
def System.repaired (s : System) : System :=
  { s with faults := {}, authority := { s.authority with failing := ∅ } }

namespace PersonaService

variable {σ : ServiceSettings} {subjects : Subjects} {user role : String}
  {policy p prior : PersonaPolicy} {persona : Persona} {o : PolicyOutcome} {s s' : System}

/-! ### Planning goes through -/

/-- Placing a provisional policy goes through when reading does. -/
theorem place_total (hf : s.faults.OnlyWrites) (pageSize : Nat) (plan : Plan) (q : Policy) :
    ∃ plan', place pageSize role s plan q = .ok plan' := by
  have hread : s.sameTarget? pageSize q = .ok (Page.find? pageSize (·.sameTarget q)
      (s.authority.withResources q.service q.resources)) := by
    rw [System.sameTarget?, hf "list_by_resources" q.service.text (by decide)]
    rfl
  unfold place
  split
  · exact ⟨_, rfl⟩
  · exact ⟨_, rfl⟩
  · rw [hread]
    cases Page.find? pageSize (·.sameTarget q)
      (s.authority.withResources q.service q.resources) <;> exact ⟨_, rfl⟩

/-- Planning an update goes through when reading does. -/
theorem planUpdate_total (hf : s.faults.OnlyWrites) (σ : ServiceSettings) (persona : Persona)
    (prior policy : PersonaPolicy) :
    ∃ plan drawn, runOn (planUpdate σ persona prior policy) s = (.ok plan, { s with drawn }) := by
  -- Synthesis draws identifiers, and leaves everything else as it is.
  let drawn : System := { s with drawn := s.drawn +
    (Synthesis.provisionals persona policy policy.actions).length }
  have hlabelled := System.policiesWithLabel_ok hf σ.pageSize (Label.personaPolicy policy.guid)
  have hplace : ∀ plan q, ∃ plan', place σ.pageSize persona.roleName drawn plan q = .ok plan' :=
    place_total (s := drawn) hf σ.pageSize
  simp only [planUpdate, Operation.runOn_bind, Operation.runOn_read, hlabelled,
    Operation.runOn_synthesize]
  split
  · obtain ⟨plan, hplan⟩ := foldlM_total hplace (synthesizeActions s.drawn persona policy policy.actions)
      (Plan.stripAll ((s.authority.withLabel (Label.personaPolicy policy.guid)).foldl Plan.load {})
        (s.authority.withLabel (Label.personaPolicy policy.guid)) persona.roleName
        (policy.droppedLabels persona))
    exact ⟨plan, drawn.drawn, congrArg (·, drawn) hplan⟩
  · have hmap : ∀ state q, ∃ state', mapProvisional σ.pageSize persona.roleName drawn
        (s.authority.withLabel (Label.personaPolicy policy.guid)) state q = .ok state' := by
      intro state q
      unfold mapProvisional
      split
      · exact ⟨_, rfl⟩
      · obtain ⟨plan', hplan'⟩ := hplace state.1 q
        rw [hplan']
        exact ⟨_, rfl⟩
    obtain ⟨state, hstate⟩ := foldlM_total hmap (synthesizeActions s.drawn persona policy policy.actions)
      ((s.authority.withLabel (Label.personaPolicy policy.guid)).foldl Plan.load {}, ∅)
    rw [Operation.runOn_bind, Operation.runOn_read, hstate]
    exact ⟨_, drawn.drawn, rfl⟩

/-- A policy is saved when the catalog takes it. -/
theorem storePolicy_total (hf : s.faults.OnlyWrites) (persona : Persona) (p : PersonaPolicy) :
    ∃ saved s', runOn (storePolicy persona p) s = (.ok saved, s') := by
  have hwrite : ∀ name, s.faults.check "save_persona_policy" name = .ok () :=
    fun name => hf "save_persona_policy" name (by decide)
  unfold storePolicy Operation.savePersonaPolicy
  simp only [Operation.runOn_bind, Operation.runOn_fresh]
  unfold Operation.write runOn
  simp only [hwrite]
  exact ⟨_, _, rfl⟩

/-! ### What an update grants -/

/-- When the targets of a persona policy stay, the policies with a wanted target are confined to their
provisional policies after an update just when they were so before. -/
theorem planUpdate_confinedTo_iff (hs : s.authority.WellKept)
    (hfurnished : ∀ id p, s.authority.policies.get? id = some p → p.IsFurnished)
    (hassets : policy.assets ≠ []) (hkept : mustRecreate policy prior = false) {plan : Plan}
    (hrun : runOn (planUpdate σ persona prior policy) s = (.ok plan, s')) {a : Authority}
    (hrealized : plan.Realized s.authority a) {draw : Nat}
    (hshort : ∀ q ∈ synthesize draw persona policy,
      (ResourceMap.canonicalBytes q.resources).length < 2 ^ 60) {q p : Policy}
    (hq : q ∈ synthesize draw persona policy) (hp : p ∈ a.policies.values)
    (htarget : p.target = q.target) :
    p.ConfinedTo q persona.roleName ↔ ∀ p ∈ s.authority.policies.values, p.target = q.target →
      p.ConfinedTo q persona.roleName := by
  have hbuilt := planUpdate_built hs.toWellStored hrun
  have hshort' := short_synthesize hshort s.drawn
  have hunique := hs.toWellStored.unique_synthesize hassets hshort'
  have hqs := synthesizeActions_areProvisional s.drawn persona policy policy.actions
  obtain ⟨q', hq', halike⟩ : ∃ q' ∈ synthesize s.drawn persona policy, Policy.Alike q' q :=
    exists_alike_synthesize hq
  have hiff := hbuilt.confinedTo_iff hs hfurnished hqs.placeable
    (fun q q' hq hq' => hqs.alike q hq q' hq')
    (fun p₀ q₀ hstripped hq₀ htarget₀ => hstripped.2 hkept q₀ hq₀
      (Authority.find?_withLabel (hunique q₀ hq₀) hstripped.1 htarget₀))
    hrealized hq' (hshort' q' hq') (hunique q' hq') hp (htarget.trans halike.target.symm)
  have hsame : ∀ p : Policy,
      p.ConfinedTo q' persona.roleName ↔ p.ConfinedTo q persona.roleName :=
    fun p => halike.confinedTo_iff
  simpa only [hsame, halike.target] using hiff

/-- An update leaves no labelled policy that is not wanted. -/
theorem putPolicy_wanted (hs : s.Reachable)
    (hrun : runOn (putPolicy σ subjects user policy) s = (.ok o, s'))
    (hcomplete : o.report.isComplete = true)
    (hpersona : s.catalog.personas.get? policy.personaGuid = some persona)
    (henabled : persona.enabled = true) (hupdates : ¬ Creates s policy) (draw : Nat) :
    ∀ p ∈ s'.authority.withLabel (Label.personaPolicy o.policy.guid),
      p.IsWanted (synthesize draw persona o.policy) := by
  intro p hp
  refine Classical.byContradiction fun hunwanted => ?_
  obtain ⟨hstored, hlabel⟩ := Authority.mem_withLabel.1 hp
  have hstray := Authority.stray_iff.2 ⟨hstored, hlabel, hunwanted⟩
  exact hupdates ((putPolicy_stray_iff hs hrun hcomplete hpersona henabled draw p).1 hstray).1

/-- After an update that is carried out in full, just what is asked for is granted if policies with a
wanted target are confined to their provisional policies. -/
theorem putPolicy_grantsExactly_iff (hs : s.Reachable)
    (hrun : runOn (putPolicy σ subjects user policy) s = (.ok o, s'))
    (hcomplete : o.report.isComplete = true)
    (hpersona : s.catalog.personas.get? policy.personaGuid = some persona)
    (henabled : persona.enabled = true) (hupdates : ¬ Creates s policy) {draw : Nat}
    (hshort : ∀ q ∈ synthesize draw persona o.policy,
      (ResourceMap.canonicalBytes q.resources).length < 2 ^ 60) (hassets : o.policy.assets ≠ []) :
    s'.authority.GrantsExactly (Label.personaPolicy o.policy.guid) persona.roleName
        (synthesize draw persona o.policy) ↔
      ∀ q ∈ synthesize draw persona o.policy, ∀ p ∈ s'.authority.policies.values,
        p.target = q.target → p.ConfinedTo q persona.roleName := by
  have henforces := putPolicy_enforces hs hrun hcomplete hpersona henabled hshort hassets
  have hqs := synthesizeActions_areProvisional draw persona o.policy o.policy.actions
  exact henforces.grantsExactly_iff hqs.each
    (putPolicy_wanted hs hrun hcomplete hpersona henabled hupdates draw) (synthesize_pairwise hshort)

/-! ### The retry -/

/-- A request that updates a stored policy to itself, up to the qualified name, and is admitted. -/
structure Resumes (subjects : Subjects) (user : String) (persona : Persona)
    (p prior : PersonaPolicy) (s : System) : Prop where
  /-- The request is admitted. -/
  admitted : Admitted subjects user persona p s.catalog
  /-- The persona is stored. -/
  persona : s.catalog.personas.get? p.personaGuid = some persona
  /-- The request names a persona policy. -/
  guid : p.guid ≠ ""
  /-- The persona policy is stored. -/
  stored : s.catalog.policies.get? p.guid = some prior
  /-- It is what the request asks for. -/
  same : p = { prior with qualifiedName := p.qualifiedName }

/-- A request that is made again, under the identifier that was saved, updates what the first one has
saved. -/
theorem putPolicy_resumes (hs : s.Reachable)
    (hrun : runOn (putPolicy σ subjects user policy) s = (.ok o, s'))
    (hpersona : s.catalog.personas.get? policy.personaGuid = some persona) :
    Resumes subjects user persona { policy with guid := o.policy.guid } o.policy s'.repaired := by
  obtain ⟨hadmitted, s₁, hsaves, hcatalog, -⟩ := putPolicy_saves hs hrun hpersona
  have hsame : { policy with guid := o.policy.guid } =
      { o.policy with qualifiedName := policy.qualifiedName } :=
    congrArg (fun p : PersonaPolicy => { p with qualifiedName := policy.qualifiedName })
      hsaves.same.symm
  refine ⟨?_, ?_, hsaves.guid, ?_, hsame⟩
  · have hagain := hadmitted.again hs.keeps hsaves
    rw [← hcatalog] at hagain
    rw [hsame]
    -- The qualified name does not matter to admission.
    exact ⟨hagain.check, hagain.active, hagain.name, hagain.admin, hagain.assets⟩
  · show s'.catalog.personas.get? policy.personaGuid = some persona
    rw [hcatalog, hsaves.catalog]
    exact hpersona
  · show s'.catalog.policies.get? o.policy.guid = some o.policy
    rw [hcatalog, hsaves.catalog, NameMap.get?_insert, if_pos rfl]

/-- The policy is saved as it was, up to the qualified name. -/
theorem Resumes.store (h : Resumes subjects user persona p prior s) (hf : s.faults.OnlyWrites) :
    ∃ saved s₁, runOn (storePolicy persona p) s = (.ok saved, s₁) ∧ Saves p saved s s₁ ∧
      saved = { prior with qualifiedName := saved.qualifiedName } := by
  obtain ⟨saved, s₁, hstore⟩ := storePolicy_total hf persona p
  have hsaves := storePolicy_ok hstore
  refine ⟨saved, s₁, hstore, hsaves, ?_⟩
  calc saved = { p with guid := saved.guid, qualifiedName := saved.qualifiedName } := hsaves.same
    _ = { p with qualifiedName := saved.qualifiedName } := by rw [hsaves.kept h.guid]
    _ = { prior with qualifiedName := saved.qualifiedName } :=
      congrArg (fun p : PersonaPolicy => { p with qualifiedName := saved.qualifiedName }) h.same

/-- An update of a policy in use to itself goes through when no call fails: the policy is saved, and the
plan for it is carried out in full. -/
theorem Resumes.succeeds (h : Resumes subjects user persona p prior s) (hs : s.Reachable)
    (hfaultless : s.Faultless) (henabled : persona.enabled = true)
    (hactive : prior.isActive = true) :
    ∃ saved s₁ plan s₂ report s', Saves p saved s s₁ ∧
      saved = { prior with qualifiedName := saved.qualifiedName } ∧
      runOn (planUpdate σ persona prior saved) s₁ = (.ok plan, s₂) ∧
      runOn (putPolicy σ subjects user p) s = (.ok ⟨saved, report⟩, s') ∧
      report.isComplete = true ∧ plan.Realized s₁.authority s'.authority := by
  have hf := hfaultless.onlyWrites
  have hupdatable : ensureUpdatable p prior = .ok () := by
    rw [h.same]
    simp [ensureUpdatable, hactive]
  obtain ⟨saved, s₁, hstore, hsaves, hsaved⟩ := h.store hf
  have hf₁ : s₁.faults.OnlyWrites := by
    rw [hsaves.faults]
    exact hf
  obtain ⟨plan, drawn, hplan⟩ := planUpdate_total hf₁ σ persona prior saved
  -- The plan is carried out on the stores that it was made for.
  let s₂ : System := { s₁ with drawn }
  have hkept : s₁.authority.WellKept := hsaves.authority ▸ hs.wellKept
  obtain ⟨loaded, hplanned, -, -⟩ := planUpdate_planned hkept.toWellStored hplan
  have hfaultless₂ : s₂.Faultless :=
    ⟨hsaves.faults.trans hfaultless.faults, hsaves.authority ▸ hfaultless.failing⟩
  have htracks : plan.Tracks s₂.authority.policies := hplanned.toTracks
  have hcomplete := htracks.mirrors.execute_faultless hkept.numbered hfaultless₂ σ.deadlineMs
  have hexecute : runOn (Operation.execute σ.deadlineMs plan.mutations) s₂ =
      (.ok (s₂.execute σ.deadlineMs plan.mutations).1, (s₂.execute σ.deadlineMs plan.mutations).2) :=
    rfl
  obtain ⟨hrealized, -⟩ := htracks.execute_realized hkept.numbered hexecute hcomplete
  have hplan' : runOn (planPolicy σ persona (some prior) saved) s₁ = (.ok plan, s₂) := by
    rw [planPolicy, if_pos henabled]
    exact hplan
  exact ⟨saved, s₁, plan, s₂, _, _, hsaves, hsaved, hplan,
    runOn_putPolicy_update hf h.admitted h.persona h.guid h.stored hupdatable hstore hplan',
    hcomplete, hrealized⟩

/-- What an update of a policy in use to itself ends with is just what is asked for, if policies with a
wanted target have been confined to their provisional policies. -/
theorem Resumes.run (h : Resumes subjects user persona p prior s) (hs : s.Reachable)
    (hfaultless : s.Faultless) (henabled : persona.enabled = true)
    (hactive : prior.isActive = true) {draw : Nat}
    (hshort : ∀ q ∈ synthesize draw persona prior,
      (ResourceMap.canonicalBytes q.resources).length < 2 ^ 60) :
    ∃ o s', runOn (putPolicy σ subjects user p) s = (.ok o, s') ∧ o.report.isComplete = true ∧
      o.policy = { prior with qualifiedName := o.policy.qualifiedName } ∧
      (s'.authority.GrantsExactly (Label.personaPolicy prior.guid) persona.roleName
          (synthesize draw persona prior) ↔
        ∀ q ∈ synthesize draw persona prior, ∀ p ∈ s.authority.policies.values,
          p.target = q.target → p.ConfinedTo q persona.roleName) := by
  obtain ⟨saved, s₁, plan, s₂, report, s', hsaves, hsaved, hplan, hrun, hcomplete, hrealized⟩ :=
    h.succeeds (σ := σ) hs hfaultless henabled hactive
  refine ⟨⟨saved, report⟩, s', hrun, hcomplete, hsaved, ?_⟩
  -- The qualified name matters neither to synthesis nor to what has to be recreated.
  have hqs : synthesize draw persona saved = synthesize draw persona prior := by
    rw [hsaved]
    rfl
  have hguid : saved.guid = prior.guid := by rw [hsaved]
  have hrecreate : mustRecreate saved prior = false := by
    rw [hsaved]
    exact mustRecreate_self prior
  have hassets : saved.assets ≠ [] := by
    rw [hsaves.same]
    exact assets_ne_nil_of_check h.admitted.check
  have hupdates : ¬ Creates s p := by
    rintro (hempty | hnone)
    · exact h.guid (String.isEmpty_iff.1 hempty)
    · exact Option.some_ne_none prior (h.stored.symm.trans hnone)
  rw [← hqs] at hshort ⊢
  rw [← hguid, putPolicy_grantsExactly_iff hs hrun hcomplete h.persona henabled hupdates hshort
    hassets, ← hsaves.authority]
  have henforces := putPolicy_enforces hs hrun hcomplete h.persona henabled hshort hassets
  have hfurnished := hs.keeps.furnished
  have hkept := hs.wellKept
  rw [← hsaves.authority] at hfurnished hkept
  have hconfined : ∀ q ∈ synthesize draw persona saved, ∀ p ∈ s'.authority.policies.values,
      p.target = q.target → (p.ConfinedTo q persona.roleName ↔
        ∀ p ∈ s₁.authority.policies.values, p.target = q.target →
          p.ConfinedTo q persona.roleName) :=
    fun q hq p hp htarget => planUpdate_confinedTo_iff hkept hfurnished hassets hrecreate hplan
      hrealized hshort hq hp htarget
  constructor
  · intro hall q hq
    obtain ⟨p', hp', hcarries⟩ := henforces.carried q hq
    have hvalues := (List.mem_filter.1 hp').1
    exact (hconfined q hq p' hvalues hcarries.target).1 (hall q hq p' hvalues hcarries.target)
  · intro hall q hq p' hp' htarget
    exact (hconfined q hq p' hp' htarget).2 (hall q hq)

/-- A request on a policy of a persona in use has saved the policy, whether or not its writes have gone
through, and is made once more when no call fails. If the policy is in use, the second request goes
through, and just what the policy asks for is granted then, unless a policy with a wanted target has
named the role where nothing is asked for. If the policy is not in use, the second request is refused,
and changes nothing. -/
theorem putPolicy_retry (hs : s.Reachable)
    (hrun : runOn (putPolicy σ subjects user policy) s = (.ok o, s'))
    (hpersona : s.catalog.personas.get? policy.personaGuid = some persona)
    (henabled : persona.enabled = true) {draw : Nat}
    (hshort : ∀ q ∈ synthesize draw persona o.policy,
      (ResourceMap.canonicalBytes q.resources).length < 2 ^ 60) :
    (o.policy.isActive = true → ∃ o₂ s₂,
      runOn (putPolicy σ subjects user { policy with guid := o.policy.guid }) s'.repaired =
        (.ok o₂, s₂) ∧ o₂.report.isComplete = true ∧
      o₂.policy = { o.policy with qualifiedName := o₂.policy.qualifiedName } ∧
      (s₂.authority.GrantsExactly (Label.personaPolicy o.policy.guid) persona.roleName
          (synthesize draw persona o.policy) ↔
        ∀ q ∈ synthesize draw persona o.policy, ∀ p ∈ s'.authority.policies.values,
          p.target = q.target → p.ConfinedTo q persona.roleName)) ∧
    (o.policy.isActive = false →
      runOn (putPolicy σ subjects user { policy with guid := o.policy.guid }) s'.repaired =
        (.error (.validation ("persona policy " ++ o.policy.guid ++ " is not active")),
          s'.repaired)) := by
  have hresumes := putPolicy_resumes hs hrun hpersona
  have hreached : s'.repaired.Reachable := (hs.putPolicy hrun).faults {} ∅
  constructor
  · intro hactive
    exact hresumes.run hreached ⟨rfl, rfl⟩ henabled hactive hshort
  · intro hinactive
    refine runOn_putPolicy_refused (fun _ _ _ => rfl) hresumes.admitted hresumes.persona
      hresumes.guid hresumes.stored ?_
    rw [hresumes.same]
    simp [ensureUpdatable, hinactive]

/-- The system after a persona and a policy for it have been created, when calls of one sort fail from
then on. -/
def hampered (call : String) : System :=
  let s := Request.run {} {} (.createPersona { guid := "stewards", name := "stewards" })
  let s := Request.run {} s (.putPolicy {} "" (termsPolicy "finance"))
  { s with faults := { failing := NameSet.ofList [call] }
           authority := { s.authority with failing := ∅ } }

theorem hampered_reachable (call : String) : (hampered call).Reachable :=
  ((System.Reachable.empty.request _ _).request _ _).faults _ _

/-- An update whose deletion failed is made once more. -/
theorem putPolicy_retry_after_deletion :
    ∃ s' persona o o₂ s₂,
      runOn (putPolicy {} {} "" (termsPolicy "risk")) (hampered "delete_policy") = (.ok o, s') ∧
      o.report.isComplete = false ∧
      runOn (putPolicy {} {} "" { termsPolicy "risk" with guid := o.policy.guid }) s'.repaired =
        (.ok o₂, s₂) ∧ o₂.report.isComplete = true ∧
      (s₂.authority.GrantsExactly (Label.personaPolicy o.policy.guid) persona.roleName
          (synthesize 0 persona o.policy) ↔
        ∀ q ∈ synthesize 0 persona o.policy, ∀ p ∈ s'.authority.policies.values,
          p.target = q.target → p.ConfinedTo q persona.roleName) := by
  have htest : ((hampered "delete_policy").catalog.personas.get? "stewards").any (fun persona =>
      persona.enabled && (putPolicy {} {} "" (termsPolicy "risk")).passes (hampered "delete_policy")
        fun o _ => !o.report.isComplete && o.policy.isActive &&
          (synthesize 0 persona o.policy).all fun q =>
            decide ((ResourceMap.canonicalBytes q.resources).length < 2 ^ 60)) = true := by
    decide +kernel
  obtain ⟨persona, hpersona, htest⟩ := (Option.any_eq_true _ _).1 htest
  rw [Bool.and_eq_true] at htest
  obtain ⟨henabled, htest⟩ := htest
  obtain ⟨o, s', hrun, htest⟩ := Operation.exists_of_passes htest
  simp only [Bool.and_eq_true, Bool.not_eq_true', List.all_eq_true, decide_eq_true_eq] at htest
  obtain ⟨⟨hincomplete, hactive⟩, hshort⟩ := htest
  obtain ⟨o₂, s₂, hrun₂, hcomplete, -, hexactly⟩ :=
    (putPolicy_retry (hampered_reachable _) hrun hpersona henabled hshort).1 hactive
  exact ⟨s', persona, o, o₂, s₂, hrun, hincomplete, hrun₂, hcomplete, hexactly⟩

/-- After an update from granting to denying whose write failed, the same request ends with a policy that
still grants. -/
theorem grant_left_by_retry :
    ∃ s s' persona o o₂ s₂, s.Reachable ∧
      s.catalog.personas.get? (termsPolicy "finance").personaGuid = some persona ∧
      persona.enabled = true ∧
      runOn (putPolicy {} {} "" { termsPolicy "finance" with allow := false }) s = (.ok o, s') ∧
      o.policy.isActive = true ∧
      runOn (putPolicy {} {} "" { termsPolicy "finance" with allow := false, guid := o.policy.guid })
        s'.repaired = (.ok o₂, s₂) ∧ o₂.report.isComplete = true ∧
      ¬ s₂.authority.GrantsExactly (Label.personaPolicy o.policy.guid) persona.roleName
        (synthesize 0 persona o.policy) := by
  let s := hampered "update_policy"
  have htest : (s.catalog.personas.get? "stewards").any (fun persona => persona.enabled &&
      (putPolicy {} {} "" { termsPolicy "finance" with allow := false }).passes s fun o s' =>
        o.policy.isActive &&
        (putPolicy {} {} "" { termsPolicy "finance" with allow := false, guid := o.policy.guid }).passes
          s'.repaired fun o₂ s₂ => o₂.report.isComplete &&
            !decide (s₂.authority.GrantsExactly (Label.personaPolicy o.policy.guid) persona.roleName
              (synthesize 0 persona o.policy))) = true := by
    decide +kernel
  obtain ⟨persona, hpersona, htest⟩ := (Option.any_eq_true _ _).1 htest
  rw [Bool.and_eq_true] at htest
  obtain ⟨henabled, htest⟩ := htest
  obtain ⟨o, s', hrun, htest⟩ := Operation.exists_of_passes htest
  rw [Bool.and_eq_true] at htest
  obtain ⟨hactive, htest⟩ := htest
  obtain ⟨o₂, s₂, hrun₂, htest⟩ := Operation.exists_of_passes htest
  simp only [Bool.and_eq_true, Bool.not_eq_true', decide_eq_false_iff_not] at htest
  exact ⟨s, s', persona, o, o₂, s₂, hampered_reachable _, hpersona, henabled, hrun, hactive, hrun₂,
    htest.1, htest.2⟩

end PersonaService

end CatalogAccess
