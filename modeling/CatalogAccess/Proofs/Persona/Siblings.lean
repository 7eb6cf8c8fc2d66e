import CatalogAccess.Proofs.Persona.Idempotence
import CatalogAccess.Proofs.Targets

/-!
# Policies of one persona

The persona policies of a persona share its role, so that a policy that is stripped for one of them
loses the items of all. `PersonaService.sibling_upheld_iff` says when a persona policy in use is still
in place after a request on another one has been carried out in full. No two persona policies in use
ask for the same target (`PersonaService.siblings_apart`), so that a creation takes nothing away. An
update and a deletion strip whatever has the label of their persona policy, and among it may be a
policy that an earlier request failed to strip and that another persona policy has taken up since
(`Authority.Entangles`).
-/

namespace CatalogAccess

open Operation (runOn)

namespace Policy

variable {p q : Policy} {role : String}

/-- The policy has the target and the labels of a provisional policy for the role, and each item of the
provisional policy has a counterpart for the role in the same list. -/
structure Upholds (p q : Policy) (role : String) : Prop where
  /-- The targets are the same. -/
  target : p.target = q.target
  /-- The labels of the provisional policy are there. -/
  labels : ∀ l ∈ q.labels, l ∈ p.labels
  /-- The grants have counterparts. -/
  allow : ∀ i ∈ q.allowItems,
    ∃ j ∈ p.allowItems, j.hasRole role = true ∧ j.accesses = i.accesses
  /-- The denials have counterparts. -/
  deny : ∀ i ∈ q.denyItems, ∃ j ∈ p.denyItems, j.hasRole role = true ∧ j.accesses = i.accesses
  /-- The masks have counterparts. -/
  mask : ∀ m ∈ q.maskItems, ∃ n ∈ p.maskItems, n.item.hasRole role = true ∧
    n.item.accesses = m.item.accesses ∧ n.maskType = m.maskType

/-- A tidy policy upholds what it carries. -/
theorem Tidy.upholds_iff (h : p.Tidy) : p.Upholds q role ↔ p.Carries q role := by
  constructor
  · intro hu
    exact ⟨⟨fun i hi => h.allow.namedOnce_iff.2 (hu.allow i hi),
      fun i hi => h.deny.namedOnce_iff.2 (hu.deny i hi),
      fun m hm => h.mask.namedOnce_iff.2 (hu.mask m hm)⟩, hu.target, hu.labels⟩
  · intro hc
    exact ⟨hc.target, hc.labels, fun i hi => h.allow.namedOnce_iff.1 (hc.allow i hi),
      fun i hi => h.deny.namedOnce_iff.1 (hc.deny i hi),
      fun m hm => h.mask.namedOnce_iff.1 (hc.mask m hm)⟩

/-- What upholds a provisional policy names its role. -/
theorem Upholds.itemsNaming_ne (h : p.Upholds q role) (hq : q.IsProvisional role) :
    p.itemsNaming role ≠ ∅ := by
  intro hempty
  cases hq with
  | allow accesses hk ha hd hm =>
    obtain ⟨j, hj, hrole, -⟩ := h.allow (.forRole accesses role) (by simp [ha])
    exact List.filter_eq_nil_iff.1 (congrArg RoleItems.allow hempty) j hj hrole
  | deny accesses hk ha hd hm =>
    obtain ⟨j, hj, hrole, -⟩ := h.deny (.forRole accesses role) (by simp [hd])
    exact List.filter_eq_nil_iff.1 (congrArg RoleItems.deny hempty) j hj hrole
  | mask accesses maskType hk ha hd hm =>
    obtain ⟨n, hn, hrole, -⟩ := h.mask ⟨.forRole accesses role, maskType⟩ (by simp [hm])
    exact List.filter_eq_nil_iff.1 (congrArg RoleItems.mask hempty) n hn hrole

end Policy

/-- Every one of the provisional policies is upheld by a stored policy. -/
def Authority.Upholds (a : Authority) (role : String) (qs : List Policy) : Prop :=
  ∀ q ∈ qs, ∃ p ∈ a.policies.values, p.Upholds q role

/-- A policy with the label has the target of one of the provisional policies. -/
def Authority.Entangles (a : Authority) (label : String) (qs : List Policy) : Prop :=
  ∃ p ∈ a.withLabel label, p.IsWanted qs

/-! ### Carrying out a plan -/

namespace Plan

variable {plan : Plan} {a a' : Authority} {role : String} {qs : List Policy}
  {placed stripped : Policy → Prop} {shed : String → Prop}

/-- A provisional policy that is upheld and whose target no placed policy has is upheld no more, once
the plan is carried out, when the policy that upholds it has been stripped, and only then. -/
theorem Built.upholds_iff (h : plan.Built a.policies role placed stripped shed) (ha : a.WellKept)
    (hplaced : ∀ q, placed q → q.IsPlaceable role) (hrealized : plan.Realized a a') {q : Policy}
    (hq : q.IsProvisional role) (hfree : ∀ q', placed q' → q'.target ≠ q.target)
    (hunique : ∀ id id' p p', a.policies.get? id = some p → a.policies.get? id' = some p' →
      p.target = q.target → p'.target = q.target → id = id') {id : String} {p : Policy}
    (hp : a.policies.get? id = some p) (hupholds : p.Upholds q role) :
    (∃ p' ∈ a'.policies.values, p'.Upholds q role) ↔
      ∀ dropped, plan.tracked.get? id ≠ some (.leftover (p.stripped role dropped)) := by
  have htracks := h.tracks ha.toWellStored hplaced
  constructor
  · rintro ⟨p', hp', hupholds'⟩ dropped ht
    obtain ⟨id', hp'⟩ := NameMap.mem_values_iff.1 hp'
    rcases hrealized.cases hp' with ⟨t, ht', hsettled⟩ | ⟨hnone, hbefore⟩ | ⟨c, hc, rfl⟩
    · -- It can only be what is left of the policy, which does not name the role.
      obtain ⟨old, hold, htarget, -⟩ := htracks.origin id' t ht'
      obtain rfl := Tracked.policy_of_settled hsettled
      obtain rfl := hunique id' id old p hold hp (htarget.symm.trans hupholds'.target)
        hupholds.target
      obtain rfl := Option.some.inj (ht'.symm.trans ht)
      exact hupholds'.itemsNaming_ne hq
        (Policy.itemsNaming_stripped (ha.tidy id' p hp) role dropped)
    · obtain rfl := hunique id' id p' p hbefore hp hupholds'.target hupholds.target
      exact Option.some_ne_none _ (ht.symm.trans hnone)
    · obtain ⟨q', hq', htarget⟩ := (h.minds ha.toWellStored hplaced).target hc
      exact hfree q' hq' (htarget.symm.trans hupholds'.target)
  · intro hkept
    refine ⟨p, NameMap.mem_values_iff.2 ⟨id, ?_⟩, hupholds⟩
    cases ht : plan.tracked.get? id with
    | none => exact hrealized.keeps ha.numbered ht hp
    | some t =>
      rcases h.outcome ha.toWellStored hplaced ht hp with rfl | ⟨q', hq', htarget⟩ |
        ⟨-, dropped, rfl⟩
      · exact hrealized.tracked id _ ht
      · exact absurd (htarget.symm.trans hupholds.target) (hfree q' hq')
      · exact absurd ht (hkept dropped)

/-- Provisional policies that are upheld are so once the plan is carried out, if none of the policies
with their targets has been stripped. -/
theorem Built.upholds_all_iff (h : plan.Built a.policies role placed stripped shed) (ha : a.WellKept)
    (hplaced : ∀ q, placed q → q.IsPlaceable role) (hrealized : plan.Realized a a')
    (hqs : ∀ q ∈ qs, q.IsProvisional role)
    (hfree : ∀ q ∈ qs, ∀ q', placed q' → q'.target ≠ q.target)
    (hunique : ∀ q ∈ qs, ∀ id id' p p', a.policies.get? id = some p →
      a.policies.get? id' = some p' → p.target = q.target → p'.target = q.target → id = id')
    (hupheld : a.Upholds role qs)
    (hstripped : ∀ id p, a.policies.get? id = some p → p.IsWanted qs → stripped p →
      ∃ dropped, plan.tracked.get? id = some (.leftover (p.stripped role dropped))) :
    a'.Upholds role qs ↔ ∀ p ∈ a.policies.values, p.IsWanted qs → ¬ stripped p := by
  have heach : ∀ q ∈ qs, ∀ id p, a.policies.get? id = some p → p.Upholds q role →
      ((∃ p' ∈ a'.policies.values, p'.Upholds q role) ↔ ¬ stripped p) := by
    intro q hq id p hp hupholds
    rw [h.upholds_iff ha hplaced hrealized (hqs q hq) (hfree q hq) (hunique q hq) hp hupholds,
      ← not_exists]
    refine not_congr ⟨?_, hstripped id p hp ⟨q, hq, hupholds.target⟩⟩
    rintro ⟨dropped, ht⟩
    exact h.stripped_of_leftover ha.toWellStored hplaced ht hp
      fun q' hq' => hupholds.target ▸ hfree q hq q' hq'
  constructor
  · rintro hafter p hp ⟨q, hq, htarget⟩
    obtain ⟨id, hp⟩ := NameMap.mem_values_iff.1 hp
    -- The policy is the one that upholds the provisional policy.
    obtain ⟨p₀, hp₀, hupholds⟩ := hupheld q hq
    obtain ⟨id₀, hp₀⟩ := NameMap.mem_values_iff.1 hp₀
    obtain rfl := hunique q hq id id₀ p p₀ hp hp₀ htarget hupholds.target
    obtain rfl := Option.some.inj (hp.symm.trans hp₀)
    exact (heach q hq id p hp hupholds).1 (hafter q hq)
  · intro hfine q hq
    obtain ⟨p, hp, hupholds⟩ := hupheld q hq
    obtain ⟨id, hget⟩ := NameMap.mem_values_iff.1 hp
    exact (heach q hq id p hget hupholds).2 (hfine p hp ⟨q, hq, hupholds.target⟩)

end Plan

namespace PersonaService

variable {σ : ServiceSettings} {subjects : Subjects} {user : String}
  {policy sibling : PersonaPolicy} {persona : Persona} {o : PolicyOutcome} {s s' : System}

/-! ### Targets of siblings -/

/-- The provisional policies of a persona policy that is saved have other targets than those of another
policy of the persona in use. -/
theorem siblings_apart (hs : s.WellKept)
    (hadmitted : Admitted subjects user persona policy s.catalog) {saved : PersonaPolicy}
    (hsaves : Saves policy saved s s') (hsibling : sibling ∈ s.catalog.policiesOf persona.guid)
    (hactive : sibling.isActive = true) (hguid : sibling.guid ≠ saved.guid) {draw draw' : Nat}
    {q q' : Policy} (hq : q ∈ synthesize draw persona sibling)
    (hshort : (ResourceMap.canonicalBytes q.resources).length < 2 ^ 60)
    (hq' : q' ∈ synthesize draw' persona saved) : q'.target ≠ q.target := by
  intro htarget
  obtain ⟨k, hk⟩ := NameMap.mem_values_iff.1 (List.mem_filter.1 hsibling).1
  have hshort' : (ResourceMap.canonicalBytes q'.resources).length < 2 ^ 60 := by
    rw [Policy.canonicalBytes_eq_of_target htarget]
    exact hshort
  have hduplicates := duplicates_of_target_eq hq' hq hshort' htarget hguid hactive
  rw [hsaves.duplicates hguid (hsaves.guid_ne hs hk hguid),
    ensureUniqueAssets_iff.1 hadmitted.assets sibling hsibling] at hduplicates
  exact Bool.false_ne_true hduplicates

/-- The plan for a persona policy comes about by placing its provisional policies, and by stripping
policies with its label if it is an update. -/
theorem planPolicy_built {prior : Option PersonaPolicy} {saved : PersonaPolicy} {plan : Plan}
    (hs : Policy.WellStored s.authority.policies) (henabled : persona.enabled = true)
    (hrun : runOn (planPolicy σ persona prior saved) s = (.ok plan, s')) :
    plan.Built s.authority.policies persona.roleName (· ∈ synthesize s.drawn persona saved)
      (fun p => prior ≠ none ∧ p ∈ s.authority.withLabel (Label.personaPolicy saved.guid))
      (· ∈ saved.droppedLabels persona) := by
  have hqs := synthesizeActions_areProvisional s.drawn persona saved saved.actions
  unfold planPolicy at hrun
  rw [if_pos henabled] at hrun
  cases prior with
  | none => exact planCreate_built hs hqs.placeable .empty (fun _ hq => hq) hrun
  | some prior =>
    exact (planUpdate_built hs hrun).mono (fun _ hq => hq)
      (fun p hp => ⟨Option.some_ne_none prior, hp.1⟩) fun _ hl => hl

/-! ### Requests -/

/-- What is in place of another persona policy in use stays so when a policy of the persona is created.
When one is updated, it does unless policies with the label of that one are part of it. -/
theorem putPolicy_upholds_iff (hs : s.Reachable)
    (hrun : runOn (putPolicy σ subjects user policy) s = (.ok o, s'))
    (hcomplete : o.report.isComplete = true)
    (hpersona : s.catalog.personas.get? policy.personaGuid = some persona)
    (henabled : persona.enabled = true) (hsibling : sibling ∈ s.catalog.policiesOf persona.guid)
    (hactive : sibling.isActive = true) (hguid : sibling.guid ≠ o.policy.guid) {draw : Nat}
    (hshort : ∀ q ∈ synthesize draw persona sibling,
      (ResourceMap.canonicalBytes q.resources).length < 2 ^ 60)
    (hupheld : s.authority.Upholds persona.roleName (synthesize draw persona sibling)) :
    s'.authority.Upholds persona.roleName (synthesize draw persona sibling) ↔
      Creates s policy ∨ ¬ s.authority.Entangles (Label.personaPolicy o.policy.guid)
        (synthesize draw persona sibling) := by
  obtain ⟨prior, plan, s₁, s₂, hadmitted, ⟨hcreates, -⟩, hsaves, hplan, hrealized⟩ :=
    putPolicy_realizes hs hrun hcomplete hpersona henabled
  obtain ⟨k, hk⟩ := NameMap.mem_values_iff.1 (List.mem_filter.1 hsibling).1
  have hkept := hs.wellKept
  have hapart : ∀ q ∈ synthesize draw persona sibling,
      ∀ q' ∈ synthesize s₁.drawn persona o.policy, q'.target ≠ q.target :=
    fun q hq q' hq' => siblings_apart hs.keeps hadmitted hsaves hsibling hactive hguid hq
      (hshort q hq) hq'
  -- Planning reads the authority as it was before the request.
  rw [← hsaves.authority] at hkept hupheld ⊢
  have hbuilt := planPolicy_built hkept.toWellStored henabled hplan
  obtain ⟨loaded, hplanned, -, hupdate, -⟩ :=
    planPolicy_planned hkept.toWellStored henabled hplan
  have hqs : Policy.AreProvisional persona.roleName (synthesize draw persona sibling) :=
    synthesizeActions_areProvisional draw persona sibling sibling.actions
  have hplaceable := (synthesizeActions_areProvisional s₁.drawn persona o.policy
    o.policy.actions).placeable
  rw [hbuilt.upholds_all_iff hkept hplaceable hrealized hqs.each hapart
    (hkept.toWellStored.unique_synthesize (hs.keeps.assets k sibling hk) hshort) hupheld
    fun id p hp ⟨q, hq, hwanted⟩ ⟨hupdates, hlabelled⟩ => ?_]
  · have hprior : prior ≠ none ↔ ¬ Creates s policy := not_congr hcreates
    simp only [hprior, Authority.Entangles, not_exists, not_and]
    constructor
    · intro h
      refine Classical.or_iff_not_imp_left.2 fun hupdates p hp hwanted => ?_
      exact h p (List.mem_filter.1 hp).1 hwanted hupdates hp
    · intro h p _ hwanted hupdates hlabelled
      exact h.resolve_left hupdates p hlabelled hwanted
  · -- Policies with a target of the other persona policy are stripped if the update looks for them.
    obtain ⟨-, hlabel⟩ := Authority.mem_withLabel.1 hlabelled
    obtain ⟨t, ht⟩ := hupdate hupdates id p hp hlabel
    rcases hbuilt.outcome hkept.toWellStored hplaceable ht hp with rfl | ⟨q', hq', htarget⟩ |
      ⟨-, dropped, rfl⟩
    · rcases hplanned.tracked id _ ht with ⟨q', hq', htarget⟩ | ⟨-, hnone⟩
      · exact absurd (htarget.symm.trans hwanted) (hapart q hq q' hq')
      · exact (hnone hlabel).elim
    · exact absurd (htarget.symm.trans hwanted) (hapart q hq q' hq')
    · exact ⟨dropped, ht⟩

/-- A persona policy that has been deleted was stored, and so was its persona. -/
theorem deletePolicy_stored {guid : String} {report : Report}
    (hrun : runOn (deletePolicy σ guid) s = (.ok report, s')) :
    ∃ policy persona, s.catalog.policies.get? guid = some policy ∧
      s.catalog.personas.get? policy.personaGuid = some persona := by
  unfold deletePolicy at hrun
  simp only [Operation.runOn_bind_ok, Operation.runOn_read, Prod.mk.injEq] at hrun
  obtain ⟨stored, _, ⟨hread, rfl⟩, hrun⟩ := hrun
  unfold System.personaPolicy? at hread
  rw [Except.bind_eq_ok_iff] at hread
  obtain ⟨-, -, hget⟩ := hread
  cases stored with
  | none => exact absurd hrun (by simp)
  | some policy =>
    simp only [Operation.runOn_bind_ok] at hrun
    obtain ⟨persona, _, hfound, -⟩ := hrun
    exact ⟨policy, persona, Except.ok.inj hget, (requirePersona_ok hfound).1⟩

/-- How the deletion of a persona policy is planned and carried out. -/
theorem deletePolicy_ok {guid : String} {report : Report}
    (hrun : runOn (deletePolicy σ guid) s = (.ok report, s'))
    (hpolicy : s.catalog.policies.get? guid = some policy)
    (hpersona : s.catalog.personas.get? policy.personaGuid = some persona) :
    ∃ s₁, runOn (Operation.execute σ.deadlineMs
        (Plan.stripAll {} (s.authority.withLabel (Label.personaPolicy policy.guid))
          persona.roleName (policy.droppedLabels persona)).mutations) s = (.ok report, s₁) ∧
      s'.authority = s₁.authority ∧ s'.catalog = s₁.catalog.deletePolicy guid := by
  unfold deletePolicy at hrun
  simp only [Operation.runOn_bind_ok, Operation.runOn_read, Prod.mk.injEq] at hrun
  obtain ⟨stored, _, ⟨hread, rfl⟩, hrun⟩ := hrun
  unfold System.personaPolicy? at hread
  rw [Except.bind_eq_ok_iff] at hread
  obtain ⟨-, -, hget⟩ := hread
  obtain rfl : some policy = stored := hpolicy.symm.trans (Except.ok.inj hget)
  simp only [Operation.runOn_bind_ok] at hrun
  obtain ⟨found, s₀, hfound, plan, s₁, hplan, report', s₂, hexecute, _, s₃, hdelete, hreturn⟩ := hrun
  obtain ⟨hstored, rfl⟩ := requirePersona_ok hfound
  obtain rfl : persona = found := Option.some.inj (hpersona.symm.trans hstored)
  unfold planStrip at hplan
  simp only [Operation.runOn_bind_ok, Operation.runOn_read, Operation.runOn_pure, Prod.mk.injEq,
    Except.ok.injEq] at hplan
  obtain ⟨labelled, _, ⟨hlabelled, rfl⟩, rfl, rfl⟩ := hplan
  obtain rfl := System.policiesWithLabel_eq hlabelled
  simp only [Operation.runOn_pure, Prod.mk.injEq, Except.ok.injEq] at hreturn
  obtain ⟨rfl, rfl⟩ := hreturn
  refine ⟨s₂, hexecute, ?_⟩
  unfold Operation.deletePersonaPolicy at hdelete
  rw [Operation.runOn_write_ok, Except.bind_eq_ok_iff] at hdelete
  obtain ⟨-, -, hdelete⟩ := hdelete
  obtain ⟨-, rfl⟩ := Prod.mk.inj (Except.ok.inj hdelete)
  exact ⟨rfl, rfl⟩

/-- What is in place of another persona policy stays so when a policy of the persona is deleted, unless
policies with the label of that one are part of it. -/
theorem deletePolicy_upholds_iff (hs : s.Reachable) {guid : String} {report : Report}
    (hrun : runOn (deletePolicy σ guid) s = (.ok report, s'))
    (hcomplete : report.isComplete = true)
    (hpolicy : s.catalog.policies.get? guid = some policy)
    (hpersona : s.catalog.personas.get? policy.personaGuid = some persona)
    (hsibling : sibling ∈ s.catalog.policiesOf persona.guid) {draw : Nat}
    (hshort : ∀ q ∈ synthesize draw persona sibling,
      (ResourceMap.canonicalBytes q.resources).length < 2 ^ 60)
    (hupheld : s.authority.Upholds persona.roleName (synthesize draw persona sibling)) :
    s'.authority.Upholds persona.roleName (synthesize draw persona sibling) ↔
      ¬ s.authority.Entangles (Label.personaPolicy policy.guid)
        (synthesize draw persona sibling) := by
  obtain ⟨s₁, hexecute, hauthority, -⟩ := deletePolicy_ok hrun hpolicy hpersona
  obtain ⟨k, hk⟩ := NameMap.mem_values_iff.1 (List.mem_filter.1 hsibling).1
  have hkept := hs.wellKept
  let labelled := s.authority.withLabel (Label.personaPolicy policy.guid)
  have hlabelled : ∀ p ∈ labelled, (∃ id, s.authority.policies.get? id = some p) ∧
      Label.personaPolicy policy.guid ∈ p.labels := fun _ => Authority.mem_withLabel.1
  have hlabel : Label.personaPolicy policy.guid ∈ policy.droppedLabels persona := List.mem_cons_self
  have hstrips := Plan.stripAll_withLabel hkept.toWellStored persona.roleName hlabel
  have hbuilt := Plan.stripAll_built hkept.toWellStored persona.roleName hlabel
  have hrealized := (Plan.Tracks.execute_realized
    (hbuilt.tracks hkept.toWellStored fun _ h => h.elim) hkept.numbered hexecute hcomplete).1
  have hqs : Policy.AreProvisional persona.roleName (synthesize draw persona sibling) :=
    synthesizeActions_areProvisional draw persona sibling sibling.actions
  rw [hauthority, hbuilt.upholds_all_iff hkept (fun _ h => h.elim) hrealized hqs.each
    (fun _ _ _ h => h.elim)
    (hkept.toWellStored.unique_synthesize (hs.keeps.assets k sibling hk) hshort) hupheld
    fun id p hp _ hmem => ?_]
  · constructor
    · rintro h ⟨p, hp, hwanted⟩
      exact h p (NameMap.mem_values_iff.2 (hlabelled p hp).1) hwanted hp
    · exact fun h p _ hwanted hp => h ⟨p, hp, hwanted⟩
  · obtain ⟨p', hp', hid, ht⟩ := hstrips.stripped p hmem id (hkept.id id p hp)
    obtain ⟨⟨id', hget⟩, -⟩ := hlabelled p' hp'
    obtain rfl : id' = id := Option.some.inj ((hkept.id id' p' hget).symm.trans hid)
    obtain rfl : p = p' := Option.some.inj (hp.symm.trans hget)
    exact ⟨_, ht⟩

/-- A persona policy in use whose provisional policies are all upheld, and a request on another policy of
the persona that is carried out in full. After a creation they are all upheld. After an update or a
deletion they are if and only if no policy with the label of the other persona policy had the target
of one of them. -/
theorem sibling_upheld_iff (hs : s.Reachable) (henabled : persona.enabled = true)
    (hsibling : sibling ∈ s.catalog.policiesOf persona.guid) (hactive : sibling.isActive = true)
    {draw : Nat} (hshort : ∀ q ∈ synthesize draw persona sibling,
      (ResourceMap.canonicalBytes q.resources).length < 2 ^ 60)
    (hupheld : s.authority.Upholds persona.roleName (synthesize draw persona sibling)) :
    (∀ (subjects : Subjects) (user : String) (policy : PersonaPolicy) (o : PolicyOutcome)
        (s' : System), runOn (putPolicy σ subjects user policy) s = (.ok o, s') →
      o.report.isComplete = true →
      s.catalog.personas.get? policy.personaGuid = some persona →
      sibling.guid ≠ o.policy.guid →
      (s'.authority.Upholds persona.roleName (synthesize draw persona sibling) ↔
        Creates s policy ∨ ¬ s.authority.Entangles (Label.personaPolicy o.policy.guid)
          (synthesize draw persona sibling))) ∧
    ∀ (guid : String) (policy : PersonaPolicy) (report : Report) (s' : System),
      runOn (deletePolicy σ guid) s = (.ok report, s') → report.isComplete = true →
      s.catalog.policies.get? guid = some policy →
      s.catalog.personas.get? policy.personaGuid = some persona →
      (s'.authority.Upholds persona.roleName (synthesize draw persona sibling) ↔
        ¬ s.authority.Entangles (Label.personaPolicy policy.guid)
          (synthesize draw persona sibling)) := by
  constructor
  · intro subjects user policy o s' hrun hcomplete hpersona hguid
    exact putPolicy_upholds_iff hs hrun hcomplete hpersona henabled hsibling hactive hguid hshort
      hupheld
  · intro guid policy report s' hrun hcomplete hpolicy hpersona
    exact deletePolicy_upholds_iff hs hrun hcomplete hpolicy hpersona hsibling hshort hupheld

/-! ### A policy that is taken up -/

/-- Provisional policies are upheld where nothing is left to merge. -/
theorem upholds_of_merged (hs : s.Reachable) {draw : Nat}
    (h : ∀ q ∈ synthesize draw persona sibling, (s.authority.policies.values.any fun p =>
      p.sameTarget q && (p.mergeRoleItem q persona.roleName).isNone) = true) :
    s.authority.Upholds persona.roleName (synthesize draw persona sibling) := by
  intro q hq
  obtain ⟨p, hp, htest⟩ := List.any_eq_true.1 (h q hq)
  rw [Bool.and_eq_true, Option.isNone_iff_eq_none] at htest
  obtain ⟨id, hget⟩ := NameMap.mem_values_iff.1 hp
  have htidy := hs.wellKept.tidy id p hget
  have hqs := synthesizeActions_areProvisional draw persona sibling sibling.actions
  exact ⟨p, hp, htidy.upholds_iff.2 (Policy.carries_of_mergeRoleItem htidy (hqs.each q hq)
    (Policy.sameTarget_iff.1 htest.1) htest.2)⟩

/-- A persona policy on the assets that the policy `terms` is about at first. -/
def ledgerPolicy : PersonaPolicy := { termsPolicy "finance" with guid := "ledger", name := "ledger" }

/-- The system after another persona policy has taken up the policy that an update failed to delete. -/
def takenUp : System :=
  Request.run {} (interrupted (.putPolicy {} "" (termsPolicy "risk")))
    (.putPolicy {} "" ledgerPolicy)

theorem takenUp_reachable : takenUp.Reachable := (interrupted_reachable _).request _ _

/-- Where a policy was taken up, it matters to an update and to a deletion alike. -/
theorem sibling_upheld_iff_taken_up :
    ∃ persona sibling o s₁ report s₂,
      runOn (putPolicy {} {} "" (termsPolicy "risk")) takenUp = (.ok o, s₁) ∧
      runOn (deletePolicy {} "terms") takenUp = (.ok report, s₂) ∧
      (s₁.authority.Upholds persona.roleName (synthesize 0 persona sibling) ↔
        Creates takenUp (termsPolicy "risk") ∨
          ¬ takenUp.authority.Entangles (Label.personaPolicy o.policy.guid)
            (synthesize 0 persona sibling)) ∧
      (s₂.authority.Upholds persona.roleName (synthesize 0 persona sibling) ↔
        ¬ takenUp.authority.Entangles (Label.personaPolicy "terms")
          (synthesize 0 persona sibling)) := by
  have htest : (takenUp.catalog.personas.get? "stewards").any (fun persona => persona.enabled &&
      (takenUp.catalog.policiesOf persona.guid).any fun sibling =>
        sibling.guid == "ledger" && sibling.isActive &&
        ((synthesize 0 persona sibling).all fun q =>
          decide ((ResourceMap.canonicalBytes q.resources).length < 2 ^ 60) &&
          takenUp.authority.policies.values.any fun p =>
            p.sameTarget q && (p.mergeRoleItem q persona.roleName).isNone) &&
        (putPolicy {} {} "" (termsPolicy "risk")).passes takenUp (fun o _ =>
          o.report.isComplete && sibling.guid != o.policy.guid) &&
        (deletePolicy {} "terms").passes takenUp (fun report _ => report.isComplete) &&
        (takenUp.catalog.policies.get? "terms").any fun policy =>
          policy.guid == "terms" && policy.personaGuid == "stewards") = true := by
    decide +kernel
  obtain ⟨persona, hpersona, htest⟩ := (Option.any_eq_true _ _).1 htest
  rw [Bool.and_eq_true] at htest
  obtain ⟨henabled, htest⟩ := htest
  obtain ⟨sibling, hsibling, htest⟩ := List.any_eq_true.1 htest
  simp only [Bool.and_eq_true, List.all_eq_true, decide_eq_true_eq] at htest
  obtain ⟨⟨⟨⟨⟨-, hactive⟩, hqs⟩, hput⟩, hdelete⟩, hstored⟩ := htest
  obtain ⟨o, s₁, hrun, hcomplete⟩ := Operation.exists_of_passes hput
  obtain ⟨report, s₂, hrun', hcomplete'⟩ := Operation.exists_of_passes hdelete
  obtain ⟨policy, hpolicy, hguid⟩ := (Option.any_eq_true _ _).1 hstored
  simp only [Bool.and_eq_true, beq_iff_eq, bne_iff_ne] at hcomplete hguid
  obtain ⟨hupdated, hdeleted⟩ := sibling_upheld_iff (σ := {}) takenUp_reachable henabled hsibling
    hactive (fun q hq => (hqs q hq).1) (upholds_of_merged takenUp_reachable fun q hq => (hqs q hq).2)
  have hafter := hdeleted "terms" policy report s₂ hrun' hcomplete' hpolicy (hguid.2 ▸ hpersona)
  rw [hguid.1] at hafter
  exact ⟨persona, sibling, o, s₁, report, s₂, hrun, hrun',
    hupdated {} "" (termsPolicy "risk") o s₁ hrun hcomplete.1 hpersona hcomplete.2, hafter⟩

/-- An update that completes an earlier one deletes a policy that another persona policy in use needs. -/
theorem sibling_stripped_by_update :
    ∃ s s' persona sibling o, s.Reachable ∧ persona.enabled = true ∧
      sibling ∈ s.catalog.policiesOf persona.guid ∧ sibling.isActive = true ∧
      s.authority.Upholds persona.roleName (synthesize 0 persona sibling) ∧
      runOn (putPolicy {} {} "" (termsPolicy "risk")) s = (.ok o, s') ∧
      o.report.isComplete = true ∧
      s.catalog.personas.get? (termsPolicy "risk").personaGuid = some persona ∧
      sibling.guid ≠ o.policy.guid ∧
      ¬ s'.authority.Upholds persona.roleName (synthesize 0 persona sibling) := by
  have htest : (takenUp.catalog.personas.get? "stewards").any (fun persona => persona.enabled &&
      (takenUp.catalog.policiesOf persona.guid).any fun sibling => sibling.isActive &&
        ((synthesize 0 persona sibling).all fun q =>
          takenUp.authority.policies.values.any fun p =>
            p.sameTarget q && (p.mergeRoleItem q persona.roleName).isNone) &&
        (putPolicy {} {} "" (termsPolicy "risk")).passes takenUp fun o s' =>
          o.report.isComplete && sibling.guid != o.policy.guid &&
          (synthesize 0 persona sibling).any fun q =>
            s'.authority.policies.values.all fun p => !p.sameTarget q) = true := by
    decide +kernel
  obtain ⟨persona, hpersona, htest⟩ := (Option.any_eq_true _ _).1 htest
  rw [Bool.and_eq_true] at htest
  obtain ⟨henabled, htest⟩ := htest
  obtain ⟨sibling, hsibling, htest⟩ := List.any_eq_true.1 htest
  simp only [Bool.and_eq_true, List.all_eq_true] at htest
  obtain ⟨⟨hactive, hqs⟩, hput⟩ := htest
  obtain ⟨o, s', hrun, hlost⟩ := Operation.exists_of_passes hput
  simp only [Bool.and_eq_true, List.any_eq_true, List.all_eq_true, Bool.not_eq_true', bne_iff_ne]
    at hlost
  obtain ⟨⟨hcomplete, hguid⟩, q, hq, hnone⟩ := hlost
  refine ⟨takenUp, s', persona, sibling, o, takenUp_reachable, henabled, hsibling, hactive,
    upholds_of_merged takenUp_reachable hqs, hrun, hcomplete, hpersona, hguid, fun hafter => ?_⟩
  obtain ⟨p, hp, hupholds⟩ := hafter q hq
  have hno := hnone p hp
  rw [Policy.sameTarget_iff.2 hupholds.target] at hno
  exact Bool.false_ne_true hno.symm

end PersonaService

end CatalogAccess
