import CatalogAccess.Proofs.Persona.Upkeep

/-!
# Putting a persona policy

A persona policy takes the place of the version stored under its identifier, which is told by the labels of
concrete policies (`PersonaService.Replaces`): whatever has the label of the persona policy was asked for
by the former version, and so was whatever names the role of the persona under a target that is wanted
now. Creating and updating therefore leave nothing behind (`PersonaService.Replaces.inStep`), and what has
a wanted target names the role in the list of its provisional policy only
(`PersonaService.planPolicy_confined`). With this a regular request that is carried out in full keeps the
stores in step (`PersonaService.putPolicy_inStep`).
-/

namespace CatalogAccess

open Operation (runOn)

namespace PersonaService

variable {σ : ServiceSettings} {subjects : Subjects} {user : String} {persona : Persona}
  {policy saved : PersonaPolicy} {s s' : System} {o : PolicyOutcome} {plan : Plan}

/-! ### The place of a persona policy -/

/-- A persona policy is saved for a persona, in the place of what was stored under its identifier. -/
structure Replaces (s s' : System) (persona : Persona) (saved : PersonaPolicy) : Prop where
  /-- The persona is stored. -/
  found : s.catalog.personas.get? persona.guid = some persona
  /-- The policy belongs to the persona. -/
  owner : saved.personaGuid = persona.guid
  /-- Nothing else changes in the catalog. -/
  catalog : s'.catalog = s.catalog.withPolicy saved
  /-- What was in force under the identifier belonged to the persona, too. -/
  former : ∀ other policy, s.catalog.personas.get? other.guid = some other →
    s.catalog.InForce other policy → policy.guid = saved.guid → other = persona

namespace Replaces

theorem personas (h : Replaces s s' persona saved) :
    s'.catalog.personas = s.catalog.personas := by
  rw [h.catalog]
  rfl

/-- Under other identifiers the same is in force. -/
theorem inForce_of_ne (h : Replaces s s' persona saved) {other : Persona}
    (hguid : policy.guid ≠ saved.guid) :
    s'.catalog.InForce other policy ↔ s.catalog.InForce other policy := by
  rw [h.catalog]
  exact PersonaCatalog.inForce_withPolicy_iff hguid

/-- For other personas the same is in force. -/
theorem inForce_other (h : Replaces s s' persona saved) {other : Persona}
    (hother : s.catalog.personas.get? other.guid = some other) (hne : other.guid ≠ persona.guid) :
    s.catalog.InForce other policy ↔ s'.catalog.InForce other policy := by
  by_cases hguid : policy.guid = saved.guid
  · constructor
    · intro hpolicy
      exact absurd (congrArg Persona.guid (h.former other policy hother hpolicy hguid)) hne
    · intro hpolicy
      rw [h.catalog] at hpolicy
      obtain rfl := hpolicy.eq_saved hguid
      exact absurd (hpolicy.owner.symm.trans h.owner) hne
  · exact (h.inForce_of_ne hguid).symm

/-- What has the label of the persona policy was asked for by the former version. -/
theorem labelled (h : Replaces s s' persona saved) (hs : s.InStep) {p : Policy}
    (hp : p ∈ s.authority.policies.values) (hlabel : Label.personaPolicy saved.guid ∈ p.labels) :
    ∃ former, s.catalog.InForce persona former ∧ former.guid = saved.guid ∧
      ∃ q, persona.Asks (· = former) q ∧ p.target = q.target := by
  obtain ⟨other, former, hother, hformer, hguid, q, hq, htarget⟩ := hs.labelled p hp _ hlabel
  obtain rfl := h.former other former hother hformer hguid
  exact ⟨former, hformer, hguid, q, hq, htarget⟩

/-- What names the role and has a target that is wanted now was asked for by the former version, and has
the label. -/
theorem named (h : Replaces s s' persona saved) (hs : s.Upkept) (hs' : s'.Regular)
    (hforce : s'.catalog.InForce persona saved) {p q : Policy} (hq : persona.Asks (· = saved) q)
    (hp : p ∈ s.authority.policies.values) (htarget : p.target = q.target)
    (hnamed : p.itemsNaming persona.roleName ≠ ∅) :
    ∃ former, s.catalog.InForce persona former ∧ former.guid = saved.guid ∧
      Label.personaPolicy saved.guid ∈ p.labels ∧
      ∃ q', persona.Asks (· = former) q' ∧
        p.outline persona.roleName = q'.outline persona.roleName := by
  have hreflects := hs.inStep.reflects _ persona h.found
  obtain ⟨q', ⟨former, hformer, draw', hq'⟩, houtline⟩ := hreflects.sound p hp hnamed
  have htarget' : p.target = q'.target := congrArg Policy.Outline.target houtline
  have hguid : former.guid = saved.guid := by
    by_contra hne
    have heq := (hs'.admits persona).eq_of_target ((h.inForce_of_ne hne).2 hformer) hforce
      ⟨former, rfl, draw', hq'⟩ hq (htarget'.symm.trans htarget)
    exact hne (congrArg PersonaPolicy.guid heq)
  have hcarries := hreflects.carries hs.wellKept (hs.admits persona) ⟨former, hformer, draw', hq'⟩ hp
    htarget'
  exact ⟨former, hformer, hguid, hguid ▸ hcarries.labels _ (mem_labels_of_mem_synthesize hq'), q',
    ⟨former, rfl, draw', hq'⟩, houtline⟩

/-- Nothing has to be done for a persona that is disabled. -/
theorem inStep_disabled (h : Replaces s s' persona saved) (hs : s.Upkept)
    (hdisabled : persona.enabled = false)
    (hpolicies : s'.authority.policies = s.authority.policies) : s'.InStep := by
  have hnone : ∀ {c : PersonaCatalog} {policy}, ¬ c.InForce persona policy :=
    fun hpolicy => Bool.false_ne_true (hdisabled.symm.trans hpolicy.enabled)
  have hkept : ∀ {other policy}, s.catalog.personas.get? other.guid = some other →
      other.guid ≠ persona.guid → (s.catalog.InForce other policy ↔ s'.catalog.InForce other policy) :=
    h.inForce_other
  constructor
  · intro guid other hother
    rw [h.personas] at hother
    obtain rfl := (hs.inOrder.persona guid other hother).1
    have hreflects := (hs.inStep.reflects _ other hother).of_same hpolicies
    by_cases hguid : other.guid = persona.guid
    · obtain rfl := Option.some.inj (h.found.symm.trans (hguid ▸ hother))
      exact .of_unnamed (hreflects.unnamed fun _ => hnone) fun _ => hnone
    · exact hreflects.congr fun _ => hkept hother hguid
  · intro p hp guid hlabel
    obtain ⟨other, policy, hother, hpolicy, hsame⟩ :=
      hs.inStep.labelled p (hpolicies ▸ hp) guid hlabel
    refine ⟨other, policy, h.personas ▸ hother, (hkept hother fun hguid => ?_).1 hpolicy, hsame⟩
    obtain rfl := Option.some.inj (h.found.symm.trans (hguid ▸ hother))
    exact hnone hpolicy

/-- A plan that places what the policy asks for, and strips only what has its label, leaves the stores in
step, if nothing has the label in the end but what the policy asks for. -/
theorem inStep (h : Replaces s s' persona saved) (hs : s.Upkept) (hs' : s'.Regular)
    (hforce : s'.catalog.InForce persona saved)
    (heffects : Plan.Effects s.authority s'.authority persona.roleName (persona.Asks (· = saved))
      (Label.personaPolicy saved.guid ∈ ·.labels) (· ∈ saved.droppedLabels persona))
    (hcarried : ∀ q, persona.Asks (· = saved) q →
      ∃ p ∈ s'.authority.policies.values, p.Carries q persona.roleName)
    (hconfined : ∀ q, persona.Asks (· = saved) q → ∀ p ∈ s'.authority.policies.values,
      p.target = q.target → p.ConfinedTo q persona.roleName)
    (hcleared : ∀ former, s.catalog.InForce persona former → former.guid = saved.guid →
      ∀ p ∈ s'.authority.policies.values, Label.personaPolicy saved.guid ∈ p.labels →
        ∃ q, persona.Asks (· = saved) q ∧ p.target = q.target) : s'.InStep := by
  have hself : s'.authority.Reflects persona (s'.catalog.InForce persona) := by
    refine heffects.reflects_self hs.wellKept hs'.wellKept (hs.inStep.reflects _ persona h.found)
      (hs.admits persona) (hs'.admits persona) (fun _ heq => heq ▸ hforce) hcarried hconfined
      (fun policy' hpolicy' => ?_) fun policy' hpolicy' hgone p hp hmem => ?_
    · by_cases hguid : policy'.guid = saved.guid
      · rw [h.catalog] at hpolicy'
        exact .inl (hpolicy'.eq_saved hguid)
      · -- What has the label is asked for by the former version, and by no other persona policy.
        have hbefore := (h.inForce_of_ne hguid).1 hpolicy'
        refine .inr ⟨hbefore, fun p hp hmem q hq htarget => ?_⟩
        obtain ⟨former, hformer, hsame, q₀, hq₀, htarget₀⟩ := h.labelled hs.inStep hp hmem
        have heq := (hs.admits persona).eq_of_target hbefore hformer hq hq₀
          (htarget.symm.trans htarget₀)
        exact hguid (heq ▸ hsame)
    · have hguid : policy'.guid = saved.guid :=
        Classical.byContradiction fun hne => hgone ((h.inForce_of_ne hne).2 hpolicy')
      exact hcleared policy' hpolicy' hguid p hp (hguid ▸ hmem)
  refine hs.inStep.of_effects hs.wellKept hs.inOrder hs.wellNamed.marked.plain h.found rfl heffects
    (fun l hl => ?_) (fun guid _ => by rw [h.personas]) (fun guid other hother hne policy' => ?_)
    (fun p hp => ?_) (fun policy' heq => ⟨h.personas ▸ h.found, heq ▸ hforce⟩)
    fun policy' hpolicy' p hp hmem htarget => ?_
  · simp only [PersonaPolicy.droppedLabels, List.mem_cons, List.not_mem_nil, or_false] at hl
    rcases hl with rfl | rfl
    · exact .inr ⟨saved.guid, rfl, fun other policy' hother hpolicy' hguid =>
        congrArg Persona.guid (h.former other policy' hother hpolicy' hguid)⟩
    · exact .inl rfl
  · obtain rfl := (hs.inOrder.persona guid other hother).1
    exact h.inForce_other hother hne
  · rw [h.personas, h.found] at hp
    exact Option.some.inj hp ▸ hself
  · by_cases hguid : policy'.guid = saved.guid
    · obtain ⟨q, hq, hwanted⟩ := hcleared policy' hpolicy' hguid p hp (hguid ▸ hmem)
      exact ⟨persona, saved, h.personas ▸ h.found, hforce, hguid.symm, q, hq, hwanted⟩
    · exact ⟨persona, policy', h.personas ▸ h.found, (h.inForce_of_ne hguid).2 hpolicy', rfl, htarget⟩

end Replaces

/-! ### The lists in which a role is named -/

/-- A plan for a persona policy leaves what has a wanted target confined to the provisional policy. Of what
had the target before, only what has the label of the persona policy named the role, and it was confined
itself unless all is placed anew. -/
theorem planPolicy_confined (hs : s.authority.WellKept)
    (hfurnished : ∀ id p, s.authority.policies.get? id = some p → p.IsFurnished)
    (henabled : persona.enabled = true) {prior : Option PersonaPolicy}
    (hrun : runOn (planPolicy σ persona prior saved) s = (.ok plan, s')) {a : Authority}
    (hrealized : plan.Realized s.authority a) (hassets : saved.assets ≠ []) {draw : Nat}
    (hshort : ∀ q ∈ synthesize draw persona saved,
      (ResourceMap.canonicalBytes q.resources).length < 2 ^ 60) {q : Policy}
    (hq : q ∈ synthesize draw persona saved)
    (hbefore : ∀ p ∈ s.authority.policies.values, p.target = q.target →
      p.itemsNaming persona.roleName ≠ ∅ → ∃ former, prior = some former ∧
        Label.personaPolicy saved.guid ∈ p.labels ∧
        (mustRecreate saved former = false → p.ConfinedTo q persona.roleName))
    {p : Policy} (hp : p ∈ a.policies.values) (htarget : p.target = q.target) :
    p.ConfinedTo q persona.roleName := by
  have hstored := hs.toWellStored
  have hqs := synthesizeActions_areProvisional s.drawn persona saved saved.actions
  obtain ⟨q', hq', halike⟩ : ∃ q' ∈ synthesize s.drawn persona saved, Policy.Alike q' q :=
    exists_alike_synthesize hq
  have hnamed : ∀ id p, s.authority.policies.get? id = some p → p.target = q'.target →
      p.itemsNaming persona.roleName = ∅ ∨ ∃ former, prior = some former ∧
        Label.personaPolicy saved.guid ∈ p.labels ∧
        (mustRecreate saved former = false → p.ConfinedTo q persona.roleName) := by
    intro id p hget hsame
    exact Classical.or_iff_not_imp_left.2
      (hbefore p (NameMap.mem_values_iff.2 ⟨id, hget⟩) (hsame.trans halike.target))
  -- Where all is placed, it depends on what the plan starts from.
  have hplaces : ∀ {start : Plan} {d : Nat}, start.Tracks s.authority.policies →
      start.Confines s.authority.policies persona.roleName q' →
      placeAll σ.pageSize persona.roleName { s with drawn := d } start
        (synthesize s.drawn persona saved) = .ok plan → p.ConfinedTo q persona.roleName := by
    intro start d htracks hconfines hplace
    have hplaced := Plan.placeAll_confines (s := { s with drawn := d }) hstored hqs htracks hq'
      hconfines hplace
    exact halike.confinedTo_iff.1
      (hplaced.realized hrealized hp (htarget.trans halike.target.symm))
  unfold planPolicy at hrun
  rw [if_pos henabled] at hrun
  cases prior with
  | none =>
    unfold planCreate at hrun
    simp only [Operation.runOn_bind_ok, Operation.runOn_synthesize, Operation.runOn_read,
      Prod.mk.injEq, Except.ok.injEq] at hrun
    obtain ⟨_, _, ⟨rfl, rfl⟩, hplace, -⟩ := hrun
    refine hplaces (Plan.tracks_empty _) (Plan.confines_empty fun id p hget hsame => ?_) hplace
    rcases hnamed id p hget hsame with hnone | ⟨former, hformer, -⟩
    · exact .of_unnamed hnone
    · exact absurd hformer.symm (Option.some_ne_none former)
  | some former =>
    cases hrecreate : mustRecreate saved former with
    | false =>
      refine (planUpdate_confinedTo_iff hs hfurnished hassets hrecreate hrun hrealized hshort hq hp
        htarget).2 fun p hp hsame => ?_
      obtain ⟨id, hget⟩ := NameMap.mem_values_iff.1 hp
      rcases hnamed id p hget (hsame.trans halike.target.symm) with hnone | ⟨_, hformer, -, hconfined⟩
      · exact .of_unnamed hnone
      · exact hconfined (Option.some.inj hformer ▸ hrecreate)
    | true =>
      simp only [planUpdate, Operation.runOn_bind_ok, Operation.runOn_synthesize,
        Operation.runOn_read, Prod.mk.injEq, Except.ok.injEq, hrecreate, if_true] at hrun
      obtain ⟨existing, _, ⟨hread, rfl⟩, _, _, ⟨rfl, rfl⟩, hplace, -⟩ := hrun
      have hexisting := System.policiesWithLabel_spec hread
      have hlabel : Label.personaPolicy saved.guid ∈ saved.droppedLabels persona := List.mem_cons_self
      have hfound : ∀ p ∈ existing, ∃ id, s.authority.policies.get? id = some p :=
        fun p hp => ((hexisting p).1 hp).1
      obtain ⟨hloaded, -, -⟩ := Plan.loads_foldl hstored hfound (fun _ hp => hp) (Plan.tracks_empty _)
      have hstrips : Plan.Strips persona.roleName (saved.droppedLabels persona)
          (existing.foldl Plan.load {}) existing ((existing.foldl Plan.load {}).stripAll existing
            persona.roleName (saved.droppedLabels persona)) :=
        (Plan.stripAll_strips hstored hlabel fun p hp => (hexisting p).1 hp).1
      refine hplaces (hstrips.tracks hloaded hstored hfound)
        (Plan.confines_stripAll hstored hexisting hlabel fun id p hget hsame => ?_) hplace
      rcases hnamed id p hget hsame with hnone | ⟨_, -, hmem, -⟩
      · exact .inl (.of_unnamed hnone)
      · exact .inr hmem

/-! ### Requests -/

/-- A regular request takes the place of what was in force under the identifier, which it has found. -/
theorem putPolicy_replaces (hs : s.Upkept) (hr : (Request.putPolicy subjects user policy).Regular s)
    (hrun : runOn (putPolicy σ subjects user policy) s = (.ok o, s'))
    (hpersona : s.catalog.personas.get? policy.personaGuid = some persona) :
    Replaces s s' persona o.policy ∧ ∀ other former, s.catalog.InForce other former →
      former.guid = o.policy.guid →
        s.catalog.policies.get? policy.guid = some former ∧ ¬ Creates s policy := by
  obtain ⟨-, s₁, hsaves, hcatalog, -⟩ := putPolicy_saves hs.wellNamed.reachable hrun hpersona
  cases hr with
  | putPolicy _ _ _ hundrawn hfits hactive howner =>
  have hkey := (hs.inOrder.persona _ persona hpersona).1
  have hstored : ∀ other former, s.catalog.InForce other former → former.guid = o.policy.guid →
      s.catalog.policies.get? policy.guid = some former ∧ ¬ Creates s policy := by
    intro other former hformer hguid
    have hget := hformer.stored
    rw [hguid] at hget
    by_cases hempty : policy.guid = ""
    · obtain ⟨n, hn, hdraw⟩ := hsaves.fresh hempty
      rw [hdraw, hs.catalog.policy n hn] at hget
      exact absurd hget.symm (Option.some_ne_none former)
    · rw [hsaves.kept hempty] at hget
      refine ⟨hget, ?_⟩
      rintro (hmissing | hnone)
      · exact hempty (String.isEmpty_iff.1 hmissing)
      · exact Option.some_ne_none former (hget.symm.trans hnone)
  refine ⟨⟨hkey ▸ hpersona, ?_, hcatalog.trans hsaves.catalog, fun other former hother hformer hguid => ?_⟩,
    hstored⟩
  · rw [hsaves.same, hkey]
  · have hget := (hstored other former hformer hguid).1
    have hsame := howner former other hget (hformer.owner ▸ hother) hformer.enabled
    rw [hformer.owner] at hsame
    exact Option.some.inj (hother.symm.trans (hsame ▸ hpersona))

/-- A persona policy is put by a regular request, with all its writes going through. -/
theorem putPolicy_inStep (hs : s.Upkept) (hs' : s'.Regular)
    (hr : (Request.putPolicy subjects user policy).Regular s)
    (hrun : runOn (putPolicy σ subjects user policy) s = (.ok o, s'))
    (hcomplete : o.report.isComplete = true) : s'.InStep := by
  have hreachable := hs.wellNamed.reachable
  obtain ⟨persona, hpersona⟩ := putPolicy_stored hrun
  obtain ⟨hreplaces, hformers⟩ := putPolicy_replaces hs hr hrun hpersona
  cases henabled : persona.enabled with
  | false =>
    obtain ⟨prior, plan, s₁, s₂, -, -, hsaves, hplan, hexecute⟩ := putPolicy_ok hrun hpersona
    unfold planPolicy at hplan
    rw [henabled, if_neg Bool.false_ne_true, Operation.runOn_pure, Prod.mk.injEq, Except.ok.injEq] at hplan
    obtain ⟨rfl, rfl⟩ := hplan
    have hsame : s₁ = s' := (Prod.mk.inj hexecute).2
    exact hreplaces.inStep_disabled hs henabled (by rw [← hsame, hsaves.authority])
  | true =>
  obtain ⟨prior, plan, s₁, s₂, -, ⟨hcreates, hprior⟩, hsaves, hplan, hrealized⟩ :=
    putPolicy_realizes hreachable hrun hcomplete hpersona henabled
  have hforce : s'.catalog.InForce persona o.policy := by
    refine ⟨henabled, ?_, hreplaces.owner, ?_⟩
    · rw [hreplaces.catalog, PersonaCatalog.withPolicy, NameMap.get?_insert, if_pos rfl]
    · cases hr with
      | putPolicy _ _ _ _ _ hactive =>
        rw [hsaves.same]
        exact hactive persona hpersona henabled
  have hassets : o.policy.assets ≠ [] := hs'.wellNamed.reachable.keeps.assets _ _ hforce.stored
  have hshort : ∀ draw, ∀ q ∈ synthesize draw persona o.policy,
      (ResourceMap.canonicalBytes q.resources).length < 2 ^ 60 :=
    short_synthesize (hs'.catalog.fits _ _ hforce.stored persona)
  -- Planning reads the authority as it was before the request.
  have hkept := hs.wellKept
  have hfurnished := hreachable.keeps.furnished
  rw [← hsaves.authority] at hkept hfurnished
  have hplaceable : ∀ q ∈ synthesize s₁.drawn persona o.policy, q.IsPlaceable persona.roleName :=
    (synthesizeActions_areProvisional s₁.drawn persona o.policy o.policy.actions).placeable
  have heffects : Plan.Effects s₁.authority s'.authority persona.roleName
      (persona.Asks (· = o.policy)) (Label.personaPolicy o.policy.guid ∈ ·.labels)
      (· ∈ o.policy.droppedLabels persona) :=
    ((planPolicy_built hkept.toWellStored henabled hplan).effects hkept hplaceable hrealized).mono
      (fun q hq => ⟨o.policy, rfl, s₁.drawn, hq⟩)
      (fun p hp => (Authority.mem_withLabel.1 hp.2).2) fun _ hl => hl
  rw [hsaves.authority] at heffects
  refine hreplaces.inStep hs hs' hforce heffects ?_ ?_ fun former hformer hguid p hp hlabel => ?_
  · rintro q ⟨_, rfl, draw, hq⟩
    obtain ⟨p, hp, hcarries⟩ := (putPolicy_enforces hreachable hrun hcomplete hpersona henabled
      (hshort draw) hassets).carried q hq
    exact ⟨p, (List.mem_filter.1 hp).1, hcarries⟩
  · rintro q ⟨_, rfl, draw, hq⟩ p hp htarget
    refine planPolicy_confined hkept hfurnished henabled hplan hrealized hassets (hshort draw) hq
      (fun p hp htarget hnamed => ?_) hp htarget
    obtain ⟨_, hformer, hguid, hlabel, q', ⟨former, rfl, draw', hq'⟩, houtline⟩ :=
      hreplaces.named hs hs' hforce ⟨o.policy, rfl, draw, hq⟩ (hsaves.authority ▸ hp) htarget hnamed
    obtain ⟨hget, hupdates⟩ := hformers persona former hformer hguid
    obtain ⟨x, rfl⟩ := Option.ne_none_iff_exists'.1 fun hnone => hupdates (hcreates.1 hnone)
    obtain rfl := Option.some.inj (hget.symm.trans (hprior x rfl))
    refine ⟨former, rfl, hlabel, fun hkept => ?_⟩
    -- The former version and the new one allow the same, and so have their items in the same list.
    have hallow : former.allow = o.policy.allow := by
      simp only [mustRecreate, Bool.or_eq_false_iff, bne_eq_false_iff_eq] at hkept
      exact hkept.1.1
    have hkind : q'.kind = q.kind :=
      congrArg Prod.fst ((congrArg Policy.Outline.target houtline).symm.trans htarget)
    exact Policy.ConfinedTo.of_same_list
      ((synthesizeActions_areProvisional draw' persona former _).each q' hq')
      ((synthesizeActions_areProvisional draw persona o.policy _).each q hq) hkind
      (lists_of_mem_synthesize hq') (hallow ▸ lists_of_mem_synthesize hq) (.of_outline_eq houtline)
  · have hupdates := (hformers persona former hformer hguid).2
    obtain ⟨q, hq, htarget⟩ := putPolicy_wanted hreachable hrun hcomplete hpersona henabled hupdates 0 p
      (Authority.mem_withLabel.2 ⟨NameMap.mem_values_iff.1 hp, hlabel⟩)
    exact ⟨q, ⟨o.policy, rfl, 0, hq⟩, htarget⟩

end PersonaService

end CatalogAccess
