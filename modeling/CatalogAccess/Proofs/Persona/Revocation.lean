import CatalogAccess.Proofs.Persona.Siblings
import CatalogAccess.Proofs.Persona.Switching

/-!
# Repeating a revocation

A persona policy is deleted, or a persona disabled, and some of the writes are lost. The request has
changed the catalog all the same, so that the same request, made again, has nothing left to clean up: a
persona policy that is deleted is not found any more, and a persona that is disabled already is not
switched off. `PersonaService.revocation_repeated` tells what goes on naming the role then: the labelled
policies whose own write failed the first time (`Plan.stripAll_leaves`), and no others.
-/

namespace CatalogAccess

open Operation (runOn)

/-- The write that takes a role and labels from a stored policy. -/
def Policy.strippingWrite (p : Policy) (id role : String) (dropped : List String) : Mutation :=
  if (p.stripped role dropped).hasNoItems then .delete id p.name
  else .update (p.stripped role dropped)

theorem Plan.Tracked.mutation?_leftover (p : Policy) (id role : String) (dropped : List String) :
    (Tracked.leftover (p.stripped role dropped)).mutation? id =
      some (p.strippingWrite id role dropped) := by
  unfold leftover Tracked.mutation? Policy.strippingWrite
  cases (p.stripped role dropped).hasNoItems <;> rfl

/-- The policy that is stored under the identifier has the label, and names the role. -/
structure Authority.Names (a : Authority) (label role id : String) (p : Policy) : Prop where
  /-- The policy is stored. -/
  stored : a.policies.get? id = some p
  /-- It has the label. -/
  label : label ∈ p.labels
  /-- It has an item for the role. -/
  role : p.itemsNaming role ≠ ∅

/-- When all policies with a label are stripped of a role, those with the label that go on naming the role
are those whose write does not go through. -/
theorem Plan.stripAll_leaves {s : System} (hs : s.authority.WellKept) {label role : String}
    {dropped : List String} (hlabel : label ∈ dropped) (deadlineMs : Nat) (id : String) (p : Policy) :
    (s.execute deadlineMs (Plan.stripAll {} (s.authority.withLabel label) role
        dropped).mutations).2.authority.Names label role id p ↔
      s.authority.Names label role id p ∧
        ¬ s.Accepts deadlineMs (p.strippingWrite id role dropped) := by
  have hstrips := Plan.stripAll_withLabel hs.toWellStored role hlabel
  obtain ⟨hwritten, hspared⟩ := (Plan.stripAll_tracks hs.toWellStored
    role hlabel).mirrors.execute_tracked hs.numbered hstrips.creates deadlineMs id
  cases ht : (Plan.stripAll {} (s.authority.withLabel label) role dropped).tracked.get? id with
  | none =>
    -- Every policy with the label is tracked.
    have hout : ¬ s.authority.Names label role id p := by
      intro h
      have hmem := Authority.mem_withLabel.2 ⟨⟨id, h.stored⟩, h.label⟩
      obtain ⟨_, -, -, ht'⟩ := hstrips.stripped p hmem id (hs.id id p h.stored)
      exact Option.some_ne_none _ (ht'.symm.trans ht)
    refine ⟨fun h => absurd ⟨(hspared ht).symm.trans h.stored, h.label, h.role⟩ hout, fun h => ?_⟩
    exact absurd h.1 hout
  | some t =>
    obtain ⟨old, -, hold, rfl⟩ := (hstrips.cases hs.toWellStored
      (fun p hp => (Authority.mem_withLabel.1 hp).1) ht).resolve_left
        fun h => Option.some_ne_none t h.symm
    have hleft := hwritten _ _ ht (Plan.Tracked.mutation?_leftover old id role dropped)
    by_cases haccepts : s.Accepts deadlineMs (old.strippingWrite id role dropped)
    · rw [if_pos (System.admits_iff.2 haccepts)] at hleft
      refine ⟨fun h => ?_, fun h => ?_⟩
      · -- What is written names the role no more.
        have hget := hleft.symm.trans h.stored
        unfold Policy.strippingWrite at hget
        split at hget
        · exact absurd hget.symm (Option.some_ne_none p)
        · obtain rfl := Option.some.inj hget
          exact absurd (Policy.itemsNaming_stripped (hs.tidy id old hold) role dropped) h.role
      · obtain rfl := Option.some.inj (hold.symm.trans h.1.stored)
        exact absurd haccepts h.2
    · rw [if_neg fun hadmits => haccepts (System.admits_iff.1 hadmits)] at hleft
      constructor
      · intro h
        have hstored := hleft.symm.trans h.stored
        obtain rfl := Option.some.inj (hold.symm.trans hstored)
        exact ⟨⟨hstored, h.label, h.role⟩, haccepts⟩
      · rintro ⟨h, -⟩
        exact ⟨hleft.trans h.stored, h.label, h.role⟩

namespace PersonaService

variable {σ : ServiceSettings} {s s' : System} {persona existing : Persona} {o : PersonaOutcome}

/-! ### The same request again -/

/-- A persona policy that is not stored cannot be deleted. -/
theorem runOn_deletePolicy_missing (hf : s.faults.OnlyWrites) {guid : String}
    (hnone : s.catalog.policies.get? guid = none) :
    runOn (deletePolicy σ guid) s = (.error (.notFound ("persona policy " ++ guid)), s) := by
  have hread : s.personaPolicy? guid = .ok none := by
    rw [System.personaPolicy?, hf "get_persona_policy" guid (by decide), hnone]
    rfl
  rw [deletePolicy, Operation.runOn_bind, Operation.runOn_read, hread]
  rfl

/-- A persona that is switched neither on nor off plans nothing. -/
theorem planToggle_same (h : existing.enabled = persona.enabled) :
    planToggle σ persona existing = pure {} := by
  unfold planToggle
  rw [h]
  cases persona.enabled <;> rfl

/-- A persona with an identifier is saved as it is. -/
theorem runOn_savePersona (hf : s.faults.OnlyWrites) (hguid : persona.guid ≠ "") :
    runOn (Operation.savePersona persona) s = (.ok persona, { s with
      catalog := s.catalog.withPersona persona, drawn := s.drawn + 1 }) := by
  have hgiven : ¬ persona.guid.isEmpty = true := fun hempty => hguid (String.isEmpty_iff.1 hempty)
  have hsave : ∀ unique, s.catalog.savePersona unique persona =
      (persona, s.catalog.withPersona persona) := by
    intro unique
    rw [PersonaCatalog.savePersona, if_neg hgiven]
    rfl
  have hwrite : s.faults.check "save_persona" persona.name = .ok () :=
    hf "save_persona" persona.name (by decide)
  rw [Operation.savePersona, Operation.runOn_bind, Operation.runOn_fresh]
  dsimp only
  rw [Operation.runOn_write_ok]
  simp only [hwrite, hsave]
  rfl

/-- An update that has been carried out changes nothing when it is made again, and writes no policy. -/
theorem runOn_updatePersona_same (hf : s.faults.OnlyWrites) {update : Persona}
    (hguid : update.guid ≠ "") (hcheck : update.check = .ok ())
    (hexisting : s.catalog.personas.get? update.guid = some existing)
    (hactive : requireActive existing = .ok ())
    (hroleId : ¬ (update.roleId.isSome && update.roleId != existing.roleId) = true)
    (hsame : updatedPersona update existing = existing) :
    runOn (updatePersona σ update) s = (.ok ⟨existing, {}⟩, { s with
      catalog := s.catalog.withPersona existing, drawn := s.drawn + 1 }) := by
  have hname : ¬ (update.name != existing.name) = true := by
    rw [← hsame]
    simp [updatedPersona]
  have hmembers : ¬ (existing.users != existing.users || existing.groups != existing.groups) = true := by
    simp
  have hguid' : existing.guid ≠ "" := by
    rw [← hsame]
    exact hguid
  have hnothing : ∀ t : System, runOn (Operation.execute σ.deadlineMs (Plan.mutations {})) t =
      (.ok {}, t) := fun _ => rfl
  unfold updatePersona
  simp only [Operation.runOn_bind, Operation.runOn_lift, hcheck, runOn_requirePersona hf hexisting,
    hactive, if_neg hroleId, if_neg hname, hsame, if_neg hmembers, planToggle_same rfl,
    Operation.runOn_pure, hnothing, runOn_savePersona hf hguid']

theorem requireActive_iff : requireActive persona = .ok () ↔ persona.isActive = true := by
  unfold requireActive
  split
  · next hactive => exact ⟨fun _ => hactive, fun _ => rfl⟩
  · next hinactive => exact ⟨fun h => absurd h (by simp), fun hactive => absurd hactive hinactive⟩

/-! ### What is left -/

/-- A persona policy has been deleted, and the labelled policies name the role that did so before and
could not be written. -/
theorem deletePolicy_leaves (hs : s.authority.WellKept) {guid : String} {policy : PersonaPolicy}
    {report : Report} (hpolicy : s.catalog.policies.get? guid = some policy)
    (hpersona : s.catalog.personas.get? policy.personaGuid = some persona)
    (hrun : runOn (deletePolicy σ guid) s = (.ok report, s')) (id : String) (p : Policy) :
    s'.authority.Names (Label.personaPolicy policy.guid) persona.roleName id p ↔
      s.authority.Names (Label.personaPolicy policy.guid) persona.roleName id p ∧
        ¬ s.Accepts σ.deadlineMs
          (p.strippingWrite id persona.roleName (policy.droppedLabels persona)) := by
  obtain ⟨s₁, hexecute, hauthority, -⟩ := deletePolicy_ok hrun hpolicy hpersona
  have hlabel : Label.personaPolicy policy.guid ∈ policy.droppedLabels persona := List.mem_cons_self
  rw [hauthority, ← show _ = s₁ from congrArg Prod.snd hexecute]
  exact Plan.stripAll_leaves hs hlabel σ.deadlineMs id p

/-- A persona has been disabled, and the labelled policies name its role that did so before and could not
be written. -/
theorem updatePersona_leaves (hs : s.authority.WellKept) (hdisabled : o.persona.enabled = false)
    (henabled : existing.enabled = true) (htoggles : Toggles σ existing o s s') (id : String)
    (p : Policy) :
    s'.authority.Names (Label.persona o.persona.guid) o.persona.roleName id p ↔
      s.authority.Names (Label.persona o.persona.guid) o.persona.roleName id p ∧
        ¬ s.Accepts σ.deadlineMs
          (p.strippingWrite id o.persona.roleName (o.persona.cleanedLabels s.catalog)) := by
  obtain ⟨roles, plan, s₁, s₂, hplan, hexecute, hauthority, -⟩ := htoggles
  have hclean : planToggle σ o.persona existing = planClean σ o.persona := by
    rw [planToggle, henabled, hdisabled]
  rw [hclean] at hplan
  obtain ⟨rfl, rfl⟩ := planClean_ok hplan
  -- Roles matter neither to the policies nor to whether they can be written.
  let t : System := { s with authority := { s.authority with roles } }
  have hkept : t.authority.WellKept := hs.mono rfl (Nat.le_refl _)
  have hlabel : Label.persona o.persona.guid ∈ o.persona.cleanedLabels s.catalog := List.mem_cons_self
  have hnames : t.authority.Names (Label.persona o.persona.guid) o.persona.roleName id p ↔
      s.authority.Names (Label.persona o.persona.guid) o.persona.roleName id p :=
    ⟨fun h => ⟨h.stored, h.label, h.role⟩, fun h => ⟨h.stored, h.label, h.role⟩⟩
  rw [hauthority, ← show _ = s₂ from congrArg Prod.snd hexecute]
  refine (Plan.stripAll_leaves (s := t) hkept hlabel σ.deadlineMs id p).trans
    ((and_congr_left' hnames).trans (and_congr_right fun _ => not_congr ?_))
  exact System.accepts_congr rfl rfl fun _ _ => rfl

/-- A request that deletes a persona policy or disables a persona has been carried out, whether or not its
writes have gone through, and is made once more when no call fails. The second deletion is refused, and
the second update plans nothing: neither writes a policy. Of the policies with the label of the persona
policy, or of the persona, those go on naming the role that did so before the first request and could not
be written by it. -/
theorem revocation_repeated (hs : s.Reachable) :
    (∀ guid policy persona report s', s.catalog.policies.get? guid = some policy →
      s.catalog.personas.get? policy.personaGuid = some persona →
      runOn (deletePolicy σ guid) s = (.ok report, s') →
      runOn (deletePolicy σ guid) s'.repaired =
        (.error (.notFound ("persona policy " ++ guid)), s'.repaired) ∧
      ∀ id p, s'.repaired.authority.Names (Label.personaPolicy guid) persona.roleName id p ↔
        s.authority.Names (Label.personaPolicy guid) persona.roleName id p ∧
          ¬ s.Accepts σ.deadlineMs
            (p.strippingWrite id persona.roleName (policy.droppedLabels persona))) ∧
    ∀ update existing o s', s.catalog.personas.get? update.guid = some existing →
      existing.enabled = true → update.enabled = false →
      runOn (updatePersona σ update) s = (.ok o, s') →
      ∃ s₂, runOn (updatePersona σ update) s'.repaired = (.ok ⟨o.persona, {}⟩, s₂) ∧
        ∀ id p, s₂.authority.Names (Label.persona update.guid) existing.roleName id p ↔
          s.authority.Names (Label.persona update.guid) existing.roleName id p ∧
            ¬ s.Accepts σ.deadlineMs
              (p.strippingWrite id existing.roleName (o.persona.cleanedLabels s.catalog)) := by
  have hkept := hs.wellKept
  have hc := hs.catalog_inOrder
  have hreads : ∀ t : System, t.repaired.faults.OnlyWrites := fun _ _ _ _ => rfl
  constructor
  · intro guid policy persona report s' hpolicy hpersona hrun
    have hkey := (hc.policy guid policy hpolicy).1
    obtain ⟨s₁, -, -, hcatalog⟩ := deletePolicy_ok hrun hpolicy hpersona
    have hnone : s'.repaired.catalog.policies.get? guid = none := by
      show s'.catalog.policies.get? guid = none
      rw [hcatalog, PersonaCatalog.deletePolicy, NameMap.get?_erase, if_pos rfl]
    refine ⟨runOn_deletePolicy_missing (hreads s') hnone, fun id p => ?_⟩
    have hleft := deletePolicy_leaves hkept hpolicy hpersona hrun id p
    rw [hkey] at hleft
    exact ⟨fun h => hleft.1 ⟨h.stored, h.label, h.role⟩, fun h =>
      ⟨(hleft.2 h).stored, (hleft.2 h).label, (hleft.2 h).role⟩⟩
  · intro update existing o s' hexisting henabled hdisabled hrun
    have hguid := (hc.persona _ _ hexisting).2
    obtain ⟨hcheck, hactive, hroleId, hsaved, htoggles⟩ := updatePersona_ok hrun hexisting hguid
    have hstored : s'.repaired.catalog.personas.get? update.guid = some o.persona := by
      obtain ⟨roles, plan, s₁, s₂, -, -, -, hcatalog⟩ := htoggles
      show s'.catalog.personas.get? update.guid = some o.persona
      rw [hcatalog, PersonaCatalog.withPersona, NameMap.get?_insert, hsaved]
      exact if_pos rfl
    have hactive' : o.persona.isActive = true := by
      rw [requireActive_iff] at hactive
      rw [hsaved]
      exact hactive
    have hagain := runOn_updatePersona_same (σ := σ) (hreads s') hguid hcheck hstored
      (requireActive_iff.2 hactive') (by rw [hsaved]; exact hroleId) (by rw [hsaved]; rfl)
    refine ⟨_, hagain, fun id p => ?_⟩
    have hleft := updatePersona_leaves hkept (by rw [hsaved]; exact hdisabled) henabled htoggles id p
    have hrole : o.persona.roleName = existing.roleName := by rw [hsaved]; rfl
    have hkey : o.persona.guid = update.guid := by rw [hsaved]; rfl
    rw [hrole, hkey] at hleft
    exact ⟨fun h => hleft.1 ⟨h.stored, h.label, h.role⟩, fun h =>
      ⟨(hleft.2 h).stored, (hleft.2 h).label, (hleft.2 h).role⟩⟩

/-- A persona policy is deleted while deletions fail, and so is its persona disabled. Either request is
made once more. -/
theorem revocation_repeated_after_deletion :
    ∃ policy persona report s' o t t₂,
      (hampered "delete_policy").catalog.policies.get? "terms" = some policy ∧
      (hampered "delete_policy").catalog.personas.get? policy.personaGuid = some persona ∧
      runOn (deletePolicy {} "terms") (hampered "delete_policy") = (.ok report, s') ∧
      report.isComplete = false ∧
      runOn (deletePolicy {} "terms") s'.repaired =
        (.error (.notFound ("persona policy " ++ "terms")), s'.repaired) ∧
      (∀ id p, s'.repaired.authority.Names (Label.personaPolicy "terms") persona.roleName id p ↔
        (hampered "delete_policy").authority.Names (Label.personaPolicy "terms") persona.roleName id p ∧
          ¬ (hampered "delete_policy").Accepts 10000
            (p.strippingWrite id persona.roleName (policy.droppedLabels persona))) ∧
      runOn (updatePersona {} { persona with enabled := false }) (hampered "delete_policy") =
        (.ok o, t) ∧ o.report.isComplete = false ∧
      runOn (updatePersona {} { persona with enabled := false }) t.repaired =
        (.ok ⟨o.persona, {}⟩, t₂) := by
  have htest : ((hampered "delete_policy").catalog.policies.get? "terms").any (fun policy =>
      ((hampered "delete_policy").catalog.personas.get? policy.personaGuid).any fun persona =>
        persona.guid == policy.personaGuid && persona.enabled &&
        (deletePolicy {} "terms").passes (hampered "delete_policy")
          (fun report _ => !report.isComplete) &&
        (updatePersona {} { persona with enabled := false }).passes (hampered "delete_policy")
          fun o _ => !o.report.isComplete) = true := by
    decide +kernel
  obtain ⟨policy, hpolicy, htest⟩ := (Option.any_eq_true _ _).1 htest
  obtain ⟨persona, hpersona, htest⟩ := (Option.any_eq_true _ _).1 htest
  simp only [Bool.and_eq_true, beq_iff_eq] at htest
  obtain ⟨⟨⟨hguid, henabled⟩, hdeletes⟩, hdisables⟩ := htest
  obtain ⟨report, s', hdelete, hincomplete⟩ := Operation.exists_of_passes hdeletes
  obtain ⟨o, t, hdisable, hincomplete'⟩ := Operation.exists_of_passes hdisables
  rw [Bool.not_eq_true'] at hincomplete hincomplete'
  obtain ⟨hagain, hnames⟩ := (revocation_repeated (hampered_reachable "delete_policy")).1 "terms" policy
    persona report s' hpolicy hpersona hdelete
  obtain ⟨t₂, hagain', -⟩ := (revocation_repeated (hampered_reachable "delete_policy")).2
    { persona with enabled := false } persona o t (hguid ▸ hpersona) henabled rfl hdisable
  exact ⟨policy, persona, report, s', o, t, t₂, hpolicy, hpersona, hdelete, hincomplete, hagain, hnames,
    hdisable, hincomplete', hagain'⟩

/-- After a deletion of a persona policy whose write failed, the same request is refused although all
calls go through, and a policy with its label still names the role. After a persona has been disabled
while deletions failed, the same request succeeds with no writes, and a policy with the label of the
persona still names its role. -/
theorem grant_left_by_revocation :
    ∃ s, s.Reachable ∧
    (∃ policy persona report s', s.catalog.policies.get? "terms" = some policy ∧
      s.catalog.personas.get? policy.personaGuid = some persona ∧
      runOn (deletePolicy {} "terms") s = (.ok report, s') ∧ report.isComplete = false ∧
      (runOn (deletePolicy {} "terms") s'.repaired).2.authority.policies.values.any fun p =>
        p.labels.contains (Label.personaPolicy "terms") &&
          decide (p.itemsNaming persona.roleName ≠ ∅)) ∧
    ∃ persona o t o₂ t₂, s.catalog.personas.get? "stewards" = some persona ∧ persona.enabled = true ∧
      runOn (updatePersona {} { persona with enabled := false }) s = (.ok o, t) ∧
      o.report.isComplete = false ∧
      runOn (updatePersona {} { persona with enabled := false }) t.repaired = (.ok o₂, t₂) ∧
      o₂.report.isComplete = true ∧
      t₂.authority.policies.values.any fun p =>
        p.labels.contains (Label.persona "stewards") &&
          decide (p.itemsNaming persona.roleName ≠ ∅) := by
  let s := hampered "delete_policy"
  have hdeletes : (s.catalog.policies.get? "terms").any (fun policy =>
      (s.catalog.personas.get? policy.personaGuid).any fun persona =>
        (deletePolicy {} "terms").passes s fun report s' => !report.isComplete &&
          (runOn (deletePolicy {} "terms") s'.repaired).2.authority.policies.values.any fun p =>
            p.labels.contains (Label.personaPolicy "terms") &&
              decide (p.itemsNaming persona.roleName ≠ ∅)) = true := by
    decide +kernel
  have hdisables : (s.catalog.personas.get? "stewards").any (fun persona => persona.enabled &&
      (updatePersona {} { persona with enabled := false }).passes s fun o t => !o.report.isComplete &&
        (updatePersona {} { persona with enabled := false }).passes t.repaired fun o₂ t₂ =>
          o₂.report.isComplete && t₂.authority.policies.values.any fun p =>
            p.labels.contains (Label.persona "stewards") &&
              decide (p.itemsNaming persona.roleName ≠ ∅)) = true := by
    decide +kernel
  refine ⟨s, hampered_reachable _, ?_, ?_⟩
  · obtain ⟨policy, hpolicy, htest⟩ := (Option.any_eq_true _ _).1 hdeletes
    obtain ⟨persona, hpersona, htest⟩ := (Option.any_eq_true _ _).1 htest
    obtain ⟨report, s', hrun, htest⟩ := Operation.exists_of_passes htest
    rw [Bool.and_eq_true, Bool.not_eq_true'] at htest
    exact ⟨policy, persona, report, s', hpolicy, hpersona, hrun, htest.1, htest.2⟩
  · obtain ⟨persona, hpersona, htest⟩ := (Option.any_eq_true _ _).1 hdisables
    rw [Bool.and_eq_true] at htest
    obtain ⟨henabled, htest⟩ := htest
    obtain ⟨o, t, hrun, htest⟩ := Operation.exists_of_passes htest
    rw [Bool.and_eq_true, Bool.not_eq_true'] at htest
    obtain ⟨hincomplete, htest⟩ := htest
    obtain ⟨o₂, t₂, hrun₂, htest⟩ := Operation.exists_of_passes htest
    rw [Bool.and_eq_true] at htest
    exact ⟨persona, o, t, o₂, t₂, hpersona, henabled, hrun, hincomplete, hrun₂, htest.1, htest.2⟩

end PersonaService

end CatalogAccess
