import CatalogAccess.Proofs.Persona.Retrying
import CatalogAccess.Proofs.Persona.Revocation

/-!
# Requests that are carried out all or nothing

A request is carried out all or nothing when all its writes of policies go through, or when it has failed
before it changed anything (`PersonaService.Request.AllOrNothing`). So is every request when no call
fails (`PersonaService.Request.AllOrNothing.of_faultless`): what is refused is refused by a check at the
beginning, after which planning and saving go through, and so do the writes of a plan
(`PersonaService.carryOut_total`).
-/

namespace CatalogAccess

open Operation (runOn Keeps Refuses keeps_check keeps_query keeps_throw)

theorem System.faultless_iff {s : System} :
    s.Faultless ↔ (s.faults.failing = ∅ ∧ s.faults.hanging = ∅) ∧ s.authority.failing = ∅ := by
  rw [← Faults.mk.injEq]
  exact ⟨fun h => ⟨h.faults, h.failing⟩, fun h => ⟨h.1, h.2⟩⟩

instance (s : System) : Decidable s.Faultless := decidable_of_iff _ System.faultless_iff.symm

namespace PersonaService

variable {σ : ServiceSettings} {s : System} {r : Request} {persona : Persona}

/-- What is reported of the writes of a request, if the request ends with a result. Creating a persona
writes no policies. -/
def Request.report? (σ : ServiceSettings) (s : System) : Request → Option Report
  | createPersona persona => (runOn (PersonaService.createPersona σ persona) s).1.toOption.map fun _ => {}
  | updatePersona update =>
    (runOn (PersonaService.updatePersona σ update) s).1.toOption.map PersonaOutcome.report
  | deletePersona guid => (runOn (PersonaService.deletePersona σ guid) s).1.toOption
  | putPolicy subjects user policy =>
    (runOn (PersonaService.putPolicy σ subjects user policy) s).1.toOption.map PolicyOutcome.report
  | deletePolicy guid => (runOn (PersonaService.deletePolicy σ guid) s).1.toOption

/-- The writes of a request go through if it ends with a result, and nothing has changed if it does not. -/
structure Request.AllOrNothing (σ : ServiceSettings) (s : System) (r : Request) : Prop where
  /-- All writes of policies go through. -/
  complete : ∀ report, r.report? σ s = some report → report.isComplete = true
  /-- An error leaves the policies of the authority and the catalog alone. -/
  untouched : r.report? σ s = none →
    (r.run σ s).authority.policies = s.authority.policies ∧ (r.run σ s).catalog = s.catalog

/-! ### Planning goes through -/

/-- Planning a creation goes through when reading does, and leaves the stores alone. -/
theorem planCreate_total (hf : s.faults.OnlyWrites) (σ : ServiceSettings) (persona : Persona)
    (plan : Plan) (policy : PersonaPolicy) :
    ∃ plan' drawn, runOn (planCreate σ persona plan policy) s = (.ok plan', { s with drawn }) := by
  let drawn := s.drawn + (Synthesis.provisionals persona policy policy.actions).length
  obtain ⟨plan', hplace⟩ := foldlM_total (place_total (s := { s with drawn }) hf σ.pageSize)
    (synthesizeActions s.drawn persona policy policy.actions) plan
  refine ⟨plan', drawn, ?_⟩
  simp only [planCreate, Operation.runOn_bind, Operation.runOn_synthesize, Operation.runOn_read]
  exact congrArg (·, { s with drawn }) hplace

/-- So does planning several of them. -/
theorem foldlM_planCreate_total (hf : s.faults.OnlyWrites) (σ : ServiceSettings) (persona : Persona)
    (policies : List PersonaPolicy) (plan : Plan) :
    ∃ plan' drawn, runOn (policies.foldlM (planCreate σ persona) plan) s =
      (.ok plan', { s with drawn }) := by
  induction policies generalizing plan s with
  | nil => exact ⟨plan, s.drawn, rfl⟩
  | cons policy policies ih =>
    obtain ⟨mid, drawn, hfirst⟩ := planCreate_total hf σ persona plan policy
    obtain ⟨plan', drawn', hrest⟩ := ih (s := { s with drawn }) hf mid
    refine ⟨plan', drawn', ?_⟩
    rw [List.foldlM_cons, Operation.runOn_bind, hfirst]
    exact hrest

/-- Planning to clean up goes through when reading does. -/
theorem planClean_total (hf : s.faults.OnlyWrites) (σ : ServiceSettings) (persona : Persona) :
    ∃ plan, runOn (planClean σ persona) s = (.ok plan, s) := by
  simp only [planClean, Operation.runOn_bind, Operation.runOn_read, System.policiesWithLabel_ok hf,
    System.policiesOf_ok hf]
  exact ⟨_, rfl⟩

theorem planStrip_total (hf : s.faults.OnlyWrites) (σ : ServiceSettings) (persona : Persona)
    (policy : PersonaPolicy) : ∃ plan, runOn (planStrip σ persona policy) s = (.ok plan, s) := by
  simp only [planStrip, Operation.runOn_bind, Operation.runOn_read, System.policiesWithLabel_ok hf]
  exact ⟨_, rfl⟩

theorem planToggle_total (hf : s.faults.OnlyWrites) (σ : ServiceSettings) (persona existing : Persona) :
    ∃ plan drawn, runOn (planToggle σ persona existing) s = (.ok plan, { s with drawn }) := by
  unfold planToggle
  split
  · obtain ⟨plan, hplan⟩ := planClean_total hf σ persona
    exact ⟨plan, s.drawn, hplan⟩
  · simp only [Operation.runOn_bind, Operation.runOn_read, System.policiesOf_ok hf]
    exact foldlM_planCreate_total hf σ persona _ {}
  · exact ⟨{}, s.drawn, rfl⟩

theorem planPolicy_total (hf : s.faults.OnlyWrites) (σ : ServiceSettings) (persona : Persona)
    (prior : Option PersonaPolicy) (saved : PersonaPolicy) :
    ∃ plan drawn, runOn (planPolicy σ persona prior saved) s = (.ok plan, { s with drawn }) := by
  unfold planPolicy
  split
  · cases prior with
    | none => exact planCreate_total hf σ persona {} saved
    | some prior => exact planUpdate_total hf σ persona prior saved
  · exact ⟨{}, s.drawn, rfl⟩

/-! ### Carrying out -/

/-- A plan is carried out on the stores that it was made for, and what follows is done after that. -/
theorem runOn_carryOut {α : Type} {x : Operation Plan} {plan : Plan} {drawn : Nat}
    (hplan : runOn x s = (.ok plan, { s with drawn })) (f : Report → Operation α) :
    ∃ a : Authority, runOn (do
      let plan ← x
      let report ← Operation.execute σ.deadlineMs plan.mutations
      f report) s =
        runOn (f (({ s with drawn } : System).execute σ.deadlineMs plan.mutations).1)
          { s with drawn, authority := a } := by
  obtain ⟨a, hsystem, -⟩ :=
    ({ s with drawn } : System).execute_leaves σ.deadlineMs plan.mutations
  refine ⟨a, ?_⟩
  rw [Operation.runOn_bind, hplan]
  exact congrArg (runOn (f _)) hsystem

/-- A plan is carried out in full when no call fails, and what follows it is done with a complete
report. -/
theorem carryOut_total {α : Type} (hs : s.Faultless) (hkept : s.authority.WellKept)
    {x : Operation Plan} (hplan : ∃ plan drawn, runOn x s = (.ok plan, { s with drawn }))
    (hacts : Plans s.authority s.catalog persona x) {f : Report → Operation α} {Q : α → Prop}
    (hf : ∀ report t, report.isComplete = true → t.faults.OnlyWrites →
      ∃ a t', runOn (f report) t = (.ok a, t') ∧ Q a) :
    ∃ a s', runOn (do
      let plan ← x
      let report ← Operation.execute σ.deadlineMs plan.mutations
      f report) s = (.ok a, s') ∧ Q a := by
  obtain ⟨plan, drawn, hplan⟩ := hplan
  obtain ⟨-, hacts⟩ := hacts s ⟨rfl, rfl⟩
  rw [hplan] at hacts
  have hcomplete := ((hacts plan rfl).tracks hkept.toWellStored).mirrors.execute_faultless
    (s := { s with drawn }) hkept.numbered ⟨hs.faults, hs.failing⟩ σ.deadlineMs
  obtain ⟨a, hrun⟩ := runOn_carryOut (σ := σ) hplan f
  obtain ⟨b, t', hrest, hb⟩ := hf _ { s with drawn, authority := a } hcomplete hs.onlyWrites
  exact ⟨b, t', hrun.trans hrest, hb⟩

/-! ### Before planning -/

/-- What requests change before they plan: roles, and the supply of identifiers. -/
structure Prepares (s s' : System) : Prop where
  /-- Policies stay. -/
  policies : s'.authority.policies = s.authority.policies
  /-- Identifiers may be assigned. -/
  lastId : s.authority.lastId ≤ s'.authority.lastId
  /-- The catalog stays. -/
  catalog : s'.catalog = s.catalog
  /-- The faults of calls stay. -/
  faults : s'.faults = s.faults
  /-- Those of writes by their names stay. -/
  failing : s'.authority.failing = s.authority.failing

namespace Prepares

variable {s' s'' : System}

theorem refl (s : System) : Prepares s s := ⟨rfl, Nat.le_refl _, rfl, rfl, rfl⟩

theorem trans (h : Prepares s s') (h' : Prepares s' s'') : Prepares s s'' :=
  ⟨h'.policies.trans h.policies, Nat.le_trans h.lastId h'.lastId, h'.catalog.trans h.catalog,
    h'.faults.trans h.faults, h'.failing.trans h.failing⟩

theorem faultless (h : Prepares s s') (hs : s.Faultless) : s'.Faultless :=
  ⟨h.faults.trans hs.faults, h.failing.trans hs.failing⟩

theorem wellKept (h : Prepares s s') (hs : s.WellKept) : s'.WellKept :=
  hs.leaves ⟨h.policies, h.lastId, fun _ _ hget => .inl (h.catalog ▸ hget)⟩

end Prepares

theorem prepares_fresh : Keeps (Prepares s) Operation.fresh fun _ => True :=
  fun _ hs => ⟨hs.trans ⟨rfl, Nat.le_refl _, rfl, rfl, rfl⟩, fun _ _ => trivial⟩

theorem prepares_createRole (r : Role) : Keeps (Prepares s) (Operation.createRole r) fun _ => True := by
  refine Operation.keeps_write fun s hs a s' h => hs.trans ?_
  simp only [Except.bind_eq_ok_iff, Authority.createRole] at h
  obtain ⟨-, -, b, hb, h⟩ := h
  split at hb
  · exact absurd hb (by simp)
  · obtain rfl := Except.ok.inj hb
    obtain ⟨-, rfl⟩ := Prod.mk.inj (Except.ok.inj h)
    exact ⟨rfl, Nat.le_succ _, rfl, rfl, rfl⟩

theorem prepares_updateRole (r : Role) : Keeps (Prepares s) (Operation.updateRole r) fun _ => True := by
  refine Operation.keeps_write fun s hs a s' h => hs.trans ?_
  simp only [Except.bind_eq_ok_iff, Authority.updateRole] at h
  obtain ⟨-, -, b, hb, h⟩ := h
  split at hb
  · exact absurd hb (by simp)
  · split at hb
    · obtain rfl := Except.ok.inj hb
      obtain ⟨-, rfl⟩ := Prod.mk.inj (Except.ok.inj h)
      exact ⟨rfl, Nat.le_refl _, rfl, rfl, rfl⟩
    · exact absurd hb (by simp)

theorem prepares_updateRoleMembers (p : Persona) :
    Keeps (Prepares s) (updateRoleMembers p) fun _ => True := by
  unfold updateRoleMembers
  split
  · exact Operation.keeps_pure trivial
  · refine keeps_query.seq fun found => ?_
    split
    · exact keeps_throw _
    · exact (prepares_updateRole _).seq fun _ => Operation.keeps_pure trivial

theorem prepares_requirePersona (guid : String) :
    Keeps (Prepares s) (requirePersona guid) fun _ => True :=
  fun s' hs => ⟨(keeps_requirePersona guid s' hs).1, fun _ _ => trivial⟩

/-! ### Saving -/

/-- A call that passes its check has a result. -/
theorem runOn_write_passed {α : Type} {check : System → Except AccessError Unit}
    {f : System → α × System} (h : check s = .ok ()) :
    runOn (Operation.write fun s => do check s; return f s) s = (.ok (f s).1, (f s).2) := by
  rw [Operation.runOn_write_ok, h]
  rfl

theorem savePersona_total (hf : s.faults.OnlyWrites) (p : Persona) :
    ∃ saved s', runOn (Operation.savePersona p) s = (.ok saved, s') := by
  rw [Operation.savePersona, Operation.runOn_bind, Operation.runOn_fresh]
  exact ⟨_, _, runOn_write_passed (hf "save_persona" p.name (by decide))⟩

/-! ### Requests -/

section

variable {α β : Type} {x : Operation α} {f : α → Operation β} {Q : α → Prop} {t : System}

/-- The operation ends with a complete report, or with an error and what has been stored at first. -/
def Settles (t : System) (report : α → Report) (x : Operation α) (s : System) : Prop :=
  (∀ a, (runOn x s).1 = .ok a → (report a).isComplete = true) ∧ Refuses (Prepares t) x s

/-- What ends with a complete report settles. -/
theorem Settles.of_total {report : α → Report}
    (h : ∃ a s', runOn x s = (.ok a, s') ∧ (report a).isComplete = true) : Settles t report x s := by
  obtain ⟨a, s', hrun, hcomplete⟩ := h
  refine ⟨fun b hb => ?_, .of_total ⟨a, s', hrun⟩⟩
  rw [hrun] at hb
  exact Except.ok.inj hb ▸ hcomplete

/-- What settles after a step that prepares settles with it. -/
theorem Settles.after {report : β → Report} (hx : Keeps (Prepares t) x Q) (hs : Prepares t s)
    (hf : ∀ a s', Prepares t s' → Q a → Settles t report (f a) s') : Settles t report (x >>= f) s := by
  refine ⟨?_, .after hx hs fun a s' hs' hq => (hf a s' hs' hq).2⟩
  obtain ⟨hs', hq⟩ := hx s hs
  rw [Operation.runOn_bind]
  generalize runOn x s = e at hs' hq ⊢
  obtain ⟨r, s'⟩ := e
  cases r with
  | ok a => exact (hf a s' hs' (hq a rfl)).1
  | error e => exact fun _ hb => absurd hb (by simp)

/-- So it does with a step that is taken only under a condition. -/
theorem Settles.after_when {p : Prop} [Decidable p] {x : Operation Unit} {f : Unit → Operation β}
    {report : β → Report} (hx : Keeps (Prepares t) x fun _ => True) (hs : Prepares t s)
    (hf : ∀ s', Prepares t s' → Settles t report (f ()) s') :
    Settles t report (if p then x >>= f else f ()) s := by
  split
  · exact .after hx hs fun _ s' hs' _ => hf s' hs'
  · exact hf s hs

end

theorem createPersona_settles (hs : s.Faultless) (p : Persona) :
    Settles s (fun _ => {}) (createPersona σ p) s := by
  refine .after keeps_check (.refl s) fun _ s₁ h₁ _ => .after keeps_query h₁ fun personas s₂ h₂ _ =>
    .after keeps_check h₂ fun _ s₃ h₃ _ => .after prepares_fresh h₃ fun unique s₄ h₄ _ =>
      .after (prepares_createRole _) h₄ fun role s₅ h₅ _ => .of_total ?_
  obtain ⟨saved, s', hsave⟩ := savePersona_total (h₅.faultless hs).onlyWrites
    { p with qualifiedName := p.tenantId.getD σ.tenant ++ "/" ++ unique, roleId := role.id }
  exact ⟨saved, s', hsave, rfl⟩

theorem updatePersona_settles (hs : s.Faultless) (hkept : s.WellKept) (update : Persona) :
    Settles s PersonaOutcome.report (updatePersona σ update) s := by
  have hrest : ∀ (persona existing : Persona) s₁, Prepares s s₁ → Settles s PersonaOutcome.report (do
      let plan ← planToggle σ persona existing
      let report ← Operation.execute σ.deadlineMs plan.mutations
      let persona ← Operation.savePersona persona
      return ({ persona, report } : PersonaOutcome)) s₁ := by
    intro persona existing s₁ h₁
    have hf := h₁.faultless hs
    have hkept₁ := h₁.wellKept hkept
    refine .of_total (carryOut_total hf hkept₁.authority (planToggle_total hf.onlyWrites σ persona existing)
      (planToggle_plans hkept₁.authority hkept₁.assets existing) fun report t hcomplete ht => ?_)
    obtain ⟨saved, t', hsave⟩ := savePersona_total ht persona
    exact ⟨⟨saved, report⟩, t', by rw [Operation.runOn_bind, hsave]; rfl, hcomplete⟩
  refine .after keeps_check (.refl s) fun _ s₁ h₁ _ =>
    .after (prepares_requirePersona _) h₁ fun existing s₂ h₂ _ => .after keeps_check h₂ fun _ s₃ h₃ _ =>
      .after_when (keeps_throw _) h₃ fun s₄ h₄ => ?_
  have hmembers : ∀ s₅, Prepares s s₅ → Settles s PersonaOutcome.report (do
      if (updatedPersona update existing).users != existing.users ||
          (updatedPersona update existing).groups != existing.groups then
        updateRoleMembers (updatedPersona update existing)
      let plan ← planToggle σ (updatedPersona update existing) existing
      let report ← Operation.execute σ.deadlineMs plan.mutations
      let persona ← Operation.savePersona (updatedPersona update existing)
      return ({ persona, report } : PersonaOutcome)) s₅ :=
    fun s₅ h₅ => .after_when (prepares_updateRoleMembers _) h₅ (hrest _ existing)
  split
  · exact .after keeps_query h₄ fun _ s₅ h₅ _ => .after keeps_check h₅ fun _ s₆ h₆ _ => hmembers s₆ h₆
  · exact hmembers s₄ h₄

theorem deletePersona_settles (hs : s.Faultless) (hkept : s.WellKept) (guid : String) :
    Settles s id (deletePersona σ guid) s := by
  refine .after (prepares_requirePersona guid) (.refl s) fun persona s₁ h₁ _ => .of_total ?_
  have hf := h₁.faultless hs
  have hauthority := (h₁.wellKept hkept).authority
  obtain ⟨plan, hplan⟩ := planClean_total hf.onlyWrites σ persona
  refine carryOut_total hf hauthority ⟨plan, _, hplan⟩ (planClean_plans hauthority)
    fun report t hcomplete ht => ?_
  have hdelete : ∀ t : System, t.faults.OnlyWrites → ∃ a t',
      runOn (do Operation.deletePersona guid; return report) t = (.ok a, t') ∧
        (id a).isComplete = true := by
    intro t ht
    rw [Operation.runOn_bind, Operation.deletePersona,
      runOn_write_passed (ht "delete_persona" guid (by decide))]
    exact ⟨report, _, rfl, hcomplete⟩
  split
  · next roleId _ =>
    rw [Operation.runOn_bind, Operation.deleteRole,
      runOn_write_passed (ht "delete_role" roleId (by decide))]
    exact hdelete _ ht
  · exact hdelete t ht

theorem putPolicy_settles (hs : s.Faultless) (hkept : s.WellKept) (subjects : Subjects) (user : String)
    (policy : PersonaPolicy) :
    Settles s PolicyOutcome.report (putPolicy σ subjects user policy) s := by
  have hchecked : Keeps (Prepares s) (liftM policy.check) fun _ => policy.assets ≠ [] :=
    Operation.keeps_lift fun _ hcheck => assets_ne_nil_of_check hcheck
  refine .after hchecked (.refl s) fun _ s₁ h₁ hassets =>
    .after (prepares_requirePersona _) h₁ fun persona s₂ h₂ _ => .after keeps_check h₂ fun _ s₃ h₃ _ =>
      .after (keeps_priorPolicy policy) h₃ fun prior s₄ h₄ _ =>
        .after (keeps_admitPolicy subjects user policy) h₄ fun _ s₅ h₅ _ => .of_total ?_
  have hf := h₅.faultless hs
  obtain ⟨saved, s₆, hstore⟩ := storePolicy_total hf.onlyWrites persona policy
  have hsaves := storePolicy_ok hstore
  have hf₆ : s₆.Faultless :=
    ⟨hsaves.faults.trans hf.faults, hsaves.authority ▸ hf.failing⟩
  have hauthority : s₆.authority.WellKept := hsaves.authority ▸ (h₅.wellKept hkept).authority
  rw [Operation.runOn_bind, hstore]
  refine carryOut_total hf₆ hauthority (planPolicy_total hf₆.onlyWrites σ persona prior saved)
    (planPolicy_plans hauthority prior ?_) fun report t hcomplete _ => ⟨⟨saved, report⟩, t, rfl, hcomplete⟩
  rw [hsaves.same]
  exact hassets

theorem deletePolicy_settles (hs : s.Faultless) (hkept : s.WellKept) (guid : String) :
    Settles s id (deletePolicy σ guid) s := by
  refine .after keeps_query (.refl s) fun found s₁ h₁ _ => ?_
  split
  · exact ⟨fun _ hb => absurd hb (by simp), fun _ _ => h₁⟩
  next policy =>
  refine .after (prepares_requirePersona _) h₁ fun persona s₂ h₂ _ => .of_total ?_
  have hf := h₂.faultless hs
  have hauthority := (h₂.wellKept hkept).authority
  obtain ⟨plan, hplan⟩ := planStrip_total hf.onlyWrites σ persona policy
  refine carryOut_total hf hauthority ⟨plan, _, hplan⟩ (planStrip_plans hauthority policy)
    fun report t hcomplete ht => ?_
  rw [Operation.runOn_bind, Operation.deletePersonaPolicy,
    runOn_write_passed (ht "delete_persona_policy" guid (by decide))]
  exact ⟨report, _, rfl, hcomplete⟩

/-- A request is carried out all or nothing when its operation settles. -/
theorem Settles.allOrNothing {α : Type} {x : Operation α} {report : α → Report}
    (h : Settles s report x s) (hreport : r.report? σ s = (runOn x s).1.toOption.map report)
    (hrun : r.run σ s = (runOn x s).2) : r.AllOrNothing σ s := by
  obtain ⟨hresult, herror⟩ := h
  cases hx : (runOn x s).1 with
  | ok a =>
    rw [hx] at hreport
    refine ⟨fun found hfound => ?_, fun hnone => ?_⟩
    · exact Option.some.inj (hreport.symm.trans hfound) ▸ hresult a hx
    · exact absurd (hreport.symm.trans hnone) (Option.some_ne_none (report a))
  | error e =>
    rw [hx] at hreport
    refine ⟨fun found hfound => ?_, fun _ => ?_⟩
    · exact absurd (hfound.symm.trans hreport) (Option.some_ne_none found)
    · rw [hrun]
      exact ⟨(herror e hx).policies, (herror e hx).catalog⟩

/-- When no call fails, every request is carried out all or nothing. -/
theorem Request.AllOrNothing.of_faultless (hs : s.Faultless) (hkept : s.WellKept) (r : Request) :
    r.AllOrNothing σ s := by
  cases r with
  | createPersona p => exact (createPersona_settles hs p).allOrNothing rfl rfl
  | updatePersona update => exact (updatePersona_settles hs hkept update).allOrNothing rfl rfl
  | deletePersona guid =>
    exact (deletePersona_settles hs hkept guid).allOrNothing Option.map_id_apply.symm rfl
  | putPolicy subjects user policy =>
    exact (putPolicy_settles hs hkept subjects user policy).allOrNothing rfl rfl
  | deletePolicy guid =>
    exact (deletePolicy_settles hs hkept guid).allOrNothing Option.map_id_apply.symm rfl

end PersonaService

end CatalogAccess
