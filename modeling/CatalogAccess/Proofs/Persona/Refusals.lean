import CatalogAccess.Proofs.Persona.Completion

/-!
# Requests that are refused

A request that ends with an error has changed neither store (`PersonaService.Request.refused_unchanged`),
whatever the stores are like, and also when writes of policies fail. The reason is an order: everything
that may refuse a request comes before its first write, or is that write itself (`Operation.Refuses`).
From there on planning reads what can be read (`carryOut_goes_through`), failed writes of a plan are
reported, and the catalog takes what it is given.
-/

namespace CatalogAccess

open Operation (runOn Keeps Refuses keeps_check keeps_query keeps_throw)

/-- Nothing but identifiers has been drawn. -/
def System.OnlyDraws (s s' : System) : Prop :=
  ∃ drawn, s' = { s with drawn }

namespace System.OnlyDraws

variable {s s' : System}

theorem refl (s : System) : s.OnlyDraws s := ⟨s.drawn, rfl⟩

theorem catalog (h : s.OnlyDraws s') : s'.catalog = s.catalog := by
  obtain ⟨drawn, rfl⟩ := h
  rfl

/-- Drawing an identifier makes no call fail. -/
theorem onlyWrites (h : s.OnlyDraws s') (hf : s.faults.OnlyWrites) : s'.faults.OnlyWrites := by
  obtain ⟨drawn, rfl⟩ := h
  exact hf

end System.OnlyDraws

namespace PersonaService

variable {σ : ServiceSettings} {s t : System} {r : Request} {persona : Persona} {α : Type}

/-- The error that a request ends with, if it ends with one. -/
def Request.error? (σ : ServiceSettings) (s : System) : Request → Option AccessError
  | createPersona persona => errorOf (runOn (PersonaService.createPersona σ persona) s).1
  | updatePersona update => errorOf (runOn (PersonaService.updatePersona σ update) s).1
  | deletePersona guid => errorOf (runOn (PersonaService.deletePersona σ guid) s).1
  | putPolicy subjects user policy =>
    errorOf (runOn (PersonaService.putPolicy σ subjects user policy) s).1
  | deletePolicy guid => errorOf (runOn (PersonaService.deletePolicy σ guid) s).1
where
  /-- The error in place of a result. -/
  errorOf {α : Type} : Except AccessError α → Option AccessError
    | .ok _ => none
    | .error e => some e

/-! ### Before the first write -/

theorem onlyDraws_fresh : Keeps s.OnlyDraws Operation.fresh fun _ => True := by
  rintro _ ⟨drawn, rfl⟩
  exact ⟨⟨drawn + 1, rfl⟩, fun _ _ => trivial⟩

/-- The members of a role are refused when the role is missing. -/
theorem updateRoleMembers_refuses (hs : s.OnlyDraws t) (p : Persona) :
    Refuses s.OnlyDraws (updateRoleMembers p) t := by
  unfold updateRoleMembers
  split
  · exact .of_total ⟨(), t, rfl⟩
  · refine .after keeps_query hs fun found t₁ h₁ _ => ?_
    split
    · exact fun _ _ => h₁
    · exact .before (.write h₁) (J := fun _ => True) (Q := fun _ => True)
        (fun _ _ => ⟨trivial, fun _ _ => trivial⟩) trivial fun _ t₂ _ => ⟨(), t₂, rfl⟩

/-! ### From the first write on -/

/-- When planning goes through and what follows does, so does carrying out the plan in between, whether
or not its writes do. -/
theorem carryOut_goes_through (hf : s.faults.OnlyWrites) {x : Operation Plan}
    (hplan : ∃ plan drawn, runOn x s = (.ok plan, { s with drawn })) {f : Report → Operation α}
    (hrest : ∀ report t, t.faults.OnlyWrites → ∃ a t', runOn (f report) t = (.ok a, t')) :
    ∃ a s', runOn (do
      let plan ← x
      let report ← Operation.execute σ.deadlineMs plan.mutations
      f report) s = (.ok a, s') := by
  obtain ⟨plan, drawn, hplan⟩ := hplan
  obtain ⟨authority, hrun⟩ := runOn_carryOut (σ := σ) hplan f
  obtain ⟨a, s', hdone⟩ := hrest _ { s with drawn, authority } hf
  exact ⟨a, s', hrun.trans hdone⟩

/-- Toggling a persona and saving it goes through. -/
theorem toggle_goes_through (hf : s.faults.OnlyWrites) (persona existing : Persona) :
    ∃ o s', runOn (do
      let plan ← planToggle σ persona existing
      let report ← Operation.execute σ.deadlineMs plan.mutations
      let persona ← Operation.savePersona persona
      return ({ persona, report } : PersonaOutcome)) s = (.ok o, s') := by
  refine carryOut_goes_through hf (planToggle_total hf σ persona existing) fun report t ht => ?_
  obtain ⟨saved, t', hsave⟩ := savePersona_total ht persona
  exact ⟨⟨saved, report⟩, t', by rw [Operation.runOn_bind, hsave]; rfl⟩

/-! ### Requests -/

theorem createPersona_refuses (hf : s.faults.OnlyWrites) (p : Persona) :
    Refuses s.OnlyDraws (createPersona σ p) s := by
  refine .after keeps_check (.refl s) fun _ s₁ h₁ _ => .after keeps_query h₁ fun _ s₂ h₂ _ =>
    .after keeps_check h₂ fun _ s₃ h₃ _ => .after onlyDraws_fresh h₃ fun unique s₄ h₄ _ =>
      .before (.write h₄) (prepares_createRole _) (.refl s₄) fun role s₅ h₅ => ?_
  have hf₅ : s₅.faults.OnlyWrites := by
    rw [h₅.faults]
    exact h₄.onlyWrites hf
  exact savePersona_total hf₅ _

theorem updatePersona_refuses (hf : s.faults.OnlyWrites) (update : Persona) :
    Refuses s.OnlyDraws (updatePersona σ update) s := by
  have hmembers : ∀ (existing : Persona) (s₁ : System), s.OnlyDraws s₁ → Refuses s.OnlyDraws (do
      if (updatedPersona update existing).users != existing.users ||
          (updatedPersona update existing).groups != existing.groups then
        updateRoleMembers (updatedPersona update existing)
      let plan ← planToggle σ (updatedPersona update existing) existing
      let report ← Operation.execute σ.deadlineMs plan.mutations
      let persona ← Operation.savePersona (updatedPersona update existing)
      return ({ persona, report } : PersonaOutcome)) s₁ := by
    intro existing s₁ h₁
    have hf₁ := h₁.onlyWrites hf
    split
    · refine .before (updateRoleMembers_refuses h₁ _) (prepares_updateRoleMembers _) (.refl s₁)
        fun _ s₂ h₂ => toggle_goes_through ?_ _ existing
      rw [h₂.faults]
      exact hf₁
    · exact .of_total (toggle_goes_through hf₁ _ existing)
  refine .after keeps_check (.refl s) fun _ s₁ h₁ _ =>
    .after (keeps_requirePersona _) h₁ fun existing s₂ h₂ _ => .after keeps_check h₂ fun _ s₃ h₃ _ =>
      .after_when (keeps_throw _) h₃ fun s₄ h₄ => ?_
  split
  · exact .after keeps_query h₄ fun _ s₅ h₅ _ => .after keeps_check h₅ fun _ s₆ h₆ _ =>
      hmembers existing s₆ h₆
  · exact hmembers existing s₄ h₄

theorem deletePersona_refuses (hf : s.faults.OnlyWrites) (guid : String) :
    Refuses s.OnlyDraws (deletePersona σ guid) s := by
  refine .after (keeps_requirePersona guid) (.refl s) fun persona s₁ h₁ _ => .of_total ?_
  have hf₁ := h₁.onlyWrites hf
  obtain ⟨plan, hplan⟩ := planClean_total hf₁ σ persona
  refine carryOut_goes_through hf₁ ⟨plan, _, hplan⟩ fun report t ht => ?_
  have hdelete : ∀ t : System, t.faults.OnlyWrites → ∃ a t',
      runOn (do Operation.deletePersona guid; return report) t = (.ok a, t') := by
    intro t ht
    rw [Operation.runOn_bind, Operation.deletePersona,
      runOn_write_passed (ht "delete_persona" guid (by decide))]
    exact ⟨report, _, rfl⟩
  split
  · next roleId _ =>
    rw [Operation.runOn_bind, Operation.deleteRole,
      runOn_write_passed (ht "delete_role" roleId (by decide))]
    exact hdelete _ ht
  · exact hdelete t ht

theorem putPolicy_refuses (hf : s.faults.OnlyWrites) (subjects : Subjects) (user : String)
    (policy : PersonaPolicy) : Refuses s.OnlyDraws (putPolicy σ subjects user policy) s := by
  refine .after keeps_check (.refl s) fun _ s₁ h₁ _ =>
    .after (keeps_requirePersona _) h₁ fun persona s₂ h₂ _ => .after keeps_check h₂ fun _ s₃ h₃ _ =>
      .after (keeps_priorPolicy policy) h₃ fun prior s₄ h₄ _ =>
        .after (keeps_admitPolicy subjects user policy) h₄ fun _ s₅ h₅ _ => .of_total ?_
  have hf₅ := h₅.onlyWrites hf
  obtain ⟨saved, s₆, hstore⟩ := storePolicy_total hf₅ persona policy
  have hf₆ : s₆.faults.OnlyWrites := by
    rw [(storePolicy_ok hstore).faults]
    exact hf₅
  rw [Operation.runOn_bind, hstore]
  exact carryOut_goes_through hf₆ (planPolicy_total hf₆ σ persona prior saved)
    fun report t _ => ⟨⟨saved, report⟩, t, rfl⟩

theorem deletePolicy_refuses (hf : s.faults.OnlyWrites) (guid : String) :
    Refuses s.OnlyDraws (deletePolicy σ guid) s := by
  refine .after keeps_query (.refl s) fun found s₁ h₁ _ => ?_
  split
  · exact fun _ _ => h₁
  next policy =>
  refine .after (keeps_requirePersona _) h₁ fun persona s₂ h₂ _ => .of_total ?_
  have hf₂ := h₂.onlyWrites hf
  obtain ⟨plan, hplan⟩ := planStrip_total hf₂ σ persona policy
  refine carryOut_goes_through hf₂ ⟨plan, _, hplan⟩ fun report t ht => ?_
  rw [Operation.runOn_bind, Operation.deletePersonaPolicy,
    runOn_write_passed (ht "delete_persona_policy" guid (by decide))]
  exact ⟨report, _, rfl⟩

/-- A request that ends with an error has drawn identifiers at most. -/
theorem Request.error_onlyDraws (hf : s.faults.OnlyWrites) {e : AccessError}
    (h : r.error? σ s = some e) : s.OnlyDraws (r.run σ s) := by
  have hrefuses : ∀ {α : Type} {x : Operation α}, Refuses s.OnlyDraws x s →
      Request.error?.errorOf (runOn x s).1 = some e → s.OnlyDraws (runOn x s).2 := by
    intro α x hx herror
    cases hrun : (runOn x s).1 with
    | ok a => rw [hrun] at herror; exact absurd herror.symm (Option.some_ne_none e)
    | error e => exact hx e hrun
  cases r with
  | createPersona p => exact hrefuses (createPersona_refuses hf p) h
  | updatePersona update => exact hrefuses (updatePersona_refuses hf update) h
  | deletePersona guid => exact hrefuses (deletePersona_refuses hf guid) h
  | putPolicy subjects user policy => exact hrefuses (putPolicy_refuses hf subjects user policy) h
  | deletePolicy guid => exact hrefuses (deletePolicy_refuses hf guid) h

/-- A request that ends with an error leaves the stores as they were: the authority, with its policies
and its roles, and the catalog, with its personas and persona policies. This holds of any stores, also
of such as no requests lead to, and when writes of policies fail; other calls must not fail, which the
stores never do by themselves. -/
theorem Request.refused_unchanged (hf : s.faults.OnlyWrites) {e : AccessError}
    (h : r.error? σ s = some e) :
    (r.run σ s).authority = s.authority ∧ (r.run σ s).catalog = s.catalog := by
  obtain ⟨drawn, hsame⟩ := Request.error_onlyDraws hf h
  rw [hsame]
  exact ⟨rfl, rfl⟩

/-- The system after a persona and a policy for it have been created, when the role of the persona is
gone and writes of the concrete policies fail. -/
def bereft : System :=
  let s := Request.run {} {} (.createPersona { guid := "stewards", name := "stewards" })
  let s := Request.run {} s (.putPolicy {} "" (termsPolicy "finance"))
  { s with
    faults := {}
    authority := { s.authority with
      roles := ∅, failing := NameSet.ofList (s.authority.policies.values.map Policy.name) } }

/-- New members are refused when the role of the persona is missing. -/
theorem members_refused_without_role :
    bereft.authority.policies.values ≠ [] ∧
    ∃ e, (Request.updatePersona { guid := "stewards", name := "stewards", users := ["ann"] }).error? {}
      bereft = some e ∧
    (Request.run {} bereft (.updatePersona
      { guid := "stewards", name := "stewards", users := ["ann"] })).authority = bereft.authority ∧
    (Request.run {} bereft (.updatePersona
      { guid := "stewards", name := "stewards", users := ["ann"] })).catalog = bereft.catalog := by
  have herror : (Request.updatePersona { guid := "stewards", name := "stewards", users := ["ann"] }).error?
      {} bereft = some (.notFound "role role-0001") := by decide +kernel
  exact ⟨by decide +kernel, _, herror, Request.refused_unchanged (fun _ _ _ => rfl) herror⟩

end PersonaService

end CatalogAccess
