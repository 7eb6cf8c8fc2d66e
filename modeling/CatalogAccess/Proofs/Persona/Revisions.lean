import CatalogAccess.Proofs.Persona.Reconciliation
import CatalogAccess.Proofs.Uuid

/-!
# What requests make of the catalog

A request writes to the catalog at most once. `Request.Revises` says what this write may be, in one case
for each kind of request, and `Request.run_revises` that every request leaves the catalog as it was or
makes such a write, whether it ends with a result or with an error. What is true of the catalogs that
requests lead to is derived from these cases, such as that every object is stored under its own
identifier.
-/

namespace CatalogAccess

open Operation (runOn Keeps)

namespace PersonaCatalog

/-- The catalog with a persona stored under its identifier. -/
def withPersona (c : PersonaCatalog) (p : Persona) : PersonaCatalog :=
  { c with personas := c.personas.insert p.guid p }

/-- The catalog with a persona policy stored under its identifier. -/
def withPolicy (c : PersonaCatalog) (p : PersonaPolicy) : PersonaCatalog :=
  { c with policies := c.policies.insert p.guid p }

end PersonaCatalog

/-! ### Quiet calls -/

namespace Operation

variable {α β : Type} {s : System} {c : PersonaCatalog} {d : Nat} {Q : α → Prop}

/-- The catalog is the given one, and a number of identifiers have been drawn at least. -/
structure Since (c : PersonaCatalog) (d : Nat) (s : System) : Prop where
  /-- The catalog is the given one. -/
  catalog : s.catalog = c
  /-- So many identifiers have been drawn. -/
  drawn : d ≤ s.drawn

/-- The operation leaves the catalog alone. -/
def Quiet (x : Operation α) : Prop := ∀ c d, Keeps (Since c d) x fun _ => True

theorem Quiet.bind {x : Operation α} {f : α → Operation β} (hx : Quiet x) (hf : ∀ a, Quiet (f a)) :
    Quiet (x >>= f) :=
  fun c d => (hx c d).seq fun a => hf a c d

theorem quiet_pure (a : α) : Quiet (pure a) := fun _ _ => keeps_pure trivial

theorem quiet_read (f : System → Except AccessError α) : Quiet (read f) := fun _ _ => keeps_query

theorem quiet_draw (count : Nat) : Quiet (draw count) :=
  fun _ _ _ hs => ⟨⟨hs.catalog, Nat.le_trans hs.drawn (Nat.le_add_right _ _)⟩, fun _ _ => trivial⟩

/-- A call of the authority leaves the catalog alone. -/
theorem quiet_write {f : System → Except AccessError (α × System)}
    (h : ∀ s a s', f s = .ok (a, s') → s'.catalog = s.catalog ∧ s'.drawn = s.drawn) :
    Quiet (write f) := by
  refine fun _ _ => keeps_write fun s hs a s' hf => ?_
  obtain ⟨hcatalog, hdrawn⟩ := h s a s' hf
  exact ⟨hcatalog.trans hs.catalog, hdrawn ▸ hs.drawn⟩

theorem quiet_foldlM {f : β → α → Operation β} (h : ∀ b a, Quiet (f b a)) (l : List α) (b : β) :
    Quiet (l.foldlM f b) :=
  fun c d => keeps_foldlM (fun b _ a _ => h b a c d) trivial

theorem quiet_synthesize (persona : Persona) (policy : PersonaPolicy) (actions : NameSet) :
    Quiet (synthesize persona policy actions) :=
  (quiet_draw _).bind fun _ => quiet_pure _

/-- Applying mutations leaves the catalog alone. -/
theorem quiet_execute (deadlineMs : Nat) (ms : List Mutation) :
    Quiet (Operation.execute deadlineMs ms) := by
  intro c d s hs
  obtain ⟨a, hsystem, -⟩ := s.execute_leaves deadlineMs ms
  have hleft : (runOn (Operation.execute deadlineMs ms) s).2 = { s with authority := a } := hsystem
  rw [hleft]
  exact ⟨⟨hs.catalog, hs.drawn⟩, fun _ _ => trivial⟩

theorem quiet_createRole (r : Role) : Quiet (createRole r) := by
  refine quiet_write fun s a s' h => ?_
  simp only [Except.bind_eq_ok_iff] at h
  obtain ⟨-, -, b, -, h⟩ := h
  obtain ⟨-, rfl⟩ := Prod.mk.inj (Except.ok.inj h)
  exact ⟨rfl, rfl⟩

theorem quiet_updateRole (r : Role) : Quiet (updateRole r) := by
  refine quiet_write fun s a s' h => ?_
  simp only [Except.bind_eq_ok_iff] at h
  obtain ⟨-, -, b, -, h⟩ := h
  obtain ⟨-, rfl⟩ := Prod.mk.inj (Except.ok.inj h)
  exact ⟨rfl, rfl⟩

theorem quiet_deleteRole (id : String) : Quiet (deleteRole id) := by
  refine quiet_write fun s a s' h => ?_
  rw [Except.bind_eq_ok_iff] at h
  obtain ⟨-, -, h⟩ := h
  obtain ⟨-, rfl⟩ := Prod.mk.inj (Except.ok.inj h)
  exact ⟨rfl, rfl⟩

/-- What is reached from an invariant is reached after a step that keeps it, too. -/
theorem Keeps.then {I J : System → Prop} {x : Operation α} {f : α → Operation β} (hx : Keeps I x Q)
    (hs : I s) (hstop : ∀ s, I s → J s) (hf : ∀ a s, I s → Q a → J (runOn (f a) s).2) :
    J (runOn (x >>= f) s).2 := by
  obtain ⟨hs', hq⟩ := hx s hs
  exact runOn_bind_keeps (hstop _ hs') fun a ha => hf a _ hs' (hq a ha)

/-- So it is after a step that is taken only under a condition. -/
theorem Keeps.then_when {I J : System → Prop} {p : Prop} [Decidable p] {x : Operation Unit}
    {f : Unit → Operation β} (hx : Keeps I x fun _ => True) (hs : I s) (hstop : ∀ s, I s → J s)
    (hf : ∀ s, I s → J (runOn (f ()) s).2) : J (runOn (if p then x >>= f else f ()) s).2 := by
  split
  · exact hx.then hs hstop fun _ s hs _ => hf s hs
  · exact hf s hs

/-- A call that passes its check puts a new state in place of the old one, or changes nothing. -/
theorem runOn_write_checked {check : System → Except AccessError Unit} {f : System → α × System}
    {J : System → Prop} (hkept : J s) (hdone : J (f s).2) :
    J (runOn (write fun s => do check s; return f s) s).2 := by
  unfold runOn write
  dsimp only
  cases check s with
  | error e => exact hkept
  | ok u => exact hdone

end Operation

namespace PersonaService

open Operation

variable {σ : ServiceSettings} {persona : Persona} {s s' s₁ : System}

theorem quiet_planCreate (plan : Plan) (policy : PersonaPolicy) :
    Quiet (planCreate σ persona plan policy) :=
  (quiet_synthesize persona policy _).bind fun _ => quiet_read _

theorem quiet_planUpdate (prior policy : PersonaPolicy) :
    Quiet (planUpdate σ persona prior policy) := by
  refine (quiet_read _).bind fun existing => (quiet_synthesize persona policy _).bind fun qs => ?_
  split
  · exact quiet_read _
  · exact (quiet_read _).bind fun _ => quiet_pure _

theorem quiet_planStrip (policy : PersonaPolicy) : Quiet (planStrip σ persona policy) :=
  (quiet_read _).bind fun _ => quiet_pure _

theorem quiet_planClean : Quiet (planClean σ persona) :=
  (quiet_read _).bind fun _ => (quiet_read _).bind fun _ => quiet_pure _

theorem quiet_planToggle (existing : Persona) : Quiet (planToggle σ persona existing) := by
  unfold planToggle
  split
  · exact quiet_planClean
  · exact (quiet_read _).bind fun policies => quiet_foldlM (fun _ _ => quiet_planCreate _ _) _ _
  · exact quiet_pure _

theorem quiet_planPolicy (prior : Option PersonaPolicy) (saved : PersonaPolicy) :
    Quiet (planPolicy σ persona prior saved) := by
  unfold planPolicy
  split
  · cases prior with
    | none => exact quiet_planCreate _ _
    | some prior => exact quiet_planUpdate _ _
  · exact quiet_pure _

theorem quiet_updateRoleMembers : Quiet (updateRoleMembers persona) := by
  unfold updateRoleMembers
  split
  · exact quiet_pure _
  · refine (quiet_read _).bind fun found => ?_
    split
    · exact fun _ _ => keeps_throw _
    · exact (quiet_updateRole _).bind fun _ => quiet_pure _

/-! ### Saving -/

/-- The identifier is drawn on the way from one system to another. -/
def Draws (s s' : System) (guid : String) : Prop :=
  ∃ n, s.drawn ≤ n ∧ n < s'.drawn ∧ guid = Uuid.ofDraw n

theorem Draws.since {guid : String} (h : Draws s₁ s' guid) (hd : s.drawn ≤ s₁.drawn) :
    Draws s s' guid := by
  obtain ⟨n, hn, hlt, heq⟩ := h
  exact ⟨n, Nat.le_trans hd hn, hlt, heq⟩

/-- An object is stored under the identifier given, or under one that is drawn when none is given. -/
def Assigns (s s' : System) (given guid : String) : Prop :=
  given ≠ "" ∧ guid = given ∨ given = "" ∧ Draws s s' guid

theorem Assigns.since {given guid : String} (h : Assigns s₁ s' given guid)
    (hd : s.drawn ≤ s₁.drawn) : Assigns s s' given guid :=
  h.imp_right fun ⟨hempty, hdraws⟩ => ⟨hempty, hdraws.since hd⟩

/-- Saving a persona stores it, or leaves the catalog as it was. -/
theorem savePersona_revises (p : Persona) :
    let s' := (runOn (Operation.savePersona p) s).2
    s.drawn < s'.drawn ∧ (s'.catalog = s.catalog ∨ ∃ saved : Persona,
      saved = { p with guid := saved.guid } ∧ Assigns s s' p.guid saved.guid ∧
        s'.catalog = s.catalog.withPersona saved) := by
  unfold Operation.savePersona
  rw [Operation.runOn_bind, Operation.runOn_fresh]
  dsimp only
  refine Operation.runOn_write_checked (J := fun s' => s.drawn < s'.drawn ∧
    (s'.catalog = s.catalog ∨ ∃ saved : Persona, saved = { p with guid := saved.guid } ∧
      Assigns s s' p.guid saved.guid ∧ s'.catalog = s.catalog.withPersona saved))
    ⟨Nat.lt_succ_self _, .inl rfl⟩ ⟨Nat.lt_succ_self _, .inr ?_⟩
  simp only [System.withCatalog, PersonaCatalog.savePersona]
  split
  · next hempty =>
    exact ⟨_, rfl, .inr ⟨String.isEmpty_iff.1 hempty, s.drawn, Nat.le_refl _, Nat.lt_succ_self _, rfl⟩,
      rfl⟩
  · next hgiven =>
    exact ⟨p, rfl, .inl ⟨fun hempty => hgiven (String.isEmpty_iff.2 hempty), rfl⟩, rfl⟩

/-- Saving a persona policy stores it, or leaves the catalog as it was. -/
theorem savePersonaPolicy_revises (p : PersonaPolicy) :
    let s' := (runOn (Operation.savePersonaPolicy p) s).2
    s.drawn < s'.drawn ∧ (s'.catalog = s.catalog ∨ ∃ saved : PersonaPolicy,
      saved = { p with guid := saved.guid } ∧ Assigns s s' p.guid saved.guid ∧
        s'.catalog = s.catalog.withPolicy saved) := by
  unfold Operation.savePersonaPolicy
  rw [Operation.runOn_bind, Operation.runOn_fresh]
  dsimp only
  refine Operation.runOn_write_checked (J := fun s' => s.drawn < s'.drawn ∧
    (s'.catalog = s.catalog ∨ ∃ saved : PersonaPolicy, saved = { p with guid := saved.guid } ∧
      Assigns s s' p.guid saved.guid ∧ s'.catalog = s.catalog.withPolicy saved))
    ⟨Nat.lt_succ_self _, .inl rfl⟩ ⟨Nat.lt_succ_self _, .inr ?_⟩
  simp only [System.withCatalog, PersonaCatalog.savePolicy]
  split
  · next hempty =>
    exact ⟨_, rfl, .inr ⟨String.isEmpty_iff.1 hempty, s.drawn, Nat.le_refl _, Nat.lt_succ_self _, rfl⟩,
      rfl⟩
  · next hgiven =>
    exact ⟨p, rfl, .inl ⟨fun hempty => hgiven (String.isEmpty_iff.2 hempty), rfl⟩, rfl⟩

/-! ### Requests -/

/-- What a request may make of the catalog. -/
inductive Request.Revises (s s' : System) : Request → Prop
  /-- The catalog stays as it was. -/
  | kept (r : Request) (hcatalog : s'.catalog = s.catalog) : Revises s s' r
  /-- A persona is stored. The name of its role ends with an identifier drawn for it. -/
  | created (persona saved : Persona) (hsaved : saved = { persona with
        guid := saved.guid, qualifiedName := saved.qualifiedName, roleId := saved.roleId })
      (hguid : Assigns s s' persona.guid saved.guid)
      (hrole : ∃ tenant unique, Draws s s' unique ∧ saved.roleName = tenant ++ "/" ++ unique)
      (hcatalog : s'.catalog = s.catalog.withPersona saved) : Revises s s' (.createPersona persona)
  /-- A stored persona is replaced by what the update makes of it. -/
  | updated (update existing saved : Persona)
      (hexisting : s.catalog.personas.get? update.guid = some existing)
      (hsaved : saved = { updatedPersona update existing with guid := saved.guid })
      (hguid : Assigns s s' update.guid saved.guid)
      (hcatalog : s'.catalog = s.catalog.withPersona saved) : Revises s s' (.updatePersona update)
  /-- A persona is deleted with its policies. -/
  | deleted (guid : String) (hcatalog : s'.catalog = s.catalog.deletePersona guid) :
      Revises s s' (.deletePersona guid)
  /-- A persona policy that has been admitted is stored, completed by what was missing. -/
  | put (subjects : Subjects) (user : String) (persona : Persona) (policy saved : PersonaPolicy)
      (hpersona : s.catalog.personas.get? policy.personaGuid = some persona)
      (hadmitted : Admitted subjects user persona policy s.catalog)
      (hprior : ∀ prior, policy.guid ≠ "" → s.catalog.policies.get? policy.guid = some prior →
        ensureUpdatable policy prior = .ok ())
      (hsaved : saved = { policy with
        guid := saved.guid, qualifiedName := saved.qualifiedName })
      (hguid : Assigns s s' policy.guid saved.guid)
      (hcatalog : s'.catalog = s.catalog.withPolicy saved) :
      Revises s s' (.putPolicy subjects user policy)
  /-- A persona policy is deleted. -/
  | removed (guid : String) (hcatalog : s'.catalog = s.catalog.deletePolicy guid) :
      Revises s s' (.deletePolicy guid)

/-- Where a request may end: it has made of the catalog what it may. -/
def Request.Ends (r : Request) (s s' : System) : Prop := s.drawn ≤ s'.drawn ∧ r.Revises s s'

/-- As long as the catalog is left alone, a request may end. -/
theorem Request.ends_of_since {r : Request} (h : Since s.catalog s.drawn s') : r.Ends s s' :=
  ⟨h.drawn, .kept r h.catalog⟩

/-- Nothing more is made of the catalog by quiet steps. -/
theorem Request.Ends.since {r : Request} (h : r.Ends s s₁) (hcatalog : s'.catalog = s₁.catalog)
    (hdrawn : s₁.drawn ≤ s'.drawn) : r.Ends s s' := by
  have hdraws : ∀ {guid}, Draws s s₁ guid → Draws s s' guid := fun ⟨n, hn, hlt, heq⟩ =>
    ⟨n, hn, Nat.lt_of_lt_of_le hlt hdrawn, heq⟩
  have hassigns : ∀ {given guid}, Assigns s s₁ given guid → Assigns s s' given guid :=
    fun h => h.imp_right fun ⟨hempty, hdrew⟩ => ⟨hempty, hdraws hdrew⟩
  refine ⟨Nat.le_trans h.1 hdrawn, ?_⟩
  cases h.2 with
  | kept r hkept => exact .kept r (hcatalog.trans hkept)
  | created persona saved hsaved hguid hrole hrevised =>
    obtain ⟨tenant, unique, hunique, hname⟩ := hrole
    exact .created persona saved hsaved (hassigns hguid) ⟨tenant, unique, hdraws hunique, hname⟩
      (hcatalog.trans hrevised)
  | updated update existing saved hexisting hsaved hguid hrevised =>
    exact .updated update existing saved hexisting hsaved (hassigns hguid) (hcatalog.trans hrevised)
  | deleted guid hrevised => exact .deleted guid (hcatalog.trans hrevised)
  | put subjects user persona policy saved hpersona hadmitted hprior hsaved hguid hrevised =>
    exact .put subjects user persona policy saved hpersona hadmitted hprior hsaved (hassigns hguid)
      (hcatalog.trans hrevised)
  | removed guid hrevised => exact .removed guid (hcatalog.trans hrevised)

theorem createPersona_ends (p : Persona) :
    (Request.createPersona p).Ends s (runOn (createPersona σ p) s).2 := by
  have hstop : ∀ s', Since s.catalog s.drawn s' → (Request.createPersona p).Ends s s' :=
    fun _ => Request.ends_of_since
  refine keeps_check.then ⟨rfl, Nat.le_refl _⟩ hstop fun _ _ hs _ =>
    keeps_query.then hs hstop fun _ _ hs _ => keeps_check.then hs hstop fun _ s₁ hs₁ _ => ?_
  rw [Operation.runOn_bind, Operation.runOn_fresh]
  dsimp only
  have hdrawn := hs₁.drawn
  refine (quiet_createRole _ s.catalog (s₁.drawn + 1)).then ⟨hs₁.catalog, Nat.le_refl _⟩
    (fun s' hs' => hstop s' ⟨hs'.catalog, Nat.le_of_succ_le (Nat.le_trans (by omega) hs'.drawn)⟩)
    fun role s₂ hs₂ _ => ?_
  have hdrawn₂ := hs₂.drawn
  obtain ⟨hlt, hkept | ⟨saved, hsaved, hguid, hcatalog⟩⟩ := savePersona_revises (s := s₂)
    { p with
      qualifiedName := p.tenantId.getD σ.tenant ++ "/" ++ Uuid.ofDraw s₁.drawn, roleId := role.id }
  · exact hstop _ ⟨hkept.trans hs₂.catalog, by omega⟩
  · have hrole : saved.roleName = p.tenantId.getD σ.tenant ++ "/" ++ Uuid.ofDraw s₁.drawn := by
      rw [hsaved]
      rfl
    refine ⟨by omega, .created p saved ?_ (hguid.since (by omega))
      ⟨_, _, ⟨s₁.drawn, hdrawn, by omega, rfl⟩, hrole⟩ (hs₂.catalog ▸ hcatalog)⟩
    rw [hsaved]

theorem updatePersona_ends (update : Persona) :
    (Request.updatePersona update).Ends s (runOn (updatePersona σ update) s).2 := by
  have hstop : ∀ s', Since s.catalog s.drawn s' → (Request.updatePersona update).Ends s s' :=
    fun _ => Request.ends_of_since
  refine keeps_check.then ⟨rfl, Nat.le_refl _⟩ hstop fun _ _ hs _ =>
    (keeps_storedPersona (fun _ hs => hs.catalog) _).then hs hstop fun existing _ hs hget => ?_
  have hrest : ∀ s₁, Since s.catalog s.drawn s₁ → (Request.updatePersona update).Ends s (runOn (do
      let persona := updatedPersona update existing
      if persona.users != existing.users || persona.groups != existing.groups then
        updateRoleMembers persona
      let plan ← planToggle σ persona existing
      let report ← Operation.execute σ.deadlineMs plan.mutations
      let persona ← Operation.savePersona persona
      return ({ persona, report } : PersonaOutcome)) s₁).2 := by
    intro s₁ hs₁
    refine Keeps.then_when (quiet_updateRoleMembers _ _) hs₁ hstop fun _ hs =>
      (quiet_planToggle existing _ _).then hs hstop fun plan _ hs _ =>
        (quiet_execute _ _ _ _).then hs hstop fun report s₂ hs₂ _ => ?_
    obtain ⟨hlt, hrevised⟩ := savePersona_revises (s := s₂) (updatedPersona update existing)
    have hdrawn := hs₂.drawn
    have hends : (Request.updatePersona update).Ends s
        (runOn (Operation.savePersona (updatedPersona update existing)) s₂).2 := by
      rcases hrevised with hkept | ⟨saved, hsaved, hguid, hcatalog⟩
      · exact hstop _ ⟨hkept.trans hs₂.catalog, by omega⟩
      · exact ⟨by omega, .updated update existing saved hget hsaved (hguid.since hdrawn)
          (hs₂.catalog ▸ hcatalog)⟩
    exact runOn_bind_keeps hends fun _ _ => hends
  refine keeps_check.then hs hstop fun _ _ hs _ =>
    Keeps.then_when (keeps_throw _) hs hstop fun _ hs => ?_
  split
  · exact keeps_query.then hs hstop fun _ _ hs _ => keeps_check.then hs hstop fun _ s₁ hs₁ _ =>
      hrest s₁ hs₁
  · exact hrest _ hs

theorem deletePersona_ends (guid : String) :
    (Request.deletePersona guid).Ends s (runOn (deletePersona σ guid) s).2 := by
  have hstop : ∀ s', Since s.catalog s.drawn s' → (Request.deletePersona guid).Ends s s' :=
    fun _ => Request.ends_of_since
  refine (keeps_requirePersona _).then ⟨rfl, Nat.le_refl _⟩ hstop fun persona _ hs _ =>
    (quiet_planClean _ _).then hs hstop fun plan _ hs _ =>
      (quiet_execute _ _ _ _).then hs hstop fun report _ hs _ => ?_
  have hrest : ∀ s₁, Since s.catalog s.drawn s₁ → (Request.deletePersona guid).Ends s
      (runOn (do Operation.deletePersona guid; return report) s₁).2 := by
    intro s₁ hs₁
    have hends : (Request.deletePersona guid).Ends s (runOn (Operation.deletePersona guid) s₁).2 :=
      runOn_write_checked (hstop s₁ hs₁)
        ⟨hs₁.drawn, .deleted guid (congrArg (·.deletePersona guid) hs₁.catalog)⟩
    exact runOn_bind_keeps hends fun _ _ => hends
  split
  · exact (quiet_deleteRole _ _ _).then hs hstop fun _ s₁ hs₁ _ => hrest s₁ hs₁
  · exact hrest _ hs

/-- What is found of an earlier version may be updated. -/
theorem keeps_priorPolicy_updatable (policy : PersonaPolicy) {c : PersonaCatalog} {d : Nat} :
    Keeps (Since c d) (priorPolicy policy) fun _ => ∀ prior, policy.guid ≠ "" →
      c.policies.get? policy.guid = some prior → ensureUpdatable policy prior = .ok () := by
  unfold priorPolicy
  split
  · next hempty => exact keeps_pure fun _ hguid => absurd (String.isEmpty_iff.1 hempty) hguid
  · refine (keeps_read (Q := fun found => c.policies.get? policy.guid = found)
      fun s hs found hread => ?_).bind fun found hfound => ?_
    · unfold System.personaPolicy? at hread
      rw [Except.bind_eq_ok_iff] at hread
      obtain ⟨-, -, hget⟩ := hread
      rw [← hs.catalog]
      exact Except.ok.inj hget
    · cases found with
      | none =>
        refine keeps_pure fun prior _ hprior => ?_
        exact absurd (hfound.symm.trans hprior).symm (Option.some_ne_none prior)
      | some p =>
        refine (keeps_lift (Q := fun _ => ensureUpdatable policy p = .ok ()) fun _ h => h).bind
          fun _ hupdatable => keeps_pure fun prior _ hprior => ?_
        obtain rfl := Option.some.inj (hfound.symm.trans hprior)
        exact hupdatable

/-- Storing a policy that has been admitted is all that the request makes of the catalog. -/
theorem storePolicy_ends {subjects : Subjects} {user : String} {policy : PersonaPolicy}
    (hpersona : s.catalog.personas.get? policy.personaGuid = some persona)
    (hadmitted : Admitted subjects user persona policy s.catalog)
    (hprior : ∀ prior, policy.guid ≠ "" → s.catalog.policies.get? policy.guid = some prior →
      ensureUpdatable policy prior = .ok ()) (hs : Since s.catalog s.drawn s₁) :
    (Request.putPolicy subjects user policy).Ends s (runOn (storePolicy persona policy) s₁).2 := by
  have hdrawn := hs.drawn
  unfold storePolicy
  rw [Operation.runOn_bind, Operation.runOn_fresh]
  dsimp only
  generalize hnamed : (if policy.qualifiedName.isEmpty then
    { policy with qualifiedName := persona.qualifiedName ++ "/" ++ Uuid.ofDraw s₁.drawn }
    else policy) = named
  have hsame : named = { policy with qualifiedName := named.qualifiedName } := by
    rw [← hnamed]
    split <;> rfl
  obtain ⟨hlt, hrevised⟩ :=
    savePersonaPolicy_revises (s := { s₁ with drawn := s₁.drawn + 1 }) named
  dsimp only at hlt
  rcases hrevised with hkept | ⟨saved, hsaved, hguid, hcatalog⟩
  · exact Request.ends_of_since ⟨hkept.trans hs.catalog, by omega⟩
  · refine ⟨by omega, .put subjects user persona policy saved hpersona hadmitted hprior ?_ ?_
      (hcatalog.trans (congrArg (·.withPolicy saved) hs.catalog))⟩
    · have hqualified : saved.qualifiedName = named.qualifiedName := by rw [hsaved]
      rw [hqualified]
      exact hsaved.trans (by rw [hsame])
    · have hgiven : named.guid = policy.guid := by rw [hsame]
      exact hgiven ▸ hguid.since (Nat.le_succ_of_le hdrawn)

theorem putPolicy_ends (subjects : Subjects) (user : String) (policy : PersonaPolicy) :
    (Request.putPolicy subjects user policy).Ends s
      (runOn (putPolicy σ subjects user policy) s).2 := by
  have hstop : ∀ s', Since s.catalog s.drawn s' →
      (Request.putPolicy subjects user policy).Ends s s' := fun _ => Request.ends_of_since
  refine Keeps.then (keeps_lift (Q := fun _ => policy.check = .ok ()) fun _ h => h)
    ⟨rfl, Nat.le_refl _⟩ hstop fun _ _ hs hcheck =>
    (keeps_storedPersona (fun _ hs => hs.catalog) _).then hs hstop fun persona _ hs hget =>
    Keeps.then (keeps_lift (Q := fun _ => requireActive persona = .ok ()) fun _ h => h) hs hstop
      fun _ _ hs hactive => (keeps_priorPolicy_updatable policy).then hs hstop
        fun prior _ hs hprior => ?_
  have hadmits : Keeps (Since s.catalog s.drawn) (admitPolicy subjects user persona policy)
      fun _ => Admitted subjects user persona policy s.catalog := by
    refine Keeps.promise (keeps_admitPolicy subjects user policy) fun s₁ _ _ hs₁ hrun => ?_
    obtain ⟨hname, hadmin, hassets, -⟩ := admitPolicy_ok hrun
    rw [hs₁.catalog] at hname hassets
    exact ⟨hcheck, hactive, hname, hadmin, hassets⟩
  refine hadmits.then hs hstop fun _ s₁ hs₁ hadmitted => ?_
  -- Whatever comes after the policy is stored leaves the catalog alone.
  have hends := storePolicy_ends hget hadmitted hprior hs₁
  refine runOn_bind_keeps hends fun saved _ => ?_
  have hquiet : Quiet (do
      let plan ← planPolicy σ persona prior saved
      let report ← Operation.execute σ.deadlineMs plan.mutations
      return ({ policy := saved, report } : PolicyOutcome)) :=
    (quiet_planPolicy prior saved).bind fun _ => (quiet_execute _ _).bind fun _ => quiet_pure _
  generalize (runOn (storePolicy persona policy) s₁).2 = s₂ at hends ⊢
  obtain ⟨hcatalog, hdrawn⟩ := (hquiet s₂.catalog s₂.drawn s₂ ⟨rfl, Nat.le_refl _⟩).1
  exact hends.since hcatalog hdrawn

theorem deletePolicy_ends (guid : String) :
    (Request.deletePolicy guid).Ends s (runOn (deletePolicy σ guid) s).2 := by
  have hstop : ∀ s', Since s.catalog s.drawn s' → (Request.deletePolicy guid).Ends s s' :=
    fun _ => Request.ends_of_since
  refine keeps_query.then ⟨rfl, Nat.le_refl _⟩ hstop fun found s₀ hs _ => ?_
  split
  · exact hstop _ hs
  · refine (keeps_requirePersona _).then hs hstop fun persona _ hs _ =>
      (quiet_planStrip _ _ _).then hs hstop fun plan _ hs _ =>
        (quiet_execute _ _ _ _).then hs hstop fun report s₁ hs₁ _ => ?_
    have hends : (Request.deletePolicy guid).Ends s
        (runOn (Operation.deletePersonaPolicy guid) s₁).2 :=
      runOn_write_checked (hstop s₁ hs₁)
        ⟨hs₁.drawn, .removed guid (congrArg (·.deletePolicy guid) hs₁.catalog)⟩
    exact runOn_bind_keeps hends fun _ _ => hends

/-- Whatever a request ends with, it has made of the catalog what it may. -/
theorem Request.run_revises (σ : ServiceSettings) (s : System) (r : Request) :
    r.Ends s (r.run σ s) := by
  cases r with
  | createPersona persona => exact createPersona_ends persona
  | updatePersona update => exact updatePersona_ends update
  | deletePersona guid => exact deletePersona_ends guid
  | putPolicy subjects user policy => exact putPolicy_ends subjects user policy
  | deletePolicy guid => exact deletePolicy_ends guid

end PersonaService

end CatalogAccess
