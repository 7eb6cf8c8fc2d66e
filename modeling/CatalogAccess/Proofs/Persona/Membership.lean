import CatalogAccess.Proofs.Batches
import CatalogAccess.Proofs.Persona.Orderly
import CatalogAccess.Proofs.Persona.Refusals

/-!
# Every persona has a role with its members

The members of a persona are held twice: by the persona in the catalog, and by its role in the
authority. `Authority.BacksAll` says that the two agree for all personas of a catalog. A request
writes the authority first and the catalog last, and in between the authority backs the catalog that
the request is about to leave. Once a role has been written everything goes through that is needed
to get there (`carryOut_stands`), although writes of policies may fail. So requests keep the personas
backed (`Request.run_backed`), and `System.Led.backed` says it of all systems that they lead to.
-/

namespace CatalogAccess

open Operation (runOn Keeps keeps_check keeps_query keeps_throw runOn_bind_keeps)

/-! ### Roles that stand behind personas -/

namespace Authority

/-- The role of a persona is stored under the identifier that the persona has for it, with the name and
the members of the persona. -/
def Backs (a : Authority) (p : Persona) : Prop :=
  ∃ id role, p.roleId = some id ∧ a.roles.get? id = some role ∧ role.id = some id ∧
    role.name = p.roleName ∧ role.users = p.users ∧ role.groups = p.groups

/-- All personas of a catalog have their roles. -/
structure BacksAll (a : Authority) (c : PersonaCatalog) : Prop where
  /-- Every persona has its role. -/
  backed : ∀ guid p, c.personas.get? guid = some p → a.Backs p
  /-- Roles are stored under identifiers that have been assigned. -/
  assigned : ∀ id role, a.roles.get? id = some role → ∃ n, n ≤ a.lastId ∧ id = identifier "role" n

variable {a a' : Authority} {c c' : PersonaCatalog} {p : Persona} {id : String} {role : Role}

/-- Where roles and personas are the same, nothing changes. -/
theorem BacksAll.of_same (h : a.BacksAll c) (hroles : a'.roles = a.roles)
    (hlast : a.lastId ≤ a'.lastId) (hpersonas : c'.personas = c.personas) : a'.BacksAll c' := by
  refine ⟨fun guid p hp => ?_, fun id role hrole => ?_⟩
  · rw [hpersonas] at hp
    obtain ⟨id, role, hid, hrole, hrest⟩ := h.backed guid p hp
    exact ⟨id, role, hid, hroles ▸ hrole, hrest⟩
  · rw [hroles] at hrole
    obtain ⟨n, hn, hid⟩ := h.assigned id role hrole
    exact ⟨n, Nat.le_trans hn hlast, hid⟩

/-- A persona may be stored that has its role. -/
theorem BacksAll.withPersona (h : a.BacksAll c) (hp : a.Backs p) : a.BacksAll (c.withPersona p) := by
  refine ⟨fun guid q hq => ?_, h.assigned⟩
  obtain ⟨-, rfl⟩ | ⟨-, hold⟩ := NameMap.get?_insert_eq_some.1 hq
  · exact hp
  · exact h.backed guid q hold

/-- A role may be stored under the next identifier: no persona has it. -/
theorem BacksAll.createRole (h : a.BacksAll c) (role : Role) :
    BacksAll { a with
      lastId := a.lastId + 1, roles := a.roles.insert (a.nextId "role") role } c := by
  refine ⟨fun guid p hp => ?_, fun id found hfound => ?_⟩
  · obtain ⟨id, found, hid, hfound, hrest⟩ := h.backed guid p hp
    -- Identifiers that have been assigned have lower numbers than the next one.
    have hother : id ≠ a.nextId "role" := by
      rintro rfl
      obtain ⟨n, hn, heq⟩ := h.assigned _ found hfound
      have := identifier_injective heq
      omega
    exact ⟨id, found, hid, NameMap.get?_insert_eq_some.2 (.inr ⟨hother, hfound⟩), hrest⟩
  · obtain ⟨rfl, -⟩ | ⟨-, hold⟩ := NameMap.get?_insert_eq_some.1 hfound
    · exact ⟨a.lastId + 1, Nat.le_refl _, rfl⟩
    · obtain ⟨n, hn, heq⟩ := h.assigned id found hold
      exact ⟨n, Nat.le_succ_of_le hn, heq⟩

/-- Personas with different identifiers have different roles: the names of these are different. -/
theorem BacksAll.roleId_ne {d : Nat} (h : a.BacksAll c) (hc : c.InOrder d) {guid guid' : String}
    {p' : Persona} (hp : c.personas.get? guid = some p) (hp' : c.personas.get? guid' = some p')
    (hne : guid ≠ guid') : p.roleId ≠ p'.roleId := by
  intro hsame
  obtain ⟨id, role, hid, hrole, -, hname, -⟩ := h.backed guid p hp
  obtain ⟨id', role', hid', hrole', -, hname', -⟩ := h.backed guid' p' hp'
  obtain rfl : id = id' := Option.some.inj (hid.symm.trans (hsame.trans hid'))
  obtain rfl : role = role' := Option.some.inj (hrole.symm.trans hrole')
  exact hne (hc.roles _ _ _ _ hp hp' (hname.symm.trans hname'))

/-- The members of a persona may be changed together with those of its role, which no other persona
has. -/
theorem BacksAll.updateRole {d : Nat} (h : a.BacksAll c) (hc : c.InOrder d) {existing : Persona}
    (hexisting : c.personas.get? p.guid = some existing) (hsame : p.roleId = existing.roleId)
    (hid : p.roleId = some id) (hrole : a.roles.get? id = some role) (hown : role.id = some id)
    (hname : role.name = p.roleName) :
    BacksAll { a with
      roles := a.roles.insert id { role with users := p.users, groups := p.groups } }
      (c.withPersona p) := by
  refine ⟨fun guid q hq => ?_, fun x found hfound => ?_⟩
  · obtain ⟨-, rfl⟩ | ⟨hother, hold⟩ := NameMap.get?_insert_eq_some.1 hq
    · exact ⟨id, _, hid, NameMap.get?_insert_eq_some.2 (.inl ⟨rfl, rfl⟩), hown, hname, rfl, rfl⟩
    · obtain ⟨x, found, hx, hfound, hrest⟩ := h.backed guid q hold
      have hdiffer : x ≠ id := by
        rintro rfl
        exact h.roleId_ne hc hold hexisting hother (hx.trans (hid.symm.trans hsame))
      exact ⟨x, found, hx, NameMap.get?_insert_eq_some.2 (.inr ⟨hdiffer, hfound⟩), hrest⟩
  · obtain ⟨rfl, -⟩ | ⟨-, hold⟩ := NameMap.get?_insert_eq_some.1 hfound
    · exact h.assigned x role hrole
    · exact h.assigned x found hold

/-- The role of a persona may be deleted together with the persona. -/
theorem BacksAll.deleteRole {d : Nat} (h : a.BacksAll c) (hc : c.InOrder d) {guid : String}
    (hp : c.personas.get? guid = some p) (hid : p.roleId = some id) :
    (a.deleteRole id).BacksAll (c.deletePersona guid) := by
  refine ⟨fun x q hq => ?_, fun x found hfound => ?_⟩
  · obtain ⟨hother, hold⟩ := NameMap.get?_erase_eq_some.1 hq
    obtain ⟨y, found, hy, hfound, hrest⟩ := h.backed x q hold
    have hdiffer : y ≠ id := by
      rintro rfl
      exact h.roleId_ne hc hold hp hother (hy.trans hid.symm)
    exact ⟨y, found, hy, NameMap.get?_erase_eq_some.2 ⟨hdiffer, hfound⟩, hrest⟩
  · exact h.assigned x found (NameMap.get?_erase_eq_some.1 hfound).2

end Authority

/-! ### What planning and writing policies leave alone -/

namespace System

variable {s t : System}

/-- The roles and the catalog stand as they were, and so do the faults of calls. -/
structure Stands (s t : System) : Prop where
  /-- The roles stay. -/
  roles : t.authority.roles = s.authority.roles
  /-- Identifiers may be assigned. -/
  lastId : s.authority.lastId ≤ t.authority.lastId
  /-- The catalog stays. -/
  catalog : t.catalog = s.catalog
  /-- The faults stay. -/
  faults : t.faults = s.faults

/-- Attempted mutations write policies and nothing else. -/
theorem execute_stands (s : System) (deadlineMs : Nat) (ms : List Mutation) :
    s.Stands (s.execute deadlineMs ms).2 := by
  unfold execute
  generalize ({} : Report) = r
  induction ms generalizing r s with
  | nil => exact ⟨rfl, Nat.le_refl _, rfl, rfl⟩
  | cons m ms ih =>
    rw [List.foldl_cons, attempt_eq]
    cases s.failure? deadlineMs m with
    | some f => exact ih s _
    | none =>
      obtain ⟨hroles, hlast, hcatalog, hfaults⟩ := ih { s with authority := s.authority.after m } _
      exact ⟨hroles.trans Authority.after_roles, Nat.le_trans Authority.lastId_le_after hlast, hcatalog,
        hfaults⟩

/-- The personas of the catalog have their roles. -/
def Backed (s : System) : Prop := s.authority.BacksAll s.catalog

theorem Backed.of_onlyDraws (h : s.Backed) (hdraws : s.OnlyDraws t) : t.Backed := by
  obtain ⟨drawn, rfl⟩ := hdraws
  exact h

end System

namespace PersonaService

variable {σ : ServiceSettings} {s t : System} {r : Request} {persona existing : Persona} {α : Type}

/-- When planning goes through, what follows a plan that is carried out meets the roles and the catalog
that the plan was made on, whether or not writes of policies fail. -/
theorem carryOut_stands {x : Operation Plan} {f : Report → Operation α} {J : System → Prop}
    (hplan : ∃ plan drawn, runOn x s = (.ok plan, { s with drawn }))
    (hrest : ∀ report t, s.Stands t → J (runOn (f report) t).2) :
    J (runOn (do
      let plan ← x
      let report ← Operation.execute σ.deadlineMs plan.mutations
      f report) s).2 := by
  obtain ⟨plan, drawn, hplan⟩ := hplan
  rw [Operation.runOn_bind, hplan]
  obtain ⟨hroles, hlast, hcatalog, hfaults⟩ :=
    ({ s with drawn } : System).execute_stands σ.deadlineMs plan.mutations
  exact hrest _ _ ⟨hroles, hlast, hcatalog, hfaults⟩

/-! ### Requests -/

/-- A role that is created is stored under the next identifier. -/
theorem createRole_ok {role created : Role} (h : runOn (Operation.createRole role) s = (.ok created, t)) :
    created = { role with id := some (s.authority.nextId "role") } ∧
      t = { s with authority := { s.authority with
        lastId := s.authority.lastId + 1
        roles := s.authority.roles.insert (s.authority.nextId "role") created } } := by
  unfold Operation.createRole Authority.createRole at h
  simp only [Operation.runOn_write_ok, Except.bind_eq_ok_iff] at h
  obtain ⟨-, -, b, hb, h⟩ := h
  split at hb
  · exact absurd hb (by simp)
  · obtain rfl := Except.ok.inj hb
    obtain ⟨rfl, rfl⟩ := Prod.mk.inj (Except.ok.inj h)
    exact ⟨rfl, rfl⟩

/-- Saving a persona that has its role keeps the personas backed. -/
theorem savePersona_backed (h : s.Backed) (hp : ∀ guid, s.authority.Backs { persona with guid }) :
    (runOn (Operation.savePersona persona) s).2.Backed := by
  unfold Operation.savePersona
  rw [Operation.runOn_bind, Operation.runOn_fresh]
  dsimp only
  refine Operation.runOn_write_checked (J := System.Backed) h ?_
  have hsaved : ∀ {saved : Persona}, (∃ guid, saved = { persona with guid }) →
      s.authority.BacksAll (s.catalog.withPersona saved) := by
    rintro _ ⟨guid, rfl⟩
    exact Authority.BacksAll.withPersona h (hp guid)
  refine hsaved ?_
  split
  · exact ⟨_, rfl⟩
  · exact ⟨persona.guid, rfl⟩

/-- What follows the creation of a role meets personas that are backed, and the role stored under the
identifier that it has been given. -/
theorem createRole_backed (h : s.Backed) {role : Role} {f : Role → Operation α}
    (hrest : ∀ t id, t.Backed → t.authority.roles.get? id = some { role with id := some id } →
      (runOn (f { role with id := some id }) t).2.Backed) :
    (runOn (Operation.createRole role >>= f) s).2.Backed := by
  have hrefused := Operation.Refuses.write (α := Role) (I := System.Backed) h (f := fun s => do
    s.faults.check "create_role" role.name
    return s.withAuthority (← s.authority.createRole role))
  rw [Operation.runOn_bind]
  cases hcreate : runOn (Operation.createRole role) s with
  | mk result t =>
    cases result with
    | ok created =>
      obtain ⟨rfl, rfl⟩ := createRole_ok hcreate
      exact hrest _ _ (Authority.BacksAll.createRole h _) (NameMap.get?_insert_eq_some.2 (.inl ⟨rfl, rfl⟩))
    | error e =>
      have hkept := hrefused e (congrArg Prod.fst hcreate)
      exact (congrArg Prod.snd hcreate : _ = t) ▸ hkept

/-- A persona is created after its role. -/
theorem createPersona_backed (h : s.Backed) (p : Persona) :
    (runOn (createPersona σ p) s).2.Backed := by
  have hstop : ∀ t, s.OnlyDraws t → t.Backed := fun _ => h.of_onlyDraws
  refine keeps_check.then (.refl s) hstop fun _ _ hs _ => keeps_query.then hs hstop fun _ _ hs _ =>
    keeps_check.then hs hstop fun _ _ hs _ => onlyDraws_fresh.then hs hstop fun unique s₁ hs _ => ?_
  refine createRole_backed (hstop s₁ hs) fun t id ht hrole => savePersona_backed ht fun guid => ?_
  exact ⟨id, _, rfl, hrole, rfl, rfl, rfl, rfl⟩

/-- The members of a role that a persona has are replaced by those of the persona. -/
theorem runOn_updateRoleMembers (hf : s.faults.OnlyWrites) {id : String} {role : Role}
    (hid : persona.roleId = some id) (hrole : s.authority.roles.get? id = some role)
    (hown : role.id = some id) :
    runOn (updateRoleMembers persona) s = (.ok (), { s with
      authority := { s.authority with
        roles := s.authority.roles.insert id
          { role with users := persona.users, groups := persona.groups } } }) := by
  have hread : s.role? id = .ok (some role) := by
    rw [System.role?, hf "get_role" id (by decide), hrole]
    rfl
  have hcontains : s.authority.roles.contains id = true := by
    rw [NameMap.contains, hrole]
    rfl
  have hwrite : s.faults.check "update_role" role.name = .ok () := hf "update_role" _ (by decide)
  unfold updateRoleMembers
  rw [hid]
  dsimp only
  rw [Operation.runOn_bind, Operation.runOn_read, hread]
  dsimp only
  rw [Operation.runOn_bind_ok]
  refine ⟨{ role with users := persona.users, groups := persona.groups }, _, ?_, rfl⟩
  rw [Operation.updateRole, Operation.runOn_write_ok]
  simp only [hwrite, Authority.updateRole, hown, hcontains]
  rfl

/-- A persona that has its role may be toggled and saved. -/
theorem toggle_backed (hf : s.faults.OnlyWrites) (hguid : persona.guid ≠ "")
    (h : s.authority.BacksAll (s.catalog.withPersona persona)) :
    (runOn (do
      let plan ← planToggle σ persona existing
      let report ← Operation.execute σ.deadlineMs plan.mutations
      let persona ← Operation.savePersona persona
      return ({ persona, report } : PersonaOutcome)) s).2.Backed := by
  refine carryOut_stands (planToggle_total hf σ persona existing) fun report t ht => ?_
  have hft : t.faults.OnlyWrites := ht.faults ▸ hf
  rw [Operation.runOn_bind, runOn_savePersona hft hguid]
  exact h.of_same ht.roles ht.lastId (congrArg (·.personas.insert persona.guid persona) ht.catalog)

/-- The members of a persona are written to its role when they change, before the persona is saved. -/
theorem writeUpdate_backed (hf : s.faults.OnlyWrites) {d : Nat} (hc : s.catalog.InOrder d)
    (h : s.Backed) {update : Persona}
    (hexisting : s.catalog.personas.get? update.guid = some existing) :
    (runOn (do
      if (updatedPersona update existing).users != existing.users ||
          (updatedPersona update existing).groups != existing.groups then
        updateRoleMembers (updatedPersona update existing)
      let plan ← planToggle σ (updatedPersona update existing) existing
      let report ← Operation.execute σ.deadlineMs plan.mutations
      let persona ← Operation.savePersona (updatedPersona update existing)
      return ({ persona, report } : PersonaOutcome)) s).2.Backed := by
  obtain ⟨id, role, hid, hrole, hown, hname, husers, hgroups⟩ := h.backed _ _ hexisting
  have hid' : (updatedPersona update existing).roleId = some id := hid
  have hguid : (updatedPersona update existing).guid ≠ "" := (hc.persona _ _ hexisting).2
  split
  · rw [Operation.runOn_bind, runOn_updateRoleMembers hf hid' hrole hown]
    refine toggle_backed hf hguid ?_
    exact Authority.BacksAll.updateRole h hc hexisting rfl hid' hrole hown hname
  · -- The members are the ones that the role has.
    next hsame =>
    simp only [Bool.or_eq_true, bne_iff_ne, not_or, not_not] at hsame
    refine toggle_backed hf hguid (Authority.BacksAll.withPersona h ?_)
    exact ⟨id, role, hid, hrole, hown, hname, husers.trans hsame.1.symm, hgroups.trans hsame.2.symm⟩

theorem updatePersona_backed (hf : s.faults.OnlyWrites) (hc : s.catalog.InOrder s.drawn)
    (h : s.Backed) (update : Persona) : (runOn (updatePersona σ update) s).2.Backed := by
  have hstop : ∀ t, s.OnlyDraws t → t.Backed := fun _ => h.of_onlyDraws
  refine keeps_check.then (.refl s) hstop fun _ _ hs _ =>
    (keeps_storedPersona (fun _ hs => hs.catalog) _).then hs hstop fun existing _ hs hexisting => ?_
  refine keeps_check.then hs hstop fun _ _ hs _ =>
    Operation.Keeps.then_when (keeps_throw _) hs hstop fun _ hs => ?_
  split
  · refine keeps_query.then hs hstop fun _ _ hs _ => keeps_check.then hs hstop fun _ t hs _ => ?_
    obtain ⟨drawn, rfl⟩ := hs
    exact writeUpdate_backed (s := { s with drawn }) hf hc h hexisting
  · obtain ⟨drawn, rfl⟩ := hs
    exact writeUpdate_backed (s := { s with drawn }) hf hc h hexisting

/-- The role of a persona is deleted before the persona. -/
theorem deletePersona_backed (hf : s.faults.OnlyWrites) (hc : s.catalog.InOrder s.drawn)
    (h : s.Backed) (guid : String) : (runOn (deletePersona σ guid) s).2.Backed := by
  have hstop : ∀ t, s.OnlyDraws t → t.Backed := fun _ => h.of_onlyDraws
  refine (keeps_storedPersona (fun _ hs => hs.catalog) _).then (.refl s) hstop fun p t hs hp => ?_
  obtain ⟨id, role, hid, -⟩ := h.backed guid p hp
  obtain ⟨drawn, rfl⟩ := hs
  obtain ⟨plan, hplan⟩ := planClean_total (s := { s with drawn }) hf σ p
  refine carryOut_stands ⟨plan, drawn, hplan⟩ fun report t ht => ?_
  have hft : t.faults.OnlyWrites := ht.faults ▸ hf
  -- Between the two deletions the persona is stored without a role, but nothing can fail there.
  rw [hid]
  dsimp only
  rw [Operation.runOn_bind, Operation.deleteRole, runOn_write_passed (hft "delete_role" id (by decide))]
  dsimp only
  rw [Operation.runOn_bind, Operation.deletePersona,
    runOn_write_passed (hft "delete_persona" guid (by decide))]
  have hbacks : t.authority.BacksAll t.catalog := h.of_same ht.roles ht.lastId (by rw [ht.catalog])
  exact hbacks.deleteRole (d := s.drawn) (ht.catalog ▸ hc) (ht.catalog ▸ hp) hid

/-- Storing a persona policy and carrying out its plan concerns neither personas nor roles. -/
theorem putPolicy_backed (hf : s.faults.OnlyWrites) (h : s.Backed) (subjects : Subjects)
    (user : String) (policy : PersonaPolicy) :
    (runOn (putPolicy σ subjects user policy) s).2.Backed := by
  have hstop : ∀ t, s.OnlyDraws t → t.Backed := fun _ => h.of_onlyDraws
  refine keeps_check.then (.refl s) hstop fun _ _ hs _ =>
    (keeps_requirePersona _).then hs hstop fun persona _ hs _ => keeps_check.then hs hstop
      fun _ _ hs _ => (keeps_priorPolicy policy).then hs hstop fun prior _ hs _ =>
        (keeps_admitPolicy subjects user policy).then hs hstop fun _ t hs _ => ?_
  have hft := hs.onlyWrites hf
  obtain ⟨saved, t₁, hstore⟩ := storePolicy_total hft persona policy
  have hsaves := storePolicy_ok hstore
  have hft₁ : t₁.faults.OnlyWrites := hsaves.faults ▸ hft
  rw [Operation.runOn_bind, hstore]
  refine carryOut_stands (planPolicy_total hft₁ σ persona prior saved) fun report t₂ ht => ?_
  refine (hstop t hs).of_same (ht.roles.trans (congrArg _ hsaves.authority))
    (hsaves.authority ▸ ht.lastId) ?_
  calc t₂.catalog.personas = t₁.catalog.personas := by rw [ht.catalog]
    _ = t.catalog.personas := by rw [hsaves.catalog]

theorem deletePolicy_backed (hf : s.faults.OnlyWrites) (h : s.Backed) (guid : String) :
    (runOn (deletePolicy σ guid) s).2.Backed := by
  have hstop : ∀ t, s.OnlyDraws t → t.Backed := fun _ => h.of_onlyDraws
  refine keeps_query.then (.refl s) hstop fun found s₁ hs _ => ?_
  split
  · exact hstop s₁ hs
  next policy =>
  refine (keeps_requirePersona _).then hs hstop fun persona t hs _ => ?_
  have hft := hs.onlyWrites hf
  obtain ⟨plan, hplan⟩ := planStrip_total hft σ persona policy
  refine carryOut_stands ⟨plan, _, hplan⟩ fun report t₁ ht => ?_
  rw [Operation.runOn_bind, Operation.deletePersonaPolicy, runOn_write_passed
    ((ht.faults ▸ hft : t₁.faults.OnlyWrites) "delete_persona_policy" guid (by decide))]
  show t₁.authority.BacksAll (t₁.catalog.deletePolicy guid)
  refine (hstop t hs).of_same ht.roles ht.lastId ?_
  show t₁.catalog.personas = t.catalog.personas
  rw [ht.catalog]

/-- Whatever a request ends with, it keeps the personas backed. -/
theorem Request.run_backed (hf : s.faults.OnlyWrites) (hc : s.catalog.InOrder s.drawn)
    (h : s.Backed) (σ : ServiceSettings) (r : Request) : (r.run σ s).Backed := by
  cases r with
  | createPersona p => exact createPersona_backed h p
  | updatePersona update => exact updatePersona_backed hf hc h update
  | deletePersona guid => exact deletePersona_backed hf hc h guid
  | putPolicy subjects user policy => exact putPolicy_backed hf h subjects user policy
  | deletePolicy guid => exact deletePolicy_backed hf h guid

end PersonaService

/-- While no call fails at once, only writes of policies fail: no others have a deadline. -/
theorem Faults.onlyWrites_of_failing {f : Faults} (h : f.failing = ∅) : f.OnlyWrites := by
  intro call argument _
  rw [Faults.check, h]
  rfl

theorem System.backed_empty : System.Backed {} :=
  ⟨fun _ p hp => absurd hp.symm (Option.some_ne_none p),
    fun _ role hrole => absurd hrole.symm (Option.some_ne_none role)⟩

/-- Whatever requests have led to a system, in the course of which only writes of policies have failed:
every persona has the identifier of a stored role that has its name and its members, and different
personas have different roles and names. -/
theorem System.Led.backed {s : System} (h : s.Led fun _ s _ => s.faults.OnlyWrites) :
    (∀ guid p, s.catalog.personas.get? guid = some p →
      ∃ id role, p.roleId = some id ∧ s.authority.roles.get? id = some role ∧ role.id = some id ∧
        role.name = p.qualifiedName ∧ role.users = p.users ∧ role.groups = p.groups) ∧
    ∀ guid guid' p p', s.catalog.personas.get? guid = some p →
      s.catalog.personas.get? guid' = some p' → guid ≠ guid' →
      p.roleId ≠ p'.roleId ∧ p.qualifiedName ≠ p'.qualifiedName := by
  have hbacked : s.Backed := by
    induction h with
    | empty => exact System.backed_empty
    | request hled σ r hf ih => exact r.run_backed hf hled.reachable.catalog_inOrder ih σ
    | faults _ _ _ ih => exact ih.of_same rfl (Nat.le_refl _) rfl
  have hc := h.reachable.catalog_inOrder
  refine ⟨hbacked.backed, fun guid guid' p p' hp hp' hne => ⟨hbacked.roleId_ne hc hp hp' hne, ?_⟩⟩
  exact fun hsame => hne (hc.roles _ _ _ _ hp hp' hsame)

namespace PersonaService

/-- The system after a persona has been disabled and given other members while deletions of policies did
not finish, and another persona has been created. -/
def handedOver : System :=
  let s := Request.run {} {} (.createPersona { guid := "stewards", name := "stewards", users := ["ann"] })
  let s := Request.run {} s (.putPolicy {} "" (termsPolicy "finance"))
  let s := { s with faults := { hanging := NameSet.ofList ["delete_policy"] }
                    authority := { s.authority with failing := ∅ } }
  let s := Request.run {} s
    (.updatePersona { guid := "stewards", name := "stewards", users := ["bob"], enabled := false })
  Request.run {} s (.createPersona { guid := "owners", name := "owners" })

/-- Two personas have roles of their own, and the members of one of them are the new ones. -/
theorem backed_handedOver :
    ∃ p q id role, handedOver.catalog.personas.get? "stewards" = some p ∧
      handedOver.catalog.personas.get? "owners" = some q ∧ p.roleId = some id ∧
      handedOver.authority.roles.get? id = some role ∧ role.name = p.qualifiedName ∧
      role.users = ["bob"] ∧ p.roleId ≠ q.roleId ∧ p.qualifiedName ≠ q.qualifiedName ∧
      handedOver.authority.policies.values ≠ [] := by
  have hled : handedOver.Led fun _ s _ => s.faults.OnlyWrites := by
    have hempty : System.Led (fun _ s _ => s.faults.OnlyWrites) {} := .empty
    unfold handedOver
    refine ((((hempty.request {} _ ?_).request {} _ ?_).faults _ _).request {} _ ?_).request {} _ ?_
    all_goals refine Faults.onlyWrites_of_failing ?_
    all_goals decide +kernel
  have htest : ((handedOver.catalog.personas.get? "stewards").any (fun p => p.users == ["bob"]) &&
      (handedOver.catalog.personas.get? "owners").isSome &&
      decide (handedOver.authority.policies.values ≠ [])) = true := by
    decide +kernel
  simp only [Bool.and_eq_true, decide_eq_true_eq] at htest
  obtain ⟨⟨hp, hq⟩, hpolicies⟩ := htest
  obtain ⟨p, hp, husers⟩ := (Option.any_eq_true _ _).1 hp
  obtain ⟨q, hq⟩ := Option.isSome_iff_exists.1 hq
  obtain ⟨hroles, hapart⟩ := hled.backed
  obtain ⟨id, role, hid, hrole, -, hname, hmembers, -⟩ := hroles _ p hp
  obtain ⟨hids, hnames⟩ := hapart _ _ p q hp hq (by decide)
  exact ⟨p, q, id, role, hp, hq, hid, hrole, hname, hmembers.trans (beq_iff_eq.1 husers), hids, hnames,
    hpolicies⟩

end PersonaService

end CatalogAccess
