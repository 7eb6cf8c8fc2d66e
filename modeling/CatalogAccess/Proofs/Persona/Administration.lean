import CatalogAccess.Proofs.Persona.Grants

/-!
# Who may change a persona policy

A policy on metadata or on data belongs to a connection, and a request to put one names the connection.
The user must administer the connection that the request names. On an update this need not be the one
that the policy is stored under, which has no say in the matter at all: in a system that differs in
nothing but the connection of the stored policy the request has the same result
(`runOn_putPolicy_reconnected`). So an update by a user who administers the connection that the request
names may take a policy away from another connection, together with its grants
(`grants_revoked_by_outsider`).
-/

namespace CatalogAccess

open Operation (runOn)

/-- The persona policy without its connection. -/
def PersonaPolicy.disconnected (p : PersonaPolicy) : PersonaPolicy := { p with connectionId := none }

namespace System

/-- The system in which the persona policy of an identifier is stored under another connection. -/
def reconnected (s : System) (guid : String) (connection : Option String) : System :=
  { s with catalog := { s.catalog with
      policies := s.catalog.policies.mapValues fun k p =>
        if k = guid then { p with connectionId := connection } else p } }

variable {s : System} {guid : String} {connection : Option String}

theorem reconnected_get? (k : String) :
    (s.reconnected guid connection).catalog.policies.get? k =
      (s.catalog.policies.get? k).map fun p =>
        if k = guid then { p with connectionId := connection } else p :=
  NameMap.get?_mapValues

/-- The policies of a persona differ in connections at most. -/
theorem reconnected_policiesOf (s : System) (guid : String) (connection : Option String)
    (x : String) :
    ((s.reconnected guid connection).catalog.policiesOf x).map PersonaPolicy.disconnected =
      (s.catalog.policiesOf x).map PersonaPolicy.disconnected := by
  have hsame : ∀ e : String × PersonaPolicy,
      (if e.1 = guid then { e.2 with connectionId := connection } else e.2 :
        PersonaPolicy).disconnected = e.2.disconnected := by
    intro e
    split <;> rfl
  have howner : ∀ l : List PersonaPolicy,
      (l.filter fun p => p.personaGuid == x).map PersonaPolicy.disconnected =
        (l.map PersonaPolicy.disconnected).filter fun p => p.personaGuid == x := by
    intro l
    rw [List.filter_map]
    rfl
  unfold PersonaCatalog.policiesOf NameMap.values reconnected NameMap.mapValues
  rw [howner, howner]
  simp only [List.map_map]
  congr 2
  funext e
  exact hsame e

/-- Saving a policy under the identifier makes up for the difference. -/
theorem reconnected_insert (p : PersonaPolicy) :
    (s.reconnected guid connection).catalog.policies.insert guid p =
      s.catalog.policies.insert guid p := by
  refine NameMap.ext_get? fun k => ?_
  rw [NameMap.get?_insert, NameMap.get?_insert, reconnected_get?]
  split
  · rfl
  · -- Under other keys nothing has changed.
    rw [Option.map_id']

end System

namespace PersonaService

variable {σ : ServiceSettings} {subjects : Subjects} {user : String} {policy prior : PersonaPolicy}
  {persona : Persona} {o : PolicyOutcome} {s s' : System} {connection : Option String}

/-! ### What looks at connections -/

/-- The names of other policies are compared without their connections. -/
theorem ensureUniquePolicyName_disconnected (siblings : List PersonaPolicy) :
    ensureUniquePolicyName policy (siblings.map PersonaPolicy.disconnected) =
      ensureUniquePolicyName policy siblings := by
  unfold ensureUniquePolicyName
  rw [List.any_map]
  rfl

/-- So are their assets. -/
theorem ensureUniqueAssets_disconnected (siblings : List PersonaPolicy) :
    ensureUniqueAssets policy (siblings.map PersonaPolicy.disconnected) =
      ensureUniqueAssets policy siblings := by
  have htest : duplicates policy ∘ PersonaPolicy.disconnected = duplicates policy := rfl
  unfold ensureUniqueAssets
  rw [List.find?_map, htest]
  cases siblings.find? (duplicates policy) with
  | none => rfl
  | some other => rfl

/-- The connection of the user's choice is the only one that is checked. -/
theorem ensureConnectionAdmin_iff :
    ensureConnectionAdmin subjects user policy = .ok () ↔
      (policy.category.requiresConnection = true →
        subjects.Holds user (connectionAdminRole (policy.connectionId.getD ""))) := by
  unfold ensureConnectionAdmin
  dsimp only
  cases policy.category.requiresConnection <;>
    simp [Subjects.mem_rolesFor_iff]

/-- A policy whose fields are in order names a connection if it requires one. -/
theorem connectionId_of_check (h : policy.check = .ok ())
    (hrequires : policy.category.requiresConnection = true) :
    ∃ c, policy.connectionId = some c ∧ Text.isBlank c = false := by
  unfold PersonaPolicy.check at h
  split at h
  · next hempty =>
    have hconnection : ¬ policy.lacksConnection = true := by
      intro hlacks
      simp [PersonaPolicy.problems, hrequires, hlacks] at hempty
    unfold PersonaPolicy.lacksConnection at hconnection
    cases hc : policy.connectionId with
    | none => simp [hc] at hconnection
    | some c => exact ⟨c, rfl, by simpa [hc] using hconnection⟩
  · exact absurd h (by simp)

/-! ### Two runs -/

variable (connection)

theorem requirePersona_reconnected {guid : String}
    (h : runOn (requirePersona guid) s = (.ok persona, s)) :
    runOn (requirePersona guid) (s.reconnected policy.guid connection) =
      (.ok persona, s.reconnected policy.guid connection) := by
  have hread : (s.reconnected policy.guid connection).persona? guid = s.persona? guid := rfl
  unfold requirePersona at h ⊢
  simp only [Operation.runOn_bind_ok, Operation.runOn_read, Prod.mk.injEq] at h ⊢
  obtain ⟨found, _, ⟨hfound, rfl⟩, h⟩ := h
  refine ⟨found, _, ⟨hread.trans hfound, rfl⟩, ?_⟩
  cases found with
  | none => simp at h
  | some p =>
    simp only [Operation.runOn_pure, Prod.mk.injEq] at h ⊢
    exact ⟨h.1, trivial⟩

/-- The earlier version is found, under the other connection, and is as updatable. -/
theorem priorPolicy_reconnected
    (h : runOn (priorPolicy policy) s = (.ok (some prior), s)) :
    policy.category = prior.category ∧
      runOn (priorPolicy policy) (s.reconnected policy.guid connection) =
        (.ok (some { prior with connectionId := connection }),
          s.reconnected policy.guid connection) := by
  obtain ⟨⟨-, hstored⟩, -⟩ := priorPolicy_ok h
  have hfound : (s.reconnected policy.guid connection).catalog.policies.get? policy.guid =
      some { prior with connectionId := connection } := by
    rw [System.reconnected_get?, hstored prior rfl, Option.map_some, if_pos rfl]
  unfold priorPolicy at h ⊢
  split at h
  · simp at h
  · next hguid =>
    rw [if_neg hguid]
    simp only [Operation.runOn_bind_ok, Operation.runOn_read, Prod.mk.injEq] at h ⊢
    obtain ⟨found, _, ⟨hread, rfl⟩, h⟩ := h
    unfold System.personaPolicy? at hread
    rw [Except.bind_eq_ok_iff] at hread
    obtain ⟨_, hcall, hget⟩ := hread
    have hget : s.catalog.policies.get? policy.guid = found := Except.ok.inj hget
    obtain rfl := (hstored prior rfl).symm.trans hget
    simp only [Operation.runOn_bind_ok, Operation.runOn_lift, Operation.runOn_pure,
      Prod.mk.injEq] at h
    obtain ⟨_, _, ⟨hupdatable, rfl⟩, -, -⟩ := h
    have hcategory : policy.category = prior.category := by
      unfold ensureUpdatable at hupdatable
      split at hupdatable
      · exact absurd hupdatable (by simp)
      · next hsame => exact (by simpa using hsame : prior.category = policy.category).symm
    refine ⟨hcategory, some { prior with connectionId := connection }, _, ⟨?_, rfl⟩, ?_⟩
    · unfold System.personaPolicy?
      rw [Except.bind_eq_ok_iff]
      exact ⟨(), hcall, congrArg Except.ok hfound⟩
    · simp only [Operation.runOn_bind_ok, Operation.runOn_lift, Operation.runOn_pure,
        Prod.mk.injEq]
      exact ⟨(), _, ⟨hupdatable, rfl⟩, trivial, rfl⟩

/-- The policy is admitted beside the others as before. -/
theorem admitPolicy_reconnected {u : Unit}
    (h : runOn (admitPolicy subjects user persona policy) s = (.ok u, s)) :
    runOn (admitPolicy subjects user persona policy) (s.reconnected policy.guid connection) =
      (.ok u, s.reconnected policy.guid connection) := by
  unfold admitPolicy at h ⊢
  simp only [Operation.runOn_bind_ok, Operation.runOn_read, Operation.runOn_lift,
    Prod.mk.injEq] at h ⊢
  obtain ⟨siblings, _, ⟨hread, rfl⟩, _, _, ⟨hname, rfl⟩, _, _, ⟨hadmin, rfl⟩, hassets, -⟩ := h
  unfold System.policiesOf at hread
  rw [Except.bind_eq_ok_iff] at hread
  obtain ⟨_, hcall, hsiblings⟩ := hread
  obtain rfl := Except.ok.inj hsiblings
  -- The other policies are looked at without their connections, and so they are the same.
  have hothers := System.reconnected_policiesOf s policy.guid connection persona.guid
  refine ⟨(s.reconnected policy.guid connection).catalog.policiesOf persona.guid, _, ⟨?_, rfl⟩,
    (), _, ⟨?_, rfl⟩, (), _, ⟨hadmin, rfl⟩, ?_, rfl⟩
  · unfold System.policiesOf
    rw [Except.bind_eq_ok_iff]
    exact ⟨(), hcall, rfl⟩
  · rw [← ensureUniquePolicyName_disconnected, hothers, ensureUniquePolicyName_disconnected]
    exact hname
  · rw [← ensureUniqueAssets_disconnected, hothers, ensureUniqueAssets_disconnected]
    exact hassets

/-- A policy is saved over the earlier version, whatever the connection of that. -/
theorem savePersonaPolicy_reconnected {p saved : PersonaPolicy} (hguid : p.guid ≠ "")
    (h : runOn (Operation.savePersonaPolicy p) s = (.ok saved, s')) :
    runOn (Operation.savePersonaPolicy p) (s.reconnected p.guid connection) = (.ok saved, s') := by
  have hkept : ¬ p.guid.isEmpty = true := fun hempty => hguid (String.isEmpty_iff.1 hempty)
  have hsave : ∀ unique, (s.reconnected p.guid connection).catalog.savePolicy unique p =
      s.catalog.savePolicy unique p := by
    intro unique
    unfold PersonaCatalog.savePolicy
    simp only [if_neg hkept]
    rw [System.reconnected_insert]
    rfl
  unfold Operation.savePersonaPolicy at h ⊢
  simp only [Operation.runOn_bind_ok, Operation.runOn_fresh, Prod.mk.injEq, Except.ok.injEq,
    Operation.runOn_write_ok, Except.bind_eq_ok_iff] at h ⊢
  obtain ⟨_, _, ⟨rfl, rfl⟩, _, hcall, h⟩ := h
  refine ⟨_, _, ⟨rfl, rfl⟩, (), hcall, ?_⟩
  rw [← h]
  exact congrArg (fun r => Except.ok (({ s with drawn := s.drawn + 1 } : System).withCatalog r))
    (hsave _)

theorem storePolicy_reconnected {saved : PersonaPolicy} (hguid : policy.guid ≠ "")
    (h : runOn (storePolicy persona policy) s = (.ok saved, s')) :
    runOn (storePolicy persona policy) (s.reconnected policy.guid connection) = (.ok saved, s') := by
  unfold storePolicy at h ⊢
  rw [Operation.runOn_bind_ok] at h ⊢
  obtain ⟨unique, s₁, hfresh, hsaved⟩ := h
  obtain ⟨rfl, rfl⟩ : Uuid.ofDraw s.drawn = unique ∧ { s with drawn := s.drawn + 1 } = s₁ := by
    simpa using hfresh
  refine ⟨_, _, Operation.runOn_fresh, ?_⟩
  generalize hnamed : (if policy.qualifiedName.isEmpty then
      { policy with qualifiedName := persona.qualifiedName ++ "/" ++ Uuid.ofDraw s.drawn }
    else policy) = named at hsaved
  have hsame : named.guid = policy.guid := by
    rw [← hnamed]
    split <;> rfl
  have htwin := savePersonaPolicy_reconnected connection (hsame ▸ hguid) hsaved
  rw [hsame] at htwin
  exact hnamed ▸ htwin

/-- An accepted update has the same result whatever connection the policy was stored under. -/
theorem runOn_putPolicy_reconnected (hguid : policy.guid ≠ "")
    (hstored : s.catalog.policies.get? policy.guid = some prior)
    (hrun : runOn (putPolicy σ subjects user policy) s = (.ok o, s')) :
    policy.category = prior.category ∧
      runOn (putPolicy σ subjects user policy) (s.reconnected policy.guid connection) =
        (.ok o, s') := by
  unfold putPolicy at hrun ⊢
  simp only [Operation.runOn_bind_ok, Operation.runOn_lift, Prod.mk.injEq] at hrun ⊢
  obtain ⟨_, _, ⟨hcheck, rfl⟩, persona, s₁, hfound, _, _, ⟨hactive, rfl⟩, found, s₂, hprior, _, s₃,
    hadmit, saved, s₄, hstore, plan, s₅, hplan, hrest⟩ := hrun
  obtain ⟨-, rfl⟩ := requirePersona_ok hfound
  obtain ⟨⟨hcreates, hversion⟩, rfl⟩ := priorPolicy_ok hprior
  obtain ⟨-, -, -, rfl⟩ := admitPolicy_ok hadmit
  -- The request finds the stored policy, so that it is an update.
  have hupdate : found = some prior := by
    cases found with
    | none =>
      rcases hcreates.1 rfl with hempty | hnone
      · exact absurd (String.isEmpty_iff.1 hempty) hguid
      · rw [hstored] at hnone
        exact absurd hnone (Option.some_ne_none prior)
    | some p => exact (hversion p rfl).symm.trans hstored
  subst hupdate
  obtain ⟨hcategory, hprior'⟩ := priorPolicy_reconnected connection hprior
  refine ⟨hcategory, (), _, ⟨hcheck, rfl⟩, persona, _, requirePersona_reconnected connection hfound,
    (), _, ⟨hactive, rfl⟩, _, _, hprior', (), _, admitPolicy_reconnected connection hadmit, saved, s₄,
    storePolicy_reconnected connection hguid hstore, plan, s₅, ?_, hrest⟩
  exact hplan

/-! ### What an update shows about the user -/

/-- The user of an accepted update of a policy on metadata or data administers the connection that the
request names, under which the policy is then stored. That is the connection under which it was stored
before exactly when the request keeps it, and nothing in the result depends on what it was before. -/
theorem putPolicy_administered (hguid : policy.guid ≠ "")
    (hstored : s.catalog.policies.get? policy.guid = some prior)
    (hrequires : prior.category = .metadata ∨ prior.category = .data)
    (hrun : runOn (putPolicy σ subjects user policy) s = (.ok o, s')) :
    ∃ c, policy.connectionId = some c ∧ o.policy.connectionId = some c ∧
      subjects.Holds user (connectionAdminRole c) ∧
      (prior.connectionId = policy.connectionId →
        ∃ c', prior.connectionId = some c' ∧ subjects.Holds user (connectionAdminRole c')) ∧
      ∀ connection, runOn (putPolicy σ subjects user policy) (s.reconnected policy.guid connection) =
        (.ok o, s') := by
  obtain ⟨hcategory, -⟩ := runOn_putPolicy_reconnected none hguid hstored hrun
  obtain ⟨persona, hpersona⟩ := putPolicy_stored hrun
  obtain ⟨_, _, _, _, hadmitted, -, hsaves, -⟩ := putPolicy_ok hrun hpersona
  -- The request has the category of the stored policy.
  have hneeds : policy.category.requiresConnection = true := by
    rw [hcategory]
    rcases hrequires with hmetadata | hdata
    · rw [hmetadata]; rfl
    · rw [hdata]; rfl
  obtain ⟨c, hc, -⟩ := connectionId_of_check hadmitted.check hneeds
  have hholds := ensureConnectionAdmin_iff.1 hadmitted.admin hneeds
  rw [hc, Option.getD_some] at hholds
  have hsaved : o.policy.connectionId = some c := by rw [hsaves.same]; exact hc
  exact ⟨c, hc, hsaved, hholds, fun hsame => ⟨c, hsame.trans hc, hholds⟩,
    fun connection => (runOn_putPolicy_reconnected connection hguid hstored hrun).2⟩

/-- The subjects when two connections have an administrator each. -/
def connectionAdmins : Subjects where
  roles := [{ name := connectionAdminRole "warehouse", users := ["root"] },
    { name := connectionAdminRole "sandbox", users := ["mallory"] }]

/-- The system after the policy on reading what is called db was put. -/
def granted : System :=
  Request.run {} staffed (.putPolicy connectionAdmins "root" (readPolicy "analysts"))

theorem granted_reachable : granted.Reachable := staffed_reachable.request _ _

/-- The administrator of the connection may add an asset. -/
theorem putPolicy_administered_root :
    ∃ prior o s', granted.catalog.policies.get? "analysts" = some prior ∧
      prior.category = .metadata ∧
      runOn (putPolicy {} connectionAdmins "root"
        { readPolicy "analysts" with assets := ["db", "lake"] }) granted = (.ok o, s') ∧
      o.policy.connectionId = some "warehouse" ∧
      connectionAdmins.Holds "root" (connectionAdminRole "warehouse") := by
  have htest : (granted.catalog.policies.get? "analysts").any (fun prior =>
      decide (prior.category = .metadata) &&
        (putPolicy {} connectionAdmins "root"
          { readPolicy "analysts" with assets := ["db", "lake"] }).passes granted fun _ _ =>
            true) = true := by
    -- The targets are compared as bytes.
    unfold putPolicy planPolicy planUpdate placeAll place Plan.findSameTarget? System.sameTarget?
      mapProvisional Policy.sameTarget ResourceMap.canonicalBytes
    simp only [dimensionBytes_eq_insertionSort]
    decide +kernel
  obtain ⟨prior, hprior, hpasses⟩ := (Option.any_eq_true _ _).1 htest
  rw [Bool.and_eq_true, decide_eq_true_eq] at hpasses
  obtain ⟨o, s', hrun, -⟩ := Operation.exists_of_passes hpasses.2
  obtain ⟨c, hc, hsaved, hholds, -⟩ :=
    putPolicy_administered (by decide) hprior (.inl hpasses.1) hrun
  obtain rfl : "warehouse" = c := Option.some.inj hc
  exact ⟨prior, o, s', hprior, hpasses.1, hrun, hsaved, hholds⟩

/-- The administrator of one connection takes the grants of another one away, by a request that names
the wrong connection. -/
theorem grants_revoked_by_outsider :
    ∃ prior o s', ∃ persona : Persona, granted.Reachable ∧
      granted.catalog.policies.get? "analysts" = some prior ∧ prior.category = .metadata ∧
      prior.connectionId = some "warehouse" ∧
      runOn (putPolicy {} connectionAdmins "mallory" { readPolicy "analysts" with
        assets := ["box"], connectionId := some "sandbox" }) granted = (.ok o, s') ∧
      o.report.isComplete = true ∧
      ¬ connectionAdmins.Holds "mallory" (connectionAdminRole "warehouse") ∧
      granted.catalog.personas.get? "analysts" = some persona ∧
      (AccessView.decide ⟨.ofPolicies granted.authority.policies.values,
        .holding "reader" persona.roleName, 1024⟩ "reader" Action.entityRead
          (.entity process)).allowed = true ∧
      (AccessView.decide ⟨.ofPolicies s'.authority.policies.values,
        .holding "reader" persona.roleName, 1024⟩ "reader" Action.entityRead
          (.entity process)).allowed = false := by
  have htest : (granted.catalog.policies.get? "analysts").any (fun prior =>
      (granted.catalog.personas.get? "analysts").any fun persona =>
        (putPolicy {} connectionAdmins "mallory" { readPolicy "analysts" with
          assets := ["box"], connectionId := some "sandbox" }).passes granted fun o s' =>
            decide (prior.category = .metadata) &&
            decide (prior.connectionId = some "warehouse") && o.report.isComplete &&
            !(connectionAdmins.rolesFor "mallory").contains (connectionAdminRole "warehouse") &&
            (AccessView.decide ⟨.ofPolicies granted.authority.policies.values,
              .holding "reader" persona.roleName, 1024⟩ "reader" Action.entityRead
                (.entity process)).allowed &&
            !(AccessView.decide ⟨.ofPolicies s'.authority.policies.values,
              .holding "reader" persona.roleName, 1024⟩ "reader" Action.entityRead
                (.entity process)).allowed) = true := by
    -- The targets are compared as bytes.
    unfold putPolicy planPolicy planUpdate placeAll place Plan.findSameTarget? System.sameTarget?
      mapProvisional Policy.sameTarget ResourceMap.canonicalBytes
    simp only [dimensionBytes_eq_insertionSort]
    decide +kernel
  obtain ⟨prior, hprior, htest⟩ := (Option.any_eq_true _ _).1 htest
  obtain ⟨persona, hpersona, htest⟩ := (Option.any_eq_true _ _).1 htest
  obtain ⟨o, s', hrun, hall⟩ := Operation.exists_of_passes htest
  simp only [Bool.and_eq_true, decide_eq_true_eq, Bool.not_eq_true', ← Bool.not_eq_true,
    NameSet.contains_iff, Subjects.mem_rolesFor_iff] at hall
  obtain ⟨⟨⟨⟨⟨hcategory, hconnection⟩, hcomplete⟩, hstranger⟩, hbefore⟩, hafter⟩ := hall
  exact ⟨prior, o, s', persona, granted_reachable, hprior, hcategory, hconnection, hrun, hcomplete,
    hstranger, hpersona, hbefore, Bool.eq_false_iff.2 hafter⟩

end PersonaService

end CatalogAccess
