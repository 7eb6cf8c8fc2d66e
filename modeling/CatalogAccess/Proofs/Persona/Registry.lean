import CatalogAccess.Proofs.Persona.Idempotence
import CatalogAccess.Proofs.Persona.Revisions

/-!
# The catalogs that requests lead to

Objects are stored under their own identifiers, every policy belongs to a stored persona, no two
personas have the same role, and the policies in use of one persona are about different assets
(`PersonaCatalog.InOrder`). What a request makes of the catalog keeps this true
(`Request.Ends.catalog_inOrder`), and so it holds of every catalog that requests lead to
(`System.Reachable.catalog_inOrder`).
-/

namespace CatalogAccess

open PersonaService (Assigns Draws duplicates ensureUniqueAssets_iff)

/-- What requests keep true of the catalog while so many identifiers are drawn. -/
structure PersonaCatalog.InOrder (c : PersonaCatalog) (drawn : Nat) : Prop where
  /-- A persona is stored under its own identifier. -/
  persona : ∀ guid p, c.personas.get? guid = some p → p.guid = guid ∧ guid ≠ ""
  /-- A persona policy is stored under its own identifier. -/
  policy : ∀ guid p, c.policies.get? guid = some p → p.guid = guid ∧ guid ≠ ""
  /-- A persona policy belongs to a stored persona. -/
  owner : ∀ guid p, c.policies.get? guid = some p →
    ∃ owner, c.personas.get? p.personaGuid = some owner
  /-- The role of a persona is named by an identifier that has been drawn. -/
  role : ∀ guid p, c.personas.get? guid = some p →
    ∃ tenant n, n < drawn ∧ p.roleName = tenant ++ "/" ++ Uuid.ofDraw n
  /-- No two personas have the same role. -/
  roles : ∀ guid guid' p p', c.personas.get? guid = some p → c.personas.get? guid' = some p' →
    p.roleName = p'.roleName → guid = guid'
  /-- No policy in use duplicates another one of its persona. -/
  apart : ∀ guid guid' p p', c.policies.get? guid = some p → c.policies.get? guid' = some p' →
    guid ≠ guid' → p.personaGuid = p'.personaGuid → p.isActive = true → p'.isActive = true →
    duplicates p p' = false

/-- Of policies in use each duplicates the other, or neither does. -/
theorem PersonaService.duplicates_comm {p p' : PersonaPolicy} (hp : p.isActive = true)
    (hp' : p'.isActive = true) : duplicates p p' = duplicates p' p := by
  simp only [duplicates, PersonaPolicy.sameAssets, hp, hp', bne_comm (a := p'.guid),
    Bool.beq_comm (a := p'.category), Bool.beq_comm (a := NameSet.ofList p'.assets),
    Bool.beq_comm (a := p'.isDataMask)]

namespace PersonaCatalog

variable {c : PersonaCatalog} {d d' : Nat}

theorem inOrder_empty : InOrder {} 0 := by
  have hnone : ∀ {α : Type} {guid : String} {p : α}, ¬ NameMap.get? (∅ : NameMap α) guid = some p :=
    fun h => Option.some_ne_none _ h.symm
  exact ⟨fun _ _ h => absurd h hnone, fun _ _ h => absurd h hnone, fun _ _ h => absurd h hnone,
    fun _ _ h => absurd h hnone, fun _ _ _ _ h => absurd h hnone, fun _ _ _ _ h => absurd h hnone⟩

namespace InOrder

/-- More identifiers may be drawn. -/
theorem mono (h : c.InOrder d) (hd : d ≤ d') : c.InOrder d' := by
  refine ⟨h.persona, h.policy, h.owner, fun guid p hp => ?_, h.roles, h.apart⟩
  obtain ⟨tenant, n, hn, hrole⟩ := h.role guid p hp
  exact ⟨tenant, n, Nat.lt_of_lt_of_le hn hd, hrole⟩

/-- A persona is stored whose role no other one has. -/
theorem withPersona (h : c.InOrder d) (hd : d ≤ d') {saved : Persona} (hguid : saved.guid ≠ "")
    (hrole : ∃ tenant n, n < d' ∧ saved.roleName = tenant ++ "/" ++ Uuid.ofDraw n)
    (hroles : ∀ guid p, c.personas.get? guid = some p → p.roleName = saved.roleName →
      guid = saved.guid) : (c.withPersona saved).InOrder d' := by
  refine ⟨fun guid p hp => ?_, h.policy, fun guid p hp => ?_, fun guid p hp => ?_,
    fun guid guid' p p' hp hp' hsame => ?_, h.apart⟩
  · obtain ⟨rfl, rfl⟩ | ⟨-, hold⟩ := NameMap.get?_insert_eq_some.1 hp
    · exact ⟨rfl, hguid⟩
    · exact h.persona guid p hold
  · obtain ⟨owner, howner⟩ := h.owner guid p hp
    rw [PersonaCatalog.withPersona, NameMap.get?_insert]
    split
    · exact ⟨saved, rfl⟩
    · exact ⟨owner, howner⟩
  · obtain ⟨-, rfl⟩ | ⟨-, hold⟩ := NameMap.get?_insert_eq_some.1 hp
    · exact hrole
    · exact (h.mono hd).role guid p hold
  · obtain ⟨rfl, rfl⟩ | ⟨-, hold⟩ := NameMap.get?_insert_eq_some.1 hp <;>
      obtain ⟨rfl, rfl⟩ | ⟨-, hold'⟩ := NameMap.get?_insert_eq_some.1 hp'
    · rfl
    · exact (hroles guid' p' hold' hsame.symm).symm
    · exact hroles guid p hold hsame
    · exact h.roles guid guid' p p' hold hold' hsame

/-- A persona policy is stored that duplicates no other one of its persona. -/
theorem withPolicy (h : c.InOrder d) {saved : PersonaPolicy} (hguid : saved.guid ≠ "")
    (howner : ∃ owner, c.personas.get? saved.personaGuid = some owner)
    (hapart : ∀ guid p, c.policies.get? guid = some p → guid ≠ saved.guid →
      p.personaGuid = saved.personaGuid → duplicates saved p = false) :
    (c.withPolicy saved).InOrder d := by
  refine ⟨h.persona, fun guid p hp => ?_, fun guid p hp => ?_, h.role, h.roles,
    fun guid guid' p p' hp hp' hne hsame hactive hactive' => ?_⟩
  · obtain ⟨rfl, rfl⟩ | ⟨-, hold⟩ := NameMap.get?_insert_eq_some.1 hp
    · exact ⟨rfl, hguid⟩
    · exact h.policy guid p hold
  · obtain ⟨-, rfl⟩ | ⟨-, hold⟩ := NameMap.get?_insert_eq_some.1 hp
    · exact howner
    · exact h.owner guid p hold
  · obtain ⟨rfl, rfl⟩ | ⟨-, hold⟩ := NameMap.get?_insert_eq_some.1 hp <;>
      obtain ⟨rfl, rfl⟩ | ⟨-, hold'⟩ := NameMap.get?_insert_eq_some.1 hp'
    · exact absurd rfl hne
    · exact hapart guid' p' hold' hne.symm hsame.symm
    · rw [PersonaService.duplicates_comm hactive hactive']
      exact hapart guid p hold hne hsame
    · exact h.apart guid guid' p p' hold hold' hne hsame hactive hactive'

/-- A persona is deleted with its policies. -/
theorem deletePersona (h : c.InOrder d) (guid : String) : (c.deletePersona guid).InOrder d := by
  have hpersona : ∀ {x p}, (c.deletePersona guid).personas.get? x = some p →
      c.personas.get? x = some p := fun hp => (NameMap.get?_erase_eq_some.1 hp).2
  have hpolicy : ∀ {x p}, (c.deletePersona guid).policies.get? x = some p →
      c.policies.get? x = some p ∧ p.personaGuid ≠ guid := PersonaCatalog.get?_deletePersona_policies.1
  refine ⟨fun x p hp => h.persona x p (hpersona hp), fun x p hp => h.policy x p (hpolicy hp).1,
    fun x p hp => ?_, fun x p hp => h.role x p (hpersona hp),
    fun x x' p p' hp hp' => h.roles x x' p p' (hpersona hp) (hpersona hp'),
    fun x x' p p' hp hp' => h.apart x x' p p' (hpolicy hp).1 (hpolicy hp').1⟩
  obtain ⟨hold, hother⟩ := hpolicy hp
  obtain ⟨owner, howner⟩ := h.owner x p hold
  refine ⟨owner, ?_⟩
  rw [PersonaCatalog.deletePersona, NameMap.get?_erase, if_neg hother, howner]

/-- A persona policy is deleted. -/
theorem deletePolicy (h : c.InOrder d) (guid : String) : (c.deletePolicy guid).InOrder d := by
  have hpolicy : ∀ {x p}, (c.deletePolicy guid).policies.get? x = some p →
      c.policies.get? x = some p := fun hp => (NameMap.get?_erase_eq_some.1 hp).2
  exact ⟨h.persona, fun x p hp => h.policy x p (hpolicy hp), fun x p hp => h.owner x p (hpolicy hp),
    h.role, h.roles, fun x x' p p' hp hp' => h.apart x x' p p' (hpolicy hp) (hpolicy hp')⟩

/-- The policies in use of a persona do not duplicate each other. -/
theorem active_apart (h : c.InOrder d) (guid : String) :
    ∀ p ∈ (c.policiesOf guid).filter PersonaPolicy.isActive,
      ∀ p' ∈ (c.policiesOf guid).filter PersonaPolicy.isActive,
        p = p' ∨ p'.guid ≠ p.guid ∧ p'.isActive = true ∧ duplicates p p' = false := by
  have hstored : ∀ p ∈ (c.policiesOf guid).filter PersonaPolicy.isActive,
      c.policies.get? p.guid = some p ∧ p.personaGuid = guid ∧ p.isActive = true := by
    intro p hp
    obtain ⟨hmem, hactive⟩ := List.mem_filter.1 hp
    obtain ⟨hvalues, howner⟩ := List.mem_filter.1 hmem
    obtain ⟨k, hk⟩ := NameMap.mem_values_iff.1 hvalues
    exact ⟨(h.policy k p hk).1 ▸ hk, beq_iff_eq.1 howner, hactive⟩
  intro p hp p' hp'
  obtain ⟨hget, howner, hactive⟩ := hstored p hp
  obtain ⟨hget', howner', hactive'⟩ := hstored p' hp'
  by_cases hguid : p.guid = p'.guid
  · exact .inl (Option.some.inj (hget.symm.trans (hguid ▸ hget')))
  · exact .inr ⟨Ne.symm hguid, hactive',
      h.apart _ _ p p' hget hget' hguid (howner.trans howner'.symm) hactive hactive'⟩

end InOrder

end PersonaCatalog

namespace PersonaService

variable {s s' : System} {r : Request}

/-- An object that is stored has an identifier, which is the one given unless none was. -/
theorem Assigns.spec {given guid : String} (h : Assigns s s' given guid) :
    guid ≠ "" ∧ (given ≠ "" → guid = given) := by
  rcases h with ⟨hne, rfl⟩ | ⟨hempty, n, -, -, rfl⟩
  · exact ⟨hne, fun _ => rfl⟩
  · exact ⟨Uuid.ofDraw_ne_empty n, fun hne => absurd hempty hne⟩

/-- Where a policy of a persona is stored as it was given, the others of the persona are those that it is
compared with before. -/
theorem sibling_of_stored {persona : Persona} {policy saved p : PersonaPolicy} {c : PersonaCatalog}
    {d : Nat} (hc : c.InOrder d) (hpersona : c.personas.get? policy.personaGuid = some persona)
    (hsaved : saved = { policy with guid := saved.guid, qualifiedName := saved.qualifiedName })
    (hgiven : policy.guid ≠ "" → saved.guid = policy.guid) {guid : String}
    (hp : c.policies.get? guid = some p) (hne : guid ≠ saved.guid)
    (howner : p.personaGuid = saved.personaGuid) :
    p ∈ c.policiesOf persona.guid ∧ p.guid ≠ policy.guid := by
  obtain ⟨hkey, hnamed⟩ := hc.policy guid p hp
  refine ⟨List.mem_filter.2 ⟨NameMap.mem_values_iff.2 ⟨guid, hp⟩, beq_iff_eq.2 ?_⟩, fun heq => ?_⟩
  · rw [(hc.persona _ _ hpersona).1, howner, hsaved]
  · by_cases hempty : policy.guid = ""
    · exact hnamed (hkey.symm.trans (heq.trans hempty))
    · exact hne (hkey.symm.trans (heq.trans (hgiven hempty).symm))

/-- A persona policy that has been admitted duplicates no other policy of its persona. -/
theorem Admitted.apart {subjects : Subjects} {user : String} {persona : Persona}
    {policy saved : PersonaPolicy} {c : PersonaCatalog} {d : Nat}
    (h : Admitted subjects user persona policy c) (hc : c.InOrder d)
    (hpersona : c.personas.get? policy.personaGuid = some persona)
    (hsaved : saved = { policy with guid := saved.guid, qualifiedName := saved.qualifiedName })
    (hgiven : policy.guid ≠ "" → saved.guid = policy.guid) {guid : String} {p : PersonaPolicy}
    (hp : c.policies.get? guid = some p) (hne : guid ≠ saved.guid)
    (howner : p.personaGuid = saved.personaGuid) : duplicates saved p = false := by
  obtain ⟨hmem, hother⟩ := sibling_of_stored hc hpersona hsaved hgiven hp hne howner
  have hfree := ensureUniqueAssets_iff.1 h.assets p hmem
  rw [hsaved]
  simp only [duplicates, bne_iff_ne.2 hother, Bool.true_and] at hfree
  simp only [duplicates, Bool.and_assoc, Bool.and_eq_false_iff] at hfree ⊢
  exact .inr hfree

/-- What a request makes of the catalog keeps it in order. -/
theorem Request.Ends.catalog_inOrder (h : r.Ends s s') (hc : s.catalog.InOrder s.drawn) :
    s'.catalog.InOrder s'.drawn := by
  obtain ⟨hdrawn, hrevises⟩ := h
  cases hrevises with
  | kept r hcatalog => exact hcatalog ▸ hc.mono hdrawn
  | created persona saved hsaved hguid hrole hcatalog =>
    obtain ⟨tenant, _, ⟨n, hn, hlt, rfl⟩, hname⟩ := hrole
    rw [hcatalog]
    refine hc.withPersona hdrawn hguid.spec.1 ⟨tenant, n, hlt, hname⟩ fun guid p hp hsame => ?_
    -- The roles of the others have been named by earlier draws.
    obtain ⟨tenant', m, hm, hname'⟩ := hc.role guid p hp
    have := Uuid.draw_eq_of_append (hname'.symm.trans (hsame.trans hname))
    omega
  | updated update existing saved hexisting hsaved hguid hcatalog =>
    have hkey := hguid.spec.2 (hc.persona _ _ hexisting).2
    have hrole : saved.roleName = existing.roleName := by
      rw [hsaved]
      rfl
    rw [hcatalog]
    refine hc.withPersona hdrawn hguid.spec.1 ?_ fun guid p hp hsame => ?_
    · rw [hrole]
      exact (hc.mono hdrawn).role _ _ hexisting
    · exact (hc.roles _ _ _ _ hp hexisting (hsame.trans hrole)).trans hkey.symm
  | deleted guid hcatalog => exact hcatalog ▸ (hc.mono hdrawn).deletePersona guid
  | put subjects user persona policy saved hpersona hadmitted hprior hsaved hguid hcatalog =>
    have howner : saved.personaGuid = policy.personaGuid := by rw [hsaved]
    rw [hcatalog]
    exact (hc.mono hdrawn).withPolicy hguid.spec.1 ⟨persona, howner ▸ hpersona⟩
      fun guid p hp hne hsame => hadmitted.apart hc hpersona hsaved hguid.spec.2 hp hne hsame
  | removed guid hcatalog => exact hcatalog ▸ (hc.mono hdrawn).deletePolicy guid

end PersonaService

/-- Whatever requests have led to a system, its catalog is in order. -/
theorem System.Reachable.catalog_inOrder {s : System} (h : s.Reachable) :
    s.catalog.InOrder s.drawn := by
  induction h with
  | empty => exact PersonaCatalog.inOrder_empty
  | request _ σ r ih => exact (PersonaService.Request.run_revises σ _ r).catalog_inOrder ih
  | faults _ _ _ ih => exact ih

end CatalogAccess
