import CatalogAccess.Proofs.Persona.Reconciliation

/-!
# Personas that share policies

Personas whose policies have the same target share one concrete policy, and requests rewrite concrete
policies as a whole. Two things hold all the same in every system that requests lead to, whether or
not writes have gone through. The policies of the authority are in order
(`System.Reachable.policies_in_order`): each has an item, its items name one role each and no role
twice within a list, and no two of them have the same target. And a request leaves all roles alone but
that of the persona that it acts on (`PersonaService.Request.run_leaves_others`).
-/

namespace CatalogAccess

/-! ### Policies in order -/

/-- Every stored policy has an item, and in each of its lists the items name one role each, no role
twice, and neither users nor groups. No two stored policies have the same target, provided that its
bytes fit into memory. -/
theorem System.Reachable.policies_in_order {s : System} (hs : s.Reachable) :
    (∀ p ∈ s.authority.policies.values, p.hasNoItems = false ∧ p.Tidy) ∧
    ∀ id id' p p', s.authority.policies.get? id = some p →
      s.authority.policies.get? id' = some p' → p.sameTarget p' = true →
      (ResourceMap.canonicalBytes p.resources).length < 2 ^ 60 → id = id' := by
  have hkept := hs.keeps
  constructor
  · intro p hp
    obtain ⟨id, hget⟩ := NameMap.mem_values_iff.1 hp
    exact ⟨(hkept.furnished id p hget).items, hkept.authority.tidy id p hget⟩
  · intro id id' p p' hp hp' hsame hshort
    exact hkept.authority.toWellStored.unique (hkept.authority.synthetic id p hp) hshort
      (hkept.furnished id p hp).values hp hp' rfl (Policy.sameTarget_iff.1 hsame).symm

/-- An update whose deletion failed leaves two policies in order. -/
theorem System.Reachable.policies_in_order_interrupted_update :
    ∃ s, s = PersonaService.interrupted (.putPolicy {} "" (PersonaService.termsPolicy "risk")) ∧
      s.authority.policies.size = 2 ∧
      (∀ p ∈ s.authority.policies.values, p.hasNoItems = false ∧ p.Tidy) ∧
      ∀ id id' p p', s.authority.policies.get? id = some p →
        s.authority.policies.get? id' = some p' → p.sameTarget p' = true →
        (ResourceMap.canonicalBytes p.resources).length < 2 ^ 60 → id = id' :=
  ⟨_, rfl, by decide +kernel,
    System.Reachable.policies_in_order (PersonaService.interrupted_reachable _)⟩

/-! ### Other roles -/

/-- The items for a role under an identifier; there are none where nothing is stored. -/
def Authority.itemsNaming (a : Authority) (id role : String) : Policy.RoleItems :=
  (a.policies.get? id).elim ∅ (·.itemsNaming role)

/-- Carrying out a plan for one role, in full or in part, leaves the items of another one. -/
theorem Plan.ActsOn.others {stored : NameMap Policy} {persona : Persona} {other : String}
    {plan : Plan} (h : plan.ActsOn stored persona) (hs : Policy.WellStored stored)
    (hother : other ≠ persona.roleName)
    {id : String} {o : Option Policy} (ho : plan.Outcome stored id o) :
    o.elim ∅ (·.itemsNaming other) = (stored.get? id).elim ∅ (·.itemsNaming other) := by
  cases ho with
  | kept => rfl
  | settled t ht =>
    obtain ⟨old, hold, -⟩ := (h.tracks hs).origin id t ht
    have hsame := (h.minds hs).others id t old other ht hold hother
    rw [hold, Option.elim_some, ← hsame, Tracked.settled]
    split
    · next hdeleted =>
      exact (Policy.itemsNaming_of_hasNoItems ((h.minds hs).hasNoItems ht hdeleted) other).symm
    · rfl
  | created c hc hnew =>
    rw [hnew, Option.elim_none, Option.elim_some]
    exact ((h.minds hs).created c hc).2 other hother

/-- The items of a role are an invariant of requests that act on other roles. -/
theorem System.others_invariant (other : String) (before : String → Policy.RoleItems) :
    System.Invariant (fun persona => persona.roleName ≠ other)
      fun s => s.WellKept ∧ ∀ id, s.authority.itemsNaming id other = before id where
  wellKept h := h.1
  leaves := by
    rintro s s' ⟨hkept, hitems⟩ hs
    refine ⟨hkept.leaves hs, fun id => ?_⟩
    rw [← hitems id, Authority.itemsNaming, Authority.itemsNaming, hs.policies]
  execute := by
    rintro s persona plan ⟨hkept, hitems⟩ hrole hplan deadlineMs
    refine ⟨System.wellKept_invariant.execute hkept trivial hplan deadlineMs, fun id => ?_⟩
    have hs := hkept.authority.toWellStored
    obtain ⟨a, hsystem, houtcome⟩ :=
      (hplan.tracks hs).outcome hkept.authority.numbered deadlineMs
    rw [hsystem, ← hitems id]
    exact hplan.others hs hrole.symm (houtcome id)

namespace PersonaService

/-- A request leaves the items of all roles as they were but those of the persona that it acts on,
whether it ends with a result or with an error, and whether or not its writes go through. A policy
with an item of another role stays, and policies that are new have none. -/
theorem Request.run_leaves_others {s : System} (hs : s.Reachable) (σ : ServiceSettings)
    (r : Request) {other : String}
    (hother : ∀ persona, r.persona? s = some persona → persona.roleName ≠ other) (id : String) :
    (∀ p, s.authority.policies.get? id = some p →
      (∃ p', (r.run σ s).authority.policies.get? id = some p' ∧
        p'.itemsNaming other = p.itemsNaming other) ∨
      (r.run σ s).authority.policies.get? id = none ∧ p.itemsNaming other = ∅) ∧
    ∀ p', s.authority.policies.get? id = none →
      (r.run σ s).authority.policies.get? id = some p' → p'.itemsNaming other = ∅ := by
  have hkept := Request.keeps (σ := σ)
    (System.others_invariant other fun id => s.authority.itemsNaming id other)
    ⟨hs.keeps, fun _ => rfl⟩ r fun persona hpersona => by
      obtain ⟨stored, hstored, hrole⟩ := Request.roleName_of_planned? hpersona
      exact hrole ▸ hother stored hstored
  have hsame := hkept.2 id
  unfold Authority.itemsNaming at hsame
  constructor
  · intro p hp
    rw [hp, Option.elim_some] at hsame
    cases hp' : (r.run σ s).authority.policies.get? id with
    | some p' =>
      rw [hp', Option.elim_some] at hsame
      exact .inl ⟨p', rfl, hsame⟩
    | none =>
      rw [hp', Option.elim_none] at hsame
      exact .inr ⟨rfl, hsame.symm⟩
  · intro p' hnew hp'
    rw [hnew, hp'] at hsame
    exact hsame

/-- The system after two personas have got policies with the same target. -/
def shared : System :=
  let s := Request.run {} {} (.createPersona { guid := "stewards", name := "stewards" })
  let s := Request.run {} s (.createPersona { guid := "owners", name := "owners" })
  let s := Request.run {} s (.putPolicy {} "" (termsPolicy "finance"))
  Request.run {} s
    (.putPolicy {} "" { termsPolicy "finance" with guid := "owned", personaGuid := "owners" })

theorem shared_reachable : shared.Reachable := by
  unfold shared
  exact (((System.Reachable.empty.request _ _).request _ _).request _ _).request _ _

/-- One of the personas is deleted, and the other keeps its grant in the policy that they share. -/
theorem Request.run_leaves_others_shared :
    ∃ persona p p', shared.catalog.personas.get? "stewards" = some persona ∧
      shared.authority.policies.get? "policy-0003" = some p ∧
      p.allowItems.length = 2 ∧ p.itemsNaming persona.roleName ≠ ∅ ∧
      (Request.run {} shared (.deletePersona "owners")).authority.policies.get? "policy-0003" =
        some p' ∧
      p'.itemsNaming persona.roleName = p.itemsNaming persona.roleName := by
  have htest : (shared.catalog.personas.get? "stewards").any (fun persona =>
      (shared.catalog.personas.get? "owners").all (fun owner => owner.roleName != persona.roleName) &&
      (shared.authority.policies.get? "policy-0003").any fun p =>
        decide (p.allowItems.length = 2 ∧ p.itemsNaming persona.roleName ≠ ∅)) = true := by
    decide +kernel
  obtain ⟨persona, hpersona, htest⟩ := (Option.any_eq_true _ _).1 htest
  rw [Bool.and_eq_true] at htest
  obtain ⟨hroles, htest⟩ := htest
  obtain ⟨p, hp, hitems⟩ := (Option.any_eq_true _ _).1 htest
  obtain ⟨hlength, hnamed⟩ := of_decide_eq_true hitems
  have hother : ∀ owner, Request.persona? shared (.deletePersona "owners") = some owner →
      owner.roleName ≠ persona.roleName := by
    intro owner howner
    have hne := Option.all_eq_true _ _ |>.1 hroles owner howner
    exact bne_iff_ne.1 hne
  obtain ⟨p', hp', hsame⟩ | ⟨-, hnone⟩ :=
    (Request.run_leaves_others shared_reachable {} _ hother "policy-0003").1 p hp
  · exact ⟨persona, p, p', hpersona, hp, hlength, hnamed, hp', hsame⟩
  · exact absurd hnone hnamed

end PersonaService

end CatalogAccess
