import CatalogAccess.Proofs.Persona.Coexistence
import CatalogAccess.Proofs.Persona.Registry

/-!
# Policies are marked by the personas that they name

Cleaning up after a persona goes by labels: it finds the policies with the label of the persona, and
no others. This is enough as long as every policy with an item for the role of a persona has the label
of the persona (`Authority.Marks`). Requests keep it true, whatever writes are lost
(`System.WellNamed.marked`): a plan for the persona puts the label on what it places and takes it off
only with the role, and a plan for another persona leaves it alone. The one exception are personas
whose label reads like that of a persona policy, which other personas may shed; the catalog does not
assign such identifiers (`System.WellNamed`).
-/

namespace CatalogAccess

/-! ### Labels -/

namespace Label

theorem persona_injective {guid guid' : String} (h : persona guid = persona guid') : guid = guid' :=
  String.append_right_inj personaStem |>.1 h

theorem personaPolicy_injective {guid guid' : String} (h : personaPolicy guid = personaPolicy guid') :
    guid = guid' :=
  String.append_right_inj personaPolicyStem |>.1 h

theorem personaPolicy_ne_personaType (guid : String) : personaPolicy guid ≠ personaType := by
  intro h
  have hhead := congrArg (fun s => s.toList.head?) h
  simp [personaPolicy, personaPolicyStem, personaType] at hhead

theorem persona_ne_personaType (guid : String) : persona guid ≠ personaType := by
  intro h
  have hhead := congrArg (fun s => s.toList.head?) h
  simp [persona, personaStem, personaType] at hhead

theorem startsWith_personaStem (guid : String) :
    Text.startsWith (persona guid) personaStem = true := by
  rw [Text.startsWith, persona, String.toList_append]
  exact List.isPrefixOf_iff_prefix.2 (List.prefix_append _ _)

/-- The label of a persona is that of a persona policy only if its identifier reads so. -/
theorem persona_ne_personaPolicy {guid : String} (hplain : Text.startsWith guid "policy:" = false)
    (policy : String) : persona guid ≠ personaPolicy policy := by
  intro h
  have hsplit : personaStem ++ guid = personaStem ++ ("policy:" ++ policy) := by
    rw [← String.append_assoc]
    exact h
  have hguid := (String.append_right_inj personaStem).1 hsplit
  have hstart : Text.startsWith guid "policy:" = true := by
    rw [hguid, Text.startsWith, String.toList_append]
    exact List.isPrefixOf_iff_prefix.2 (List.prefix_append _ _)
  exact Bool.false_ne_true (hplain.symm.trans hstart)

end Label

/-- A persona sheds the labels of no other persona. -/
theorem Persona.not_sheds {persona : Persona} {guid : String}
    (hplain : Text.startsWith guid "policy:" = false) (hne : persona.guid ≠ guid) :
    ¬ persona.Sheds (Label.persona guid) := by
  rintro (heq | ⟨policy, heq⟩)
  · exact hne (Label.persona_injective heq).symm
  · exact Label.persona_ne_personaPolicy hplain policy heq

/-! ### Marks -/

/-- The policies with an item for the role have the label. -/
def Authority.Marks (a : Authority) (role label : String) : Prop :=
  ∀ id p, a.policies.get? id = some p → p.itemsNaming role ≠ ∅ → label ∈ p.labels

/-- A role that no policy names is marked by any label. -/
theorem Authority.marks_of_unnamed {a : Authority} {role : String}
    (h : ∀ id, a.itemsNaming id role = ∅) (label : String) : a.Marks role label := by
  intro id p hp hnamed
  have hnone := h id
  rw [itemsNaming, hp, Option.elim_some] at hnone
  exact absurd hnone hnamed

namespace Plan.ActsOn

variable {stored : NameMap Policy} {persona : Persona} {plan : Plan} {guid role : String}

/-- What a plan for a persona makes of the policies with an item for its role has its label. -/
theorem marks_self (h : plan.ActsOn stored persona) (hs : Policy.WellStored stored)
    (hmarks : ∀ id p, stored.get? id = some p → p.itemsNaming persona.roleName ≠ ∅ →
      Label.persona persona.guid ∈ p.labels) :
    (∀ id t, plan.tracked.get? id = some t → t.policy.itemsNaming persona.roleName ≠ ∅ →
      Label.persona persona.guid ∈ t.policy.labels) ∧
    ∀ c ∈ plan.creates, Label.persona persona.guid ∈ c.labels := by
  have hplaced : ∀ q, persona.Places q → q.IsPlaceable persona.roleName :=
    fun _ hq => hq.toIsPlaceable
  constructor
  · intro id t ht
    obtain ⟨p, hp, -⟩ := (h.tracks hs).origin id t ht
    refine Built.tracked_induction h hs hplaced (R := fun _ m => m.itemsNaming persona.roleName ≠ ∅ →
      Label.persona persona.guid ∈ m.labels) hmarks (fun id p m m' q _ _ hq _ hmerged _ => ?_)
      (fun id p dropped hp _ _ hnamed => ?_) ht hp
    · exact (hmerged.labels_iff _).2 (.inr hq.label)
    · exact absurd (Policy.itemsNaming_stripped (hs.tidy id p hp) _ dropped) hnamed
  · exact Built.created_induction h (fun _ hq => hq.label)
      fun c c' q _ hq _ hmerged => (hmerged.labels_iff _).2 (.inr hq.label)

/-- What a plan for another persona makes of the policies with an item for the role has the label that
they have had. -/
theorem marks_other (h : plan.ActsOn stored persona) (hs : Policy.WellStored stored)
    (hplain : Text.startsWith guid "policy:" = false) (hrole : role ≠ persona.roleName)
    (hguid : persona.guid ≠ guid) (hmarks : ∀ id p, stored.get? id = some p →
      p.itemsNaming role ≠ ∅ → Label.persona guid ∈ p.labels) :
    (∀ id t, plan.tracked.get? id = some t → t.policy.itemsNaming role ≠ ∅ →
      Label.persona guid ∈ t.policy.labels) ∧
    ∀ c ∈ plan.creates, c.itemsNaming role = ∅ := by
  refine ⟨fun id t ht hnamed => ?_, fun c hc => ((h.minds hs).created c hc).2 role hrole⟩
  obtain ⟨p, hp, -⟩ := (h.tracks hs).origin id t ht
  rw [(h.minds hs).others id t p role ht hp hrole] at hnamed
  exact Built.retains h hs (fun _ hq => hq.toIsPlaceable) ht hp _ (hmarks id p hp hnamed)
    (Persona.not_sheds hplain hguid) fun htype => absurd htype (Label.persona_ne_personaType guid)

end Plan.ActsOn

/-- The label of a persona stays on the policies with an item for its role. -/
theorem System.marks_invariant {guid : String} (hplain : Text.startsWith guid "policy:" = false)
    (role : String) :
    System.Invariant (fun persona => persona.roleName = role ↔ persona.guid = guid)
      fun s => s.WellKept ∧ s.authority.Marks role (Label.persona guid) where
  wellKept h := h.1
  leaves := by
    rintro s s' ⟨hkept, hmarks⟩ hs
    refine ⟨hkept.leaves hs, fun id p hp => hmarks id p ?_⟩
    rw [← hs.policies, hp]
  execute := by
    rintro s persona plan ⟨hkept, hmarks⟩ hacts hplan deadlineMs
    refine ⟨System.wellKept_invariant.execute hkept trivial hplan deadlineMs, fun id p hp hnamed => ?_⟩
    have hs := hkept.authority.toWellStored
    obtain ⟨a, hsystem, houtcome⟩ :=
      (hplan.tracks hs).outcome hkept.authority.numbered deadlineMs
    rw [hsystem] at hp
    -- Both for the persona itself and for another one, the plan has the label on what names the role.
    have hplanned : (∀ id t, plan.tracked.get? id = some t → t.policy.itemsNaming role ≠ ∅ →
        Label.persona guid ∈ t.policy.labels) ∧
        ∀ c ∈ plan.creates, c.itemsNaming role ≠ ∅ → Label.persona guid ∈ c.labels := by
      by_cases hrole : persona.roleName = role
      · obtain rfl := hacts.1 hrole
        obtain rfl := hrole
        exact (hplan.marks_self hs hmarks).imp_right fun h c hc _ => h c hc
      · exact (hplan.marks_other hs hplain (Ne.symm hrole) (fun h => hrole (hacts.2 h)) hmarks).imp_right
          fun h c hc hnamed => absurd (h c hc) hnamed
    have hleft := houtcome id
    rw [show a.policies.get? id = some p from hp] at hleft
    generalize hsome : some p = o at hleft
    cases hleft with
    | kept => exact hmarks id p hsome.symm hnamed
    | settled t ht =>
      obtain rfl := Plan.Tracked.policy_of_settled hsome.symm
      exact hplanned.1 id t ht hnamed
    | created c hc hnew =>
      obtain rfl := Option.some.inj hsome
      exact hplanned.2 c hc hnamed

/-! ### Runs -/

namespace PersonaService

variable {s s' : System} {r : Request}

/-- The request creates no persona whose label reads like that of a persona policy. -/
def Request.NamesPlainly : Request → Prop
  | createPersona persona => Text.startsWith persona.guid "policy:" = false
  | _ => True

/-- The persona that a request plans for is stored, up to what an update changes. -/
theorem Request.stored_of_planned? {persona : Persona} {d : Nat} (hc : s.catalog.InOrder d)
    (h : r.planned? s = some persona) :
    ∃ stored, s.catalog.personas.get? persona.guid = some stored ∧
      stored.roleName = persona.roleName := by
  have hkey : ∀ {guid}, s.catalog.personas.get? guid = some persona →
      s.catalog.personas.get? persona.guid = some persona :=
    fun hget => (hc.persona _ persona hget).1 ▸ hget
  cases r with
  | createPersona p => exact absurd h.symm (Option.some_ne_none persona)
  | updatePersona update =>
    obtain ⟨existing, hexisting, rfl⟩ := Option.map_eq_some_iff.1 h
    exact ⟨existing, hexisting, rfl⟩
  | deletePersona guid => exact ⟨persona, hkey h, rfl⟩
  | putPolicy subjects user policy => exact ⟨persona, hkey h, rfl⟩
  | deletePolicy guid =>
    obtain ⟨policy, -, hpersona⟩ := Option.bind_eq_some_iff.1 h
    exact ⟨persona, hkey hpersona, rfl⟩

/-- A persona of the catalog was there before, with the same role, or it has been created. -/
theorem Request.Ends.persona_cases (h : r.Ends s s') (hc : s.catalog.InOrder s.drawn) {guid : String}
    {p : Persona} (hp : s'.catalog.personas.get? guid = some p) :
    (∃ old, s.catalog.personas.get? guid = some old ∧ old.roleName = p.roleName) ∨
      ∃ persona, r = .createPersona persona ∧ Assigns s s' persona.guid guid ∧
        ∃ tenant n, s.drawn ≤ n ∧ p.roleName = tenant ++ "/" ++ Uuid.ofDraw n := by
  cases h.2 with
  | kept r hcatalog => exact .inl ⟨p, hcatalog ▸ hp, rfl⟩
  | created persona saved hsaved hguid hrole hcatalog =>
    rw [hcatalog] at hp
    obtain ⟨heq, rfl⟩ | ⟨-, hold⟩ := NameMap.get?_insert_eq_some.1 hp
    · obtain ⟨tenant, _, ⟨n, hn, -, rfl⟩, hname⟩ := hrole
      exact .inr ⟨persona, rfl, heq ▸ hguid, tenant, n, hn, hname⟩
    · exact .inl ⟨p, hold, rfl⟩
  | updated update existing saved hexisting hsaved hguid hcatalog =>
    rw [hcatalog] at hp
    obtain ⟨heq, rfl⟩ | ⟨-, hold⟩ := NameMap.get?_insert_eq_some.1 hp
    · have hkey := hguid.spec.2 (hc.persona _ _ hexisting).2
      refine .inl ⟨existing, heq.trans hkey ▸ hexisting, ?_⟩
      rw [hsaved]
      rfl
    · exact .inl ⟨p, hold, rfl⟩
  | deleted x hcatalog =>
    rw [hcatalog] at hp
    exact .inl ⟨p, (NameMap.get?_erase_eq_some.1 hp).2, rfl⟩
  | put subjects user persona policy saved hpersona hadmitted hprior hsaved hguid hcatalog =>
    exact .inl ⟨p, by rw [hcatalog] at hp; exact hp, rfl⟩
  | removed x hcatalog => exact .inl ⟨p, by rw [hcatalog] at hp; exact hp, rfl⟩

end PersonaService

/-- A system that requests lead to, none of which creates a persona whose label reads like that of a
persona policy. -/
inductive System.WellNamed : System → Prop
  /-- The stores are empty at first. -/
  | empty : WellNamed {}
  /-- A request is carried out, in full or in part. -/
  | request {s : System} (h : WellNamed s) (σ : ServiceSettings) (r : PersonaService.Request)
      (hr : r.NamesPlainly) : WellNamed (r.run σ s)
  /-- The faults that calls meet change, and the names of the policies whose writes fail. -/
  | faults {s : System} (h : WellNamed s) (faults : Faults) (failing : NameSet) :
      WellNamed { s with faults, authority := { s.authority with failing } }

theorem System.WellNamed.reachable {s : System} (h : s.WellNamed) : s.Reachable := by
  induction h with
  | empty => exact .empty
  | request _ σ r _ ih => exact ih.request σ r
  | faults _ faults failing ih => exact ih.faults faults failing

/-- The roles of personas are marked by their labels. -/
structure System.Marked (s : System) : Prop where
  /-- The label of no persona reads like that of a persona policy. -/
  plain : ∀ guid p, s.catalog.personas.get? guid = some p → Text.startsWith guid "policy:" = false
  /-- A role that is named by an identifier still to be drawn has no items. -/
  unnamed : ∀ tenant n, s.drawn ≤ n → ∀ id,
    s.authority.itemsNaming id (tenant ++ "/" ++ Uuid.ofDraw n) = ∅
  /-- Policies with an item for the role of a persona have its label. -/
  marks : ∀ guid p, s.catalog.personas.get? guid = some p →
    s.authority.Marks p.roleName (Label.persona guid)

namespace PersonaService

variable {s : System} {r : Request} {σ : ServiceSettings}

/-- A role that no stored persona has is named by a request only if it was named before. -/
theorem Request.run_unnamed (hs : s.WellKept) (hc : s.catalog.InOrder s.drawn) {role : String}
    (hrole : ∀ guid p, s.catalog.personas.get? guid = some p → p.roleName ≠ role)
    (h : ∀ id, s.authority.itemsNaming id role = ∅) (id : String) :
    (r.run σ s).authority.itemsNaming id role = ∅ := by
  refine (Request.keeps (σ := σ) (System.others_invariant role fun _ => ∅) ⟨hs, h⟩ r
    fun persona hpersona => ?_).2 id
  obtain ⟨stored, hstored, hsame⟩ := Request.stored_of_planned? hc hpersona
  exact hsame ▸ hrole _ stored hstored

/-- Roles stay marked by whatever requests do. -/
theorem Request.run_marked (hs : s.WellKept) (hc : s.catalog.InOrder s.drawn) (h : s.Marked)
    (hr : r.NamesPlainly) : (r.run σ s).Marked := by
  have hends := Request.run_revises σ s r
  have hfresh : ∀ tenant n, s.drawn ≤ n → ∀ id,
      (r.run σ s).authority.itemsNaming id (tenant ++ "/" ++ Uuid.ofDraw n) = ∅ := by
    intro tenant n hn
    refine Request.run_unnamed hs hc (fun guid p hp hname => ?_) (h.unnamed tenant n hn)
    obtain ⟨tenant', m, hm, hname'⟩ := hc.role guid p hp
    have := Uuid.draw_eq_of_append (hname'.symm.trans hname)
    omega
  refine ⟨fun guid p hp => ?_, fun tenant n hn => hfresh tenant n (Nat.le_trans hends.1 hn),
    fun guid p hp => ?_⟩
  · rcases hends.persona_cases hc hp with ⟨old, hold, -⟩ | ⟨persona, rfl, hguid, -⟩
    · exact h.plain guid old hold
    · rcases hguid with ⟨-, rfl⟩ | ⟨-, n, -, -, rfl⟩
      · exact hr
      · exact Uuid.not_startsWith_policy n
  · rcases hends.persona_cases hc hp with ⟨old, hold, hrole⟩ | ⟨-, -, -, tenant, n, hn, hrole⟩
    · rw [← hrole]
      refine (Request.keeps (System.marks_invariant (h.plain guid old hold) old.roleName)
        ⟨hs, h.marks guid old hold⟩ r fun persona hpersona => ?_).2
      -- The persona that the request plans for has the role just when it is this one.
      obtain ⟨stored, hstored, hsame⟩ := Request.stored_of_planned? hc hpersona
      constructor
      · exact fun heq => hc.roles _ _ _ _ hstored hold (hsame.trans heq)
      · rintro rfl
        rw [← hsame, Option.some.inj (hstored.symm.trans hold)]
    · rw [hrole]
      exact Authority.marks_of_unnamed (hfresh tenant n hn) _

end PersonaService

/-- In whatever system requests lead to, the policies with an item for the role of a persona have the
label of the persona. -/
theorem System.WellNamed.marked {s : System} (h : s.WellNamed) : s.Marked := by
  induction h with
  | empty =>
    have hnone : ∀ {guid : String} {p : Persona}, ¬ NameMap.get? (∅ : NameMap Persona) guid = some p :=
      fun h => Option.some_ne_none _ h.symm
    exact ⟨fun _ _ hp => absurd hp hnone, fun _ _ _ _ => rfl, fun _ _ hp => absurd hp hnone⟩
  | request h σ r hr ih =>
    exact PersonaService.Request.run_marked h.reachable.keeps h.reachable.catalog_inOrder ih hr
  | faults _ _ _ ih => exact ⟨ih.plain, ih.unnamed, ih.marks⟩

end CatalogAccess
