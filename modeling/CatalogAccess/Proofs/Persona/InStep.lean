import CatalogAccess.Proofs.Persona.Effects
import CatalogAccess.Proofs.Persona.Siblings
import CatalogAccess.Proofs.Persona.Switching

/-!
# Policies in step with the catalog

The persona policies in use of a persona that is enabled are in force (`PersonaCatalog.InForce`). The
authority reflects a persona when what it says about the role of the persona is just what its policies
in force ask for (`Authority.Reflects`), and the stores are in step when it reflects every persona, and
the labels of persona policies are found only on policies with a target that they ask for
(`System.InStep`). A plan for a persona that is carried out in full takes nothing from what is reflected
of others (`Plan.Effects.reflects_other`), and makes the authority reflect the persona itself anew when
what is not in force any more has lost its labels (`Plan.Effects.reflects_self`).
-/

namespace CatalogAccess

namespace Policy

variable {p p' q : Policy} {role : String}

/-- Whether a policy grants what a provisional policy asks for is told by its items for the role. -/
theorem Grants.of_itemsNaming (h : p.Grants q role)
    (hsame : p'.itemsNaming role = p.itemsNaming role) : p'.Grants q role := by
  constructor
  · intro i hi
    obtain ⟨x, hx, hwanted⟩ := h.allow i hi
    exact ⟨x, (congrArg RoleItems.allow hsame).trans hx, hwanted⟩
  · intro i hi
    obtain ⟨x, hx, hwanted⟩ := h.deny i hi
    exact ⟨x, (congrArg RoleItems.deny hsame).trans hx, hwanted⟩
  · intro m hm
    obtain ⟨x, hx, hwanted⟩ := h.mask m hm
    exact ⟨x, (congrArg RoleItems.mask hsame).trans hx, hwanted⟩

/-- What a policy says about a role is told by its target and its items for the role. -/
theorem outline_eq (htarget : p'.target = p.target)
    (hsame : p'.itemsNaming role = p.itemsNaming role) : p'.outline role = p.outline role := by
  rw [outline, htarget, hsame, outline]

end Policy

/-! ### What persona policies ask for -/

/-- One of the persona policies asks for the policy. -/
def Persona.Asks (persona : Persona) (policies : PersonaPolicy → Prop) (q : Policy) : Prop :=
  ∃ policy, policies policy ∧ ∃ draw, q ∈ synthesize draw persona policy

/-- Persona policies of one persona that may be enforced beside each other. -/
structure Persona.Admits (persona : Persona) (policies : PersonaPolicy → Prop) : Prop where
  /-- They have assets. -/
  assets : ∀ policy, policies policy → policy.assets ≠ []
  /-- What they ask for fits into memory. -/
  fits : ∀ policy, policies policy → policy.Fits persona
  /-- None of them duplicates another one. -/
  apart : ∀ policy policy', policies policy → policies policy' → policy = policy' ∨
    policy'.guid ≠ policy.guid ∧ policy'.isActive = true ∧
      PersonaService.duplicates policy policy' = false

namespace Persona

variable {persona : Persona} {policies : PersonaPolicy → Prop} {q : Policy}

theorem Asks.provisional (h : persona.Asks policies q) : q.IsProvisional persona.roleName := by
  obtain ⟨policy, -, draw, hq⟩ := h
  exact (synthesizeActions_areProvisional draw persona policy _).each q hq

theorem Asks.placeable (h : persona.Asks policies q) : q.IsPlaceable persona.roleName := by
  obtain ⟨policy, -, draw, hq⟩ := h
  exact (synthesizeActions_areProvisional draw persona policy _).placeable q hq

theorem Asks.mono {policies' : PersonaPolicy → Prop} (h : persona.Asks policies q)
    (hsub : ∀ policy, policies policy → policies' policy) : persona.Asks policies' q := by
  obtain ⟨policy, hpolicy, hdraw⟩ := h
  exact ⟨policy, hsub policy hpolicy, hdraw⟩

/-- Personas for which the same is synthesized ask for the same. -/
theorem asks_congr {persona' : Persona} (h : ∀ policy, policies policy → ∀ draw,
    synthesize draw persona' policy = synthesize draw persona policy) :
    persona'.Asks policies q ↔ persona.Asks policies q := by
  constructor
  · rintro ⟨policy, hpolicy, draw, hq⟩
    exact ⟨policy, hpolicy, draw, h policy hpolicy draw ▸ hq⟩
  · rintro ⟨policy, hpolicy, draw, hq⟩
    exact ⟨policy, hpolicy, draw, (h policy hpolicy draw).symm ▸ hq⟩

theorem Admits.mono {policies' : PersonaPolicy → Prop} (h : persona.Admits policies)
    (hsub : ∀ policy, policies' policy → policies policy) : persona.Admits policies' :=
  ⟨fun policy hpolicy => h.assets policy (hsub policy hpolicy),
    fun policy hpolicy => h.fits policy (hsub policy hpolicy),
    fun policy policy' hpolicy hpolicy' =>
      h.apart policy policy' (hsub policy hpolicy) (hsub policy' hpolicy')⟩

/-- Persona policies that ask for the same target are the same. -/
theorem Admits.eq_of_target (h : persona.Admits policies) {policy policy' : PersonaPolicy}
    (hpolicy : policies policy) (hpolicy' : policies policy') {q q' : Policy}
    (hq : persona.Asks (· = policy) q) (hq' : persona.Asks (· = policy') q')
    (htarget : q.target = q'.target) : policy = policy' := by
  obtain ⟨_, rfl, draw, hq⟩ := hq
  obtain ⟨_, rfl, draw', hq'⟩ := hq'
  refine (h.apart _ _ hpolicy hpolicy').resolve_right ?_
  rintro ⟨hguid, hactive, hfree⟩
  have hduplicates := PersonaService.duplicates_of_target_eq hq hq'
    (short_synthesize (h.fits _ hpolicy) draw q hq) htarget hguid hactive
  exact Bool.false_ne_true (hfree.symm.trans hduplicates)

/-- No two stored policies have a target that is asked for. -/
theorem Admits.unique (h : persona.Admits policies) {stored : NameMap Policy}
    (hs : Policy.WellStored stored) (hq : persona.Asks policies q) {id id' : String}
    {p p' : Policy} (hp : stored.get? id = some p) (hp' : stored.get? id' = some p')
    (htarget : p.target = q.target) (htarget' : p'.target = q.target) : id = id' ∧ p = p' := by
  obtain ⟨policy, hpolicy, draw, hmem⟩ := hq
  obtain rfl := hs.unique_synthesize (h.assets policy hpolicy)
    (short_synthesize (h.fits policy hpolicy) draw) q hmem id id' p p' hp hp' htarget htarget'
  exact ⟨rfl, Option.some.inj (hp.symm.trans hp')⟩

end Persona

/-! ### Reflecting a persona -/

/-- What the authority says about the role of a persona is what its policies ask for. -/
structure Authority.Reflects (a : Authority) (persona : Persona) (policies : PersonaPolicy → Prop) :
    Prop where
  /-- What is asked for is carried by a stored policy. -/
  complete : ∀ q, persona.Asks policies q → ∃ p ∈ a.policies.values, p.Carries q persona.roleName
  /-- What names the role says about it what is asked for. -/
  sound : ∀ p ∈ a.policies.values, p.itemsNaming persona.roleName ≠ ∅ →
    ∃ q, persona.Asks policies q ∧ p.outline persona.roleName = q.outline persona.roleName

namespace Authority.Reflects

variable {a a' : Authority} {persona : Persona} {policies policies' : PersonaPolicy → Prop}

/-- It matters only which policies are asked for. -/
theorem congr (h : a.Reflects persona policies)
    (hsame : ∀ policy, policies policy ↔ policies' policy) : a.Reflects persona policies' := by
  refine ⟨fun q hq => h.complete q (hq.mono fun policy => (hsame policy).2), fun p hp hnamed => ?_⟩
  obtain ⟨q, hq, houtline⟩ := h.sound p hp hnamed
  exact ⟨q, hq.mono fun policy => (hsame policy).1, houtline⟩

/-- It matters only which policies are stored. -/
theorem of_same (h : a.Reflects persona policies) (hpolicies : a'.policies = a.policies) :
    a'.Reflects persona policies :=
  ⟨hpolicies ▸ h.complete, hpolicies ▸ h.sound⟩

/-- Of the persona it matters only what it is called in the authority and what it asks for. -/
theorem of_persona {persona' : Persona} (h : a.Reflects persona policies)
    (hrole : persona'.roleName = persona.roleName)
    (hasks : ∀ q, persona'.Asks policies q ↔ persona.Asks policies q) :
    a.Reflects persona' policies := by
  constructor
  · intro q hq
    rw [hrole]
    exact h.complete q ((hasks q).1 hq)
  · intro p hp hnamed
    rw [hrole] at hnamed ⊢
    obtain ⟨q, hq, houtline⟩ := h.sound p hp hnamed
    exact ⟨q, (hasks q).2 hq, houtline⟩

/-- A persona without policies in force is not named. -/
theorem of_unnamed (h : ∀ p ∈ a.policies.values, p.itemsNaming persona.roleName = ∅)
    (hnone : ∀ policy, ¬ policies policy) : a.Reflects persona policies :=
  ⟨fun _ hq => hq.elim fun policy hpolicy => absurd hpolicy.1 (hnone policy),
    fun p hp hnamed => absurd (h p hp) hnamed⟩

/-- Nothing names a persona without policies in force. -/
theorem unnamed (h : a.Reflects persona policies) (hnone : ∀ policy, ¬ policies policy) :
    ∀ p ∈ a.policies.values, p.itemsNaming persona.roleName = ∅ := by
  intro p hp
  by_contra hnamed
  obtain ⟨q, ⟨policy, hpolicy, -⟩, -⟩ := h.sound p hp hnamed
  exact hnone policy hpolicy

/-- A stored policy with a target that is asked for carries what is asked for. -/
theorem carries (h : a.Reflects persona policies) (ha : a.WellKept) (hadmits : persona.Admits policies)
    {p q : Policy} (hq : persona.Asks policies q) (hp : p ∈ a.policies.values)
    (htarget : p.target = q.target) : p.Carries q persona.roleName := by
  obtain ⟨p', hp', hcarries⟩ := h.complete q hq
  obtain ⟨id, hget⟩ := NameMap.mem_values_iff.1 hp
  obtain ⟨id', hget'⟩ := NameMap.mem_values_iff.1 hp'
  obtain ⟨-, rfl⟩ := hadmits.unique ha.toWellStored hq hget hget' htarget hcarries.target
  exact hcarries

end Authority.Reflects

namespace Plan.Effects

variable {a a' : Authority} {persona other : Persona} {policies policies' asked : PersonaPolicy → Prop}
  {placed stripped : Policy → Prop} {shed : String → Prop}

/-- What is reflected of another persona stays so, when none of its labels is shed. -/
theorem reflects_other (h : Effects a a' persona.roleName placed stripped shed) (ha : a.WellKept)
    (hother : a.Reflects other policies) (hrole : other.roleName ≠ persona.roleName)
    (htype : ¬ shed Label.personaType) (hpersona : ¬ shed (Label.persona other.guid))
    (hpolicies : ∀ policy, policies policy → ¬ shed (Label.personaPolicy policy.guid)) :
    a'.Reflects other policies := by
  constructor
  · intro q hq
    obtain ⟨p, hp, hcarries⟩ := hother.complete q hq
    obtain ⟨id, hget⟩ := NameMap.mem_values_iff.1 hp
    have hnamed := ((ha.tidy id p hget).upholds_iff.2 hcarries).itemsNaming_ne hq.provisional
    obtain ⟨p', hget', htarget, hitems, hretains⟩ := h.spares id p _ hget hrole hnamed
    refine ⟨p', NameMap.mem_values_iff.2 ⟨id, hget'⟩, hcarries.toGrants.of_itemsNaming hitems,
      htarget.trans hcarries.target, fun l hl => ?_⟩
    obtain ⟨policy, hpolicy, draw, hmem⟩ := hq
    have hmarked : Label.persona other.guid ∈ p.labels :=
      hcarries.labels _ (persona_mem_labels_of_mem_synthesize hmem)
    refine hretains l (hcarries.labels l hl) ?_ fun _ =>
      ⟨_, hmarked, Label.startsWith_personaStem other.guid, hpersona⟩
    have hcases := (mem_labels_synthesize_iff hmem l).1 hl
    simp only [Label.ofPersonaPolicy, List.mem_cons, List.not_mem_nil, or_false] at hcases
    rcases hcases with rfl | rfl | rfl
    · exact hpersona
    · exact hpolicies policy hpolicy
    · exact htype
  · intro p' hp' hnamed
    obtain ⟨id, hget'⟩ := NameMap.mem_values_iff.1 hp'
    obtain ⟨p, hget, htarget, hitems⟩ := h.others id p' _ hget' hrole hnamed
    obtain ⟨q, hq, houtline⟩ := hother.sound p (NameMap.mem_values_iff.2 ⟨id, hget⟩) (hitems ▸ hnamed)
    exact ⟨q, hq, (Policy.outline_eq htarget hitems).trans houtline⟩

/-- A plan that places what some persona policies ask for makes the authority reflect the persona by its
policies in force. These are placed, or were reflected before and are neither placed nor stripped. What
was in force and is so no more has lost its label where nothing is placed. -/
theorem reflects_self (h : Effects a a' persona.roleName (persona.Asks asked) stripped shed)
    (ha : a.WellKept) (ha' : a'.WellKept) (hbefore : a.Reflects persona policies)
    (hadmits : persona.Admits policies) (hadmits' : persona.Admits policies')
    (hasked : ∀ policy, asked policy → policies' policy)
    (hcarried : ∀ q, persona.Asks asked q → ∃ p ∈ a'.policies.values, p.Carries q persona.roleName)
    (hconfined : ∀ q, persona.Asks asked q → ∀ p ∈ a'.policies.values, p.target = q.target →
      p.ConfinedTo q persona.roleName)
    (hkept : ∀ policy, policies' policy → asked policy ∨ policies policy ∧
      ∀ p ∈ a.policies.values, stripped p → ∀ q, persona.Asks (· = policy) q → p.target ≠ q.target)
    (hgone : ∀ policy, policies policy → ¬ policies' policy → ∀ p ∈ a'.policies.values,
      Label.personaPolicy policy.guid ∈ p.labels → ∃ q, persona.Asks asked q ∧ p.target = q.target) :
    a'.Reflects persona policies' := by
  constructor
  · rintro q ⟨policy, hpolicy, draw, hq⟩
    rcases hkept policy hpolicy with hnew | ⟨hold, hspared⟩
    · exact hcarried q ⟨policy, hnew, draw, hq⟩
    · by_cases hplaced : asked policy
      · exact hcarried q ⟨policy, hplaced, draw, hq⟩
      -- What carries it is left as it was.
      obtain ⟨p, hp, hcarries⟩ := hbefore.complete q ⟨policy, hold, draw, hq⟩
      obtain ⟨id, hget⟩ := NameMap.mem_values_iff.1 hp
      refine ⟨p, NameMap.mem_values_iff.2 ⟨id, h.stays id p hget ?_ ?_⟩, hcarries⟩
      · rintro q' ⟨policy', hpolicy', draw', hq'⟩ htarget
        obtain rfl := hadmits'.eq_of_target (hasked policy' hpolicy') hpolicy
          ⟨policy', rfl, draw', hq'⟩ ⟨policy, rfl, draw, hq⟩ (htarget.trans hcarries.target)
        exact hplaced hpolicy'
      · exact fun hstripped => hspared p hp hstripped q ⟨policy, rfl, draw, hq⟩ hcarries.target
  · intro p hp hnamed
    obtain ⟨id, hget⟩ := NameMap.mem_values_iff.1 hp
    by_cases hwanted : ∃ q, persona.Asks asked q ∧ p.target = q.target
    · obtain ⟨q, hq, htarget⟩ := hwanted
      have hq' := hq.mono hasked
      obtain ⟨p', hp', hcarries⟩ := hcarried q hq
      obtain ⟨id', hget'⟩ := NameMap.mem_values_iff.1 hp'
      obtain ⟨-, rfl⟩ :=
        hadmits'.unique ha'.toWellStored hq' hget hget' htarget hcarries.target
      exact ⟨q, hq', (hcarries.outline_eq_iff hq.provisional).2 (hconfined q hq p hp htarget)⟩
    · have hfree : ∀ q, persona.Asks asked q → q.target ≠ p.target :=
        fun q hq htarget => hwanted ⟨q, hq, htarget.symm⟩
      have hstored : p ∈ a.policies.values :=
        NameMap.mem_values_iff.2 ⟨id, h.origin id p hget hfree hnamed⟩
      obtain ⟨q, ⟨policy, hpolicy, draw, hq⟩, houtline⟩ := hbefore.sound p hstored hnamed
      by_cases hstill : policies' policy
      · exact ⟨q, ⟨policy, hstill, draw, hq⟩, houtline⟩
      · -- The policy has the label of a persona policy that is not in force any more.
        have hcarries := hbefore.carries ha hadmits ⟨policy, hpolicy, draw, hq⟩ hstored
          (congrArg Policy.Outline.target houtline)
        exact absurd (hgone policy hpolicy hstill p hp
          (hcarries.labels _ (mem_labels_of_mem_synthesize hq))) hwanted

end Plan.Effects

/-! ### The stores -/

/-- The persona policy is in force: it is stored for the persona and in use, and the persona is enabled. -/
structure PersonaCatalog.InForce (c : PersonaCatalog) (persona : Persona) (policy : PersonaPolicy) :
    Prop where
  /-- The persona is enabled. -/
  enabled : persona.enabled = true
  /-- The policy is stored. -/
  stored : c.policies.get? policy.guid = some policy
  /-- It belongs to the persona. -/
  owner : policy.personaGuid = persona.guid
  /-- It is in use. -/
  active : policy.isActive = true

/-- The identifier is that of a persona policy in force, which asks for the target of the policy. -/
def PersonaCatalog.Tells (c : PersonaCatalog) (p : Policy) (guid : String) : Prop :=
  ∃ persona policy, c.personas.get? persona.guid = some persona ∧ c.InForce persona policy ∧
    policy.guid = guid ∧ ∃ q, persona.Asks (· = policy) q ∧ p.target = q.target

/-- The policies of the authority are in step with the catalog. -/
structure System.InStep (s : System) : Prop where
  /-- The authority reflects every persona. -/
  reflects : ∀ guid persona, s.catalog.personas.get? guid = some persona →
    s.authority.Reflects persona (s.catalog.InForce persona)
  /-- The labels of persona policies tell what they ask for. -/
  labelled : ∀ p ∈ s.authority.policies.values, ∀ guid, Label.personaPolicy guid ∈ p.labels →
    s.catalog.Tells p guid

/-- No object of the catalog has an identifier that is still to be drawn, and what persona policies ask
for fits into memory. -/
structure PersonaCatalog.Regular (c : PersonaCatalog) (drawn : Nat) : Prop where
  /-- No persona has such an identifier. -/
  persona : ∀ n, drawn ≤ n → c.personas.get? (Uuid.ofDraw n) = none
  /-- No persona policy has such an identifier. -/
  policy : ∀ n, drawn ≤ n → c.policies.get? (Uuid.ofDraw n) = none
  /-- What a persona policy asks for fits into memory, whatever persona it belongs to. -/
  fits : ∀ guid policy, c.policies.get? guid = some policy → ∀ persona, policy.Fits persona

/-- The persona policies in force of one persona may be enforced beside each other. -/
theorem System.WellKept.admits {s : System} (h : s.WellKept) (hc : s.catalog.InOrder s.drawn)
    (hregular : s.catalog.Regular s.drawn) (persona : Persona) :
    persona.Admits (s.catalog.InForce persona) := by
  refine ⟨fun policy hpolicy => h.assets _ policy hpolicy.stored,
    fun policy hpolicy => hregular.fits _ policy hpolicy.stored persona,
    fun policy policy' hpolicy hpolicy' => ?_⟩
  by_cases hguid : policy'.guid = policy.guid
  · exact .inl (Option.some.inj (hpolicy.stored.symm.trans (hguid ▸ hpolicy'.stored)))
  · exact .inr ⟨hguid, hpolicy'.active, hc.apart _ _ policy policy' hpolicy.stored hpolicy'.stored
      (Ne.symm hguid) (hpolicy.owner.trans hpolicy'.owner.symm) hpolicy.active hpolicy'.active⟩

namespace System.InStep

variable {s s' : System}

/-- Being in step is about the policies of the authority and the catalog. -/
theorem of_same (h : s.InStep) (hpolicies : s'.authority.policies = s.authority.policies)
    (hcatalog : s'.catalog = s.catalog) : s'.InStep := by
  constructor
  · intro guid persona hpersona
    rw [hcatalog] at hpersona ⊢
    exact (h.reflects guid persona hpersona).of_same hpolicies
  · rw [hpolicies, hcatalog]
    exact h.labelled

/-- A plan for one persona is carried out in full, and nothing changes in the catalog but that persona and
its policies. The stores are in step if the persona is reflected afterwards, and the labels of its
persona policies tell what they ask for. -/
theorem of_effects (h : s.InStep) (hkept : s.authority.WellKept) (hc : s.catalog.InOrder s.drawn)
    (hplain : ∀ guid p, s.catalog.personas.get? guid = some p → Text.startsWith guid "policy:" = false)
    {persona old : Persona} {asked : PersonaPolicy → Prop} {stripped : Policy → Prop}
    {shed : String → Prop} (hold : s.catalog.personas.get? persona.guid = some old)
    (hrole : old.roleName = persona.roleName)
    (heffects : Plan.Effects s.authority s'.authority persona.roleName (persona.Asks asked) stripped
      shed)
    (hshed : ∀ l, shed l → l = Label.persona persona.guid ∨ ∃ guid, l = Label.personaPolicy guid ∧
      ∀ other policy, s.catalog.personas.get? other.guid = some other →
        s.catalog.InForce other policy → policy.guid = guid → other.guid = persona.guid)
    (hothers : ∀ guid, guid ≠ persona.guid →
      s'.catalog.personas.get? guid = s.catalog.personas.get? guid)
    (hforce : ∀ guid other, s.catalog.personas.get? guid = some other → guid ≠ persona.guid →
      ∀ policy, s.catalog.InForce other policy ↔ s'.catalog.InForce other policy)
    (hself : ∀ p, s'.catalog.personas.get? persona.guid = some p →
      s'.authority.Reflects p (s'.catalog.InForce p))
    (hasked : ∀ policy, asked policy → s'.catalog.personas.get? persona.guid = some persona ∧
      s'.catalog.InForce persona policy)
    (hlabelled : ∀ policy, s.catalog.InForce old policy → ∀ p ∈ s'.authority.policies.values,
      Label.personaPolicy policy.guid ∈ p.labels →
      (∃ q, old.Asks (· = policy) q ∧ p.target = q.target) → s'.catalog.Tells p policy.guid) :
    s'.InStep := by
  have hkey : ∀ {guid p}, s.catalog.personas.get? guid = some p → p.guid = guid :=
    fun hp => (hc.persona _ _ hp).1
  have hplain' := hplain persona.guid old hold
  constructor
  · intro guid other hother
    by_cases hguid : guid = persona.guid
    · exact hself other (hguid ▸ hother)
    rw [hothers guid hguid] at hother
    obtain rfl := hkey hother
    refine Authority.Reflects.congr (heffects.reflects_other hkept (h.reflects _ other hother) ?_ ?_ ?_ ?_)
      (hforce _ other hother hguid)
    · exact fun hsame => hguid (hc.roles _ _ _ _ hother hold (hsame.trans hrole.symm))
    · intro htype
      rcases hshed _ htype with heq | ⟨x, heq, -⟩
      · exact Label.persona_ne_personaType _ heq.symm
      · exact Label.personaPolicy_ne_personaType _ heq.symm
    · intro hlabel
      rcases hshed _ hlabel with heq | ⟨x, heq, -⟩
      · exact hguid (Label.persona_injective heq)
      · exact Label.persona_ne_personaPolicy (hplain _ other hother) x heq
    · intro policy hpolicy hlabel
      rcases hshed _ hlabel with heq | ⟨x, heq, howned⟩
      · exact Label.persona_ne_personaPolicy hplain' policy.guid heq.symm
      · exact hguid (howned other policy hother hpolicy (Label.personaPolicy_injective heq))
  · intro p' hp' guid hlabel
    obtain ⟨id, hget⟩ := NameMap.mem_values_iff.1 hp'
    rcases heffects.labels id p' _ hget hlabel with ⟨p, hp, htarget, hmem⟩ |
      ⟨q, ⟨policy, hpolicy, draw, hq⟩, htarget, hmem⟩
    · obtain ⟨other, policy, hother, hpolicy, rfl, q, hq, hsame⟩ :=
        h.labelled p (NameMap.mem_values_iff.2 ⟨id, hp⟩) guid hmem
      by_cases hguid : other.guid = persona.guid
      · obtain rfl := Option.some.inj (hold.symm.trans (hguid ▸ hother))
        exact hlabelled policy hpolicy p' hp' hlabel ⟨q, hq, htarget.trans hsame⟩
      · exact ⟨other, policy, (hothers _ hguid).trans hother, (hforce _ other hother hguid policy).1 hpolicy,
          rfl, q, hq, htarget.trans hsame⟩
    · -- A label that is new comes with what is placed.
      obtain ⟨hpersona, hinForce⟩ := hasked policy hpolicy
      have hcases := (mem_labels_synthesize_iff hq _).1 hmem
      simp only [Label.ofPersonaPolicy, List.mem_cons, List.not_mem_nil, or_false] at hcases
      rcases hcases with heq | heq | heq
      · exact absurd heq.symm (Label.persona_ne_personaPolicy hplain' guid)
      · obtain rfl := Label.personaPolicy_injective heq
        exact ⟨persona, policy, hpersona, hinForce, rfl, q, ⟨policy, rfl, draw, hq⟩, htarget⟩
      · exact absurd heq (Label.personaPolicy_ne_personaType guid)

end System.InStep

end CatalogAccess
