import CatalogAccess.Proofs.NameMap
import CatalogAccess.Proofs.Persona.Revocation

/-!
# What is in use is told apart

No two personas in use have the same name, and the policies in use of one persona differ in name and
in what they are about (`System.Reachable.told_apart`). Names are compared where a request sets
them: `createPersona_name` and `updatePersona_name` say what must have been checked before a persona
is written, and `Admitted.name` what has been checked of a policy. Each comparison leaves out what
the request replaces, and so a write keeps the objects apart (`Request.run_namesApart`).
-/

namespace CatalogAccess

open Operation (runOn Keeps Since keeps_lift keeps_check keeps_read keeps_throw)

namespace PersonaService

variable {σ : ServiceSettings} {s : System}

/-! ### What is checked of the name of a persona -/

theorem ensureUniqueName_iff {name : String} {except : Option String} {personas : List Persona} :
    ensureUniqueName name except personas = .ok () ↔
      ∀ p ∈ personas, some p.guid ≠ except → p.isActive = true → p.name ≠ name := by
  unfold ensureUniqueName
  split
  · next htaken =>
    obtain ⟨p, hp, htest⟩ := List.any_eq_true.1 htaken
    simp only [Bool.and_eq_true, bne_iff_ne, beq_iff_eq] at htest
    refine ⟨fun h => absurd h (by simp), fun h => ?_⟩
    exact absurd htest.1.1 (h p hp htest.2 htest.1.2)
  · next hfree =>
    refine ⟨fun _ p hp hguid hactive hname => hfree ?_, fun _ => rfl⟩
    rw [List.any_eq_true]
    exact ⟨p, hp, by simp [hguid, hactive, hname]⟩

/-- The personas that are listed are those of the catalog. -/
theorem keeps_personas {c : PersonaCatalog} {d : Nat} :
    Keeps (Since c d) (Operation.read System.personas) fun found => found = c.personas.values := by
  refine keeps_read fun s hs found hread => ?_
  unfold System.personas at hread
  rw [Except.bind_eq_ok_iff] at hread
  obtain ⟨-, -, hvalues⟩ := hread
  rw [← hs.catalog]
  exact (Except.ok.inj hvalues).symm

/-- A persona is created only under a name that no persona in use has. -/
theorem createPersona_name (p : Persona) :
    (runOn (createPersona σ p) s).2.catalog = s.catalog ∨
      ensureUniqueName p.name none s.catalog.personas.values = .ok () := by
  let J (s' : System) : Prop := s'.catalog = s.catalog ∨
    ensureUniqueName p.name none s.catalog.personas.values = .ok ()
  have hstop : ∀ s', Since s.catalog s.drawn s' → J s' := fun _ hs => .inl hs.catalog
  refine keeps_check.then ⟨rfl, Nat.le_refl _⟩ hstop fun _ _ hs _ =>
    keeps_personas.then hs hstop fun personas _ hs hfound => ?_
  refine Keeps.then (keeps_lift fun _ h => h) hs hstop fun _ _ _ hunique => .inr ?_
  exact hfound ▸ hunique

/-- A persona is updated only when it is in use, and renamed only to what no other persona in use is
called. -/
theorem updatePersona_name (update : Persona) :
    (runOn (updatePersona σ update) s).2.catalog = s.catalog ∨
      ∃ existing, s.catalog.personas.get? update.guid = some existing ∧ existing.isActive = true ∧
        (update.name ≠ existing.name →
          ensureUniqueName update.name (some existing.guid) s.catalog.personas.values = .ok ()) := by
  let J (s' : System) : Prop := s'.catalog = s.catalog ∨
    ∃ existing, s.catalog.personas.get? update.guid = some existing ∧ existing.isActive = true ∧
      (update.name ≠ existing.name →
        ensureUniqueName update.name (some existing.guid) s.catalog.personas.values = .ok ())
  have hstop : ∀ s', Since s.catalog s.drawn s' → J s' := fun _ hs => .inl hs.catalog
  refine keeps_check.then ⟨rfl, Nat.le_refl _⟩ hstop fun _ _ hs _ =>
    (keeps_storedPersona (fun _ hs => hs.catalog) _).then hs hstop fun existing _ hs hget => ?_
  refine Keeps.then (keeps_lift (Q := fun _ => requireActive existing = .ok ()) fun _ h => h) hs
    hstop fun _ _ hs hactive => Keeps.then_when (keeps_throw _) hs hstop fun _ hs => ?_
  have hinUse := requireActive_iff.1 hactive
  split
  · refine keeps_personas.then hs hstop fun personas _ hs hfound =>
      Keeps.then (keeps_lift fun _ h => h) hs hstop fun _ _ _ hunique => .inr ?_
    exact ⟨existing, hget, hinUse, fun _ => hfound ▸ hunique⟩
  · next hsame =>
    refine .inr ⟨existing, hget, hinUse, fun hne => absurd ?_ hsame⟩
    exact bne_iff_ne.2 hne

end PersonaService

/-! ### Objects told apart by name -/

namespace PersonaCatalog

/-- Not both personas are in use under one name. -/
def PersonasApart (p p' : Persona) : Prop :=
  p.isActive = true → p'.isActive = true → p.name ≠ p'.name

/-- Not both policies are in use for one persona under one name. -/
def PoliciesApart (p p' : PersonaPolicy) : Prop :=
  p.personaGuid = p'.personaGuid → p.isActive = true → p'.isActive = true → p.name ≠ p'.name

/-- What is in use is told apart by name. -/
structure NamesApart (c : PersonaCatalog) : Prop where
  /-- Personas have names of their own. -/
  personas : c.personas.Pairwise PersonasApart
  /-- The policies of a persona have names of their own. -/
  policies : c.policies.Pairwise PoliciesApart

namespace NamesApart

variable {c : PersonaCatalog}

theorem withPersona (h : c.NamesApart) {saved : Persona}
    (hname : ∀ guid p, c.personas.get? guid = some p → guid ≠ saved.guid → p.isActive = true →
      p.name ≠ saved.name) : (c.withPersona saved).NamesApart :=
  ⟨h.personas.insert (fun _ _ hapart hactive hactive' => (hapart hactive' hactive).symm)
    fun guid p hp hne hactive _ => hname guid p hp hne hactive, h.policies⟩

theorem withPolicy (h : c.NamesApart) {saved : PersonaPolicy}
    (hname : ∀ guid p, c.policies.get? guid = some p → guid ≠ saved.guid →
      p.personaGuid = saved.personaGuid → p.isActive = true → p.name ≠ saved.name) :
    (c.withPolicy saved).NamesApart :=
  ⟨h.personas, h.policies.insert
    (fun _ _ hapart hsame hactive hactive' => (hapart hsame.symm hactive' hactive).symm)
    fun guid p hp hne hsame hactive _ => hname guid p hp hne hsame hactive⟩

theorem deletePersona (h : c.NamesApart) (guid : String) : (c.deletePersona guid).NamesApart :=
  ⟨h.personas.mono fun _ _ hp => (NameMap.get?_erase_eq_some.1 hp).2,
    h.policies.mono fun _ _ hp => (get?_deletePersona_policies.1 hp).1⟩

theorem deletePolicy (h : c.NamesApart) (guid : String) : (c.deletePolicy guid).NamesApart :=
  ⟨h.personas, h.policies.mono fun _ _ hp => (NameMap.get?_erase_eq_some.1 hp).2⟩

end NamesApart

end PersonaCatalog

namespace PersonaService

variable {σ : ServiceSettings} {s : System}

/-- Whatever a request ends with, it keeps what is in use apart by name. -/
theorem Request.run_namesApart (σ : ServiceSettings) (r : Request) (hc : s.catalog.InOrder s.drawn)
    (h : s.catalog.NamesApart) : (r.run σ s).catalog.NamesApart := by
  -- What is stored under another key has another identifier.
  have hkey : ∀ {guid : String} {p : Persona}, s.catalog.personas.get? guid = some p →
      p ∈ s.catalog.personas.values ∧ p.guid = guid := fun hp =>
    ⟨NameMap.mem_values_iff.2 ⟨_, hp⟩, (hc.persona _ _ hp).1⟩
  cases (Request.run_revises σ s r).2 with
  | kept r hcatalog => exact hcatalog ▸ h
  | created persona saved hsaved hguid hrole hcatalog =>
    obtain hkept | hunique := createPersona_name (σ := σ) (s := s) persona
    · exact (congrArg _ hkept).mpr h
    · have hname : saved.name = persona.name := by rw [hsaved]
      rw [hcatalog]
      refine h.withPersona fun guid p hp hne hactive => ?_
      rw [hname]
      exact ensureUniqueName_iff.1 hunique p (hkey hp).1 (Option.some_ne_none _) hactive
  | updated update existing saved hexisting hsaved hguid hcatalog =>
    obtain hkept | ⟨found, hfound, hactive, hunique⟩ := updatePersona_name (σ := σ) (s := s) update
    · exact (congrArg _ hkept).mpr h
    · obtain rfl : found = existing := Option.some.inj (hfound.symm.trans hexisting)
      have hname : saved.name = update.name := by rw [hsaved]; rfl
      have hplace : saved.guid = update.guid := hguid.spec.2 (hc.persona _ _ hexisting).2
      rw [hcatalog]
      refine h.withPersona fun guid p hp hne hinUse => ?_
      rw [hname]
      rw [hplace] at hne
      by_cases hrenamed : update.name = found.name
      · -- Nothing is checked when the name stays: the persona that is replaced had it already.
        rw [hrenamed]
        exact h.personas hp hexisting hne hinUse hactive
      · refine ensureUniqueName_iff.1 (hunique hrenamed) p (hkey hp).1 (fun heq => hne ?_) hinUse
        exact (hkey hp).2.symm.trans ((Option.some.inj heq).trans (hkey hexisting).2)
  | deleted guid hcatalog => exact hcatalog ▸ h.deletePersona guid
  | put subjects user persona policy saved hpersona hadmitted hprior hsaved hguid hcatalog =>
    have hname : saved.name = policy.name := by rw [hsaved]
    rw [hcatalog]
    refine h.withPolicy fun guid p hp hne howner hactive => ?_
    obtain ⟨hmem, hother⟩ := sibling_of_stored hc hpersona hsaved hguid.spec.2 hp hne howner
    rw [hname]
    exact ensureUniquePolicyName_iff.1 hadmitted.name p hmem hother hactive
  | removed guid hcatalog => exact hcatalog ▸ h.deletePolicy guid

end PersonaService

theorem PersonaCatalog.namesApart_empty : PersonaCatalog.NamesApart {} := by
  have hnone : ∀ {α : Type} {guid : String} {p : α}, ¬ NameMap.get? (∅ : NameMap α) guid = some p :=
    fun h => Option.some_ne_none _ h.symm
  exact ⟨fun _ _ _ _ h => absurd h hnone, fun _ _ _ _ h => absurd h hnone⟩

/-- Requests that are carried out one after the other. -/
theorem System.Reachable.requests {s : System} (h : s.Reachable) (σ : ServiceSettings)
    (rs : List PersonaService.Request) : (rs.foldl (fun s r => r.run σ s) s).Reachable := by
  induction rs generalizing s with
  | nil => exact h
  | cons r rs ih => exact ih (h.request σ r)

/-- Whatever requests have led to a system, what is in use in its catalog is told apart by name. -/
theorem System.Reachable.namesApart {s : System} (h : s.Reachable) : s.catalog.NamesApart := by
  induction h with
  | empty => exact PersonaCatalog.namesApart_empty
  | request h σ r ih => exact r.run_namesApart σ h.catalog_inOrder ih
  | faults _ _ _ ih => exact ih

/-- Whatever requests have led to a system: no two personas in use have the same name, and of the
policies in use of one persona no two have the same name, or the same category, set of assets and kind
of masking. -/
theorem System.Reachable.told_apart {s : System} (h : s.Reachable) :
    (∀ guid guid' p p', s.catalog.personas.get? guid = some p →
      s.catalog.personas.get? guid' = some p' → guid ≠ guid' → p.isActive = true →
      p'.isActive = true → p.name ≠ p'.name) ∧
    ∀ guid guid' p p', s.catalog.policies.get? guid = some p →
      s.catalog.policies.get? guid' = some p' → guid ≠ guid' → p.personaGuid = p'.personaGuid →
      p.isActive = true → p'.isActive = true →
      p.name ≠ p'.name ∧ ¬ (p.category = p'.category ∧ (∀ asset, asset ∈ p.assets ↔ asset ∈ p'.assets) ∧
        p.isDataMask = p'.isDataMask) := by
  have hnames := h.namesApart
  refine ⟨fun guid guid' p p' hp hp' hne => hnames.personas hp hp' hne,
    fun guid guid' p p' hp hp' hne hsame hactive hactive' =>
      ⟨hnames.policies hp hp' hne hsame hactive hactive', ?_⟩⟩
  rintro ⟨hcategory, hassets, hmask⟩
  have hset : NameSet.ofList p'.assets = NameSet.ofList p.assets :=
    NameSet.ext_mem fun asset => by simp only [NameSet.mem_ofList, hassets]
  have hguid : p'.guid ≠ p.guid := by
    rw [(h.catalog_inOrder.policy _ _ hp).1, (h.catalog_inOrder.policy _ _ hp').1]
    exact hne.symm
  have hduplicates : PersonaService.duplicates p p' = true := by
    simp [PersonaService.duplicates, PersonaPolicy.sameAssets, hguid, hactive', hcategory, hset, hmask]
  have hfree := h.catalog_inOrder.apart _ _ p p' hp hp' hne hsame hactive hactive'
  exact Bool.false_ne_true (hfree.symm.trans hduplicates)

namespace PersonaService

/-- The system after two personas have been created, of which one has been renamed, with two policies on
different glossaries for one of them and one called the same for the other. -/
def crowded : System :=
  [Request.createPersona { guid := "stewards", name := "stewards" },
    .createPersona { guid := "owners", name := "owners" },
    .updatePersona { guid := "owners", name := "proprietors" },
    .putPolicy {} "" (termsPolicy "finance"),
    .putPolicy {} "" { termsPolicy "risk" with guid := "others", name := "others" },
    .putPolicy {} "" { termsPolicy "finance" with guid := "more", personaGuid := "owners" }].foldl
  (fun s r => r.run {} s) {}

theorem crowded_reachable : crowded.Reachable := System.Reachable.empty.requests {} _

/-- Two personas and two policies of one of them are in use, and are told apart. -/
theorem told_apart_crowded :
    ∃ a b p q, crowded.catalog.personas.get? "stewards" = some a ∧
      crowded.catalog.personas.get? "owners" = some b ∧
      a.isActive = true ∧ b.isActive = true ∧ a.name ≠ b.name ∧
      crowded.catalog.policies.get? "terms" = some p ∧
      crowded.catalog.policies.get? "others" = some q ∧
      p.personaGuid = q.personaGuid ∧ p.isActive = true ∧ q.isActive = true ∧ p.name ≠ q.name ∧
      ¬ (p.category = q.category ∧ (∀ asset, asset ∈ p.assets ↔ asset ∈ q.assets) ∧
        p.isDataMask = q.isDataMask) := by
  have hpersonas : (crowded.catalog.personas.get? "stewards").any (fun a =>
      (crowded.catalog.personas.get? "owners").any fun b => a.isActive && b.isActive) = true := by
    decide +kernel
  have hpolicies : (crowded.catalog.policies.get? "terms").any (fun p =>
      (crowded.catalog.policies.get? "others").any fun q =>
        p.personaGuid == q.personaGuid && p.isActive && q.isActive) = true := by
    decide +kernel
  obtain ⟨a, ha, hpersonas⟩ := (Option.any_eq_true _ _).1 hpersonas
  obtain ⟨b, hb, hpersonas⟩ := (Option.any_eq_true _ _).1 hpersonas
  obtain ⟨p, hp, hpolicies⟩ := (Option.any_eq_true _ _).1 hpolicies
  obtain ⟨q, hq, hpolicies⟩ := (Option.any_eq_true _ _).1 hpolicies
  simp only [Bool.and_eq_true, beq_iff_eq] at hpersonas hpolicies
  obtain ⟨⟨howner, hactive⟩, hactive'⟩ := hpolicies
  have hapart := crowded_reachable.told_apart
  have hdiffer := hapart.2 _ _ p q hp hq (by decide) howner hactive hactive'
  exact ⟨a, b, p, q, ha, hb, hpersonas.1, hpersonas.2,
    hapart.1 _ _ a b ha hb (by decide) hpersonas.1 hpersonas.2, hp, hq, howner, hactive, hactive',
    hdiffer.1, hdiffer.2⟩

end PersonaService

end CatalogAccess
