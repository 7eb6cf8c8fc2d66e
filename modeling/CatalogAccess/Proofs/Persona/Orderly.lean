import CatalogAccess.Proofs.Persona.Completion
import CatalogAccess.Proofs.Persona.Grants
import CatalogAccess.Proofs.Persona.Putting

/-!
# Orderly runs

A regular request that is carried out all or nothing keeps the stores in step
(`PersonaService.Request.AllOrNothing.upkept`), and so do orderly runs of such requests
(`System.Orderly.upkept`), among them all runs of regular requests in which no call fails
(`System.Led.orderly`). After an orderly run the policies in use of enabled personas are granted
(`System.Orderly.serves`), and whatever is granted to a persona is asked for by one of them
(`System.Orderly.accounts`). Requests that are not regular may break either, although no call fails.
-/

namespace CatalogAccess

open Operation (runOn)

namespace PersonaService

variable {σ : ServiceSettings} {s : System} {r : Request}

/-- A run with a result ends with it. -/
theorem runOn_of_toOption {α : Type} {x : Operation α} {a : α} (h : (runOn x s).1.toOption = some a) :
    runOn x s = (.ok a, (runOn x s).2) := by
  generalize runOn x s = e at h
  obtain ⟨r, s'⟩ := e
  cases r with
  | error e => exact absurd h.symm (Option.some_ne_none a)
  | ok b => exact congrArg (fun a => (Except.ok a, s')) (Option.some.inj h)

/-- A regular request that is carried out all or nothing keeps the stores in step. -/
theorem Request.AllOrNothing.upkept (h : r.AllOrNothing σ s) (hs : s.Upkept) (hr : r.Regular s) :
    (r.run σ s).Upkept := by
  have hs' : (r.run σ s).Regular := ⟨hs.wellNamed.request σ r hr.namesPlainly,
    (Request.run_revises σ s r).catalog_regular hr hs.catalog⟩
  refine ⟨hs', ?_⟩
  cases hreport : r.report? σ s with
  | none =>
    obtain ⟨hpolicies, hcatalog⟩ := h.untouched hreport
    exact hs.inStep.of_same hpolicies hcatalog
  | some report =>
    have hcomplete := h.complete report hreport
    cases r with
    | createPersona persona => exact createPersona_inStep hs hr
    | updatePersona update =>
      obtain ⟨o, hresult, rfl⟩ := Option.map_eq_some_iff.1 hreport
      exact updatePersona_inStep hs hs' hr (runOn_of_toOption hresult) hcomplete
    | deletePersona guid => exact deletePersona_inStep hs (runOn_of_toOption hreport) hcomplete
    | putPolicy subjects user policy =>
      obtain ⟨o, hresult, rfl⟩ := Option.map_eq_some_iff.1 hreport
      exact putPolicy_inStep hs hs' hr (runOn_of_toOption hresult) hcomplete
    | deletePolicy guid => exact deletePolicy_inStep hs hs' (runOn_of_toOption hreport) hcomplete

end PersonaService

/-! ### Runs -/

/-- A system that requests lead to, each of which meets a condition. -/
inductive System.Led (meets : ServiceSettings → System → PersonaService.Request → Prop) : System → Prop
  /-- The stores are empty at first. -/
  | empty : Led meets {}
  /-- A request that meets the condition is carried out. -/
  | request {s : System} (h : Led meets s) (σ : ServiceSettings) (r : PersonaService.Request)
      (hr : meets σ s r) : Led meets (r.run σ s)
  /-- The faults that calls meet change, and the names of the policies whose writes fail. -/
  | faults {s : System} (h : Led meets s) (faults : Faults) (failing : NameSet) :
      Led meets { s with faults, authority := { s.authority with failing } }

/-- A system that regular requests lead to, each of which is carried out all or nothing. -/
def System.Orderly : System → Prop :=
  System.Led fun σ s r => r.Regular s ∧ r.AllOrNothing σ s

/-- Nothing is stored at first. -/
theorem System.upkept_empty : System.Upkept {} := by
  have hnone : ∀ {α : Type} (k : String), (∅ : NameMap α).get? k = none := fun _ => rfl
  refine ⟨⟨.empty, fun _ _ => hnone _, fun _ _ => hnone _, fun guid policy hget => ?_⟩,
    fun guid persona hget => ?_, fun p hp => ?_⟩
  · exact absurd hget.symm (Option.some_ne_none policy)
  · exact absurd hget.symm (Option.some_ne_none persona)
  · exact absurd hp List.not_mem_nil

/-- Orderly runs keep the stores in step. -/
theorem System.Orderly.upkept {s : System} (h : s.Orderly) : s.Upkept := by
  induction h with
  | empty => exact System.upkept_empty
  | request _ σ r hr ih => exact hr.2.upkept ih hr.1
  | faults _ faults failing ih =>
    exact ⟨⟨ih.wellNamed.faults faults failing, ih.catalog⟩, ih.inStep.of_same rfl rfl⟩

theorem System.Led.reachable {s : System}
    {meets : ServiceSettings → System → PersonaService.Request → Prop} (h : s.Led meets) :
    s.Reachable := by
  induction h with
  | empty => exact .empty
  | request _ σ r _ ih => exact ih.request σ r
  | faults _ faults failing ih => exact ih.faults faults failing

/-- Regular requests in the course of which no call fails make an orderly run. -/
theorem System.Led.orderly {s : System} (h : s.Led fun _ s r => s.Faultless ∧ r.Regular s) :
    s.Orderly := by
  induction h with
  | empty => exact .empty
  | request h σ r hr ih => exact ih.request σ r ⟨hr.2, .of_faultless hr.1 h.reachable.keeps r⟩
  | faults _ faults failing ih => exact ih.faults faults failing

namespace PersonaService

/-- The system after a persona policy has been created and then moved to another glossary. -/
def tended : System :=
  let s := Request.run {} {} (.createPersona { guid := "stewards", name := "stewards" })
  let s := Request.run {} s (.putPolicy {} "" (termsPolicy "finance"))
  Request.run {} s (.putPolicy {} "" (termsPolicy "risk"))

/-- What a policy on terms asks for is small, whatever the persona is called. -/
theorem termsPolicy_fits {glossary : String} (h : glossary ∈ ["finance", "risk"]) (persona : Persona) :
    (termsPolicy glossary).Fits persona := by
  have htest : (["finance", "risk"].all fun glossary => ["collection", ""].all fun name =>
      (synthesize 0 { name } (termsPolicy glossary)).all fun q =>
        decide ((ResourceMap.canonicalBytes q.resources).length < 2 ^ 60)) = true := by
    decide +kernel
  simp only [List.all_eq_true, decide_eq_true_eq] at htest
  have hfits : ∀ name ∈ ["collection", ""], (termsPolicy glossary).Fits { name } := htest glossary h
  cases htypes : persona.isTypeUnrestricted with
  | true => exact (hfits "collection" (by decide)).congr rfl rfl rfl (htypes.trans (by decide))
  | false => exact (hfits "" (by decide)).congr rfl rfl rfl (htypes.trans (by decide))

/-- A request to create the policy, or to move it, is regular. -/
theorem termsPolicy_regular {s : System} {glossary : String} (h : glossary ∈ ["finance", "risk"])
    (howner : (s.catalog.policies.get? "terms").all (·.personaGuid == "stewards") = true) :
    (Request.putPolicy {} "" (termsPolicy glossary)).Regular s := by
  have hguid : 't' ∈ "terms".toList := by decide
  refine .putPolicy _ _ _ (fun n _ => Uuid.ne_ofDraw hguid (by decide) n) (termsPolicy_fits h)
    (fun _ _ _ => rfl) fun prior owner hprior _ _ => ?_
  rw [show s.catalog.policies.get? "terms" = some prior from hprior, Option.all_some, beq_iff_eq]
    at howner
  exact howner.symm

theorem tended_orderly : tended.Orderly := by
  have hguid : 't' ∈ "stewards".toList := by decide
  have hcreate : (Request.createPersona { guid := "stewards", name := "stewards" }).Regular {} :=
    .createPersona _ (fun n _ => Uuid.ne_ofDraw hguid (by decide) n) (by decide) rfl
  have hempty : System.Led (fun _ s r => s.Faultless ∧ r.Regular s) {} := .empty
  refine (((hempty.request {} _ ⟨?_, hcreate⟩).request {} _
    ⟨?_, termsPolicy_regular (by decide) ?_⟩).request {} _
    ⟨?_, termsPolicy_regular (by decide) ?_⟩).orderly
  all_goals decide +kernel

end PersonaService

/-! ### What is asked for is granted -/

/-- What the policies in use of an enabled persona ask for is granted after an orderly run. -/
theorem System.Orderly.serves {s : System} (h : s.Orderly) {guid : String} {persona : Persona}
    (hpersona : s.catalog.personas.get? guid = some persona) (henabled : persona.enabled = true)
    {policy : PersonaPolicy} (hpolicy : policy ∈ s.catalog.policiesOf guid)
    (hactive : policy.isActive = true) {draw : Nat} {q : Policy}
    (hq : q ∈ synthesize draw persona policy) :
    q.IsProvisional persona.roleName ∧
      ∃ p ∈ s.authority.policies.values, p.Carries q persona.roleName := by
  have hupkept := h.upkept
  have hkey := (hupkept.inOrder.persona guid persona hpersona).1
  have hinForce := hupkept.inOrder.inForce_of_mem henabled (hkey.symm ▸ hpolicy) hactive
  have hasks : persona.Asks (s.catalog.InForce persona) q := ⟨policy, hinForce, draw, hq⟩
  exact ⟨hasks.provisional, (hupkept.inStep.reflects guid persona hpersona).complete q hasks⟩

namespace PersonaService

/-- The persona policy is granted on the glossary that it has been moved to. -/
theorem serves_moved_policy :
    ∃ persona policy q, tended.Orderly ∧ tended.catalog.personas.get? "stewards" = some persona ∧
      persona.enabled = true ∧ policy ∈ tended.catalog.policiesOf "stewards" ∧
      policy.isActive = true ∧ policy.assets = ["risk"] ∧ q ∈ synthesize 0 persona policy ∧
      ∃ p ∈ tended.authority.policies.values, p.Carries q persona.roleName := by
  have htest : (tended.catalog.personas.get? "stewards").any (fun persona => persona.enabled &&
      (tended.catalog.policiesOf "stewards").any fun policy => policy.isActive &&
        decide (policy.assets = ["risk"]) && !(synthesize 0 persona policy).isEmpty) = true := by
    decide +kernel
  obtain ⟨persona, hpersona, htest⟩ := (Option.any_eq_true _ _).1 htest
  simp only [Bool.and_eq_true, List.any_eq_true, decide_eq_true_eq, Bool.not_eq_true'] at htest
  obtain ⟨henabled, policy, hpolicy, ⟨hactive, hassets⟩, hasks⟩ := htest
  obtain ⟨q, hq⟩ := List.isEmpty_eq_false_iff_exists_mem.1 hasks
  exact ⟨persona, policy, q, tended_orderly, hpersona, henabled, hpolicy, hactive, hassets, hq,
    (tended_orderly.serves hpersona henabled hpolicy hactive hq).2⟩

/-- The system after a persona with a policy on what is called db has been renamed. Its policy goes for
all types by the new name. -/
def renamed : System :=
  let s := Request.run {} {} (.createPersona { guid := "analysts", name := "analysts" })
  let s := Request.run {} s (.putPolicy administrators "root" (readPolicy "analysts"))
  Request.run {} s (.updatePersona { guid := "analysts", name := "collection of analysts" })

/-- What the policy of a persona asks for is not granted after the persona has been renamed, although no
call has failed. -/
theorem unserved_after_renaming :
    ∃ (s : System) (persona : Persona) (policy : PersonaPolicy) (q : Policy),
      s.Led (fun _ s _ => s.Faultless) ∧ s.catalog.personas.get? "analysts" = some persona ∧
      persona.isActive = true ∧ persona.enabled = true ∧
      policy ∈ s.catalog.policiesOf "analysts" ∧ policy.isActive = true ∧
      q ∈ synthesize 0 persona policy ∧
      ∀ p ∈ s.authority.policies.values, ¬ p.Carries q persona.roleName := by
  have hled : renamed.Led fun _ s _ => s.Faultless := by
    have hempty : System.Led (fun _ s _ => s.Faultless) {} := .empty
    unfold renamed
    refine ((hempty.request {} _ ?_).request {} _ ?_).request {} _ ?_
    all_goals decide +kernel
  have htest : (renamed.catalog.personas.get? "analysts").any (fun persona => persona.isActive &&
      persona.enabled && (renamed.catalog.policiesOf "analysts").any fun policy => policy.isActive &&
        (synthesize 0 persona policy).any fun q =>
          renamed.authority.policies.values.all fun p => decide (p.target ≠ q.target)) = true := by
    -- Targets are compared by their bytes.
    unfold Policy.target ResourceMap.canonicalBytes
    simp only [dimensionBytes_eq_insertionSort]
    decide +kernel
  obtain ⟨persona, hpersona, htest⟩ := (Option.any_eq_true _ _).1 htest
  simp only [Bool.and_eq_true, List.any_eq_true, List.all_eq_true, decide_eq_true_eq] at htest
  obtain ⟨⟨hactive, henabled⟩, policy, hpolicy, huse, q, hq, hnone⟩ := htest
  exact ⟨renamed, persona, policy, q, hled, hpersona, hactive, henabled, hpolicy, huse, hq,
    fun p hp hcarries => hnone p hp hcarries.target⟩

end PersonaService

/-! ### What is granted is asked for -/

/-- A policy that names the role of a persona after an orderly run says about it what a policy in use of
the persona asks for, and the persona is enabled. -/
theorem System.Orderly.accounts {s : System} (h : s.Orderly) {guid : String} {persona : Persona}
    (hpersona : s.catalog.personas.get? guid = some persona) {p : Policy}
    (hp : p ∈ s.authority.policies.values) (hnamed : p.itemsNaming persona.roleName ≠ ∅) :
    persona.enabled = true ∧ ∃ policy ∈ s.catalog.policiesOf guid, policy.isActive = true ∧
      ∃ draw, ∃ q ∈ synthesize draw persona policy,
        p.outline persona.roleName = q.outline persona.roleName := by
  have hupkept := h.upkept
  have hkey := (hupkept.inOrder.persona guid persona hpersona).1
  obtain ⟨q, ⟨policy, hinForce, draw, hq⟩, houtline⟩ :=
    (hupkept.inStep.reflects guid persona hpersona).sound p hp hnamed
  exact ⟨hinForce.enabled, policy, hkey ▸ hinForce.mem_policiesOf, hinForce.active, draw, q, hq,
    houtline⟩

namespace PersonaService

/-- What names the persona is what its policy asks for. -/
theorem accounts_for_moved_policy :
    ∃ persona p, tended.Orderly ∧ tended.catalog.personas.get? "stewards" = some persona ∧
      p ∈ tended.authority.policies.values ∧ p.itemsNaming persona.roleName ≠ ∅ ∧
      persona.enabled = true ∧ ∃ policy ∈ tended.catalog.policiesOf "stewards",
        policy.isActive = true ∧ ∃ draw, ∃ q ∈ synthesize draw persona policy,
          p.outline persona.roleName = q.outline persona.roleName := by
  have htest : (tended.catalog.personas.get? "stewards").any (fun persona =>
      tended.authority.policies.values.any fun p =>
        decide (p.itemsNaming persona.roleName ≠ ∅)) = true := by
    decide +kernel
  obtain ⟨persona, hpersona, htest⟩ := (Option.any_eq_true _ _).1 htest
  simp only [List.any_eq_true, decide_eq_true_eq] at htest
  obtain ⟨p, hp, hnamed⟩ := htest
  exact ⟨persona, p, tended_orderly, hpersona, hp, hnamed, tended_orderly.accounts hpersona hp hnamed⟩

/-- The personas that are stored before and after a request have the same names. -/
def Request.KeepsNames (σ : ServiceSettings) (s : System) (r : Request) : Prop :=
  ∀ guid before after, s.catalog.personas.get? guid = some before →
    (r.run σ s).catalog.personas.get? guid = some after → after.name = before.name

/-- The system after a persona policy has been put out of use by an update. -/
def retired : System :=
  let s := Request.run {} {} (.createPersona { guid := "stewards", name := "stewards" })
  let s := Request.run {} s (.putPolicy {} "" (termsPolicy "finance"))
  Request.run {} s (.putPolicy {} "" { termsPolicy "finance" with status := .deleted })

/-- A persona is still granted what its only policy asked for, which has been put out of use, although no
call has failed and no persona has got another name. -/
theorem unaccounted_after_retirement :
    ∃ (s : System) (persona : Persona) (p : Policy),
      s.Led (fun σ s r => s.Faultless ∧ r.KeepsNames σ s) ∧
      s.catalog.personas.get? "stewards" = some persona ∧
      p ∈ s.authority.policies.values ∧ p.itemsNaming persona.roleName ≠ ∅ ∧
      ∀ policy ∈ s.catalog.policiesOf "stewards", policy.isActive = false := by
  have hled : retired.Led fun σ s r => s.Faultless ∧ r.KeepsNames σ s := by
    have hempty : System.Led (fun σ s r => s.Faultless ∧ r.KeepsNames σ s) {} := .empty
    have hsame : ∀ {s : System} {r : Request},
        (r.run {} s).catalog.personas = s.catalog.personas → r.KeepsNames {} s := by
      intro s r hpersonas guid before after hbefore hafter
      rw [hpersonas, hbefore] at hafter
      rw [Option.some.inj hafter]
    have hnew : ∀ {r : Request}, r.KeepsNames {} {} :=
      fun guid before after hbefore => absurd hbefore.symm (Option.some_ne_none before)
    unfold retired
    refine ((hempty.request {} _ ⟨?_, hnew⟩).request {} _ ⟨?_, hsame ?_⟩).request {} _ ⟨?_, hsame ?_⟩
    all_goals decide +kernel
  have htest : (retired.catalog.personas.get? "stewards").any (fun persona =>
      (retired.authority.policies.values.any fun p =>
        decide (p.itemsNaming persona.roleName ≠ ∅)) &&
      (retired.catalog.policiesOf "stewards").all fun policy => !policy.isActive) = true := by
    decide +kernel
  obtain ⟨persona, hpersona, htest⟩ := (Option.any_eq_true _ _).1 htest
  simp only [Bool.and_eq_true, List.any_eq_true, List.all_eq_true, decide_eq_true_eq,
    Bool.not_eq_true'] at htest
  obtain ⟨⟨p, hp, hnamed⟩, hnone⟩ := htest
  exact ⟨retired, persona, p, hled, hpersona, hp, hnamed, hnone⟩

end PersonaService

end CatalogAccess
