import CatalogAccess.Proofs.FanOut
import CatalogAccess.Proofs.Persona.Planning

/-!
# The systems that requests lead to

`System.Reachable` are the systems that persona management can get into from empty stores, by any
requests and with any faults in between. A property of the stores is an invariant of requests when the
calls that concern no policies keep it, and so does carrying out a plan that acts on one persona
(`System.Invariant`). Requests keep invariants, whether they end with a result or with an error and
whether or not their writes go through (`Request.keeps`, from one lemma for each operation). The
policies of both stores are in shape by such an invariant (`System.Reachable.keeps`).
-/

namespace CatalogAccess

/-! ### Requests -/

namespace PersonaService

/-- A request to persona management. -/
inductive Request where
  /-- Creates a persona. -/
  | createPersona (persona : Persona)
  /-- Updates a persona. -/
  | updatePersona (update : Persona)
  /-- Deletes a persona. -/
  | deletePersona (guid : String)
  /-- Creates or updates a persona policy on behalf of a user. -/
  | putPolicy (subjects : Subjects) (user : String) (policy : PersonaPolicy)
  /-- Deletes a persona policy. -/
  | deletePolicy (guid : String)

/-- The system that a request leaves, whatever its result. -/
def Request.run (σ : ServiceSettings) (s : System) : Request → System
  | createPersona persona => (Operation.runOn (PersonaService.createPersona σ persona) s).2
  | updatePersona update => (Operation.runOn (PersonaService.updatePersona σ update) s).2
  | deletePersona guid => (Operation.runOn (PersonaService.deletePersona σ guid) s).2
  | putPolicy subjects user policy =>
    (Operation.runOn (PersonaService.putPolicy σ subjects user policy) s).2
  | deletePolicy guid => (Operation.runOn (PersonaService.deletePolicy σ guid) s).2

/-- The persona that a request acts on, if it names one that is stored. -/
def Request.persona? (s : System) : Request → Option Persona
  | createPersona _ => none
  | updatePersona update => s.catalog.personas.get? update.guid
  | deletePersona guid => s.catalog.personas.get? guid
  | putPolicy _ _ policy => s.catalog.personas.get? policy.personaGuid
  | deletePolicy guid =>
    (s.catalog.policies.get? guid).bind fun policy => s.catalog.personas.get? policy.personaGuid

/-- The persona that a request plans for. An update plans for the persona that it makes. -/
def Request.planned? (s : System) : Request → Option Persona
  | updatePersona update =>
    (s.catalog.personas.get? update.guid).map fun existing => updatedPersona update existing
  | r => r.persona? s

/-- A request plans for the role of the persona that it acts on. -/
theorem Request.roleName_of_planned? {s : System} {r : Request} {persona : Persona}
    (h : r.planned? s = some persona) :
    ∃ stored, r.persona? s = some stored ∧ stored.roleName = persona.roleName := by
  cases r with
  | updatePersona update =>
    obtain ⟨existing, hexisting, rfl⟩ := Option.map_eq_some_iff.1 h
    exact ⟨existing, hexisting, rfl⟩
  | createPersona p => exact ⟨persona, h, rfl⟩
  | deletePersona guid => exact ⟨persona, h, rfl⟩
  | putPolicy subjects user policy => exact ⟨persona, h, rfl⟩
  | deletePolicy guid => exact ⟨persona, h, rfl⟩

end PersonaService

/-- A system that requests lead to. -/
inductive System.Reachable : System → Prop
  /-- The stores are empty at first. -/
  | empty : Reachable {}
  /-- A request is carried out, in full or in part. -/
  | request {s : System} (h : Reachable s) (σ : ServiceSettings) (r : PersonaService.Request) :
      Reachable (r.run σ s)
  /-- The faults that calls meet change, and the names of the policies whose writes fail. -/
  | faults {s : System} (h : Reachable s) (faults : Faults) (failing : NameSet) :
      Reachable { s with faults, authority := { s.authority with failing } }

/-! ### Stores -/

/-- Policies that stay as they are stay well kept while more identifiers are assigned. -/
theorem Authority.WellKept.mono {a a' : Authority} (h : a.WellKept)
    (hp : a'.policies = a.policies) (hlast : a.lastId ≤ a'.lastId) : a'.WellKept := by
  refine ⟨⟨hp ▸ h.id, hp ▸ h.tidy, hp ▸ h.synthetic, hp ▸ h.apart⟩, fun id p hget => ?_⟩
  rw [hp] at hget
  obtain ⟨n, hn, heq⟩ := h.numbered id p hget
  exact ⟨n, Nat.le_trans hn hlast, heq⟩

/-- A policy that has something to grant or to deny. -/
structure Policy.IsFurnished (p : Policy) : Prop where
  /-- It has items. -/
  items : p.hasNoItems = false
  /-- Every dimension has values. -/
  values : ∀ e ∈ p.resources.toList, e.2 ≠ []

/-- What requests keep true of the stores. -/
structure System.WellKept (s : System) : Prop where
  /-- The policies of the authority are well kept. -/
  authority : s.authority.WellKept
  /-- The policies of the authority are furnished. -/
  furnished : ∀ id p, s.authority.policies.get? id = some p → p.IsFurnished
  /-- The persona policies of the catalog have identifiers. -/
  named : ∀ guid policy, s.catalog.policies.get? guid = some policy → policy.guid ≠ ""
  /-- The persona policies of the catalog have assets. -/
  assets : ∀ guid policy, s.catalog.policies.get? guid = some policy → policy.assets ≠ []

/-- What calls that do not concern the policies of the authority do to the stores. -/
structure System.LeavesPolicies (s s' : System) : Prop where
  /-- The policies of the authority stay. -/
  policies : s'.authority.policies = s.authority.policies
  /-- Identifiers may be assigned. -/
  lastId : s.authority.lastId ≤ s'.authority.lastId
  /-- Persona policies that are added to the catalog have identifiers and assets. -/
  added : ∀ guid policy, s'.catalog.policies.get? guid = some policy →
    s.catalog.policies.get? guid = some policy ∨ policy.guid ≠ "" ∧ policy.assets ≠ []

theorem System.WellKept.leaves {s s' : System} (h : s.WellKept) (hs : s.LeavesPolicies s') :
    s'.WellKept := by
  refine ⟨h.authority.mono hs.policies hs.lastId, hs.policies ▸ h.furnished,
    fun guid policy hget => ?_, fun guid policy hget => ?_⟩
  · rcases hs.added guid policy hget with hold | hnew
    · exact h.named guid policy hold
    · exact hnew.1
  · rcases hs.added guid policy hget with hold | hnew
    · exact h.assets guid policy hold
    · exact hnew.2

/-! ### Plans -/

/-- What a persona may place: a policy for its role, with its label, and with values in all
dimensions. -/
structure Persona.Places (persona : Persona) (q : Policy) : Prop
    extends q.IsPlaceable persona.roleName where
  /-- Every dimension has values. -/
  values : ∀ e ∈ q.resources.toList, e.2 ≠ []
  /-- The label of the persona is there. -/
  label : Label.persona persona.guid ∈ q.labels

/-- What a persona may take from policies: its label, and labels of persona policies. -/
def Persona.Sheds (persona : Persona) (label : String) : Prop :=
  label = Label.persona persona.guid ∨ ∃ guid, label = Label.personaPolicy guid

/-- The plan acts on one persona: it comes about by loading stored policies, placing what the persona may
place, and stripping its role and labels that it may shed. -/
def Plan.ActsOn (stored : NameMap Policy) (persona : Persona) (plan : Plan) : Prop :=
  plan.Built stored persona.roleName persona.Places (fun _ => True) persona.Sheds

namespace Plan.ActsOn

variable {stored : NameMap Policy} {persona : Persona} {plan : Plan}

theorem tracks (h : plan.ActsOn stored persona) (hs : Policy.WellStored stored) :
    plan.Tracks stored :=
  Built.tracks h hs fun _ hq => hq.toIsPlaceable

theorem minds (h : plan.ActsOn stored persona) (hs : Policy.WellStored stored) :
    plan.Minds stored persona.roleName persona.Places :=
  Built.minds h hs fun _ hq => hq.toIsPlaceable

/-- Carrying out a plan, in full or in part, leaves furnished policies. -/
theorem furnished (h : plan.ActsOn stored persona) (hs : Policy.WellStored stored)
    (hfurnished : ∀ id p, stored.get? id = some p → p.IsFurnished) {id : String} {p : Policy}
    (ho : plan.Outcome stored id (some p)) : p.IsFurnished := by
  generalize hsome : some p = o at ho
  cases ho with
  | kept => exact hfurnished id p hsome.symm
  | settled t ht =>
    obtain ⟨old, hold, -, hsame⟩ := (h.tracks hs).origin id t ht
    obtain ⟨hkept, rfl⟩ := Tracked.settled_eq_some_iff.1 hsome.symm
    have hframe := (h.tracks hs).frame id t old ht hold
    simp only [Policy.frame, Prod.mk.injEq] at hframe
    refine ⟨?_, hframe.2.2.2.1 ▸ (hfurnished id old hold).values⟩
    rcases (h.minds hs).fate id t ht with hunchanged | hleftover
    · rw [hsame hunchanged]
      exact (hfurnished id old hold).items
    · -- A policy that is left without items would be deleted.
      refine Bool.eq_false_iff.2 fun hempty => hkept ?_
      rw [hleftover, Tracked.leftover, if_pos hempty]
  | created c hc hnew =>
    obtain rfl := Option.some.inj hsome
    obtain ⟨hitems, -⟩ := (h.minds hs).created c hc
    obtain ⟨q, hq, hframe⟩ := (h.minds hs).placed c hc
    simp only [Policy.frame, Prod.mk.injEq] at hframe
    have hvalues : ∀ e ∈ c.resources.toList, e.2 ≠ [] := hframe.2.2.2.1 ▸ hq.values
    exact ⟨hitems, hvalues⟩

end Plan.ActsOn

/-- A property of the stores that requests keep as long as they act on certain personas only. -/
structure System.Invariant (acts : Persona → Prop) (I : System → Prop) : Prop where
  /-- The stores are well kept. -/
  wellKept : ∀ {s}, I s → s.WellKept
  /-- It is kept by calls that do not concern the policies of the authority. -/
  leaves : ∀ {s s'}, I s → s.LeavesPolicies s' → I s'
  /-- It is kept by plans for these personas, whether or not their mutations go through. -/
  execute : ∀ {s persona plan}, I s → acts persona → Plan.ActsOn s.authority.policies persona plan →
    ∀ deadlineMs, I (s.execute deadlineMs plan.mutations).2

/-- Plans for any persona keep the stores well kept. -/
theorem System.wellKept_invariant : System.Invariant (fun _ => True) System.WellKept where
  wellKept h := h
  leaves h hs := h.leaves hs
  execute := by
    intro s persona plan hs _ hplan deadlineMs
    have htracks := hplan.tracks hs.authority.toWellStored
    obtain ⟨a, hsystem, houtcome⟩ := htracks.outcome hs.authority.numbered deadlineMs
    obtain ⟨a', ha', hsystem'⟩ := System.execute_wellKept deadlineMs htracks.batch hs.authority
    obtain rfl : a = a' := congrArg System.authority (hsystem.symm.trans hsystem')
    rw [hsystem]
    refine ⟨ha', fun id p hp => ?_, hs.named, hs.assets⟩
    exact hplan.furnished hs.authority.toWellStored hs.furnished (hp ▸ houtcome id)

/-! ### Calls -/

/-- A fresh identifier is not empty. -/
theorem Uuid.ofDraw_ne_empty (n : Nat) : Uuid.ofDraw n ≠ "" := by
  intro h
  have hlist := congrArg String.toList h
  unfold Uuid.ofDraw at hlist
  simp at hlist

/-- A policy is saved under its identifier, or under a fresh one when it has none. -/
theorem PersonaCatalog.savePolicy_spec (c : PersonaCatalog) {unique : String} (h : unique ≠ "")
    (policy : PersonaPolicy) :
    let saved := (c.savePolicy unique policy).1
    saved = { policy with guid := saved.guid } ∧ saved.guid ≠ "" ∧
      (policy.guid ≠ "" → saved.guid = policy.guid) := by
  unfold savePolicy
  dsimp only
  split
  · next hempty =>
    exact ⟨rfl, h, fun hne => absurd (String.isEmpty_iff.1 hempty) hne⟩
  · next hguid =>
    exact ⟨rfl, fun hempty => hguid (by rw [hempty]; rfl), fun _ => rfl⟩

/-- The policies left after a persona has been deleted are those of the others. -/
theorem PersonaCatalog.get?_deletePersona_policies {c : PersonaCatalog} {guid x : String}
    {policy : PersonaPolicy} :
    (c.deletePersona guid).policies.get? x = some policy ↔
      c.policies.get? x = some policy ∧ policy.personaGuid ≠ guid := by
  rw [deletePersona, NameMap.get?_filter, Option.filter_eq_some_iff, decide_eq_true_iff]

namespace Operation

variable {α : Type} {acts : Persona → Prop} {I : System → Prop} {Q : α → Prop}

/-- What is promised of a result may be proved apart from the invariant. -/
theorem Keeps.promise {x : Operation α} (h : Keeps I x fun _ => True)
    (hq : ∀ s a s', I s → runOn x s = (.ok a, s') → Q a) : Keeps I x Q :=
  fun s hs => ⟨(h s hs).1, fun a ha => hq s a _ hs (Prod.ext ha rfl)⟩

theorem Keeps.run {s : System} {x : Operation α} (h : Keeps I x fun _ => True) (hs : I s) :
    I (runOn x s).2 :=
  (h s hs).1

/-- A run starts with a step that changes nothing. -/
theorem Keeps.from {β : Type} {s : System} {x : Operation α} {f : α → Operation β}
    (hx : Keeps (fun s' => s' = s) x Q) (hs : I s) (hf : ∀ a, Q a → I (runOn (f a) s).2) :
    I (runOn (x >>= f) s).2 := by
  obtain ⟨hsame, hq⟩ := hx s rfl
  refine runOn_bind_keeps (hsame.symm ▸ hs) fun a ha => ?_
  rw [hsame]
  exact hf a (hq a ha)

/-- A check changes nothing. -/
theorem keeps_check {x : Except AccessError α} : Keeps I (liftM x) fun _ => True :=
  keeps_lift fun _ _ => trivial

/-- Reading changes nothing. -/
theorem keeps_query {f : System → Except AccessError α} : Keeps I (read f) fun _ => True :=
  keeps_read fun _ _ _ _ => trivial

/-- A call of the authority that concerns roles, or a call of the catalog. -/
theorem keeps_write_roles (hI : System.Invariant acts I)
    {f : System → Except AccessError (α × System)}
    (h : ∀ (s : System) (a : α) (s' : System), f s = .ok (a, s') → s.LeavesPolicies s') :
    Keeps I (write f) fun _ => True :=
  keeps_write fun s hs a s' hf => hI.leaves hs (h s a s' hf)

/-- A call that passes its check and then puts a new state in place of the old one. -/
theorem keeps_write_checked (hI : System.Invariant acts I)
    {check : System → Except AccessError Unit} {f : System → α × System}
    (h : ∀ s : System, s.LeavesPolicies (f s).2) :
    Keeps I (write fun s => do check s; return f s) fun _ => True := by
  refine keeps_write_roles hI fun s a s' hf => ?_
  rw [Except.bind_eq_ok_iff] at hf
  obtain ⟨-, -, hf⟩ := hf
  have hpair := Except.ok.inj hf
  have := h s
  rw [hpair] at this
  exact this

theorem keeps_createRole (hI : System.Invariant acts I) (r : Role) :
    Keeps I (createRole r) fun _ => True := by
  refine keeps_write_roles hI fun s a s' hf => ?_
  simp only [Except.bind_eq_ok_iff, Authority.createRole] at hf
  obtain ⟨-, -, b, hb, hf⟩ := hf
  split at hb
  · exact absurd hb (by simp)
  · obtain rfl := Except.ok.inj hb
    obtain ⟨-, rfl⟩ := Prod.mk.inj (Except.ok.inj hf)
    exact ⟨rfl, Nat.le_succ _, fun _ _ h => .inl h⟩

theorem keeps_updateRole (hI : System.Invariant acts I) (r : Role) :
    Keeps I (updateRole r) fun _ => True := by
  refine keeps_write_roles hI fun s a s' hf => ?_
  simp only [Except.bind_eq_ok_iff, Authority.updateRole] at hf
  obtain ⟨-, -, b, hb, hf⟩ := hf
  split at hb
  · exact absurd hb (by simp)
  · split at hb
    · obtain rfl := Except.ok.inj hb
      obtain ⟨-, rfl⟩ := Prod.mk.inj (Except.ok.inj hf)
      exact ⟨rfl, Nat.le_refl _, fun _ _ h => .inl h⟩
    · exact absurd hb (by simp)

theorem keeps_deleteRole (hI : System.Invariant acts I) (id : String) :
    Keeps I (deleteRole id) fun _ => True :=
  keeps_write_checked hI fun _ => ⟨rfl, Nat.le_refl _, fun _ _ h => .inl h⟩

theorem keeps_fresh (hI : System.Invariant acts I) : Keeps I fresh fun guid => guid ≠ "" := by
  refine Keeps.bind (Q := fun _ => True) (fun s hs => ⟨?_, fun _ _ => trivial⟩)
    fun n _ => keeps_pure (Uuid.ofDraw_ne_empty n)
  exact hI.leaves hs ⟨rfl, Nat.le_refl _, fun _ _ h => .inl h⟩

theorem keeps_savePersona (hI : System.Invariant acts I) (p : Persona) :
    Keeps I (savePersona p) fun _ => True :=
  (keeps_fresh hI).bind fun _ _ => keeps_write_checked hI fun _ =>
    ⟨rfl, Nat.le_refl _, fun _ _ h => .inl h⟩

/-- Whatever is saved gets an identifier, and keeps its assets. -/
theorem keeps_savePersonaPolicy (hI : System.Invariant acts I) {p : PersonaPolicy}
    (hassets : p.assets ≠ []) :
    Keeps I (savePersonaPolicy p) fun saved => saved.assets ≠ [] := by
  have hsaved : ∀ (s : System) {unique : String}, unique ≠ "" →
      (s.catalog.savePolicy unique p).1.guid ≠ "" ∧
        (s.catalog.savePolicy unique p).1.assets ≠ [] := by
    intro s unique hunique
    obtain ⟨hsame, hguid, -⟩ := s.catalog.savePolicy_spec hunique p
    exact ⟨hguid, by rw [hsame]; exact hassets⟩
  refine (keeps_fresh hI).bind fun unique hunique => Keeps.promise
    (keeps_write_checked hI fun s => ?_) fun s saved s' _ hrun => ?_
  · refine ⟨rfl, Nat.le_refl _, fun guid policy hget => ?_⟩
    obtain ⟨-, rfl⟩ | ⟨-, hold⟩ := NameMap.get?_insert_eq_some.1 hget
    · exact .inr (hsaved s hunique)
    · exact .inl hold
  · rw [runOn_write_ok, Except.bind_eq_ok_iff] at hrun
    obtain ⟨-, -, hrun⟩ := hrun
    obtain ⟨rfl, -⟩ := Prod.mk.inj (Except.ok.inj hrun)
    exact (hsaved s hunique).2

theorem keeps_deletePersona (hI : System.Invariant acts I) (guid : String) :
    Keeps I (deletePersona guid) fun _ => True := by
  refine keeps_write_checked hI fun s => ⟨rfl, Nat.le_refl _, fun x policy hget => .inl ?_⟩
  exact (PersonaCatalog.get?_deletePersona_policies.1 hget).1

theorem keeps_deletePersonaPolicy (hI : System.Invariant acts I) (guid : String) :
    Keeps I (deletePersonaPolicy guid) fun _ => True := by
  refine keeps_write_checked hI fun s => ⟨rfl, Nat.le_refl _, fun x policy hget => .inl ?_⟩
  exact (NameMap.get?_erase_eq_some.1 hget).2

/-- A step that is taken only under a condition. -/
theorem keeps_when {β : Type} {R : β → Prop} {c : Prop} [Decidable c] {x : Operation Unit}
    {f : Unit → Operation β} (hx : Keeps I x fun _ => True) (hf : ∀ a, Keeps I (f a) R) :
    Keeps I (if c then x >>= f else f ()) R := by
  split
  · exact hx.seq hf
  · exact hf ()

/-- What each step keeps and hands on is kept by all of them. -/
theorem keeps_foldlM {β : Type} {R : β → Prop} {f : β → α → Operation β} {l : List α}
    (hstep : ∀ b, R b → ∀ a ∈ l, Keeps I (f b a) R) {b : β} (hb : R b) :
    Keeps I (l.foldlM f b) R := by
  induction l generalizing b with
  | nil => exact keeps_pure hb
  | cons a l ih =>
    rw [List.foldlM_cons]
    exact (hstep b hb a List.mem_cons_self).bind fun b' hb' =>
      ih (fun b hb a' ha' => hstep b hb a' (List.mem_cons_of_mem a ha')) hb'

end Operation

/-! ### Planning -/

namespace PersonaService

open Operation

variable {σ : ServiceSettings} {persona : Persona} {plan : Plan} {a : Authority}
  {c : PersonaCatalog} {s : System} {pageSize : Nat} {dropped : List String}
  {acts : Persona → Prop} {I : System → Prop}

/-- Planning reads the stores, and yields a plan for the persona. -/
def Plans (a : Authority) (c : PersonaCatalog) (persona : Persona) (x : Operation Plan) : Prop :=
  Keeps (fun s => s.authority = a ∧ s.catalog = c) x (Plan.ActsOn a.policies persona)

theorem plans_empty : Plans a c persona (pure {}) := keeps_pure Plan.Built.empty

/-- Synthesis leaves the stores alone. -/
theorem keeps_synthesize (policy : PersonaPolicy) :
    Keeps (fun s => s.authority = a ∧ s.catalog = c)
      (Operation.synthesize persona policy policy.actions) fun _ => True :=
  fun _ hs => ⟨hs, fun _ _ => trivial⟩

/-- What is synthesized for a persona policy with assets may be placed. -/
theorem places_of_mem_synthesize {draw : Nat} {policy : PersonaPolicy}
    (hassets : policy.assets ≠ []) {q : Policy} (hq : q ∈ synthesize draw persona policy) :
    persona.Places q :=
  ⟨(synthesizeActions_areProvisional draw persona policy policy.actions).placeable q hq,
    values_of_mem_synthesize hq hassets, persona_mem_labels_of_mem_synthesize hq⟩

/-- The labels that a persona policy drops may be shed. -/
theorem sheds_of_mem_droppedLabels {policy : PersonaPolicy} {l : String}
    (hl : l ∈ policy.droppedLabels persona) : persona.Sheds l := by
  simp only [PersonaPolicy.droppedLabels, List.mem_cons, List.not_mem_nil, or_false] at hl
  rcases hl with rfl | rfl
  · exact .inr ⟨policy.guid, rfl⟩
  · exact .inl rfl

theorem planCreate_plans (ha : a.WellKept) (h : plan.ActsOn a.policies persona)
    {policy : PersonaPolicy} (hassets : policy.assets ≠ []) :
    Plans a c persona (planCreate σ persona plan policy) := by
  refine Keeps.promise ((keeps_synthesize policy).seq fun _ => keeps_query)
    fun s plan' s' hs hrun => ?_
  obtain ⟨rfl, rfl⟩ := hs
  exact planCreate_built ha.toWellStored (fun _ hq => hq.toIsPlaceable) h
    (fun q hq => places_of_mem_synthesize hassets hq) hrun

theorem planUpdate_plans (ha : a.WellKept) (prior : PersonaPolicy) {policy : PersonaPolicy}
    (hassets : policy.assets ≠ []) :
    Plans a c persona (planUpdate σ persona prior policy) := by
  refine Keeps.promise ?_ fun s plan s' hs hrun => ?_
  · refine keeps_query.seq fun existing => (keeps_synthesize policy).seq fun qs => ?_
    split
    · exact keeps_query
    · exact keeps_query.seq fun _ => keeps_pure trivial
  · obtain ⟨rfl, rfl⟩ := hs
    exact (planUpdate_built ha.toWellStored hrun).mono
      (fun q hq => places_of_mem_synthesize hassets hq) (fun _ _ => trivial)
      fun _ hl => sheds_of_mem_droppedLabels hl

/-- Stripping a listing of labelled policies of the role and of labels that may be shed acts on the
persona alone. -/
theorem stripAll_actsOn (hs : Policy.WellStored s.authority.policies) {label : String}
    (hlabel : label ∈ dropped) (hdropped : ∀ l ∈ dropped, persona.Sheds l) {labelled : List Policy}
    (hread : s.policiesWithLabel pageSize label = .ok labelled) :
    (Plan.stripAll {} labelled persona.roleName dropped).ActsOn s.authority.policies persona := by
  have hspec := System.policiesWithLabel_spec hread
  have hstrips : Plan.Strips persona.roleName dropped {} labelled
      (Plan.stripAll {} labelled persona.roleName dropped) :=
    (Plan.stripAll_strips hs hlabel fun p hp => (hspec p).1 hp).1
  exact Plan.Built.empty.strip (fun p hp => ⟨((hspec p).1 hp).1, trivial⟩) hdropped hstrips

theorem planStrip_plans (ha : a.WellKept) (policy : PersonaPolicy) :
    Plans a c persona (planStrip σ persona policy) := by
  refine (keeps_read (Q := fun labelled => (Plan.stripAll {} labelled persona.roleName
    (policy.droppedLabels persona)).ActsOn a.policies persona)
    fun s hs labelled hread => ?_).bind fun labelled hacts => keeps_pure hacts
  obtain ⟨rfl, rfl⟩ := hs
  exact stripAll_actsOn ha.toWellStored List.mem_cons_self
    (fun _ hl => sheds_of_mem_droppedLabels hl) hread

theorem planClean_plans (ha : a.WellKept) :
    Plans a c persona (planClean σ persona) := by
  refine (keeps_read (Q := fun labelled => ∀ dropped, Label.persona persona.guid ∈ dropped →
    (∀ l ∈ dropped, persona.Sheds l) →
      (Plan.stripAll {} labelled persona.roleName dropped).ActsOn a.policies persona)
    fun s hs labelled hread dropped hlabel hdropped => ?_).bind
    fun labelled hacts => keeps_query.seq fun policies =>
      keeps_pure (hacts _ List.mem_cons_self fun l hl => ?_)
  · obtain ⟨rfl, rfl⟩ := hs
    exact stripAll_actsOn ha.toWellStored hlabel hdropped hread
  · rcases List.mem_cons.1 hl with rfl | hl
    · exact .inl rfl
    · obtain ⟨policy, -, rfl⟩ := List.mem_map.1 hl
      exact .inr ⟨policy.guid, rfl⟩

/-- The policies of a persona are in the catalog. -/
theorem policiesOf_mem {guid : String} {policies : List PersonaPolicy}
    (h : s.policiesOf guid = .ok policies) {p : PersonaPolicy} (hp : p ∈ policies) :
    ∃ k, s.catalog.policies.get? k = some p := by
  unfold System.policiesOf at h
  rw [Except.bind_eq_ok_iff] at h
  obtain ⟨-, -, h⟩ := h
  obtain rfl := Except.ok.inj h
  exact NameMap.mem_values_iff.1 (List.mem_filter.1 hp).1

theorem planToggle_plans (ha : a.WellKept)
    (hc : ∀ guid policy, c.policies.get? guid = some policy → policy.assets ≠ [])
    (existing : Persona) : Plans a c persona (planToggle σ persona existing) := by
  unfold planToggle
  split
  · exact planClean_plans ha
  · refine (keeps_read (Q := fun policies => ∀ p ∈ policies, p.assets ≠ [])
      fun s hs policies hread p hp => ?_).bind fun policies hassets =>
        keeps_foldlM (fun plan hplan policy hpolicy => ?_) Plan.Built.empty
    · obtain ⟨rfl, rfl⟩ := hs
      obtain ⟨k, hk⟩ := policiesOf_mem hread hp
      exact hc k p hk
    · exact planCreate_plans ha hplan (hassets policy (List.mem_filter.1 hpolicy).1)
  · exact plans_empty

/-! ### Requests keep invariants -/

/-- The persona of an identifier is the one that is stored. -/
theorem requirePersona_ok {guid : String} {s' : System}
    (h : Operation.runOn (requirePersona guid) s = (.ok persona, s')) :
    s.catalog.personas.get? guid = some persona ∧ s' = s := by
  unfold requirePersona at h
  simp only [Operation.runOn_bind_ok, Operation.runOn_read, Prod.mk.injEq] at h
  obtain ⟨found, _, ⟨hread, rfl⟩, h⟩ := h
  unfold System.persona? at hread
  rw [Except.bind_eq_ok_iff] at hread
  obtain ⟨-, -, hget⟩ := hread
  cases found with
  | none => simp at h
  | some p =>
    simp only [Operation.runOn_pure, Prod.mk.injEq, Except.ok.injEq] at h
    obtain ⟨rfl, rfl⟩ := h
    exact ⟨Except.ok.inj hget, rfl⟩

theorem keeps_requirePersona (guid : String) :
    Keeps I (requirePersona guid) fun persona =>
      ∃ s, I s ∧ s.catalog.personas.get? guid = some persona := by
  refine Keeps.promise (keeps_query.seq fun found => ?_) fun s persona s' hs hrun =>
    ⟨s, hs, (requirePersona_ok hrun).1⟩
  split
  · exact keeps_pure trivial
  · exact keeps_throw _

/-- The persona that is found is one of the catalog, where the catalog is known. -/
theorem keeps_storedPersona {c : PersonaCatalog} (hcatalog : ∀ s, I s → s.catalog = c) (guid : String) :
    Keeps I (requirePersona guid) fun persona => c.personas.get? guid = some persona := by
  refine fun s hs => ⟨(keeps_requirePersona guid s hs).1, fun persona hfound => ?_⟩
  obtain ⟨s₀, hs₀, hget⟩ := (keeps_requirePersona guid s hs).2 persona hfound
  exact hcatalog s₀ hs₀ ▸ hget

theorem keeps_createPersona (hI : System.Invariant acts I) (p : Persona) :
    Keeps I (createPersona σ p) fun _ => True :=
  keeps_check.seq fun _ => keeps_query.seq fun _ => keeps_check.seq fun _ =>
    (keeps_fresh hI).bind fun _ _ => (keeps_createRole hI _).seq fun _ => keeps_savePersona hI _

theorem keeps_updateRoleMembers (hI : System.Invariant acts I) (p : Persona) :
    Keeps I (updateRoleMembers p) fun _ => True := by
  unfold updateRoleMembers
  split
  · exact keeps_pure trivial
  · refine keeps_query.seq fun found => ?_
    split
    · exact keeps_throw _
    · exact (keeps_updateRole hI _).seq fun _ => keeps_pure trivial

/-- Carrying out a plan for one of the personas and going on. -/
theorem keeps_carryOut (hI : System.Invariant acts I) (hpersona : acts persona) {α : Type}
    {x : Operation Plan} {f : Report → Operation α}
    (hx : ∀ (a : Authority) (c : PersonaCatalog), a.WellKept →
      (∀ guid policy, c.policies.get? guid = some policy → policy.assets ≠ []) → Plans a c persona x)
    (hf : ∀ report, Keeps I (f report) fun _ => True) :
    Keeps I (do
      let plan ← x
      let report ← Operation.execute σ.deadlineMs plan.mutations
      f report) fun _ => True := by
  intro s hs
  have hkept := hI.wellKept hs
  obtain ⟨⟨hauthority, hcatalog⟩, hacts⟩ :=
    hx s.authority s.catalog hkept.authority hkept.assets s ⟨rfl, rfl⟩
  have hplanned : I (runOn x s).2 := hI.leaves hs
    ⟨by rw [hauthority], Nat.le_of_eq (by rw [hauthority]), fun _ _ hget => .inl (hcatalog ▸ hget)⟩
  refine ⟨runOn_bind_keeps hplanned fun plan hplan => ?_, fun _ _ => trivial⟩
  -- The mutations are executed on the authority that planning has read.
  have hplan' : plan.ActsOn (runOn x s).2.authority.policies persona := by
    rw [hauthority]
    exact hacts plan hplan
  have hexecuted := hI.execute hplanned hpersona hplan' σ.deadlineMs
  exact runOn_bind_keeps hexecuted fun report _ => (hf report _ hexecuted).1

theorem keeps_priorPolicy (policy : PersonaPolicy) :
    Keeps I (priorPolicy policy) fun _ => True := by
  unfold priorPolicy
  split
  · exact keeps_pure trivial
  · refine keeps_query.seq fun found => ?_
    split
    · exact keeps_pure trivial
    · exact keeps_check.seq fun _ => keeps_pure trivial

theorem keeps_admitPolicy (subjects : Subjects) (user : String) (policy : PersonaPolicy) :
    Keeps I (admitPolicy subjects user persona policy) fun _ => True :=
  keeps_query.seq fun _ => keeps_check.seq fun _ => keeps_check.seq fun _ => keeps_check

/-- Storing a policy keeps its assets. -/
theorem keeps_storePolicy (hI : System.Invariant acts I) {policy : PersonaPolicy}
    (hassets : policy.assets ≠ []) :
    Keeps I (storePolicy persona policy) fun saved => saved.assets ≠ [] := by
  refine (keeps_fresh hI).bind fun unique _ => keeps_savePersonaPolicy hI ?_
  split
  · exact hassets
  · exact hassets

theorem planPolicy_plans (ha : a.WellKept) (prior : Option PersonaPolicy) {saved : PersonaPolicy}
    (hassets : saved.assets ≠ []) :
    Plans a c persona (planPolicy σ persona prior saved) := by
  unfold planPolicy
  split
  · cases prior with
    | none => exact planCreate_plans ha Plan.Built.empty hassets
    | some prior => exact planUpdate_plans ha prior hassets
  · exact plans_empty

/-- A policy that passes its check has assets. -/
theorem assets_ne_nil_of_check {p : PersonaPolicy} (h : p.check = .ok ()) : p.assets ≠ [] := by
  intro hnil
  unfold PersonaPolicy.check at h
  split at h
  · next hproblems =>
    rw [List.isEmpty_iff] at hproblems
    simp [PersonaPolicy.problems, hnil] at hproblems
  · exact absurd h (by simp)

theorem updatePersona_keeps (hI : System.Invariant acts I) (hs : I s) (update : Persona)
    (hacts : ∀ existing, s.catalog.personas.get? update.guid = some existing →
      acts (updatedPersona update existing)) : I (runOn (updatePersona σ update) s).2 := by
  unfold updatePersona
  refine keeps_check.from hs fun _ _ => (keeps_requirePersona _).from hs fun existing hexisting => ?_
  obtain ⟨_, rfl, hget⟩ := hexisting
  have hrest : ∀ persona : Persona, acts persona → Keeps I (do
      if persona.users != existing.users || persona.groups != existing.groups then
        updateRoleMembers persona
      let plan ← planToggle σ persona existing
      let report ← Operation.execute σ.deadlineMs plan.mutations
      let persona ← Operation.savePersona persona
      return ({ persona, report } : PersonaOutcome)) fun _ => True := by
    intro persona hpersona
    exact keeps_when (keeps_updateRoleMembers hI persona) fun _ =>
      keeps_carryOut hI hpersona
        (fun a c ha hc => planToggle_plans ha hc existing) fun report =>
          (keeps_savePersona hI persona).seq fun _ => keeps_pure trivial
  refine Keeps.run (keeps_check.seq fun _ => keeps_when (keeps_throw _) fun _ => ?_) hs
  split
  · exact keeps_query.seq fun _ => keeps_check.seq fun _ => hrest _ (hacts existing hget)
  · exact hrest _ (hacts existing hget)

theorem deletePersona_keeps (hI : System.Invariant acts I) (hs : I s) (guid : String)
    (hacts : ∀ persona, s.catalog.personas.get? guid = some persona → acts persona) :
    I (runOn (deletePersona σ guid) s).2 := by
  unfold deletePersona
  refine (keeps_requirePersona guid).from hs fun persona hpersona => ?_
  obtain ⟨_, rfl, hget⟩ := hpersona
  have hrest : ∀ report : Report,
      Keeps I (do Operation.deletePersona guid; return report) fun _ => True :=
    fun _ => (Operation.keeps_deletePersona hI guid).seq fun _ => keeps_pure trivial
  refine Keeps.run (keeps_carryOut hI (hacts persona hget) (fun a c ha _ => planClean_plans ha)
    fun report => ?_) hs
  split
  · exact (keeps_deleteRole hI _).seq fun _ => hrest report
  · exact hrest report

theorem putPolicy_keeps (hI : System.Invariant acts I) (hs : I s) (subjects : Subjects)
    (user : String) (policy : PersonaPolicy)
    (hacts : ∀ persona, s.catalog.personas.get? policy.personaGuid = some persona → acts persona) :
    I (runOn (putPolicy σ subjects user policy) s).2 := by
  unfold putPolicy
  refine Keeps.from (keeps_lift (Q := fun _ => policy.check = .ok ()) fun _ h => h) hs
    fun _ hcheck => (keeps_requirePersona _).from hs fun persona hpersona => ?_
  obtain ⟨_, rfl, hget⟩ := hpersona
  exact Keeps.run (keeps_check.seq fun _ => (keeps_priorPolicy policy).seq fun prior =>
    (keeps_admitPolicy subjects user policy).seq fun _ =>
      (keeps_storePolicy hI (assets_ne_nil_of_check hcheck)).bind fun saved hassets =>
        keeps_carryOut hI (hacts persona hget) (fun _ _ ha _ => planPolicy_plans ha prior hassets)
          fun _ => keeps_pure trivial) hs

theorem deletePolicy_keeps (hI : System.Invariant acts I) (hs : I s) (guid : String)
    (hacts : ∀ policy persona, s.catalog.policies.get? guid = some policy →
      s.catalog.personas.get? policy.personaGuid = some persona → acts persona) :
    I (runOn (deletePolicy σ guid) s).2 := by
  unfold deletePolicy
  refine Keeps.from (keeps_read (Q := fun found => s.catalog.policies.get? guid = found)
    fun s' hsame found hread => ?_) hs fun found hfound => ?_
  · subst hsame
    unfold System.personaPolicy? at hread
    rw [Except.bind_eq_ok_iff] at hread
    obtain ⟨-, -, hget⟩ := hread
    exact Except.ok.inj hget
  · split
    · exact hs
    · next policy =>
      refine (keeps_requirePersona _).from hs fun persona hpersona => ?_
      obtain ⟨_, rfl, hget⟩ := hpersona
      exact Keeps.run (keeps_carryOut hI (hacts policy persona hfound hget)
        (fun a c ha _ => planStrip_plans ha policy) fun report =>
          (keeps_deletePersonaPolicy hI guid).seq fun _ => keeps_pure trivial) hs

/-- A request keeps an invariant if it plans for one of its personas. -/
theorem Request.keeps (hI : System.Invariant acts I) (hs : I s) (r : Request)
    (hacts : ∀ persona, r.planned? s = some persona → acts persona) : I (r.run σ s) := by
  cases r with
  | createPersona persona => exact (keeps_createPersona hI persona).run hs
  | updatePersona update =>
    refine updatePersona_keeps hI hs update fun existing hexisting => hacts _ ?_
    simp only [Request.planned?, hexisting, Option.map_some]
  | deletePersona guid => exact deletePersona_keeps hI hs guid hacts
  | putPolicy subjects user policy => exact putPolicy_keeps hI hs subjects user policy hacts
  | deletePolicy guid =>
    refine deletePolicy_keeps hI hs guid fun policy persona hpolicy hpersona => hacts persona ?_
    simp only [Request.planned?, Request.persona?, hpolicy, Option.bind_some, hpersona]

end PersonaService

/-- Whatever requests have led to a system, its stores are well kept. -/
theorem System.Reachable.keeps {s : System} (h : s.Reachable) : s.WellKept := by
  induction h with
  | empty =>
    have hnone : ∀ {α : Type} (id : String) (p : α), ¬ NameMap.get? (∅ : NameMap α) id = some p :=
      fun id p h => Option.some_ne_none p h.symm
    refine ⟨⟨⟨?_, ?_, ?_, ?_⟩, ?_⟩, ?_, fun guid policy h => absurd h (hnone guid policy),
      fun guid policy h => absurd h (hnone guid policy)⟩
    · exact fun id p h => absurd h (hnone id p)
    · exact fun id p h => absurd h (hnone id p)
    · exact fun id p h => absurd h (hnone id p)
    · exact fun id _ p _ h => absurd h (hnone id p)
    · exact fun id p h => absurd h (hnone id p)
    · exact fun id p h => absurd h (hnone id p)
  | request _ σ r ih =>
    exact PersonaService.Request.keeps System.wellKept_invariant ih r fun _ _ => trivial
  | faults _ faults failing ih => exact ih.leaves ⟨rfl, Nat.le_refl _, fun _ _ h => .inl h⟩

/-- The policies of the authority are well kept. -/
theorem System.Reachable.wellKept {s : System} (h : s.Reachable) : s.authority.WellKept :=
  h.keeps.authority

end CatalogAccess
