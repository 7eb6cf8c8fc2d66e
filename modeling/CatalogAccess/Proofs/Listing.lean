import CatalogAccess.Proofs.Page
import CatalogAccess.Proofs.Signature.Contents
import CatalogAccess.System

/-!
# Listings of the authority

Policies are listed by their label and looked up by their target. Both read page by page, so that the
answer could depend on the page size, and a look-up only reads policies whose resources overlap those
asked for. Neither hides a policy (`System.listings_complete`): a listing has the labelled policies, each
once and by identifier, and a look-up finds a policy with the target if one with the same resources is
stored. The overlap holds no such policy back, unless a dimension without values is asked for, which
nothing overlaps (`Authority.overlaps_of_contents_eq`, `Authority.withResources_eq_nil`).
-/

namespace CatalogAccess

variable {α : Type} {a : Authority} {pageSize : Nat} {label : String} {q : Policy}

/-- The values of a map that pass a test are those under certain keys, in the order of the keys. -/
theorem NameMap.filter_values_spec (m : NameMap α) (test : α → Bool) :
    ∃ keys : List String, keys.Pairwise (· < ·) ∧
      (∀ k, k ∈ keys ↔ ∃ v, m.get? k = some v ∧ test v = true) ∧
      (m.values.filter test).map some = keys.map m.get? := by
  refine ⟨(m.filter fun _ => test).keys, ?_, fun k => ?_, ?_⟩
  · exact List.pairwise_map.2 (m.filter fun _ => test).increasing
  · simp [keys, NameMap.filter, get?_eq_some_iff]
  · rw [values, List.filter_map, List.map_map, keys, NameMap.filter, List.map_map]
    refine List.map_congr_left fun e he => ?_
    exact (get?_eq_some_iff.2 (List.mem_filter.1 he).1).symm

/-! ### Look-ups by target -/

/-- Resources overlap those with the same contents, if every dimension has a value. -/
theorem Authority.overlaps_of_contents_eq {m n : ResourceMap} (h : m.contents = n.contents)
    (hvalues : ∀ e ∈ n.toList, e.2 ≠ []) : overlaps m n = true := by
  unfold overlaps
  rw [List.all_eq_true]
  rintro ⟨d, vs⟩ he
  have hd : m.contents d = some ↑vs := by
    rw [h, ResourceMap.contents, NameMap.get?_eq_some_iff.2 he, Option.map_some]
  obtain ⟨ws, hws, hperm⟩ := Option.map_eq_some_iff.1 hd
  -- One value in common is enough, and any value of the dimension is one.
  obtain ⟨v, hv⟩ := List.exists_mem_of_ne_nil vs (hvalues _ he)
  rw [hws, Option.any_some, List.any_eq_true]
  exact ⟨v, hv, List.contains_iff_mem.2 ((Multiset.coe_eq_coe.1 hperm).symm.subset hv)⟩

/-- Nothing overlaps resources with a dimension that has no values. -/
theorem Authority.withResources_eq_nil {service : Policy.Service} {n : ResourceMap}
    (h : ∃ e ∈ n.toList, e.2 = []) : a.withResources service n = [] := by
  obtain ⟨⟨d, vs⟩, he, hnil⟩ := h
  obtain rfl : vs = [] := hnil
  refine List.filter_eq_nil_iff.2 fun p _ hp => ?_
  have hoverlaps := (Bool.and_eq_true_iff.1 hp).2
  have hshared := List.all_eq_true.1 hoverlaps _ he
  simp at hshared

/-- Whether two policies have the same target, with resource maps compared by their signatures under a
digest. -/
def Policy.sameTargetUnder (digest : List UInt8 → String) (p q : Policy) : Bool :=
  p.kind == q.kind && p.service == q.service &&
    ResourceMap.signatureWith digest p.resources == ResourceMap.signatureWith digest q.resources

/-- A policy has the service, the kind and the resources of another one, with the values of each dimension
in whatever order. -/
structure Policy.AgreesWith (p q : Policy) : Prop where
  /-- The services are the same. -/
  service : p.service = q.service
  /-- The kinds are the same. -/
  kind : p.kind = q.kind
  /-- The resources have the same contents. -/
  contents : ResourceMap.contents p.resources = ResourceMap.contents q.resources

/-- Policies that agree have the same target. -/
theorem Policy.AgreesWith.sameTarget {p : Policy} (h : p.AgreesWith q) : p.sameTarget q = true := by
  have hbytes := ResourceMap.canonicalBytes_congr h.contents
  simp [Policy.sameTarget, h.service, h.kind, hbytes]

/-- Policies that agree have the same target under every digest. -/
theorem Policy.AgreesWith.sameTargetUnder {p : Policy} (h : p.AgreesWith q)
    (digest : List UInt8 → String) : p.sameTargetUnder digest q = true := by
  have hbytes := ResourceMap.canonicalBytes_congr h.contents
  simp [Policy.sameTargetUnder, ResourceMap.signatureWith, h.service, h.kind, hbytes]

/-! ### Answers -/

/-- The list has what a listing by label should have. -/
structure Authority.Lists (a : Authority) (pageSize : Nat) (label : String) (l : List Policy) :
    Prop where
  /-- Pages are read up to one that is not full, and the list is what they hold. -/
  pages : ∃ ps, Page.Reads pageSize (a.withLabel label) (·.IsShort (a.withLabel label)) ps ∧
    l = ps.flatMap (·.slice (a.withLabel label))
  /-- The list has the policies of certain identifiers in increasing order, which are those of the
  policies with the label. -/
  labelled : ∃ ids : List String, ids.Pairwise (· < ·) ∧
    (∀ id, id ∈ ids ↔ ∃ p, a.policies.get? id = some p ∧ label ∈ p.labels) ∧
    l.map some = ids.map a.policies.get?

/-- What has been found is what a look-up by target should find, where a test tells targets. -/
structure Authority.LooksUp (a : Authority) (pageSize : Nat) (q : Policy) (test : Policy → Bool)
    (found : Option Policy) : Prop where
  /-- Pages of candidates are read up to one that is not full or has a policy with the target, which is
  the one that is found. -/
  pages : ∃ ps, Page.Reads pageSize (a.withResources q.service q.resources)
      (fun p => p.IsShort (a.withResources q.service q.resources) ∨
        (p.slice (a.withResources q.service q.resources)).any test) ps ∧
    found = ps.findSome? fun p => (p.slice (a.withResources q.service q.resources)).find? test
  /-- A policy that is found is stored and has the target. -/
  sound : ∀ p, found = some p → (∃ id, a.policies.get? id = some p) ∧ test p = true
  /-- If a policy is stored that agrees with the one that is looked up, then one is found, provided that
  every dimension has a value. -/
  complete : (∀ e ∈ q.resources.toList, e.2 ≠ []) →
    ∀ id p, a.policies.get? id = some p → p.AgreesWith q → ∃ p', found = some p'
  /-- With a dimension that has no values nothing is found. -/
  hidden : (∃ e ∈ q.resources.toList, e.2 = []) → found = none

/-- Reading the labelled policies page by page lists them all. -/
theorem Authority.lists_drain (a : Authority) (pageSize : Nat) (label : String) :
    a.Lists pageSize label (Page.drain pageSize (a.withLabel label)) := by
  constructor
  · obtain ⟨ps, hreads⟩ :=
      Page.exists_reads pageSize (a.withLabel label) (·.IsShort (a.withLabel label)) fun _ hshort => hshort
    refine ⟨ps, hreads, ?_⟩
    rw [hreads.visits.flatMap_slice, Page.drain_eq]
    exact List.drop_zero.symm
  · rw [Page.drain_eq]
    obtain ⟨ids, hincreasing, hids, hvalues⟩ :=
      a.policies.filter_values_spec (·.labels.contains label)
    exact ⟨ids, hincreasing, by simpa using hids, hvalues⟩

/-- Looking for a target page by page finds it among the stored policies, with any test that policies pass
which agree. -/
theorem Authority.looksUp_find? (a : Authority) (pageSize : Nat) {test : Policy → Bool}
    (htest : ∀ p : Policy, p.AgreesWith q → test p = true) :
    a.LooksUp pageSize q test
      (Page.find? pageSize test (a.withResources q.service q.resources)) := by
  constructor
  · obtain ⟨ps, hreads⟩ := Page.exists_reads pageSize (a.withResources q.service q.resources)
      (fun p => p.IsShort _ ∨ (p.slice _).any test) fun _ hshort => .inl hshort
    refine ⟨ps, hreads, ?_⟩
    rw [hreads.visits.findSome?_slice, Page.find?_eq]
    exact congrArg _ List.drop_zero.symm
  · intro p hfound
    rw [Page.find?_eq] at hfound
    have hcandidate := (List.mem_filter.1 (List.mem_of_find?_eq_some hfound)).1
    exact ⟨NameMap.mem_values_iff.1 hcandidate, List.find?_some hfound⟩
  · intro hvalues id p hstored hagrees
    have hcandidate : p ∈ a.withResources q.service q.resources := by
      refine List.mem_filter.2 ⟨NameMap.mem_values_iff.2 ⟨id, hstored⟩, ?_⟩
      rw [hagrees.service, beq_self_eq_true, overlaps_of_contents_eq hagrees.contents hvalues,
        Bool.and_self]
    rw [Page.find?_eq]
    exact Option.isSome_iff_exists.1 (List.find?_isSome.2 ⟨p, hcandidate, htest p hagrees⟩)
  · intro hempty
    rw [Page.find?_eq, withResources_eq_nil hempty, List.find?_nil]

/-- Unless the call itself fails, a listing by label has exactly the policies with the label, each once
and by identifier, and a look-up by target finds a policy that has the target if one that agrees is
stored, and never finds one that has another target. Both end, for every state of the authority and every
page size, and no page begins behind the end of what is read. The same holds where targets are told apart
by a digest. -/
theorem System.listings_complete (s : System) (pageSize : Nat) (label : String) (q : Policy)
    (digest : List UInt8 → String) :
    (∃ l, s.policiesWithLabel pageSize label =
        (s.faults.check "list_by_label" label).map (fun _ => l) ∧
      s.authority.Lists pageSize label l) ∧
    (∃ found, s.sameTarget? pageSize q =
        (s.faults.check "list_by_resources" q.service.text).map (fun _ => found) ∧
      s.authority.LooksUp pageSize q (·.sameTarget q) found) ∧
    s.authority.LooksUp pageSize q (·.sameTargetUnder digest q)
      (Page.find? pageSize (·.sameTargetUnder digest q)
        (s.authority.withResources q.service q.resources)) := by
  refine ⟨⟨_, ?_, s.authority.lists_drain pageSize label⟩,
    ⟨_, ?_, s.authority.looksUp_find? pageSize fun p hagrees => hagrees.sameTarget⟩,
    s.authority.looksUp_find? pageSize fun p hagrees => hagrees.sameTargetUnder digest⟩
  · rw [policiesWithLabel]
    cases s.faults.check "list_by_label" label <;> rfl
  · rw [sameTarget?]
    cases s.faults.check "list_by_resources" q.service.text <;> rfl

/-- With pages of one policy each, the policy with the same values in another order is found behind one
that merely overlaps. -/
theorem System.listings_complete_second_page :
    let entities (values : List String) : ResourceMap := .ofList [("entity", values)]
    let stored (id : String) (values : List String) : Policy :=
      { id := some id, name := id, service := .resource, resources := entities values }
    let q : Policy :=
      { name := "db", service := .resource, resources := entities ["db", "db/*"] }
    let s : System := { authority := Authority.seedPolicy (Authority.seedPolicy {}
      (stored "policy-0001" ["db"])) (stored "policy-0002" ["db/*", "db"]) }
    ∃ p, s.sameTarget? 1 q = .ok (some p) ∧ p.sameTarget q = true := by
  intro entities stored q s
  obtain ⟨-, ⟨found, hcall, hlooks⟩, -⟩ :=
    listings_complete s 1 "persona:terms" q Sha256.hexDigest
  have hcontents : (entities ["db/*", "db"]).contents = (entities ["db", "db/*"]).contents := by
    funext d
    show Option.map _ ((List.find? _ [("entity", ["db/*", "db"])]).map Prod.snd) =
      Option.map _ ((List.find? _ [("entity", ["db", "db/*"])]).map Prod.snd)
    rw [List.find?_singleton, List.find?_singleton]
    cases "entity" == d with
    | true => exact congrArg some (Multiset.coe_eq_coe.2 (.swap ..))
    | false => rfl
  obtain ⟨p, rfl⟩ := hlooks.complete (by decide +kernel) "policy-0002"
    (stored "policy-0002" ["db/*", "db"]) (by decide +kernel) ⟨rfl, rfl, hcontents⟩
  exact ⟨p, hcall, (hlooks.sound p rfl).2⟩

end CatalogAccess
