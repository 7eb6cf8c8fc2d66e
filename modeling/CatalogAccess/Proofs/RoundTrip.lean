import CatalogAccess.Persona
import CatalogAccess.Policy.Codec
import CatalogAccess.Role
import CatalogAccess.SearchIndex
import CatalogAccess.Proofs.Json.Records

/-!
# What is written is read back

Policies, criteria, personas, roles, entities, hits and decisions are written as JSON and read from
documents. `written_forms_read_back` says that reading what was written gives the object back.

Objects without a recursion of their own are records: `Document.exists_record?` finds their fields,
and each field is read back by itself. The nodes of condition trees are read by trying a group
before a comparison, so their proof goes along the tree: a comparison holds no connective
(`Criteria.Leaf.groupCondition?_toJson`) and a group holds one, with children that are read back
(`Criteria.nodes?_listToJson`). The attributes of entities are kept as they are, which gives them
back when the objects among them are in order (`Entity.HasOrderedAttributes`).
-/

namespace CatalogAccess

/-! ### Policies -/

namespace Policy

theorem Service.ofDocument?_text (s : Service) :
    ofDocument? (Json.str s.text).document = some s :=
  Document.choice?_text (by decide) (by cases s <;> decide)

theorem Kind.ofDocument?_text (k : Kind) : ofDocument? (Json.str k.text).document = some k :=
  Document.choice?_text (by decide) (by cases k <;> decide)

theorem Category.ofDocument?_text (c : Category) :
    ofDocument? (Json.str c.text).document = some c :=
  Document.choice?_text (by decide) (by cases c <;> decide)

/-- A resource map is read back. -/
theorem resourcesOfDocument?_resourcesToJson (m : ResourceMap) :
    resourcesOfDocument? (resourcesToJson m).document = some m :=
  Document.map?_map Json.strings fun e _ => Document.strings?_strings e.2

/-- An item is read back from fields that hold it. -/
theorem Item.ofRecord?_of_get? {i : Item} {r : Record}
    (h : ∀ name ∈ fieldNames, r.get? name = (i.toJson.get? name).map Json.document) :
    ofRecord? r = some i := by
  rw [fieldNames, toJson] at h
  simp [ofRecord?, Record.withDefault, h]

/-- An item is read back. -/
theorem Item.ofDocument?_toJson (i : Item) : ofDocument? i.toJson.document = some i := by
  obtain ⟨r, hr, hget⟩ := Document.exists_record? (v := i.toJson) rfl (Json.keysWithin_self _)
    (by simp) fieldNames 0
  rw [ofDocument?, hr, Option.bind_some, ofRecord?_of_get? hget]

/-- The type of a mask is read back. -/
theorem MaskItem.maskTypeOfDocument?_obj (s : String) :
    maskTypeOfDocument? (Json.obj [("dataMaskType", .str s)]).document = some s := by
  obtain ⟨r, hr, hget⟩ := Document.exists_record? (v := .obj [("dataMaskType", .str s)]) rfl
    (Json.keysWithin_self _) (by simp) ["dataMaskType"] 1
  simp [maskTypeOfDocument?, hr, hget, Record.required]

/-- A mask item is read back. -/
theorem MaskItem.ofDocument?_toJson (m : MaskItem) : ofDocument? m.toJson.document = some m := by
  obtain ⟨r, hr, hget⟩ := Document.exists_record? (v := m.toJson) rfl (Json.keysWithin_self _)
    (by simp) (Item.fieldNames ++ ["dataMaskInfo"]) 0
  -- The fields of the item stand beside the mask.
  have hsame : ∀ name ∈ Item.fieldNames, m.toJson.get? name = m.item.toJson.get? name := by
    simp [Item.fieldNames, toJson, Item.toJson]
  have hitem : Item.ofRecord? r = some m.item := Item.ofRecord?_of_get? fun name hname =>
    (hget name (List.mem_append_left _ hname)).trans
      (congrArg (Option.map Json.document) (hsame name hname))
  have hmask : r.required "dataMaskInfo" maskTypeOfDocument? = some m.maskType :=
    Record.required_of_get? (by simp [hget]) (maskTypeOfDocument?_obj m.maskType)
  calc ofDocument? m.toJson.document
      = (m.toJson.document.record? (Item.fieldNames ++ ["dataMaskInfo"]) 0).bind fun r =>
          (Item.ofRecord? r).bind fun item =>
            (r.required "dataMaskInfo" maskTypeOfDocument?).map fun maskType => ⟨item, maskType⟩ :=
        if_pos (Json.isReadable_filter _ _)
    _ = some m := by rw [hr, Option.bind_some, hitem, Option.bind_some, hmask, Option.map_some]

/-- A policy is read back. -/
theorem ofDocument?_toJson (p : Policy) : ofDocument? p.toJson.document = some p := by
  obtain ⟨r, hr, hget⟩ := Document.exists_record? (v := p.toJson) rfl
    ((((Json.keysWithin_self _).append (Json.keysWithin_memberOf _ _)).append
      (Json.keysWithin_memberOf _ _)).append (Json.keysWithin_self _)) (by simp)
    ["id", "name", "service", "policyType", "policyResourceCategory", "resources", "policyItems",
      "denyPolicyItems", "dataMaskPolicyItems", "filterCriteria", "policyLabels", "isEnabled"] 3
  have hid : r.optional "id" Document.string? = some p.id :=
    Record.optional_of_get? (by simp [hget]) Document.string?_str rfl
  have hcriteria : r.optional "filterCriteria" Document.string? = some p.criteria :=
    Record.optional_of_get? (by simp [hget]) Document.string?_str rfl
  have hallow := Document.list?_map fun i (_ : i ∈ p.allowItems) => Item.ofDocument?_toJson i
  have hdeny := Document.list?_map fun i (_ : i ∈ p.denyItems) => Item.ofDocument?_toJson i
  have hmask := Document.list?_map fun i (_ : i ∈ p.maskItems) => MaskItem.ofDocument?_toJson i
  simp [ofDocument?, hr, hid, hcriteria, hget, Record.required, Record.withDefault, hallow, hdeny,
    hmask, Service.ofDocument?_text, Kind.ofDocument?_text, Category.ofDocument?_text,
    resourcesOfDocument?_resourcesToJson]

end Policy

/-! ### Entities -/

/-- A classification is read back. -/
theorem Classification.ofDocument?_toJson (c : Classification) :
    ofDocument? c.toJson.document = some c := by
  obtain ⟨r, hr, hget⟩ := Document.exists_record? (v := c.toJson) rfl
    ((Json.keysWithin_memberOf _ _).append (Json.keysWithin_self _)) (by simp)
    ["typeName", "entityGuid"] 1
  have hguid : r.optional "entityGuid" Document.string? = some c.entityGuid :=
    Record.optional_of_get? (by simp [hget]) Document.string?_str rfl
  simp [ofDocument?, hr, hguid, hget, Record.required]

namespace Entity

/-- The values of the attributes list the members of their objects by increasing key. -/
def HasOrderedAttributes (e : Entity) : Prop := ∀ a ∈ e.attributes.toList, a.2.IsOrdered

/-- An entity is read back. -/
theorem ofDocument?_toJson {e : Entity} (h : e.HasOrderedAttributes) :
    ofDocument? e.toJson.document = some e := by
  obtain ⟨r, hr, hget⟩ := Document.exists_record? (v := e.toJson) rfl (Json.keysWithin_self _)
    (by simp) ["guid", "typeName", "superTypeNames", "attributes", "classifications", "meaningNames"] 2
  have hattributes : Document.map? Document.value? (Json.ofMap e.attributes).document =
      some e.attributes := by
    have hread := Document.map?_map id fun a ha => (h a ha).value?_document
    simpa [Json.ofMap] using hread
  have hclassifications := Document.list?_map fun c (_ : c ∈ e.classifications) =>
    Classification.ofDocument?_toJson c
  simp [ofDocument?, hr, hget, Record.required, Record.withDefault, hattributes, hclassifications]

/-- Entities that are read have their attributes in order. -/
theorem hasOrderedAttributes_of_ofDocument? {d : Document} {e : Entity}
    (h : ofDocument? d = some e) : e.HasOrderedAttributes := by
  simp only [ofDocument?, Option.bind_eq_bind, Option.bind_eq_some_iff, Option.pure_def,
    Option.some.injEq] at h
  obtain ⟨r, -, _, -, _, -, _, -, attributes, hread, _, -, _, -, rfl⟩ := h
  rw [Record.withDefault] at hread
  split at hread
  · obtain rfl := Option.some.inj hread
    exact List.forall_mem_nil _
  · exact Document.isOrdered_of_map? hread

end Entity

/-- A relationship is read back. -/
theorem Relationship.ofDocument?_toJson {r : Relationship} (hone : r.endOne.HasOrderedAttributes)
    (htwo : r.endTwo.HasOrderedAttributes) : ofDocument? r.toJson.document = some r := by
  obtain ⟨fields, hr, hget⟩ := Document.exists_record? (v := r.toJson) rfl (Json.keysWithin_self _)
    (by simp) ["relationshipType", "endOne", "endTwo"] 3
  simp [ofDocument?, hr, hget, Record.required, Entity.ofDocument?_toJson hone,
    Entity.ofDocument?_toJson htwo]

/-! ### Roles and personas -/

/-- A role is read back. -/
theorem Role.ofDocument?_toJson (r : Role) : ofDocument? r.toJson.document = some r := by
  obtain ⟨fields, hr, hget⟩ := Document.exists_record? (v := r.toJson) rfl
    (((Json.keysWithin_self _).append (Json.keysWithin_memberOf _ _)).append
      (Json.keysWithin_self _)) (by simp) ["id", "name", "users", "groups", "roles"] 2
  have hid : fields.optional "id" Document.string? = some r.id :=
    Record.optional_of_get? (by simp [hget]) Document.string?_str rfl
  simp [ofDocument?, hr, hid, hget, Record.required, Record.withDefault]

theorem Status.ofDocument?_text (s : Status) : ofDocument? (Json.str s.text).document = some s :=
  Document.choice?_text (by decide) (by cases s <;> decide)

/-- A persona is read back. -/
theorem Persona.ofDocument?_toJson (p : Persona) : ofDocument? p.toJson.document = some p := by
  obtain ⟨r, hr, hget⟩ := Document.exists_record? (v := p.toJson) rfl
    (((((Json.keysWithin_self _).append (Json.keysWithin_memberOf _ _)).append
      (Json.keysWithin_self _)).append (Json.keysWithin_memberOf _ _)).append
      (Json.keysWithin_self _)) (by simp)
    ["guid", "name", "qualifiedName", "tenantId", "enabled", "roleId", "users", "groups", "status"] 2
  have htenant : r.optional "tenantId" Document.string? = some p.tenantId :=
    Record.optional_of_get? (by simp [hget]) Document.string?_str rfl
  have hrole : r.optional "roleId" Document.string? = some p.roleId :=
    Record.optional_of_get? (by simp [hget]) Document.string?_str rfl
  simp [ofDocument?, hr, htenant, hrole, hget, Record.required, Record.withDefault,
    Status.ofDocument?_text]

namespace PersonaPolicy

theorem Category.ofDocument?_text (c : Category) :
    ofDocument? (Json.str c.text).document = some c :=
  Document.choice?_text (by decide) (by cases c <;> decide)

/-- A persona policy is read back. -/
theorem ofDocument?_toJson (p : PersonaPolicy) : ofDocument? p.toJson.document = some p := by
  obtain ⟨r, hr, hget⟩ := Document.exists_record? (v := p.toJson) rfl
    (((((Json.keysWithin_self _).append (Json.keysWithin_memberOf _ _)).append
      (Json.keysWithin_self _)).append (Json.keysWithin_memberOf _ _)).append
      (Json.keysWithin_self _)) (by simp)
    ["guid", "personaGuid", "name", "qualifiedName", "category", "actions", "assets",
      "connectionId", "allow", "maskType", "status"] 7
  have hconnection : r.optional "connectionId" Document.string? = some p.connectionId :=
    Record.optional_of_get? (by simp [hget]) Document.string?_str rfl
  have hmask : r.optional "maskType" Document.string? = some p.maskType :=
    Record.optional_of_get? (by simp [hget]) Document.string?_str rfl
  simp [ofDocument?, hr, hconnection, hmask, hget, Record.required, Record.withDefault,
    Status.ofDocument?_text, Category.ofDocument?_text]

end PersonaPolicy

/-! ### Criteria -/

namespace Criteria

theorem Condition.ofText?_text (c : Condition) : ofText? c.text = some c := by cases c <;> rfl

theorem Operator.ofText?_text (o : Operator) : ofText? o.text = some o := by cases o <;> decide

/-- An operand is read back: a list is no string. -/
theorem Operand.ofDocument?_toJson (o : Operand) : ofDocument? o.toJson.document = some o := by
  cases o with
  | single s => rfl
  | multiple vs =>
    have hread := Document.strings?_strings vs
    exact congrArg (Option.map multiple) hread

namespace Leaf

/-- A comparison is read back. -/
theorem ofDocument?_toJson (l : Leaf) : ofDocument? l.toJson.document = some l := by
  obtain ⟨r, hr, hget⟩ := Document.exists_record? (v := l.toJson) rfl (Json.keysWithin_self _)
    (by simp) ["attributeName", "operator", "attributeValue"] 3
  have hoperator : Document.choice? Operator.ofText? (Json.str l.operator.text).document =
      some l.operator := Operator.ofText?_text l.operator
  simp [ofDocument?, hr, hget, Record.required, hoperator, Operand.ofDocument?_toJson]

/-- A comparison has no connective, so it is never read as a group. -/
theorem groupCondition?_toJson (l : Leaf) : groupCondition? l.toJson.document = none := by
  obtain ⟨r, hr, hget⟩ := Document.exists_record? (v := l.toJson) rfl (Json.keysWithin_self _)
    (by simp) groupFields 1
  have hmissing : r.get? "condition" = none := by
    rw [hget _ (by decide)]
    simp
  simp [groupCondition?, hr, Record.required, hmissing]

/-- A comparison among nodes is read as itself, whatever follows. -/
theorem nodes?_cons (l : Leaf) (ds : List Document) :
    nodes? (l.toJson.document :: ds) = (nodes? ds).map (Node.leaf l :: ·) := by
  rw [nodes?, l.groupCondition?_toJson, l.ofDocument?_toJson,
    if_pos (Json.isReadable_document l.toJson)]
  cases nodes? ds with
  | none => rfl
  | some ns => rfl

end Leaf

/-- The connective of a group is read back. -/
theorem groupCondition?_toJson (c : Condition) (children : List Node) :
    groupCondition? (Node.group c children).toJson.document = some c := by
  obtain ⟨r, hr, hget⟩ := Document.exists_record? (v := (Node.group c children).toJson) rfl
    (Json.keysWithin_self _) (by simp) groupFields 1
  have hcondition : r.required "condition" (Document.choice? Condition.ofText?) = some c :=
    Record.required_of_get? (hget _ (by decide)) (Condition.ofText?_text c)
  simp [groupCondition?, hr, hcondition]

/-- The children of a group are read one by one. -/
theorem groupChildren?_toJson (c : Condition) (children : List Node) :
    groupChildren? (Node.group c children).toJson.document =
      nodes? (Json.documents (Node.listToJson children)) := by
  simp [Node.toJson, Json.document, Json.documentMembers, groupChildren?, memberChildren?,
    listedChildren?]

mutual

/-- A node is read as itself, whatever follows: its children are read back, and only a group can be
read as one. -/
theorem Node.nodes?_cons : ∀ (n : Node) (ds : List Document),
    nodes? (n.toJson.document :: ds) = (nodes? ds).map (n :: ·)
  | .group c children, ds => by
    rw [nodes?, groupCondition?_toJson, groupChildren?_toJson, nodes?_listToJson children,
      if_pos (Json.isReadable_document _)]
    cases nodes? ds with
    | none => rfl
    | some ns => rfl
  | .leaf l, ds => by
    rw [Node.toJson]
    exact l.nodes?_cons ds

/-- The children of a group are read back. -/
theorem nodes?_listToJson : ∀ ns : List Node, nodes? (Json.documents (Node.listToJson ns)) = some ns
  | [] => rfl
  | n :: ns => by
    rw [Node.listToJson, Json.documents, Node.nodes?_cons n, nodes?_listToJson ns, Option.map_some]

end

/-- A condition tree is read back. -/
theorem Tree.ofDocument?_toJson (t : Tree) : ofDocument? t.toJson.document = some t := by
  rw [ofDocument?, toJson, groupCondition?_toJson, groupChildren?_toJson, nodes?_listToJson]
  rfl

/-- A tree that may be missing is found under its key, if it is there. -/
@[simp] theorem get?_obj_treeMember {key name : String} {o : Option Tree} :
    (Json.obj (treeMember key o)).get? name = if key = name then o.map Tree.toJson else none := by
  cases o with
  | none => simp [treeMember]
  | some t => simp [treeMember]

/-- A tree that may be missing has no other key. -/
theorem keysWithin_treeMember (key : String) (o : Option Tree) :
    Json.KeysWithin (treeMember key o) [key] := by
  cases o with
  | none => exact List.nil_sublist _
  | some t => exact .refl _

/-- Criteria are read back. -/
theorem ofDocument?_toJson (c : Criteria) : ofDocument? c.toJson.document = some c := by
  obtain ⟨r, hr, hget⟩ := Document.exists_record? (v := c.toJson) rfl
    (((keysWithin_treeMember _ _).append (keysWithin_treeMember _ _)).append
      (keysWithin_treeMember _ _)) (by simp) ["entity", "endOneEntity", "endTwoEntity"] 0
  have hentity : r.optional "entity" Tree.ofDocument? = some c.entity :=
    Record.optional_of_get? (by simp [hget]) Tree.ofDocument?_toJson rfl
  have hone : r.optional "endOneEntity" Tree.ofDocument? = some c.endOne :=
    Record.optional_of_get? (by simp [hget]) Tree.ofDocument?_toJson rfl
  have htwo : r.optional "endTwoEntity" Tree.ofDocument? = some c.endTwo :=
    Record.optional_of_get? (by simp [hget]) Tree.ofDocument?_toJson rfl
  simp [ofDocument?, hr, hentity, hone, htwo]

end Criteria

/-! ### Hits and decisions -/

/-- A hit is read back. -/
theorem SearchHit.ofDocument?_toJson (h : SearchHit) : ofDocument? h.toJson.document = some h := by
  obtain ⟨r, hr, hget⟩ := Document.exists_record? (v := h.toJson) rfl (Json.keysWithin_self _)
    (by simp) ["guid", "matchedQueries"] 1
  simp [ofDocument?, hr, hget, Record.required, Record.withDefault]

/-- A decision is read back. -/
theorem Decision.ofDocument?_toJson (d : Decision) : ofDocument? d.toJson.document = some d := by
  obtain ⟨r, hr, hget⟩ := Document.exists_record? (v := d.toJson) rfl (Json.keysWithin_self _)
    (by simp) ["allowed", "policyId"] 2
  -- A missing policy is written as `null`.
  have hid : r.optional "policyId" Document.string? = some d.policyId := by
    have hfound : r.get? "policyId" = some (Json.ofOption d.policyId).document := by simp [hget]
    rw [Record.optional, hfound]
    cases d.policyId with
    | none => rfl
    | some id => rfl
  simp [ofDocument?, hr, hid, hget, Record.required]

/-! ### All forms -/

/-- Whatever the catalogue writes, it reads back as it was. A comparison is never read as a group,
and wherever it stands among the children of one it is read as itself. The attributes of an entity
must be values whose objects list their members by increasing key, which holds of all entities that
are read. -/
theorem written_forms_read_back :
    (∀ p : Policy, Policy.ofDocument? p.toJson.document = some p) ∧
    (∀ c : Criteria, Criteria.ofDocument? c.toJson.document = some c) ∧
    (∀ t : Criteria.Tree, Criteria.Tree.ofDocument? t.toJson.document = some t) ∧
    (∀ l : Criteria.Leaf, Criteria.Tree.ofDocument? l.toJson.document = none ∧
      ∀ ds, Criteria.nodes? (l.toJson.document :: ds) = (Criteria.nodes? ds).map (.leaf l :: ·)) ∧
    (∀ p : Persona, Persona.ofDocument? p.toJson.document = some p) ∧
    (∀ p : PersonaPolicy, PersonaPolicy.ofDocument? p.toJson.document = some p) ∧
    (∀ r : Role, Role.ofDocument? r.toJson.document = some r) ∧
    (∀ e : Entity, e.HasOrderedAttributes → Entity.ofDocument? e.toJson.document = some e) ∧
    (∀ d e, Entity.ofDocument? d = some e → e.HasOrderedAttributes) ∧
    (∀ r : Relationship, r.endOne.HasOrderedAttributes → r.endTwo.HasOrderedAttributes →
      Relationship.ofDocument? r.toJson.document = some r) ∧
    (∀ h : SearchHit, SearchHit.ofDocument? h.toJson.document = some h) ∧
    ∀ d : Decision, Decision.ofDocument? d.toJson.document = some d := by
  refine ⟨Policy.ofDocument?_toJson, Criteria.ofDocument?_toJson, Criteria.Tree.ofDocument?_toJson,
    fun l => ⟨?_, l.nodes?_cons⟩, Persona.ofDocument?_toJson, PersonaPolicy.ofDocument?_toJson,
    Role.ofDocument?_toJson, fun _ => Entity.ofDocument?_toJson,
    fun _ _ => Entity.hasOrderedAttributes_of_ofDocument?,
    fun _ => Relationship.ofDocument?_toJson, SearchHit.ofDocument?_toJson,
    Decision.ofDocument?_toJson⟩
  rw [Criteria.Tree.ofDocument?, l.groupCondition?_toJson]
  rfl

/-- A table with an object among its attributes, and a relationship that it is an end of. -/
theorem written_forms_read_back_orders :
    let orders : Entity :=
      { guid := "g-1", typeName := "Table", classifications := [⟨"PII", some "g-0"⟩]
        attributes := NameMap.ofList [("qualifiedName", .str "db/orders"),
          ("lineage", .obj [("depth", .nat 2), ("sources", .arr [.str "raw", .null])])] }
    let feeds : Relationship :=
      { relationshipType := "feeds", endOne := orders, endTwo := { typeName := "Process" } }
    orders.HasOrderedAttributes ∧ Entity.ofDocument? orders.toJson.document = some orders ∧
      Relationship.ofDocument? feeds.toJson.document = some feeds := by
  intro orders feeds
  have horders : orders.HasOrderedAttributes := by
    intro a ha
    have ha := NameMap.mem_of_mem_ofList ha
    simp only [List.mem_cons, List.not_mem_nil, or_false] at ha
    rcases ha with rfl | rfl
    · exact .str _
    · have hsources : Json.IsOrdered (.arr [.str "raw", .null]) :=
        .arr (List.forall_mem_cons.2 ⟨.str _, List.forall_mem_singleton.2 .null⟩)
      exact .obj (by decide) (List.forall_mem_cons.2 ⟨.num _, List.forall_mem_singleton.2 hsources⟩)
  have hprocess : Entity.HasOrderedAttributes { typeName := "Process" } := List.forall_mem_nil _
  obtain ⟨-, -, -, -, -, -, -, hentity, -, hrelationship, -, -⟩ := written_forms_read_back
  exact ⟨horders, hentity orders horders, hrelationship feeds horders hprocess⟩

end CatalogAccess
