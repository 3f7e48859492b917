import SpecForm.Document.Operations
import SpecForm.Proofs.Document.Tree
import SpecForm.Proofs.Store.Growth

/-!
# Operations that share a name

The operations of a document are told by where they stand: a member of a path item that is
named like a method, or an entry of its `additionalOperations`.  The listing has each of
them once, since no two stand at one place.  A set of documents is valid exactly if no two
of its operations have one `operationId`; otherwise the first operation of the listing that
shares its `operationId` is reported, with the places of all that have it.
-/

namespace SpecForm

theorem Json.Pointer.ofTokens_append (front back : List String) :
    ofTokens (front ++ back) = ofTokens front ++ ofTokens back := by
  rw [ofTokens, List.foldl_append, foldl_child]
  rfl

namespace Node

variable {root node other operation : Node} {context name : String}

/-! ## Where operations stand -/

inductive HoldsItems (root : Node) : String → Node → Prop where
  | top {name : String} {items : Node} : name ∈ ["paths", "webhooks"] →
      root.member? name = some items → HoldsItems root name items
  | component {name : String} {components items : Node} : name ∈ ["pathItems", "webhooks"] →
      root.member? "components" = some components → components.member? name = some items →
      HoldsItems root ("components." ++ name) items
  | callback {name : String} {components callbacks items : Node} :
      root.member? "components" = some components →
      components.member? "callbacks" = some callbacks → callbacks.member? name = some items →
      HoldsItems root ("components.callbacks." ++ name) items

/-- An operation of a root document, with its context: it belongs to a path item that is no
reference. -/
inductive HasOperation (root : Node) : String → Node → Prop where
  | method {context name method : String} {items item operation : Node} :
      root.HoldsItems context items → items.member? name = some item → ¬item.has "$ref" →
      method ∈ methods → item.member? method = some operation →
      HasOperation root (context ++ "." ++ name ++ "." ++ method) operation
  | additional {context name method : String} {items item more operation : Node} :
      root.HoldsItems context items → items.member? name = some item → ¬item.has "$ref" →
      item.member? "additionalOperations" = some more → more.member? method = some operation →
      HasOperation root (context ++ "." ++ name ++ "." ++ method) operation

theorem mem_entries : (name, other) ∈ node.entries ↔ node.member? name = some other := by
  have hnames : name ∈ Json.names node.members ↔ node.has name := by
    rw [Json.mem_names]
    unfold has members
    cases node.value <;> simp [Json.member?, Json.asObject?, Option.isSome_iff_exists]
  simp only [entries, List.mem_map, Prod.mk.injEq, member?, Option.ite_none_right_eq_some,
    Option.some.injEq]
  constructor
  · rintro ⟨_, hmem, rfl, rfl⟩
    exact ⟨hnames.mp hmem, rfl⟩
  · rintro ⟨hhas, rfl⟩
    exact ⟨name, hnames.mpr hhas, rfl, rfl⟩

theorem mem_elim_entries {holder : Option Node} :
    (name, other) ∈ holder.elim [] entries ↔
      ∃ node, holder = some node ∧ node.member? name = some other := by
  cases holder with
  | none => simp
  | some node => simp [mem_entries]

theorem mem_filterMap_member? {names : List String} {label : String → String} :
    (context, other) ∈ (names.filterMap fun name =>
        (node.member? name).map fun child => (label name, child)) ↔
      ∃ name ∈ names, node.member? name = some other ∧ context = label name := by
  simp only [List.mem_filterMap, Option.map_eq_some_iff, Prod.mk.injEq]
  constructor
  · rintro ⟨name, hname, child, hchild, rfl, rfl⟩
    exact ⟨name, hname, hchild, rfl⟩
  · rintro ⟨name, hname, hchild, rfl⟩
    exact ⟨name, hname, other, hchild, rfl, rfl⟩

theorem mem_map_entries {holder : Option Node} {label : String → String} :
    (context, other) ∈ ((holder.elim [] entries).map fun (name, child) => (label name, child)) ↔
      ∃ node name, holder = some node ∧ node.member? name = some other ∧ context = label name := by
  simp only [List.mem_map, Prod.exists, mem_elim_entries, Prod.mk.injEq]
  constructor
  · rintro ⟨name, child, ⟨node, hnode, hchild⟩, rfl, rfl⟩
    exact ⟨node, name, hnode, hchild, rfl⟩
  · rintro ⟨node, name, hnode, hchild, rfl⟩
    exact ⟨name, other, ⟨node, hnode, hchild⟩, rfl, rfl⟩

theorem mem_pathItemMaps : (context, node) ∈ root.pathItemMaps ↔ root.HoldsItems context node := by
  unfold pathItemMaps
  dsimp only
  rw [List.mem_append, mem_filterMap_member?]
  constructor
  · rintro (⟨name, hname, hitems, rfl⟩ | hcomponents)
    · rw [String.empty_append]
      exact .top hname hitems
    · cases hroot : root.member? "components" with
      | none => simp [hroot] at hcomponents
      | some components =>
          rw [hroot, Option.elim_some, List.mem_append, mem_filterMap_member?,
            mem_map_entries] at hcomponents
          rcases hcomponents with ⟨name, hname, hitems, rfl⟩ | ⟨callbacks, name, hcallbacks, hitems, rfl⟩
          · exact .component hname hroot hitems
          · exact .callback hroot hcallbacks hitems
  · intro h
    cases h with
    | top hname hitems => exact .inl ⟨context, hname, hitems, by rw [String.empty_append]⟩
    | component hname hroot hitems =>
        right
        rw [hroot, Option.elim_some, List.mem_append, mem_filterMap_member?]
        exact .inl ⟨_, hname, hitems, rfl⟩
    | callback hroot hcallbacks hitems =>
        right
        rw [hroot, Option.elim_some, List.mem_append, mem_map_entries]
        exact .inr ⟨_, _, hcallbacks, hitems, rfl⟩

theorem mem_itemOperations {item : Node} :
    (context, operation) ∈ itemOperations name item ↔ ¬item.has "$ref" ∧ ∃ method,
      (method ∈ methods ∧ item.member? method = some operation ∨
        ∃ more, item.member? "additionalOperations" = some more ∧
          more.member? method = some operation) ∧ context = name ++ "." ++ method := by
  unfold itemOperations
  by_cases href : item.has "$ref"
  · simp [href]
  · rw [if_neg href, List.mem_append, mem_filterMap_member?, mem_map_entries]
    constructor
    · rintro (⟨method, hmethod, hoperation, rfl⟩ | ⟨more, method, hmore, hoperation, rfl⟩)
      · exact ⟨href, method, .inl ⟨hmethod, hoperation⟩, rfl⟩
      · exact ⟨href, method, .inr ⟨more, hmore, hoperation⟩, rfl⟩
    · rintro ⟨-, method, ⟨hmethod, hoperation⟩ | ⟨more, hmore, hoperation⟩, rfl⟩
      · exact .inl ⟨method, hmethod, hoperation, rfl⟩
      · exact .inr ⟨more, method, hmore, hoperation, rfl⟩

theorem mem_operations :
    (context, operation) ∈ root.operations ↔ root.HasOperation context operation := by
  simp only [operations, itemsOperations, List.mem_flatMap, Prod.exists, mem_pathItemMaps,
    mem_entries, mem_itemOperations]
  constructor
  · rintro ⟨around, items, hitems, name, item, hitem, href, method, hoperation, rfl⟩
    rcases hoperation with ⟨hmethod, hoperation⟩ | ⟨more, hmore, hoperation⟩
    · exact .method hitems hitem href hmethod hoperation
    · exact .additional hitems hitem href hmore hoperation
  · intro h
    cases h with
    | method hitems hitem href hmethod hoperation =>
        exact ⟨_, _, hitems, _, _, hitem, href, _, .inl ⟨hmethod, hoperation⟩, rfl⟩
    | additional hitems hitem href hmore hoperation =>
        exact ⟨_, _, hitems, _, _, hitem, href, _, .inr ⟨_, hmore, hoperation⟩, rfl⟩

/-! ## Places that share nothing -/

def Beneath (node below : Node) : Prop :=
  below.document = node.document ∧ ∃ path, below.pointer = node.pointer ++ Json.Pointer.ofTokens path

/-- Nothing is beneath both nodes. -/
def Apart (node other : Node) : Prop :=
  ∀ path path', node.pointer ++ Json.Pointer.ofTokens path ≠
    other.pointer ++ Json.Pointer.ofTokens path'

theorem beneath_step (node : Node) (token : String) : node.Beneath (node.step token) :=
  ⟨rfl, [token], by simp [step, Json.Pointer.ofTokens, Json.Pointer.child, String.append_assoc]⟩

theorem Beneath.of_eq (h : other = node) : node.Beneath other :=
  ⟨congrArg document h, [], by simp [h, Json.Pointer.ofTokens]⟩

theorem Beneath.trans {below : Node} (h : node.Beneath other) (h' : other.Beneath below) :
    node.Beneath below := by
  obtain ⟨hdocument, path, hpath⟩ := h
  obtain ⟨hdocument', path', hpath'⟩ := h'
  exact ⟨hdocument'.trans hdocument, path ++ path', by
    rw [hpath', hpath, Json.Pointer.ofTokens_append, String.append_assoc]⟩

theorem apart_step (node : Node) {token token' : String} (h : token ≠ token') :
    (node.step token).Apart (node.step token') := by
  intro path path' hsame
  rw [step_pointer_append, step_pointer_append, Json.Pointer.append_ofTokens_inj,
    List.cons.injEq] at hsame
  exact h hsame.1

theorem Apart.mono {below below' : Node} (h : node.Apart other) (hnode : node.Beneath below)
    (hother : other.Beneath below') : below.Apart below' := by
  intro path path' hsame
  have hbelow : ∀ (top bottom : Node) (rest : List String), top.Beneath bottom →
      ∃ path, bottom.pointer ++ Json.Pointer.ofTokens rest =
        top.pointer ++ Json.Pointer.ofTokens path := by
    intro top bottom rest hbottom
    have hrest : bottom.Beneath ⟨bottom.document, bottom.pointer ++ Json.Pointer.ofTokens rest⟩ :=
      ⟨rfl, rest, rfl⟩
    obtain ⟨-, path, hpath⟩ := hbottom.trans hrest
    exact ⟨path, hpath⟩
  obtain ⟨first, hfirst⟩ := hbelow node below path hnode
  obtain ⟨second, hsecond⟩ := hbelow other below' path' hother
  exact h first second (hfirst ▸ hsecond ▸ hsame)

theorem apart_of_steps {token token' : String} {below below' : Node} (hne : token ≠ token')
    (h : (node.step token).Beneath below) (h' : (node.step token').Beneath below') :
    below.Apart below' :=
  (apart_step node hne).mono h h'

theorem Apart.ne (h : node.Apart other) : node ≠ other := by
  rintro rfl
  exact h [] [] rfl

theorem eq_step_of_member? (h : node.member? name = some other) : other = node.step name :=
  (Option.some.inj (Option.ite_none_right_eq_some.mp h).2).symm

theorem beneath_of_member? (h : node.member? name = some other) : node.Beneath other :=
  eq_step_of_member? h ▸ beneath_step node name

abbrev AllApart (listed : List (String × Node)) : Prop :=
  listed.Pairwise fun entry later => entry.2.Apart later.2

theorem allApart_filterMap_member? {names : List String} (h : names.Nodup)
    (node : Node) (label : String → String) :
    AllApart (names.filterMap fun name =>
      (node.member? name).map fun child => (label name, child)) := by
  refine List.pairwise_filterMap.mpr (h.imp fun {first second} hne => ?_)
  intro entry hentry later hlater
  obtain ⟨child, hchild, rfl⟩ := Option.map_eq_some_iff.mp hentry
  obtain ⟨child', hchild', rfl⟩ := Option.map_eq_some_iff.mp hlater
  rw [eq_step_of_member? hchild, eq_step_of_member? hchild']
  exact apart_step node hne

theorem allApart_map_entries (holder : Option Node) (label : String → String) :
    AllApart ((holder.elim [] entries).map fun (name, child) => (label name, child)) := by
  cases holder with
  | none => exact .nil
  | some node =>
      rw [Option.elim_some, entries, List.map_map, AllApart, List.pairwise_map]
      exact (Json.nodup_names _).imp fun {first second} hne => apart_step node hne

theorem allApart_flatMap {listed : List (String × Node)}
    (further : String → Node → List (String × Node)) (hlisted : AllApart listed)
    (hfurther : ∀ context node, AllApart (further context node) ∧
      ∀ entry ∈ further context node, node.Beneath entry.2) :
    AllApart (listed.flatMap fun entry => further entry.1 entry.2) := by
  refine List.pairwise_flatMap.mpr ⟨fun entry _ => (hfurther entry.1 entry.2).1,
    hlisted.imp fun {entry later} hapart => ?_⟩
  intro below hbelow below' hbelow'
  exact hapart.mono ((hfurther _ _).2 _ hbelow) ((hfurther _ _).2 _ hbelow')

/-! ## Every operation once -/

theorem beneath_of_mem_itemOperations {item : Node}
    (h : (context, operation) ∈ itemOperations name item) : item.Beneath operation := by
  obtain ⟨-, method, ⟨-, hoperation⟩ | ⟨more, hmore, hoperation⟩, -⟩ := mem_itemOperations.mp h
  · exact beneath_of_member? hoperation
  · exact (beneath_of_member? hmore).trans (beneath_of_member? hoperation)

theorem allApart_itemOperations (context : String) (item : Node) :
    AllApart (itemOperations context item) := by
  unfold itemOperations
  split
  · exact .nil
  · refine List.pairwise_append.mpr ⟨allApart_filterMap_member? (by decide) item _,
      allApart_map_entries _ _, ?_⟩
    rintro ⟨first, operation⟩ hfirst ⟨second, further⟩ hsecond
    obtain ⟨method, hmethod, hoperation, -⟩ := mem_filterMap_member?.mp hfirst
    obtain ⟨more, entry, hmore, hfurther, -⟩ := mem_map_entries.mp hsecond
    -- No method is called `additionalOperations`.
    have hne : method ≠ "additionalOperations" := by
      rintro rfl
      revert hmethod
      decide
    refine apart_of_steps hne (.of_eq (eq_step_of_member? hoperation)) ?_
    rw [← eq_step_of_member? hmore]
    exact beneath_of_member? hfurther

theorem allApart_itemsOperations (context : String) (items : Node) :
    AllApart (itemsOperations context items) ∧
      ∀ entry ∈ itemsOperations context items, items.Beneath entry.2 := by
  have hentries : AllApart items.entries := by
    have h := allApart_map_entries (some items) id
    simpa using h
  constructor
  · refine allApart_flatMap (fun name item => itemOperations (context ++ "." ++ name) item)
      hentries fun name item => ⟨allApart_itemOperations _ item, ?_⟩
    rintro ⟨around, operation⟩ hoperation
    exact beneath_of_mem_itemOperations hoperation
  · rintro ⟨around, operation⟩ hoperation
    obtain ⟨⟨name, item⟩, hitem, hmem⟩ := List.mem_flatMap.mp hoperation
    exact (beneath_of_member? (mem_entries.mp hitem)).trans (beneath_of_mem_itemOperations hmem)

theorem allApart_pathItemMaps (root : Node) : AllApart root.pathItemMaps := by
  unfold pathItemMaps
  dsimp only
  cases hcomponents : root.member? "components" with
  | none =>
      rw [Option.elim_none, List.append_nil]
      exact allApart_filterMap_member? (by decide) root _
  | some components =>
      rw [Option.elim_some]
      have hroot : root.step "components" = components := (eq_step_of_member? hcomponents).symm
      refine List.pairwise_append.mpr ⟨allApart_filterMap_member? (by decide) root _,
        List.pairwise_append.mpr ⟨allApart_filterMap_member? (by decide) components _,
          allApart_map_entries _ _, ?_⟩, ?_⟩
      · rintro ⟨first, items⟩ hfirst ⟨second, callback⟩ hsecond
        obtain ⟨name, hname, hitems, -⟩ := mem_filterMap_member?.mp hfirst
        obtain ⟨callbacks, entry, hcallbacks, hcallback, -⟩ := mem_map_entries.mp hsecond
        have hne : name ≠ "callbacks" := by
          rintro rfl
          revert hname
          decide
        refine apart_of_steps hne (.of_eq (eq_step_of_member? hitems)) ?_
        rw [← eq_step_of_member? hcallbacks]
        exact beneath_of_member? hcallback
      · rintro ⟨first, items⟩ hfirst ⟨second, below⟩ hsecond
        obtain ⟨name, hname, hitems, -⟩ := mem_filterMap_member?.mp hfirst
        have hne : name ≠ "components" := by
          rintro rfl
          revert hname
          decide
        refine apart_of_steps hne (.of_eq (eq_step_of_member? hitems)) (hroot ▸ ?_)
        rcases List.mem_append.mp hsecond with hbelow | hbelow
        · obtain ⟨_, -, hbelow, -⟩ := mem_filterMap_member?.mp hbelow
          exact beneath_of_member? hbelow
        · obtain ⟨callbacks, _, hcallbacks, hbelow, -⟩ := mem_map_entries.mp hbelow
          exact (beneath_of_member? hcallbacks).trans (beneath_of_member? hbelow)

theorem allApart_operations (root : Node) : AllApart root.operations :=
  allApart_flatMap itemsOperations (allApart_pathItemMaps root)
    allApart_itemsOperations

theorem HoldsItems.beneath {items : Node} (h : root.HoldsItems context items) :
    root.Beneath items := by
  cases h with
  | top _ hitems => exact beneath_of_member? hitems
  | component _ hroot hitems => exact (beneath_of_member? hroot).trans (beneath_of_member? hitems)
  | callback hroot hcallbacks hitems =>
      exact ((beneath_of_member? hroot).trans (beneath_of_member? hcallbacks)).trans
        (beneath_of_member? hitems)

theorem HasOperation.beneath (h : root.HasOperation context operation) :
    root.Beneath operation := by
  cases h with
  | method hitems hitem _ _ hoperation =>
      exact (hitems.beneath.trans (beneath_of_member? hitem)).trans (beneath_of_member? hoperation)
  | additional hitems hitem _ hmore hoperation =>
      exact ((hitems.beneath.trans (beneath_of_member? hitem)).trans
        (beneath_of_member? hmore)).trans (beneath_of_member? hoperation)

end Node

namespace Store

variable {store : Store} {location id : String} {operation : Node} {fault : Fault}

/-! ## The operations of a store -/

def operationId? (entry : String × Node) : Option String := entry.2.string? "operationId"

/-- The operations of all root documents in the order of loading, each with the place that is
reported for it. -/
def operations (store : Store) : List (String × Node) :=
  (store.documents.filter fun root => Dialect.isRootDocument root.value).flatMap fun root =>
    root.operations.map fun (context, operation) =>
      (root.document.retrievalUri ++ "::" ++ context, operation)

def HasOperation (store : Store) (location : String) (operation : Node) : Prop :=
  ∃ root ∈ store.documents, Dialect.isRootDocument root.value ∧ ∃ context,
    root.HasOperation context operation ∧
      location = root.document.retrievalUri ++ "::" ++ context

theorem mem_operations :
    (location, operation) ∈ store.operations ↔ store.HasOperation location operation := by
  simp only [operations, HasOperation, List.mem_flatMap, List.mem_filter, List.mem_map, Prod.exists,
    Prod.mk.injEq, Node.mem_operations]
  constructor
  · rintro ⟨root, ⟨hroot, hkind⟩, context, _, hoperation, rfl, rfl⟩
    exact ⟨root, hroot, hkind, context, hoperation, rfl⟩
  · rintro ⟨root, hroot, hkind, context, hoperation, rfl⟩
    exact ⟨root, ⟨hroot, hkind⟩, context, operation, hoperation, rfl, rfl⟩

theorem nodup_operations (horderly : store.Orderly) : (store.operations.map Prod.snd).Nodup := by
  have hdocuments : store.documents.Pairwise fun root later => root.document ≠ later.document := by
    have hnodup := horderly.nodup_retrievalUri
    rw [List.Nodup, List.pairwise_map] at hnodup
    exact hnodup.imp fun hne hsame => hne (congrArg Document.retrievalUri hsame)
  rw [List.Nodup, List.pairwise_map]
  refine List.pairwise_flatMap.mpr ⟨fun root _ => ?_, (hdocuments.filter _).imp fun hne => ?_⟩
  · rw [List.pairwise_map]
    exact (Node.allApart_operations root).imp fun hapart => hapart.ne
  · intro entry hentry later hlater hsame
    obtain ⟨⟨_, operation⟩, hfirst, rfl⟩ := List.mem_map.mp hentry
    obtain ⟨⟨_, operation'⟩, hsecond, rfl⟩ := List.mem_map.mp hlater
    have hown := (Node.mem_operations.mp hfirst).beneath.1
    have hown' := (Node.mem_operations.mp hsecond).beneath.1
    exact hne (hown.symm.trans ((congrArg Node.document hsame).trans hown'))

theorem operationIds_eq (store : Store) :
    store.operationIds = store.operations.filterMap fun entry =>
      (operationId? entry).map fun id => (id, entry.1) := by
  rw [operationIds, operations, List.filterMap_flatMap]
  simp only [List.filterMap_map]
  rfl

def carriers (store : Store) (id : String) : List (String × Node) :=
  store.operations.filter fun entry => operationId? entry = some id

theorem locationsOf_operationIds (store : Store) (id : String) :
    locationsOf id store.operationIds = (store.carriers id).map Prod.fst := by
  rw [operationIds_eq, locationsOf, carriers, List.filterMap_filterMap]
  induction store.operations with
  | nil => rfl
  | cons entry rest ih =>
      rw [List.filterMap_cons, List.filter_cons, ih]
      cases operationId? entry with
      | none => simp
      | some name => by_cases hname : name = id <;> simp [hname]

/-! ## Validity -/

def Shares (store : Store) (entry : String × Node) : Prop :=
  ∃ id, operationId? entry = some id ∧
    ∃ other ∈ store.operations, other.2 ≠ entry.2 ∧ operationId? other = some id

theorem one_lt_length_carriers_iff (hnodup : (store.operations.map Prod.snd).Nodup)
    {entry : String × Node} (hmem : entry ∈ store.operations) (hid : operationId? entry = some id) :
    1 < (store.carriers id).length ↔
      ∃ other ∈ store.operations, other.2 ≠ entry.2 ∧ operationId? other = some id := by
  obtain ⟨front, back, hsplit⟩ := List.append_of_mem hmem
  have hlength : (store.carriers id).length =
      (front ++ back).countP (fun other => operationId? other = some id) + 1 := by
    rw [carriers, hsplit, ← List.countP_eq_length_filter, List.countP_append, List.countP_append,
      List.countP_cons_of_pos (by simpa using hid)]
    omega
  rw [hlength, Nat.lt_add_left_iff_pos, List.countP_pos_iff]
  have hown : entry.2 ∉ (front ++ back).map Prod.snd := by
    rw [hsplit, List.map_append, List.map_cons, List.nodup_middle, List.nodup_cons,
      ← List.map_append] at hnodup
    exact hnodup.1
  constructor
  · rintro ⟨other, hother, hcarries⟩
    refine ⟨other, ?_, fun hsame => hown (hsame ▸ List.mem_map_of_mem hother), by simpa using hcarries⟩
    rw [hsplit, List.mem_append, List.mem_cons]
    rcases List.mem_append.mp hother with hfront | hback
    · exact .inl hfront
    · exact .inr (.inr hback)
  · rintro ⟨other, hother, hne, hcarries⟩
    refine ⟨other, ?_, by simpa using hcarries⟩
    rw [hsplit, List.mem_append, List.mem_cons] at hother
    rw [List.mem_append]
    rcases hother with hfront | rfl | hback
    · exact .inl hfront
    · exact absurd rfl hne
    · exact .inr hback

def isShared (store : Store) (entry : String × Node) : Bool :=
  (operationId? entry).any fun id => 1 < (store.carriers id).length

theorem isShared_iff (hnodup : (store.operations.map Prod.snd).Nodup)
    {entry : String × Node} (hmem : entry ∈ store.operations) :
    store.isShared entry ↔ store.Shares entry := by
  unfold isShared Shares
  cases hid : operationId? entry with
  | none => simp
  | some id =>
      simp only [Option.any_some, decide_eq_true_eq, Option.some.injEq, exists_eq_left']
      exact one_lt_length_carriers_iff hnodup hmem hid

theorem validate_eq (store : Store) :
    store.validate = ((store.operations.find? store.isShared).bind operationId?).elim (.ok ())
      fun id => .error (.duplicateOperation id ((store.carriers id).map Prod.fst)) := by
  have hshared : ∀ entry, store.isShared entry = ((operationId? entry).map fun id =>
      (id, entry.1)).any fun shared => 1 < ((store.carriers shared.1).map Prod.fst).length := by
    intro entry
    rw [isShared]
    cases operationId? entry <;> simp
  rw [validate]
  simp only [locationsOf_operationIds]
  rw [operationIds_eq, List.find?_filterMap, ← funext hshared]
  cases store.operations.find? store.isShared with
  | none => rfl
  | some entry =>
      simp only [Option.bind_some]
      cases operationId? entry <;> rfl

theorem exists_id_of_isShared {entry : String × Node} (h : store.isShared entry) :
    ∃ id, operationId? entry = some id := by
  unfold isShared at h
  cases hid : operationId? entry with
  | none => simp [hid] at h
  | some id => exact ⟨id, rfl⟩

theorem find?_isShared_eq_some_iff (hnodup : (store.operations.map Prod.snd).Nodup)
    {first : String × Node} :
    store.operations.find? store.isShared = some first ↔
      ∃ front back, store.operations = front ++ first :: back ∧ store.Shares first ∧
        ∀ earlier ∈ front, ¬store.Shares earlier := by
  rw [List.find?_eq_some_iff_append]
  constructor
  · rintro ⟨hshared, front, back, hsplit, hfront⟩
    have hfirst : first ∈ store.operations := by simp [hsplit]
    refine ⟨front, back, hsplit, (isShared_iff hnodup hfirst).mp hshared, ?_⟩
    intro earlier hmem hshares
    have hearlier : earlier ∈ store.operations := by simp [hsplit, hmem]
    simpa [(isShared_iff hnodup hearlier).mpr hshares] using hfront earlier hmem
  · rintro ⟨front, back, hsplit, hshares, hfront⟩
    have hfirst : first ∈ store.operations := by simp [hsplit]
    refine ⟨(isShared_iff hnodup hfirst).mpr hshares, front, back, hsplit, ?_⟩
    intro earlier hmem
    have hearlier : earlier ∈ store.operations := by simp [hsplit, hmem]
    simpa using mt (isShared_iff hnodup hearlier).mp (hfront earlier hmem)

theorem validate_eq_ok_iff (hnodup : (store.operations.map Prod.snd).Nodup) :
    store.validate = .ok () ↔ ∀ entry ∈ store.operations, ¬store.Shares entry := by
  rw [validate_eq]
  cases hfind : store.operations.find? store.isShared with
  | none =>
      have hnone := List.find?_eq_none.mp hfind
      simp only [Option.bind_none, Option.elim_none, true_iff]
      exact fun entry hmem hshares => hnone entry hmem ((isShared_iff hnodup hmem).mpr hshares)
  | some entry =>
      have hshared := List.find?_some hfind
      have hmem := List.mem_of_find?_eq_some hfind
      obtain ⟨id, hid⟩ := exists_id_of_isShared hshared
      simp only [Option.bind_some, hid, Option.elim_some, reduceCtorEq, false_iff]
      exact fun hnone => hnone entry hmem ((isShared_iff hnodup hmem).mp hshared)

theorem validate_eq_error_iff (hnodup : (store.operations.map Prod.snd).Nodup) :
    store.validate = .error fault ↔ ∃ front first back id,
      store.operations = front ++ first :: back ∧ store.Shares first ∧
      (∀ earlier ∈ front, ¬store.Shares earlier) ∧ operationId? first = some id ∧
      fault = .duplicateOperation id ((store.carriers id).map Prod.fst) := by
  rw [validate_eq]
  constructor
  · intro h
    cases hfirst : store.operations.find? store.isShared with
    | none => simp [hfirst] at h
    | some first =>
        obtain ⟨id, hid⟩ := exists_id_of_isShared (List.find?_some hfirst)
        simp only [hfirst, Option.bind_some, hid, Option.elim_some, Except.error.injEq] at h
        obtain ⟨front, back, hsplit, hshares, hfront⟩ := (find?_isShared_eq_some_iff hnodup).mp hfirst
        exact ⟨front, first, back, id, hsplit, hshares, hfront, hid, h.symm⟩
  · rintro ⟨front, first, back, id, hsplit, hshares, hfront, hid, rfl⟩
    rw [(find?_isShared_eq_some_iff hnodup).mpr ⟨front, back, hsplit, hshares, hfront⟩,
      Option.bind_some, hid, Option.elim_some]

/--
The listing of a store has every operation of its root documents once.  The store is valid
exactly if no two operations have one `operationId`.  It is faulty exactly if some operation
of the listing is the first that shares its `operationId` with another one; the fault names
this `operationId` and the places of all operations that have it, in the order of the
listing.
-/
theorem validate_decides (calls : List Call) :
    let store := ofCalls calls
    (∀ location operation,
      (location, operation) ∈ store.operations ↔ store.HasOperation location operation) ∧
    (store.operations.map Prod.snd).Nodup ∧
    (store.validate = .ok () ↔
      ∀ location operation location' operation' id, store.HasOperation location operation →
        store.HasOperation location' operation' →
        operation.string? "operationId" = some id →
        operation'.string? "operationId" = some id → operation = operation') ∧
    (∀ fault, store.validate = .error fault ↔ ∃ front first back id,
      store.operations = front ++ first :: back ∧ store.Shares first ∧
      (∀ earlier ∈ front, ¬store.Shares earlier) ∧
      first.2.string? "operationId" = some id ∧
      fault = .duplicateOperation id ((store.operations.filter fun entry =>
        entry.2.string? "operationId" = some id).map Prod.fst)) := by
  intro store
  have hnodup : (store.operations.map Prod.snd).Nodup := nodup_operations (orderly_ofCalls calls)
  refine ⟨fun _ _ => mem_operations, hnodup, ?_, fun _ => validate_eq_error_iff hnodup⟩
  rw [validate_eq_ok_iff hnodup]
  constructor
  · intro hnone location operation location' operation' id hown hother hid hid'
    by_contra hne
    exact hnone _ (mem_operations.mpr hown)
      ⟨id, hid, _, mem_operations.mpr hother, fun hsame => hne hsame.symm, hid'⟩
  · rintro hunique ⟨location, operation⟩ hown ⟨id, hid, ⟨location', operation'⟩, hother, hne, hid'⟩
    exact hne (hunique _ _ _ _ id (mem_operations.mp hother) (mem_operations.mp hown) hid' hid)

/-- One `operationId` in a webhook and, in a later document, in a callback. -/
example : (ofDocuments
    [("https://x.test/a.json", .object [("openapi", .string "3.1.0"),
      ("webhooks", .object [("pet", .object [("post", .object
        [("operationId", .string "notify")])])])]),
    ("https://x.test/b.json", .object [("openapi", .string "3.2.0"),
      ("components", .object [("callbacks", .object [("done", .object [("url", .object
        [("additionalOperations", .object [("LINK", .object
          [("operationId", .string "notify")])])])])])])])]).validate =
    .error (.duplicateOperation "notify" ["https://x.test/a.json::webhooks.pet.post",
      "https://x.test/b.json::components.callbacks.done.url.LINK"]) := by
  decide +kernel

end Store

end SpecForm
