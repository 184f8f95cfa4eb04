import SealedEnvelope.Json

set_option autoImplicit false

/-! # What merging keeps and what it replaces

A place in a document is given by the names that lead to it through nested objects (`Json.at?`). Of
a merge every object can be described name by name (`Members.find?_mergeMembers`), and from that
every place in it, by going down its names: what the overlay says there wins, and the base is kept
where the overlay says nothing (`Json.merge_places`). All of this is about documents whose objects
list no name twice (`Json.Distinct`), and a merge of such documents is one again
(`Json.Distinct.merge`). -/

namespace SealedEnvelope.Json

/-! ## Places -/

/-- Whether a document is an object. -/
def isObject : Json → Bool
  | object _ => true
  | _ => false

/-- What an object has under a name; other values have no members. -/
def member? (name : String) : Json → Option Json
  | object members => Members.find? name members
  | _ => none

/-- What stands where a path of names leads. -/
def at? : List String → Json → Option Json
  | [], value => some value
  | name :: path, value => (value.member? name).bind (at? path)

@[simp] theorem at?_nil (value : Json) : value.at? [] = some value := rfl

@[simp] theorem at?_cons (name : String) (path : List String) (value : Json) :
    value.at? (name :: path) = (value.member? name).bind (at? path) := rfl

@[simp] theorem member?_object (name : String) (members : Members) :
    (object members).member? name = Members.find? name members := rfl

theorem member?_of_not_object {value : Json} (h : value.isObject = false) (name : String) :
    value.member? name = none := by
  cases value with
  | object members => cases h
  | _ => rfl

theorem isObject_of_member? {value next : Json} {name : String}
    (h : value.member? name = some next) : value.isObject = true := by
  cases value with
  | object members => rfl
  | _ => cases h

theorem exists_of_isObject {value : Json} (h : value.isObject = true) :
    ∃ members, value = .object members := by
  cases value with
  | object members => exact ⟨members, rfl⟩
  | _ => cases h

/-! ## Members of one name -/

namespace Members

/-- The names of the members. -/
def names (members : Members) : List String := members.map Prod.fst

@[simp] theorem names_nil : names [] = [] := rfl

@[simp] theorem names_cons (m : String × Json) (rest : Members) :
    names (m :: rest) = m.1 :: names rest := rfl

theorem find?_eq_none_iff {name : String} {members : Members} :
    find? name members = none ↔ name ∉ names members := by
  induction members with
  | nil => simp [find?]
  | cons m rest ih =>
    by_cases h : m.1 = name
    · simp [find?, h]
    · simpa [find?, h, Ne.symm h] using ih

theorem mem_names_iff {name : String} {members : Members} :
    name ∈ names members ↔ ∃ value, find? name members = some value := by
  rw [← Option.ne_none_iff_exists', ne_eq, find?_eq_none_iff, Decidable.not_not]

theorem mem_of_find? {name : String} {value : Json} {members : Members}
    (h : find? name members = some value) : (name, value) ∈ members := by
  induction members with
  | nil => cases h
  | cons m rest ih =>
    rw [find?] at h
    split at h
    · next heq =>
      obtain rfl := Option.some.inj h
      rw [← heq]
      exact List.mem_cons_self
    · exact List.mem_cons_of_mem _ (ih h)

/-- Under a name that is listed once stands the value that is listed with it. -/
theorem find?_of_mem {name : String} {value : Json} {members : Members}
    (hnodup : (names members).Nodup) (h : (name, value) ∈ members) :
    find? name members = some value := by
  induction members with
  | nil => cases h
  | cons m rest ih =>
    obtain ⟨hm, hrest⟩ := List.nodup_cons.1 hnodup
    rcases List.mem_cons.1 h with rfl | h
    · rw [find?, if_pos rfl]
    · have hne : m.1 ≠ name := by
        intro heq
        rw [heq] at hm
        exact hm (List.mem_map_of_mem h)
      rw [find?, if_neg hne, ih hrest h]

/-- Changing the value under a name changes no names, but for a new one. -/
theorem names_alter (name : String) (f : Option Json → Json) (members : Members) :
    names (alter name f members)
      = if name ∈ names members then names members else names members ++ [name] := by
  induction members with
  | nil => rfl
  | cons m rest ih =>
    by_cases h : m.1 = name
    · simp [alter, h]
    · by_cases hname : name ∈ names rest <;> simp [alter, h, Ne.symm h, ih, hname]

theorem nodup_names_alter {name : String} {f : Option Json → Json} {members : Members}
    (h : (names members).Nodup) : (names (alter name f members)).Nodup := by
  rw [names_alter]
  split
  · exact h
  · next hname =>
    refine List.nodup_append.2 ⟨h, by simp, ?_⟩
    intro a ha b hb heq
    rw [heq, List.mem_singleton.1 hb] at ha
    exact hname ha

/-- Putting the value that is there already changes nothing. -/
theorem alter_of_eq {name : String} {value : Json} {f : Option Json → Json} {members : Members}
    (h : find? name members = some value) (hf : f (some value) = value) :
    alter name f members = members := by
  induction members with
  | nil => cases h
  | cons m rest ih =>
    rw [find?] at h
    rw [alter]
    split at h
    · next heq =>
      obtain rfl := Option.some.inj h
      rw [if_pos heq, hf]
    · next hne => rw [if_neg hne, ih h]

theorem mem_alter {name : String} {f : Option Json → Json} {members : Members}
    {m : String × Json} (h : m ∈ alter name f members) :
    m ∈ members ∨ m.2 = f (find? name members) := by
  induction members with
  | nil =>
    rw [alter, List.mem_singleton] at h
    exact Or.inr (by rw [h]; rfl)
  | cons d rest ih =>
    rw [alter] at h
    rw [find?]
    split at h
    · next heq =>
      rw [if_pos heq]
      rcases List.mem_cons.1 h with rfl | h
      · exact Or.inr rfl
      · exact Or.inl (List.mem_cons_of_mem _ h)
    · next hne =>
      rw [if_neg hne]
      rcases List.mem_cons.1 h with rfl | h
      · exact Or.inl List.mem_cons_self
      · exact (ih h).imp_left (List.mem_cons_of_mem _)

end Members

/-! ## Documents without repeated names -/

/-- No object in the document lists a name twice. -/
inductive Distinct : Json → Prop
  | leaf {value : Json} : value.isObject = false →
    (∀ items, value = .array items → ∀ item ∈ items, Distinct item) → Distinct value
  | object {members : Members} : (Members.names members).Nodup →
    (∀ m ∈ members, Distinct m.2) → Distinct (.object members)

@[simp] theorem distinct_object_iff {members : Members} :
    (object members).Distinct ↔ (Members.names members).Nodup ∧ ∀ m ∈ members, m.2.Distinct := by
  constructor
  · intro h
    cases h with
    | leaf hleaf => cases hleaf
    | object hnodup hmembers => exact ⟨hnodup, hmembers⟩
  · rintro ⟨hnodup, hmembers⟩
    exact .object hnodup hmembers

@[simp] theorem distinct_array_iff {items : List Json} :
    (array items).Distinct ↔ ∀ item ∈ items, item.Distinct := by
  constructor
  · intro h
    cases h with
    | leaf _ hitems => exact hitems items rfl
  · intro hitems
    refine .leaf rfl ?_
    rintro _ ⟨⟩
    exact hitems

@[simp] theorem distinct_null : null.Distinct := .leaf rfl (by simp)

@[simp] theorem distinct_bool (b : Bool) : (bool b).Distinct := .leaf rfl (by simp)

@[simp] theorem distinct_number (n : JsonNumber) : (number n).Distinct := .leaf rfl (by simp)

@[simp] theorem distinct_string (s : String) : (string s).Distinct := .leaf rfl (by simp)

/-! ## One level of a merge -/

/-- What becomes of the value that stands somewhere in the base, given what the overlay has. -/
def mergeAt : (base overlay : Option Json) → Option Json
  | base, none => base
  | none, some value => some value
  | some old, some value => some (old.merge value)

theorem merge_of_not_object {overlay : Json} (h : overlay.isObject = false) (base : Json) :
    base.merge overlay = overlay := by
  cases overlay with
  | object members => cases h
  | _ => rfl

theorem merge_object_of_not_object {base : Json} (h : base.isObject = false) (members : Members) :
    base.merge (.object members) = .object members := by
  cases base with
  | object baseMembers => cases h
  | _ => rfl

theorem merge_object_object (baseMembers members : Members) :
    (object baseMembers).merge (.object members) = .object (mergeMembers baseMembers members) := rfl

theorem mergeMembers_cons (base : Members) (name : String) (value : Json) (rest : Members) :
    mergeMembers base ((name, value) :: rest)
      = mergeMembers (base.alter name fun
          | some old => old.merge value
          | none => value) rest := rfl

namespace Members

/-- Of merged members each is merged with the one of its name. -/
theorem find?_mergeMembers {overlay : Members} (h : (names overlay).Nodup) (base : Members)
    (name : String) :
    find? name (mergeMembers base overlay) = mergeAt (find? name base) (find? name overlay) := by
  induction overlay generalizing base with
  | nil => rfl
  | cons m rest ih =>
    obtain ⟨hm, hrest⟩ := List.nodup_cons.1 h
    obtain ⟨first, value⟩ := m
    rw [mergeMembers_cons, ih hrest, find?]
    by_cases hname : first = name
    · -- the rest of the overlay does not come back to this name
      subst hname
      rw [find?_eq_none_iff.2 hm, if_pos rfl, find?_alter_self]
      cases find? first base <;> rfl
    · rw [if_neg hname, find?_alter_of_ne (Ne.symm hname)]

theorem mem_names_mergeMembers {overlay : Members} (h : (names overlay).Nodup) (base : Members)
    (name : String) :
    name ∈ names (mergeMembers base overlay) ↔ name ∈ names base ∨ name ∈ names overlay := by
  rw [mem_names_iff, find?_mergeMembers h, mem_names_iff, mem_names_iff]
  cases find? name base <;> cases find? name overlay <;> simp [mergeAt]

/-- Members that change nothing one by one change nothing together. -/
theorem mergeMembers_of_eq {base overlay : Members}
    (h : ∀ m ∈ overlay, ∃ old, find? m.1 base = some old ∧ old.merge m.2 = old) :
    mergeMembers base overlay = base := by
  induction overlay with
  | nil => rfl
  | cons m rest ih =>
    obtain ⟨⟨old, hfind, hmerge⟩, hrest⟩ := List.forall_mem_cons.1 h
    rw [mergeMembers_cons, alter_of_eq hfind hmerge, ih hrest]

end Members

namespace Distinct

variable {base overlay : Json}

theorem nodup_names {members : Members} (h : (Json.object members).Distinct) :
    (Members.names members).Nodup :=
  (distinct_object_iff.1 h).1

theorem of_member? {document value : Json} (h : document.Distinct) {name : String}
    (hmember : document.member? name = some value) : value.Distinct := by
  obtain ⟨members, rfl⟩ := exists_of_isObject (isObject_of_member? hmember)
  exact (distinct_object_iff.1 h).2 _ (Members.mem_of_find? hmember)

/-- A merge of documents without repeated names is one of them. -/
theorem merge (hbase : base.Distinct) (hoverlay : overlay.Distinct) :
    (base.merge overlay).Distinct := by
  induction hoverlay generalizing base with
  | leaf hleaf hitems =>
    rw [merge_of_not_object hleaf]
    exact .leaf hleaf hitems
  | @object members hnodup hmembers ih =>
    cases hbase with
    | leaf hleaf =>
      rw [merge_object_of_not_object hleaf]
      exact .object hnodup hmembers
    | @object baseMembers hbaseNodup hbaseMembers =>
      rw [merge_object_object]
      clear hnodup
      -- the members of the overlay are laid over the base one after the other
      induction members generalizing baseMembers with
      | nil => exact .object hbaseNodup hbaseMembers
      | cons m rest ihrest =>
        rw [List.forall_mem_cons] at hmembers ih
        rw [mergeMembers_cons]
        refine ihrest hmembers.2 ih.2 (Members.nodup_names_alter hbaseNodup) ?_
        intro d hd
        rcases Members.mem_alter hd with hd | hd
        · exact hbaseMembers d hd
        · rw [hd]
          cases hfind : Members.find? m.1 baseMembers with
          | none => exact hmembers.1
          | some old => exact ih.1 (hbaseMembers _ (Members.mem_of_find? hfind))

/-- A document laid over itself changes nothing. -/
theorem merge_self (h : base.Distinct) : base.merge base = base := by
  induction h with
  | leaf hleaf => exact merge_of_not_object hleaf _
  | @object members hnodup hmembers ih =>
    rw [merge_object_object, Members.mergeMembers_of_eq]
    intro m hm
    exact ⟨m.2, Members.find?_of_mem hnodup hm, ih m hm⟩

/-- Laying the same document over a base once more changes nothing. -/
theorem merge_merge (h : overlay.Distinct) (base : Json) :
    (base.merge overlay).merge overlay = base.merge overlay := by
  induction h generalizing base with
  | leaf hleaf => rw [merge_of_not_object hleaf, merge_of_not_object hleaf]
  | @object members hnodup hmembers ih =>
    have hself : (Json.object members).merge (.object members) = .object members :=
      merge_self (.object hnodup hmembers)
    cases hbase : base.isObject with
    | false => rw [merge_object_of_not_object hbase, hself]
    | true =>
      obtain ⟨baseMembers, rfl⟩ := exists_of_isObject hbase
      rw [merge_object_object, merge_object_object, Members.mergeMembers_of_eq]
      intro m hm
      rw [Members.find?_mergeMembers hnodup, Members.find?_of_mem hnodup hm]
      cases Members.find? m.1 baseMembers with
      | none => exact ⟨m.2, rfl, merge_self (hmembers m hm)⟩
      | some old => exact ⟨_, rfl, ih m hm old⟩

end Distinct

/-- Laying an object without members over an object changes nothing. -/
theorem merge_empty {base : Json} (h : base.isObject = true) : base.merge (.object []) = base := by
  obtain ⟨members, rfl⟩ := exists_of_isObject h
  rfl

/-! ## Places in a merge -/

section Places

variable {base overlay value : Json} {path : List String}

/-- A merge with an object is looked into name by name. -/
theorem member?_merge (hoverlay : overlay.Distinct) (hobject : overlay.isObject = true)
    (base : Json) (name : String) :
    (base.merge overlay).member? name = mergeAt (base.member? name) (overlay.member? name) := by
  obtain ⟨members, rfl⟩ := exists_of_isObject hobject
  cases hbase : base.isObject with
  | false =>
    rw [merge_object_of_not_object hbase, member?_of_not_object hbase, member?_object]
    cases Members.find? name members <;> rfl
  | true =>
    obtain ⟨baseMembers, rfl⟩ := exists_of_isObject hbase
    rw [merge_object_object, member?_object, Members.find?_mergeMembers hoverlay.nodup_names,
      member?_object, member?_object]

/-- Under a name of the overlay stands what is there, merged with what the base may have there. -/
theorem member?_merge_of_some (hoverlay : overlay.Distinct) {name : String} {next : Json}
    (h : overlay.member? name = some next) (base : Json) :
    (base.merge overlay).member? name = mergeAt (base.member? name) (some next) := by
  rw [member?_merge hoverlay (isObject_of_member? h), h]

/-- A path that goes on does so through a member. -/
theorem exists_of_at?_cons {document : Json} {name : String}
    (h : document.at? (name :: path) = some value) :
    ∃ next, document.member? name = some next ∧ next.at? path = some value :=
  Option.bind_eq_some_iff.1 h

/-- What stands at a place of a document without repeated names has none either. -/
theorem Distinct.at? {document : Json} (hdistinct : document.Distinct)
    (h : document.at? path = some value) : value.Distinct := by
  induction path generalizing document with
  | nil =>
    obtain rfl := Option.some.inj h
    exact hdistinct
  | cons name path ih =>
    obtain ⟨next, hnext, h⟩ := exists_of_at?_cons h
    exact ih (hdistinct.of_member? hnext) h

/-- Where the overlay holds anything but an object, the merge holds that. -/
theorem at?_merge_of_overlay (hoverlay : overlay.Distinct) (h : overlay.at? path = some value)
    (hvalue : value.isObject = false) : (base.merge overlay).at? path = some value := by
  induction path generalizing base overlay with
  | nil =>
    obtain rfl := Option.some.inj h
    rw [merge_of_not_object hvalue, at?_nil]
  | cons name path ih =>
    obtain ⟨next, hnext, h⟩ := exists_of_at?_cons h
    rw [at?_cons, member?_merge_of_some hoverlay hnext]
    cases base.member? name with
    | none => exact h
    | some old => exact ih (hoverlay.of_member? hnext) h

/-- Where the overlay says nothing, and has nothing but objects on the way there, the merge holds
    what the base does. -/
theorem at?_merge_of_base (hoverlay : overlay.Distinct) (h : overlay.at? path = none)
    (hfront : ∀ front, front <+: path → front ≠ path → ∀ met, overlay.at? front = some met →
      met.isObject = true) :
    (base.merge overlay).at? path = base.at? path := by
  induction path generalizing base overlay with
  | nil => cases h
  | cons name path ih =>
    have hobject : overlay.isObject = true := hfront [] List.nil_prefix (by simp) overlay rfl
    rw [at?_cons, member?_merge hoverlay hobject, at?_cons]
    rw [at?_cons] at h
    cases hnext : overlay.member? name with
    | none => cases base.member? name <;> rfl
    | some next =>
      rw [hnext, Option.bind_some] at h
      cases base.member? name with
      | none => exact h
      | some old =>
        refine ih (hoverlay.of_member? hnext) h ?_
        intro front hprefix hne met hmet
        refine hfront (name :: front) (List.cons_prefix_cons.2 ⟨rfl, hprefix⟩) ?_ met ?_
        · simpa using hne
        · rw [at?_cons, hnext, Option.bind_some, hmet]

/-- Every place of the overlay is a place of the merge. -/
theorem isSome_at?_merge (hoverlay : overlay.Distinct) (h : (overlay.at? path).isSome) :
    ((base.merge overlay).at? path).isSome := by
  induction path generalizing base overlay with
  | nil => rfl
  | cons name path ih =>
    obtain ⟨value, h⟩ := Option.isSome_iff_exists.1 h
    obtain ⟨next, hnext, h⟩ := exists_of_at?_cons h
    have hplace : (next.at? path).isSome := Option.isSome_iff_exists.2 ⟨value, h⟩
    rw [at?_cons, member?_merge_of_some hoverlay hnext]
    cases base.member? name with
    | none => exact hplace
    | some old => exact ih (hoverlay.of_member? hnext) hplace

/-- Every place of the merge is one of the base or of the overlay. -/
theorem isSome_at?_or_of_merge (hoverlay : overlay.Distinct)
    (h : ((base.merge overlay).at? path).isSome) :
    (base.at? path).isSome ∨ (overlay.at? path).isSome := by
  induction path generalizing base overlay with
  | nil => exact Or.inl rfl
  | cons name path ih =>
    cases hobject : overlay.isObject with
    | false =>
      rw [merge_of_not_object hobject] at h
      exact Or.inr h
    | true =>
      rw [at?_cons, member?_merge hoverlay hobject] at h
      rw [at?_cons, at?_cons]
      cases hold : base.member? name with
      | none =>
        rw [hold] at h
        cases hnext : overlay.member? name with
        | none => rw [hnext] at h; cases h
        | some next => rw [hnext] at h; exact Or.inr h
      | some old =>
        rw [hold] at h
        cases hnext : overlay.member? name with
        | none => rw [hnext] at h; exact Or.inl h
        | some next => rw [hnext] at h; exact ih (hoverlay.of_member? hnext) h

/-- Where both hold objects, the merge holds the two merged. -/
theorem at?_merge_of_objects {baseMembers members : Members} (hoverlay : overlay.Distinct)
    (hbase : base.at? path = some (.object baseMembers))
    (h : overlay.at? path = some (.object members)) :
    (base.merge overlay).at? path = some (.object (mergeMembers baseMembers members)) := by
  induction path generalizing base overlay with
  | nil =>
    obtain rfl := Option.some.inj hbase
    obtain rfl := Option.some.inj h
    rfl
  | cons name path ih =>
    obtain ⟨next, hnext, h⟩ := exists_of_at?_cons h
    obtain ⟨old, hold, hbase⟩ := exists_of_at?_cons hbase
    rw [at?_cons, member?_merge_of_some hoverlay hnext, hold]
    exact ih (hoverlay.of_member? hnext) hbase h

end Places

/-- **What a merge holds, place by place.** Documents without repeated names are merged into one.
    At every place the merge holds what the overlay does, if that is no object. What the base holds
    is kept where the overlay says nothing and has nothing but objects on the way. There are no
    places but those of either document, every place of the overlay is one, and an object that both
    have keeps the names of both. So a merge is not changed by merging once more, nor a document by
    laying itself or an empty object over it. -/
theorem merge_places {base overlay : Json} (hbase : base.Distinct) (hoverlay : overlay.Distinct) :
    (base.merge overlay).Distinct
      ∧ (∀ path value, overlay.at? path = some value → value.isObject = false →
          (base.merge overlay).at? path = some value)
      ∧ (∀ path value, base.at? path = some value → value.isObject = false →
          overlay.at? path = none →
          (∀ front, front <+: path → front ≠ path → ∀ met, overlay.at? front = some met →
            met.isObject = true) →
          (base.merge overlay).at? path = some value)
      ∧ (∀ path, ((base.merge overlay).at? path).isSome →
          (base.at? path).isSome ∨ (overlay.at? path).isSome)
      ∧ (∀ path, (overlay.at? path).isSome → ((base.merge overlay).at? path).isSome)
      ∧ (∀ path baseMembers members, base.at? path = some (.object baseMembers) →
          overlay.at? path = some (.object members) →
          ∃ merged, (base.merge overlay).at? path = some (.object merged)
            ∧ ∀ name, name ∈ Members.names merged
                ↔ name ∈ Members.names baseMembers ∨ name ∈ Members.names members)
      ∧ (base.merge overlay).merge overlay = base.merge overlay
      ∧ (base.isObject = true → base.merge (.object []) = base)
      ∧ base.merge base = base := by
  refine ⟨hbase.merge hoverlay, ?_, ?_, ?_, ?_, ?_, hoverlay.merge_merge base, merge_empty,
    hbase.merge_self⟩
  · intro path value h hvalue
    exact at?_merge_of_overlay hoverlay h hvalue
  · intro path value h _ hnone hfront
    rw [at?_merge_of_base hoverlay hnone hfront, h]
  · intro path h
    exact isSome_at?_or_of_merge hoverlay h
  · intro path h
    exact isSome_at?_merge hoverlay h
  · intro path baseMembers members hbaseAt hat
    refine ⟨_, at?_merge_of_objects hoverlay hbaseAt hat, fun name => ?_⟩
    exact Members.mem_names_mergeMembers (hoverlay.at? hat).nodup_names baseMembers name

/-- An object over an object, an array over an array, an object over a scalar and `null` over an
    object. -/
theorem merge_places_four_members :
    let base := object
      [("a", .object [("x", ofNat 1), ("y", .array [ofNat 1, ofNat 2])]), ("b", ofNat 2),
        ("d", .object [("z", .bool true)])]
    let overlay := object
      [("b", .object [("w", .object [])]), ("a", .object [("y", .array [ofNat 9])]), ("d", .null)]
    base.Distinct ∧ overlay.Distinct
      ∧ (base.merge overlay).at? ["a", "y"] = some (.array [ofNat 9])
      ∧ (base.merge overlay).at? ["a", "x"] = some (ofNat 1)
      ∧ (base.merge overlay).at? ["d"] = some .null
      ∧ ((base.merge overlay).at? ["b", "w"]).isSome
      ∧ (base.merge overlay).at? ["d", "z"] = none
      ∧ (base.merge overlay).merge overlay = base.merge overlay := by
  intro base overlay
  have hbase : base.Distinct := by simp [base, ofNat]
  have hoverlay : overlay.Distinct := by simp [overlay, ofNat]
  obtain ⟨-, hover, hkept, -, hplaces, -, hagain, -⟩ := merge_places hbase hoverlay
  refine ⟨hbase, hoverlay, hover _ _ rfl rfl, hkept _ _ rfl rfl rfl ?_, hover _ _ rfl rfl,
    hplaces _ rfl, rfl, hagain⟩
  intro front hfront hne met hmet
  rw [List.prefix_cons_iff] at hfront
  obtain rfl | ⟨rest, rfl, hrest⟩ := hfront
  · obtain rfl := Option.some.inj hmet
    rfl
  · rw [List.prefix_cons_iff] at hrest
    obtain rfl | ⟨rest, rfl, hrest⟩ := hrest
    · obtain rfl := Option.some.inj hmet
      rfl
    · rw [List.prefix_nil.1 hrest] at hne
      exact absurd rfl hne

end SealedEnvelope.Json
