import SealedEnvelope.Proofs.Json.Codec
import SealedEnvelope.Proofs.Json.Merge
import SealedEnvelope.Proofs.Sequence
import Mathlib.Data.List.Forall2
import Mathlib.Data.List.Nodup

set_option autoImplicit false

/-! # Objects that are read name by name

Maps and records are read from an object in ascending order of its names, and still nothing but what
stands under each name decides what is read. A `Slot` says of one name what is written there of a
value and which values may be read with what stands there; a codec is read by name if both its
directions can be described by one slot for each name (`Codec.ByName`). Maps are
(`Codec.byName_nameMap`), and so are records whose fields do not touch each other
(`Codec.Separate.byName_record`). -/

namespace SealedEnvelope

/-! ## Maps by their values -/

namespace NameMap

variable {α : Type}

theorem findIn_eq_some_iff {name : String} {value : α} {l : List (String × α)}
    (h : (l.map Prod.fst).Nodup) : findIn name l = some value ↔ (name, value) ∈ l := by
  induction l with
  | nil => simp [findIn]
  | cons e rest ih =>
    obtain ⟨k, v⟩ := e
    obtain ⟨hk, hrest⟩ := List.nodup_cons.1 h
    by_cases hname : k = name
    · subst hname
      have hbehind : (k, value) ∉ rest := fun hmem => hk (List.mem_map.2 ⟨_, hmem, rfl⟩)
      simp [findIn, hbehind, eq_comm]
    · simp [findIn, hname, Ne.symm hname, ih hrest]

theorem nodup_keys (m : NameMap α) : m.keys.Nodup :=
  m.ascending_keys.imp fun h => String.ne_of_lt h

/-- Maps with the same values are the same. -/
theorem ext_get? {m m' : NameMap α} (h : ∀ name, m.get? name = m'.get? name) : m = m' := by
  have hmem : ∀ e, e ∈ m.entries ↔ e ∈ m'.entries := by
    rintro ⟨name, value⟩
    rw [← findIn_eq_some_iff m.nodup_keys, ← findIn_eq_some_iff m'.nodup_keys]
    exact Eq.congr_left (h name)
  have hperm : m.entries.Perm m'.entries :=
    (List.perm_ext_iff_of_nodup (List.Nodup.of_map _ m.nodup_keys)
      (List.Nodup.of_map _ m'.nodup_keys)).2 hmem
  refine NameMap.ext (hperm.eq_of_pairwise ?_ m.ascending m'.ascending)
  intro a b _ _ hab hba
  exact absurd hba (String.lt_asymm hab)

theorem get?_foldl_insert {l : List (String × α)} (h : (l.map Prod.fst).Nodup) (m : NameMap α)
    (name : String) :
    (l.foldl (fun m e => m.insert e.1 e.2) m).get? name = (findIn name l).or (m.get? name) := by
  induction l generalizing m with
  | nil => rfl
  | cons e rest ih =>
    obtain ⟨k, v⟩ := e
    obtain ⟨hk, hrest⟩ := List.nodup_cons.1 h
    rw [List.foldl_cons, ih hrest, get?_insert, findIn]
    by_cases hname : k = name
    · subst hname
      have hnone : findIn k rest = none := by
        cases hfind : findIn k rest with
        | none => rfl
        | some value => exact absurd (mem_map_fst_iff.2 ⟨value, hfind⟩) hk
      simp [hnone]
    · simp [hname]

theorem get?_ofList {l : List (String × α)} (h : (l.map Prod.fst).Nodup) (name : String) :
    (ofList l).get? name = findIn name l := by
  rw [ofList, get?_foldl_insert h]
  exact Option.or_none

end NameMap

namespace Json

/-! ## Members in order -/

namespace Members

theorem insertSorted_perm (m : String × Json) (members : Members) :
    (insertSorted m members).Perm (m :: members) := by
  induction members with
  | nil => exact .rfl
  | cons d rest ih =>
    rw [insertSorted]
    split
    · exact (ih.cons d).trans (.swap m d rest)
    · exact .rfl

theorem sorted_perm (members : Members) : (sorted members).Perm members := by
  induction members with
  | nil => exact .rfl
  | cons m rest ih => exact (insertSorted_perm m _).trans (ih.cons m)

theorem nodup_names_sorted {members : Members} (h : (names members).Nodup) :
    (names (sorted members)).Nodup :=
  ((sorted_perm members).map Prod.fst).nodup_iff.2 h

/-- Under distinct names, the members are what is found. -/
theorem find?_eq_some_iff {name : String} {value : Json} {members : Members}
    (h : (names members).Nodup) : find? name members = some value ↔ (name, value) ∈ members :=
  ⟨mem_of_find?, find?_of_mem h⟩

/-- Putting members in order moves none to another name. -/
theorem find?_sorted {members : Members} (h : (names members).Nodup) (name : String) :
    find? name (sorted members) = find? name members := by
  refine Option.ext fun value => ?_
  rw [find?_eq_some_iff h, find?_eq_some_iff (nodup_names_sorted h), mem_sorted]

end Members

/-! ## Slots -/

/-- One name of an object that stands for a value. -/
structure Slot (β : Type) where
  /-- What is written of a value under the name. -/
  write : β → Option Json
  /-- With this under the name, the value may be read. -/
  Reads : Option Json → β → Prop

namespace Codec

variable {α β σ : Type} {codec : Codec α}

/-- The codec writes objects, and reads them by what stands under each name. -/
structure ByName (codec : Codec β) (slot : String → Slot β) : Prop where
  isObject : ∀ b, (codec.encode b).isObject = true
  member? : ∀ b name, (codec.encode b).member? name = (slot name).write b
  decode : ∀ document, document.isObject = true → document.Distinct → ∀ b,
    codec.decode document = .ok b ↔ ∀ name, (slot name).Reads (document.member? name) b

/-! ## Maps -/

/-- What a map has under a name: a value, or nothing. -/
def mapSlot (codec : Codec α) (name : String) : Slot (NameMap α) where
  write m := (m.get? name).map codec.encode
  Reads value m := Option.Rel (fun value a => codec.decode value = .ok a) value (m.get? name)

theorem find?_map_encode (name : String) (l : List (String × α)) :
    Members.find? name (l.map fun e => (e.1, codec.encode e.2))
      = (NameMap.findIn name l).map codec.encode := by
  induction l with
  | nil => rfl
  | cons e rest ih => by_cases h : e.1 = name <;> simp [Members.find?, NameMap.findIn, h, ih]

/-- An entry that is read from a member. -/
def ReadAs (codec : Codec α) (m : String × Json) (e : String × α) : Prop :=
  m.1 = e.1 ∧ codec.decode m.2 = .ok e.2

theorem decodeEntries_eq_ok_iff {members : Members} {l : List (String × α)} :
    decodeEntries codec members = .ok l ↔ List.Forall₂ codec.ReadAs members l := by
  induction members generalizing l with
  | nil => simp [decodeEntries, eq_comm]
  | cons m rest ih =>
    obtain ⟨name, value⟩ := m
    simp only [decodeEntries, bind_eq_ok, pure_eq_ok, ih, List.forall₂_cons_left_iff]
    constructor
    · rintro ⟨a, ha, others, hothers, rfl⟩
      exact ⟨(name, a), others, ⟨rfl, ha⟩, hothers, rfl⟩
    · rintro ⟨⟨_, a⟩, others, ⟨rfl, ha⟩, hothers, rfl⟩
      exact ⟨a, ha, others, hothers, rfl⟩

/-- Entries stand under the names of the members that they are read from. -/
theorem findIn_of_forall₂ {members : Members} {l : List (String × α)}
    (h : List.Forall₂ codec.ReadAs members l)
    (name : String) :
    Option.Rel (fun value a => codec.decode value = .ok a) (Members.find? name members)
      (NameMap.findIn name l) := by
  induction h with
  | nil => exact .none
  | @cons m e members l hfirst _ ih =>
    obtain ⟨hname, hdecode⟩ := hfirst
    rw [Members.find?, NameMap.findIn, ← hname]
    split
    · exact .some hdecode
    · exact ih

theorem names_of_forall₂ {members : Members} {l : List (String × α)}
    (h : List.Forall₂ codec.ReadAs members l) :
    l.map Prod.fst = Members.names members := by
  induction h with
  | nil => rfl
  | cons hfirst _ ih => rw [List.map_cons, ih, Members.names_cons, hfirst.1]

theorem exists_forall₂ {members : Members} (h : ∀ m ∈ members, ∃ a, codec.decode m.2 = .ok a) :
    ∃ l, List.Forall₂ codec.ReadAs members l := by
  induction members with
  | nil => exact ⟨[], .nil⟩
  | cons m rest ih =>
    obtain ⟨⟨a, ha⟩, hrest⟩ := List.forall_mem_cons.1 h
    obtain ⟨l, hl⟩ := ih hrest
    exact ⟨(m.1, a) :: l, .cons ⟨rfl, ha⟩ hl⟩

/-- A map has, under each name of the object, what is read there. -/
theorem decode_nameMap_eq_ok_iff {members : Members} (h : (Members.names members).Nodup)
    {m : NameMap α} :
    (nameMap codec).decode (.object members) = .ok m
      ↔ ∀ name, (mapSlot codec name).Reads (Members.find? name members) m := by
  have hget : ∀ {l}, List.Forall₂ codec.ReadAs (Members.sorted members) l →
      ∀ name, (NameMap.ofList l).get? name = NameMap.findIn name l := by
    intro l hl
    refine NameMap.get?_ofList ?_
    rw [names_of_forall₂ hl]
    exact Members.nodup_names_sorted h
  simp only [nameMap, map_eq_ok, decodeEntries_eq_ok_iff]
  constructor
  · rintro ⟨l, hl, rfl⟩ name
    have hrel := findIn_of_forall₂ hl name
    rw [Members.find?_sorted h, ← hget hl] at hrel
    exact hrel
  · intro hread
    have hdecode : ∀ d ∈ Members.sorted members, ∃ a, codec.decode d.2 = .ok a := by
      intro d hd
      have hrel := hread d.1
      rw [(Members.find?_eq_some_iff h).2 (Members.mem_sorted.1 hd)] at hrel
      simp only [mapSlot] at hrel
      generalize m.get? d.1 = found at hrel
      cases hrel with
      | some ha => exact ⟨_, ha⟩
    obtain ⟨l, hl⟩ := exists_forall₂ hdecode
    refine ⟨l, hl, NameMap.ext_get? fun name => ?_⟩
    -- both have under the name what is read from the one member
    have hrel := findIn_of_forall₂ hl name
    have hrel' := hread name
    rw [Members.find?_sorted h] at hrel
    rw [hget hl]
    simp only [mapSlot] at hrel'
    generalize Members.find? name members = found, NameMap.findIn name l = a,
      m.get? name = b at hrel hrel' ⊢
    cases hrel with
    | none => cases hrel'; rfl
    | some ha =>
      cases hrel' with
      | some hb => rw [Except.ok.inj (ha.symm.trans hb)]

theorem byName_nameMap (codec : Codec α) : (nameMap codec).ByName (mapSlot codec) where
  isObject _ := rfl
  member? m name := find?_map_encode name m.entries
  decode document hobject hdistinct m := by
    obtain ⟨members, rfl⟩ := exists_of_isObject hobject
    exact decode_nameMap_eq_ok_iff hdistinct.nodup_names

/-! ## Records -/

variable {fields : List (Field σ)}

/-- A document that is put into the field as a record has it. -/
def Field.Gives (field : Field σ) (document : Json) (s : σ) : Prop :=
  ∃ before behind, field.read document before = .ok behind ∧ field.write behind = field.write s

/-- Putting something into the field depends on nothing else in the record, and changes nothing
    else. -/
def Field.Apart (fields : List (Field σ)) (field : Field σ) : Prop :=
  ∀ document s t, field.read document s = .ok t → ∀ s', ∃ t', field.read document s' = .ok t'
    ∧ field.write t' = field.write t ∧ ∀ g ∈ fields, g.name ≠ field.name → g.write t' = g.write s'

/-- The fields can be told apart, do not touch each other, and are all that there is in a record. -/
structure Separate (fields : List (Field σ)) : Prop where
  find : ∀ f ∈ fields, fields.find? (·.name = f.name) = some f
  apart : ∀ f ∈ fields, f.Apart fields
  ext : ∀ s t, (∀ f ∈ fields, f.write s = f.write t) → s = t

/-- What a record has under a name: the field of this name, if there is one. -/
def recordSlot (fields : List (Field σ)) (blank : σ) (name : String) : Slot σ where
  write s := (fields.find? (·.name = name)).map fun field => field.write s
  Reads value s :=
    match fields.find? (·.name = name), value with
    | some field, some value => field.Gives value s
    | some field, none => field.optional = true ∧ field.write s = field.write blank
    | none, value => value = none

theorem find?_members (name : String) (s : σ) :
    Members.find? name (members fields s)
      = (fields.find? (·.name = name)).map fun field => field.write s := by
  induction fields with
  | nil => rfl
  | cons field rest ih =>
    rw [members, List.map_cons, Members.find?, List.find?_cons]
    by_cases h : field.name = name
    · simp [h]
    · simp only [h, if_false, decide_false]
      exact ih

namespace Separate

variable {field : Field σ} {name : String}

theorem eq_of_name (h : Separate fields) {g : Field σ} (hf : field ∈ fields) (hg : g ∈ fields)
    (hname : g.name = field.name) : g = field := by
  have hfind := h.find g hg
  rw [hname, h.find field hf] at hfind
  exact (Option.some.inj hfind).symm

theorem find?_eq_some_iff (h : Separate fields) :
    fields.find? (·.name = name) = some field ↔ field ∈ fields ∧ field.name = name := by
  constructor
  · intro hfind
    exact ⟨List.mem_of_find?_eq_some hfind, by simpa using List.find?_some hfind⟩
  · rintro ⟨hfield, rfl⟩
    exact h.find field hfield

/-- Members can be put into a record if each can be put into the field of its name. -/
theorem readMembers_eq_ok_iff (h : Separate fields) {members : Members}
    (hnodup : (Members.names members).Nodup) {s u : σ} :
    readMembers fields members s = .ok u
      ↔ (∀ m ∈ members, ∃ f ∈ fields, f.name = m.1 ∧ f.Gives m.2 u)
        ∧ ∀ f ∈ fields, f.name ∉ Members.names members → f.write u = f.write s := by
  induction members generalizing s with
  | nil =>
    simp only [readMembers, Except.ok.injEq]
    constructor
    · rintro rfl
      simp
    · rintro ⟨-, hsame⟩
      exact (h.ext u s fun f hf => hsame f hf (by simp)).symm
  | cons m rest ih =>
    obtain ⟨name, value⟩ := m
    obtain ⟨hm, hrest⟩ := List.nodup_cons.1 hnodup
    rw [readMembers]
    cases hfind : fields.find? (·.name = name) with
    | none =>
      refine iff_of_false (by simp) ?_
      rintro ⟨hgiven, -⟩
      obtain ⟨f, hf, hname, -⟩ := hgiven _ List.mem_cons_self
      rw [h.find?_eq_some_iff.2 ⟨hf, hname⟩] at hfind
      cases hfind
    | some field =>
      obtain ⟨hfield, rfl⟩ := h.find?_eq_some_iff.1 hfind
      constructor
      · intro hread
        obtain ⟨t, hput, hread⟩ := bind_eq_ok.1 hread
        obtain ⟨t', hput', -, hothers⟩ := h.apart field hfield value s t hput s
        obtain rfl := Except.ok.inj (hput'.symm.trans hput)
        obtain ⟨hgiven, hsame⟩ := (ih hrest).1 hread
        refine ⟨List.forall_mem_cons.2 ⟨?_, hgiven⟩, ?_⟩
        · exact ⟨field, hfield, rfl, s, t', hput, (hsame field hfield hm).symm⟩
        · intro g hg hname
          rw [Members.names_cons, List.mem_cons, not_or] at hname
          rw [hsame g hg hname.2, hothers g hg hname.1]
      · rintro ⟨hgiven, hsame⟩
        obtain ⟨⟨f, hf, hname, before, behind, hput, hwrite⟩, hrestGiven⟩ :=
          List.forall_mem_cons.1 hgiven
        obtain rfl := h.eq_of_name hfield hf hname
        obtain ⟨t, hput, hwrite', hothers⟩ := h.apart f hf value before behind hput s
        refine bind_eq_ok.2 ⟨t, hput, (ih hrest).2 ⟨hrestGiven, fun g hg hname => ?_⟩⟩
        by_cases heq : g.name = f.name
        · obtain rfl := h.eq_of_name hf hg heq
          rw [← hwrite, hwrite']
        · rw [hothers g hg heq]
          refine hsame g hg ?_
          rw [Members.names_cons, List.mem_cons, not_or]
          exact ⟨heq, hname⟩

/-- A record has, in each field, what is read from the member of its name; no other names may
    stand there. -/
theorem decode_record_eq_ok_iff (h : Separate fields) {title : String} {blank s : σ}
    {members : Members} (hnodup : (Members.names members).Nodup) :
    (record title blank fields).decode (.object members) = .ok s
      ↔ ∀ name, (recordSlot fields blank name).Reads (Members.find? name members) s := by
  have hdecode : (record title blank fields).decode (.object members) = .ok s
      ↔ readMembers fields (Members.sorted members) blank = .ok s
        ∧ ∀ field ∈ fields, field.optional = true
          ∨ ∃ value, Members.find? field.name members = some value := by
    have hmissing : (∀ field ∈ fields, field.optional = true
          ∨ ∃ value, Members.find? field.name members = some value)
        ↔ fields.find? (fun field => field.isMissing members) = none := by
      rw [List.find?_eq_none]
      refine forall₂_congr fun field _ => ?_
      cases hfind : Members.find? field.name members <;> simp [Field.isMissing, hfind]
    rw [hmissing]
    simp only [record, bind_eq_ok]
    cases fields.find? (fun field => field.isMissing members) with
    | none => simp [pure_eq_ok]
    | some field => simp [throw_eq_ok]
  rw [hdecode, h.readMembers_eq_ok_iff (Members.nodup_names_sorted hnodup)]
  have hsorted : ∀ name, name ∉ Members.names (Members.sorted members)
      ↔ Members.find? name members = none := by
    intro name
    rw [← Members.find?_eq_none_iff, Members.find?_sorted hnodup]
  simp only [hsorted]
  constructor
  · rintro ⟨⟨hgiven, hsame⟩, hpresent⟩ name
    cases hvalue : Members.find? name members with
    | none =>
      cases hfind : fields.find? (·.name = name) with
      | none => simp [recordSlot, hfind]
      | some field =>
        obtain ⟨hfield, rfl⟩ := h.find?_eq_some_iff.1 hfind
        simpa [recordSlot, hfind, hvalue, hsame field hfield hvalue] using hpresent field hfield
    | some value =>
      obtain ⟨field, hfield, rfl, hgives⟩ :=
        hgiven _ (Members.mem_sorted.2 (Members.mem_of_find? hvalue))
      simpa [recordSlot, h.find field hfield] using hgives
  · intro hread
    refine ⟨⟨?_, ?_⟩, ?_⟩
    · rintro ⟨name, value⟩ hm
      have hslot := hread name
      rw [(Members.find?_eq_some_iff hnodup).2 (Members.mem_sorted.1 hm)] at hslot
      cases hfind : fields.find? (·.name = name) with
      | none => simp [recordSlot, hfind] at hslot
      | some field =>
        obtain ⟨hfield, hname⟩ := h.find?_eq_some_iff.1 hfind
        exact ⟨field, hfield, hname, by simpa [recordSlot, hfind] using hslot⟩
    · intro field hfield hvalue
      have hslot := hread field.name
      rw [hvalue] at hslot
      simp only [recordSlot, h.find field hfield] at hslot
      exact hslot.2
    · intro field hfield
      cases hvalue : Members.find? field.name members with
      | some value => exact Or.inr ⟨value, rfl⟩
      | none =>
        have hslot := hread field.name
        rw [hvalue] at hslot
        simp only [recordSlot, h.find field hfield] at hslot
        exact Or.inl hslot.1

theorem byName_record (h : Separate fields) (title : String) (blank : σ) :
    (record title blank fields).ByName (recordSlot fields blank) where
  isObject _ := rfl
  member? s name := find?_members name s
  decode document hobject hdistinct s := by
    obtain ⟨members, rfl⟩ := exists_of_isObject hobject
    exact h.decode_record_eq_ok_iff hdistinct.nodup_names

end Separate

end Codec

end Json

end SealedEnvelope
