import SealedEnvelope.Proofs.Json.Codec
import SealedEnvelope.Proofs.Json.Merge
import SealedEnvelope.Proofs.Sequence
import Mathlib.Data.List.Forall2

set_option autoImplicit false

/-! # Names that a document may use

A `Schema` says which names a document may use, place by place; `Schema.HasUnknown` says that it
uses another one somewhere. A codec respects a schema if it reads no such document. Codecs of
records respect the schema of their fields as soon as each field respects its own
(`Codec.respects_record`), whatever is read from the rest of the document. A merge uses all the
names of its overlay, so that no unknown one is lost in it (`Schema.HasUnknown.merge`). -/

namespace SealedEnvelope.Json

/-- The names that a document may use. -/
inductive Schema where
  /-- None, as the document is no object. -/
  | plain
  /-- Any, here and further in. -/
  | anything
  /-- Those of the fields. The document may also be the array of what stands under them. -/
  | record (fields : List (String × Schema))
  /-- Those that are listed, and any other if there is a schema for what stands under these. -/
  | object (named : List (String × Schema)) (others : Option Schema)

namespace Schema

/-- A record without names further in. -/
abbrev flat (names : List String) : Schema := record (names.map fun name => (name, plain))

/-- Any names, with a schema for what stands under them. -/
abbrev map (entry : Schema) : Schema := object [] (some entry)

/-- The schema that is listed with a name. -/
def findIn (name : String) (named : List (String × Schema)) : Option Schema :=
  (named.find? (·.1 = name)).map Prod.snd

/-- The schema of what stands under a name, if the name may be used. -/
def member? (name : String) : Schema → Option Schema
  | plain => none
  | anything => some anything
  | record fields => findIn name fields
  | object named others => (findIn name named).or others

/-- The schema of an item of an array. -/
def item (i : Nat) : Schema → Schema
  | anything => anything
  | record fields => (fields[i]?.map Prod.snd).getD plain
  | _ => plain

/-- Somewhere in the document stands a name that may not be used there. -/
inductive HasUnknown : Schema → Json → Prop
  | here {schema : Schema} {document value : Json} {name : String} :
    document.member? name = some value → schema.member? name = none → HasUnknown schema document
  | under {schema next : Schema} {document value : Json} {name : String} :
    document.member? name = some value → schema.member? name = some next →
    HasUnknown next value → HasUnknown schema document
  | item {schema : Schema} {items : List Json} {value : Json} {i : Nat} :
    items[i]? = some value → HasUnknown (schema.item i) value → HasUnknown schema (.array items)

variable {schema : Schema} {document : Json}

/-- Where anything may stand, nothing is unknown. -/
theorem not_hasUnknown_anything : ¬anything.HasUnknown document := by
  intro h
  generalize hschema : anything = schema at h
  induction h with
  | here _ hnone => subst hschema; cases hnone
  | under _ hnext _ ih =>
    subst hschema
    exact ih (Option.some.inj hnext)
  | item _ _ ih =>
    subst hschema
    exact ih rfl

/-- Without members and items there are no names. -/
theorem not_hasUnknown_of_plain (hobject : document.isObject = false)
    (harray : ∀ items, document ≠ .array items) : ¬schema.HasUnknown document := by
  intro h
  cases h with
  | here hmember _ =>
    rw [member?_of_not_object hobject] at hmember
    cases hmember
  | under hmember _ _ =>
    rw [member?_of_not_object hobject] at hmember
    cases hmember
  | item => exact harray _ rfl

theorem not_hasUnknown_null : ¬schema.HasUnknown .null := not_hasUnknown_of_plain rfl nofun

theorem not_hasUnknown_number {n : JsonNumber} : ¬schema.HasUnknown (.number n) :=
  not_hasUnknown_of_plain rfl nofun

theorem not_hasUnknown_string {s : String} : ¬schema.HasUnknown (.string s) :=
  not_hasUnknown_of_plain rfl nofun

/-- Schemas that differ under one name disagree about nothing but what stands there. -/
theorem HasUnknown.of_eq_but {other next : Schema} {name : String} (h : schema.HasUnknown document)
    (hobject : document.isObject = true) (hname : schema.member? name = some next)
    (heq : ∀ n, n ≠ name → schema.member? n = other.member? n) :
    other.HasUnknown document
      ∨ ∃ value, document.member? name = some value ∧ next.HasUnknown value := by
  cases h with
  | @here _ _ value n hmember hnone =>
    have hne : n ≠ name := by
      rintro rfl
      rw [hname] at hnone
      cases hnone
    exact Or.inl (.here hmember ((heq n hne).symm.trans hnone))
  | @under _ next' _ value n hmember hnext hunknown =>
    by_cases hne : n = name
    · subst hne
      obtain rfl := Option.some.inj (hname.symm.trans hnext)
      exact Or.inr ⟨value, hmember, hunknown⟩
    · exact Or.inl (.under hmember ((heq n hne).symm.trans hnext) hunknown)
  | item => cases hobject

/-- What the overlay uses, a merge uses too. -/
theorem HasUnknown.merge {overlay : Json} (h : schema.HasUnknown overlay)
    (hoverlay : overlay.Distinct) (base : Json) : schema.HasUnknown (base.merge overlay) := by
  induction h generalizing base with
  | @here schema overlay value name hmember hnone =>
    have hmerged := member?_merge_of_some hoverlay hmember base
    cases hold : base.member? name with
    | none => exact .here (hmerged.trans (by rw [hold]; rfl)) hnone
    | some old => exact .here (hmerged.trans (by rw [hold]; rfl)) hnone
  | @under schema next overlay value name hmember hnext hunknown ih =>
    have hmerged := member?_merge_of_some hoverlay hmember base
    cases hold : base.member? name with
    | none => exact .under (hmerged.trans (by rw [hold]; rfl)) hnext hunknown
    | some old =>
      exact .under (hmerged.trans (by rw [hold]; rfl)) hnext (ih (hoverlay.of_member? hmember) old)
  | item hitem hunknown _ =>
    rw [merge_of_not_object rfl]
    exact .item hitem hunknown

end Schema

/-! ## Codecs that respect a schema -/

namespace Codec

variable {α σ : Type} {codec : Codec α} {schema : Schema} {named : List (String × Schema)}

/-- No document that the codec reads uses an unknown name. -/
def Respects (codec : Codec α) (schema : Schema) : Prop :=
  ∀ document a, codec.decode document = .ok a → ¬schema.HasUnknown document

theorem not_hasUnknown_of_decodeNat {bound n : Nat} {wanted : String} {document : Json}
    (h : decodeNat bound wanted document = .ok n) : ¬schema.HasUnknown document := by
  cases document with
  | number m => exact Schema.not_hasUnknown_number
  | _ => cases h

theorem respects_size : size.Respects schema := by
  intro document a h
  obtain ⟨n, hn, -⟩ := map_eq_ok.1 h
  exact not_hasUnknown_of_decodeNat hn

theorem respects_count : count.Respects schema := by
  intro document a h
  obtain ⟨n, hn, -⟩ := map_eq_ok.1 h
  exact not_hasUnknown_of_decodeNat hn

theorem respects_octet : octet.Respects schema := by
  intro document a h
  obtain ⟨n, hn, -⟩ := map_eq_ok.1 h
  exact not_hasUnknown_of_decodeNat hn

theorem respects_string : string.Respects schema := by
  intro document a h
  cases document with
  | string s => exact Schema.not_hasUnknown_string
  | _ => cases h

theorem Respects.optional (hcodec : codec.Respects schema) :
    (Codec.optional codec).Respects schema := by
  intro document a h
  cases document with
  | null => exact Schema.not_hasUnknown_null
  | _ =>
    obtain ⟨b, hb, -⟩ := map_eq_ok.1 h
    exact hcodec _ b hb

/-! ### Maps -/

theorem exists_decode_of_decodeEntries {members : Members} {l : List (String × α)}
    (h : decodeEntries codec members = .ok l) {m : String × Json} (hm : m ∈ members) :
    ∃ a, codec.decode m.2 = .ok a := by
  induction members generalizing l with
  | nil => cases hm
  | cons first rest ih =>
    rw [decodeEntries, bind_eq_ok] at h
    obtain ⟨a, ha, h⟩ := h
    obtain ⟨others, hothers, -⟩ := bind_eq_ok.1 h
    rcases List.mem_cons.1 hm with rfl | hm
    · exact ⟨a, ha⟩
    · exact ih hothers hm

theorem Respects.nameMap (hcodec : codec.Respects schema) :
    (Codec.nameMap codec).Respects (.map schema) := by
  intro document a h hunknown
  cases document with
  | object members =>
    obtain ⟨l, hl, -⟩ := map_eq_ok.1 h
    cases hunknown with
    | here _ hnone => cases hnone
    | under hmember hnext hunknown =>
      obtain rfl := Option.some.inj hnext
      obtain ⟨b, hb⟩ := exists_decode_of_decodeEntries hl
        (Members.mem_sorted.2 (Members.mem_of_find? hmember))
      exact hcodec _ b hb hunknown
  | _ => cases h

/-! ### Records -/

/-- No document that is put into the field uses an unknown name. -/
def Field.Respects (field : Field σ) (schema : Schema) : Prop :=
  ∀ document s t, field.read document s = .ok t → ¬schema.HasUnknown document

theorem Respects.of (hcodec : codec.Respects schema) {name : String} {get : σ → α}
    {set : α → σ → σ} : (Field.of name codec get set).Respects schema := by
  intro document s t h
  obtain ⟨a, ha, -⟩ := map_eq_ok.1 h
  exact hcodec document a ha

theorem Field.Respects.mayMiss {field : Field σ} (h : field.Respects schema) :
    field.mayMiss.Respects schema := h

/-- The fields have the listed names, in order, and each respects its schema. -/
def FieldsRespect (fields : List (Field σ)) (named : List (String × Schema)) : Prop :=
  List.Forall₂ (fun field entry => field.name = entry.1 ∧ field.Respects entry.2) fields named

theorem Respects.field (hcodec : codec.Respects schema) {name : String} {get : σ → α}
    {set : α → σ → σ} {fields : List (Field σ)} (hrest : FieldsRespect fields named) :
    FieldsRespect (.of name codec get set :: fields) ((name, schema) :: named) :=
  .cons ⟨rfl, hcodec.of⟩ hrest

theorem Respects.fieldMayMiss (hcodec : codec.Respects schema) {name : String} {get : σ → α}
    {set : α → σ → σ} {fields : List (Field σ)} (hrest : FieldsRespect fields named) :
    FieldsRespect ((Field.of name codec get set).mayMiss :: fields) ((name, schema) :: named) :=
  .cons ⟨rfl, hcodec.of.mayMiss⟩ hrest

theorem FieldsRespect.exists_of_find? {fields : List (Field σ)} (h : FieldsRespect fields named)
    {name : String} {field : Field σ} (hfield : fields.find? (·.name = name) = some field) :
    ∃ next, (Schema.record named).member? name = some next ∧ field.Respects next := by
  induction h with
  | nil => cases hfield
  | @cons first entry fields named hfirst _ ih =>
    obtain ⟨hname, hrespects⟩ := hfirst
    rw [List.find?_cons] at hfield
    simp only [Schema.member?, Schema.findIn, List.find?_cons, ← hname] at ih ⊢
    split at hfield
    · obtain rfl := Option.some.inj hfield
      exact ⟨entry.2, rfl, hrespects⟩
    · exact ih hfield

theorem FieldsRespect.item_eq {fields : List (Field σ)} (h : FieldsRespect fields named)
    {i : Nat} {field : Field σ} (hfield : fields[i]? = some field) :
    field.Respects ((Schema.record named).item i) := by
  induction h generalizing i with
  | nil => cases hfield
  | @cons first entry fields named hfirst _ ih =>
    cases i with
    | zero =>
      obtain rfl := Option.some.inj hfield
      exact hfirst.2
    | succ i => exact ih hfield

/-- Every member that is read has been put into the field of its name. -/
theorem exists_read_of_readMembers {fields : List (Field σ)} {members : Members} {s t : σ}
    (h : readMembers fields members s = .ok t) {m : String × Json} (hm : m ∈ members) :
    ∃ field, fields.find? (·.name = m.1) = some field
      ∧ ∃ before behind, field.read m.2 before = .ok behind := by
  induction members generalizing s with
  | nil => cases hm
  | cons first rest ih =>
    obtain ⟨name, value⟩ := first
    rw [readMembers] at h
    split at h
    · next field hfield =>
      obtain ⟨u, hread, h⟩ := bind_eq_ok.1 h
      rcases List.mem_cons.1 hm with rfl | hm
      · exact ⟨field, hfield, s, u, hread⟩
      · exact ih h hm
    · cases h

/-- Every item that is read has been put into the field of its place. -/
theorem exists_read_of_readItems {wanted : String} {done : Nat} {fields : List (Field σ)}
    {items : List Json} {s t : σ} (h : readItems wanted done fields items s = .ok t) {i : Nat}
    {value : Json} (hvalue : items[i]? = some value) :
    ∃ field, fields[i]? = some field ∧ ∃ before behind, field.read value before = .ok behind := by
  induction fields generalizing items s done i with
  | nil =>
    cases items with
    | nil => cases hvalue
    | cons first rest => cases h
  | cons field fields ih =>
    cases items with
    | nil => cases h
    | cons first rest =>
      obtain ⟨u, hread, h⟩ := bind_eq_ok.1 h
      cases i with
      | zero =>
        obtain rfl := Option.some.inj hvalue
        exact ⟨field, rfl, s, u, hread⟩
      | succ i => exact ih h hvalue

/-- A record respects the names of its fields and the schemas that its fields respect. -/
theorem respects_record {title : String} {blank : σ} {fields : List (Field σ)}
    (hfields : FieldsRespect fields named) :
    (record title blank fields).Respects (.record named) := by
  intro document s h hunknown
  cases document with
  | object members =>
    obtain ⟨t, hread, -⟩ := bind_eq_ok.1 h
    -- a member that stands under a name has been put into a field, and so its name is known
    have hmember : ∀ {name value}, (object members).member? name = some value →
        ∃ next, (Schema.record named).member? name = some next ∧ ¬next.HasUnknown value := by
      intro name value hvalue
      obtain ⟨field, hfield, before, behind, hread⟩ := exists_read_of_readMembers hread
        (Members.mem_sorted.2 (Members.mem_of_find? hvalue))
      obtain ⟨next, hnext, hrespects⟩ := hfields.exists_of_find? hfield
      exact ⟨next, hnext, hrespects _ _ _ hread⟩
    cases hunknown with
    | here hvalue hnone =>
      obtain ⟨next, hnext, -⟩ := hmember hvalue
      rw [hnone] at hnext
      cases hnext
    | under hvalue hnext hunknown =>
      obtain ⟨next, hnext', hknown⟩ := hmember hvalue
      obtain rfl := Option.some.inj (hnext.symm.trans hnext')
      exact hknown hunknown
  | array items =>
    cases hunknown with
    | here hvalue _ => cases hvalue
    | under hvalue _ _ => cases hvalue
    | item hitem hunknown =>
      obtain ⟨field, hfield, before, behind, hread⟩ := exists_read_of_readItems h hitem
      exact hfields.item_eq hfield _ _ _ hread hunknown
  | _ => cases h

end Codec

/-! ## What records do not look at -/

namespace Members

/-- The values replaced, each by what `f` makes of it under its name. -/
def mapValues (f : String → Json → Json) (members : Members) : Members :=
  members.map fun m => (m.1, f m.1 m.2)

variable (f : String → Json → Json)

theorem find?_mapValues (name : String) (members : Members) :
    find? name (mapValues f members) = (find? name members).map (f name) := by
  induction members with
  | nil => rfl
  | cons m rest ih =>
    rw [mapValues, List.map_cons, find?, find?]
    split
    · next heq => rw [← heq]; rfl
    · exact ih

theorem insertSorted_mapValues (m : String × Json) (members : Members) :
    insertSorted (m.1, f m.1 m.2) (mapValues f members) = mapValues f (insertSorted m members) := by
  induction members with
  | nil => rfl
  | cons d rest ih =>
    rw [mapValues, List.map_cons, insertSorted, insertSorted]
    split
    · exact congrArg (List.cons (d.1, f d.1 d.2)) ih
    · rfl

theorem sorted_mapValues (members : Members) :
    sorted (mapValues f members) = mapValues f (sorted members) := by
  induction members with
  | nil => rfl
  | cons m rest ih =>
    have hstep : sorted (mapValues f (m :: rest))
        = insertSorted (m.1, f m.1 m.2) (sorted (mapValues f rest)) := rfl
    rw [hstep, ih, insertSorted_mapValues]
    rfl

end Members

namespace Codec

variable {σ : Type} {fields : List (Field σ)} {f : String → Json → Json}

theorem readMembers_mapValues
    (hf : ∀ name field, fields.find? (·.name = name) = some field →
      ∀ value s, field.read (f name value) s = field.read value s)
    (members : Members) (s : σ) :
    readMembers fields (Members.mapValues f members) s = readMembers fields members s := by
  induction members generalizing s with
  | nil => rfl
  | cons m rest ih =>
    obtain ⟨name, value⟩ := m
    rw [Members.mapValues, List.map_cons, readMembers, readMembers]
    cases hfield : fields.find? (·.name = name) with
    | none => rfl
    | some field =>
      simp only [hf name field hfield value s]
      exact bind_congr_ok fun t _ => ih t

/-- A record cannot tell apart documents that its fields cannot. -/
theorem decode_record_mapValues {title : String} {blank : σ}
    (hf : ∀ name field, fields.find? (·.name = name) = some field →
      ∀ value s, field.read (f name value) s = field.read value s)
    (members : Members) :
    (record title blank fields).decode (.object (Members.mapValues f members))
      = (record title blank fields).decode (.object members) := by
  have hmissing : ∀ field : Field σ,
      field.isMissing (Members.mapValues f members) = field.isMissing members := by
    intro field
    simp [Field.isMissing, Members.find?_mapValues]
  simp only [record, Members.sorted_mapValues, readMembers_mapValues hf, hmissing]

end Codec

end SealedEnvelope.Json
