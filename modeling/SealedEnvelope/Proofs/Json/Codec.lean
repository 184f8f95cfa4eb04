import SealedEnvelope.Json.Codec

set_option autoImplicit false

/-! # What is written as a document reads back

A codec is lawful if reading undoes writing. The scalars are lawful, and so are maps and optional
values of lawful codecs; a map is written in the order in which its names are read
(`Members.sorted_of_ascending`). The members of a record are read in another order than that of its
fields, but fields that are independent of each other can be put in in any (`lawful_record`), and
so a record may also be given by its values alone, as an array (`listed_record`). -/

namespace SealedEnvelope

/-! ## Entries in order -/

namespace NameMap

variable {α : Type}

/-- A name behind all others is put behind them. -/
theorem insertIn_of_behind {name : String} {value : α} {l : List (String × α)}
    (h : ∀ e ∈ l, e.1 < name) : insertIn name value l = l ++ [(name, value)] := by
  induction l with
  | nil => rfl
  | cons e rest ih =>
    obtain ⟨he, hrest⟩ := List.forall_mem_cons.1 h
    rw [insertIn, if_neg (String.ne_of_lt he), if_neg (String.lt_asymm he), ih hrest]
    rfl

theorem entries_foldl_insert {m : NameMap α} {l : List (String × α)}
    (h : (m.entries ++ l).Pairwise fun a b => a.1 < b.1) :
    (l.foldl (fun m e => m.insert e.1 e.2) m).entries = m.entries ++ l := by
  induction l generalizing m with
  | nil => exact (List.append_nil _).symm
  | cons e rest ih =>
    have hbehind : ∀ d ∈ m.entries, d.1 < e.1 := fun d hd =>
      (List.pairwise_append.1 h).2.2 d hd e (List.mem_cons_self ..)
    have hinsert : (m.insert e.1 e.2).entries = m.entries ++ [e] := insertIn_of_behind hbehind
    rw [List.foldl_cons, ih, hinsert, List.append_assoc, List.singleton_append]
    rwa [hinsert, List.append_assoc, List.singleton_append]

/-- A map is the map of its entries. -/
theorem ofList_entries (m : NameMap α) : ofList m.entries = m :=
  NameMap.ext (entries_foldl_insert m.ascending)

end NameMap

namespace Json

/-- Members in order stay in order. -/
theorem Members.sorted_of_ascending {members : Members}
    (h : members.Pairwise fun a b => a.1 < b.1) : Members.sorted members = members := by
  induction members with
  | nil => rfl
  | cons m rest ih =>
    obtain ⟨hm, hrest⟩ := List.pairwise_cons.1 h
    have hstep : Members.sorted (m :: rest) = Members.insertSorted m (Members.sorted rest) := rfl
    rw [hstep, ih hrest]
    cases rest with
    | nil => rfl
    | cons d rest =>
      rw [Members.insertSorted, if_neg (String.lt_asymm (hm d (List.mem_cons_self ..)))]

theorem Members.mem_insertSorted {m member : String × Json} {members : Members} :
    m ∈ Members.insertSorted member members ↔ m = member ∨ m ∈ members := by
  induction members with
  | nil => simp [insertSorted]
  | cons d rest ih =>
    rw [insertSorted]
    split
    · rw [List.mem_cons, ih, List.mem_cons, or_left_comm]
    · rw [List.mem_cons]

/-- Putting members in order loses none and adds none. -/
theorem Members.mem_sorted {m : String × Json} {members : Members} :
    m ∈ Members.sorted members ↔ m ∈ members := by
  induction members with
  | nil => exact Iff.rfl
  | cons d rest ih =>
    have hstep : Members.sorted (d :: rest) = Members.insertSorted d (Members.sorted rest) := rfl
    rw [hstep, mem_insertSorted, ih, List.mem_cons]

/-- The values of an object without their names. -/
def values : Json → List Json
  | object members => members.map Prod.snd
  | _ => []

namespace Codec

variable {α : Type} {codec : Codec α}

/-- Reading undoes writing. -/
def Lawful (codec : Codec α) : Prop := ∀ a, codec.decode (codec.encode a) = .ok a

/-! ## Scalars -/

theorem decodeNat_natural {bound : Nat} {n : UInt64} (h : n.toNat < bound) (wanted : String) :
    decodeNat bound wanted (.number (.natural n)) = .ok n.toNat := if_pos h

theorem lawful_size : size.Lawful := by
  intro n
  have hlt : n.toNat < UInt64.size := n.toNat_lt
  simp only [size, decodeNat_natural hlt]
  exact congrArg Except.ok UInt64.ofNat_toNat

theorem lawful_count : count.Lawful := by
  intro n
  have hlt : n.toUInt64.toNat < UInt32.size := n.toNat_lt
  simp only [count, decodeNat_natural hlt]
  exact congrArg Except.ok UInt32.ofNat_toNat

theorem lawful_octet : octet.Lawful := by
  intro n
  have hlt : n.toUInt64.toNat < UInt8.size := n.toNat_lt
  simp only [octet, decodeNat_natural hlt]
  exact congrArg Except.ok UInt8.ofNat_toNat

theorem lawful_string : string.Lawful := fun _ => rfl

/-! ## Maps and optional values -/

/-- Optional values are lawful unless a value is written as `null`. -/
theorem Lawful.optional (h : codec.Lawful) (hnull : ∀ a, codec.encode a ≠ .null) :
    (Codec.optional codec).Lawful := by
  intro a
  cases a with
  | none => rfl
  | some a =>
    have hdecode := h a
    simp only [Codec.optional]
    cases hvalue : codec.encode a with
    | null => exact absurd hvalue (hnull a)
    | _ =>
      rw [hvalue] at hdecode
      simp only [hdecode]
      rfl

theorem Lawful.decodeEntries (h : codec.Lawful) (l : List (String × α)) :
    Codec.decodeEntries codec (l.map fun e => (e.1, codec.encode e.2)) = .ok l := by
  induction l with
  | nil => rfl
  | cons e rest ih =>
    rw [List.map_cons, Codec.decodeEntries, h, ih]
    rfl

theorem Lawful.nameMap (h : codec.Lawful) : (Codec.nameMap codec).Lawful := by
  intro m
  have hsorted := Members.sorted_of_ascending
    (List.pairwise_map.2 m.ascending : (m.entries.map fun e => (e.1, codec.encode e.2)).Pairwise _)
  simp only [Codec.nameMap, hsorted, h.decodeEntries]
  exact congrArg Except.ok m.ofList_entries

/-! ## Records -/

section Record

variable {σ : Type} {name : String} {get : σ → α} {set : α → σ → σ} {fields : List (Field σ)}

@[simp] theorem Field.name_of : (Field.of name codec get set).name = name := rfl

@[simp] theorem Field.name_mayMiss (field : Field σ) : field.mayMiss.name = field.name := rfl

@[simp] theorem Field.write_of (s : σ) :
    (Field.of name codec get set).write s = codec.encode (get s) := rfl

@[simp] theorem Field.write_mayMiss (field : Field σ) (s : σ) :
    field.mayMiss.write s = field.write s := rfl

@[simp] theorem Field.read_mayMiss (field : Field σ) (value : Json) (s : σ) :
    field.mayMiss.read value s = field.read value s := rfl

/-- What a field is written as puts the same value into any record. -/
theorem Lawful.read_of (h : codec.Lawful) (a : α) (s : σ) :
    (Field.of name codec get set).read (codec.encode a) s = .ok (set a s) :=
  congrArg (Except.map fun a => set a s) (h a)

/-- Different values are written differently. -/
theorem Lawful.encode_inj (h : codec.Lawful) {a b : α} :
    codec.encode a = codec.encode b ↔ a = b := by
  constructor
  · intro heq
    have hdecode := h a
    rw [heq, h b] at hdecode
    exact (Except.ok.inj hdecode).symm
  · rintro rfl
    rfl

/-- The fields can be put into a record one by one and in any order. -/
structure Independent (fields : List (Field σ)) : Prop where
  /-- Each is found by its name. -/
  find : ∀ f ∈ fields, fields.find? (·.name = f.name) = some f
  /-- What one is written as can be put in and leaves the others as they were. -/
  read : ∀ f ∈ fields, ∀ s t, ∃ u, f.read (f.write s) t = .ok u ∧ f.write u = f.write s
    ∧ ∀ g ∈ fields, g.name ≠ f.name → g.write u = g.write t
  /-- They are all that there is in a record. -/
  ext : ∀ s t, (∀ f ∈ fields, f.write s = f.write t) → s = t

/-- After a field was put in, another is what was put in or what it was before. -/
theorem Independent.settled (h : Independent fields) {f g : Field σ} (hf : f ∈ fields)
    (hg : g ∈ fields) {s t u : σ} (hwritten : f.write u = f.write s)
    (hothers : ∀ g ∈ fields, g.name ≠ f.name → g.write u = g.write t) :
    g.write u = g.write s ∨ g.name ≠ f.name ∧ g.write u = g.write t := by
  by_cases hname : g.name = f.name
  · have hfind := h.find g hg
    rw [hname, h.find f hf] at hfind
    obtain rfl := Option.some.inj hfind
    exact Or.inl hwritten
  · exact Or.inr ⟨hname, hothers g hg hname⟩

/-- Members that a record is written as, put in in any order, are what is written of the result. -/
theorem Independent.exists_readMembers (h : Independent fields) (s : σ) (members : Members)
    (hmembers : ∀ m ∈ members, ∃ f ∈ fields, (f.name, f.write s) = m) (t : σ) :
    ∃ u, readMembers fields members t = .ok u
      ∧ ∀ f ∈ fields, f.write t = f.write s ∨ (f.name, f.write s) ∈ members →
        f.write u = f.write s := by
  induction members generalizing t with
  | nil => exact ⟨t, rfl, fun f _ hf => hf.resolve_right (List.not_mem_nil)⟩
  | cons m rest ih =>
    obtain ⟨⟨f, hf, rfl⟩, hrest⟩ := List.forall_mem_cons.1 hmembers
    obtain ⟨t', hread, hwritten, hothers⟩ := h.read f hf s t
    obtain ⟨u, hrun, hu⟩ := ih hrest t'
    refine ⟨u, ?_, fun g hg hcase => hu g hg ?_⟩
    · rw [readMembers, h.find f hf]
      simp only [hread]
      exact hrun
    · rcases h.settled hf hg hwritten hothers with hsame | ⟨hname, hkept⟩
      · exact Or.inl hsame
      · rcases hcase with hsame | hmem
        · exact Or.inl (hkept.trans hsame)
        · rcases List.mem_cons.1 hmem with heq | hmem
          · exact absurd (congrArg Prod.fst heq) hname
          · exact Or.inr hmem

/-- The members that a record is written as. -/
def members (fields : List (Field σ)) (s : σ) : Members :=
  fields.map fun field => (field.name, field.write s)

theorem exists_find?_members {field : Field σ} (h : field ∈ fields) (s : σ) :
    ∃ value, Members.find? field.name (members fields s) = some value := by
  induction fields with
  | nil => cases h
  | cons first rest ih =>
    rw [members, List.map_cons, Members.find?]
    split
    · exact ⟨_, rfl⟩
    · next hne =>
      rcases List.mem_cons.1 h with rfl | h
      · exact absurd rfl hne
      · exact ih h

/-- Records of independent fields are lawful. No field is missing, as each is written. -/
theorem lawful_record {title : String} {blank : σ} (h : Independent fields) :
    (record title blank fields).Lawful := by
  intro s
  have hmissing : fields.find? (fun field => field.isMissing (members fields s)) = none := by
    refine List.find?_eq_none.2 fun field hfield => ?_
    obtain ⟨value, hvalue⟩ := exists_find?_members hfield s
    simp [Field.isMissing, hvalue]
  obtain ⟨u, hread, hu⟩ := h.exists_readMembers s (Members.sorted (members fields s))
    (fun m hm => List.mem_map.1 (Members.mem_sorted.1 hm)) blank
  obtain rfl : u = s := h.ext u s fun f hf =>
    hu f hf (Or.inr (Members.mem_sorted.2 (List.mem_map_of_mem hf)))
  simp only [members] at hread hmissing
  simp only [record, hread, hmissing]
  rfl

/-- What the last fields are written as, put in one after the other. -/
theorem Independent.exists_readItems (h : Independent fields) (s : σ) (wanted : String)
    {rest : List (Field σ)} (hrest : ∀ f ∈ rest, f ∈ fields) (done : Nat) (t : σ) :
    ∃ u, readItems wanted done rest (rest.map (·.write s)) t = .ok u
      ∧ ∀ f ∈ fields, f.write t = f.write s ∨ f ∈ rest → f.write u = f.write s := by
  induction rest generalizing done t with
  | nil => exact ⟨t, rfl, fun f _ hf => hf.resolve_right List.not_mem_nil⟩
  | cons f rest ih =>
    obtain ⟨hf, hrest⟩ := List.forall_mem_cons.1 hrest
    obtain ⟨t', hread, hwritten, hothers⟩ := h.read f hf s t
    obtain ⟨u, hrun, hu⟩ := ih hrest (done + 1) t'
    refine ⟨u, ?_, fun g hg hcase => hu g hg ?_⟩
    · rw [List.map_cons, readItems, hread]
      exact hrun
    · rcases h.settled hf hg hwritten hothers with hsame | ⟨hname, hkept⟩
      · exact Or.inl hsame
      · rcases hcase with hsame | hmem
        · exact Or.inl (hkept.trans hsame)
        · rcases List.mem_cons.1 hmem with rfl | hmem
          · exact absurd rfl hname
          · exact Or.inr hmem

/-- Reading undoes writing for records that are given by their values alone, in an array. -/
def Listed (codec : Codec α) : Prop := ∀ a, codec.decode (.array (codec.encode a).values) = .ok a

theorem listed_record {title : String} {blank : σ} (h : Independent fields) :
    (record title blank fields).Listed := by
  intro s
  obtain ⟨u, hread, hu⟩ := h.exists_readItems s
    ("struct " ++ title ++ " with " ++ elements fields.length) (fun _ hf => hf) 0 blank
  obtain rfl : u = s := h.ext u s fun f hf => hu f hf (Or.inr hf)
  have hvalues : ((record title blank fields).encode u).values = fields.map (·.write u) := by
    simp [record, values]
  rw [hvalues]
  exact hread

theorem laws_record {title : String} {blank : σ} (h : Independent fields) :
    (record title blank fields).Lawful ∧ (record title blank fields).Listed :=
  ⟨lawful_record h, listed_record h⟩

end Record

end Codec

end Json

end SealedEnvelope
