import SchemaForge.Proofs.Synthesis.Showing

/-!
# What synthesized lines refer to

Mapped models and filters write lines and arguments that name other types. Such a name is known:
it is that of a scalar of every schema, of an implemented one, of a type of the base schema, or of
a type that is written. The exceptions are named by `Gap`. Two lie with what is declared: a kind
of value that a stated signature names, and a field type for columns that is laid over the
standard ones. The other three are lost on the way: the target of an association of which nothing
is left to show, a condition input whose connectives are both taken away by lines of the returned
type, and the order enum of a field that is given both as a list and as a single object.
-/
namespace SchemaForge

open Registry Language

/-! ### Names -/

namespace Declarations

variable (b : Declarations) (x : Table (List (String × FieldEntry)))

/-- A type that a schema with the types of a registry has. -/
inductive Knows (r : Registry) (name : String) : Prop
  | standard (h : Schema.standardScalars.contains name = true)
  | there (h : b.hasType name = true)
  | written (e : TypeEntry) (h : (name, e) ∈ r)
      (hwritten : isWritten ((b.base.map (·.typeNames)).getD []) (name, e) = true)

/-- A field follows an association of a mapped model to a type. -/
inductive Associates (type field target : String) : Prop
  | intro {own : Table String} {key : Option String} {model : String} {p : PolicyOption}
      {a : Association} (h : .members (.store own key) type (.mapped model) p ∈ b.contributions x)
      (ha : a ∈ ((b.models.get? model).getD default).associations)
      (hexposed : p.exposes field = .ok true) (hfield : a.key = field)
      (htarget : b.typeOf? a.target = some target)

/-- Where a name at the bottom of a signature stems from, if it is a kind of value or the
signature is that of a member of a mapped model. -/
inductive Stems (name : String) : Prop
  | available (h : Schema.standardScalars.contains name = true ∨ b.hasType name = true)
  | association (type field : String) (h : b.Associates x type field name)
  | overriding (own : Table String) (key : Option String) (type model : String) (p : PolicyOption)
      (hc : .members (.store own key) type (.mapped model) p ∈ b.contributions x) (c : Column)
      (v : String) (hv : v ∈ b.columnTypes.map Prod.snd ++ own.map Prod.snd)
      (h : Signature.baseName (Synthesis.columnSignature c (Synthesis.available b v)) = .ok name)
  | stated (type field g : String) (hg : (type, field, g) ∈ b.stated x)
      (hkind : name ∈ filterableTypes) (h : Signature.baseName g = .ok name)

variable {b x}

/-- A type that has lines is written, or there already. -/
theorem knows_of_mem_lines {r : Registry} {name : String} {l : String × FieldLine}
    (hl : l ∈ (r.entry name).lines) : b.Knows r name := by
  have hmem := mem_of_lines (List.ne_nil_of_mem hl)
  cases hwritten : isWritten ((b.base.map (·.typeNames)).getD []) (name, r.entry name) with
  | true => exact .written _ hmem hwritten
  | false =>
    -- Only a scalar that is there already has lines that are not written.
    unfold isWritten at hwritten
    split at hwritten
    · simp only [Bool.not_eq_false', Bool.and_eq_true] at hwritten
      refine .there (Bool.or_eq_true_iff.mpr (.inr ?_))
      cases hbase : b.base with
      | none =>
        rw [hbase] at hwritten
        cases hwritten.1
      | some s =>
        rw [hbase] at hwritten
        exact hwritten.1
    · rw [Bool.not_eq_false'] at hwritten
      exact absurd (List.isEmpty_iff.mp hwritten) (List.ne_nil_of_mem hl)

/-! ### Signatures of members -/

section stems

/-- A type with a proper form has its name at the bottom. -/
theorem baseName_print {t : TypeRef} (h : t.isProper = true) :
    Signature.baseName t.print = .ok t.baseName := by
  rw [Signature.baseName, show TypeRef.ofText? t.print = .ok t from (Parser.reads_print h).run_eq]
  rfl

/-- The names of standard field types, with that of identifiers. -/
def fieldTypeNames : List String :=
  ["ID", "String", "Int", "Float", "Boolean", "Date", "DateTime", "JSON"]

/-- A standard field type that is available is a name, and known. -/
theorem available_of_mem (h : name ∈ fieldTypeNames) : isName (Synthesis.available b name) = true ∧
    (Schema.standardScalars.contains (Synthesis.available b name) = true
      ∨ b.hasType (Synthesis.available b name) = true) := by
  have hnames : ∀ n ∈ fieldTypeNames, isName n = true
      ∧ (Schema.standardScalars.contains n = true
        ∨ Synthesis.optionalScalars.contains n = true) := by
    decide
  obtain ⟨hname, hknown⟩ := hnames name h
  unfold Synthesis.available
  split
  · exact ⟨by decide, .inl (by decide)⟩
  · rename_i hthere
    refine ⟨hname, hknown.imp id fun hoptional => ?_⟩
    rw [hoptional, Bool.true_and, Bool.not_eq_true', Bool.not_eq_false] at hthere
    exact hthere

/-- A name with or without a mark has itself at the bottom. -/
theorem baseName_marked (h : isName name = true) (nullable : Bool) :
    Signature.baseName (name ++ if nullable then "" else "!") = .ok name := by
  cases nullable with
  | true =>
    rw [if_pos rfl, String.append_empty]
    exact baseName_print (t := .named name) h
  | false => exact baseName_print (t := .nonNull (.named name)) (Bool.and_eq_true_iff.mpr ⟨rfl, h⟩)

/-- A declared type with a mapped model has a declared name. -/
theorem mem_names_of_typeOf? {model target : String} (h : b.typeOf? model = some target) :
    target ∈ b.names x := by
  obtain ⟨t, ht, rfl⟩ := Option.map_eq_some_iff.mp h
  exact List.mem_append_left _ (List.mem_append_right _
    (List.mem_flatMap.mpr ⟨t, List.mem_of_find?_eq_some ht, List.mem_cons_self⟩))

/-- The field type of a column is a standard one, or it is laid over these. -/
theorem mem_of_fieldType {own : Table String} {t : ColumnType} {v : String}
    (h : ColumnType.fieldType (Synthesis.columnTable b own) t = some v) :
    v ∈ fieldTypeNames ∨ v ∈ b.columnTypes.map Prod.snd ++ own.map Prod.snd := by
  have hstandard : ∀ e ∈ ColumnType.standardTypes, e.2 = "" ∨ e.2 ∈ fieldTypeNames := by decide
  have hfound : ∃ n, (Synthesis.columnTable b own).get? n = some v ∧ v ≠ "" := by
    unfold ColumnType.fieldType at h
    split at h
    · cases h
    · rename_i hne
      obtain ⟨names, -, hsome⟩ := List.exists_of_findSome?_eq_some h
      obtain ⟨n, -, hget⟩ := List.exists_of_findSome?_eq_some hsome
      refine ⟨n, hget, ?_⟩
      rintro rfl
      exact hne h
  obtain ⟨n, hget, hne⟩ := hfound
  rcases Table.mem_putAll (Table.mem_of_get? hget) with hmem | hmem
  · rcases Table.mem_putAll hmem with hmem | hmem
    · exact .inl ((hstandard _ hmem).resolve_left hne)
    · exact .inr (List.mem_append_left _ (List.mem_map_of_mem hmem))
  · exact .inr (List.mem_append_right _ (List.mem_map_of_mem hmem))

/-- The field type of a virtual field is a standard one. -/
theorem mem_of_fieldType? {t : Returns} {v : String} {nullable : Bool}
    (h : t.fieldType? = some (v, nullable)) : v ∈ fieldTypeNames := by
  have hstandard : ∀ e ∈ Returns.fieldTypes, e.2 ∈ fieldTypeNames := by decide
  unfold Returns.fieldType? at h
  split at h
  · obtain ⟨v', hv, heq⟩ := Option.map_eq_some_iff.mp h
    cases heq
    obtain ⟨full, -, hget⟩ := Option.bind_eq_some_iff.mp hv
    exact hstandard _ (Table.mem_of_get? hget)
  · cases h

/-- What a mapping declares has no signature of a member. -/
theorem typed_notMem_ofMap {t f signature type : String} {m : FieldMap} {owner : Option ModelRef} :
    Deed.typed t f signature ∉ Deed.ofMap type m owner := by
  intro hdeed
  unfold Deed.ofMap at hdeed
  split at hdeed
  · cases List.mem_singleton.mp hdeed
  · cases hdeed
  · rcases List.mem_append.mp hdeed with hdeed | hdeed
    · cases hpolicy : (policyIn? _).bind PolicyOption.policy? with
      | none =>
        rw [hpolicy] at hdeed
        cases hdeed
      | some p =>
        rw [hpolicy] at hdeed
        rcases List.mem_append.mp hdeed with hdeed | hdeed
        · split at hdeed
          · obtain ⟨k, -, hkind⟩ := Option.map_eq_some_iff.mp (Option.mem_toList.mp hdeed)
            cases hkind
          · cases hdeed
        · simp at hdeed
    · obtain ⟨e, -, hfield⟩ := List.mem_flatMap.mp hdeed
      unfold Deed.ofField at hfield
      split at hfield
      · cases List.mem_singleton.mp hfield
      · cases hfield

/-- A signature is given to a field as that of a member by a mapped model alone. -/
theorem exists_model_of_written {t f signature : String} (h : (t, f, signature) ∈ b.written x) :
    ∃ own key type model p, .members (.store own key) type (.mapped model) p ∈ b.contributions x
      ∧ .typed t f signature
        ∈ Deed.ofModel b own type ((b.models.get? model).getD default) p := by
  obtain ⟨d, hd, htyped⟩ := List.mem_flatMap.mp h
  obtain ⟨c, hc, hdeed⟩ := List.mem_flatMap.mp hd
  cases d with
  | typed t' f' signature' =>
    cases List.mem_singleton.mp htyped
    cases c with
    | mapping type m => exact absurd hdeed typed_notMem_ofMap
    | members plugin type model p =>
      change Deed.typed t f signature ∈ Deed.ofMembers b plugin type model p at hdeed
      unfold Deed.ofMembers at hdeed
      split at hdeed
      · exfalso
        rcases List.mem_append.mp hdeed with hdeed | hdeed
        · obtain ⟨e, -, hattribute⟩ := List.mem_flatMap.mp hdeed
          unfold Deed.ofAttribute at hattribute
          split at hattribute
          · cases List.mem_singleton.mp hattribute
          · cases hattribute
        · cases List.mem_singleton.mp hdeed
      · rename_i own key model
        exact ⟨own, key, type, model, p, hc, hdeed⟩
      · cases hdeed
  | _ => cases htyped

section members

variable {own : Table String} {key : Option String} {type model t f signature : String}
  {p : PolicyOption}

theorem stems_of_column (hc : .members (.store own key) type (.mapped model) p ∈ b.contributions x)
    {c : Column}
    (h : .typed t f signature ∈ Deed.ofColumn b (Synthesis.columnTable b own) type p c)
    (hbase : Signature.baseName signature = .ok name) : b.Stems x name := by
  obtain ⟨-, h⟩ := List.mem_ite_nil_right.mp h
  split at h
  · rename_i v hv
    cases List.mem_singleton.mp h
    rcases mem_of_fieldType hv with hv | hv
    · obtain ⟨hname, hknown⟩ := available_of_mem (b := b) hv
      have hshown : ∀ w, isName w = true → (Schema.standardScalars.contains w = true
          ∨ b.hasType w = true) → Signature.baseName (w ++ if c.nullable then "" else "!")
            = .ok name → b.Stems x name := by
        intro w hw hthere hbase
        rw [baseName_marked hw] at hbase
        cases hbase
        exact .available hthere
      -- A text that identifies is an identifier.
      unfold Synthesis.columnSignature at hbase
      split at hbase
      · exact hshown "ID" (by decide) (.inl (by decide)) hbase
      · exact hshown _ hname hknown hbase
    · exact .overriding own key type model p hc c v hv hbase
  · cases h

theorem stems_of_virtual {v : Virtual} (h : .typed t f signature ∈ Deed.ofVirtual b type p v)
    (hbase : Signature.baseName signature = .ok name) : b.Stems x name := by
  obtain ⟨-, h⟩ := List.mem_ite_nil_right.mp h
  split at h
  · rename_i signature' hsignature
    cases List.mem_singleton.mp h
    unfold Synthesis.virtualSignature at hsignature
    split at hsignature
    · cases hsignature
    · split at hsignature
      · rename_i n nullable hn
        cases hsignature
        obtain ⟨hname, hknown⟩ := available_of_mem (b := b) (mem_of_fieldType? hn)
        rw [baseName_marked hname] at hbase
        cases hbase
        exact .available hknown
      · cases hsignature
  · cases h

theorem stems_of_association (hnames : ∀ name ∈ b.names x, isName name = true)
    (hc : .members (.store own key) type (.mapped model) p ∈ b.contributions x) {a : Association}
    (ha : a ∈ ((b.models.get? model).getD default).associations)
    (h : .typed t f signature
      ∈ Deed.ofAssociation b ((b.models.get? model).getD default) type p a)
    (hbase : Signature.baseName signature = .ok name) : b.Stems x name := by
  obtain ⟨hexposed, h⟩ := List.mem_ite_nil_right.mp h
  have hexposed : p.exposes a.key = .ok true := by
    split at hexposed
    · assumption
    · cases hexposed
  split at h
  · cases h
  rename_i target htarget
  have hname := hnames target (mem_names_of_typeOf? htarget)
  split at h
  · rcases List.mem_cons.mp h with heq | h
    · cases heq
      have hlist : Signature.baseName ("[" ++ target ++ "!]") = .ok target := by
        rw [Signature.baseName, TypeRef.ofText?_list hname]
        rfl
      rw [hlist] at hbase
      cases hbase
      exact .association type a.key (.intro hc ha hexposed rfl htarget)
    · cases List.mem_singleton.mp h
  · cases List.mem_singleton.mp h
    cases hbase.symm.trans (baseName_print (t := .named signature) hname)
    exact .association type a.key (.intro hc ha hexposed rfl htarget)

end members

/-- **A name in the signature of a member of a mapped model** is available, that of the target of
an association, or given by a field type that is laid over the standard ones. -/
theorem stems_of_written (hnames : ∀ name ∈ b.names x, isName name = true) {t f signature : String}
    (h : (t, f, signature) ∈ b.written x) (hbase : Signature.baseName signature = .ok name) :
    b.Stems x name := by
  obtain ⟨own, key, type, model, p, hc, hdeed⟩ := exists_model_of_written h
  rcases List.mem_append.mp hdeed with hdeed | hdeed
  · rcases List.mem_append.mp hdeed with hdeed | hdeed
    · obtain ⟨c, -, hcolumn⟩ := List.mem_flatMap.mp hdeed
      exact stems_of_column hc hcolumn hbase
    · obtain ⟨v, -, hvirtual⟩ := List.mem_flatMap.mp hdeed
      exact stems_of_virtual hvirtual hbase
  · obtain ⟨a, ha, hassociation⟩ := List.mem_flatMap.mp hdeed
    exact stems_of_association hnames hc ha hassociation hbase

/-- **A kind of value that a given signature names** stems from what is declared. -/
theorem stems_of_given (hnames : ∀ name ∈ b.names x, isName name = true)
    {e : String × String × String} (he : e ∈ b.given x) (hkind : name ∈ filterableTypes)
    (hbase : Signature.baseName e.2.2 = .ok name) : b.Stems x name :=
  (List.mem_append.mp he).elim (stems_of_written hnames · hbase)
    fun hstated => .stated e.1 e.2.1 e.2.2 hstated hkind hbase

end stems

/-- A reference reads as it is written where it stands for an argument without a default. -/
theorem baseName_argument {t : TypeRef} (h : t.isProper = true) :
    Signature.baseName (Signature.splitDefault t.print).1 = .ok t.baseName := by
  have hproper : (⟨t, none⟩ : Candidate).Proper :=
    ⟨h, fun _ hd => (by cases hd), fun _ hd => (by cases hd)⟩
  have hsplit := Candidate.splitDefault_text hproper
  rw [Candidate.text, Option.map_none, Option.getD_none, String.append_empty] at hsplit
  rw [hsplit]
  exact baseName_print h

/-- **The arguments of the store are whole numbers, texts, the condition input and, for a list, the
order enum.** -/
theorem baseName_fetchArgument {type field argument base : String} {isList : Bool}
    (hw : isName (whereInputName type field) = true) (ho : isName (orderEnumName type field) = true)
    (h : (argument, base) ∈ fetchArguments type field isList)
    (hbase : Signature.baseName (Signature.splitDefault
      (FieldLine.withPageDefault argument base)).1 = .ok name) :
    name = "Int" ∨ name = "String" ∨ name = whereInputName type field
      ∨ isList = true ∧ argument = "order" ∧ name = orderEnumName type field := by
  have hplain : ∀ e ∈ [("page", "Int"), ("perPage", "Int"), ("locale", "String"), ("id", "String")],
      (Signature.baseName (Signature.splitDefault (FieldLine.withPageDefault e.1 e.2)).1).toOption
        = some e.2 ∧ (e.2 = "Int" ∨ e.2 = "String") := by
    decide +kernel
  have hshared : (argument, base) ∈ [("page", "Int"), ("perPage", "Int"), ("locale", "String"),
      ("id", "String")] → name = "Int" ∨ name = "String" := by
    intro hmem
    obtain ⟨hname, hkind⟩ := hplain _ hmem
    rw [hbase] at hname
    cases hname
    exact hkind
  have hwhere : (argument, base) = ("where", whereInputName type field) →
      name = whereInputName type field := by
    rintro heq
    cases heq
    exact Except.ok.inj (hbase.symm.trans
      (baseName_argument (t := .named (whereInputName type field)) hw))
  unfold fetchArguments at h
  split at h
  · rename_i hlist
    simp only [List.mem_cons, List.not_mem_nil, or_false] at h
    rcases h with h | h | h | h | h
    · exact (hshared (by simp [h])).imp id .inl
    · exact (hshared (by simp [h])).imp id .inl
    · exact (hshared (by simp [h])).imp id .inl
    · exact .inr (.inr (.inl (hwhere h)))
    · cases h
      have hprint : "[" ++ orderEnumName type field ++ "!]"
          = (TypeRef.list (.nonNull (.named (orderEnumName type field)))).print := by
        simp only [TypeRef.print, String.append_assoc]
        rfl
      have horder :=
        baseName_argument (t := .list (.nonNull (.named (orderEnumName type field)))) ho
      rw [← hprint] at horder
      exact .inr (.inr (.inr ⟨hlist, rfl, Except.ok.inj (hbase.symm.trans horder)⟩))
  · simp only [List.mem_cons, List.not_mem_nil, or_false] at h
    rcases h with h | h | h
    · exact (hshared (by simp [h])).imp id .inl
    · exact (hshared (by simp [h])).imp id .inl
    · exact .inr (.inr (.inl (hwhere h)))

/-- A type that is neither a scalar nor there already is known exactly if it has lines. -/
theorem knows_iff_lines {r : Registry} (hnodup : (Table.keys r).Nodup)
    (hstandard : Schema.standardScalars.contains name = false) (hthere : b.hasType name = false)
    (hkind : (r.entry name).kind ≠ .scalar) : b.Knows r name ↔ (r.entry name).lines ≠ [] := by
  refine ⟨fun h => ?_, fun h => ?_⟩
  · cases h with
    | standard h =>
      rw [hstandard] at h
      cases h
    | there h =>
      rw [hthere] at h
      cases h
    | written e h hwritten =>
      obtain rfl : r.entry name = e := by
        rw [entry, Table.get?_of_mem hnodup h]
        rfl
      unfold isWritten at hwritten
      rw [if_neg hkind] at hwritten
      intro hlines
      rw [hlines] at hwritten
      cases hwritten
  · obtain ⟨l, hl⟩ := List.exists_mem_of_ne_nil _ h
    exact knows_of_mem_lines hl

end Declarations

/-! ### What a draft mentions -/

namespace Draft

variable (b : Declarations) (x : Table (List (String × FieldEntry))) (d : Draft)

/-- A name is at the bottom of the signature of a line, or of an argument of one, that is not just
as it is stated: a mapped model or filters wrote it. -/
inductive Mentions (name : String) : Prop
  | line {type field : String} {line : FieldLine}
      (h : (field, line) ∈ (d.registry.entry type).lines)
      (hown : (type, field, line.type) ∈ b.written x ∨ (type, field, line.type) ∉ b.stated x)
      (hbase : Signature.baseName line.type = .ok name)
  | argument {type field : String} {line : FieldLine} {argument signature : String}
      {signatures : List String} (h : (field, line) ∈ (d.registry.entry type).lines)
      (ha : (argument, signatures) ∈ line.arguments) (hs : signature ∈ signatures)
      (hown : (type, field, argument, signature) ∉ b.statedInputs x)
      (hbase : Signature.baseName (Signature.splitDefault signature).1 = .ok name)

/-- Why a name that is mentioned may be unknown. -/
inductive Gap (name : String) : Prop
  /-- An association leads to a type that has nothing to show. -/
  | emptied (type field : String) (h : b.Associates x type field name)
      (hlines : (d.registry.entry name).lines = [])
  /-- Lines of the returned types take both connectives of a condition input. -/
  | crowded (type field : String) (hname : name = whereInputName type field)
      (h : ∀ c ∈ connectives, d.Offers type field c)
  /-- A field is given both as a list and as a single object. -/
  | unsteady (type field many single : String) (hname : name = orderEnumName type field)
      (hmany : (type, field, many) ∈ b.given x) (hlist : Signature.isList many = .ok true)
      (hsingle : (type, field, single) ∈ b.given x) (hno : Signature.isList single = .ok false)
  /-- A field type for columns that is laid over the standard ones names it. -/
  | overriding (own : Table String) (key : Option String) (type model : String) (p : PolicyOption)
      (hc : .members (.store own key) type (.mapped model) p ∈ b.contributions x) (c : Column)
      (v : String) (hv : v ∈ b.columnTypes.map Prod.snd ++ own.map Prod.snd)
      (h : Signature.baseName (Synthesis.columnSignature c (Synthesis.available b v)) = .ok name)
  /-- A stated signature names this kind of value. -/
  | stated (type field g : String) (hg : (type, field, g) ∈ b.stated x)
      (hkind : name ∈ filterableTypes) (h : Signature.baseName g = .ok name)

variable {b x d} {name : String}

/-- A name that stems from what is declared is known, or there is a reason why it is not. -/
theorem knows_or_gap_of_stems (h : b.Stems x name) : b.Knows d.registry name ∨ d.Gap b x name := by
  cases h with
  | available h => exact .inl (h.elim .standard .there)
  | association type field h =>
    cases hlines : (d.registry.entry name).lines with
    | nil => exact .inr (.emptied type field h hlines)
    | cons l ls => exact .inl (Declarations.knows_of_mem_lines (hlines ▸ List.mem_cons_self))
  | overriding own key type model p hc c v hv h =>
    exact .inr (.overriding own key type model p hc c v hv h)
  | stated type field g hg hkind h => exact .inr (.stated type field g hg hkind h)

/-- A type that has a line is known. -/
theorem knows_of_shows {key : String} (h : d.registry.Shows name key) :
    b.Knows d.registry name := by
  obtain ⟨l, hl, -⟩ := List.mem_map.mp h
  exact Declarations.knows_of_mem_lines hl

end Draft

namespace Synthesis

variable {b : Declarations} {x : Extensions} {s : ThunkState} {d1 d' : Draft} {name : String}

section mentions

variable (h1 : d1.Orderly b x.fields) (howners : ∀ q ∈ d1.filterRequests, q.type ∈ b.names x.fields)
  (htopped : d1.Topped (b.Stems x.fields) d')
  (hlines : ∀ t, ∀ l ∈ (d1.registry.entry t).lines,
    l.2.Sourced b x.fields (· ∈ d1.fetched) t l.1)
include h1 howners htopped hlines

/-- A name in the signature of a line is known, or there is a reason why it is not. -/
theorem knows_or_gap_of_line {type field : String} {line : FieldLine}
    (h : (field, line) ∈ (d'.registry.entry type).lines)
    (hown : (type, field, line.type) ∈ b.written x.fields
      ∨ (type, field, line.type) ∉ b.stated x.fields)
    (hbase : Signature.baseName line.type = .ok name) :
    b.Knows d'.registry name ∨ d'.Gap b x.fields name := by
  by_cases hd : d1.Derives type
  · -- A line that filters write refers to its own type, or to operators.
    cases htopped.sealed.lines type hd _ h with
    | bare hempty =>
      rw [hempty] at hbase
      cases hbase
    | connective hs =>
      have hname := (h1.derived howners hd).2
      rw [hs, Signature.baseName, TypeRef.ofText?_list hname] at hbase
      cases hbase
      exact .inl (Declarations.knows_of_mem_lines h)
    | operators kind hkind hs hhas =>
      rw [hs, Signature.baseName, ofText?_operator hkind] at hbase
      cases hbase
      have hoperators := htopped.sealed.operators kind hkind hhas
      cases hentry : (d'.registry.entry (operatorInputName kind)).lines with
      | nil =>
        rw [hentry] at hoperators
        cases hoperators
      | cons l ls => exact .inl (Declarations.knows_of_mem_lines (hentry ▸ List.mem_cons_self))
  by_cases hsettled : d1.registry.IsSettled type
  · -- Any other line has the signature that it had before filters were written.
    have hsame := lines_of_outline? (htopped.sealed.framed type hd hsettled)
    have hmem : (field, line.type, line.directives) ∈ (d1.registry.entry type).lines.map
        fun l => (l.1, l.2.type, l.2.directives) :=
      hsame ▸ List.mem_map_of_mem
        (f := fun l : String × FieldLine => (l.1, l.2.type, l.2.directives)) h
    obtain ⟨l, hl, heq⟩ := List.mem_map.mp hmem
    have hsourced := hlines type l hl
    have htype : l.2.type = line.type := congrArg (fun e => e.2.1) heq
    have hfield : l.1 = field := congrArg (fun e => e.1) heq
    have hwritten : (type, field, line.type) ∈ b.written x.fields := by
      rcases hsourced.type with hempty | hgiven
      · rw [← htype, hempty] at hbase
        cases hbase
      · rw [htype, hfield] at hgiven
        rcases List.mem_append.mp hgiven with hwritten | hstated
        · exact hwritten
        · exact hown.resolve_right (not_not_intro hstated)
    exact Draft.knows_or_gap_of_stems (Declarations.stems_of_written h1.types hwritten hbase)
  · -- What is left are operators, on kinds of values that lines are of.
    have hkinds : ∀ kind ∈ filterableTypes, ∀ e ∈ operatorTypes kind,
        (Signature.baseName e.2).toOption.all filterableTypes.contains = true := by
      decide +kernel
    obtain ⟨-, hoperator⟩ := not_or.mp hsettled
    push Not at hoperator
    obtain ⟨kind, hkind, rfl⟩ := hoperator
    have hoperators := htopped.sealed.operators kind hkind (has_of_mem_lines h)
    have hmem : (field, line.type) ∈ operatorTypes kind := by
      rw [← hoperators]
      exact List.mem_map_of_mem (f := fun l : String × FieldLine => (l.1, l.2.type)) h
    have hname : name ∈ filterableTypes := by
      have hall := hkinds kind hkind _ hmem
      rw [hbase] at hall
      exact List.contains_iff_mem.mp hall
    exact Draft.knows_or_gap_of_stems (htopped.sealed.kinds _ _ h name hname hbase)

variable (hserved : ∀ a ∈ d1.fetched, d1.Served b x.fields a d')
include hserved

/-- A name in the signature of an argument is known, or there is a reason why it is not. -/
theorem knows_or_gap_of_argument {type field argument signature : String} {line : FieldLine}
    {signatures : List String} (h : (field, line) ∈ (d'.registry.entry type).lines)
    (ha : (argument, signatures) ∈ line.arguments) (hs : signature ∈ signatures)
    (hown : (type, field, argument, signature) ∉ b.statedInputs x.fields)
    (hbase : Signature.baseName (Signature.splitDefault signature).1 = .ok name) :
    b.Knows d'.registry name ∨ d'.Gap b x.fields name := by
  have hrequests := htopped.filtered.filterRequests_eq
  obtain ⟨l, hl, hfield, hargument⟩ := htopped.sealed.arguments type _ h _ ha
  obtain rfl : l.1 = field := hfield
  cases (hlines type l hl).arguments _ hargument signature hs with
  | stated hstated => exact absurd hstated hown
  | store isList g base hgiven hlist hfetch hsignature hasked =>
    have hderives : ∀ n ∈ derivedNames type l.1, d1.Derives n := fun n hn => ⟨_, hasked, hn⟩
    have hw := (h1.derived howners (hderives _ List.mem_cons_self)).2
    have ho := (h1.derived howners (hderives _ (List.mem_cons_of_mem _ List.mem_cons_self))).2
    obtain ⟨hconnected, hordered⟩ := hserved _ hasked
    rw [hsignature] at hbase
    rcases Declarations.baseName_fetchArgument hw ho hfetch hbase with
      rfl | rfl | rfl | ⟨rfl, rfl, rfl⟩
    · exact .inl (.standard (by decide))
    · exact .inl (.standard (by decide))
    · by_cases hcrowded : ∀ c ∈ connectives, d1.Offers type l.1 c
      · refine .inr (.crowded type l.1 rfl fun c hc => ?_)
        exact (hcrowded c hc).mono hrequests htopped.sealed.framed fun q hq =>
          h1.apart.free q.type (howners q hq)
      · push Not at hcrowded
        obtain ⟨c, hc, hfree⟩ := hcrowded
        exact .inl (Draft.knows_of_shows (hconnected c hc hfree))
    · by_cases hsteady : ∀ g', (type, l.1, g') ∈ b.given x.fields → Signature.isList g' ≠ .ok false
      · rcases hordered hsteady with hpopulated | hnone
        · obtain ⟨key, hkey⟩ := isPopulated_iff.mp hpopulated
          exact .inl (Draft.knows_of_shows hkey)
        · -- The argument would have gone with the order enum.
          have hhas : "order" ∈ Table.keys line.arguments := List.mem_map_of_mem ha
          rw [Table.mem_keys_iff, hnone _ h rfl] at hhas
          cases hhas
      · push Not at hsteady
        obtain ⟨single, hsingle, hno⟩ := hsteady
        exact .inr (.unsteady type l.1 g single rfl hgiven hlist hsingle hno)

end mentions

/-- **All that mapped models and filters mention is known**, but for the gaps. -/
theorem knows_or_gap (h : synthesize b (fresh x s) = (.ok ⟨⟩, d')) (hd' : d'.Orderly b x.fields)
    (hm : d'.Mentions b x.fields name) : b.Knows d'.registry name ∨ d'.Gap b x.fields name := by
  have hlists : ∀ model target, b.typeOf? model = some target →
      Signature.isList ("[" ++ target ++ "!]") = .ok true := by
    intro model target htarget
    have hname := hd'.types _ (Declarations.mem_names_of_typeOf? htarget)
    rw [Signature.isList, TypeRef.ofText?_list hname]
    rfl
  have hkinds : ∀ e ∈ b.given x.fields, ∀ kind ∈ filterableTypes,
      Signature.baseName e.2.2 = .ok kind → b.Stems x.fields kind := fun e he kind hkind =>
    Declarations.stems_of_given hd'.types he hkind
  obtain ⟨d1, hfirst, h1, htopped, hserved⟩ := served_of_synthesize h hd' hlists
    (.available (.inl (by decide))) hkinds
  have howners := owners_fresh hfirst
  obtain ⟨hlines, -⟩ := sourced_fresh hlists hfirst
  cases hm with
  | line h hown hbase => exact knows_or_gap_of_line h1 howners htopped hlines h hown hbase
  | argument h ha hs hown hbase =>
    exact knows_or_gap_of_argument h1 howners htopped hlines hserved h ha hs hown hbase

/-- **All that mapped models and filters mention is known, but for the gaps; and the target of an
exposed association is known exactly if something that is declared gives it a field**, unless a
class describes it or it is known anyway. -/
theorem mentioned_known_or_gap (h : synthesize b (fresh x s) = (.ok ⟨⟩, d'))
    (hd' : d'.Orderly b x.fields) :
    (∀ name, d'.Mentions b x.fields name → b.Knows d'.registry name ∨ d'.Gap b x.fields name)
      ∧ ∀ type field target, b.Associates x.fields type field target →
        Schema.standardScalars.contains target = false → b.hasType target = false →
        (d'.registry.entry target).kind ≠ .scalar →
        (∀ c ∈ b.contributions x.fields, ¬c.IsClass target) →
        (b.Knows d'.registry target
          ↔ ∃ c ∈ b.contributions x.fields, c.type = target ∧ c.fields b ≠ []) := by
  refine ⟨fun name hm => knows_or_gap h hd' hm,
    fun type field target htarget hstandard hthere hkind hclass => ?_⟩
  obtain ⟨-, -, -, -, htarget⟩ := htarget
  have hlines := lines_eq_nil_iff h hd' (Declarations.mem_names_of_typeOf? htarget) hclass
  rw [Declarations.knows_iff_lines (tidy_of_synthesize (tidy_fresh x s) h).types hstandard hthere
    hkind, Ne, hlines]
  push Not
  rfl

/-! ### Orders and items -/

/-- Items of orders, where a policy of items says what is exposed of them. -/
def orders (p : Policy) : Declarations where
  types := [("Order", .mapped "Order"), ("Item", .mapped "Item"),
    ("Query", .inline (.fields [("orders", fetchedField "[Order!]")]))]
  models := [
    ("Order", { name := "Order", table := "orders", virtuals := []
                columns := [{ key := "id", name := "id", type := .base "Integer", primary := true
                              nullable := false, foreign := none }]
                associations := [{ key := "items", target := "Item", many := none }] }),
    ("Item", { name := "Item", table := "items", virtuals := [], associations := []
               columns := [{ key := "id", name := "id", type := .base "Integer", primary := true
                             nullable := false, foreign := none },
                           { key := "order_id", name := "order_id", type := .base "Integer"
                             primary := false, nullable := true
                             foreign := some ("orders", "id") }] })]
  policies := [("Item", .policy p)]
  plugins := [.store [] none]
  base := none
  columnTypes := []
  scalars := []

/-- What stands when orders are declared. -/
def ordersDraft (p : Policy) : Draft := (synthesize (orders p) (fresh {} {})).2

/-- A policy that hides the identifiers. -/
def anonymous : Policy := { Policy.plain with drop := .list [.text "id"] }

/-- Where items have identifiers, they are known, and so is all else that is mentioned, unless
there is a gap. -/
theorem mentioned_known_or_gap_orders :
    synthesize (orders Policy.plain) (fresh {} {}) = (.ok ⟨⟩, ordersDraft Policy.plain)
    ∧ (ordersDraft Policy.plain).Orderly (orders Policy.plain) []
    ∧ (∀ name, (ordersDraft Policy.plain).Mentions (orders Policy.plain) [] name →
      (orders Policy.plain).Knows (ordersDraft Policy.plain).registry name
        ∨ (ordersDraft Policy.plain).Gap (orders Policy.plain) [] name)
    ∧ (orders Policy.plain).Knows (ordersDraft Policy.plain).registry "Item" := by
  have hall : (synthesize (orders Policy.plain) (fresh {} {})).1.isOk = true
      ∧ (ordersDraft Policy.plain).Orderly (orders Policy.plain) []
      ∧ ((ordersDraft Policy.plain).registry.entry "Item").kind ≠ .scalar := by
    decide +kernel
  obtain ⟨hok, horderly, hkind⟩ := hall
  have hrun : synthesize (orders Policy.plain) (fresh {} {}) = (.ok ⟨⟩, ordersDraft Policy.plain) :=
    Run.eq_of_isOk hok
  have hleads : (orders Policy.plain).Associates [] "Order" "items" "Item" :=
    .intro (a := { key := "items", target := "Item", many := none }) List.mem_cons_self
      (List.mem_singleton_self _) (by rfl) rfl (by decide)
  obtain ⟨hmentions, hknown⟩ := mentioned_known_or_gap hrun horderly
  have hclass : ∀ c ∈ (orders Policy.plain).contributions [], ¬c.IsClass "Item" := by
    intro c hc
    rcases List.mem_cons.mp hc with rfl | hc
    · exact id
    rcases List.mem_cons.mp hc with rfl | hc
    · exact id
    · rw [List.mem_singleton.mp hc]
      exact id
  have hgives : ∃ c ∈ (orders Policy.plain).contributions [],
      c.type = "Item" ∧ c.fields (orders Policy.plain) ≠ [] :=
    ⟨.members (.store [] none) "Item" (.mapped "Item") (.policy Policy.plain),
      List.mem_cons_of_mem _ List.mem_cons_self, rfl, by decide +kernel⟩
  exact ⟨hrun, horderly, hmentions,
    (hknown "Order" "items" "Item" hleads (by decide) (by decide) hkind hclass).mpr hgives⟩

/-- Where a policy hides the identifiers of items, nothing of an item is left to show, and the
field of orders that returns items refers to a type that is not there. -/
theorem items_not_known :
    synthesize (orders anonymous) (fresh {} {}) = (.ok ⟨⟩, ordersDraft anonymous)
    ∧ (ordersDraft anonymous).Mentions (orders anonymous) [] "Item"
    ∧ ¬(orders anonymous).Knows (ordersDraft anonymous).registry "Item" := by
  have hall : (synthesize (orders anonymous) (fresh {} {})).1.isOk = true
      ∧ ((ordersDraft anonymous).registry.line? "Order" "items").map (·.type) = some "[Item!]"
      ∧ ("Order", "items", "[Item!]") ∈ (orders anonymous).written []
      ∧ ∀ e ∈ (ordersDraft anonymous).registry, e.1 = "Item" →
        isWritten ((((orders anonymous).base).map (·.typeNames)).getD []) e = false := by
    decide +kernel
  obtain ⟨hok, hline, hwritten, hunwritten⟩ := hall
  refine ⟨Run.eq_of_isOk hok, ?_, fun h => ?_⟩
  · obtain ⟨line, hline, htype⟩ := Option.map_eq_some_iff.mp hline
    obtain ⟨e, he, hget⟩ := Option.bind_eq_some_iff.mp hline
    have hmem : ("items", line) ∈ ((ordersDraft anonymous).registry.entry "Order").lines := by
      rw [entry, he]
      exact Table.mem_of_get? hget
    refine .line hmem (.inl (htype ▸ hwritten)) ?_
    have hlist : "[" ++ "Item" ++ "!]" = "[Item!]" := by decide
    rw [htype, ← hlist, Signature.baseName, TypeRef.ofText?_list (by decide)]
    rfl
  · cases h with
    | standard h => exact absurd h (by decide)
    | there h => exact absurd h (by decide)
    | written e h hwritten =>
      rw [hunwritten _ h rfl] at hwritten
      cases hwritten

end Synthesis
end SchemaForge
