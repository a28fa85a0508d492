import SchemaForge.Proofs.Schema.Fitting
import SchemaForge.Registry.Printer

/-!
# Reconciling the declared signatures of an argument

A declared signature is a type as it is printed, and perhaps an equals sign and a default.
Several are reconciled on their texts: what stands before the first equals sign is compared,
with and without its exclamation marks. On types this says that the signatures must name one
type at one nesting of lists; the result is the common type, or the one that allows null
everywhere where two differ (**`reconcile_declared`**). Since allowing null only adds values,
everything that one of the signatures takes is taken by the result.
-/
namespace SchemaForge

open Language

/-! ### Blanks around texts -/

namespace Text

variable {cs ds : List Char}

theorem trimStart_eq_self (h : ∀ c ∈ cs.head?, isBlank c = false) : trimStart cs = cs := by
  cases cs with
  | nil => rfl
  | cons c cs => exact trimStart_of_head (h c rfl)

/-- Blanks after a text that does not end with one are dropped. -/
theorem trimEnd_append (h : ∀ c ∈ cs.getLast?, isBlank c = false) (hds : ∀ c ∈ ds, isBlank c = true) :
    trimEnd (cs ++ ds) = cs := by
  have hdrop : (cs ++ ds).reverse.dropWhile isBlank = cs.reverse.dropWhile isBlank := by
    rw [List.reverse_append, List.dropWhile_append,
      List.dropWhile_eq_nil_iff.mpr fun c hc => hds c (List.mem_reverse.mp hc)]
    rfl
  have hlast : cs.reverse.dropWhile isBlank = cs.reverse := by
    refine trimStart_eq_self fun c hc => h c ?_
    rwa [List.head?_reverse] at hc
  rw [trimEnd, hdrop, hlast, List.reverse_reverse]

/-- Blanks after a text without blanks are dropped. -/
theorem trim_append {s : String} (h : ∀ c ∈ s.toList, isBlank c = false)
    (hds : ∀ c ∈ ds, isBlank c = true) : trim (String.ofList (s.toList ++ ds)) = s := by
  have hstart : trimStart (s.toList ++ ds) = s.toList ++ ds ∨ s.toList = [] := by
    cases hs : s.toList with
    | nil => exact .inr rfl
    | cons c cs =>
      refine .inl (trimStart_eq_self fun d hd => ?_)
      obtain rfl := Option.some.inj hd
      exact h c (hs ▸ List.mem_cons_self ..)
  have hend : trimEnd (s.toList ++ ds) = s.toList :=
    trimEnd_append (fun c hc => h c (List.mem_of_getLast? hc)) hds
  rw [trim, String.toList_ofList]
  rcases hstart with hstart | hnil
  · rw [hstart, hend, String.ofList_toList]
  · rw [hnil, List.nil_append, trimStart, List.dropWhile_eq_nil_iff.mpr hds, trimEnd_nil]
    exact String.toList_inj.mp (hnil ▸ String.toList_ofList)

/-- A blank before a text does not count. -/
theorem trim_cons {c : Char} (hc : isBlank c = true) (cs : List Char) :
    trim (String.ofList (c :: cs)) = trim (String.ofList cs) := by
  rw [trim, trim, String.toList_ofList, String.toList_ofList, trimStart, trimStart,
    List.dropWhile_cons_of_pos hc]

end Text

namespace Signature

/-- What stands before the first equals sign, and what after it. -/
theorem splitAt_append {cs : List Char} (h : '=' ∉ cs) (ds : List Char) :
    splitAt (cs ++ '=' :: ds) = (cs, ds) := by
  have hall : ∀ c ∈ cs, (c != '=') = true := by
    intro c hc
    rw [bne_iff_ne]
    rintro rfl
    exact h hc
  rw [splitAt, List.takeWhile_append_of_pos hall, List.dropWhile_append_of_pos hall]
  simp

variable {t : TypeRef} {gap : String} (ht : t.isProper = true)

include ht

theorem withoutMarks_print : withoutMarks t.print = t.loosened.print := by
  rw [withoutMarks, TypeRef.filter_print ht, String.ofList_toList]

variable (hgap : ∀ c ∈ gap.toList, Text.isBlank c = true)

include hgap

theorem not_mem_part : '=' ∉ t.print.toList ++ gap.toList := by
  rw [List.mem_append]
  rintro (hmem | hmem)
  · exact TypeRef.not_mem_print ht hmem
  · exact absurd (hgap _ hmem) (by decide)

/-- A type alone is split into the type and no default. -/
theorem splitDefault_print : splitDefault (t.print ++ gap) = (t.print, "") := by
  have htype : Text.trim (String.ofList (t.print.toList ++ gap.toList)) = t.print :=
    Text.trim_append (TypeRef.not_isBlank_print ht) hgap
  simp only [splitDefault, String.toList_append, splitAt_of_not_mem (not_mem_part ht hgap), htype]
  rfl

/-- A type with a default is split at the first equals sign, whatever the default is. -/
theorem splitDefault_print_append (d : String) :
    splitDefault (t.print ++ gap ++ ("=" ++ d)) = (t.print, Text.trim d) := by
  have htype : Text.trim (String.ofList (t.print.toList ++ gap.toList)) = t.print :=
    Text.trim_append (TypeRef.not_isBlank_print ht) hgap
  have hequals : ("=" ++ d).toList = '=' :: d.toList := by rw [String.toList_append]; rfl
  have hsplit : splitAt (t.print ++ gap ++ ("=" ++ d)).toList
      = (t.print.toList ++ gap.toList, d.toList) := by
    rw [String.toList_append, hequals, String.toList_append]
    exact splitAt_append (not_mem_part ht hgap) d.toList
  simp only [splitDefault, hsplit, htype, String.ofList_toList]

end Signature

/-! ### Texts and types -/

namespace Registry

/-- A type as it is printed, and perhaps a default. -/
def signatureText (t : TypeRef) (default? : Option String) : String :=
  t.print ++ (default?.map (" = " ++ ·)).getD ""

section Texts

variable {type field argument : String}

/-- What several signatures are reconciled to, on their texts. -/
theorem reconcile_texts {x y : String} {xs ss hs : List String} {s h : String} {d? : Option String}
    (hsignatures : ((x :: y :: xs).map Signature.splitDefault).map Prod.fst = s :: ss)
    (hshapes : (s :: ss).map Signature.withoutMarks = h :: hs)
    (hdefaults : ((((x :: y :: xs).map Signature.splitDefault).map Prod.snd).filter
      (· != "")).head? = d?) :
    reconcile type field argument (x :: y :: xs)
      = if hs.all (· == h) then
          .ok ((if ss.all (· == s) then s else h) ++ (d?.map (" = " ++ ·)).getD "")
        else .error (.conflictingArguments argument type field (x :: y :: xs)) := by
  unfold reconcile
  dsimp only
  rw [hsignatures, hshapes, hdefaults]

variable {α : Type} {text default : α → String} {typeOf : α → TypeRef} {c d : α} {cs : List α}

/-- The texts of types agree where the types do. -/
theorem all_print_eq {u : TypeRef} (hu : u.isProper = true)
    (hproper : ∀ e ∈ cs, (typeOf e).isProper = true) :
    ((cs.map fun e => (typeOf e).print).all (· == u.print) = true) ↔ ∀ e ∈ cs, typeOf e = u := by
  rw [List.all_map, List.all_eq_true]
  refine forall₂_congr fun e he => ?_
  rw [Function.comp_apply, beq_iff_eq]
  exact ⟨Parser.print_inj (hproper e he) hu, congrArg TypeRef.print⟩

/-- The first default, as it is found among the texts of all defaults. -/
theorem head?_defaults {default? : α → Option String}
    (hne : ∀ e ∈ cs, ∀ s ∈ default? e, s ≠ "") :
    ((cs.map fun e => (default? e).getD "").filter (· != "")).head? = cs.findSome? default? := by
  induction cs with
  | nil => rfl
  | cons c cs ih =>
    have hrest := ih fun e he => hne e (List.mem_cons_of_mem c he)
    rw [List.map_cons, List.findSome?_cons]
    cases hdefault : default? c with
    | none =>
      rw [Option.getD_none, List.filter_cons_of_neg (by simp)]
      exact hrest
    | some s =>
      have hs := bne_iff_ne.mpr (hne c (List.mem_cons_self ..) s hdefault)
      rw [Option.getD_some, List.filter_cons, if_pos hs]
      rfl

/-- **What several signatures are reconciled to is known by their types and defaults.** -/
theorem reconcile_map (hproper : ∀ e ∈ c :: d :: cs, (typeOf e).isProper = true)
    (hsplit : ∀ e ∈ c :: d :: cs,
      Signature.splitDefault (text e) = ((typeOf e).print, default e)) :
    reconcile type field argument ((c :: d :: cs).map text)
      = if ∀ e ∈ d :: cs, (typeOf e).loosened = (typeOf c).loosened then
          .ok (signatureText
            (if ∀ e ∈ d :: cs, typeOf e = typeOf c then typeOf c else (typeOf c).loosened)
            (((c :: d :: cs).map default).filter (· != "")).head?)
        else .error (.conflictingArguments argument type field ((c :: d :: cs).map text)) := by
  have hc := hproper c (List.mem_cons_self ..)
  have hrest : ∀ e ∈ d :: cs, (typeOf e).isProper = true :=
    fun e he => hproper e (List.mem_cons_of_mem c he)
  have hparts : ((c :: d :: cs).map text).map Signature.splitDefault
      = (c :: d :: cs).map fun e => ((typeOf e).print, default e) := by
    rw [List.map_map]
    exact List.map_congr_left hsplit
  have hsignatures : (((c :: d :: cs).map text).map Signature.splitDefault).map Prod.fst
      = (typeOf c).print :: (d :: cs).map fun e => (typeOf e).print := by
    rw [hparts, List.map_map]
    rfl
  have hdefaults : (((c :: d :: cs).map text).map Signature.splitDefault).map Prod.snd
      = (c :: d :: cs).map default := by
    rw [hparts, List.map_map]
    rfl
  have hshapes : ((typeOf c).print :: (d :: cs).map fun e => (typeOf e).print).map
      Signature.withoutMarks
      = (typeOf c).loosened.print :: (d :: cs).map fun e => (typeOf e).loosened.print := by
    rw [List.map_cons, List.map_map, Signature.withoutMarks_print hc]
    exact congrArg _ (List.map_congr_left fun e he => Signature.withoutMarks_print (hrest e he))
  have hsame := all_print_eq hc hrest
  have hlike := all_print_eq (TypeRef.isProper_loosened hc)
    fun e he => TypeRef.isProper_loosened (hrest e he)
  refine (reconcile_texts hsignatures hshapes (congrArg _ (congrArg _ hdefaults))).trans
    (if_congr hlike ?_ rfl)
  rw [signatureText, apply_ite TypeRef.print, if_congr hsame rfl rfl]

end Texts

/-! ### Declared signatures -/

/-- A declared signature: a type as it is printed, and perhaps a default after an equals sign,
with blanks between the two. -/
structure Declared where
  /-- The type. -/
  type : TypeRef
  /-- The type is one of the grammar. -/
  proper : type.isProper = true
  /-- What stands between the type and the equals sign. -/
  gap : String
  /-- Only blanks stand there. -/
  blank : gap.toList.all Text.isBlank = true
  /-- The text after the equals sign, whatever it is. -/
  after? : Option String

/-- Whether an argument of a type and with a default or none may be left out. -/
def Omittable (t : TypeRef) (default? : Option String) : Prop :=
  t.isNonNull = false ∨ default?.isSome = true

namespace Declared

/-- The signature. -/
def text (c : Declared) : String := c.type.print ++ c.gap ++ (c.after?.map ("=" ++ ·)).getD ""

/-- The default that a signature gives: the text after the equals sign, unless it is blank. -/
def given? (c : Declared) : Option String := (c.after?.map Text.trim).filter (· != "")

/-- The signatures name one type at one nesting of lists. -/
def Alike (cs : List Declared) : Prop :=
  ∀ c ∈ cs, ∀ d ∈ cs, c.type.baseName = d.type.baseName ∧ c.type.nesting = d.type.nesting

instance (cs : List Declared) : Decidable (Alike cs) :=
  inferInstanceAs (Decidable (∀ c ∈ cs, ∀ d ∈ cs, _ ∧ _))

/-- A type stands for some signatures. -/
structure StandsFor (t : TypeRef) (cs : List Declared) : Prop where
  /-- It is one of the grammar. -/
  proper : t.isProper = true
  /-- It is the common type if there is one. -/
  common : ∀ u, (∀ c ∈ cs, c.type = u) → t = u
  /-- Otherwise it is the type of each without its exclamation marks. -/
  loosened : (¬ ∃ u, ∀ c ∈ cs, c.type = u) → ∀ c ∈ cs, t = c.type.loosened
  /-- It takes the values that one of them takes, as the same. -/
  values : ∀ c ∈ cs, ∀ s leaves defaults v w,
    Coercion.ofValue s leaves defaults c.type v = some w →
      Coercion.ofValue s leaves defaults t v = some w
  /-- It takes the literals that one of them takes, as the same. -/
  literals : ∀ c ∈ cs, ∀ s leaves defaults vars l w,
    Coercion.ofLiteral s leaves defaults vars c.type l = some w →
      Coercion.ofLiteral s leaves defaults vars t l = some w
  /-- With the first default, it may be left out where one of them may. -/
  omission : ∀ c ∈ cs, Omittable c.type c.given? → Omittable t (cs.findSome? given?)

variable {c d : Declared} {cs ds : List Declared} {t u : TypeRef} {type field argument : String}

/-- **A signature is split into its type and its default.** -/
theorem splitDefault_text (c : Declared) :
    Signature.splitDefault c.text = (c.type.print, c.given?.getD "") := by
  rw [text, given?]
  cases c.after? with
  | none =>
    rw [Option.map_none, Option.getD_none, String.append_empty]
    exact Signature.splitDefault_print c.proper (List.all_eq_true.mp c.blank)
  | some d =>
    have hdefault : ((some (Text.trim d)).filter (· != "")).getD "" = Text.trim d := by
      by_cases h : Text.trim d = ""
      · rw [h]
        rfl
      · rw [Option.filter_some, if_pos (bne_iff_ne.mpr h), Option.getD_some]
    rw [Option.map_some, Option.getD_some, Option.map_some, hdefault]
    exact Signature.splitDefault_print_append c.proper (List.all_eq_true.mp c.blank) d

/-- What several signatures are reconciled to, on types. -/
theorem reconcile_eq (type field argument : String) (c d : Declared) (cs : List Declared) :
    reconcile type field argument ((c :: d :: cs).map text)
      = if ∀ e ∈ d :: cs, e.type.loosened = c.type.loosened then
          .ok (signatureText (if ∀ e ∈ d :: cs, e.type = c.type then c.type else c.type.loosened)
            ((c :: d :: cs).findSome? given?))
        else .error (.conflictingArguments argument type field ((c :: d :: cs).map text)) := by
  have hne : ∀ e ∈ c :: d :: cs, ∀ s ∈ e.given?, s ≠ "" :=
    fun e _ s hs => bne_iff_ne.mp (Option.filter_eq_some_iff.mp hs).2
  rw [reconcile_map (fun e _ => e.proper) (fun e _ => splitDefault_text e), head?_defaults hne]

theorem alike_iff (hc : c ∈ cs) : Alike cs ↔ ∀ e ∈ cs, e.type.loosened = c.type.loosened := by
  constructor
  · intro h e he
    exact TypeRef.loosened_eq_iff.mpr (h e he c hc)
  · intro h e he d hd
    exact TypeRef.loosened_eq_iff.mp ((h e he).trans (h d hd).symm)

theorem Alike.perm (h : Alike cs) (hperm : ds.Perm cs) : Alike ds :=
  fun c hc d hd => h c (hperm.mem_iff.mp hc) d (hperm.mem_iff.mp hd)

/-- A signature that gives a default lets the argument be left out with the first default. -/
theorem isSome_findSome? (hc : c ∈ cs) (h : c.given?.isSome = true) :
    (cs.findSome? given?).isSome = true := by
  rw [List.findSome?_isSome_iff]
  exact ⟨c, hc, h⟩

/-- A common type stands for the signatures. -/
theorem standsFor_common (hc : c ∈ cs) (hsame : ∀ e ∈ cs, e.type = c.type) :
    StandsFor c.type cs where
  proper := c.proper
  common u hu := hu c hc
  loosened hdiffer := absurd ⟨c.type, hsame⟩ hdiffer
  values e he s leaves defaults v w hw := by rwa [hsame e he] at hw
  literals e he s leaves defaults vars l w hw := by rwa [hsame e he] at hw
  omission e he h := by
    rw [hsame e he] at h
    exact h.imp_right (isSome_findSome? he)

/-- Where two types differ, but only in null, the one that allows it everywhere stands for the
signatures. -/
theorem standsFor_loosened (hc : c ∈ cs) (halike : ∀ e ∈ cs, e.type.loosened = c.type.loosened)
    (hdiffer : ¬ ∀ e ∈ cs, e.type = c.type) : StandsFor c.type.loosened cs where
  proper := TypeRef.isProper_loosened c.proper
  common u hu := absurd (fun e he => (hu e he).trans (hu c hc).symm) hdiffer
  loosened _ e he := (halike e he).symm
  values e he s leaves defaults v w hw := by
    rw [← halike e he]
    exact Coercion.ofValue_loosened e.proper hw
  literals e he s leaves defaults vars l w hw := by
    rw [← halike e he]
    exact Coercion.ofLiteral_loosened e.proper hw
  omission _ _ _ := .inl (TypeRef.isNonNull_loosened c.type)

/-- One type stands for the signatures, in whatever order. -/
theorem StandsFor.unique (ht : StandsFor t cs) (hu : StandsFor u ds) (hperm : ds.Perm cs)
    (hc : c ∈ cs) : t = u := by
  by_cases h : ∃ v, ∀ e ∈ cs, e.type = v
  · obtain ⟨v, hv⟩ := h
    exact (ht.common v hv).trans (hu.common v fun e he => hv e (hperm.mem_iff.mp he)).symm
  · have h' : ¬ ∃ v, ∀ e ∈ ds, e.type = v := by
      rintro ⟨v, hv⟩
      exact h ⟨v, fun e he => hv e (hperm.mem_iff.mpr he)⟩
    exact (ht.loosened h c hc).trans (hu.loosened h' c (hperm.mem_iff.mpr hc)).symm

/-- Several signatures that are alike are reconciled to a type that stands for them, with the
first default. -/
theorem reconcile_of_alike (several : 2 ≤ cs.length) (h : Alike cs) :
    ∃ t, StandsFor t cs ∧ ∀ type field argument,
      reconcile type field argument (cs.map text) = .ok (signatureText t (cs.findSome? given?)) := by
  match cs, several with
  | c :: d :: cs, _ =>
    have hc : c ∈ c :: d :: cs := List.mem_cons_self ..
    have halike := (alike_iff hc).mp h
    have hrest : ∀ e ∈ d :: cs, e.type.loosened = c.type.loosened :=
      fun e he => halike e (List.mem_cons_of_mem c he)
    have hsame : (∀ e ∈ c :: d :: cs, e.type = c.type) ↔ ∀ e ∈ d :: cs, e.type = c.type := by
      rw [List.forall_mem_cons, and_iff_right rfl]
    by_cases hall : ∀ e ∈ d :: cs, e.type = c.type
    · refine ⟨c.type, standsFor_common hc (hsame.mpr hall), fun type field argument => ?_⟩
      rw [reconcile_eq, if_pos hrest, if_pos hall]
    · refine ⟨c.type.loosened, standsFor_loosened hc halike (mt hsame.mp hall), ?_⟩
      intro type field argument
      rw [reconcile_eq, if_pos hrest, if_neg hall]

/-- Several signatures that are not alike are refused. -/
theorem reconcile_of_not_alike (several : 2 ≤ cs.length) (h : ¬ Alike cs)
    (type field argument : String) : reconcile type field argument (cs.map text)
      = .error (.conflictingArguments argument type field (cs.map text)) := by
  match cs, several with
  | c :: d :: cs, _ =>
    have hrest : ¬ ∀ e ∈ d :: cs, e.type.loosened = c.type.loosened := by
      rw [alike_iff (List.mem_cons_self ..), List.forall_mem_cons, and_iff_right rfl] at h
      exact h
    rw [reconcile_eq, if_neg hrest]

/-- **Several declared signatures of an argument are reconciled exactly if they name one type at
one nesting of lists.** The result is a type that stands for all of them, whatever their order,
with the first default that is given; signatures that are not alike are refused in every order. -/
theorem reconcile_declared (several : 2 ≤ cs.length) :
    (Alike cs → ∃ t, StandsFor t cs ∧ ∀ ds : List Declared, ds.Perm cs → ∀ type field argument,
      reconcile type field argument (ds.map text) = .ok (signatureText t (ds.findSome? given?)))
    ∧ (¬ Alike cs → ∀ ds : List Declared, ds.Perm cs → ∀ type field argument,
      reconcile type field argument (ds.map text)
        = .error (.conflictingArguments argument type field (ds.map text))) := by
  refine ⟨fun h => ?_, fun h ds hperm => ?_⟩
  · obtain ⟨t, ht, -⟩ := reconcile_of_alike several h
    refine ⟨t, ht, fun ds hperm type field argument => ?_⟩
    obtain ⟨u, hu, hreconcile⟩ := reconcile_of_alike (hperm.length_eq ▸ several) (h.perm hperm)
    obtain ⟨c, hc⟩ := List.exists_mem_of_length_pos (Nat.lt_of_lt_of_le Nat.zero_lt_two several)
    rw [ht.unique hu hperm hc, hreconcile]
  · exact reconcile_of_not_alike (hperm.length_eq ▸ several) fun hds => h (hds.perm hperm.symm)

/-- A list of items that excludes null at two levels. -/
def strict : Declared where
  type := .nonNull (.list (.nonNull (.named "Item")))
  proper := by decide
  gap := ""
  blank := by decide
  after? := none

/-- The same with null allowed for the list, and a default with marks and equals signs. -/
def marked : Declared where
  type := .list (.nonNull (.named "Item"))
  proper := by decide
  gap := "  "
  blank := by decide
  after? := some "[\"a=b!\"] "

/-- The same with another default. -/
def lax : Declared where
  type := .list (.named "Item")
  proper := by decide
  gap := " "
  blank := by decide
  after? := some " []"

/-- A single item. -/
def single : Declared where
  type := .nonNull (.named "Item")
  proper := by decide
  gap := ""
  blank := by decide
  after? := none

theorem reconcile_declared_items :
    (2 ≤ [strict, marked, lax].length ∧ Alike [strict, marked, lax]
      ∧ StandsFor (.list (.named "Item")) [strict, marked, lax]
      ∧ reconcile "Query" "items" "given" ["[Item!]!", "[Item!]  =[\"a=b!\"] ", "[Item] = []"]
        = .ok "[Item] = [\"a=b!\"]"
      ∧ reconcile "Query" "items" "given" ["[Item] = []", "[Item!]!", "[Item!]  =[\"a=b!\"] "]
        = .ok "[Item] = []")
    ∧ 2 ≤ [strict, single].length ∧ ¬ Alike [strict, single]
      ∧ reconcile "Query" "items" "given" ["[Item!]!", "Item!"]
        = .error (.conflictingArguments "given" "Query" "items" ["[Item!]!", "Item!"]) := by
  have halike : Alike [strict, marked, lax] := by decide
  have hunlike : ¬ Alike [strict, single] := by decide
  obtain ⟨t, ht, hreconcile⟩ := (reconcile_declared (by decide)).1 halike
  have hdiffer : ¬ ∃ u, ∀ c ∈ [strict, marked, lax], c.type = u := by
    rintro ⟨u, hu⟩
    exact absurd ((hu strict (by simp)).trans (hu lax (by simp)).symm) (by decide)
  obtain rfl : t = .list (.named "Item") := ht.loosened hdiffer strict (by simp)
  refine ⟨⟨by decide, halike, ht, ?_, ?_⟩, by decide, hunlike, ?_⟩
  · exact hreconcile _ (List.Perm.refl _) "Query" "items" "given"
  · exact hreconcile _ (List.perm_append_singleton lax [strict, marked]).symm "Query" "items" "given"
  · exact (reconcile_declared (by decide)).2 hunlike _ (List.Perm.refl _) "Query" "items" "given"

end Declared
end Registry

/-! ### Candidates for an argument

An argument is declared by one or more signatures, each a type and perhaps a default. Where
several agree in everything but null they are reconciled: the type is the common one, or the
one that allows null everywhere if they differ, and the default is the first there is. What is
written is the signature of the reconciled candidate.
-/

open Parser

namespace Registry

/-! ### Signatures -/

/-- A signature of an argument: a type, and perhaps a default as a text with the literal that it
is. -/
structure Candidate where
  /-- The type. -/
  type : TypeRef
  /-- The default, as it is written and as it reads. -/
  default? : Option (String × Literal)

namespace Candidate

/-- The text of the default, empty if there is none. -/
def defaultText (c : Candidate) : String := (c.default?.map Prod.fst).getD ""

/-- The signature. -/
def text (c : Candidate) : String :=
  c.type.print ++ (c.default?.map fun d => " = " ++ d.1).getD ""

/-- The argument with this signature. -/
def node (name : String) (c : Candidate) : InputNode :=
  { description := none, name, type := c.type, default? := c.default?.map Prod.snd, directives := [] }

/-- The type is one of the grammar, and the default is a literal without blanks around it. -/
structure Proper (c : Candidate) : Prop where
  /-- The type is one of the grammar. -/
  type : c.type.isProper = true
  /-- The default is a literal. -/
  reads : ∀ d ∈ c.default?, (value true).Reads d.1 d.2
  /-- No blank stands around it. -/
  trimmed : ∀ d ∈ c.default?, Text.trim d.1 = d.1

variable {c : Candidate} {cs : List Candidate} {type field argument s : String}

/-- A signature reads as its type and its default. -/
theorem Proper.typed (h : c.Proper) : typed.Reads c.text (c.type, c.default?.map Prod.snd) := by
  cases hdefault : c.default? with
  | none =>
    rw [text, hdefault, Option.map_none, Option.getD_none, String.append_empty]
    exact reads_typed h.type
  | some d =>
    rw [text, hdefault, Option.map_some, Option.getD_some, ← String.append_assoc]
    exact reads_typed_default h.type (h.reads d hdefault)

/-- **A signature is split into its type and its default.** -/
theorem splitDefault_text (h : c.Proper) :
    Signature.splitDefault c.text = (c.type.print, c.defaultText) := by
  rw [text, defaultText]
  cases hdefault : c.default? with
  | none => exact Signature.splitDefault_print h.type (by simp)
  | some d =>
    have hblank : ∀ a ∈ " ".toList, Text.isBlank a = true := List.forall_mem_singleton.mpr rfl
    have htrim : Text.trim (" " ++ d.1) = d.1 := by
      rw [← String.ofList_toList (s := " " ++ d.1), String.toList_append]
      exact (Text.trim_cons (by decide) _).trans
        (String.ofList_toList ▸ h.trimmed d hdefault)
    have hsplit := Signature.splitDefault_print_append h.type hblank (" " ++ d.1)
    rw [htrim, String.append_assoc] at hsplit
    exact hsplit

/-- A default has a text. -/
theorem Proper.defaultText_ne (h : c.Proper) {d : String × Literal} (hd : c.default? = some d) :
    d.1 ≠ "" := by
  intro hempty
  obtain ⟨ts, hs, hread⟩ := h.reads d hd
  rw [hempty] at hs
  cases hs with
  | done _ => cases hread
  | token hdrop _ _ => cases hdrop

/-! ### Reconciled candidates -/

/-- The candidate that stands for all: a single one as it is, and otherwise the common type, or
the one that allows null everywhere, with the first default. -/
def reconciled : List Candidate → Option Candidate
  | [] => none
  | [c] => some c
  | c :: d :: cs => some
    { type := if (d :: cs).all (·.type == c.type) then c.type else c.type.loosened
      default? := (c :: d :: cs).findSome? (·.default?) }

theorem Proper.reconciled (h : ∀ c ∈ cs, c.Proper) (hc : reconciled cs = some c) : c.Proper := by
  match cs, hc with
  | [d], hc =>
    cases hc
    exact h c (List.mem_singleton_self c)
  | d :: e :: cs, hc =>
    cases hc
    have hd := h d (List.mem_cons_self ..)
    refine ⟨?_, fun x hx => ?_, fun x hx => ?_⟩
    · dsimp only
      split
      · exact hd.type
      · exact TypeRef.isProper_loosened hd.type
    · obtain ⟨a, ha, hax⟩ := List.exists_of_findSome?_eq_some hx
      exact (h a ha).reads x hax
    · obtain ⟨a, ha, hax⟩ := List.exists_of_findSome?_eq_some hx
      exact (h a ha).trimmed x hax

/-- **What is written for an argument is the signature of the reconciled candidate**, if
anything is. -/
theorem reconcile_eq_ok (h : ∀ c ∈ cs, c.Proper)
    (hs : reconcile type field argument (cs.map text) = .ok s) :
    ∃ c, reconciled cs = some c ∧ s = c.text := by
  rcases cs with _ | ⟨c, _ | ⟨d, cs⟩⟩
  · cases hs
  · exact ⟨c, rfl, (Except.ok.inj hs).symm⟩
  · have hne : ∀ a ∈ c :: d :: cs, ∀ s ∈ a.default?.map Prod.fst, s ≠ "" := by
      intro a ha s hdefault
      obtain ⟨x, hx, rfl⟩ := Option.map_eq_some_iff.mp hdefault
      exact (h a ha).defaultText_ne hx
    rw [reconcile_map (fun a ha => (h a ha).type) (fun a ha => splitDefault_text (h a ha))] at hs
    split at hs
    · have hdefaults : (((c :: d :: cs).map defaultText).filter (· != "")).head?
          = ((c :: d :: cs).findSome? (·.default?)).map Prod.fst :=
        (head?_defaults hne).trans (List.map_findSome? ..).symm
      refine ⟨_, rfl, (Except.ok.inj hs).symm.trans ?_⟩
      rw [hdefaults, signatureText, Option.map_map, text]
      simp only [List.all_eq_true, beq_iff_eq]
      rfl
    · cases hs

end Candidate
end Registry
end SchemaForge
