import SchemaForge.Proofs.Registry.Sealing

/-!
# Fields with the same derived names

A derived name is put together without separators: owner, word and field, each with its first
character in upper case. The two words begin with characters that come nowhere else in them, so
in a text one of them cannot begin within another. Where one derived name is that of two fields,
the words therefore stand at the same place, or one of them lies within the owner of the other
field. In the first case owners and fields are the same but for the case of their first letters.
-/
namespace SchemaForge

open Language

section words

variable {α : Type} {x : α} {word word' front rest front' rest' : List α}

/-- A text that begins with a word, and in which another word comes later, has all of the first
word before it. -/
theorem prefix_of_append_eq (hx : word'.head? = some x) (hword : x ∉ word.tail)
    (h : word ++ rest = front ++ (word' ++ rest')) : front = [] ∨ word <+: front := by
  rcases List.append_eq_append_iff.mp h with ⟨between, rfl, -⟩ | ⟨inside, hsplit, hinside⟩
  · exact .inr (List.prefix_append word between)
  · cases front with
    | nil => exact .inl rfl
    | cons first front =>
      cases inside with
      | nil =>
        rw [List.append_nil] at hsplit
        exact .inr (hsplit ▸ List.prefix_refl word)
      | cons y inside =>
        -- The later word would begin within the first one.
        have hy : x = y := by
          obtain ⟨word', rfl⟩ := List.head?_eq_some_iff.mp hx
          exact (List.cons.inj hinside).1
        refine absurd ?_ hword
        rw [hsplit, hy]
        simp

/-- Two words stand at one place of a text, or one of them before the other. -/
theorem eq_or_infix_of_append_eq (hx : word'.head? = some x) (hword : x ∉ word.tail)
    {y : α} (hy : word.head? = some y) (hword' : y ∉ word'.tail)
    (h : front ++ (word ++ rest) = front' ++ (word' ++ rest')) :
    (front = front' ∧ word ++ rest = word' ++ rest') ∨ word <:+: front' ∨ word' <:+: front := by
  rcases List.append_eq_append_iff.mp h with ⟨between, rfl, hrest⟩ | ⟨between, rfl, hrest⟩
  · rcases prefix_of_append_eq hx hword hrest with rfl | hbetween
    · exact .inl ⟨(List.append_nil front).symm, hrest⟩
    · exact .inr (.inl (hbetween.isInfix.trans (List.suffix_append front between).isInfix))
  · rcases prefix_of_append_eq hy hword' hrest with rfl | hbetween
    · exact .inl ⟨List.append_nil front', hrest.symm⟩
    · exact .inr (.inr (hbetween.isInfix.trans (List.suffix_append front' between).isInfix))

end words

/-! ### Derived names -/

/-- The words in derived names. -/
def derivedWords : List String := [whereWord, orderWord]

/-- A name has a word in it, after its first character is put in upper case. -/
def Embeds (word name : String) : Prop := word.toList <:+: (capitalized name).toList

variable {type field other key word word' : String}

/-- Fields have one derived name only if the words in it stand at one place, or one of them is in
the owner of the other field. -/
theorem embeds_of_derivedName_eq (hword : word ∈ derivedWords) (hword' : word' ∈ derivedWords)
    (h : derivedName type field word = derivedName other key word') :
    (capitalized type = capitalized other ∧ word ++ capitalized field = word' ++ capitalized key)
      ∨ Embeds word other ∨ Embeds word' type := by
  have hwords : ∀ word ∈ derivedWords, capitalized word = word
      ∧ ∃ x, word.toList.head? = some x ∧ ∀ word' ∈ derivedWords, x ∉ word'.toList.tail := by
    simp only [derivedWords, List.forall_mem_cons, List.not_mem_nil, false_implies, implies_true,
      and_true]
    exact ⟨⟨by decide, 'W', by decide⟩, by decide, 'S', by decide⟩
  obtain ⟨hsame, x, hx, hfirst⟩ := hwords word hword
  obtain ⟨hsame', y, hy, hfirst'⟩ := hwords word' hword'
  rw [derivedName, derivedName, hsame, hsame'] at h
  have hlists := congrArg String.toList h
  simp only [String.toList_append, List.append_assoc] at hlists
  rcases eq_or_infix_of_append_eq hy (hfirst' word hword) hx (hfirst word' hword') hlists
    with ⟨htype, hrest⟩ | hembeds
  · refine .inl ⟨String.toList_inj.mp htype, String.toList_inj.mp ?_⟩
    rw [String.toList_append, String.toList_append, hrest]
  · exact .inr hembeds

/-- Where the words are the same, so are the rest of the names. -/
theorem capitalized_of_derivedName_eq (hword : word ∈ derivedWords)
    (h : derivedName type field word = derivedName other key word) :
    (capitalized type = capitalized other ∧ capitalized field = capitalized key)
      ∨ Embeds word type ∨ Embeds word other := by
  rcases embeds_of_derivedName_eq hword hword h with ⟨htype, hrest⟩ | hother | htype
  · have hlists := congrArg String.toList hrest
    rw [String.toList_append, String.toList_append] at hlists
    exact .inl ⟨htype, String.toList_inj.mp (List.append_cancel_left hlists)⟩
  · exact .inr (.inr hother)
  · exact .inr (.inl htype)

/-- A condition input is no order enum. -/
theorem embeds_of_whereInputName_eq (h : whereInputName type field = orderEnumName other key) :
    Embeds whereWord other ∨ Embeds orderWord type := by
  refine (embeds_of_derivedName_eq (by decide) (by decide) h).resolve_left fun ⟨_, hrest⟩ => ?_
  have hfirst := congrArg List.head? (congrArg String.toList hrest)
  rw [String.toList_append, String.toList_append, List.head?_append, List.head?_append,
    show whereWord.toList.head? = some 'W' from rfl,
    show orderWord.toList.head? = some 'S' from rfl] at hfirst
  cases hfirst

/-! ### The case of first letters -/

/-- Two names are the same but for the case of their first letters. -/
def EqualButFirst (s t : String) : Prop :=
  ∃ c d cs, s.toList = c :: cs ∧ t.toList = d :: cs ∧ Text.sameAsciiLetter c d = true

/-- ASCII characters with one upper-case form are one letter. -/
theorem sameAsciiLetter_of_upper_eq {c d : Char} (hc : c.toNat < 128) (hd : d.toNat < 128)
    (h : Text.upper c = Text.upper d) : Text.sameAsciiLetter c d = true := by
  have hlower : ∀ n < 128, Text.asciiLower
      (if 97 ≤ n ∧ n ≤ 122 then Char.ofNat (n - 32) else Char.ofNat n)
        = Text.asciiLower (Char.ofNat n) := by
    decide +kernel
  have hc' := hlower _ hc
  have hd' := hlower _ hd
  rw [Char.ofNat_toNat] at hc' hd'
  rw [Text.upper_ascii hc, Text.upper_ascii hd] at h
  rw [Text.sameAsciiLetter, ← hc', ← hd', (List.cons.inj h).1, beq_self_eq_true]

theorem equalButFirst_of_capitalized {s t : String} (hs : isName s = true) (ht : isName t = true)
    (h : capitalized s = capitalized t) : EqualButFirst s t := by
  obtain ⟨c, cs, hs, hc, -⟩ := isName_iff.mp hs
  obtain ⟨d, ds, ht, hd, -⟩ := isName_iff.mp ht
  obtain ⟨a, ha, -⟩ := upper_of_isNameStart hc
  obtain ⟨b, hb, -⟩ := upper_of_isNameStart hd
  have hlists := congrArg String.toList h
  rw [capitalized, capitalized, hs, ht] at hlists
  simp only [String.toList_ofList, ha, hb, List.singleton_append, List.cons.injEq] at hlists
  obtain ⟨rfl, rfl⟩ := hlists
  have hascii : ∀ {c}, isNameStart c = true → c.toNat < 128 := fun h =>
    (toNat_of_isNameChar (by rw [isNameChar, h, Bool.true_or])).1
  exact ⟨c, d, cs, hs, ht, sameAsciiLetter_of_upper_eq (hascii hc) (hascii hd) (ha.trans hb.symm)⟩

/-- **A derived name is that of one field, unless a name has one of the words in it.** Fields with
one condition input have the same owners and the same names but for upper case, or the word in one
of the owners; so have fields with one order enum; and a condition input is an order enum only
where a word is in an owner. So fields with names share no filter type, unless they differ in the
case of first letters alone or have a word in an owner. -/
theorem namesakes_of_derivedNames (type field other key : String) :
    (whereInputName type field = whereInputName other key →
      (capitalized type = capitalized other ∧ capitalized field = capitalized key)
        ∨ Embeds whereWord type ∨ Embeds whereWord other)
    ∧ (orderEnumName type field = orderEnumName other key →
      (capitalized type = capitalized other ∧ capitalized field = capitalized key)
        ∨ Embeds orderWord type ∨ Embeds orderWord other)
    ∧ (whereInputName type field = orderEnumName other key →
      Embeds whereWord other ∨ Embeds orderWord type)
    ∧ (isName type = true → isName field = true → isName other = true → isName key = true →
      ∀ name ∈ derivedNames type field, name ∈ derivedNames other key →
        (EqualButFirst type other ∧ EqualButFirst field key)
          ∨ ∃ word ∈ derivedWords, Embeds word type ∨ Embeds word other) := by
  have hwhere : ∀ {type field other key},
      whereInputName type field = whereInputName other key → _ := fun h =>
    capitalized_of_derivedName_eq (show whereWord ∈ derivedWords by decide) h
  have horder : ∀ {type field other key},
      orderEnumName type field = orderEnumName other key → _ := fun h =>
    capitalized_of_derivedName_eq (show orderWord ∈ derivedWords by decide) h
  refine ⟨hwhere, horder, embeds_of_whereInputName_eq, fun ht hf ho hk name hname hname' => ?_⟩
  have hfirst : capitalized type = capitalized other ∧ capitalized field = capitalized key →
      EqualButFirst type other ∧ EqualButFirst field key := fun ⟨htype, hfield⟩ =>
    ⟨equalButFirst_of_capitalized ht ho htype, equalButFirst_of_capitalized hf hk hfield⟩
  simp only [derivedNames, List.mem_cons, List.not_mem_nil, or_false] at hname hname'
  rcases hname with rfl | rfl <;> rcases hname' with heq | heq
  · exact (hwhere heq).imp hfirst fun h => ⟨whereWord, by decide, h⟩
  · exact .inr ((embeds_of_whereInputName_eq heq).elim (fun h => ⟨whereWord, by decide, .inr h⟩)
      fun h => ⟨orderWord, by decide, .inl h⟩)
  · exact .inr ((embeds_of_whereInputName_eq heq.symm).elim
      (fun h => ⟨whereWord, by decide, .inl h⟩) fun h => ⟨orderWord, by decide, .inr h⟩)
  · exact (horder heq).imp hfirst fun h => ⟨orderWord, by decide, h⟩

/-- Fields of types that differ in their first letters share their filters, and so do two fields of
which one has an owner with the word in it. -/
theorem namesakes_of_derivedNames_notes :
    (whereInputName "query" "notes" = whereInputName "Query" "Notes"
      ∧ EqualButFirst "query" "Query" ∧ EqualButFirst "notes" "Notes")
    ∧ whereInputName "Query" "itemsWhereOptionsNotes"
      = whereInputName "QueryWhereOptionsItems" "notes"
    ∧ Embeds whereWord "QueryWhereOptionsItems" := by
  have hcase : whereInputName "query" "notes" = whereInputName "Query" "Notes" := by decide +kernel
  have hword : whereInputName "Query" "itemsWhereOptionsNotes"
      = whereInputName "QueryWhereOptionsItems" "notes" := by decide +kernel
  obtain ⟨-, -, -, hshared⟩ := namesakes_of_derivedNames "query" "notes" "Query" "Notes"
  obtain ⟨hsame, -⟩ :=
    namesakes_of_derivedNames "Query" "itemsWhereOptionsNotes" "QueryWhereOptionsItems" "notes"
  refine ⟨⟨hcase, ?_⟩, hword, ?_⟩
  · refine (hshared (by decide) (by decide) (by decide) (by decide) _ List.mem_cons_self
      (hcase ▸ List.mem_cons_self)).resolve_right ?_
    unfold Embeds
    decide +kernel
  · refine ((hsame hword).resolve_left fun ⟨htype, _⟩ => ?_).resolve_left ?_
    · revert htype
      decide +kernel
    · unfold Embeds
      decide +kernel

end SchemaForge
