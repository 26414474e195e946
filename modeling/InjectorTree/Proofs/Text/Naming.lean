import Mathlib.Data.Set.Basic
import InjectorTree.Naming
import InjectorTree.Proofs.Text.Quoted

/-!
# What the texts of keys and tags tell

Reports say which key or which scope they are about by its text alone. A name may imitate whatever else stands in
such a text, the annotation of a key included, but it is quoted, and a quotation can be read back. What stands
outside of quotations are the names of types, and those are taken to be tame (`Legible`): none holds a quotation
mark or an annotation, and no two types share one.

* `append_separator_inj`: a separator that cannot overlap itself marks the end of what stands before it.
* `Token.render_inj`: the text of a token names it, whatever the token stands between.
* `texts_unambiguous`: keys with one text are one key, and tags with one text are one tag.
-/

namespace InjectorTree

open Text

-- ---------------------------------------------------------------------------
-- Separators
-- ---------------------------------------------------------------------------

section Separators

variable {separator before before' rest rest' : List Char}

/-- No beginning of the text is an end of it too, but for the text itself. -/
def Unbordered (text : List Char) : Prop :=
  ∀ k < text.length, 0 < k → text.drop k ≠ text.take (text.length - k)

instance (text : List Char) : Decidable (Unbordered text) :=
  inferInstanceAs (Decidable (∀ k < text.length, 0 < k → text.drop k ≠ text.take (text.length - k)))

/-- Where an unbordered separator stands first, it does not stand later too, unless what is before it then holds it. -/
theorem eq_nil_of_append_separator (hUnbordered : Unbordered separator) {extra : List Char}
    (hExtra : ¬separator <:+: extra) (hEq : separator ++ rest = extra ++ (separator ++ rest')) : extra = [] := by
  by_contra hNe
  by_cases hLength : separator.length ≤ extra.length
  · -- the first occurrence lies within what is extra
    have hPrefix : separator <+: extra := by
      refine List.prefix_of_prefix_length_le ⟨rest, rfl⟩ ?_ hLength
      rw [hEq]
      exact List.prefix_append extra _
    exact hExtra hPrefix.isInfix
  · -- the two occurrences overlap
    have hDrop := congrArg (List.drop extra.length) hEq
    rw [List.drop_append_of_le_length (by omega), List.drop_left] at hDrop
    have hTake := congrArg (List.take (separator.length - extra.length)) hDrop
    rw [List.take_append_of_le_length (by rw [List.length_drop]), List.take_of_length_le (by rw [List.length_drop]),
      List.take_append_of_le_length (by omega)] at hTake
    exact hUnbordered extra.length (by omega) (List.length_pos_iff.mpr hNe) hTake

/-- An unbordered separator marks the end of what stands before it, if that does not hold it. -/
theorem append_separator_inj (hUnbordered : Unbordered separator) (hBefore : ¬separator <:+: before)
    (hBefore' : ¬separator <:+: before')
    (hEq : before ++ (separator ++ rest) = before' ++ (separator ++ rest')) : before = before' ∧ rest = rest' := by
  have hSame : before = before' := by
    rcases List.append_eq_append_iff.mp hEq with ⟨extra, rfl, hRest⟩ | ⟨extra, rfl, hRest⟩
    · have hNil := eq_nil_of_append_separator hUnbordered
        (fun hInfix => hBefore' (hInfix.trans (List.suffix_append before extra).isInfix)) hRest
      rw [hNil, List.append_nil]
    · have hNil := eq_nil_of_append_separator hUnbordered
        (fun hInfix => hBefore (hInfix.trans (List.suffix_append before' extra).isInfix)) hRest
      rw [hNil, List.append_nil]
  subst hSame
  exact ⟨rfl, List.append_cancel_left (List.append_cancel_left hEq)⟩

end Separators

-- ---------------------------------------------------------------------------
-- Types and their names
-- ---------------------------------------------------------------------------

/-- The types that stand for themselves in the text of a token. -/
def Token.types : Token → List ServiceType
  | .named _ => []
  | .marker type => [type]

/-- The types that stand for themselves in the text of a key. -/
def Key.types (key : Key) : List ServiceType :=
  key.type :: key.qualifier.elim [] (·.token.types)

/-- The types that stand for themselves in the text of a tag. -/
def ScopeTag.types (tag : ScopeTag) : List ServiceType :=
  tag.token.types

/-- Names by which types are told apart, and which cannot be mistaken for a quotation or an annotated text. -/
structure Legible (types : Set ServiceType) : Prop where
  distinct : ∀ first ∈ types, ∀ second ∈ types, first.name = second.name → first = second
  unquoted : ∀ type ∈ types, '"' ∉ type.name.toList
  unannotated : ∀ type ∈ types, ¬" annotated with ".toList <:+: type.name.toList

variable {types : Set ServiceType}

-- ---------------------------------------------------------------------------
-- Tokens
-- ---------------------------------------------------------------------------

/-- The text of a token, where a quoted name stands between other texts and a marker type follows one. -/
def Token.render (before after lead : String) : Token → String
  | .named name => before ++ quote name ++ after
  | .marker type => lead ++ type.name

theorem Token.text_eq_render (token : Token) : token.text = token.render "" "" "" := by
  cases token with
  | named name => rw [text, render, String.empty_append, String.append_empty]
  | marker type => rw [text, render, String.empty_append]

theorem Qualifier.text_eq_render (qualifier : Qualifier) :
    qualifier.text = qualifier.token.render "@Named(" ")" "@" := by
  obtain ⟨name | type⟩ := qualifier <;> rfl

/-- A text of a token holds a quotation mark exactly if the token is a name. -/
theorem Token.quotationMark_mem_render (hTypes : Legible types) {before after lead : String}
    (hLead : '"' ∉ lead.toList) {token : Token} (hToken : ∀ type ∈ token.types, type ∈ types) :
    '"' ∈ (token.render before after lead).toList ↔ ∃ name, token = .named name := by
  cases token with
  | named name => simp [render, toList_quote]
  | marker type =>
    have hName := hTypes.unquoted type (hToken type List.mem_cons_self)
    simp [render, hLead, hName]

/-- The text of a token names it. -/
theorem Token.render_inj (hTypes : Legible types) {before after lead : String} (hLead : '"' ∉ lead.toList)
    {first second : Token} (hFirst : ∀ type ∈ first.types, type ∈ types)
    (hSecond : ∀ type ∈ second.types, type ∈ types)
    (hEq : first.render before after lead = second.render before after lead) : first = second := by
  have hForm : (∃ name, first = .named name) ↔ ∃ name, second = .named name := by
    rw [← quotationMark_mem_render hTypes hLead hFirst, ← quotationMark_mem_render hTypes hLead hSecond, hEq]
  cases first with
  | named name =>
    obtain ⟨name', rfl⟩ := hForm.mp ⟨name, rfl⟩
    have hChars := congrArg String.toList hEq
    simp only [render, String.toList_append, List.append_assoc] at hChars
    rw [(quote_append_inj (List.append_cancel_left hChars)).1]
  | marker type =>
    cases second with
    | named name => exact nomatch hForm.mpr ⟨name, rfl⟩
    | marker type' =>
      have hName : type.name = type'.name := (String.append_right_inj lead).mp hEq
      rw [hTypes.distinct type (hFirst type List.mem_cons_self) type' (hSecond type' List.mem_cons_self) hName]

-- ---------------------------------------------------------------------------
-- Keys and tags
-- ---------------------------------------------------------------------------

/-- The text of a qualifier names it. -/
theorem Qualifier.text_inj (hTypes : Legible types) {first second : Qualifier}
    (hFirst : ∀ type ∈ first.token.types, type ∈ types) (hSecond : ∀ type ∈ second.token.types, type ∈ types)
    (hEq : first.text = second.text) : first = second := by
  rw [text_eq_render, text_eq_render] at hEq
  have hToken := Token.render_inj hTypes (by decide) hFirst hSecond hEq
  obtain ⟨first⟩ := first
  obtain ⟨second⟩ := second
  exact congrArg Qualifier.mk hToken

/-- Every qualifier begins with one sign. -/
theorem Qualifier.exists_label (qualifier : Qualifier) : ∃ label, qualifier.text = "@" ++ label := by
  obtain ⟨name | type⟩ := qualifier
  · have hSign : "@Named(" = "@" ++ "Named(" := by decide
    refine ⟨"Named(" ++ quote name ++ ")", ?_⟩
    rw [text, hSign, String.append_assoc, String.append_assoc, String.append_assoc]
  · exact ⟨type.name, rfl⟩

/-- What stands between the type of a key and its qualifier, with the sign that the qualifier begins with. Without
the sign, its last character could be the first one of another such text. -/
def connector : List Char :=
  " annotated with ".toList ++ "@".toList

/-- Rewriting with this leaves the two texts as they are; unfolding the definition would evaluate them. -/
theorem connector_eq : connector = " annotated with ".toList ++ "@".toList :=
  rfl

theorem unbordered_connector : Unbordered connector := by
  decide +kernel

theorem Legible.not_connector_infix (hTypes : Legible types) {type : ServiceType} (hType : type ∈ types) :
    ¬connector <:+: type.name.toList := by
  intro hInfix
  rw [connector_eq] at hInfix
  exact hTypes.unannotated type hType ((List.prefix_append _ _).isInfix.trans hInfix)

/-- An annotated text tells the type from the qualifier. -/
theorem Legible.annotated_inj (hTypes : Legible types) {type type' : ServiceType} (hType : type ∈ types)
    (hType' : type' ∈ types) {qualifier qualifier' : Qualifier}
    (hEq : type.name ++ " annotated with " ++ qualifier.text = type'.name ++ " annotated with " ++ qualifier'.text) :
    type = type' ∧ qualifier.text = qualifier'.text := by
  obtain ⟨label, hLabel⟩ := qualifier.exists_label
  obtain ⟨label', hLabel'⟩ := qualifier'.exists_label
  have hChars : ∀ name label : String, (name ++ " annotated with " ++ ("@" ++ label)).toList =
      name.toList ++ (connector ++ label.toList) := by
    intro name label
    rw [connector_eq, String.toList_append, String.toList_append, String.toList_append, List.append_assoc,
      List.append_assoc]
  rw [hLabel, hLabel'] at hEq
  have hLists := congrArg String.toList hEq
  rw [hChars, hChars] at hLists
  obtain ⟨hNames, hLabels⟩ := append_separator_inj unbordered_connector (hTypes.not_connector_infix hType)
    (hTypes.not_connector_infix hType') hLists
  refine ⟨hTypes.distinct type hType type' hType' (String.toList_inj.mp hNames), ?_⟩
  rw [hLabel, hLabel', String.toList_inj.mp hLabels]

/-- No type has the text of a qualified key for its name. -/
theorem Legible.name_ne_annotated (hTypes : Legible types) {type : ServiceType} (hType : type ∈ types)
    (name rest : String) : type.name ≠ name ++ " annotated with " ++ rest := by
  intro hEq
  refine hTypes.unannotated type hType ⟨name.toList, rest.toList, ?_⟩
  rw [hEq, String.toList_append, String.toList_append]

/-- The text of a key names it. -/
theorem Key.text_inj (hTypes : Legible types) {first second : Key} (hFirst : ∀ type ∈ first.types, type ∈ types)
    (hSecond : ∀ type ∈ second.types, type ∈ types) (hEq : first.text = second.text) : first = second := by
  obtain ⟨type, qualifier⟩ := first
  obtain ⟨type', qualifier'⟩ := second
  have hType : type ∈ types := hFirst type List.mem_cons_self
  have hType' : type' ∈ types := hSecond type' List.mem_cons_self
  cases qualifier with
  | none =>
    cases qualifier' with
    | none => rw [hTypes.distinct type hType type' hType' hEq]
    | some qualifier' => exact absurd hEq (hTypes.name_ne_annotated hType type'.name qualifier'.text)
  | some qualifier =>
    cases qualifier' with
    | none => exact absurd hEq.symm (hTypes.name_ne_annotated hType' type.name qualifier.text)
    | some qualifier' =>
      obtain ⟨rfl, hText⟩ := hTypes.annotated_inj hType hType' hEq
      have hQualifier : qualifier = qualifier' :=
        Qualifier.text_inj hTypes (fun type hMem => hFirst type (List.mem_cons_of_mem _ hMem))
          (fun type hMem => hSecond type (List.mem_cons_of_mem _ hMem)) hText
      rw [hQualifier]

/-- The text of a tag names it. -/
theorem ScopeTag.text_inj (hTypes : Legible types) {first second : ScopeTag}
    (hFirst : ∀ type ∈ first.types, type ∈ types) (hSecond : ∀ type ∈ second.types, type ∈ types)
    (hEq : first.text = second.text) : first = second := by
  obtain ⟨first⟩ := first
  obtain ⟨second⟩ := second
  have hText : first.text = second.text := hEq
  rw [Token.text_eq_render, Token.text_eq_render] at hText
  exact congrArg ScopeTag.mk (Token.render_inj hTypes (by decide) hFirst hSecond hText)

/-- Where the names of types are legible, keys have one text only if they are one key, and tags only if they are one
tag. The names in qualifiers and tags may be any texts. -/
theorem texts_unambiguous (hTypes : Legible types) :
    (∀ first second : Key, (∀ type ∈ first.types, type ∈ types) → (∀ type ∈ second.types, type ∈ types) →
      (first.text = second.text ↔ first = second)) ∧
    ∀ first second : ScopeTag, (∀ type ∈ first.types, type ∈ types) → (∀ type ∈ second.types, type ∈ types) →
      (first.text = second.text ↔ first = second) :=
  ⟨fun _ _ hFirst hSecond => ⟨Key.text_inj hTypes hFirst hSecond, congrArg Key.text⟩,
    fun _ _ hFirst hSecond => ⟨ScopeTag.text_inj hTypes hFirst hSecond, congrArg ScopeTag.text⟩⟩

/-- Of the first two names, one spells out how the other is written; of the next two, one seems to end its quotation and
to begin another one. Each has a text of its own, and so has a tag that spells out the name of a type. -/
theorem texts_unambiguous_in_imitation :
    let types : Set ServiceType := {.text, .singleton}
    let space := Key.named .text "\u200b"
    let spelled := Key.named .text "\\u\x7b200b\x7d"
    let port := Key.named .text "port"
    let closing := Key.named .text "port\") annotated with @Named(\"port"
    let imitation := ScopeTag.named "hierarchical_injector::scopes::Singleton"
    Legible types ∧ space.text ≠ spelled.text ∧ port.text ≠ closing.text ∧
      imitation.text ≠ ScopeTag.singleton.text := by
  intro types space spelled port closing imitation
  have hTypes : Legible types := by
    refine ⟨?_, ?_, ?_⟩
    · rintro first (rfl | rfl) second (rfl | rfl) hEq
      · rfl
      · exact absurd hEq (by decide)
      · exact absurd hEq (by decide)
      · rfl
    · rintro type (rfl | rfl) <;> decide +kernel
    · rintro type (rfl | rfl) <;> decide +kernel
  have hText : ∀ name, ∀ type ∈ (Key.named .text name).types, type ∈ types :=
    fun _ _ hMem => Or.inl (List.mem_singleton.mp hMem)
  have hNamed : ∀ type ∈ imitation.types, type ∈ types := fun _ hMem => absurd hMem List.not_mem_nil
  have hMarker : ∀ type ∈ ScopeTag.singleton.types, type ∈ types :=
    fun _ hMem => Or.inr (List.mem_singleton.mp hMem)
  obtain ⟨hKeys, hTags⟩ := texts_unambiguous hTypes
  exact ⟨hTypes, (hKeys space spelled (hText _) (hText _)).not.mpr (by decide),
    (hKeys port closing (hText _) (hText _)).not.mpr (by decide),
    (hTags imitation .singleton hNamed hMarker).not.mpr (by decide)⟩

/-- The name of a type that holds an annotation reads as a key of another type. -/
example : (Key.of ⟨10, "A annotated with @B"⟩).text = (Key.mk ⟨11, "A"⟩ (some (.marker ⟨12, "B"⟩))).text := by
  decide +kernel

/-- One that holds a quotation mark reads as a name. -/
example : (ScopeTag.marker ⟨10, "\"A\""⟩).text = (ScopeTag.named "A").text := by
  decide +kernel

end InjectorTree
