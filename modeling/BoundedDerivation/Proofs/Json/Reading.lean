import BoundedDerivation.Json.Reader
import BoundedDerivation.Json.Writer
import Mathlib.Data.List.DropRight

/-! Reading what has been written. Strings come back whatever characters they hold, and values come
back from any layout that puts nothing but blanks between tokens, as both the compact and the pretty
one do. Nothing needs to be known of what follows a value, since its own brackets and quotes end it:
this is why numbers, which only end where something else begins, are left out. -/
namespace BoundedDerivation.Json

namespace Quoted

theorem hexValue_hexDigit : ∀ n < 16, hexValue (hexDigit n) = some n := by decide

theorem unit_control {n : Nat} (h : n < 0x20) :
    unit '0' '0' (hexDigit (n / 16)) (hexDigit (n % 16)) = some n := by
  have hzero : hexValue '0' = some 0 := by decide
  have hhigh := hexValue_hexDigit (n / 16) (by omega)
  have hlow := hexValue_hexDigit (n % 16) (by omega)
  simp only [unit, hzero, hhigh, hlow, Option.bind_eq_bind, Option.bind_some, Option.pure_def,
    Option.some.injEq]
  omega

/-- A character is written with a letter that stands for it, by its number or as it is. -/
theorem escape_cases (c : Char) :
    (∃ letter, escape c = ['\\', letter] ∧ shortEscape letter = some c) ∨
      (c.toNat < 0x20 ∧
        escape c = ['\\', 'u', '0', '0', hexDigit (c.toNat / 16), hexDigit (c.toNat % 16)]) ∨
      (c ≠ '"' ∧ c ≠ '\\' ∧ ¬c.toNat < 0x20 ∧ escape c = [c]) := by
  unfold escape
  split_ifs <;> simp_all [shortEscape]

theorem readBody_letter {letter c : Char} (h : shortEscape letter = some c) (text : Text) :
    readBody ('\\' :: letter :: text) = prepend c (readBody text) := by
  have hletter : letter ≠ 'u' := by
    rintro rfl
    simp [shortEscape] at h
  rw [readBody.eq_def]
  simp [hletter, h]

/-- One character at a time, an escape is read back as what it stands for. -/
theorem readBody_escape (c : Char) (text : Text) :
    readBody (escape c ++ text) = prepend c (readBody text) := by
  rcases escape_cases c with ⟨letter, hescape, hletter⟩ | ⟨hcontrol, hescape⟩ |
    ⟨hquote, hbackslash, hcontrol, hescape⟩
  · rw [hescape]
    exact readBody_letter hletter text
  · have hlow : isLow c.toNat = false := by simp [isLow]; omega
    have hhigh : isHigh c.toNat = false := by simp [isHigh]; omega
    simp [hescape, readBody, unit_control hcontrol, hlow, hhigh, Char.ofNat_toNat]
  · rw [hescape, List.singleton_append, readBody.eq_def]
    simp [hquote, hbackslash, hcontrol]

theorem readBody_write (text rest : Text) :
    readBody (text.flatMap escape ++ '"' :: rest) = some (text, rest) := by
  induction text with
  | nil =>
    rw [List.flatMap_nil, List.nil_append, readBody.eq_def]
    exact if_pos rfl
  | cons c text ih =>
    rw [List.flatMap_cons, List.append_assoc, readBody_escape, ih]
    rfl

end Quoted

/-- What may stand between two tokens. -/
def IsGap (gap : Text) : Prop := ∀ c ∈ gap, isSpace c

theorem isGap_nil : IsGap [] := List.forall_mem_nil _

theorem skip_gap {gap : Text} (h : IsGap gap) (text : Text) : skip (gap ++ text) = skip text :=
  List.dropWhile_append_of_pos h

theorem skip_token {c : Char} (h : isSpace c = false) (text : Text) :
    skip (c :: text) = c :: text := by
  simp [skip, h]

theorem readValue_ended (rounds depth : Nat) : readValue rounds depth [] = none := by
  rw [readValue.eq_def]
  rfl

theorem readValue_skip (rounds depth : Nat) (text : Text) :
    readValue rounds depth (skip text) = readValue rounds depth text := by
  rw [readValue.eq_def, skip, skip, List.dropWhile_idempotent, ← skip, ← readValue.eq_def]

theorem readValue_array (rounds depth : Nat) (text : Text) :
    readValue rounds (depth + 1) ('[' :: text) =
      (readBracket (readValue rounds depth) ']' rounds text).map
        fun (items, text) => (array items, text) := by
  rw [readValue.eq_def]
  rfl

theorem readValue_object (rounds depth : Nat) (text : Text) :
    readValue rounds (depth + 1) ('{' :: text) =
      (readBracket (readMember (readValue rounds depth)) '}' rounds text).map
        fun (members, text) => (object members, text) := by
  rw [readValue.eq_def]
  rfl

theorem readValue_string (rounds depth : Nat) (text : Text) :
    readValue rounds depth ('"' :: text) =
      (Quoted.readBody text).map fun (value, text) => (string value, text) := by
  rw [readValue.eq_def]
  rfl

theorem readValue_closing (rounds depth : Nat) (text : Text) :
    readValue rounds depth (']' :: text) = none := by
  rw [readValue.eq_def]
  rfl

section
variable {α : Type} {readItem : Text → Option (α × Text)} {close : Char} {piece : α → Text}
  {items : List α} {after : Text} {rounds : Nat}

/-- A reader of items passes over gaps. It finds none where the text ends or a bracket closes. -/
structure ReadsItems (readItem : Text → Option (α × Text)) (close : Char) : Prop where
  skips : ∀ text, readItem (skip text) = readItem text
  ended : readItem [] = none
  closed : ∀ text, readItem (close :: text) = none
  notSpace : isSpace close = false
  notComma : close ≠ ','

theorem readItems_skip (hreads : ReadsItems readItem close) (rounds : Nat) (text : Text) :
    readItems readItem close rounds (skip text) = readItems readItem close rounds text := by
  cases rounds with
  | zero => rfl
  | succ rounds => rw [readItems, readItems, hreads.skips]

theorem readItems_eq_none {text : Text} (h : readItem text = none) (rounds : Nat) :
    readItems readItem close rounds text = none := by
  cases rounds with
  | zero => rfl
  | succ rounds =>
    rw [readItems, h]
    rfl

theorem readItems_join (hreads : ReadsItems readItem close) (hafter : IsGap after) (rest : Text)
    (hne : items ≠ []) (hrounds : items.length ≤ rounds)
    (hitems : ∀ item ∈ items, ∀ rest, readItem (piece item ++ rest) = some (item, rest)) :
    readItems readItem close rounds (Text.join [','] (items.map piece) ++ (after ++ close :: rest)) =
      some (items, rest) := by
  induction items generalizing rounds with
  | nil => exact absurd rfl hne
  | cons item items ih =>
    obtain ⟨hitem, hrest⟩ := List.forall_mem_cons.mp hitems
    obtain ⟨rounds, rfl⟩ : ∃ fewer, rounds = fewer + 1 := ⟨rounds - 1, by simp at hrounds; omega⟩
    cases items with
    | nil =>
      simp only [Text.join, List.map_cons, List.map_nil, List.intercalate_singleton]
      simp [readItems, hitem, skip_gap hafter, skip_token hreads.notSpace]
    | cons second more =>
      have hmore := ih (by simp) (by simpa using hrounds) hrest
      have hcomma : skip (',' :: (Text.join [','] ((second :: more).map piece) ++
          (after ++ close :: rest))) = _ := skip_token rfl _
      simp only [Text.join, List.map_cons, List.intercalate_cons_cons] at hmore hcomma ⊢
      simp [readItems, hitem, hcomma, hreads.notComma.symm, hmore]

/-- Between brackets there may also be no items at all. -/
theorem readBracket_join (hreads : ReadsItems readItem close) (hafter : IsGap after) (rest : Text)
    (hrounds : items.length ≤ rounds)
    (hitems : ∀ item ∈ items, ∀ rest, readItem (piece item ++ rest) = some (item, rest)) :
    readBracket readItem close rounds
        (Text.join [','] (items.map piece) ++ (after ++ close :: rest)) = some (items, rest) := by
  cases items with
  | nil =>
    simp [Text.join, readBracket, skip_gap hafter, skip_token hreads.notSpace]
  | cons first more =>
    have hall := readItems_join hreads hafter rest (by simp) hrounds hitems
    rw [← readItems_skip hreads] at hall
    unfold readBracket
    split
    · rename_i hnothing
      rw [hnothing, readItems_eq_none hreads.ended] at hall
      cases hall
    · rename_i c text htoken
      rw [htoken] at hall
      rw [if_neg, hall]
      rintro rfl
      rw [readItems_eq_none (hreads.closed text)] at hall
      cases hall

end

theorem readsItems_value (rounds depth : Nat) : ReadsItems (readValue rounds depth) ']' :=
  ⟨readValue_skip rounds depth, readValue_ended rounds depth, readValue_closing rounds depth, rfl,
    by decide⟩

theorem readsItems_member (rounds depth : Nat) :
    ReadsItems (readMember (readValue rounds depth)) '}' := by
  refine ⟨fun text => ?_, rfl, fun _ => rfl, rfl, by decide⟩
  unfold readMember
  rw [skip, skip, List.dropWhile_idempotent]

theorem readMember_write {gap text : Text} {value : Json} {rounds depth : Nat} (key : Text)
    (hgap : IsGap gap) (hvalue : ∀ rest, readValue rounds depth (text ++ rest) = some (value, rest))
    (rest : Text) :
    readMember (readValue rounds depth) (gap ++ (Quoted.write key ++ ':' :: text) ++ rest) =
      some ((key, value), rest) := by
  have hquote : skip (gap ++ (Quoted.write key ++ ':' :: text) ++ rest) =
      '"' :: (key.flatMap Quoted.escape ++ '"' :: ':' :: (text ++ rest)) := by
    rw [List.append_assoc, skip_gap hgap]
    simp [Quoted.write, skip_token (c := '"') rfl]
  have hcolon : skip (':' :: (text ++ rest)) = ':' :: (text ++ rest) := skip_token rfl _
  unfold readMember
  rw [hquote]
  simp [expect, Quoted.readBody_write, hcolon, hvalue]

theorem length_le_join (pieces : List Text) :
    pieces.length ≤ (Text.join [','] pieces).length + 1 := by
  induction pieces with
  | nil => simp
  | cons piece pieces ih =>
    cases pieces with
    | nil => simp
    | cons second more =>
      simp only [Text.join, List.intercalate_cons_cons, List.length_append, List.length_cons] at ih ⊢
      omega

theorem length_le_join_of_mem {piece : Text} {pieces : List Text} (h : piece ∈ pieces) :
    piece.length ≤ (Text.join [','] pieces).length := by
  induction pieces with
  | nil => cases h
  | cons first pieces ih =>
    cases pieces with
    | nil =>
      obtain rfl := List.mem_singleton.mp h
      simp [Text.join]
    | cons second more =>
      simp only [Text.join, List.intercalate_cons_cons, List.length_append] at ih ⊢
      rcases List.mem_cons.mp h with rfl | h
      · omega
      · have := ih h
        omega

/-- The text spells the value, with brackets nested to the given depth at most: it is read up to its
end, however it goes on. -/
def Spells (depth : Nat) (text : Text) (value : Json) : Prop :=
  ∀ rounds ≥ text.length, ∀ rest, readValue rounds depth (text ++ rest) = some (value, rest)

namespace Spells

variable {depth : Nat} {gap after text : Text} {value : Json}

theorem string (depth : Nat) (value : Text) : Spells depth (Quoted.write value) (string value) := by
  intro rounds _ rest
  simp [Quoted.write, readValue_string, Quoted.readBody_write]

theorem after_gap (hgap : IsGap gap) (h : Spells depth text value) :
    Spells depth (gap ++ text) value := by
  intro rounds hrounds rest
  rw [List.length_append] at hrounds
  rw [List.append_assoc, ← readValue_skip, skip_gap hgap, readValue_skip]
  exact h rounds (by omega) rest

theorem array {items : List Json} {piece : Json → Text} (hafter : IsGap after)
    (h : ∀ item ∈ items, Spells depth (piece item) item) :
    Spells (depth + 1) ('[' :: Text.join [','] (items.map piece) ++ after ++ [']'])
      (array items) := by
  intro rounds hrounds rest
  simp only [List.length_append, List.length_cons, List.length_nil] at hrounds
  have hcount := length_le_join (items.map piece)
  rw [List.length_map] at hcount
  have hitems : ∀ item ∈ items, ∀ rest,
      readValue rounds depth (piece item ++ rest) = some (item, rest) := by
    intro item hitem
    have hlength := length_le_join_of_mem (List.mem_map_of_mem (f := piece) hitem)
    exact h item hitem rounds (by omega)
  have hbracket : readBracket (readValue rounds depth) ']' rounds
      (Text.join [','] (items.map piece) ++ (after ++ ']' :: rest)) = some (items, rest) :=
    readBracket_join (readsItems_value rounds depth) hafter rest (by omega) hitems
  simp [readValue_array, hbracket]

theorem object {members : List (Text × Json)} {piece : Text × Json → Text} (hafter : IsGap after)
    (h : ∀ member ∈ members, ∃ gap text, IsGap gap ∧ Spells depth text member.2 ∧
      piece member = gap ++ (Quoted.write member.1 ++ ':' :: text)) :
    Spells (depth + 1) ('{' :: Text.join [','] (members.map piece) ++ after ++ ['}'])
      (object members) := by
  intro rounds hrounds rest
  simp only [List.length_append, List.length_cons, List.length_nil] at hrounds
  have hcount := length_le_join (members.map piece)
  rw [List.length_map] at hcount
  have hmembers : ∀ member ∈ members, ∀ rest, readMember (readValue rounds depth)
      (piece member ++ rest) = some (member, rest) := by
    intro member hmember
    obtain ⟨gap, text, hgap, htext, hpiece⟩ := h member hmember
    have hlength := length_le_join_of_mem (List.mem_map_of_mem (f := piece) hmember)
    rw [hpiece] at hlength ⊢
    simp only [List.length_append, List.length_cons] at hlength
    exact readMember_write member.1 hgap (htext rounds (by omega))
  have hbracket : readBracket (readMember (readValue rounds depth)) '}' rounds
      (Text.join [','] (members.map piece) ++ (after ++ '}' :: rest)) = some (members, rest) :=
    readBracket_join (readsItems_member rounds depth) hafter rest (by omega) hmembers
  simp [readValue_object, hbracket]

theorem read (h : Spells 127 text value) : read text = some value := by
  have hread := h text.length (Nat.le_refl _) []
  rw [List.append_nil] at hread
  simp only [Json.read, hread, Option.bind_eq_bind, Option.bind_some]
  exact if_pos rfl

end Spells

/-- Values without numbers whose brackets are nested to the given depth at most. -/
inductive NestsWithin : Nat → Json → Prop
  | null {depth : Nat} : NestsWithin depth null
  | bool {depth : Nat} (value : Bool) : NestsWithin depth (bool value)
  | string {depth : Nat} (value : Text) : NestsWithin depth (string value)
  | array {depth : Nat} {items : List Json} (h : ∀ item ∈ items, NestsWithin depth item) :
      NestsWithin (depth + 1) (array items)
  | object {depth : Nat} {members : List (Text × Json)}
      (h : ∀ member ∈ members, NestsWithin depth member.2) : NestsWithin (depth + 1) (object members)

theorem spells_null (depth : Nat) : Spells depth "null".toList null := by
  intro rounds _ rest
  rw [readValue.eq_def]
  rfl

theorem spells_bool (depth : Nat) (value : Bool) :
    Spells depth (compact (bool value)) (bool value) := by
  intro rounds _ rest
  rw [readValue.eq_def]
  cases value <;> rfl

theorem compactItems_eq_map (items : List Json) : compactItems items = items.map compact := by
  induction items with
  | nil => rfl
  | cons item items ih => rw [compactItems, ih, List.map_cons]

theorem compactMembers_eq_map (members : List (Text × Json)) :
    compactMembers members = members.map fun member =>
      Quoted.write member.1 ++ ':' :: compact member.2 := by
  induction members with
  | nil => rfl
  | cons member members ih => rw [compactMembers, ih, List.map_cons]

theorem prettyItems_eq_map (level : Nat) (items : List Json) :
    prettyItems level items = items.map (pretty level) := by
  induction items with
  | nil => rfl
  | cons item items ih => rw [prettyItems, ih, List.map_cons]

theorem prettyMembers_eq_map (level : Nat) (members : List (Text × Json)) :
    prettyMembers level members = members.map fun member =>
      Quoted.write member.1 ++ ':' :: ' ' :: pretty level member.2 := by
  induction members with
  | nil => rfl
  | cons member members ih => rw [prettyMembers, ih, List.map_cons]

theorem spells_compact {depth : Nat} {value : Json} (h : NestsWithin depth value) :
    Spells depth (compact value) value := by
  induction h with
  | null => exact spells_null _
  | bool value => exact spells_bool _ value
  | string value => exact Spells.string _ value
  | array _ ih =>
    rw [compact, compactItems_eq_map]
    simpa using Spells.array isGap_nil ih
  | object _ ih =>
    rw [compact, compactMembers_eq_map]
    have hobject := Spells.object isGap_nil fun member hmember =>
      ⟨[], _, isGap_nil, ih member hmember, (List.nil_append _).symm⟩
    simpa using hobject

/-- The line breaks and the indentation of a block are nothing but gaps. -/
theorem block_map {α : Type} (level : Nat) (opening closing : Char) (items : List α)
    (piece : α → Text) :
    ∃ gap after, IsGap gap ∧ IsGap after ∧ block level opening closing (items.map piece) =
      opening :: Text.join [','] (items.map fun item => gap ++ piece item) ++ after ++ [closing] := by
  have hindent : ∀ level, IsGap ('\n' :: List.replicate (2 * level) ' ') := by
    intro level c hc
    rcases List.mem_cons.mp hc with rfl | hc
    · rfl
    · rw [List.eq_of_mem_replicate hc]
      rfl
  cases items with
  | nil => exact ⟨[], [], isGap_nil, isGap_nil, by simp [block, Text.join]⟩
  | cons item items =>
    refine ⟨_, _, hindent (level + 1), hindent level, ?_⟩
    simp [block, List.map_map, Function.comp_def]

theorem spells_pretty {depth : Nat} {value : Json} (h : NestsWithin depth value) (level : Nat) :
    Spells depth (pretty level value) value := by
  induction h generalizing level with
  | null => exact spells_null _
  | @bool depth value =>
    have hcompact := spells_bool depth value
    cases value <;> simpa only [pretty, compact] using hcompact
  | string value => exact Spells.string _ value
  | @array _ items _ ih =>
    obtain ⟨gap, after, hgap, hafter, hblock⟩ := block_map level '[' ']' items (pretty (level + 1))
    rw [pretty, prettyItems_eq_map, hblock]
    exact Spells.array hafter fun item hitem => (ih item hitem _).after_gap hgap
  | @object _ members _ ih =>
    obtain ⟨gap, after, hgap, hafter, hblock⟩ := block_map level '{' '}' members fun member =>
      Quoted.write member.1 ++ ':' :: ' ' :: pretty (level + 1) member.2
    rw [pretty, prettyMembers_eq_map, hblock]
    refine Spells.object hafter fun member hmember => ⟨gap, _, hgap, ?_, rfl⟩
    have hblank : IsGap [' '] := by simp [IsGap, isSpace]
    exact (ih member hmember _).after_gap hblank

/-- Both layouts are read back as the value that was written. -/
theorem read_compact {value : Json} (h : NestsWithin 127 value) : read (compact value) = some value :=
  (spells_compact h).read

theorem read_pretty {value : Json} (h : NestsWithin 127 value) : read (pretty 0 value) = some value :=
  (spells_pretty h 0).read

end BoundedDerivation.Json
