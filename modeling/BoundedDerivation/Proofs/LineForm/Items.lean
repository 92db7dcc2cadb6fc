import BoundedDerivation.LineForm.Reader
import BoundedDerivation.LineForm.Writer
import BoundedDerivation.Proofs.LineForm.Pieces
import BoundedDerivation.Proofs.Rebuilding
import Mathlib.Data.List.Infix
import Mathlib.Data.List.TakeWhile

/-! Reading the items that were written. A rule without blanks is cut at its last arrow, which is the
one between its sides exactly if there is none inside the right one. A later one leaves at least
three characters on its left, and these are no symbol: such a rule is refused and never read as
another rule. -/
namespace BoundedDerivation

/-- What holds of every item on its own holds of all of them. -/
theorem Except.mapM_map_eq_ok_iff {ε α β : Type} {encode : α → β} {decode : β → Except ε α}
    {items results : List α} (good : α → Prop)
    (h : ∀ item ∈ items, ∀ result, decode (encode item) = .ok result ↔ result = item ∧ good item) :
    (items.map encode).mapM decode = .ok results ↔ results = items ∧ ∀ item ∈ items, good item := by
  induction items generalizing results with
  | nil => simp [pure, Except.pure, eq_comm]
  | cons item items ih =>
    obtain ⟨hitem, hitems⟩ := List.forall_mem_cons.mp h
    simp only [List.map_cons, List.mapM_cons, bind_eq_ok_iff, hitem, ih hitems, pure, Except.pure,
      Except.ok.injEq, List.forall_mem_cons]
    constructor
    · rintro ⟨_, ⟨rfl, hgood⟩, _, ⟨rfl, hall⟩, rfl⟩
      exact ⟨rfl, hgood, hall⟩
    · rintro ⟨rfl, hgood, hall⟩
      exact ⟨item, ⟨rfl, hgood⟩, items, ⟨rfl, hall⟩, rfl⟩

namespace Text

variable {text : Text}

/-- No character of the text means anything to a line: none separates items or may be trimmed. -/
def IsPlain (text : Text) : Prop := ∀ c ∈ text, isBlank c = false ∧ c ≠ ';'

instance (text : Text) : Decidable (IsPlain text) := List.decidableBAll _ text

theorem Solid.of_plain (hne : text ≠ []) (h : IsPlain text) : Solid text :=
  .of_no_blank hne fun c hc => (h c hc).1

theorem IsPlain.not_mem (h : IsPlain text) : ';' ∉ text := fun hmem => (h _ hmem).2 rfl

theorem isPlain_singleton {c : Char} (h : IsPlain text) (hc : c ∈ text) : IsPlain [c] :=
  List.forall_mem_singleton.mpr (h c hc)

end Text

theorem readSymbol_singleton {symbol : Char} (h : Text.IsPlain [symbol]) :
    readSymbol [symbol] = .ok symbol := by
  have hsolid : Text.Solid [symbol] := .of_plain (by simp) h
  unfold readSymbol
  rw [hsolid.trim_eq]

/-- Both sides of the rule are plain, and the right one is not empty. -/
structure Rule.IsPlain (rule : Rule) : Prop where
  sides : Text.IsPlain (rule.left :: rule.right)
  right_ne_nil : rule.right ≠ []

theorem Rule.IsPlain.written {rule : Rule} (h : rule.IsPlain) : Text.IsPlain rule.written := by
  obtain ⟨hleft, hright⟩ := List.forall_mem_cons.mp h.sides
  intro c hc
  simp only [Rule.written, List.mem_cons] at hc
  rcases hc with rfl | rfl | rfl | hc
  · exact hleft
  · exact ⟨by decide, by decide⟩
  · exact ⟨by decide, by decide⟩
  · exact hright c hc

namespace LineForm

/-- The arrow of a rule, as two characters in a row. -/
def arrow : Text := ['-', '>']

theorem cutLastArrow_cons (c : Char) (text : Text) :
    cutLastArrow (c :: text) = match cutLastArrow text with
      | some (before, after) => some (c :: before, after)
      | none => match c, text with
        | '-', '>' :: after => some ([], after)
        | _, _ => none := by
  rw [cutLastArrow.eq_def]
  rfl

theorem cutLastArrow_eq_none_iff {text : Text} : cutLastArrow text = none ↔ ¬ arrow <:+: text := by
  induction text with
  | nil => simp [cutLastArrow, arrow]
  | cons c text ih =>
    rw [List.infix_cons_iff, not_or, ← ih, cutLastArrow_cons]
    cases cutLastArrow text with
    | some cut => simp
    | none =>
      simp only [and_true]
      split
      · simp [arrow]
      · rename_i hno
        simp only [true_iff]
        rintro ⟨after, h⟩
        simp only [arrow, List.cons_append, List.nil_append, List.cons.injEq] at h
        obtain ⟨rfl, rfl⟩ := h
        exact hno after rfl rfl

theorem cutLastArrow_arrow (right : Text) :
    cutLastArrow ('-' :: '>' :: right) = match cutLastArrow right with
      | some (before, after) => some ('-' :: '>' :: before, after)
      | none => some ([], right) := by
  rw [cutLastArrow_cons, cutLastArrow_cons]
  cases cutLastArrow right with
  | some cut => rfl
  | none => rfl

theorem cutItem_of_no_blank {first : Char} {more : Text}
    (h : ∀ c ∈ first :: more, Text.isBlank c = false) :
    cutItem (first :: more) =
      (cutLastArrow more).map fun (before, after) => (first :: before, after) := by
  have hrun : (first :: more).takeWhile (!Text.isBlank ·) = first :: more := by
    simpa [List.takeWhile_eq_self_iff] using h
  have hlater : (first :: more).dropWhile (!Text.isBlank ·) = [] := by
    simpa [List.dropWhile_eq_nil_iff] using h
  unfold cutItem
  simp [hrun, hlater]

/-- Whatever stands to the left of a second arrow is no symbol. -/
theorem readSymbol_arrow {left : Char} (h : Text.isBlank left = false) (before : Text)
    (symbol : Char) : readSymbol (left :: '-' :: '>' :: before) ≠ .ok symbol := by
  have htrim : Text.trim (left :: '-' :: '>' :: before) =
      left :: '-' :: '>' :: Text.trimRight before := by
    rw [Text.trim, Text.trimLeft_of_not_blank h]
    simp [show Text.isBlank '-' = false by decide, show Text.isBlank '>' = false by decide]
  unfold readSymbol
  rw [htrim]
  simp

theorem readRule_written_eq_ok_iff {rule : Rule} (h : rule.IsPlain) (line : Nat) (result : Rule) :
    readRule line rule.written = .ok result ↔ result = rule ∧ ¬ arrow <:+: rule.right := by
  have hblank := fun c hc => (h.written c hc).1
  obtain ⟨left, right⟩ := rule
  obtain ⟨hleft, hright⟩ := List.forall_mem_cons.mp h.sides
  have hsymbol := readSymbol_singleton (Text.isPlain_singleton h.sides List.mem_cons_self)
  have htrim := (Text.Solid.of_plain h.right_ne_nil hright).trim_eq
  rw [← cutLastArrow_eq_none_iff]
  unfold readRule
  rw [Rule.written, cutItem_of_no_blank hblank, cutLastArrow_arrow]
  cases cutLastArrow right with
  | none =>
    simp [hsymbol, htrim, h.right_ne_nil, bind, Except.bind, pure, Except.pure, eq_comm]
  | some cut =>
    simp [Except.bind_eq_ok_iff, readSymbol_arrow hleft.1]

theorem isPlain_pieces {symbols : SymbolSet} (h : Text.IsPlain symbols.toList) :
    ∀ piece ∈ symbols.toList.map ([·]), piece ≠ [] ∧ Text.IsPlain piece := by
  rw [List.forall_mem_map]
  exact fun c hc => ⟨by simp, Text.isPlain_singleton h hc⟩

theorem readSymbols_writeSymbols {symbols : SymbolSet} (h : Text.IsPlain symbols.toList) :
    readSymbols (writeSymbols symbols) = .ok symbols.toList := by
  have hpieces := isPlain_pieces h
  unfold readSymbols writeSymbols
  rw [Text.items_join (fun piece hp => .of_plain (hpieces piece hp).1 (hpieces piece hp).2)
    fun piece hp => (hpieces piece hp).2.not_mem]
  refine (Except.mapM_map_eq_ok_iff (fun _ => True) fun c hc result => ?_).mpr
    ⟨rfl, fun _ _ => trivial⟩
  simp [readSymbol_singleton (Text.isPlain_singleton h hc), eq_comm]

section
variable {rules : List Rule} (h : ∀ rule ∈ rules, rule.IsPlain)
include h

theorem solid_written : ∀ piece ∈ rules.map Rule.written, Text.Solid piece := by
  intro piece hpiece
  obtain ⟨rule, hrule, rfl⟩ := List.mem_map.mp hpiece
  exact .of_plain (by simp [Rule.written]) (h rule hrule).written

theorem readRules_writeRules_eq_ok_iff (line : Nat) (results : List Rule) :
    readRules line (writeRules rules) = .ok results ↔
      results = rules ∧ ∀ rule ∈ rules, ¬ arrow <:+: rule.right := by
  have hseparator : ∀ piece ∈ rules.map Rule.written, ';' ∉ piece := by
    intro piece hpiece
    obtain ⟨rule, hrule, rfl⟩ := List.mem_map.mp hpiece
    exact (h rule hrule).written.not_mem
  unfold readRules writeRules
  rw [Text.items_join (solid_written h) hseparator]
  exact Except.mapM_map_eq_ok_iff (fun rule => ¬ arrow <:+: rule.right) fun rule hrule =>
    readRule_written_eq_ok_iff (h rule hrule) line

end

theorem not_mem_writeRules {c : Char} {rules : List Rule} (hc : c ≠ ';')
    (h : ∀ rule ∈ rules, c ∉ rule.written) : c ∉ writeRules rules :=
  Text.not_mem_join (by simpa using hc) (List.forall_mem_map.mpr h)

/-- The blanks around a bar do not reach the rules beside it. -/
theorem mapM_readRules_splitOn {pieces : List Text} (hne : pieces ≠ [])
    (h : ∀ piece ∈ pieces, '|' ∉ piece) (line : Nat) :
    ((Text.join " | ".toList pieces).splitOn '|').mapM (readRules line) =
      pieces.mapM (readRules line) := by
  have hbefore : ∀ text, readRules line (' ' :: text) = readRules line text := fun text => by
    rw [readRules, readRules, Text.items_cons_blank (by decide) (by decide)]
  have hafter : ∀ text, readRules line (text ++ [' ']) = readRules line text := fun text => by
    rw [readRules, readRules, Text.items_append_blank (by decide) (by decide)]
  have hmap := Text.map_splitOn_join hbefore hafter (by decide) hne h
  have hid : ∀ texts : List Text,
      texts.mapM (readRules line) = (texts.map (readRules line)).mapM id := fun texts => by
    rw [List.mapM_map]
    rfl
  rw [hid, hid, ← hmap]
  rfl

theorem readMatrices_writeStore_eq_ok_iff {store : MatrixRules} (hne : store.matrices ≠ [])
    (h : ∀ matrix ∈ store.matrices, ∀ rule ∈ matrix.rules, rule.IsPlain)
    (hbar : ∀ matrix ∈ store.matrices, ∀ rule ∈ matrix.rules, '|' ∉ rule.left :: rule.right)
    (line : Nat) (results : List (List Rule)) :
    readMatrices ⟨line, writeStore (.matrix store)⟩ = .ok results ↔
      results = store.matrices.map Matrix.rules ∧
        ∀ matrix ∈ store.matrices, ∀ rule ∈ matrix.rules, ¬ arrow <:+: rule.right := by
  have hpieces : ∀ piece ∈ (store.matrices.map Matrix.rules).map writeRules, '|' ∉ piece := by
    simp only [List.forall_mem_map]
    refine fun matrix hmatrix => not_mem_writeRules (by decide) fun rule hrule => ?_
    simpa [Rule.written] using hbar matrix hmatrix rule hrule
  have hkept : (store.matrices.map Matrix.rules).filter (· ≠ []) =
      store.matrices.map Matrix.rules := by
    refine List.filter_eq_self.mpr ?_
    simpa using store.inhabited
  have hread : ∀ value, ((store.matrices.map Matrix.rules).map writeRules).mapM (readRules line) =
      .ok value ↔ value = store.matrices.map Matrix.rules ∧
        ∀ matrix ∈ store.matrices, ∀ rule ∈ matrix.rules, ¬ arrow <:+: rule.right := by
    intro value
    have heach : ∀ rules ∈ store.matrices.map Matrix.rules, ∀ result,
        readRules line (writeRules rules) = .ok result ↔
          result = rules ∧ ∀ rule ∈ rules, ¬ arrow <:+: rule.right :=
      List.forall_mem_map.mpr fun matrix hmatrix =>
        readRules_writeRules_eq_ok_iff (h matrix hmatrix) line
    exact (Except.mapM_map_eq_ok_iff _ heach).trans (and_congr_right' List.forall_mem_map)
  have hwritten : writeStore (.matrix store) =
      Text.join " | ".toList ((store.matrices.map Matrix.rules).map writeRules) := by
    rw [List.map_map]
    rfl
  simp only [readMatrices, hwritten, mapM_readRules_splitOn (by simpa using hne) hpieces,
    Except.bind_eq_ok_iff, hread, pure, Except.pure, Except.ok.injEq]
  constructor
  · rintro ⟨_, ⟨rfl, hgood⟩, rfl⟩
    exact ⟨hkept, hgood⟩
  · rintro ⟨rfl, hgood⟩
    exact ⟨_, ⟨rfl, hgood⟩, hkept⟩

end LineForm
end BoundedDerivation
