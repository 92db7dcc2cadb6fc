import BoundedDerivation.Proofs.LineForm.Blame
import BoundedDerivation.Proofs.LineForm.Contents
import Mathlib.Logic.Relation

/-! The layout of a grammar text. Reading takes no more than an outline from a text: five of its
contents, those of lists and rules cut into items. No change of layout touches the outline, so texts
that differ in layout are read alike, be it as a grammar or with an error. Only the line that an
error blames may be another one. -/
namespace BoundedDerivation.LineForm
open Text

/-- The changes of layout. Lines that do not count come and go, and so does all that follows five
lines that count. A line feed may follow a carriage return. Blanks come and go at both ends of
lines, beside the semicolons of the three lines in the middle, and beside the bars of a line of
matrices. -/
inductive Edit : Text → Text → Prop
  | insertLine {before after : List Text} {line : Text} (unbroken : '\n' ∉ line)
      (idle : counts line = false) :
      Edit (ofLines (before ++ after)) (ofLines (before ++ line :: after))
  | appendText {text more : Text} (complete : 5 ≤ (lines text).countP counts) :
      Edit text (text ++ '\n' :: more)
  | returnFeed {before after : Text} :
      Edit (before ++ '\n' :: after) (before ++ '\r' :: '\n' :: after)
  | atLineEnd {before after : Text} {blank : Char} (white : isBlank blank) (noFeed : blank ≠ '\n')
      (place : AtEdge before after ∨ Beside '\n' before after) :
      Edit (before ++ after) (before ++ blank :: after)
  | besideSemicolon {rank : Nat} {earlier later : List Text} {before after : Text} {blank : Char}
      (white : isBlank blank) (noFeed : blank ≠ '\n') (middle : rank ∈ [2, 3, 4])
      (stands : StandsAt rank earlier (before ++ after)) (place : Beside ';' before after) :
      Edit (ofLines (earlier ++ (before ++ after) :: later))
        (ofLines (earlier ++ (before ++ blank :: after) :: later))
  | besideBar {earlier later : List Text} {before after : Text} {blank : Char}
      (white : isBlank blank) (noFeed : blank ≠ '\n')
      (stands : StandsAt 4 earlier (before ++ after))
      (matrices : (earlier.find? counts).map readKind = some (.ok .matrix))
      (place : Beside '|' before after) :
      Edit (ofLines (earlier ++ (before ++ after) :: later))
        (ofLines (earlier ++ (before ++ blank :: after) :: later))

/-- What reading takes from the contents of a text. -/
inductive Outline where
  | few (found : Nat)
  | five (kind : Text) (nonterminals terminals : List Text) (rules : List (List Text)) (start : Text)

/-- The items of the rules, in the groups that bars make of them if they are rules of matrices. -/
def ruleItems (kind rules : Text) : List (List Text) :=
  match readKind kind with
  | .ok .matrix => (rules.splitOn '|').map (items ';')
  | _ => [items ';' rules]

def outline : List Text → Outline
  | kind :: nonterminals :: terminals :: rules :: start :: _ =>
    .five kind (items ';' nonterminals) (items ';' terminals) (ruleItems kind rules) start
  | few => .few few.length

section Outlines
variable {text other line : Text} {blank : Char}

theorem outline_append {first : List Text} (h : 5 ≤ first.length) (more : List Text) :
    outline (first ++ more) = outline first := by
  rcases first with _ | ⟨_, _ | ⟨_, _ | ⟨_, _ | ⟨_, _ | ⟨_, rest⟩⟩⟩⟩⟩
  case cons.cons.cons.cons.cons => rfl
  all_goals simp at h

/-- One of the three contents in the middle is only there for its items. -/
theorem outline_replace {earlier later : List Text} {old new : Text}
    (hmiddle : earlier.length + 1 ∈ [2, 3, 4])
    (hitems : earlier.length + 1 ≠ 4 → items ';' new = items ';' old)
    (hrules : ∀ kind ∈ earlier.head?, ruleItems kind new = ruleItems kind old) :
    outline (earlier ++ new :: later) = outline (earlier ++ old :: later) := by
  -- whether there are five contents does not depend on the one that is replaced
  match earlier with
  | [_] =>
    have h := hitems (by simp)
    rcases later with _ | ⟨_, _ | ⟨_, _ | ⟨_, later⟩⟩⟩ <;> simp [outline, h]
  | [_, _] =>
    have h := hitems (by simp)
    rcases later with _ | ⟨_, _ | ⟨_, later⟩⟩ <;> simp [outline, h]
  | [kind, _, _] =>
    have h := hrules kind rfl
    rcases later with _ | ⟨_, later⟩ <;> simp [outline, h]
  | [] | _ :: _ :: _ :: _ :: _ => simp at hmiddle

section
variable (hblank : isBlank blank) (kind : Text)
include hblank

theorem overlooks_ruleItems_edge : Overlooks (ruleItems kind) blank AtEdge := by
  have hitems := overlooks_items_edge hblank (by decide : isBlank ';' = false)
  unfold ruleItems
  split
  · exact hitems.map_splitOn (blank_ne hblank (by decide)) (narrows_edge '|')
  · exact hitems.map ([·])

theorem overlooks_ruleItems_semicolon : Overlooks (ruleItems kind) blank (Beside ';') := by
  have hitems := overlooks_items_separator hblank (by decide : isBlank ';' = false)
  unfold ruleItems
  split
  · exact hitems.map_splitOn (blank_ne hblank (by decide)) (narrows_mark (by decide))
  · exact hitems.map ([·])

theorem overlooks_ruleItems_bar (hkind : readKind kind = .ok .matrix) :
    Overlooks (ruleItems kind) blank (Beside '|') := by
  have hitems := overlooks_items_edge hblank (by decide : isBlank ';' = false)
  unfold ruleItems
  rw [hkind]
  exact hitems.map_splitOn (blank_ne hblank (by decide)) (narrows_separator '|')

theorem StandsAt.insert_blank {rank : Nat} {earlier : List Text} {before after : Text}
    (h : StandsAt rank earlier (before ++ after)) (noFeed : blank ≠ '\n') :
    StandsAt rank earlier (before ++ blank :: after) where
  earlier_unbroken := h.earlier_unbroken
  line_unbroken := by
    have hline := h.line_unbroken
    simp only [List.mem_append, List.mem_cons, not_or] at hline ⊢
    exact ⟨hline.1, noFeed.symm, hline.2⟩
  counts := by
    rw [overlooks_counts hblank (fun _ _ => True) before after trivial]
    exact h.counts
  rank_eq := h.rank_eq

end

theorem items_trim (text : Text) : items ';' (trim text) = items ';' text :=
  Overlooks.apply_trim (fun _ hblank => overlooks_items_edge hblank (by decide)) text

theorem ruleItems_trim (kind text : Text) : ruleItems kind (trim text) = ruleItems kind text :=
  Overlooks.apply_trim (fun _ hblank => overlooks_ruleItems_edge hblank kind) text

theorem readKind_trim (text : Text) : readKind (trim text) = readKind text := by
  have htrim : trim (trim text) = trim text :=
    Overlooks.apply_trim (fun _ hblank => overlooks_trim hblank) text
  unfold readKind
  rw [htrim]

theorem head?_filterMap_content (lines : List Text) :
    (lines.filterMap content).head? = (lines.find? counts).map trim := by
  induction lines with
  | nil => rfl
  | cons line lines ih => cases hline : counts line <;> simp [content, hline, ih]

theorem Edit.outline_eq (h : Edit text other) :
    outline (contents other) = outline (contents text) := by
  cases h with
  | @insertLine before after line unbroken idle =>
    have hline : contents line = [] := by
      rw [contents_of_unbroken unbroken, content, idle]
      rfl
    rw [contents_ofLines, contents_ofLines, List.flatMap_append, List.flatMap_append,
      List.flatMap_cons, hline, List.nil_append]
  | appendText complete =>
    rw [contents_append_feed]
    refine outline_append ?_ _
    rw [contents_eq_filterMap_lines, length_filterMap_content]
    exact complete
  | @returnFeed before after =>
    exact congrArg outline
      (overlooks_contents (by decide) (by decide) before ('\n' :: after) (.inr (.inr rfl)))
  | atLineEnd hblank noFeed hplace =>
    exact congrArg outline (overlooks_contents hblank noFeed _ _ hplace)
  | besideSemicolon hblank noFeed hmiddle hstands hplace =>
    rw [(hstands.insert_blank hblank noFeed).contents_eq, hstands.contents_eq]
    rw [← hstands.rank_eq, ← length_filterMap_content] at hmiddle
    refine outline_replace hmiddle (fun _ => ?_) fun kind _ => ?_
    · rw [items_trim, items_trim]
      exact overlooks_items_separator hblank (by decide) _ _ hplace
    · rw [ruleItems_trim, ruleItems_trim]
      exact overlooks_ruleItems_semicolon hblank kind _ _ hplace
  | @besideBar earlier later before after blank hblank noFeed hstands hmatrices hplace =>
    rw [(hstands.insert_blank hblank noFeed).contents_eq, hstands.contents_eq]
    have hrank : (earlier.filterMap content).length + 1 = 4 := by
      rw [length_filterMap_content]
      exact hstands.rank_eq
    refine outline_replace (by simp [hrank]) (fun hne => absurd hrank hne) fun kind hkind => ?_
    rw [head?_filterMap_content] at hkind
    obtain ⟨line, hfind, rfl⟩ := Option.map_eq_some_iff.mp hkind
    rw [hfind] at hmatrices
    have hmatrix : readKind (trim line) = .ok .matrix := by
      rw [readKind_trim]
      exact Option.some.inj hmatrices
    rw [ruleItems_trim, ruleItems_trim]
    exact overlooks_ruleItems_bar hblank _ hmatrix _ _ hplace

theorem outline_eq_of_edits (h : Relation.EqvGen Edit text other) :
    outline (contents text) = outline (contents other) := by
  induction h with
  | rel _ _ hedit => exact hedit.outline_eq.symm
  | refl => rfl
  | symm _ _ _ ih => exact ih.symm
  | trans _ _ _ _ _ ih ih' => exact ih.trans ih'

end Outlines

section Reading
variable {text other : Text} {config : Config}

theorem readMatrices_eq (line : Line) :
    readMatrices line = (do
      let matrices ←
        ((line.content.splitOn '|').map (items ';')).mapM (·.mapM (readRule line.number))
      return matrices.filter (· ≠ [])) := by
  rw [List.mapM_map]
  rfl

/-- What an outline leaves out makes no difference to a draft. -/
theorem sameOutcome_readDraft {kind nonterminals terminals rules start : Line}
    {kind' nonterminals' terminals' rules' start' : Line} (hkind : kind.content = kind'.content)
    (hnonterminals : items ';' nonterminals.content = items ';' nonterminals'.content)
    (hterminals : items ';' terminals.content = items ';' terminals'.content)
    (hrules : ruleItems kind.content rules.content = ruleItems kind'.content rules'.content)
    (hstart : start.content = start'.content) :
    SameOutcome (readDraft kind nonterminals terminals rules start config)
      (readDraft kind' nonterminals' terminals' rules' start' config) := by
  -- the first four steps are the same, and only the rules are read with a line number
  have hread := sameOutcome_readRule rules.number rules'.number
  unfold readDraft readSymbols
  rw [hkind] at hrules
  rw [hkind, hnonterminals, hterminals, hstart]
  refine .bind_self fun kind hk => ?_
  refine .bind_self fun _ _ => .bind_self fun _ _ => .bind_self fun _ _ => ?_
  unfold ruleItems at hrules
  rw [hk] at hrules
  cases kind with
  | contextFree =>
    dsimp only at hrules ⊢
    obtain ⟨hitems, -⟩ := List.cons.inj hrules
    unfold readRules
    rw [hitems]
    exact (SameOutcome.mapM hread _).bind fun _ => rfl
  | matrix =>
    dsimp only at hrules ⊢
    rw [readMatrices_eq, readMatrices_eq, hrules]
    have hmatrices := SameOutcome.mapM (fun group => SameOutcome.mapM hread group)
      ((rules'.content.splitOn '|').map (items ';'))
    exact (hmatrices.bind fun _ => rfl).bind fun _ => rfl

/-- A text is either read as a draft, from lines that its outline is made of, or it is too short. -/
theorem read_cases (text : Text) (config : Config) :
    (∃ kind nonterminals terminals rules start later,
        significant text = kind :: nonterminals :: terminals :: rules :: start :: later ∧
          outline (contents text) = .five kind.content (items ';' nonterminals.content)
            (items ';' terminals.content) (ruleItems kind.content rules.content) start.content ∧
          read text config =
            .ofExcept (readDraft kind nonterminals terminals rules start config) >>= Draft.build) ∨
      ∃ found, outline (contents text) = .few found ∧
        read text config = .fail (.tooFewLines (lines text).length found) := by
  rw [← map_content_significant]
  unfold read
  rcases significant text with
    _ | ⟨kind, _ | ⟨nonterminals, _ | ⟨terminals, _ | ⟨rules, _ | ⟨start, later⟩⟩⟩⟩⟩
  case cons.cons.cons.cons.cons =>
    exact .inl ⟨kind, nonterminals, terminals, rules, start, later, rfl, rfl, rfl⟩
  all_goals exact .inr ⟨_, rfl, rfl⟩

theorem sameOutcome_read (h : outline (contents text) = outline (contents other)) (config : Config) :
    (read text config).events = (read other config).events ∧
      SameOutcome (read text config).result (read other config).result := by
  rcases read_cases text config with
    ⟨kind, nonterminals, terminals, rules, start, _, -, hfive, hread⟩ | ⟨found, hfew, hread⟩ <;>
  rcases read_cases other config with
    ⟨kind', nonterminals', terminals', rules', start', _, -, hfive', hread'⟩ | ⟨found', hfew', hread'⟩
  · rw [hfive, hfive'] at h
    injection h with hkind hnonterminals hterminals hrules hstart
    rw [hread, hread']
    exact (sameOutcome_readDraft hkind hnonterminals hterminals hrules hstart).checked_bind _
  · rw [hfive, hfew'] at h
    cases h
  · rw [hfew, hfive'] at h
    cases h
  · rw [hfew, hfew'] at h
    injection h with hfound
    rw [hread, hread', hfound]
    exact ⟨rfl, rfl⟩

/-- A malformed rule is blamed on the fourth line that counts. -/
theorem exists_standsAt_of_malformed {number : Nat} {item : Text}
    (h : (read text config).result = .error (.malformedRule number item)) :
    ∃ earlier line later, StandsAt 4 earlier line ∧ text = ofLines (earlier ++ line :: later) ∧
      number = earlier.length + 1 := by
  rcases read_cases text config with
    ⟨kind, nonterminals, terminals, rules, start, later, hlines, -, hread⟩ | ⟨found, -, hread⟩
  · have hblames : Blames (some rules.number) (read text config).result := by
      rw [hread]
      exact .checked_bind (blames_readDraft _ _ _ _ _ _) fun draft => draft.blames_build.of_none
    have hnumber : number = rules.number := by
      rcases hblames _ h with hnone | hsome
      · cases hnone
      · exact Option.some.inj hsome
    have hsplit : significant text =
        [kind, nonterminals, terminals] ++ rules :: start :: later := hlines
    rw [hnumber]
    exact exists_standsAt hsplit
  · rw [hread] at h
    cases h

/-- Texts that differ in layout only are read as the same grammar or with the same error, up to the
number of the line that it blames. A malformed rule is blamed on the fourth line that counts. -/
theorem layout_does_not_matter (h : Relation.EqvGen Edit text other) (config : Config) :
    (read text config).events = (read other config).events ∧
      (read text config).result.mapError GrammarError.unnumbered =
        (read other config).result.mapError GrammarError.unnumbered ∧
      ∀ number item, (read text config).result = .error (.malformedRule number item) →
        ∃ earlier line later, StandsAt 4 earlier line ∧ text = ofLines (earlier ++ line :: later) ∧
          number = earlier.length + 1 := by
  obtain ⟨hevents, hresult⟩ := sameOutcome_read (outline_eq_of_edits h) config
  exact ⟨hevents, hresult, fun number item => exists_standsAt_of_malformed⟩

end Reading

/-- A text of matrices with a malformed rule, and the same with another layout. -/
def tidy : Text :=
  ofLines ["MG".toList, "S;A".toList, "a".toList, "S->A;A->a|A>a".toList, "S".toList]

def loose : Text :=
  ofLines ["MG\r".toList, " # sides".toList, "S ;A".toList, "a".toList, "S->A;A->a| A>a".toList,
    "S".toList] ++ "\nmore".toList

theorem layout_of_malformed_matrices :
    Relation.EqvGen Edit tidy loose ∧
      (read tidy {}).result = .error (.malformedRule 4 "A>a".toList) ∧
      (read loose {}).result = .error (.malformedRule 5 "A>a".toList) ∧
      (read tidy {}).result.mapError GrammarError.unnumbered =
        (read loose {}).result.mapError GrammarError.unnumbered ∧
      ∃ earlier line later, StandsAt 4 earlier line ∧ loose = ofLines (earlier ++ line :: later) ∧
        5 = earlier.length + 1 := by
  have hfeed : Edit tidy _ := @Edit.returnFeed "MG".toList
    (ofLines ["S;A".toList, "a".toList, "S->A;A->a|A>a".toList, "S".toList])
  have hline := @Edit.insertLine ["MG\r".toList]
    ["S;A".toList, "a".toList, "S->A;A->a|A>a".toList, "S".toList] " # sides".toList (by decide) rfl
  have hsymbols : StandsAt 2 ["MG\r".toList, " # sides".toList] ("S".toList ++ ";A".toList) :=
    ⟨by decide, by decide, by decide, by decide⟩
  have hsemicolon := @Edit.besideSemicolon 2 _
    ["a".toList, "S->A;A->a|A>a".toList, "S".toList] _ _ ' ' (by decide) (by decide) (by decide)
    hsymbols (.inr rfl)
  have hrules : StandsAt 4 ["MG\r".toList, " # sides".toList, "S ;A".toList, "a".toList]
      ("S->A;A->a|".toList ++ "A>a".toList) :=
    ⟨by decide, by decide, by decide, by decide⟩
  have hbar := @Edit.besideBar _ ["S".toList] _ _ ' ' (by decide) (by decide) hrules (by decide)
    (.inl rfl)
  have hmore : Edit _ loose := @Edit.appendText _ "more".toList (by decide)
  have hedits : Relation.EqvGen Edit tidy loose :=
    ((((Relation.EqvGen.rel _ _ hfeed).trans _ _ _ (.rel _ _ hline)).trans _ _ _
      (.rel _ _ hsemicolon)).trans _ _ _ (.rel _ _ hbar)).trans _ _ _ (.rel _ _ hmore)
  have htidy : (read tidy {}).result = .error (.malformedRule 4 "A>a".toList) := by decide
  have hloose : (read loose {}).result = .error (.malformedRule 5 "A>a".toList) := by decide
  obtain ⟨-, hresult, -⟩ := layout_does_not_matter hedits {}
  obtain ⟨-, -, hplace⟩ := layout_does_not_matter hedits.symm {}
  exact ⟨hedits, htidy, hloose, hresult, hplace 5 _ hloose⟩

end BoundedDerivation.LineForm
