import BoundedDerivation.LineForm.Reader
import BoundedDerivation.Proofs.LineForm.Overlooking

/-! The contents of a text: its lines that count, trimmed. They are all that reading a grammar takes
from the text, apart from line numbers. The contents of lines put together are the contents of each,
and blanks at the ends of lines do not change them. -/
namespace BoundedDerivation.LineForm
open Text

/-- A line counts if something stands in it that does not start with a hash sign. -/
def counts (line : Text) : Bool := (line.find? (!isBlank ·)).any (· ≠ '#')

/-- What a line has to say. -/
def content (line : Text) : Option Text := if counts line then some (trim line) else none

def contents (text : Text) : List Text := (text.splitOn '\n').filterMap content

/-- A text of lines, with a line feed between one and the next. -/
def ofLines (lines : List Text) : Text := join ['\n'] lines

/-- A counting line and the lines before it. The rank says how many lines have counted so far. -/
structure StandsAt (rank : Nat) (earlier : List Text) (line : Text) : Prop where
  earlier_unbroken : ∀ l ∈ earlier, '\n' ∉ l
  line_unbroken : '\n' ∉ line
  counts : counts line
  rank_eq : earlier.countP LineForm.counts + 1 = rank

variable {text line : Text} {earlier later : List Text} {blank : Char}

theorem contents_append_feed (before after : Text) :
    contents (before ++ '\n' :: after) = contents before ++ contents after := by
  unfold contents
  rw [List.splitOn_append_cons_self, List.filterMap_append]

theorem contents_of_unbroken (h : '\n' ∉ line) : contents line = (content line).toList := by
  unfold contents
  rw [List.splitOn_eq_singleton h]
  cases hline : content line <;> simp [hline]

theorem contents_ofLines (lines : List Text) : contents (ofLines lines) = lines.flatMap contents := by
  unfold ofLines join
  induction lines with
  | nil => rfl
  | cons line more ih =>
    cases more with
    | nil => simp
    | cons second more =>
      rw [List.intercalate_cons_cons, List.append_assoc, List.singleton_append, contents_append_feed,
        ih, ← List.flatMap_cons]

theorem contents_ofLines_unbroken (h : ∀ l ∈ earlier, '\n' ∉ l) :
    contents (ofLines earlier) = earlier.filterMap content := by
  rw [contents_ofLines, List.filterMap_eq_flatMap_toList]
  exact List.flatMap_congr fun l hl => contents_of_unbroken (h l hl)

theorem length_filterMap_content (lines : List Text) :
    (lines.filterMap content).length = lines.countP counts := by
  induction lines with
  | nil => rfl
  | cons line lines ih =>
    cases hline : counts line <;> simp [content, hline, ih]

theorem StandsAt.contents_eq {rank : Nat} (h : StandsAt rank earlier line) (later : List Text) :
    contents (ofLines (earlier ++ line :: later)) =
      earlier.filterMap content ++ trim line :: contents (ofLines later) := by
  have hearlier := contents_ofLines_unbroken h.earlier_unbroken
  have hline : contents line = [trim line] := by
    rw [contents_of_unbroken h.line_unbroken, content, if_pos h.counts]
    rfl
  rw [contents_ofLines] at hearlier
  rw [contents_ofLines, contents_ofLines, List.flatMap_append, List.flatMap_cons, hearlier, hline,
    List.singleton_append]

section Blanks
variable (hblank : isBlank blank)
include hblank

theorem overlooks_counts (place : Text → Text → Prop) : Overlooks counts blank place :=
  (overlooks_find? hblank place).map _

theorem overlooks_content : Overlooks content blank AtEdge := by
  intro before after hplace
  unfold content
  rw [overlooks_counts hblank _ before after hplace, overlooks_trim hblank before after hplace]

theorem overlooks_contents (hne : blank ≠ '\n') :
    Overlooks contents blank fun before after => AtEdge before after ∨ Beside '\n' before after := by
  have hcontents : contents = fun text => ((text.splitOn '\n').map content).filterMap id := by
    funext text
    rw [List.filterMap_map]
    rfl
  rw [hcontents]
  refine ((overlooks_content hblank).map_splitOn hne ?_).map _
  rintro before after (h | h)
  · exact narrows_edge '\n' h
  · exact narrows_separator '\n' h

end Blanks

theorem head?_trim (text : Text) : (trim text).head? = text.find? (!isBlank ·) := by
  have hfind := Overlooks.apply_trim (f := List.find? (!isBlank ·))
    (fun blank hblank => overlooks_find? hblank AtEdge) text
  rw [← hfind]
  cases htrim : trim text with
  | nil => rfl
  | cons c rest => simp [not_isBlank_of_trim_eq_cons htrim]

theorem isSignificant_mk (number : Nat) (text : Text) :
    (⟨number, trim text⟩ : Line).isSignificant = counts text := by
  unfold Line.isSignificant counts
  rw [← head?_trim]
  cases trim text <;> simp

/-- A line feed that closes a text opens a line, but nothing stands in it. -/
theorem splitOn_eq_lines_append (text : Text) :
    ∃ tail, text.splitOn '\n' = lines text ++ tail ∧ tail.filterMap content = [] := by
  unfold lines
  dsimp only
  split
  · rename_i hlast
    obtain ⟨init, hinit⟩ := List.getLast?_eq_some_iff.mp hlast
    exact ⟨[[]], by rw [hinit, List.dropLast_concat], rfl⟩
  · exact ⟨[], (List.append_nil _).symm, rfl⟩

theorem contents_eq_filterMap_lines (text : Text) :
    contents text = (lines text).filterMap content := by
  obtain ⟨tail, hsplit, htail⟩ := splitOn_eq_lines_append text
  unfold contents
  rw [hsplit, List.filterMap_append, htail, List.append_nil]

theorem map_content_significant (text : Text) :
    (significant text).map Line.content = contents text := by
  rw [contents_eq_filterMap_lines]
  unfold significant
  generalize lines text = lines
  generalize 1 = start
  induction lines generalizing start with
  | nil => rfl
  | cons line lines ih =>
    rw [List.zipIdx_cons, List.map_cons, List.filter_cons, isSignificant_mk]
    cases hline : counts line <;> simp [content, hline, ih]

theorem exists_of_filter_isSignificant {lines : List Text} {start : Nat} {front back : List Line}
    {line : Line} (h : ((lines.zipIdx start).map fun l => (⟨l.2, trim l.1⟩ : Line)).filter
      Line.isSignificant = front ++ line :: back) :
    ∃ earlier l later, lines = earlier ++ l :: later ∧ counts l ∧
      earlier.countP counts = front.length ∧ line.number = start + earlier.length := by
  induction lines generalizing start front with
  | nil => simp at h
  | cons first lines ih =>
    rw [List.zipIdx_cons, List.map_cons, List.filter_cons, isSignificant_mk] at h
    cases hfirst : counts first with
    | false =>
      rw [hfirst, if_neg (by simp)] at h
      obtain ⟨earlier, l, later, rfl, hl, hcount, hnumber⟩ := ih h
      refine ⟨first :: earlier, l, later, rfl, hl, by simp [hfirst, hcount], ?_⟩
      rw [hnumber, List.length_cons]
      omega
    | true =>
      rw [if_pos hfirst] at h
      cases front with
      | nil =>
        obtain ⟨rfl, -⟩ := List.cons.inj h
        exact ⟨[], first, lines, rfl, hfirst, rfl, rfl⟩
      | cons _ front =>
        obtain ⟨earlier, l, later, rfl, hl, hcount, hnumber⟩ := ih (List.cons.inj h).2
        refine ⟨first :: earlier, l, later, rfl, hl, by simp [hfirst, hcount], ?_⟩
        rw [hnumber, List.length_cons]
        omega

/-- A line has its number from all lines before it and its place from those of them that count. -/
theorem exists_standsAt {front back : List Line} {line : Line}
    (h : significant text = front ++ line :: back) :
    ∃ earlier l later, StandsAt (front.length + 1) earlier l ∧
      text = ofLines (earlier ++ l :: later) ∧ line.number = earlier.length + 1 := by
  obtain ⟨earlier, l, later, hlines, hl, hcount, hnumber⟩ := exists_of_filter_isSignificant h
  obtain ⟨tail, hsplit, -⟩ := splitOn_eq_lines_append text
  have hpieces : text.splitOn '\n' = earlier ++ l :: (later ++ tail) := by
    rw [hsplit, hlines, List.append_assoc, List.cons_append]
  have hunbroken : ∀ piece ∈ earlier ++ l :: (later ++ tail), '\n' ∉ piece := by
    rw [← hpieces]
    exact fun piece => not_mem_of_mem_splitOn
  refine ⟨earlier, l, later ++ tail, ⟨?_, hunbroken l (by simp), hl, by rw [hcount]⟩, ?_, ?_⟩
  · exact fun piece hpiece => hunbroken piece (List.mem_append_left _ hpiece)
  · rw [← hpieces]
    exact (List.intercalate_splitOn '\n').symm
  · rw [hnumber, Nat.add_comm]

end BoundedDerivation.LineForm
