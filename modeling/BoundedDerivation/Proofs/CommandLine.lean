import BoundedDerivation.CommandLine.Run
import BoundedDerivation.Proofs.Json.Reading
import BoundedDerivation.Proofs.Search.Guidance

/-! What a run of the command line prints. Its searches draw from one random source, each from where
the last one has left it, but whether they find anything does not depend on what they draw. So the
first of them speaks for all: a run that fails does so before it has printed a derivation. -/
namespace BoundedDerivation.CommandLine
open Randomness Search

/-- Words in a row, with an arrow from each to the next. -/
def inRow (words : List Word) : Text := " => ".toList.intercalate words

/-- Words in quotes, which are the one member of a JSON object. -/
def inObject (words : List Word) : Text :=
  ['\x7b'] ++ "\"words\"".toList ++ [':', '['] ++ [','].intercalate (words.map Json.Quoted.write) ++
    [']', '\x7d']

namespace Options

/-- The number of derivations asked for, which is one unless the options say something else. -/
def asked (options : Options) : Nat := (options.settings.lookup .count).getD 1

/-- The length asked for; zero stands for any length. -/
def askedLength (options : Options) : Nat := (options.settings.lookup .length).getD 0

/-- The bounds asked for. -/
def bounds (options : Options) : Config where
  maxDepth := (options.settings.lookup .maxDepth).getD 100
  maxLength := (options.settings.lookup .maxLength).getD 100
  strictMatrices := .strictMatrices ∈ options.flags

/-- Where the draws of a run begin: with the seed asked for, if there is one. -/
def drawsFrom (options : Options) (fresh : ChaCha) : ChaCha :=
  ((options.settings.lookup .seed).map fun seed => ChaCha.ofSeed seed.toUInt64).getD fresh

/-- The options name a file from which the grammar can be loaded under their bounds. -/
def Loads (options : Options) (read : Text → Except FileFault Text) (grammar : Grammar) : Prop :=
  ∃ path, options.file = some path ∧
    (GrammarFile.load path (read path) options.bounds).result = .ok grammar

/-- What is printed before the first search. -/
def opening (options : Options) (grammar : Grammar) : Text :=
  if .quiet ∈ options.flags then [] else grammar.display ++ "\n\n".toList

/-- What is printed for a derivation through the given words. It has a number only where there are
several. -/
def shown (options : Options) (number : Nat) (words : List Word) : Text :=
  if .json ∈ options.flags then inObject words ++ ['\n']
  else if 1 < options.asked then Nat.toDigits 10 number ++ ". ".toList ++ inRow words ++ ['\n']
  else "Derivation:\n".toList ++ inRow words ++ ['\n']

/-- One after the other, numbered from the given number on. -/
def shownFrom (options : Options) (number : Nat) (derivations : List Derivation) : Text :=
  (derivations.zipIdx number).flatMap fun (derivation, number) =>
    options.shown number derivation.words

/-- The message that there is nothing to print. -/
def refusal (options : Options) : Text :=
  "No word of ".toList ++
    (if options.askedLength = 0 then "any length".toList
      else "length ".toList ++ Nat.toDigits 10 options.askedLength) ++
    " is derivable within bounds.\n".toList

/-- A derivation that answers the request: it passes the check of the grammar, and if a length has
been asked for, its last word has that length. -/
structure Answers (options : Options) (grammar : Grammar) (derivation : Derivation) : Prop where
  checked : grammar.checkDerivation derivation = .ok ()
  fits : options.askedLength ≠ 0 → (derivation.words.getLastD []).length = options.askedLength
  /-- Where they are printed as JSON, the words can be read again. -/
  readable : Json.read (inObject derivation.words) =
    some (.object [("words".toList, .array (derivation.words.map .string))])

/-- The run has printed as many derivations as asked for, and nothing after them. -/
def ShowsDerivations (options : Options) (grammar : Grammar) (exit : Exit) : Prop :=
  ∃ derivations : List Derivation, derivations.length = options.asked ∧
    (∀ derivation ∈ derivations, options.Answers grammar derivation) ∧
    exit = ⟨0, options.opening grammar ++ options.shownFrom 1 derivations, []⟩

/-- The run has printed that there is no derivation, and no derivation before that. -/
def ShowsFailure (options : Options) (grammar : Grammar) (exit : Exit) : Prop :=
  exit = ⟨0, options.opening grammar ++ options.refusal, []⟩

/-- The two ask for the same, with whatever seeds or none. -/
structure SameButSeed (options other : Options) : Prop where
  file : other.file = options.file
  settings : ∀ setting, setting ≠ .seed →
    other.settings.lookup setting = options.settings.lookup setting
  flags : ∀ flag, flag ∈ other.flags ↔ flag ∈ options.flags

/-- There is something to find for the options. -/
def Answerable (options : Options) (grammar : Grammar) : Prop :=
  Solvable ⟨grammar, options.target⟩ (Problem.limit ⟨grammar, options.target⟩)
    (grammar.config.maxDepth + 1) grammar.startWord

end Options

/-- A run that asks for the same as the options ends so, with some seed or some fresh source. -/
def EndsIn (options : Options) (read : Text → Except FileFault Text) (exit : Exit) : Prop :=
  ∃ other fresh, options.SameButSeed other ∧ runOptions other read fresh = some exit

namespace Options

theorem has_iff (options : Options) (flag : Flag) : options.has flag ↔ flag ∈ options.flags :=
  List.contains_iff_mem

theorem config_eq_bounds (options : Options) : options.config = options.bounds := by
  have hstrict : options.has .strictMatrices = decide (.strictMatrices ∈ options.flags) :=
    Bool.eq_iff_iff.mpr ((options.has_iff _).trans decide_eq_true_iff.symm)
  rw [config, hstrict]
  rfl

theorem source_eq_drawsFrom (options : Options) (fresh : ChaCha) :
    options.source fresh = options.drawsFrom fresh := by
  unfold source drawsFrom get
  cases options.settings.lookup .seed <;> rfl

end Options

namespace Options.SameButSeed

variable {options other : Options} {σ : Type} [Source σ]

theorem refl (options : Options) : options.SameButSeed options :=
  ⟨rfl, fun _ _ => rfl, fun _ => Iff.rfl⟩

theorem get_eq (h : options.SameButSeed other) {setting : Setting} (hne : setting ≠ .seed) :
    other.get setting = options.get setting :=
  h.settings setting hne

theorem has_eq (h : options.SameButSeed other) (flag : Flag) : other.has flag = options.has flag :=
  Bool.eq_iff_iff.mpr (by simpa [has] using h.flags flag)

theorem config_eq (h : options.SameButSeed other) : other.config = options.config := by
  simp [config, h.get_eq, h.has_eq]

theorem target_eq (h : options.SameButSeed other) : other.target = options.target := by
  simp [target, h.get_eq]

theorem count_eq (h : options.SameButSeed other) : other.count = options.count := by
  simp [count, h.get_eq]

theorem line_eq (h : options.SameButSeed other) : other.line = options.line := by
  funext number derivation
  simp [line, h.has_eq, h.count_eq]

theorem deriveLines_eq (h : options.SameButSeed other) (grammar : Grammar) (number left : Nat)
    (source : σ) :
    deriveLines other grammar number left source =
      deriveLines options grammar number left source := by
  induction left generalizing number source with
  | zero => rfl
  | succ left ih => simp only [deriveLines, h.target_eq, h.line_eq, ih]

theorem report_eq (h : options.SameButSeed other) (grammar : Grammar) (source : σ) :
    report other grammar source = report options grammar source := by
  simp only [report, h.count_eq, h.deriveLines_eq, h.has_eq]

end Options.SameButSeed

theorem compact_encode (derivation : Derivation) :
    derivation.encode.compact = inObject derivation.words := by
  have hkey : Json.Quoted.write "words".toList = "\"words\"".toList := by decide
  have hwords : (derivation.words.map Json.string).map Json.compact =
      derivation.words.map Json.Quoted.write := by
    simp only [List.map_map, List.map_inj_left, Function.comp_apply, Json.compact, implies_true]
  rw [inObject, ← hkey, ← hwords]
  simp only [Derivation.encode, Json.compact, Json.compactMembers, Json.compactItems_eq_map,
    Text.join, List.intercalate_singleton, List.cons_append, List.append_assoc, List.nil_append]

/-- What stands in the object are the words themselves. -/
theorem read_inObject (words : List Word) :
    Json.read (inObject words) = some (.object [("words".toList, .array (words.map .string))]) := by
  rw [← compact_encode ⟨words⟩]
  refine Json.read_compact (.object fun member hmember => ?_)
  obtain rfl := List.mem_singleton.mp hmember
  refine .array fun item hitem => ?_
  obtain ⟨word, -, rfl⟩ := List.mem_map.mp hitem
  exact .string word

/-! What the lines of a run come to as texts. -/

section
variable (options : Options)

theorem Line.write_numbered (number : Nat) (derivation : Derivation) :
    (Line.numbered number derivation).write =
      Nat.toDigits 10 number ++ ". ".toList ++ inRow derivation.words ++ ['\n'] := rfl

theorem Line.write_derivation (derivation : Derivation) :
    (Line.derivation derivation).write =
      "Derivation:\n".toList ++ inRow derivation.words ++ ['\n'] := rfl

theorem Line.write_json (derivation : Derivation) :
    (Line.json derivation).write = inObject derivation.words ++ ['\n'] :=
  congrArg (· ++ ['\n']) (compact_encode derivation)

theorem Options.write_line (number : Nat) (derivation : Derivation) :
    (options.line number derivation).write = options.shown number derivation.words := by
  unfold line shown
  by_cases hjson : options.has .json
  · rw [if_pos hjson, if_pos ((options.has_iff _).mp hjson)]
    exact Line.write_json derivation
  · rw [if_neg hjson, if_neg (mt (options.has_iff _).mpr hjson)]
    change (if 1 < options.asked then _ else _ : Line).write = _
    split
    · exact Line.write_numbered number derivation
    · exact Line.write_derivation derivation

theorem toList_display_ofNat (length : Nat) :
    (Target.ofNat length).display.toList =
      if length = 0 then "any length".toList else "length ".toList ++ Nat.toDigits 10 length := by
  cases length with
  | zero => rfl
  | succ n =>
    change ("length " ++ toString (n + 1)).toList = "length ".toList ++ Nat.toDigits 10 (n + 1)
    rw [String.toList_append, Nat.toString_eq_repr, Nat.toList_repr]

theorem Options.write_failure : (Line.failure options.target).write = options.refusal := by
  have hdisplay := toList_display_ofNat options.askedLength
  have happend (a b c : String) : (a ++ b ++ c).toList = a.toList ++ b.toList ++ c.toList := by
    rw [String.toList_append, String.toList_append]
  unfold refusal
  rw [← hdisplay]
  exact happend _ _ _

end

section
variable {options : Options} {grammar : Grammar} {number left : Nat} {σ : Type} [Source σ]
  {source : σ} {lines : List Line}

theorem Options.answers_of_derive {outcome : Outcome σ} {derivation : Derivation}
    (h : grammar.derive options.target source = some outcome)
    (hd : outcome.derivation = some derivation) : options.Answers grammar derivation := by
  obtain ⟨⟨later, hwords, hcourse⟩, hchecked⟩ := Grammar.derivation_is_direct_course h hd
  refine ⟨hchecked rfl, fun hlength => ?_, read_inObject _⟩
  obtain ⟨n, hn⟩ := Nat.exists_eq_succ_of_ne_zero hlength
  have htarget : options.target = .exactly options.askedLength := by
    rw [hn]
    exact congrArg Target.ofNat hn
  have hfits := hcourse.ends.fits
  rw [htarget] at hfits
  rw [hwords, List.getLastD_cons]
  simpa [eq_comm] using hfits

theorem isSome_deriveLines (hs : grammar.CanDraw source) :
    (deriveLines options grammar number left source).isSome := by
  induction left generalizing number source with
  | zero => rfl
  | succ left ih =>
    obtain ⟨⟨derivation, later, events⟩, houtcome⟩ := Option.isSome_iff_exists.mp
      (grammar.isSome_deriveFrom grammar.startWord options.target hs)
    have hlater : grammar.DrawsTo source later := Grammar.drawsTo_of_deriveFrom houtcome
    cases derivation with
    | none => simp [deriveLines, Grammar.derive, houtcome]
    | some derivation =>
      simp only [deriveLines, Grammar.derive, houtcome, Option.isSome_map]
      exact ih (hs.of_drawsTo hlater)

/-- By induction on the searches that are left: each of them finds a derivation, since that does not
depend on where the one before it has left the source. -/
theorem deriveLines_of_answerable (ha : options.Answerable grammar)
    (h : deriveLines options grammar number left source = some lines) :
    ∃ derivations : List Derivation, derivations.length = left ∧
      (∀ derivation ∈ derivations, options.Answers grammar derivation) ∧
      lines.flatMap Line.write = options.shownFrom number derivations := by
  induction left generalizing number source lines with
  | zero =>
    cases h
    exact ⟨[], rfl, by simp, rfl⟩
  | succ left ih =>
    rw [deriveLines] at h
    split at h
    · cases h
    · rename_i houtcome
      have hsome := (Grammar.isSome_derivation_iff_solvable houtcome).mpr ha
      cases hsome
    · rename_i derivation later _ houtcome
      obtain ⟨rest, hrest, rfl⟩ := Option.map_eq_some_iff.mp h
      obtain ⟨derivations, hlength, hanswers, hshown⟩ := ih hrest
      have hfirst := Options.answers_of_derive houtcome rfl
      refine ⟨derivation :: derivations, by rw [List.length_cons, hlength],
        List.forall_mem_cons.mpr ⟨hfirst, hanswers⟩, ?_⟩
      rw [List.flatMap_cons, options.write_line, hshown]
      rfl

/-- The first search is the last one. -/
theorem deriveLines_of_not_answerable (ha : ¬options.Answerable grammar)
    (h : deriveLines options grammar number (left + 1) source = some lines) :
    lines = [.failure options.target] := by
  rw [deriveLines] at h
  split at h
  · cases h
  · cases h
    rfl
  · rename_i houtcome
    have hsolvable := (Grammar.isSome_derivation_iff_solvable houtcome).mp rfl
    exact absurd hsolvable ha

theorem report_eq_opening (options : Options) (grammar : Grammar) (source : σ) :
    (report options grammar source).map (·.flatMap Line.write) =
      (deriveLines options grammar 1 options.count source).map fun lines =>
        options.opening grammar ++ lines.flatMap Line.write := by
  unfold report Options.opening
  by_cases hquiet : options.has .quiet
  · rw [if_pos ((options.has_iff _).mp hquiet)]
    simp only [if_pos hquiet, Option.map_map]
    rfl
  · rw [if_neg (mt (options.has_iff _).mpr hquiet)]
    simp only [if_neg hquiet, Option.map_map]
    rfl

end

section
variable {options : Options} {read : Text → Except FileFault Text} {grammar : Grammar} {exit : Exit}

/-- A run on a file that loads comes down to its searches. -/
theorem runOptions_eq (hloads : options.Loads read grammar) {other : Options}
    (hsame : options.SameButSeed other) (fresh : ChaCha) :
    runOptions other read fresh =
      (deriveLines options grammar 1 options.asked (other.drawsFrom fresh)).map fun lines =>
        ⟨0, options.opening grammar ++ lines.flatMap Line.write, []⟩ := by
  obtain ⟨path, hfile, hload⟩ := hloads
  have hfile' : other.file = some path := hsame.file.trans hfile
  have hload' : (GrammarFile.load path (read path) other.config).result = .ok grammar := by
    rw [hsame.config_eq, options.config_eq_bounds, hload]
  have hreport := congrArg (Option.map Exit.success) <|
    report_eq_opening options grammar (other.drawsFrom fresh)
  simp only [Option.map_map] at hreport
  simp only [runOptions, hfile', hload', hsame.report_eq, other.source_eq_drawsFrom]
  exact hreport

theorem EndsIn.exists_deriveLines (h : EndsIn options read exit)
    (hloads : options.Loads read grammar) :
    ∃ (source : ChaCha) (lines : List Line),
      deriveLines options grammar 1 options.asked source = some lines ∧
        exit = ⟨0, options.opening grammar ++ lines.flatMap Line.write, []⟩ := by
  obtain ⟨other, fresh, hsame, hrun⟩ := h
  rw [runOptions_eq hloads hsame] at hrun
  obtain ⟨lines, hlines, hexit⟩ := Option.map_eq_some_iff.mp hrun
  exact ⟨_, lines, hlines, hexit.symm⟩

theorem EndsIn.showsDerivations (h : EndsIn options read exit)
    (hloads : options.Loads read grammar) (ha : options.Answerable grammar) :
    options.ShowsDerivations grammar exit := by
  obtain ⟨source, lines, hlines, hexit⟩ := h.exists_deriveLines hloads
  obtain ⟨derivations, hlength, hanswers, hshown⟩ := deriveLines_of_answerable ha hlines
  exact ⟨derivations, hlength, hanswers, by rw [hexit, hshown]⟩

theorem EndsIn.showsFailure (h : EndsIn options read exit) (hloads : options.Loads read grammar)
    (hasked : 1 ≤ options.asked) (ha : ¬options.Answerable grammar) :
    options.ShowsFailure grammar exit := by
  obtain ⟨source, lines, hlines, hexit⟩ := h.exists_deriveLines hloads
  obtain ⟨left, hleft⟩ := Nat.exists_eq_add_of_le' hasked
  rw [hleft] at hlines
  obtain rfl := deriveLines_of_not_answerable ha hlines
  rw [List.flatMap_singleton, options.write_failure] at hexit
  exact hexit

theorem Options.head?_refusal (options : Options) : options.refusal.head? = some 'N' := by
  have hfirst : "No word of ".toList = 'N' :: "o word of ".toList := by decide
  unfold refusal
  rw [hfirst]
  rfl

theorem Options.exists_head?_shown (options : Options) (words : List Word) :
    ∃ first, (options.shown 1 words).head? = some first ∧ first ≠ 'N' := by
  unfold shown
  split
  · exact ⟨'\x7b', rfl, by decide⟩
  · split
    · have hnumber : Nat.toDigits 10 1 = ['1'] := by decide
      rw [hnumber]
      exact ⟨'1', rfl, by decide⟩
    · have hfirst : "Derivation:\n".toList = 'D' :: "erivation:\n".toList := by decide
      rw [hfirst]
      exact ⟨'D', rfl, by decide⟩

/-- The first character tells the two apart. -/
theorem Options.ShowsDerivations.not_showsFailure (h : options.ShowsDerivations grammar exit)
    (hasked : 1 ≤ options.asked) : ¬options.ShowsFailure grammar exit := by
  obtain ⟨derivations, hlength, -, rfl⟩ := h
  obtain ⟨derivation, rest, rfl⟩ := List.exists_cons_of_length_pos (hlength ▸ hasked)
  intro hfailure
  have houtput : options.shown 1 derivation.words ++ options.shownFrom 2 rest = options.refusal :=
    List.append_cancel_left (congrArg Exit.output hfailure)
  obtain ⟨first, hfirst, hne⟩ := options.exists_head?_shown derivation.words
  have hhead := congrArg List.head? houtput
  rw [List.head?_append, hfirst, options.head?_refusal] at hhead
  exact hne (Option.some.inj hhead)

/-- All or nothing. A run on a grammar file that loads comes to an end, unless its random source
gives out. Either all such runs print as many derivations as asked for, whatever their seeds or fresh
sources are, or they all print the message that there is none, in place of the first one. -/
theorem run_all_or_nothing (hloads : options.Loads read grammar) (hasked : 1 ≤ options.asked) :
    (∀ other fresh, options.SameButSeed other → grammar.CanDraw (other.drawsFrom fresh) →
      (runOptions other read fresh).isSome) ∧
    ((∀ exit, EndsIn options read exit →
        options.ShowsDerivations grammar exit ∧ ¬options.ShowsFailure grammar exit) ∨
      ∀ exit, EndsIn options read exit →
        options.ShowsFailure grammar exit ∧ ¬options.ShowsDerivations grammar exit) := by
  constructor
  · intro other fresh hsame hdraws
    rw [runOptions_eq hloads hsame, Option.isSome_map]
    exact isSome_deriveLines hdraws
  by_cases ha : options.Answerable grammar
  · left
    intro exit hends
    have hshows := hends.showsDerivations hloads ha
    exact ⟨hshows, hshows.not_showsFailure hasked⟩
  · right
    intro exit hends
    have hshows := hends.showsFailure hloads hasked ha
    exact ⟨hshows, fun h => h.not_showsFailure hasked hshows⟩

end

/-- A search that is guided leaves the next one to where it leaves the source. -/
theorem deriveLines_of_guided {options : Options} {grammar : Grammar} {number left : Nat} {σ : Type}
    [Source σ] {source last : σ} {later : List Word}
    (hguided : Guided grammar source grammar.startWord later last)
    (hcourse : DirectCourse ⟨grammar, options.target⟩ grammar.startWord later) :
    deriveLines options grammar number (left + 1) source =
      (deriveLines options grammar (number + 1) left last).map
        (options.line number ⟨grammar.startWord :: later⟩ :: ·) := by
  obtain ⟨⟨derivation, source', events⟩, houtcome, rfl, rfl⟩ :=
    Grammar.deriveFrom_of_guided hguided hcourse
  simp only [deriveLines, Grammar.derive, houtcome]

/-- Each derivation takes one of two rules. -/
def coin : Grammar where
  alphabet := ⟨.ofList ['S'], .ofList ['a', 'b']⟩
  start := 'S'
  rules := .contextFree <| [⟨'S', ['a']⟩, ⟨'S', ['b']⟩].foldl .insert .empty
  config := {}

def coinDisk : Disk where
  entries := [(["srv".toList, "coin.txt".toList], .file (.ok "CFG\nS\na;b\nS->a;S->b\nS\n".toList))]
  working := ["home".toList]

def coinOptions : Options where
  file := some "../srv/coin.txt".toList
  settings := [(.seed, 3), (.length, 1), (.count, 2)]
  flags := [.quiet]

def coinArguments : List Text :=
  ["-qn2".toList, "--length=1".toList, "../srv/coin.txt".toList, "--seed".toList, "3".toList]

def coinExit : Exit := .success "1. S => a\n2. S => b\n".toList

/-- Where the draws for the first derivation end those for the second one begin, and they fall on the
other side. -/
theorem deriveLines_coin : deriveLines coinOptions coin 1 2 (ChaCha.ofSeed 3) =
    some [coinOptions.line 1 ⟨[['S'], ['a']]⟩, coinOptions.line 2 ⟨[['S'], ['b']]⟩] := by
  have hfirst : (coin.candidates ['S'] (ChaCha.ofSeed 3)).map (·.1) = some [['a'], ['b']] := by
    decide +kernel
  have hsecond : ((coin.candidates ['S'] (ChaCha.ofSeed 3)).bind fun (_, later) =>
      coin.candidates ['S'] later).map (·.1) = some [['b'], ['a']] := by decide +kernel
  obtain ⟨⟨_, later⟩, hdrawn, rfl⟩ := Option.map_eq_some_iff.mp hfirst
  rw [hdrawn, Option.bind_some] at hsecond
  obtain ⟨⟨_, last⟩, hdrawn', rfl⟩ := Option.map_eq_some_iff.mp hsecond
  rw [deriveLines_of_guided (.onward hdrawn .arrived)
      ⟨⟨by decide, by decide, by decide, by decide⟩, by decide⟩,
    deriveLines_of_guided (.onward hdrawn' .arrived)
      ⟨⟨by decide, by decide, by decide, by decide⟩, by decide⟩]
  rfl

theorem coin_prints_derivations :
    coinOptions.Loads coinDisk.read coin ∧ 1 ≤ coinOptions.asked ∧
      runOn coinDisk coinArguments (.ofSeed 0) = some (coinExit, coinDisk) ∧
      coinOptions.ShowsDerivations coin coinExit := by
  have hloads : coinOptions.Loads coinDisk.read coin :=
    ⟨"../srv/coin.txt".toList, rfl, by decide +kernel⟩
  have hrequest : Request.ofArguments coinArguments = some (.derive coinOptions) := by decide +kernel
  have hrun : runOptions coinOptions coinDisk.read (.ofSeed 0) = some coinExit := by
    rw [runOptions_eq hloads (.refl _)]
    change (deriveLines coinOptions coin 1 2 (ChaCha.ofSeed 3)).map _ = _
    rw [deriveLines_coin]
    decide +kernel
  have hends : EndsIn coinOptions coinDisk.read coinExit := ⟨_, _, .refl _, hrun⟩
  refine ⟨hloads, by decide, by simp only [runOn, hrequest, hrun, Option.map_some], ?_⟩
  rcases (run_all_or_nothing hloads (by decide)).2 with hderivations | hfailure
  · exact (hderivations _ hends).1
  · have houtput := congrArg Exit.output (hfailure _ hends).1
    exact absurd houtput (by decide +kernel)

end BoundedDerivation.CommandLine
