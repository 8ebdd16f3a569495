import Laminar.Command.Run
import Laminar.Proofs.Grove.Drawing

/-!
# Several files

A file is read, given a span and built on its own, so what a command makes of several files can be
told from what drawing each of them alone gives. Drawing them all puts these drawings one after the
other, each under its path, up to the first file that fails (`tree_several`). Checking them has a
line for every file and counts those that fail, so it succeeds if and only if drawing does
(`check_agrees_with_tree`).
-/

namespace Laminar.Command

variable (host : Host) (settings : Settings) (source : SpanSource)

/-! ## One file -/

/-- A file alone is drawn without its path, or it fails. -/
theorem tree_single (path : String) :
    (∃ coverage, coverageOf host settings source path = .ok coverage ∧
        tree host settings source [path] =
          { lines := [coverage.drawing settings.fragmentLabel] }) ∨
      ∃ failure, coverageOf host settings source path = .error failure ∧
        tree host settings source [path] = { lines := [], failure := some failure } := by
  unfold tree coverages
  rw [List.map_singleton]
  cases covered : coverageOf host settings source path with
  | ok coverage => exact .inl ⟨coverage, rfl, rfl⟩
  | error failure => exact .inr ⟨failure, rfl, rfl⟩

/-- A file is counted as failed if drawing it alone fails. -/
theorem failed_coverageOf (path : String) :
    failed (coverageOf host settings source path) =
      (tree host settings source [path]).failure.isSome := by
  obtain ⟨coverage, covered, drawn⟩ | ⟨failure, covered, drawn⟩ :=
    tree_single host settings source path
  · rw [covered, drawn]
    rfl
  · rw [covered, drawn]
    rfl

/-- Of a machine, only the text of the file and the length of the file that stands for the size
count. -/
theorem coverageOf_congr {other : Host} {path : String}
    (texts : other.read path = host.read path)
    (lengths : ∀ file ∈ source.file, other.length file = host.length file) :
    coverageOf other settings source path = coverageOf host settings source path := by
  have spans (tags : List Tag) : fileSpan other source tags = fileSpan host source tags := by
    obtain ⟨size, file⟩ := source
    cases size with
    | some size => rfl
    | none =>
      cases file with
      | none => rfl
      | some file =>
        show Except.map _ ((other.length file).mapError _) = _
        rw [lengths file rfl]
        rfl
  simp only [coverageOf, readTags, texts, spans]

/-- The same holds of several files. -/
theorem coverages_congr {other : Host} {paths : List String}
    (texts : ∀ path ∈ paths, other.read path = host.read path)
    (lengths : ∀ file ∈ source.file, other.length file = host.length file) :
    coverages other settings source paths = coverages host settings source paths :=
  List.map_congr_left fun path present =>
    congrArg (path, ·) (coverageOf_congr host settings source (texts path present) lengths)

/-! ## Drawing several files -/

/-- The position of the first file that cannot be drawn alone, the number of files if all can. -/
def firstFailed (paths : List String) : Nat :=
  paths.findIdx fun path => (tree host settings source [path]).failure.isSome

section Drawing

variable {host settings source} {headed : Bool} {path : String} {failure : Failure}

/-- After a file that can be drawn the first failure is one position further on. -/
theorem firstFailed_cons_of_drawn (drawn : (tree host settings source [path]).failure = none)
    (rest : List String) :
    firstFailed host settings source (path :: rest) =
      firstFailed host settings source rest + 1 := by
  rw [firstFailed, List.findIdx_cons, drawn]
  rfl

/-- If the first file cannot be drawn, its position is the first. -/
theorem firstFailed_cons_of_failed
    (refused : (tree host settings source [path]).failure = some failure) (rest : List String) :
    firstFailed host settings source (path :: rest) = 0 := by
  rw [firstFailed, List.findIdx_cons, refused]
  rfl

/-- One of several files that can be drawn gives its path and then what it gives alone. -/
theorem drawAll_cons_of_drawn (drawn : (tree host settings source [path]).failure = none)
    (rest : List String) :
    drawAll settings true (coverages host settings source (path :: rest)) =
      { drawAll settings true (coverages host settings source rest) with
        lines := path :: (tree host settings source [path]).lines ++
          (drawAll settings true (coverages host settings source rest)).lines } := by
  obtain ⟨coverage, covered, alone⟩ | ⟨failure, -, alone⟩ := tree_single host settings source path
  · rw [alone, coverages, List.map_cons, covered]
    rfl
  · rw [alone] at drawn
    contradiction

/-- A file that cannot be drawn ends the drawing with its failure. -/
theorem drawAll_cons_of_failed
    (refused : (tree host settings source [path]).failure = some failure) (rest : List String) :
    drawAll settings headed (coverages host settings source (path :: rest)) =
      { lines := [], failure := some failure } := by
  obtain ⟨coverage, -, alone⟩ | ⟨other, covered, alone⟩ := tree_single host settings source path
  · rw [alone] at refused
    contradiction
  · rw [alone] at refused
    cases refused
    rw [coverages, List.map_cons, covered]
    rfl

end Drawing

/-- Several files give what they give alone, each under its path, up to the first that fails. The
induction fixes the heading for all files, since `tree` chooses it by the number of paths, which is
another one for the rest of them. -/
theorem drawAll_eq (paths : List String) :
    drawAll settings true (coverages host settings source paths) =
      { lines := (paths.take (firstFailed host settings source paths)).flatMap fun path =>
          path :: (tree host settings source [path]).lines
        failure := paths[firstFailed host settings source paths]?.bind fun path =>
          (tree host settings source [path]).failure } := by
  induction paths with
  | nil => rfl
  | cons path rest later =>
    cases alone : (tree host settings source [path]).failure with
    | none =>
      rw [drawAll_cons_of_drawn alone, firstFailed_cons_of_drawn alone, later, List.take_succ_cons,
        List.flatMap_cons, List.getElem?_cons_succ]
    | some failure =>
      rw [drawAll_cons_of_failed alone, firstFailed_cons_of_failed alone, List.take_zero,
        List.getElem?_cons_zero, Option.bind_some, alone]
      rfl

/-- Nothing after a file that fails is drawn. -/
theorem drawAll_append {front : List (String × Except Failure Coverage)} {headed : Bool}
    (stops : ∃ result ∈ front, failed result.2 = true)
    (back : List (String × Except Failure Coverage)) :
    drawAll settings headed (front ++ back) = drawAll settings headed front := by
  induction front with
  | nil =>
    obtain ⟨result, present, -⟩ := stops
    contradiction
  | cons result rest later =>
    obtain ⟨path, covered⟩ := result
    cases covered with
    | error failure => rfl
    | ok coverage =>
      have stopsLater : ∃ result ∈ rest, failed result.2 = true := by
        obtain ⟨result, present, refused⟩ := stops
        obtain rfl | present := List.mem_cons.mp present
        · contradiction
        · exact ⟨result, present, refused⟩
      rw [List.cons_append, drawAll, drawAll, later stopsLater]

/-- All files are drawn if none of them fails. -/
theorem failure_drawAll_eq_none_iff (headed : Bool)
    (results : List (String × Except Failure Coverage)) :
    (drawAll settings headed results).failure = none ↔
      ∀ result ∈ results, failed result.2 = false := by
  induction results with
  | nil => exact iff_of_true rfl nofun
  | cons result rest later =>
    obtain ⟨path, covered⟩ := result
    rw [List.forall_mem_cons]
    cases covered with
    | error failure => exact iff_of_false nofun fun all => nomatch all.1
    | ok coverage => exact later.trans (and_iff_right rfl).symm

/-- Files are drawn if each of them can be drawn alone. -/
theorem failure_tree_eq_none_iff (paths : List String) :
    (tree host settings source paths).failure = none ↔
      ∀ path ∈ paths, (tree host settings source [path]).failure = none := by
  rw [tree, failure_drawAll_eq_none_iff, coverages, List.forall_mem_map]
  simp only [failed_coverageOf, Option.isSome_eq_false_iff, Option.isNone_iff_eq_none]

/-- Several files have headings. -/
theorem tree_of_several {paths : List String} (several : 1 < paths.length) :
    tree host settings source paths =
      drawAll settings true (coverages host settings source paths) := by
  rw [tree, decide_eq_true several]

/-- After a file that fails, neither further files nor the rest of the machine make a difference.
Both runs are that of the front, which ends with a failure on either machine. -/
theorem tree_append {other : Host} {front back later : List String}
    (stops : ∃ path ∈ front, (tree host settings source [path]).failure ≠ none)
    (texts : ∀ path ∈ front, other.read path = host.read path)
    (lengths : ∀ file ∈ source.file, other.length file = host.length file)
    (several : 1 < (front ++ back).length) (severalThere : 1 < (front ++ later).length) :
    tree other settings source (front ++ later) = tree host settings source (front ++ back) := by
  have same := coverages_congr host settings source texts lengths
  have refused : ∃ result ∈ coverages host settings source front, failed result.2 = true := by
    obtain ⟨path, present, fails⟩ := stops
    refine ⟨_, List.mem_map_of_mem present, ?_⟩
    rw [failed_coverageOf]
    exact Option.isSome_iff_ne_none.mpr fails
  rw [tree_of_several _ _ _ several, tree_of_several _ _ _ severalThere, coverages, coverages,
    List.map_append, List.map_append]
  calc
    _ = drawAll settings true (coverages other settings source front) :=
      drawAll_append settings (same ▸ refused) _
    _ = drawAll settings true (coverages host settings source front) := by rw [same]
    _ = _ := (drawAll_append settings refused _).symm

/-- Drawing several files gives what drawing each of them alone gives, under its path, up to the
first that fails, and fails as that one does. What comes after it makes no difference. -/
theorem tree_several {paths : List String} (several : 1 < paths.length) :
    let alone path := tree host settings source [path]
    let position := paths.findIdx fun path => (alone path).failure.isSome
    (tree host settings source paths).report.output =
        String.join ((paths.take position).map fun path =>
          path ++ "\n" ++ (alone path).report.output) ∧
      (tree host settings source paths).failure =
        (paths[position]?.bind fun path => (alone path).failure) ∧
      ((tree host settings source paths).failure = none ↔
        ∀ path ∈ paths, (alone path).failure = none) ∧
      ∀ (other : Host) (front back later : List String), paths = front ++ back →
        (∃ path ∈ front, (alone path).failure ≠ none) →
        (∀ path ∈ front, other.read path = host.read path) →
        (∀ file ∈ source.file, other.length file = host.length file) →
        1 < (front ++ later).length →
        tree other settings source (front ++ later) = tree host settings source paths := by
  intro alone position
  have drawn := drawAll_eq host settings source paths
  rw [← tree_of_several host settings source several] at drawn
  have output : (tree host settings source paths).report.output =
      Grove.joinLines ((paths.take position).flatMap fun path => path :: (alone path).lines) :=
    congrArg (fun outcome => outcome.report.output) drawn
  refine ⟨?_, congrArg Outcome.failure drawn, failure_tree_eq_none_iff host settings source paths,
    ?_⟩
  · rw [output, Grove.joinLines_flatMap]
    simp only [Grove.joinLines_cons]
    rfl
  · rintro other front back later rfl stops texts lengths severalThere
    exact tree_append host settings source stops texts lengths several severalThere

/-- A machine with a file that can be drawn, one that cannot, and what is found at all other
paths. -/
def twoFiles (elsewhere : Except FileFault String) : Host where
  read path :=
    if path = "good" then .ok "[0x0,0x4) raw a\n"
    else if path = "bad" then .ok "\nx\n"
    else elsewhere
  length _ := .error .missing
  present _ := true
  environment := []
  directory := "/"
  accountHome := "/"

/-- The second of three files cannot be drawn, so it makes no difference that the third is
missing. -/
theorem tree_several_secondBad :
    let host := twoFiles (.error .missing)
    let paths := ["good", "bad", "gone"]
    (tree host {} {} paths).report.output =
        "good\n[0x0,0x4) (4) root\n└── [0x0,0x4) (4) raw a\n\n" ∧
      (tree host {} {} paths).failure = some (.input "bad" (.malformedLine 2 "x" .shape)) ∧
      tree (twoFiles (.ok "")) {} {} ["good", "bad", "gone", "good"] =
        tree host {} {} paths := by
  intro host paths
  obtain ⟨output, failure, -, unread⟩ := tree_several host {} {} (show 1 < paths.length by decide)
  have good : (tree host {} {} ["good"]).failure = none := by decide +kernel
  have bad : (tree host {} {} ["bad"]).failure =
      some (.input "bad" (.malformedLine 2 "x" .shape)) := by
    decide
  have drawn : (tree host {} {} ["good"]).report.output =
      "[0x0,0x4) (4) root\n└── [0x0,0x4) (4) raw a\n\n" := by
    decide +kernel
  have position : (paths.findIdx fun path => (tree host {} {} [path]).failure.isSome) = 1 := by
    rw [List.findIdx_cons, good, List.findIdx_cons, bad]
    rfl
  rw [position] at output failure
  refine ⟨output.trans ?_, failure.trans bad, ?_⟩
  · show String.join ["good" ++ "\n" ++ (tree host {} {} ["good"]).report.output] = _
    rw [drawn]
    decide
  · refine unread _ ["good", "bad"] ["gone"] _ rfl ⟨"bad", by decide, ?_⟩ ?_ nofun (by decide)
    · rw [bad]
      exact Option.some_ne_none _
    · decide

/-! ## Checking several files -/

/-- The line about a checked file tells what drawing it alone gives: the counts of the coverage
that is drawn, or the failure. -/
inductive TellsOf (path : String) : String → Prop
  | drawn {coverage : Coverage} (covered : coverageOf host settings source path = .ok coverage)
      (alone : tree host settings source [path] =
        { lines := [coverage.drawing settings.fragmentLabel] }) :
      TellsOf path ("✓ " ++ path ++ ": " ++ Numeral.decimal coverage.nodeCount ++ " nodes, " ++
        Numeral.decimal coverage.fragmentCount ++ " fragments, depth " ++
        Numeral.decimal coverage.depth)
  | failed {failure : Failure} (covered : coverageOf host settings source path = .error failure)
      (alone : tree host settings source [path] = { lines := [], failure := some failure }) :
      TellsOf path ("✗ " ++ failure.message)

/-- The line for a file tells of it. -/
theorem tellsOf_checkLine (path : String) :
    TellsOf host settings source path (checkLine path (coverageOf host settings source path)) := by
  obtain ⟨coverage, covered, alone⟩ | ⟨failure, covered, alone⟩ :=
    tree_single host settings source path
  · rw [covered]
    exact .drawn covered alone
  · rw [covered]
    exact .failed covered alone

/-- Checking files prints a line for each of them. -/
theorem lines_check (paths : List String) :
    (check host settings source paths).lines =
      paths.map fun path => checkLine path (coverageOf host settings source path) := by
  rw [check, coverages]
  exact List.map_map

/-- In how many positions there are files that cannot be drawn alone. -/
def countFailed (paths : List String) : Nat :=
  paths.countP fun path => (tree host settings source [path]).failure.isSome

/-- No file is counted if all of them can be drawn alone. -/
theorem countFailed_eq_zero_iff (paths : List String) :
    countFailed host settings source paths = 0 ↔
      ∀ path ∈ paths, (tree host settings source [path]).failure = none := by
  rw [countFailed, List.countP_eq_zero]
  simp only [Bool.not_eq_true, Option.isSome_eq_false_iff, Option.isNone_iff_eq_none]

/-- Files are counted if one of them cannot be drawn alone. -/
theorem countFailed_pos_iff (paths : List String) :
    0 < countFailed host settings source paths ↔
      ∃ path ∈ paths, (tree host settings source [path]).failure ≠ none := by
  rw [countFailed, List.countP_pos_iff]
  simp only [Option.isSome_iff_ne_none]

/-- Checking files counts those that cannot be drawn alone. -/
theorem failure_check (paths : List String) :
    (check host settings source paths).failure =
      if countFailed host settings source paths = 0 then none
      else some (.check (countFailed host settings source paths) paths.length) := by
  have count : ((coverages host settings source paths).countP fun result => failed result.2) =
      countFailed host settings source paths := by
    rw [coverages, List.countP_map]
    exact congrArg (List.countP · paths) (funext (failed_coverageOf host settings source))
  rw [check, count]

/-- No failure has the exit code of success. -/
theorem Failure.exitCode_ne_zero (failure : Failure) : failure.exitCode ≠ 0 := by
  cases failure with
  | file path fault =>
    show fileCode fault.category ≠ 0
    cases fault.category <;> decide
  | _ => exact Nat.succ_ne_zero _

/-- A run exits with zero if it does not fail. -/
theorem exitCode_report_eq_zero_iff (outcome : Outcome) :
    outcome.report.exitCode = 0 ↔ outcome.failure = none := by
  obtain ⟨lines, failure⟩ := outcome
  cases failure with
  | none => exact iff_of_true rfl rfl
  | some failure => exact iff_of_false failure.exitCode_ne_zero nofun

/-- Checking files succeeds if drawing them does. -/
theorem exitCode_check_eq_zero_iff (paths : List String) :
    (check host settings source paths).report.exitCode = 0 ↔
      (tree host settings source paths).report.exitCode = 0 := by
  rw [exitCode_report_eq_zero_iff, exitCode_report_eq_zero_iff, failure_tree_eq_none_iff,
    failure_check, ← countFailed_eq_zero_iff]
  simp

/-- The same holds of a whole run, with the settings that it loads. -/
theorem exitCode_run_check_eq_zero_iff (invocation : Invocation) (paths : List String) :
    (run host { invocation with action := some (.check paths source) }).report.exitCode = 0 ↔
      (run host { invocation with action := some (.tree paths source) }).report.exitCode = 0 := by
  have same (action : Action) :
      settingsFor host { invocation with action := some action } = settingsFor host invocation :=
    rfl
  rw [run, run, same, same]
  cases settingsFor host invocation with
  | error failure => rfl
  | ok settings => exact exitCode_check_eq_zero_iff host settings source paths

/-- Checking files tells of each of them, in the order of the paths, what drawing it alone gives,
and fails with the number of those that fail if there are any. So it exits with zero if drawing all
of them does. -/
theorem check_agrees_with_tree (paths : List String) :
    List.Forall₂ (TellsOf host settings source) paths (check host settings source paths).lines ∧
      (∀ failure, (check host settings source paths).failure = some failure ↔
        (∃ path ∈ paths, (tree host settings source [path]).failure ≠ none) ∧
          failure = .check (countFailed host settings source paths) paths.length) ∧
      ((check host settings source paths).report.exitCode = 0 ↔
        (tree host settings source paths).report.exitCode = 0) ∧
      ∀ invocation : Invocation,
        (run host { invocation with action := some (.check paths source) }).report.exitCode = 0 ↔
          (run host { invocation with action := some (.tree paths source) }).report.exitCode =
            0 := by
  refine ⟨?_, fun failure => ?_, exitCode_check_eq_zero_iff host settings source paths,
    fun invocation => exitCode_run_check_eq_zero_iff host source invocation paths⟩
  · rw [lines_check, List.forall₂_map_right_iff, List.forall₂_same]
    exact fun path _ => tellsOf_checkLine host settings source path
  · rw [failure_check, ← countFailed_pos_iff]
    by_cases none : countFailed host settings source paths = 0
    · rw [if_pos none]
      exact iff_of_false nofun fun ⟨positive, _⟩ => Nat.ne_of_gt positive none
    · rw [if_neg none, Option.some_inj, and_iff_right (Nat.pos_of_ne_zero none)]
      exact eq_comm

end Laminar.Command
