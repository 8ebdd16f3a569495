import Mathlib.Data.List.Basic
import Laminar.Command.Run
import Laminar.Proofs.Outcome

/-!
# Layers of settings

The settings of an invocation come from two files, the environment and the options, in ascending
order. Each field is what the highest layer says that sets it (`Prevails`), and no field looks at
another one (`prevails_foldl`). A source that fails is not hidden by those above it: the lowest of
them gives the fault (`FirstFault`). Both are put together in `settingsFor_layers`.
-/

namespace Laminar.Settings

variable {host : Host} {path directory : String} {environment : List (String × String)}

/-! ## What the sources say -/

/-- What a file says: nothing if it is not there, and else what it holds. -/
inductive FileSays (host : Host) (path : String) : Layer → Prop
  | absent (missing : host.present path = false) : FileSays host path {}
  | found {text : String} {layer : Layer} (present : host.present path = true)
      (read : host.read path = .ok text) (holds : Layer.ofToml? text = some layer) :
      FileSays host path layer

/-- A file is there and cannot be read, or does not hold settings. -/
inductive FileFails (host : Host) (path : String) : Fault → Prop
  | unreadable {fault : FileFault} (present : host.present path = true)
      (read : host.read path = .error fault) : FileFails host path (.unreadable path fault)
  | malformed {text : String} (present : host.present path = true)
      (read : host.read path = .ok text) (holds : Layer.ofToml? text = none) :
      FileFails host path (.malformed path)

/-- The truth value that a variable names, in words that count alike in either case. -/
def Variable.truth? : Variable → Option Bool
  | .text value => Settings.truth? (Text.lower value)
  | _ => none

/-- The text of a variable. -/
def Variable.text? : Variable → Option String
  | .text value => some value
  | _ => none

/-- A variable with its text in lower case. -/
def Variable.lowered : Variable → Variable
  | .text value => .text (Text.lower value)
  | found => found

/-- The environment says something about gaps, and it is no truth value. -/
inductive TruthFails (environment : List (String × String)) : Fault → Prop
  | intro {found : Variable} (present : lookUp? environment "fill_gaps" = some found)
      (unknown : found.truth? = none) : TruthFails environment (.notBoolean found.lowered)

/-- The environment has a text about tags that hold no byte, and it is no policy's word, however its
ASCII letters are written. -/
inductive PolicyFails (environment : List (String × String)) : Fault → Prop
  | intro {word : String} (present : lookUp? environment "degenerate" = some (.text word))
      (reject : asciiLower word ≠ "reject") (skip : asciiLower word ≠ "skip") :
      PolicyFails environment (.unknownPolicy (asciiLower word))

/-- What the environment says, as far as it can be read. -/
def Layer.ambient (environment : List (String × String)) : Layer where
  fillGaps := (lookUp? environment "fill_gaps").bind Variable.truth?
  degenerate := ((lookUp? environment "degenerate").bind Variable.text?).bind fun word =>
    policy? (asciiLower word)
  fragmentLabel := (lookUp? environment "fragment_label").bind Variable.text?

/-- A file that does not fail says something. -/
theorem ofFile_eq_ok_iff {layer : Layer} :
    Layer.ofFile host path = .ok layer ↔ FileSays host path layer := by
  unfold Layer.ofFile
  constructor
  · intro told
    split at told
    · next present =>
      split at told
      · contradiction
      · next text read =>
        split at told
        · next found holds =>
          obtain rfl := Except.ok.inj told
          exact .found present read holds
        · contradiction
    · next missing =>
      obtain rfl := Except.ok.inj told
      exact .absent (Bool.eq_false_iff.mpr missing)
  · rintro (missing | ⟨present, read, holds⟩)
    · simp [missing]
    · simp [present, read, holds]

/-- A file fails if it is there and its text or its settings are not. -/
theorem ofFile_eq_error_iff {fault : Fault} :
    Layer.ofFile host path = .error fault ↔ FileFails host path fault := by
  unfold Layer.ofFile
  constructor
  · intro fails
    split at fails
    · next present =>
      split at fails
      · next read =>
        obtain rfl := Except.error.inj fails
        exact .unreadable present read
      · next text read =>
        split at fails
        · contradiction
        · next holds =>
          obtain rfl := Except.error.inj fails
          exact .malformed present read holds
    · contradiction
  · rintro (⟨present, read⟩ | ⟨present, read, holds⟩)
    · simp [present, read]
    · simp [present, read, holds]

/-- What the environment says about gaps is a truth value, or it fails. -/
theorem fillGapsOf_eq (environment : List (String × String)) :
    fillGapsOf environment =
      match lookUp? environment "fill_gaps" with
      | none => .ok none
      | some found =>
        match found.truth? with
        | some b => .ok (some b)
        | none => .error (.notBoolean found.lowered) := by
  unfold fillGapsOf
  cases lookUp? environment "fill_gaps" with
  | none => rfl
  | some found => cases found <;> rfl

/-- A text that the environment has about tags that hold no byte is a policy's word, or it fails. -/
theorem degenerateOf_eq (environment : List (String × String)) :
    degenerateOf environment =
      match (lookUp? environment "degenerate").bind Variable.text? with
      | none => .ok none
      | some word =>
        match policy? (asciiLower word) with
        | some policy => .ok (some policy)
        | none => .error (.unknownPolicy (asciiLower word)) := by
  unfold degenerateOf
  cases lookUp? environment "degenerate" with
  | none => rfl
  | some found => cases found <;> rfl

/-- The environment fails on gaps if it says something else than yes or no. -/
theorem fillGapsOf_eq_error_iff {fault : Fault} :
    fillGapsOf environment = .error fault ↔ TruthFails environment fault := by
  rw [fillGapsOf_eq]
  constructor
  · intro fails
    split at fails
    · contradiction
    · next found present =>
      split at fails
      · contradiction
      · next unknown =>
        obtain rfl := Except.error.inj fails
        exact .intro present unknown
  · rintro ⟨present, unknown⟩
    simp [present, unknown]

/-- What the environment says about gaps, if it does not fail. -/
theorem eq_of_fillGapsOf {said : Option Bool} (told : fillGapsOf environment = .ok said) :
    said = (Layer.ambient environment).fillGaps := by
  rw [fillGapsOf_eq] at told
  simp only [Layer.ambient]
  split at told
  · next absent => rw [absent, ← Except.ok.inj told, Option.bind_none]
  · next found present =>
    split at told
    · next b named => rw [present, Option.bind_some, named, ← Except.ok.inj told]
    · contradiction

/-- A word that stands for no policy is none of the two. -/
theorem policy?_eq_none_iff {word : String} :
    policy? word = none ↔ word ≠ "reject" ∧ word ≠ "skip" := by
  unfold policy?
  split
  · next reject => simp [reject]
  · next other => split <;> simp_all

/-- A variable has a text if it is one. -/
theorem text?_eq_some_iff {found : Option Variable} {word : String} :
    found.bind Variable.text? = some word ↔ found = some (.text word) := by
  cases found with
  | none => simp
  | some found => cases found <;> simp [Variable.text?]

/-- The environment fails on tags that hold no byte if it has a text that is no policy's word. -/
theorem degenerateOf_eq_error_iff {fault : Fault} :
    degenerateOf environment = .error fault ↔ PolicyFails environment fault := by
  rw [degenerateOf_eq]
  constructor
  · intro fails
    split at fails
    · contradiction
    · next word present =>
      split at fails
      · contradiction
      · next unknown =>
        obtain rfl := Except.error.inj fails
        obtain ⟨reject, skip⟩ := policy?_eq_none_iff.mp unknown
        exact .intro (text?_eq_some_iff.mp present) reject skip
  · rintro ⟨present, reject, skip⟩
    rw [text?_eq_some_iff.mpr present]
    simp [policy?_eq_none_iff.mpr ⟨reject, skip⟩]

/-- What the environment says about tags that hold no byte, if it does not fail. -/
theorem eq_of_degenerateOf {said : Option DegeneratePolicy}
    (told : degenerateOf environment = .ok said) :
    said = (Layer.ambient environment).degenerate := by
  rw [degenerateOf_eq] at told
  simp only [Layer.ambient]
  split at told
  · next absent => rw [absent, ← Except.ok.inj told, Option.bind_none]
  · next word present =>
    split at told
    · next policy named => rw [present, Option.bind_some, named, ← Except.ok.inj told]
    · contradiction

/-- The text that the environment has as the label of fragments. -/
theorem fragmentLabelOf_eq (environment : List (String × String)) :
    fragmentLabelOf environment = (Layer.ambient environment).fragmentLabel := by
  unfold fragmentLabelOf
  simp only [Layer.ambient]
  cases lookUp? environment "fragment_label" with
  | none => rfl
  | some found => cases found <;> rfl

/-- What the environment says, if it does not fail. -/
theorem eq_ambient_of_ofEnvironment {layer : Layer}
    (told : Layer.ofEnvironment environment = .ok layer) : layer = .ambient environment := by
  simp only [Layer.ofEnvironment, bind_eq_ok_iff] at told
  obtain ⟨gaps, truth, policy, word, made⟩ := told
  rw [← Except.ok.inj made, eq_of_fillGapsOf truth, eq_of_degenerateOf word, fragmentLabelOf_eq]

/-! ## The lowest fault -/

/-- The fault is that of the first source that fails. -/
def FirstFault (sources : List (Fault → Prop)) (fault : Fault) : Prop :=
  ∃ lower source higher, sources = lower ++ source :: higher ∧ source fault ∧
    ∀ other ∈ lower, ∀ found, ¬ other found

/-- The first fault is that of the first source, or of a later one if the first does not fail. -/
theorem firstFault_cons {source : Fault → Prop} {higher : List (Fault → Prop)} {fault : Fault} :
    FirstFault (source :: higher) fault ↔
      source fault ∨ (∀ found, ¬ source found) ∧ FirstFault higher fault := by
  constructor
  · rintro ⟨lower, other, rest, split, fails, before⟩
    cases lower with
    | nil =>
      obtain ⟨rfl, rfl⟩ := List.cons.inj split
      exact .inl fails
    | cons first lower =>
      obtain ⟨rfl, rfl⟩ := List.cons.inj split
      obtain ⟨here, later⟩ := List.forall_mem_cons.mp before
      exact .inr ⟨here, lower, other, rest, rfl, fails, later⟩
  · rintro (fails | ⟨here, lower, other, rest, rfl, fails, before⟩)
    · exact ⟨[], source, higher, rfl, fails, List.forall_mem_nil _⟩
    · exact ⟨source :: lower, other, rest, rfl, fails, List.forall_mem_cons.mpr ⟨here, before⟩⟩

/-- Without sources nothing fails. -/
theorem not_firstFault_nil (fault : Fault) : ¬ FirstFault [] fault := by
  rintro ⟨lower, source, higher, split, -⟩
  cases lower <;> contradiction

/-- There is a first fault if any source fails. -/
theorem exists_firstFault_iff {sources : List (Fault → Prop)} :
    (∃ fault, FirstFault sources fault) ↔ ∃ source ∈ sources, ∃ fault, source fault := by
  induction sources with
  | nil => simp [not_firstFault_nil]
  | cons source higher later =>
    simp only [firstFault_cons, exists_or, exists_and_left, later, List.exists_mem_cons_iff]
    by_cases fails : ∃ fault, source fault
    · simp [fails]
    · simp [not_exists.mp fails]

/-- The sources of settings that can fail, in ascending order. -/
def sources (host : Host) (directory : String) : List (Fault → Prop) :=
  [FileFails host (globalPath host), FileFails host (localPath directory),
    TruthFails host.environment, PolicyFails host.environment]

/-- The settings fail with the fault of the lowest source that fails. -/
theorem load_eq_error_iff {fault : Fault} :
    load host (some directory) = .error fault ↔ FirstFault (sources host directory) fault := by
  have reads (path : String) : (∃ layer, Layer.ofFile host path = .ok layer) ↔
      ∀ found, ¬ FileFails host path found := by
    simp only [exists_eq_ok_iff, ne_eq, ofFile_eq_error_iff]
  have told : (∃ said, fillGapsOf host.environment = .ok said) ↔
      ∀ found, ¬ TruthFails host.environment found := by
    simp only [exists_eq_ok_iff, ne_eq, fillGapsOf_eq_error_iff]
  simp only [load, Layer.ofEnvironment, sources, firstFault_cons, not_firstFault_nil,
    bind_eq_error_iff, ofFile_eq_error_iff, fillGapsOf_eq_error_iff, degenerateOf_eq_error_iff,
    exists_and_right, reads, told, pure, Except.pure, reduceCtorEq, and_false, or_false,
    exists_false]

/-! ## The highest layer -/

/-- A value is that of the highest of some layers in ascending order that sets the field, or the one
that stands without layers, if none of them sets it. -/
def Prevails {α : Type} (field : Layer → Option α) (unset : α) (layers : List Layer) (value : α) :
    Prop :=
  (∃ lower layer higher, layers = lower ++ layer :: higher ∧ field layer = some value ∧
      ∀ other ∈ higher, field other = none) ∨
    value = unset ∧ ∀ layer ∈ layers, field layer = none

/-- If a layer changes a field only by setting it, the highest that sets it prevails. -/
theorem prevails_foldl {α : Type} {field : Layer → Option α} {get : Settings → α}
    (sets : ∀ settings layer, get (overlay settings layer) = (field layer).getD (get settings))
    (settings : Settings) (layers : List Layer) :
    Prevails field (get settings) layers (get (layers.foldl overlay settings)) := by
  induction layers generalizing settings with
  | nil => exact .inr ⟨rfl, List.forall_mem_nil _⟩
  | cons layer higher later =>
    rw [List.foldl_cons]
    rcases later (overlay settings layer) with ⟨lower, top, rest, rfl, set, above⟩ | ⟨kept, above⟩
    · exact .inl ⟨layer :: lower, top, rest, rfl, set, above⟩
    · rw [sets] at kept
      cases here : field layer with
      | none =>
        rw [here, Option.getD_none] at kept
        exact .inr ⟨kept, List.forall_mem_cons.mpr ⟨here, above⟩⟩
      | some value =>
        rw [here, Option.getD_some] at kept
        exact .inl ⟨[], layer, higher, rfl, kept ▸ here, above⟩

/-- Each field is that of the highest layer that sets it. -/
structure Effective (layers : List Layer) (settings : Settings) : Prop where
  /-- Whether gaps are filled; they are if no layer says so. -/
  fillGaps : Prevails Layer.fillGaps true layers settings.fillGaps
  /-- What becomes of tags that hold no byte; they are refused if no layer says so. -/
  degenerate : Prevails Layer.degenerate .reject layers settings.degenerate
  /-- The label of fragments. -/
  fragmentLabel : Prevails Layer.fragmentLabel "fragment" layers settings.fragmentLabel

/-- Layers that go over the defaults one after the other are effective. -/
theorem effective_foldl (layers : List Layer) :
    Effective layers (layers.foldl overlay ({} : Settings)) where
  fillGaps := prevails_foldl (fun _ _ => rfl) _ _
  degenerate := prevails_foldl (fun _ _ => rfl) _ _
  fragmentLabel := prevails_foldl (fun _ _ => rfl) _ _

/-- Settings that are loaded are the defaults with what the sources say over them. -/
theorem of_load {settings : Settings} (loaded : load host (some directory) = .ok settings) :
    ∃ overall nearby, FileSays host (globalPath host) overall ∧
      FileSays host (localPath directory) nearby ∧
        settings = [overall, nearby, .ambient host.environment].foldl overlay {} := by
  simp only [load, bind_eq_ok_iff, ofFile_eq_ok_iff] at loaded
  obtain ⟨overall, first, nearby, second, ambient, third, made⟩ := loaded
  obtain rfl := eq_ambient_of_ofEnvironment third
  exact ⟨overall, nearby, first, second, (Except.ok.inj made).symm⟩

end Laminar.Settings

namespace Laminar.Command

open Settings

/-- What the options of an invocation set: they can only turn filling off and have tags that hold no
byte left out. -/
def Invocation.layer (invocation : Invocation) : Layer where
  fillGaps := if invocation.noFill then some false else none
  degenerate := if invocation.skipDegenerate then some .skip else none

/-- An invocation has no settings if and only if a file that is there cannot be read or holds none,
or the environment names no truth value or no policy. The failure is the one of the lowest of these
sources, whatever the sources above it and the options set. Otherwise each field is what the highest
layer says that sets it, from the global file over the local one and the environment to the
options, and its default if none does. -/
theorem settingsFor_layers (host : Host) (invocation : Invocation) :
    let directory := invocation.configDirectory.getD host.directory
    ((∃ failure, settingsFor host invocation = .error failure) ↔
        (∃ fault, FileFails host (globalPath host) fault) ∨
          (∃ fault, FileFails host (localPath directory) fault) ∨
            (∃ fault, TruthFails host.environment fault) ∨
              ∃ fault, PolicyFails host.environment fault) ∧
      (∀ failure, settingsFor host invocation = .error failure ↔
        ∃ fault, FirstFault (sources host directory) fault ∧ .settings fault = failure) ∧
      ∀ settings, settingsFor host invocation = .ok settings →
        ∃ overall nearby, FileSays host (globalPath host) overall ∧
          FileSays host (localPath directory) nearby ∧
            Effective [overall, nearby, .ambient host.environment, invocation.layer] settings := by
  intro directory
  have fails : ∀ failure, settingsFor host invocation = .error failure ↔
      ∃ fault, FirstFault (sources host directory) fault ∧ .settings fault = failure := by
    intro failure
    simp only [settingsFor, bind_eq_error_iff, mapError_eq_error_iff, load_eq_error_iff, pure,
      Except.pure, reduceCtorEq, and_false, exists_false, or_false]
    rfl
  refine ⟨?_, fails, fun settings made => ?_⟩
  · have first : (∃ fault, FirstFault (sources host directory) fault) ↔ _ := exists_firstFault_iff
    simp only [sources, List.mem_cons, List.not_mem_nil, or_false, exists_eq_or_imp,
      exists_eq_left] at first
    rw [← first]
    simp only [fails]
    constructor
    · rintro ⟨failure, fault, lowest, -⟩
      exact ⟨fault, lowest⟩
    · rintro ⟨fault, lowest⟩
      exact ⟨_, fault, lowest, rfl⟩
  · simp only [settingsFor, bind_eq_ok_iff, mapError_eq_ok_iff] at made
    obtain ⟨loaded, loads, made⟩ := made
    obtain ⟨overall, nearby, first, second, rfl⟩ := of_load loads
    obtain rfl := Except.ok.inj made
    exact ⟨overall, nearby, first, second, effective_foldl [overall, nearby, _, invocation.layer]⟩

/-- A machine with a global file of this text, a local one about the label alone and a variable that
sets the policy. -/
def contested (overall : String) : Host where
  read path :=
    if path = "/etc/finter/finter.toml" then .ok overall else .ok "fragment_label = \"nearby\"\n"
  length _ := .error .missing
  present _ := true
  environment := [("XDG_CONFIG_HOME", "/etc"), ("FINTER_DEGENERATE", "Reject")]
  directory := "/"
  accountHome := "/"

/-- Each field is decided by another layer than the global file, which sets them all. A fault of
that file counts all the same. -/
theorem settingsFor_layers_contested :
    let overall := "fill_gaps = true\ndegenerate = \"skip\"\nfragment_label = \"overall\"\n"
    let invocation : Invocation := ⟨some "/work", true, false, none⟩
    (settingsFor (contested overall) invocation = .ok ⟨false, .reject, "nearby"⟩ ∧
      ∃ first second, FileSays (contested overall) "/etc/finter/finter.toml" first ∧
        FileSays (contested overall) "/work/.finter.toml" second ∧
          Effective [first, second, .ambient (contested overall).environment, invocation.layer]
            ⟨false, .reject, "nearby"⟩) ∧
      settingsFor (contested "fill_gaps = 1\n") invocation =
        .error (.settings (.malformed "/etc/finter/finter.toml")) := by
  intro overall invocation
  have above (text : String) : globalPath (contested text) = "/etc/finter/finter.toml" := by
    show globalPath (contested "") = _
    decide
  have beside : localPath "/work" = "/work/.finter.toml" := by decide
  have made : settingsFor (contested overall) invocation = .ok ⟨false, .reject, "nearby"⟩ := by
    decide +kernel
  obtain ⟨-, -, effective⟩ := settingsFor_layers (contested overall) invocation
  obtain ⟨-, fails, -⟩ := settingsFor_layers (contested "fill_gaps = 1\n") invocation
  obtain ⟨first, second, global, near, fields⟩ := effective _ made
  have malformed : FileFails (contested "fill_gaps = 1\n") "/etc/finter/finter.toml"
      (.malformed "/etc/finter/finter.toml") := .malformed rfl rfl (by decide +kernel)
  refine ⟨⟨made, first, second, above overall ▸ global, beside ▸ near, fields⟩,
    (fails _).mpr ⟨_, ⟨[], _, _, rfl, ?_, List.forall_mem_nil _⟩, rfl⟩⟩
  rw [above]
  exact malformed

end Laminar.Command
