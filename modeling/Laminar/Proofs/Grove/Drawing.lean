import Mathlib.Data.List.Forall2
import Mathlib.Logic.Relation
import Laminar.Grove.Drawing
import Laminar.Proofs.Grove.Links
import Laminar.Proofs.Text

/-!
# Trees read off a drawing

The labels of a grove with their depths, in the order of the labels, determine the grove
(`eq_of_indented_eq`). A printer that draws every label on a line of its own, after four characters
for each label above it (`Draws`), shows both. So where each text begins with an opening bracket and
no other character of a line before the text is one, the tree can be read off what is printed
(`Draws.tree_eq`).
-/

namespace Laminar.Grove

variable {α : Type}

/-! ## Depths -/

/-- The labels of a grove that lies at a depth, each with its own depth, in the order of
`labels`. -/
def indented (depth : Nat) : Grove α → List (Nat × α)
  | nil => []
  | node label below beside =>
    (depth, label) :: (below.indented (depth + 1) ++ beside.indented depth)

/-- No label lies higher than the grove. -/
theorem le_of_mem_indented (depth : Nat) (g : Grove α) :
    ∀ entry ∈ g.indented depth, depth ≤ entry.1 := by
  induction g generalizing depth with
  | nil => exact List.forall_mem_nil _
  | node label below beside inner later =>
    refine List.forall_mem_cons.mpr ⟨Nat.le_refl depth, ?_⟩
    refine List.forall_mem_append.mpr ⟨?_, later depth⟩
    exact fun entry present => Nat.le_of_succ_le (inner (depth + 1) entry present)

/-- The first label lies at the depth of the grove. -/
theorem head_indented (depth : Nat) (g : Grove α) :
    ∀ entry ∈ (g.indented depth).head?, entry.1 = depth := by
  cases g with
  | nil => exact fun _ none => absurd none (by simp [indented])
  | node label below beside => exact fun _ first => congrArg Prod.fst (Option.some.inj first).symm

/-- A grove can be read off its labels with their depths. What lies below a label ends where the
depth is that of the label again. -/
theorem eq_of_indented_eq {depth : Nat} {g other : Grove α}
    (same : g.indented depth = other.indented depth) : g = other := by
  induction g generalizing depth other with
  | nil =>
    cases other with
    | nil => rfl
    | node => contradiction
  | node label below beside inner later =>
    cases other with
    | nil => contradiction
    | node otherLabel otherBelow otherBeside =>
      obtain ⟨first, rest⟩ := List.cons.inj same
      obtain rfl := congrArg Prod.snd first
      have deeper (g : Grove α) :
          ∀ entry ∈ g.indented (depth + 1), decide (depth < entry.1) = true :=
        fun entry present => decide_eq_true (le_of_mem_indented (depth + 1) g entry present)
      have back (g : Grove α) :
          ∀ entry ∈ (g.indented depth).head?, decide (depth < entry.1) = false :=
        fun entry first => decide_eq_false (Nat.not_lt_of_le (head_indented depth g entry first).le)
      obtain ⟨lower, right⟩ :=
        Text.span_unique rest (deeper below) (back beside) (deeper otherBelow) (back otherBeside)
      rw [inner lower, later right]

/-- The depth of a label is the number of those above it. -/
theorem map_placesBelow_eq_indented (above : List α) (g : Grove α) :
    (g.placesBelow above).map (fun place => (place.above.length, place.label)) =
      g.indented above.length := by
  induction g generalizing above with
  | nil => rfl
  | node label below beside inner later =>
    rw [placesBelow, indented, List.map_cons, List.map_append, inner, later, List.length_cons]

/-- The depths are counted from the top. -/
theorem map_places_eq_indented (g : Grove α) :
    g.places.map (fun place => (place.above.length, place.label)) = g.indented 0 :=
  map_placesBelow_eq_indented [] g

/-! ## Lines -/

/-- A text is on one line and begins with an opening bracket. -/
structure Bracketed (text : String) : Prop where
  /-- It begins with the bracket. -/
  opens : ∃ rest, text.toList = '[' :: rest
  /-- It has no line feed. -/
  single : '\n' ∉ text.toList

/-- Joined lines begin with the first one. -/
theorem joinLines_cons (line : String) (lines : List String) :
    joinLines (line :: lines) = line ++ "\n" ++ joinLines lines :=
  String.join_cons

/-- Lines in groups are joined group by group. -/
theorem joinLines_flatMap {α : Type} (groups : List α) (lines : α → List String) :
    joinLines (groups.flatMap lines) =
      String.join (groups.map fun group => joinLines (lines group)) := by
  induction groups with
  | nil => rfl
  | cons group rest later =>
    rw [List.flatMap_cons, List.map_cons, String.join_cons, ← later, joinLines, List.map_append,
      String.join_append]
    rfl

/-- The characters of joined lines are those of the first one, a line feed and the others. -/
theorem toList_joinLines_cons (line : String) (lines : List String) :
    (joinLines (line :: lines)).toList = line.toList ++ '\n' :: (joinLines lines).toList := by
  simp [joinLines_cons]

/-- Lines can be read off their joined text. -/
theorem eq_of_joinLines_eq {lines others : List String}
    (single : ∀ line ∈ lines, '\n' ∉ line.toList)
    (otherSingle : ∀ line ∈ others, '\n' ∉ line.toList)
    (same : joinLines lines = joinLines others) : lines = others := by
  have never (line : String) (lines : List String) : joinLines (line :: lines) ≠ joinLines [] := by
    intro none
    have empty := congrArg String.toList none
    rw [toList_joinLines_cons] at empty
    exact List.append_ne_nil_of_right_ne_nil _ (List.cons_ne_nil _ _) empty
  induction lines generalizing others with
  | nil =>
    cases others with
    | nil => rfl
    | cons line others => exact absurd same.symm (never line others)
  | cons line lines later =>
    cases others with
    | nil => exact absurd same (never line lines)
    | cons other others =>
      obtain ⟨first, rest⟩ := List.forall_mem_cons.mp single
      obtain ⟨otherFirst, otherRest⟩ := List.forall_mem_cons.mp otherSingle
      have shown := congrArg String.toList same
      rw [toList_joinLines_cons, toList_joinLines_cons] at shown
      obtain ⟨here, below⟩ := Text.cut_unique shown first otherFirst
      rw [String.toList_inj.mp here, later rest otherRest (String.toList_inj.mp below)]

/-! ## Printers -/

/-- What is drawn before a text for one label above it, or as the branch to it: four characters,
neither an opening bracket nor a line feed. -/
structure Glyph (text : String) : Prop where
  /-- There are four characters. -/
  length : text.length = 4
  /-- None is an opening bracket. -/
  closed : '[' ∉ text.toList
  /-- None is a line feed. -/
  single : '\n' ∉ text.toList

/-- The line for a place below the root has a glyph for each label above it, the glyph of the branch
to it, and its text. -/
def IsLineOf (place : Place String) (line : String) : Prop :=
  ∃ margins branch, margins.length = place.above.length ∧ (∀ margin ∈ margins, Glyph margin) ∧
    Glyph branch ∧ line = String.join margins ++ branch ++ place.label

/-- A printer draws a tree with the root's text on the first line and then every other text, each
before those below it, on a line of its own. Nothing is asked of it for texts with line feeds. -/
def Draws (print : Grove String → String) : Prop :=
  ∀ root below, (∀ text ∈ root :: below.labels, '\n' ∉ text.toList) →
    ∃ lines, List.Forall₂ IsLineOf below.places lines ∧
      print (tree root below) = joinLines (root :: lines)

/-- A line shows a place: there are four characters for each label above it, none of them an opening
bracket or a line feed, and then its text. -/
def IsShownBy (place : Place String) (line : String) : Prop :=
  ∃ margin : String, margin.length = 4 * place.above.length ∧ '[' ∉ margin.toList ∧
    '\n' ∉ margin.toList ∧ line = margin ++ place.label

/-- A row of glyphs has four characters for each. -/
theorem join_glyphs {glyphs : List String} (all : ∀ glyph ∈ glyphs, Glyph glyph) :
    (String.join glyphs).length = 4 * glyphs.length ∧ '[' ∉ (String.join glyphs).toList ∧
      '\n' ∉ (String.join glyphs).toList := by
  induction glyphs with
  | nil => exact ⟨rfl, List.not_mem_nil, List.not_mem_nil⟩
  | cons glyph glyphs later =>
    obtain ⟨first, rest⟩ := List.forall_mem_cons.mp all
    obtain ⟨length, closed, single⟩ := later rest
    rw [String.join_cons, String.length_append, String.toList_append, List.length_cons, length,
      first.length]
    refine ⟨by omega, ?_, ?_⟩
    · exact List.not_mem_append first.closed closed
    · exact List.not_mem_append first.single single

/-- The line for a place below the root shows it as a place of the whole tree. -/
theorem IsLineOf.isShownBy {place : Place String} {line : String} (drawn : IsLineOf place line)
    (root : String) : IsShownBy { place with above := place.above ++ [root] } line := by
  obtain ⟨margins, branch, count, glyphs, glyph, rfl⟩ := drawn
  have all : ∀ text ∈ margins ++ [branch], Glyph text :=
    List.forall_mem_append.mpr ⟨glyphs, List.forall_mem_singleton.mpr glyph⟩
  have row : String.join margins ++ branch = String.join (margins ++ [branch]) := by
    simp
  obtain ⟨length, closed, single⟩ := join_glyphs all
  refine ⟨String.join (margins ++ [branch]), ?_, closed, single, by rw [row]⟩
  rw [length, List.length_append, List.length_append, count]
  rfl

/-- A line that shows a text without a line feed has none. -/
theorem IsShownBy.single {place : Place String} {line : String} (shown : IsShownBy place line)
    (single : '\n' ∉ place.label.toList) : '\n' ∉ line.toList := by
  obtain ⟨margin, -, -, without, rfl⟩ := shown
  rw [String.toList_append]
  exact List.not_mem_append without single

/-- Where texts begin with a bracket, the text of a place and its depth can be read off a line that
shows it. -/
theorem IsShownBy.unique {place other : Place String} {line : String}
    (bracketed : Bracketed place.label) (otherBracketed : Bracketed other.label)
    (shown : IsShownBy place line) (again : IsShownBy other line) :
    (place.above.length, place.label) = (other.above.length, other.label) := by
  obtain ⟨margin, length, closed, -, rfl⟩ := shown
  obtain ⟨otherMargin, otherLength, otherClosed, -, same⟩ := again
  obtain ⟨rest, opens⟩ := bracketed.opens
  obtain ⟨otherRest, otherOpens⟩ := otherBracketed.opens
  have cut := congrArg String.toList same
  rw [String.toList_append, String.toList_append, opens, otherOpens] at cut
  obtain ⟨margins, rests⟩ := Text.cut_unique cut closed otherClosed
  obtain rfl := String.toList_inj.mp margins
  have depth : place.above.length = other.above.length := by omega
  have text : place.label = other.label := String.toList_inj.mp (by rw [opens, otherOpens, rests])
  rw [depth, text]

section Lists

variable {β γ δ : Type} {relates : β → γ → Prop} {list : List β} {shared : List γ}

/-- What follows for whatever a member of a list relates to holds of the whole list beside it. -/
theorem forall_of_forall₂ {holds : γ → Prop} (related : List.Forall₂ relates list shared)
    (follows : ∀ x ∈ list, ∀ y, relates x y → holds y) : ∀ y ∈ shared, holds y := by
  induction related with
  | nil => exact List.forall_mem_nil _
  | cons first _ later =>
    obtain ⟨here, rest⟩ := List.forall_mem_cons.mp follows
    exact List.forall_mem_cons.mpr ⟨here _ first, later rest⟩

/-- Two lists beside one agree in what can be read off it. -/
theorem map_eq_of_forall₂ {f : β → δ} {others : List β} (related : List.Forall₂ relates list shared)
    (again : List.Forall₂ relates others shared)
    (unique : ∀ x ∈ list, ∀ y ∈ others, ∀ z, relates x z → relates y z → f x = f y) :
    list.map f = others.map f := by
  induction related generalizing others with
  | nil =>
    cases again
    rfl
  | @cons x z list shared first _ later =>
    cases again with
    | @cons y _ others _ second rest =>
      have here := unique x List.mem_cons_self y List.mem_cons_self z first second
      have below := later rest fun x left y right =>
        unique x (List.mem_cons_of_mem _ left) y (List.mem_cons_of_mem _ right)
      rw [List.map_cons, List.map_cons, here, below]

/-- What is beside the middle one of three lists relates the other two. -/
theorem forall₂_comp {ε : Type} {follows : γ → ε → Prop} {last : List ε}
    (related : List.Forall₂ relates list shared) (more : List.Forall₂ follows shared last) :
    List.Forall₂ (Relation.Comp relates follows) list last := by
  induction related generalizing last with
  | nil =>
    cases more
    exact .nil
  | cons first _ later =>
    cases more with
    | cons next rest => exact .cons ⟨_, first, next⟩ (later rest)

end Lists

namespace Draws

variable {print : Grove String → String} (draws : Draws print)

include draws

/-- A printed tree has a line for each place, which shows the place. -/
theorem exists_lines {root : String} {below : Grove String}
    (single : ∀ text ∈ (tree root below).labels, '\n' ∉ text.toList) :
    ∃ lines, print (tree root below) = joinLines lines ∧ (∀ line ∈ lines, '\n' ∉ line.toList) ∧
      List.Forall₂ IsShownBy (tree root below).places lines := by
  obtain ⟨lines, drawn, printed⟩ := draws root below (labels_tree root below ▸ single)
  have shown : List.Forall₂ IsShownBy (tree root below).places (root :: lines) := by
    have nothing : (nil : Grove String).places = [] := rfl
    rw [tree, places_node, nothing, List.append_nil]
    refine .cons ⟨"", rfl, List.not_mem_nil, List.not_mem_nil, String.empty_append.symm⟩ ?_
    rw [List.forall₂_map_left_iff]
    exact drawn.imp fun place line isLine => isLine.isShownBy root
  refine ⟨root :: lines, printed, ?_, shown⟩
  refine forall_of_forall₂ shown fun place placed line here => here.single ?_
  exact single _ (label_mem_of_mem_placesBelow placed)

/-- A tree of texts that begin with a bracket can be read off what is printed. -/
theorem tree_eq {root other : String} {below otherBelow : Grove String}
    (bracketed : ∀ text ∈ (tree root below).labels, Bracketed text)
    (otherBracketed : ∀ text ∈ (tree other otherBelow).labels, Bracketed text)
    (same : print (tree root below) = print (tree other otherBelow)) :
    tree root below = tree other otherBelow := by
  obtain ⟨lines, printed, single, shown⟩ :=
    draws.exists_lines fun text present => (bracketed text present).single
  obtain ⟨otherLines, otherPrinted, otherSingle, again⟩ :=
    draws.exists_lines fun text present => (otherBracketed text present).single
  obtain rfl := eq_of_joinLines_eq single otherSingle (printed.symm.trans (same.trans otherPrinted))
  have entries : (tree root below).indented 0 = (tree other otherBelow).indented 0 := by
    rw [← map_places_eq_indented, ← map_places_eq_indented]
    refine map_eq_of_forall₂ shown again fun place placed elsewhere found line => ?_
    exact IsShownBy.unique (bracketed _ (label_mem_of_mem_placesBelow placed))
      (otherBracketed _ (label_mem_of_mem_placesBelow found))
  exact eq_of_indented_eq entries

end Draws

/-! ## The drawing -/

/-- The drawing of a tree as a text. -/
def draw : Grove String → String
  | nil => ""
  | node text below _ => joinLines (drawTree id text below)

/-- A glyph of a drawing is one that may stand before a text. -/
theorem glyph_of_mem {glyph : String}
    (present : glyph ∈ [forkBranch, lastBranch, forkMargin, lastMargin]) : Glyph glyph := by
  have all : ∀ glyph ∈ [forkBranch, lastBranch, forkMargin, lastMargin],
      glyph.length = 4 ∧ '[' ∉ glyph.toList ∧ '\n' ∉ glyph.toList := by decide
  obtain ⟨length, closed, single⟩ := all glyph present
  exact ⟨length, closed, single⟩

/-- The lines of a grove are those for its places. -/
theorem isLineOf_drawBelow {above : List String} (g : Grove String) {margins : List String}
    (count : margins.length = above.length) (glyphs : ∀ margin ∈ margins, Glyph margin) :
    List.Forall₂ IsLineOf (g.placesBelow above) (g.drawBelow id (String.join margins)) := by
  induction g generalizing above margins with
  | nil => exact .nil
  | node text below beside inner later =>
    have branch : Glyph (if beside.isEmpty then lastBranch else forkBranch) := by
      split <;> exact glyph_of_mem (by decide)
    have margin : Glyph (if beside.isEmpty then lastMargin else forkMargin) := by
      split <;> exact glyph_of_mem (by decide)
    have longer : (margins ++ [if beside.isEmpty then lastMargin else forkMargin]).length =
        (text :: above).length := by
      rw [List.length_append, count]
      rfl
    have deeper := inner longer
      (List.forall_mem_append.mpr ⟨glyphs, List.forall_mem_singleton.mpr margin⟩)
    have row (glyph : String) :
        String.join (margins ++ [glyph]) = String.join margins ++ glyph := by
      simp
    rw [row] at deeper
    refine .cons ⟨margins, _, count, glyphs, branch, rfl⟩ ?_
    exact List.rel_append deeper (later count glyphs)

/-- The drawing is one of a printer that draws every label on a line of its own. -/
theorem draws_draw : Draws draw := by
  intro root below _
  have drawn : List.Forall₂ IsLineOf below.places (below.drawBelow id (String.join [])) :=
    isLineOf_drawBelow below rfl (List.forall_mem_nil _)
  exact ⟨_, drawn, rfl⟩

end Laminar.Grove
