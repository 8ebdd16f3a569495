import Mathlib.Data.List.Perm.Basic
import Laminar.Forest
import Laminar.Proofs.Grove

/-!
# How an insertion lands

A question to a relation may be answered differently each time, so all that is known of a walk is
which answers it was given. `Lands answers new trees steps grown` says that a walk with such
answers takes these steps and leaves this grove, with one case for each step. For a relation that
always answers alike, `answers a b` holds of one answer only. Every walk lands (`yields_insert`),
unless a node both contains the new item and does not.
-/

open scoped List

namespace Laminar

/-- Whatever the state is, the result of a computation satisfies a condition. -/
def Yields {σ β : Type} (run : StateM σ β) (condition : β → Prop) : Prop :=
  ∀ state, condition (run.run state).1

namespace Yields

variable {σ β γ : Type} {condition : γ → Prop}

/-- A computation that only gives a result yields what holds of it. -/
theorem pure {result : γ} (holds : condition result) :
    Yields (Pure.pure result : StateM σ γ) condition :=
  fun _ => holds

/-- A computation that goes on from the result of another one may rely on what that one yields. -/
theorem bind {first : StateM σ β} {next : β → StateM σ γ} {middle : β → Prop}
    (start : Yields first middle) (rest : ∀ b, middle b → Yields (next b) condition) :
    Yields (first >>= next) condition := by
  intro state
  rw [StateT.run_bind]
  exact rest _ (start state) _

end Yields

namespace Grove

variable {α : Type}

/-- Some trees of a grove are taken out and the others kept, each in their order. -/
inductive Separated (chosen : α → Bool → Prop) : Grove α → Grove α → Grove α → Prop
  | nil : Separated chosen nil nil nil
  | take {label : α} {below beside taken kept : Grove α} (choice : chosen label true)
      (others : Separated chosen beside taken kept) :
      Separated chosen (node label below beside) (node label below taken) kept
  | keep {label : α} {below beside taken kept : Grove α} (choice : chosen label false)
      (others : Separated chosen beside taken kept) :
      Separated chosen (node label below beside) taken (node label below kept)

variable {chosen : α → Bool → Prop} {g taken kept : Grove α}

/-- What `separate` gives is separated by the answers of the choice. -/
theorem yields_separate {σ : Type} {choose : α → StateM σ Bool}
    (sound : ∀ label, Yields (choose label) (chosen label)) (g : Grove α) :
    Yields (g.separate choose) fun parts => g.Separated chosen parts.1 parts.2 := by
  induction g with
  | nil => exact .pure .nil
  | node label below beside _ later =>
    refine (sound label).bind fun choice holds => later.bind fun parts others => ?_
    cases choice with
    | true => exact .pure (.take holds others)
    | false => exact .pure (.keep holds others)

namespace Separated

/-- A label of a tree that is taken was chosen. -/
theorem taken_roots (separated : g.Separated chosen taken kept) :
    ∀ root ∈ taken.roots, chosen root true := by
  induction separated with
  | nil => simp [roots]
  | take choice _ later => exact List.forall_mem_cons.mpr ⟨choice, later⟩
  | keep _ _ later => exact later

/-- A label of a tree that is kept was refused. -/
theorem kept_roots (separated : g.Separated chosen taken kept) :
    ∀ root ∈ kept.roots, chosen root false := by
  induction separated with
  | nil => simp [roots]
  | take _ _ later => exact later
  | keep choice _ later => exact List.forall_mem_cons.mpr ⟨choice, later⟩

/-- The trees that are taken keep their order. -/
theorem taken_sublist (separated : g.Separated chosen taken kept) :
    taken.roots.Sublist g.roots := by
  induction separated with
  | nil => exact List.Sublist.refl _
  | take _ _ later => exact later.cons_cons _
  | keep _ _ later => exact later.cons _

/-- The trees that are kept keep their order. -/
theorem kept_sublist (separated : g.Separated chosen taken kept) :
    kept.roots.Sublist g.roots := by
  induction separated with
  | nil => exact List.Sublist.refl _
  | take _ _ later => exact later.cons _
  | keep _ _ later => exact later.cons_cons _

/-- If no tree is taken, all are kept. -/
theorem kept_eq (separated : g.Separated chosen taken kept) (none : taken = .nil) : kept = g := by
  induction separated with
  | nil => rfl
  | take => contradiction
  | keep _ _ later => rw [later none]

/-- The labels of the trees are divided. -/
theorem roots_perm (separated : g.Separated chosen taken kept) :
    g.roots.Perm (kept.roots ++ taken.roots) := by
  induction separated with
  | nil => exact List.Perm.refl _
  | take _ _ later => exact (later.cons _).trans List.perm_middle.symm
  | keep _ _ later => exact later.cons _

/-- All labels are divided. -/
theorem labels_perm (separated : g.Separated chosen taken kept) :
    g.labels.Perm (kept.labels ++ taken.labels) := by
  induction separated with
  | nil => exact List.Perm.refl _
  | @take label below beside taken kept _ _ later =>
    simp only [labels]
    calc label :: (below.labels ++ beside.labels)
      _ ~ label :: (below.labels ++ (kept.labels ++ taken.labels)) :=
        (later.append_left below.labels).cons label
      _ ~ label :: (kept.labels ++ (below.labels ++ taken.labels)) :=
        (List.perm_append_comm_assoc ..).cons label
      _ ~ kept.labels ++ label :: (below.labels ++ taken.labels) := List.perm_middle.symm
  | @keep label below beside taken kept _ _ later =>
    simp only [labels, List.cons_append, List.append_assoc]
    exact (later.append_left below.labels).cons label

/-- The trees keep their families. -/
theorem families (separated : g.Separated chosen taken kept) {family : α → List α → Prop} :
    g.Families family ↔ kept.Families family ∧ taken.Families family := by
  induction separated with
  | nil => simp [Families]
  | take _ _ later => simp only [Families, later]; tauto
  | keep _ _ later => simp only [Families, later]; tauto

end Separated

end Grove

namespace Forest

variable {σ α : Type} {answers : α → α → Bool → Prop} {contains : Relation σ α}
  {new child : Planted α} {trees below left right grown : Grove (Planted α)} {steps : List Step}

/-- A walk of the new item into some trees, with the answers that it was given, the steps that it
takes and what it leaves. -/
inductive Lands (answers : α → α → Bool → Prop) (new : Planted α) :
    Grove (Planted α) → List Step → Grove (Planted α) → Prop
  /-- The item contains some of the trees and takes them over. -/
  | wrapChildren {trees taken kept : Grove (Planted α)}
      (separated : trees.Separated (fun child => answers new.item child.item) taken kept)
      (some : taken ≠ .nil) :
      Lands answers new trees [.wrapChildren] (kept ++ .tree new taken)
  /-- The first tree that contains the item is contained by it when asked again. -/
  | wrapNode (left : Grove (Planted α)) {child : Planted α} {below right : Grove (Planted α)}
      (refused : ∀ root ∈ (left ++ .node child below right).roots,
        answers new.item root.item false)
      (passed : ∀ root ∈ left.roots, answers root.item new.item false)
      (held : answers child.item new.item true) (wraps : answers new.item child.item true) :
      Lands answers new (left ++ .node child below right) [.descend child.slot, .wrapNode]
        (left ++ .node new (.tree child below) right)
  /-- The item contains no tree, and the walk goes on below the first that contains it. -/
  | descend (left : Grove (Planted α)) {child : Planted α} {below right grown : Grove (Planted α)}
      {steps : List Step}
      (refused : ∀ root ∈ (left ++ .node child below right).roots,
        answers new.item root.item false)
      (passed : ∀ root ∈ left.roots, answers root.item new.item false)
      (held : answers child.item new.item true) (deeper : Lands answers new below steps grown) :
      Lands answers new (left ++ .node child below right) (.descend child.slot :: steps)
        (left ++ .node child grown right)
  /-- The item and the trees do not contain each other. -/
  | newSibling {trees : Grove (Planted α)}
      (refused : ∀ root ∈ trees.roots, answers new.item root.item false)
      (passed : ∀ root ∈ trees.roots, answers root.item new.item false) :
      Lands answers new trees [.newSibling] (trees ++ .tree new .nil)

namespace Lands

/-- An item that is not related to the first tree lands as it does in the others. -/
theorem beside (refused : answers new.item child.item false)
    (passed : answers child.item new.item false) (lands : Lands answers new trees steps grown) :
    Lands answers new (.node child below trees) steps (.node child below grown) := by
  cases lands with
  | wrapChildren separated some => exact .wrapChildren (.keep refused separated) some
  | wrapNode left others before held wraps =>
    exact .wrapNode (.node child below left) (List.forall_mem_cons.mpr ⟨refused, others⟩)
      (List.forall_mem_cons.mpr ⟨passed, before⟩) held wraps
  | descend left others before held deeper =>
    exact .descend (.node child below left) (List.forall_mem_cons.mpr ⟨refused, others⟩)
      (List.forall_mem_cons.mpr ⟨passed, before⟩) held deeper
  | newSibling others before =>
    exact .newSibling (List.forall_mem_cons.mpr ⟨refused, others⟩)
      (List.forall_mem_cons.mpr ⟨passed, before⟩)

end Lands

/-- A walk ends with the new item in the grove, or at a node that first did contain the item and
then did not. -/
def Landing.Fits (answers : α → α → Bool → Prop) (new : Planted α) (trees : Grove (Planted α))
    (landing : Landing α) : Prop :=
  match landing.result with
  | .ok grown => Lands answers new trees landing.steps grown
  | .error misfit => ∃ node, misfit = .unplaced new.item node ∧
      answers node new.item true ∧ answers node new.item false

namespace Landing.Fits

variable {landing : Landing α}

/-- The walk into the other trees is a walk into the grove. -/
theorem beside (fits : landing.Fits answers new trees) (refused : answers new.item child.item false)
    (passed : answers child.item new.item false) :
    (landing.inside fun trees => .node child below trees).Fits answers new
      (.node child below trees) := by
  obtain ⟨steps, result⟩ := landing
  cases result with
  | ok grown => exact Lands.beside refused passed fits
  | error misfit => exact fits

/-- The walk below the first tree, which contains the item, is a walk into the grove. -/
theorem under (fits : landing.Fits answers new below)
    (refused : ∀ root ∈ child :: trees.roots, answers new.item root.item false)
    (held : answers child.item new.item true) :
    ((landing.inside fun below => .node child below trees).after (.descend child.slot)).Fits answers
      new (.node child below trees) := by
  obtain ⟨steps, result⟩ := landing
  cases result with
  | ok grown => exact Lands.descend .nil refused (by simp [Grove.roots]) held fits
  | error misfit => exact fits

end Landing.Fits

/-- A walk that decides at some children, and otherwise goes on below the one that contains the
item. -/
theorem yields_settle (sound : ∀ a b, Yields (contains a b) (answers a b))
    {owner : Option α} (owned : ∀ node ∈ owner, answers node new.item true)
    {deeper : StateM σ (Option (Landing α))}
    (goesOn : Yields deeper fun found =>
      (∀ root ∈ trees.roots, answers new.item root.item false) →
        match found with
        | some landing => landing.Fits answers new trees
        | none => ∀ root ∈ trees.roots, answers root.item new.item false) :
    Yields (settle contains new owner trees deeper) (Landing.Fits answers new trees) := by
  refine (Grove.yields_separate (fun child => sound new.item child.item) trees).bind ?_
  rintro ⟨taken, kept⟩ separated
  cases taken with
  | node label below beside => exact .pure (Lands.wrapChildren separated (by simp))
  | nil =>
    have refused : ∀ root ∈ trees.roots, answers new.item root.item false := by
      have all := separated.kept_roots
      rwa [separated.kept_eq rfl] at all
    refine goesOn.bind fun found ends => ?_
    cases found with
    | some landing => exact .pure (ends refused)
    | none =>
      have joined : Lands answers new trees [.newSibling] (trees ++ .tree new .nil) :=
        .newSibling refused (ends refused)
      cases owner with
      | none => exact .pure joined
      | some node =>
        refine (sound node new.item).bind fun answer holds => ?_
        cases answer with
        | true => exact .pure joined
        | false => exact .pure ⟨node, rfl, owned node rfl, holds⟩

/-- A walk into the first tree that contains the item, if the item contains none. -/
theorem yields_descend (sound : ∀ a b, Yields (contains a b) (answers a b)) (new : Planted α)
    (trees : Grove (Planted α)) :
    Yields (descend contains new trees) fun found =>
      (∀ root ∈ trees.roots, answers new.item root.item false) →
        match found with
        | some landing => landing.Fits answers new trees
        | none => ∀ root ∈ trees.roots, answers root.item new.item false := by
  induction trees with
  | nil => exact .pure (by simp [Grove.roots])
  | node child below beside inner later =>
    refine (sound child.item new.item).bind fun answer holds => ?_
    cases answer with
    | false =>
      refine later.bind fun found ends => .pure fun refused => ?_
      obtain ⟨top, others⟩ := List.forall_mem_cons.mp refused
      cases found with
      | none => exact List.forall_mem_cons.mpr ⟨holds, ends others⟩
      | some landing => exact Landing.Fits.beside (ends others) top holds
    | true =>
      refine (sound new.item child.item).bind fun again wraps => ?_
      cases again with
      | true =>
        refine .pure fun refused => ?_
        exact Lands.wrapNode .nil refused (by simp [Grove.roots]) holds wraps
      | false =>
        have owned : ∀ node ∈ some child.item, answers node new.item true := by simpa using holds
        refine (yields_settle sound owned inner).bind fun landing fits => .pure fun refused => ?_
        exact Landing.Fits.under fits refused holds

/-! ## Insertions -/

/-- Items that land one after another, each in the next slot. -/
inductive Grows (answers : α → α → Bool → Prop) : Forest α → List α → Forest α → Prop
  | nil {forest : Forest α} : Grows answers forest [] forest
  | cons {forest last : Forest α} {item : α} {rest : List α} {steps : List Step}
      {trees : Grove (Planted α)}
      (lands : Lands answers ⟨forest.count + 1, item⟩ forest.trees steps trees)
      (later : Grows answers ⟨trees, forest.count + 1⟩ rest last) :
      Grows answers forest (item :: rest) last

/-- An insertion lands the item in the next slot, or fails at a node that first did contain the
item and then did not. -/
theorem yields_insert (sound : ∀ a b, Yields (contains a b) (answers a b)) (forest : Forest α)
    (item : α) :
    Yields (forest.insert contains item) fun outcome =>
      match outcome.2 with
      | .ok grown => grown.count = forest.count + 1 ∧
          Lands answers ⟨forest.count + 1, item⟩ forest.trees outcome.1 grown.trees
      | .error misfit => ∃ node, misfit = .unplaced item node ∧
          answers node item true ∧ answers node item false := by
  have walk := yields_descend sound ⟨forest.count + 1, item⟩ forest.trees
  refine (yields_settle sound (by simp) walk).bind fun landing fits => .pure ?_
  obtain ⟨steps, result⟩ := landing
  cases result with
  | ok trees => exact ⟨rfl, fits⟩
  | error misfit => exact fits

/-- By a relation that always answers alike, every item has a place. -/
theorem yields_insertAll {answer : α → α → Bool}
    (sound : ∀ a b, Yields (contains a b) (answer a b = ·)) (forest : Forest α)
    (items : List α) :
    Yields (forest.insertAll contains items) fun result =>
      ∃ last, result = .ok last ∧ Grows (fun a b => (answer a b = ·)) forest items last := by
  induction items generalizing forest with
  | nil => exact .pure ⟨forest, rfl, .nil⟩
  | cons item rest later =>
    refine (yields_insert sound forest item).bind fun outcome fits => ?_
    obtain ⟨steps, result⟩ := outcome
    cases result with
    | ok grown =>
      obtain ⟨trees, count⟩ := grown
      obtain ⟨rfl, lands⟩ := fits
      intro state
      obtain ⟨last, ended, grows⟩ := later ⟨trees, forest.count + 1⟩ state
      exact ⟨last, ended, .cons lands grows⟩
    | error misfit =>
      obtain ⟨node, -, yes, no⟩ := fits
      exact absurd (yes.symm.trans no) (by decide)

end Forest

end Laminar
