import Laminar.Proofs.Forest.Arrangement
import Laminar.Proofs.Forest.Links

/-!
# Insertion by links

An insertion into a linked forest asks the same questions as one into the forest that it shows, and
in the same order, so both take the same steps, and the relation is left in the same state.
-/

namespace Laminar.LinkedForest

open Forest (Planted Landing Step)

variable {σ α : Type} {contains : Relation σ α} {store : LinkedForest α} {owner : Slot}
  {trees : Grove (Planted α)} {item : α}

/-! ## Questions -/

/-- Whether the item contains a node is asked about the node's item. -/
theorem containedBy_eq {slot : Slot} {node : α} (holds : item? store slot = some node) :
    containedBy contains store item slot = contains item node := by
  rw [containedBy, holds]

/-- Whether a node contains the item is asked about the node's item. -/
theorem nodeContains_eq {slot : Slot} {node : α} (holds : item? store slot = some node) :
    nodeContains contains store slot item = contains node item := by
  rw [nodeContains, holds]

/-- The links to trees are asked about as the trees are. -/
theorem included_tops (shows : Shows store owner trees) :
    included contains store item (tops trees) =
      (fun parts => tops parts.1) <$> trees.separate fun child => contains item child.item := by
  induction trees with
  | nil => rfl
  | node planted below beside _ later =>
    have here : item? store planted.slot = some planted.item :=
      shows.item?_eq (by simp [Grove.labels])
    rw [tops_node, included, containedBy_eq here, later shows.2.2, Grove.separate, map_bind]
    refine bind_congr fun answer => ?_
    rw [map_bind, bind_map_left]
    refine bind_congr fun parts => ?_
    cases answer <;> rfl

/-! ## Parts of a grove -/

/-- A tree may be put last on the left or first on the right. -/
theorem append_tree_append (left beside : Grove (Planted α)) (child : Planted α)
    (below : Grove (Planted α)) :
    (left ++ Grove.tree child below) ++ beside = left ++ Grove.node child below beside := by
  induction left with
  | nil => rfl
  | node first lower rest _ later =>
    rw [Grove.node_append, Grove.node_append, later, Grove.node_append]

/-- A landing in a part of a part is one in a part. -/
theorem inside_inside (outer inner : Grove (Planted α) → Grove (Planted α)) (landing : Landing α) :
    (landing.inside inner).inside outer = landing.inside fun trees => outer (inner trees) := by
  obtain ⟨steps, result⟩ := landing
  cases result <;> rfl

/-- A landing in the trees themselves is the landing. -/
theorem inside_self : (Landing.inside fun trees : Grove (Planted α) => trees) = id := by
  funext landing
  obtain ⟨steps, result⟩ := landing
  cases result <;> rfl

/-! ## Rounds -/

/-- What a round leads to within some further levels. -/
def finish (contains : Relation σ α) (store : LinkedForest α) (item : α) (levels : Nat) :
    Turn α × σ → Option (Attempt α × σ)
  | (.placed step grown, state) => some (⟨[step], .ok store.nextSlot, grown⟩, state)
  | (.refused refusal, state) => some (⟨[], .error refusal, store⟩, state)
  | (.descend next, state) =>
    (walk contains store item levels next state).map fun ended =>
      (ended.1.after (.descend next), ended.2)

/-- A walk with a level left is a round and what the round leads to. -/
theorem walk_eq (contains : Relation σ α) (store : LinkedForest α) (item : α) (levels : Nat)
    (current : Slot) (state : σ) :
    walk contains store item (levels + 1) current state =
      finish contains store item levels ((turn contains store item current).run state) := by
  rw [walk]
  cases (turn contains store item current).run state with
  | mk outcome state =>
    cases outcome with
    | placed step grown => rfl
    | refused refusal => rfl
    | descend next =>
      show (walk contains store item levels next state).bind _ = Option.map _ _
      rw [Option.map_eq_bind]
      rfl

/-- An attempt on a linked forest agrees with a landing in the trees on one of its nodes. -/
def Agrees (store : LinkedForest α) (owner : Slot) (trees : Grove (Planted α)) (item : α)
    (landing : Landing α) (attempt : Attempt α) : Prop :=
  attempt.steps = landing.steps ∧
    match landing.result with
    | .ok grown => attempt.result = .ok store.size ∧ Rework store attempt.forest owner trees grown
    | .error misfit => ∃ node, misfit = .unplaced item node ∧
        attempt.result = .error ⟨item, some node⟩ ∧ attempt.forest = store

/-- The first link to a tree that contains the item, and the landing in this tree, which a walk
comes to within some levels. -/
def Follows (contains : Relation σ α) (store : LinkedForest α) (owner : Slot)
    (trees : Grove (Planted α)) (item : α) (levels : Nat) :
    Option Slot × σ → Option (Landing α) × σ → Prop
  | (none, asked), (none, state) => asked = state
  | (some next, asked), (some landing, state) =>
    ∃ attempt, walk contains store item levels next asked = some (attempt, state) ∧
      Agrees store owner trees item landing (attempt.after (.descend next))
  | _, _ => False

/-- The run of a computation goes on from the result and the state of its first part. -/
theorem run_bind_of_run {β γ : Type} {first : StateM σ β} {next : β → StateM σ γ} {state middle : σ}
    {result : β} (ran : first.run state = (result, middle)) :
    (first >>= next).run state = (next result).run middle := by
  rw [StateT.run_bind, ran]
  rfl

/-- There need not be trees on the left. -/
theorem Follows.alone {levels : Nat} {found : Option Slot × σ} {landed : Option (Landing α) × σ}
    (follows : Follows contains store owner (.nil ++ trees) item levels found
      (landed.1.map (Landing.inside (.nil ++ ·)), landed.2)) :
    Follows contains store owner trees item levels found landed := by
  simp only [Grove.nil_append, inside_self, Option.map_id, id_eq] at follows
  exact follows

/-- The landing beside the trees on a node, which the node may refuse. -/
def landBeside (contains : Relation σ α) (new : Planted α) (trees : Grove (Planted α)) :
    Option α → StateM σ (Landing α)
  | none => return ⟨[.newSibling], .ok (trees ++ .tree new .nil)⟩
  | some node => do
    if ← contains node new.item then return ⟨[.newSibling], .ok (trees ++ .tree new .nil)⟩
    else return ⟨[], .error (.unplaced new.item node)⟩

/-- A round that ends at a node takes the item among the trees there, or refuses it. -/
theorem finish_join (hangs : Hangs store owner trees) {label : Option α}
    (holds : item? store owner = label) (topmost : owner = top ↔ label = none) (levels : Nat)
    (state : σ) :
    ∃ attempt,
      finish contains store item levels ((join contains store item owner).run state) =
        some (attempt, ((landBeside contains ⟨store.size, item⟩ trees label).run state).2) ∧
      Agrees store owner trees item
        ((landBeside contains ⟨store.size, item⟩ trees label).run state).1 attempt := by
  have joins : Agrees store owner trees item
      ⟨[.newSibling], .ok (trees ++ .tree ⟨store.size, item⟩ .nil)⟩
      ⟨[.newSibling], .ok store.size, store.add (some item) (some owner)⟩ :=
    ⟨rfl, rfl, Rework.newSibling item hangs⟩
  cases label with
  | none =>
    rw [join, if_pos (topmost.mpr rfl)]
    exact ⟨_, rfl, joins⟩
  | some node =>
    have elsewhere : owner ≠ top := fun here => absurd (topmost.mp here) (by simp)
    rcases answerRun : (contains node item).run state with ⟨answer, last⟩
    rw [join, if_neg elsewhere, nodeContains_eq holds, landBeside, run_bind_of_run answerRun,
      run_bind_of_run answerRun]
    cases answer with
    | true => exact ⟨_, rfl, joins⟩
    | false =>
      refine ⟨_, rfl, rfl, node, rfl, ?_, rfl⟩
      rw [holds]

/-- An item that contains no tree on a node lands in the first tree that contains it, or beside the
trees. -/
theorem run_settle_none {new : Planted α} {label : Option α} {kept : Grove (Planted α)}
    {deeper : StateM σ (Option (Landing α))} {state middle last : σ} {found : Option (Landing α)}
    (parts : (trees.separate fun child => contains new.item child.item).run state =
      ((.nil, kept), middle))
    (deeperRun : deeper.run middle = (found, last)) :
    (Forest.settle contains new label trees deeper).run state =
      match found with
      | some inner => (inner, last)
      | none => (landBeside contains new trees label).run last := by
  rw [Forest.settle, run_bind_of_run parts]
  show StateT.run (deeper >>= _ : StateM σ (Landing α)) middle = _
  rw [run_bind_of_run deeperRun]
  cases found with
  | some inner => rfl
  | none => cases label <;> rfl

/-- A round at a node that the item does not contain. -/
theorem finish_settle (hangs : Hangs store owner trees) {label : Option α}
    (holds : item? store owner = label) (topmost : owner = top ↔ label = none)
    {deeper : StateM σ (Option (Landing α))} {levels : Nat}
    (follows : ∀ state, Follows contains store owner trees item levels
      (((tops trees).findM? fun child => nodeContains contains store child item).run state)
      (deeper.run state)) (state : σ) :
    ∃ attempt,
      finish contains store item levels ((settle contains store item owner).run state) =
        some (attempt,
          ((Forest.settle contains ⟨store.size, item⟩ label trees deeper).run state).2) ∧
      Agrees store owner trees item
        ((Forest.settle contains ⟨store.size, item⟩ label trees deeper).run state).1 attempt := by
  obtain ⟨_, _, found⟩ := hangs.links
  have children : store.children owner = tops trees := NodeStore.children_of_node? found
  have yields : Yields (trees.separate fun child => contains item child.item) fun parts =>
      trees.Separated (fun _ _ => True) parts.1 parts.2 :=
    Grove.yields_separate (fun _ _ => trivial) trees
  have separated := yields state
  rcases parts : (trees.separate fun child => contains item child.item).run state with
    ⟨⟨taken, kept⟩, middle⟩
  rw [parts] at separated
  have asked : (included contains store item (tops trees)).run state = (tops taken, middle) := by
    rw [included_tops hangs.shows, StateT.run_map, parts]
    rfl
  rw [settle, children, run_bind_of_run asked]
  cases taken with
  | node planted below beside =>
    rw [Forest.settle, run_bind_of_run parts]
    exact ⟨_, rfl, rfl, rfl, Rework.wrapChildren item hangs separated⟩
  | nil =>
    have ends := follows middle
    rcases nextRun : ((tops trees).findM? fun child => nodeContains contains store child item).run
      middle with ⟨next, asked⟩
    rcases deeperRun : deeper.run middle with ⟨found, last⟩
    rw [nextRun, deeperRun] at ends
    rw [run_settle_none parts deeperRun]
    show ∃ attempt,
      finish contains store item levels (StateT.run (_ >>= _ : StateM σ (Turn α)) middle) = _ ∧ _
    rw [run_bind_of_run nextRun]
    cases next with
    | some next =>
      cases found with
      | none => exact ends.elim
      | some inner =>
        obtain ⟨attempt, walked, agrees⟩ := ends
        refine ⟨attempt.after (.descend next), ?_, agrees⟩
        show (walk contains store item levels next asked).map _ = _
        rw [walked]
        rfl
    | none =>
      cases found with
      | some inner => exact ends.elim
      | none =>
        obtain rfl : asked = last := ends
        exact finish_join hangs holds topmost levels asked

/-- What agrees below the node of the first tree agrees on the node above, one step earlier. -/
theorem Agrees.descend {left below right : Grove (Planted α)} {child : Planted α}
    (hangs : Hangs store owner (left ++ .node child below right)) {landing : Landing α}
    {attempt : Attempt α} (agrees : Agrees store child.slot below item landing attempt) :
    Agrees store owner (left ++ .node child below right) item
      ((landing.inside fun below => left ++ .node child below right).after (.descend child.slot))
      (attempt.after (.descend child.slot)) := by
  obtain ⟨steps, result⟩ := landing
  obtain ⟨same, ended⟩ := agrees
  refine ⟨congrArg _ same, ?_⟩
  cases result with
  | ok grown => exact ⟨ended.1, ended.2.descend hangs⟩
  | error misfit => exact ended

/-! ## Walks -/

section Runs

variable (new : Planted α) {child : Planted α} {below beside : Grove (Planted α)}
  {state asked last : σ}

/-- A tree that does not contain the item is passed. -/
theorem run_descend_beside (passed : (contains child.item new.item).run state = (false, asked)) :
    (Forest.descend contains new (.node child below beside)).run state =
      (((Forest.descend contains new beside).run asked).1.map
          (Landing.inside fun beside => .node child below beside),
        ((Forest.descend contains new beside).run asked).2) := by
  rw [Forest.descend, run_bind_of_run passed]
  rfl

/-- A tree that contains the item and is contained by it gets the item for its top. -/
theorem run_descend_wrapNode (held : (contains child.item new.item).run state = (true, asked))
    (wraps : (contains new.item child.item).run asked = (true, last)) :
    (Forest.descend contains new (.node child below beside)).run state =
      (some ⟨[.descend child.slot, .wrapNode], .ok (.node new (.tree child below) beside)⟩,
        last) := by
  rw [Forest.descend, run_bind_of_run held]
  exact (run_bind_of_run wraps).trans rfl

/-- Otherwise the walk goes on below. -/
theorem run_descend_below (held : (contains child.item new.item).run state = (true, asked))
    (apart : (contains new.item child.item).run asked = (false, last))
    {landing : Landing α} {ended : σ}
    (lower : (Forest.settle contains new (some child.item) below
      (Forest.descend contains new below)).run last = (landing, ended)) :
    (Forest.descend contains new (.node child below beside)).run state =
      (some ((landing.inside fun below => .node child below beside).after (.descend child.slot)),
        ended) := by
  rw [Forest.descend, run_bind_of_run held]
  exact (run_bind_of_run apart).trans ((run_bind_of_run lower).trans rfl)

end Runs

/-- The walk goes where the first tree that contains the item is. -/
theorem follows_descend {left : Grove (Planted α)} (hangs : Hangs store owner (left ++ trees))
    (inner : ∀ slot ∈ slots trees, slot ≠ top) {levels : Nat} (enough : trees.height ≤ levels)
    (state : σ) :
    Follows contains store owner (left ++ trees) item levels
      (((tops trees).findM? fun child => nodeContains contains store child item).run state)
      (((Forest.descend contains ⟨store.size, item⟩ trees).run state).1.map
          (Landing.inside (left ++ ·)),
        ((Forest.descend contains ⟨store.size, item⟩ trees).run state).2) := by
  induction trees generalizing owner left levels state with
  | nil => rfl
  | node child below beside lower later =>
    have here : item? store child.slot = some child.item :=
      hangs.shows.item?_eq (by simp [Grove.labels])
    rw [slots_node, List.forall_mem_cons, List.forall_mem_append] at inner
    obtain ⟨placed, inner_below, inner_beside⟩ := inner
    rw [Grove.height] at enough
    rcases answerRun : (contains child.item item).run state with ⟨answer, asked⟩
    rw [tops_node, List.findM?, nodeContains_eq here, run_bind_of_run answerRun]
    cases answer with
    | true =>
      obtain ⟨levels, rfl⟩ : ∃ fewer, levels = fewer + 1 := ⟨levels - 1, by omega⟩
      have turned : turn contains store item child.slot =
          (contains item child.item >>= fun again =>
            if again then return .placed .wrapNode (wrapNode store child.slot item)
            else settle contains store item child.slot) := by
        rw [turn, if_neg placed, containedBy_eq here]
      rcases againRun : (contains item child.item).run asked with ⟨again, last⟩
      cases again with
      | true =>
        rw [run_descend_wrapNode ⟨store.size, item⟩ answerRun againRun]
        refine ⟨⟨[.wrapNode], .ok store.size, wrapNode store child.slot item⟩, ?_, rfl, rfl,
          Rework.wrapNode item hangs⟩
        rw [walk_eq, turned, run_bind_of_run againRun]
        rfl
      | false =>
        have deeper : ∀ state, Follows contains store child.slot below item levels
            (((tops below).findM? fun child => nodeContains contains store child item).run state)
            ((Forest.descend contains ⟨store.size, item⟩ below).run state) := by
          intro state
          have alone : Hangs store child.slot (.nil ++ below) := hangs.below
          exact (lower alone inner_below (by omega) state).alone
        have topmost : child.slot = top ↔ some child.item = none := by simp [placed]
        obtain ⟨attempt, walked, agrees⟩ := finish_settle hangs.below here topmost deeper last
        rw [run_descend_below ⟨store.size, item⟩ answerRun againRun rfl]
        refine ⟨attempt, ?_, ?_⟩
        · rw [walk_eq, turned, run_bind_of_run againRun]
          exact walked
        · have higher := agrees.descend hangs
          rw [← inside_inside (left ++ ·)] at higher
          exact higher
    | false =>
      have hangsLeft : Hangs store owner ((left ++ .tree child below) ++ beside) := by
        rw [append_tree_append]
        exact hangs
      have others := later hangsLeft inner_beside (by omega : beside.height ≤ levels) asked
      have composed : Landing.inside (left ++ ·) ∘
            Landing.inside (fun beside => Grove.node child below beside) =
          Landing.inside fun beside => left ++ Grove.node child below beside :=
        funext (inside_inside _ _)
      rw [run_descend_beside ⟨store.size, item⟩ answerRun, Option.map_map, composed]
      simp only [append_tree_append] at others
      exact others

/-! ## Insertions -/

/-- A linked forest shows a forest of some items: the trees hang on the top, and the items are in
the slots of their turns. -/
structure Represents (store : LinkedForest α) (forest : Forest α) (items : List α) : Prop where
  /-- The top is the root. -/
  root : store.root = some top
  /-- The top holds no item and links to the trees. -/
  links : store.node? top = some ⟨none, none, tops forest.trees⟩
  /-- The nodes below show the trees. -/
  shows : Shows store top forest.trees
  /-- The forest has the items, each in the slot of its turn. -/
  planted : forest.toList.Perm (Forest.planting 0 items)
  /-- The items are counted. -/
  count : forest.count = items.length
  /-- There is no other node. -/
  size : store.size = items.length + 1

/-- The forest with nothing but a top represents the empty forest. -/
theorem represents_bare : Represents (bare : LinkedForest α) .empty [] :=
  ⟨rfl, rfl, trivial, List.Perm.refl _, rfl, rfl⟩

/-- The last of some items is in the last slot. -/
theorem planting_concat (items : List α) (item : α) :
    Forest.planting 0 (items ++ [item]) =
      Forest.planting 0 items ++ [⟨items.length + 1, item⟩] := by
  simp [Forest.planting, List.zipIdx_append, Nat.add_comm]

namespace Represents

variable {forest : Forest α} {items : List α} (represents : Represents store forest items)

include represents

/-- The slots of the items count up from one. -/
theorem slots_perm : (slots forest.trees).Perm (List.range' 1 items.length) := by
  have turns := represents.planted.map Planted.slot
  rwa [Forest.map_slot_planting, Nat.zero_add] at turns

/-- The top has no item. -/
theorem item?_top : item? store top = none := by
  rw [item?, represents.links]
  rfl

/-- The top is no slot of the trees. -/
theorem top_not_mem : top ∉ slots forest.trees := by
  rw [represents.slots_perm.mem_iff, List.mem_range'_1]
  exact fun bounds => absurd bounds.1 (by decide)

/-- The trees hang on the top. -/
theorem hangs : Hangs store top forest.trees := by
  refine ⟨⟨_, _, represents.links⟩, represents.shows, ?_⟩
  refine List.nodup_cons.mpr ⟨represents.top_not_mem, ?_⟩
  exact represents.slots_perm.nodup_iff.mpr List.nodup_range'

/-- The trees have as many nodes as there are items. -/
theorem size_trees : forest.trees.size = items.length := by
  have number := represents.planted.length_eq
  rwa [Forest.toList, Grove.length_labels, ← List.length_map (f := Planted.item),
    Forest.map_item_planting] at number

/-- A way down has no more levels than there are items. -/
theorem height_le : forest.trees.height ≤ items.length := by
  rw [← represents.size_trees]
  exact forest.trees.height_le_size

/-- A forest with one item more is shown once its trees hang on the top. -/
theorem grown {after : LinkedForest α} {trees : Grove (Planted α)} {item : α}
    (rework : Rework store after top forest.trees trees)
    (planted : trees.labels.Perm (⟨store.size, item⟩ :: forest.trees.labels)) :
    Represents after ⟨trees, forest.count + 1⟩ (items ++ [item]) := by
  constructor
  case root => exact rework.root.trans represents.root
  case links =>
    rw [rework.links, represents.links]
    rfl
  case shows => exact rework.shows
  case planted =>
    rw [planting_concat, ← represents.size]
    have others := represents.planted.cons (⟨store.size, item⟩ : Planted α)
    exact planted.trans (others.trans (List.perm_append_singleton _ _).symm)
  case count =>
    show forest.count + 1 = (items ++ [item]).length
    rw [represents.count, List.length_append, List.length_singleton]
  case size => rw [rework.size, represents.size, List.length_append, List.length_singleton]

/-- An insertion by links ends. It takes the steps of an insertion into the forest that is shown and
leaves the relation in the same state. If this succeeds, the item is in the next slot and the new
forest is shown, and otherwise nothing has changed. -/
theorem agrees_insert (contains : Relation σ α) (item : α) (state : σ) :
    ∃ attempt,
      insert contains store item state =
        some (attempt, ((forest.insert contains item).run state).2) ∧
      attempt.steps = ((forest.insert contains item).run state).1.1 ∧
      match ((forest.insert contains item).run state).1.2 with
      | .ok grown => attempt.result = .ok store.size ∧
          Represents attempt.forest grown (items ++ [item])
      | .error misfit => ∃ node, misfit = .unplaced item node ∧
          attempt.result = .error ⟨item, some node⟩ ∧ attempt.forest = store := by
  have next : forest.count + 1 = store.size := by rw [represents.count, represents.size]
  have inner : ∀ slot ∈ slots forest.trees, slot ≠ top := by
    rintro slot present rfl
    exact represents.top_not_mem present
  have alone : Hangs store top (.nil ++ forest.trees) := represents.hangs
  have topmost : top = top ↔ (none : Option α) = none := by simp
  obtain ⟨attempt, walked, agrees⟩ := finish_settle represents.hangs represents.item?_top topmost
    (fun state => (follows_descend alone inner represents.height_le state).alone) state
  have sound : ∀ a b, Yields (contains a b) fun _ => True := fun _ _ _ => trivial
  have landed := Forest.yields_insert sound forest item state
  rcases landingRun : (Forest.settle contains ⟨store.size, item⟩ none forest.trees
    (Forest.descend contains ⟨store.size, item⟩ forest.trees)).run state with ⟨landing, ended⟩
  have ran : (forest.insert contains item).run state =
      ((landing.steps, landing.result.map fun trees => ⟨trees, forest.count + 1⟩), ended) := by
    rw [Forest.insert, next, run_bind_of_run landingRun]
    rfl
  rw [landingRun] at walked agrees
  rw [ran] at landed ⊢
  obtain ⟨steps, result⟩ := landing
  refine ⟨attempt, ?_, agrees.1, ?_⟩
  · rw [insert, represents.size, walk_eq, turn, if_pos rfl]
    exact walked
  · cases result with
    | ok trees =>
      refine ⟨agrees.2.1, represents.grown agrees.2.2 ?_⟩
      rw [← next]
      exact landed.2.labels_perm
    | error misfit => exact agrees.2

end Represents

end Laminar.LinkedForest
