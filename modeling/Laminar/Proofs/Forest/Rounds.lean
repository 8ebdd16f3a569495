import Laminar.Proofs.Forest.Conservation
import Laminar.Proofs.NodeStore.WellLinked

/-!
# The rounds of an insertion

Nothing counts the rounds of an insertion, and whether a round is the last depends on what the
relation answers. A round that is not the last goes on at a child of the node where it has been, so
the rounds go down a way in the tree of the links. They end when this way does at the latest
(`IsTree.exists_last_round`), and there are no more of them than the tree has levels, whatever the
relation answers and however it changes (`insert_ends`).
-/

namespace Laminar.LinkedForest

open NodeStore (LeadsDown TreeBelow parent?)

variable {σ α : Type} {contains : Relation σ α} {store : LinkedForest α} {items : List α} {item : α}

/-- The links of a tree agree. -/
theorem IsTree.wellLinked (tree : IsTree store items) : store.WellLinked := by
  constructor
  case once =>
    intro owner child
    by_cases listed : child ∈ store.children owner
    · obtain ⟨other, present⟩ := tree.listed owner child listed
      obtain ⟨upper, named, once, elsewhere⟩ := tree.owned child other present
      obtain rfl : owner = upper := Decidable.byContradiction fun different =>
        elsewhere owner different listed
      rw [once, if_pos named]
    · have unnamed : parent? store child ≠ some owner := by
        intro named
        have other : child ≠ top := by
          rintro rfl
          exact absurd (tree.parent.symm.trans named) (by simp)
        obtain ⟨upper, names, once, -⟩ :=
          tree.owned child other (NodeStore.lt_size_of_parent? named)
        obtain rfl := Option.some.inj (names.symm.trans named)
        exact listed (List.count_pos_iff.mp (by omega))
      rw [List.count_eq_zero_of_not_mem listed, if_neg unnamed]
  case grounded => exact tree.grounded

/-! ## Ways of rounds -/

namespace Descends

variable {current stop : Slot} {state asked : σ} {way : List Slot}

/-- Each round leads to a child of the node before. -/
theorem isChain (descends : Descends contains store item current state way stop asked) :
    (current :: way).IsChain (IsChild store) := by
  induction descends with
  | stay => exact .singleton _
  | down round _ later => exact .cons_cons (fits_turn round) later

/-- The rounds go down a way in the store. -/
theorem exists_leadsDown (descends : Descends contains store item current state way stop asked) :
    ∃ visited, LeadsDown store current visited stop ∧ visited ++ [stop] = current :: way := by
  induction descends with
  | stay => exact ⟨[], .stay, rfl⟩
  | @down current next stop state middle asked way round _ later =>
    obtain ⟨visited, leads, same⟩ := later
    exact ⟨current :: visited, .down (fits_turn round) leads, congrArg (current :: ·) same⟩

/-- A walk whose last round comes after these needs a level for each round, and more levels change
nothing. -/
theorem exists_walk (descends : Descends contains store item current state way stop asked)
    {outcome : Turn α} {ended : σ}
    (last : (turn contains store item stop).run asked = (outcome, ended))
    (ends : ∀ next, outcome ≠ .descend next) :
    ∃ attempt, ∀ levels, walk contains store item levels current state =
      if way.length < levels then some (attempt, ended) else none := by
  induction descends with
  | @stay current state =>
    obtain ⟨attempt, finished⟩ : ∃ attempt, ∀ levels,
        finish contains store item levels (outcome, ended) = some (attempt, ended) := by
      cases outcome with
      | placed step grown => exact ⟨_, fun _ => rfl⟩
      | refused refusal => exact ⟨_, fun _ => rfl⟩
      | descend next => exact absurd rfl (ends next)
    refine ⟨attempt, fun levels => ?_⟩
    cases levels with
    | zero => rfl
    | succ levels =>
      rw [walk_eq, last, finished]
      exact (if_pos (Nat.succ_pos levels)).symm
  | @down current next stop state middle asked way round _ later =>
    obtain ⟨attempt, walked⟩ := later last
    refine ⟨attempt.after (.descend next), fun levels => ?_⟩
    cases levels with
    | zero => rfl
    | succ levels =>
      rw [walk_eq, round]
      show (walk contains store item levels next middle).map _ = _
      rw [walked, List.length_cons, apply_ite (Option.map _)]
      exact if_congr Nat.succ_lt_succ_iff.symm rfl rfl

end Descends

/-- From every node of a tree the rounds come to a last one, since no way down is longer than the
tree is deep. -/
theorem IsTree.exists_last_round (tree : IsTree store items) (below : store.TreeBelow top)
    {above : List Slot} {current : Slot} (leads : LeadsDown store top above current) {levels : Nat}
    (room : store.depth ≤ above.length + levels) (contains : Relation σ α) (item : α) (state : σ) :
    ∃ way stop asked outcome ended, Descends contains store item current state way stop asked ∧
      (turn contains store item stop).run asked = (outcome, ended) ∧
      ∀ next, outcome ≠ .descend next := by
  induction levels generalizing above current state with
  | zero => exact absurd (below.length_lt_depth tree.root leads) (Nat.not_lt.mpr room)
  | succ levels later =>
    rcases turned : (turn contains store item current).run state with ⟨outcome, middle⟩
    cases outcome with
    | placed step grown => exact ⟨[], current, state, _, middle, .stay, turned, by simp⟩
    | refused refusal => exact ⟨[], current, state, _, middle, .stay, turned, by simp⟩
    | descend next =>
      have lower := leads.concat (fits_turn turned)
      have left : store.depth ≤ (above ++ [current]).length + levels := by
        rw [List.length_append, List.length_singleton]
        omega
      obtain ⟨way, stop, asked, outcome, ended, descends, last, ends⟩ := later lower left middle
      exact ⟨next :: way, stop, asked, outcome, ended, .down turned descends, last, ends⟩

/-- Whatever the relation answers each time that it is asked, an insertion comes to an end. Each
round but the last goes on at a child, the rounds visit no node twice, and there is at most one more
of them than there are levels of items. With fewer levels than rounds the walk comes to no end, and
with more to the same one. -/
theorem insert_ends (reachable : Reachable store items) (contains : Relation σ α) (item : α)
    (state : σ) :
    ∃ way stop asked outcome attempt ended,
      Descends contains store item top state way stop asked ∧
      (turn contains store item stop).run asked = (outcome, ended) ∧
      (∀ next, outcome ≠ .descend next) ∧
      (∀ levels, walk contains store item levels top state =
        if way.length + 1 ≤ levels then some (attempt, ended) else none) ∧
      insert contains store item state = some (attempt, ended) ∧
      way.length + 1 ≤ (store.depth - 1) + 1 ∧
      (top :: way).IsChain (IsChild store) ∧
      (top :: way).Nodup := by
  obtain ⟨forest, represents⟩ := reachable.exists_represents
  have tree := represents.isTree
  have start : top < store.size := by
    rw [represents.size]
    exact Nat.succ_pos _
  have below := tree.wellLinked.treeBelow start tree.parent
  obtain ⟨way, stop, asked, outcome, ended, descends, last, ends⟩ :=
    tree.exists_last_round below .stay (Nat.le_add_left store.depth 0) contains item state
  obtain ⟨attempt, walked⟩ := descends.exists_walk last ends
  obtain ⟨visited, leads, same⟩ := descends.exists_leadsDown
  have length : visited.length = way.length := by simpa using congrArg List.length same
  have shallow := below.length_lt_depth tree.root leads
  have enough := below.length_lt_size leads
  have distinct := below.nodup_way leads
  rw [length] at shallow enough
  rw [same] at distinct
  refine ⟨way, stop, asked, outcome, attempt, ended, descends, last, ends, walked, ?_, ?_,
    descends.isChain, distinct⟩
  · rw [insert, walked, if_pos enough]
  · omega

/-- A relation that gives the answers of a list one after the other, and no more after them. -/
def scripted : Relation (List Bool) α := fun _ _ => do
  match ← get with
  | [] => return false
  | answer :: rest =>
    set rest
    return answer

/-- An item goes down as far as it can and is refused by the node that has just taken it. -/
theorem insert_ends_scripted :
    Reachable nested [1, 3] ∧ nested.depth - 1 = 2 ∧
      ∃ way, way.length = 2 ∧ (top :: way).IsChain (IsChild nested) ∧ (top :: way).Nodup ∧
        insert scripted nested 5 [false, true, false, false, true, false, false] =
          some (⟨[.descend 1, .descend 2], .error ⟨5, some 3⟩, nested⟩, []) := by
  have first : insert scripted bare 1 [] =
      some (⟨[.newSibling], .ok 1, bare.add (some 1) (some 0)⟩, []) :=
    rfl
  have second : insert scripted (bare.add (some 1) (some 0)) 3 [false, true, false, true] =
      some (⟨[.descend 1, .newSibling], .ok 2, nested⟩, []) :=
    rfl
  have reachable : Reachable nested [1, 3] := .placed (.placed .bare first rfl) second rfl
  obtain ⟨way, -, -, -, attempt, ended, -, -, -, walked, inserted, few, chain, distinct⟩ :=
    insert_ends reachable scripted 5 [false, true, false, false, true, false, false]
  have deep : nested.depth - 1 = 2 := rfl
  have short := walked 2
  have unfinished :
      walk scripted nested 5 2 top [false, true, false, false, true, false, false] = none := rfl
  have long : ¬ way.length + 1 ≤ 2 := by
    intro enough
    rw [unfinished, if_pos enough] at short
    contradiction
  exact ⟨reachable, deep, way, by omega, chain, distinct, rfl⟩

end Laminar.LinkedForest
