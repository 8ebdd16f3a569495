import Laminar.Proofs.Outcome
import Laminar.Proofs.Text
import Laminar.Tag.Line

/-!
# Lines taken out of a text

Lines are taken out of a text together with their endings, so the others stay the lines that they
are (`lines_keepLines`). The number of a line shows in errors only (`ofLine_eq_ok`), so a text whose
lines can be read is read without some of them as the tags on the others (`ofText_keepTags`).
-/

namespace Laminar

namespace Text

/-! ## Lines -/

/-- A text without the lines that `keep` refuses and their endings. The part of the first line read
so far is `read`, in reverse. -/
def keepLinesAfter (keep : List Char → Bool) (read : List Char) : List Char → List Char
  | [] => if keep read.reverse then read.reverse else []
  | '\n' :: rest =>
    if keep (finishLine read) then read.reverse ++ '\n' :: keepLinesAfter keep [] rest
    else keepLinesAfter keep [] rest
  | c :: rest => keepLinesAfter keep (c :: read) rest

/-- A text without the lines that `keep` refuses and their endings. -/
def keepLines (keep : List Char → Bool) (text : List Char) : List Char :=
  keepLinesAfter keep [] text

/-- Text without a line feed is one line, unless it is empty. -/
theorem linesAfter_of_not_mem {line : List Char} (single : '\n' ∉ line) (read : List Char) :
    linesAfter read line =
      if (line.reverse ++ read).isEmpty then [] else [(line.reverse ++ read).reverse] := by
  induction line generalizing read with
  | nil => rfl
  | cons c line later =>
    have different : c ≠ '\n' := fun same => single (same ▸ List.mem_cons_self)
    have single : '\n' ∉ line := fun present => single (List.mem_cons_of_mem c present)
    rw [linesAfter, later single (c :: read), List.reverse_cons, List.append_assoc,
      List.singleton_append]
    exact different

/-- The lines of what is left are those that are kept. -/
theorem lines_keepLinesAfter (keep : List Char → Bool) {read : List Char} (single : '\n' ∉ read)
    (text : List Char) :
    lines (keepLinesAfter keep read text) = (linesAfter read text).filter keep := by
  have reversed : '\n' ∉ read.reverse := mt List.mem_reverse.mp single
  fun_induction keepLinesAfter keep read text with
  | case1 read kept =>
    rw [lines, linesAfter_of_not_mem reversed, List.reverse_reverse, List.append_nil, linesAfter]
    split
    · rfl
    · rw [List.filter_cons_of_pos kept, List.filter_nil]
  | case2 read refused =>
    rw [linesAfter]
    split
    · rfl
    · rw [List.filter_cons_of_neg refused]
      rfl
  | case3 read rest kept later =>
    rw [lines, linesAfter_append reversed, List.reverse_reverse, List.append_nil, linesAfter,
      List.filter_cons_of_pos kept, ← later List.not_mem_nil List.not_mem_nil]
    rfl
  | case4 read rest refused later =>
    rw [later List.not_mem_nil List.not_mem_nil, linesAfter, List.filter_cons_of_neg refused]
  | case5 read c rest different later =>
    have single : '\n' ∉ c :: read :=
      List.not_mem_cons_of_ne_of_not_mem (Ne.symm different) single
    rw [later single (mt List.mem_reverse.mp single), linesAfter]
    exact different

/-- The lines of what is left are those that are kept. -/
theorem lines_keepLines (keep : List Char → Bool) (text : List Char) :
    lines (keepLines keep text) = (lines text).filter keep :=
  lines_keepLinesAfter keep List.not_mem_nil text

end Text

namespace Tag

/-! ## Tags -/

/-- What is read off a line does not depend on the number of the line. -/
theorem ofLine_eq_ok {number : Nat} {line : List Char} {found : Option Tag}
    (read : ofLine number line = .ok found) (other : Nat) : ofLine other line = .ok found := by
  unfold ofLine at read ⊢
  split at read
  · exact read
  · rw [mapError_eq_ok_iff] at read ⊢
    exact read

/-- A line is kept unless it has a tag that `keep` refuses. -/
def keepsLine (keep : Tag → Bool) (line : List Char) : Bool :=
  match ofLine 1 line with
  | .ok (some tag) => keep tag
  | _ => true

/-- On lines that can be read, the tags on those that are kept are the tags that are kept. -/
theorem ofLines_filter (keep : Tag → Bool) {number : Nat} {lines : List (List Char)}
    {tags : List Tag} (read : ofLines number lines = .ok tags) (other : Nat) :
    ofLines other (lines.filter (keepsLine keep)) = .ok (tags.filter keep) := by
  induction lines generalizing number tags other with
  | nil =>
    obtain rfl := Except.ok.inj read
    rfl
  | cons line lines later =>
    simp only [ofLines, bind_eq_ok_iff] at read
    obtain ⟨found, first, others, rest, joined⟩ := read
    obtain rfl := Except.ok.inj joined
    have here : keepsLine keep line = found.all keep := by
      rw [keepsLine, ofLine_eq_ok first 1]
      cases found <;> rfl
    cases kept : found.all keep with
    | true =>
      have whole : found.toList.filter keep = found.toList := by
        cases found with
        | none => rfl
        | some tag => exact List.filter_eq_self.mpr (List.forall_mem_singleton.mpr kept)
      rw [List.filter_cons_of_pos (here.trans kept), ofLines, ofLine_eq_ok first other,
        List.filter_append, whole]
      show (ofLines (other + 1) _ >>= _) = _
      rw [later rest (other + 1)]
      rfl
    | false =>
      have gone : found.toList.filter keep = [] := by
        cases found with
        | none => rfl
        | some tag => simpa using kept
      rw [List.filter_cons_of_neg (by simp [here, kept]), List.filter_append, gone]
      exact later rest other

/-- A text without the lines that have a tag which `keep` refuses. -/
def keepTags (keep : Tag → Bool) (text : String) : String :=
  String.ofList (Text.keepLines (keepsLine keep) text.toList)

/-- If a text can be read, it is read without the lines of some tags as the other tags. -/
theorem ofText_keepTags (keep : Tag → Bool) {text : String} {tags : List Tag}
    (read : ofText text = .ok tags) : ofText (keepTags keep text) = .ok (tags.filter keep) := by
  rw [ofText, keepTags, String.toList_ofList, Text.lines_keepLines]
  exact ofLines_filter keep read 1

end Tag

end Laminar
