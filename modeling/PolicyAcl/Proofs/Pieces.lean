import Mathlib.Data.List.Infix
import PolicyAcl.Fragment

/-! Cutting a text at a separator. Parts that are joined with a separator are got back
by cutting at it, if none of them brings a separator about, be it together with the
separator that follows it. -/
namespace PolicyAcl

open String (Slice)
open String.Slice.Pattern

theorem ne_of_not_mem {letter : Char} {front : List Char} (absent : letter ∉ front) :
    ∀ other ∈ front, decide (other ≠ letter) = true := by
  intro other member
  simpa using fun same : other = letter => absent (same ▸ member)

/-- What stands in front of the first of these letters, if the text begins without them. -/
theorem takeWhile_ne_append {letter : Char} {front : List Char} (absent : letter ∉ front)
    (back : List Char) :
    (front ++ back).takeWhile (· ≠ letter) = front ++ back.takeWhile (· ≠ letter) :=
  List.takeWhile_append_of_pos (ne_of_not_mem absent)

theorem dropWhile_ne_append {letter : Char} {front : List Char} (absent : letter ∉ front)
    (back : List Char) : (front ++ back).dropWhile (· ≠ letter) = back.dropWhile (· ≠ letter) :=
  List.dropWhile_append_of_pos (ne_of_not_mem absent)

/-- What a text has between its separators. -/
def pieces (separator text : String) : List String :=
  (text.split separator).toList.map (·.copy)

/-- No separator begins inside a part that a separator follows. -/
def ClearOf (separator part : String) : Prop :=
  ∀ before after : String, part = before ++ after → after ≠ "" →
    ¬separator.toList <+: after.toList ++ separator.toList

section
variable {separator part : String}

theorem clearOf_of_head_not_mem (first : Char) {more : List Char}
    (head : separator.toList = first :: more) (absent : first ∉ part.toList) :
    ClearOf separator part := by
  intro before after whole nonempty found
  obtain ⟨letter, letters, same⟩ := List.exists_cons_of_ne_nil
    (fun empty => nonempty (String.toList_eq_nil_iff.mp empty))
  rw [head, same, List.cons_append, List.cons_prefix_cons] at found
  refine absent ?_
  rw [whole, String.toList_append, same, found.1]
  simp

/-- No two ampersands follow one another in the text. -/
def Plain (text : String) : Prop := ¬['&', '&'] <:+: text.toList

instance (text : String) : Decidable (Plain text) :=
  inferInstanceAs (Decidable (¬_))

/-- A text stays plain around a letter that is no ampersand. -/
theorem plain_around (front : List Char) (letter : Char) {back : List Char} (other : letter ≠ '&')
    (first : ¬['&', '&'] <:+: front) (second : ¬['&', '&'] <:+: back) :
    ¬['&', '&'] <:+: front ++ letter :: back := by
  induction front with
  | nil =>
      rw [List.nil_append, List.infix_cons_iff, List.cons_prefix_cons]
      rintro (⟨same, -⟩ | inside)
      · exact other same.symm
      · exact second inside
  | cons head front ih =>
      rw [List.cons_append, List.infix_cons_iff]
      rintro (⟨rest, same⟩ | inside)
      · -- The two ampersands begin the text, and the second one is not the letter.
        cases front with
        | nil =>
            simp only [List.cons_append, List.nil_append, List.cons.injEq] at same
            exact other same.2.1.symm
        | cons next front =>
            simp only [List.cons_append, List.nil_append, List.cons.injEq] at same
            refine first ⟨[], front, ?_⟩
            simp [← same.1, ← same.2.1]
      · exact ih (fun inside => first (List.infix_cons inside)) inside

theorem plain_append_of_not_mem {front back : String} (absent : '&' ∉ front.toList)
    (plain : Plain back) : Plain (front ++ back) := by
  unfold Plain at *
  rw [String.toList_append]
  revert absent
  induction front.toList with
  | nil => exact fun _ => plain
  | cons letter letters ih =>
      intro absent
      rw [List.mem_cons, not_or] at absent
      exact plain_around [] letter (Ne.symm absent.1) (by simp) (ih absent.2)

theorem plain_intercalate_comma {parts : List String} (plain : ∀ part ∈ parts, Plain part) :
    Plain (",".intercalate parts) := by
  induction parts with
  | nil => simp [Plain]
  | cons part parts ih =>
      have later := ih fun other member => plain other (List.mem_cons_of_mem part member)
      cases parts with
      | nil => simpa using plain part List.mem_cons_self
      | cons next parts =>
          rw [String.intercalate_cons_cons, String.append_assoc, Plain, String.toList_append,
            String.toList_append]
          exact plain_around _ ',' (by decide) (plain part List.mem_cons_self) later

theorem Plain.clearOf (plain : Plain part) : ClearOf " && " part := by
  intro before after whole nonempty found
  have inside : ¬['&', '&'] <:+: after.toList := by
    intro inside
    refine plain ?_
    rw [whole, String.toList_append]
    exact inside.trans (List.suffix_append _ _).isInfix
  revert found
  -- The separator is longer than a rest that it could begin in without ampersands.
  rcases letters : after.toList with - | ⟨first, - | ⟨second, - | ⟨third, rest⟩⟩⟩
  · exact absurd (String.toList_eq_nil_iff.mp letters) nonempty
  · simp [List.cons_prefix_cons]
  · simp [List.cons_prefix_cons]
  · simp only [String.reduceToList, List.cons_append, List.cons_prefix_cons]
    rintro ⟨-, rfl, rfl, -⟩
    exact inside ⟨[first], rest, by simp [letters]⟩

end

section
variable {separator : String} {slice : Slice} {start stop place : slice.Pos}
  {before part rest : String}

/-- A part without separators in it has none before its end, whatever follows it. -/
theorem ClearOf.not_matchesAt (clear : ClearOf separator part)
    (opens : start.Splits before (part ++ rest)) (closes : stop.Splits (before ++ part) rest)
    (follows : rest = "" ∨ ∃ more, rest = separator ++ more)
    (least : start ≤ place) (below : place < stop) : ¬Model.MatchesAt separator place := by
  intro found
  obtain ⟨passed, left, splits⟩ := Model.ForwardStringSearcher.matchesAt_iff_splits.mp found
  obtain ⟨head, rfl, same⟩ := (opens.le_iff_exists_eq_append splits).mp least
  obtain ⟨tail, nonempty, prior, remains⟩ := (splits.lt_iff_exists_eq_append closes).mp below
  rw [String.append_assoc, String.append_right_inj] at prior
  refine clear head tail prior nonempty ?_
  have lists := congrArg String.toList remains
  simp only [String.toList_append] at lists
  have front : separator.toList <+: tail.toList ++ rest.toList := ⟨left.toList, lists⟩
  rcases follows with rfl | ⟨more, rfl⟩
  · rw [String.toList_empty, List.append_nil] at front
    exact front.trans (List.prefix_append _ _)
  · rw [String.toList_append, ← List.append_assoc] at front
    exact List.prefix_of_prefix_length_le front (List.prefix_append _ _) (by simp)

theorem modelSplit_intercalate [Model.StrictPatternModel separator] (part : String)
    (parts : List String) (clear : ∀ text ∈ part :: parts, ClearOf separator text)
    (opens : start.Splits before (separator.intercalate (part :: parts))) :
    (Model.split separator start start (Std.le_refl _)).map (fun piece => piece.toSlice.copy) =
      part :: parts := by
  have apart := clear part List.mem_cons_self
  induction parts generalizing part start before with
  | nil =>
      rw [String.intercalate_singleton] at opens
      have closes : slice.endPos.Splits (before ++ part) "" := by
        rw [← opens.eq_append]
        exact slice.splits_endPos
      have opens' : start.Splits before (part ++ "") := by rwa [String.append_empty]
      rw [Model.split_eq_of_not_matchesAt slice.endPos start.le_endPos fun place least below =>
          apart.not_matchesAt opens' closes (.inl rfl) least below,
        Model.split_endPos, List.map_singleton]
      congr 1
      exact (Slice.copy_slice_eq_iff_splits.mpr ⟨before, "", opens', closes⟩).2
  | cons next parts ih =>
      -- The first piece ends where the first separator is, and the rest is cut after it.
      rw [String.intercalate_cons_cons, String.append_assoc] at opens
      have ended : slice.copy =
          (before ++ part) ++ (separator ++ separator.intercalate (next :: parts)) := by
        rw [opens.eq_append, String.append_assoc]
      have resumed : slice.copy =
          (before ++ part ++ separator) ++ separator.intercalate (next :: parts) := by
        rw [ended, String.append_assoc, String.append_assoc, String.append_assoc]
      have closes := Slice.Pos.splits_ofEqAppend ended
      have reopens := Slice.Pos.splits_ofEqAppend resumed
      have found : Model.IsLongestMatchAt separator (Slice.Pos.ofEqAppend ended)
          (Slice.Pos.ofEqAppend resumed) :=
        Model.ForwardStringSearcher.isLongestMatchAt_iff_splits.mpr ⟨_, _, closes, reopens⟩
      have ordered : start ≤ Slice.Pos.ofEqAppend ended :=
        (opens.le_iff_exists_eq_append closes).mpr ⟨part, rfl, rfl⟩
      have later : ∀ text ∈ next :: parts, ClearOf separator text :=
        fun text member => clear text (List.mem_cons_of_mem _ member)
      rw [Model.split_eq_of_not_matchesAt _ ordered fun place least below =>
          apart.not_matchesAt opens closes (.inr ⟨_, rfl⟩) least below,
        Model.split_eq_of_isLongestMatchAt found, List.map_cons,
        ih next later reopens (later next List.mem_cons_self)]
      congr 1
      exact (Slice.copy_slice_eq_iff_splits.mpr ⟨before, _, opens, closes⟩).2

end

theorem pieces_intercalate {separator : String} (visible : separator ≠ "") {parts : List String}
    (some : parts ≠ []) (clear : ∀ part ∈ parts, ClearOf separator part) :
    pieces separator (separator.intercalate parts) = parts := by
  have strict := Model.ForwardStringSearcher.strictPatternModel visible
  have lawful := Model.ForwardStringSearcher.lawfulToForwardSearcherModel visible
  obtain ⟨part, parts, rfl⟩ := List.exists_cons_of_ne_nil some
  rw [pieces, String.split_eq_split_toSlice, Slice.toList_split_eq_splitToSubslice,
    toList_splitToSubslice_eq_modelSplit, List.map_map]
  have opens : (separator.intercalate (part :: parts)).toSlice.startPos.Splits ""
      (separator.intercalate (part :: parts)) := by
    have start := (separator.intercalate (part :: parts)).toSlice.splits_startPos
    rwa [String.copy_toSlice] at start
  exact modelSplit_intercalate part parts clear opens

theorem pieces_self {separator text : String} (first : Char) {more : List Char}
    (head : separator.toList = first :: more) (absent : first ∉ text.toList) :
    pieces separator text = [text] := by
  have visible : separator ≠ "" := by
    rintro rfl
    cases head
  have cut : pieces separator (separator.intercalate [text]) = [text] :=
    pieces_intercalate visible (by simp) (by simpa using clearOf_of_head_not_mem first head absent)
  rwa [String.intercalate_singleton] at cut

theorem intercalate_eq_empty {separator : String} (visible : separator ≠ "") {parts : List String}
    (shown : ∀ part ∈ parts, part ≠ "") : separator.intercalate parts = "" ↔ parts = [] := by
  rcases parts with - | ⟨part, - | ⟨next, parts⟩⟩
  · simp
  · simpa using shown part List.mem_cons_self
  · simp [String.intercalate_cons_cons, visible]

theorem intercalate_flatten {separator : String} {groups : List (List String)}
    (inhabited : ∀ group ∈ groups, group ≠ []) :
    separator.intercalate (groups.map separator.intercalate) =
      separator.intercalate groups.flatten := by
  induction groups with
  | nil => rfl
  | cons group groups ih =>
      have later := ih fun other member => inhabited other (List.mem_cons_of_mem group member)
      cases groups with
      | nil => simp
      | cons next groups =>
          have first := inhabited group List.mem_cons_self
          have rest : (next :: groups).flatten ≠ [] := by
            simp [inhabited next (List.mem_cons_of_mem _ List.mem_cons_self)]
          rw [List.map_cons, String.intercalate_cons_of_ne_nil (by simp), later,
            ← String.intercalate_append_of_ne_nil first rest]
          rfl

/-- A conjunction of conjunctions is one conjunction. -/
theorem conjoin_intercalate {groups : List (List String)}
    (shown : ∀ group ∈ groups, ∀ part ∈ group, part ≠ "") :
    conjoin (groups.map " && ".intercalate) = " && ".intercalate groups.flatten := by
  have same : ∀ group ∈ groups, (decide (" && ".intercalate group ≠ "")) = decide (group ≠ []) := by
    intro group member
    have empty : " && ".intercalate group = "" ↔ group = [] :=
      intercalate_eq_empty (by decide) (shown group member)
    simp only [ne_eq, empty]
  rw [conjoin, List.filter_map, ← List.flatten_filter_ne_nil, ← intercalate_flatten]
  · congr 2
    exact List.filter_congr same
  · intro group member
    simpa using (List.mem_filter.mp member).2

end PolicyAcl
