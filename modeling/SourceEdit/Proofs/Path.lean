import SourceEdit.File
import SourceEdit.Proofs.Text.Fields

/-!
# Well-formed paths

A path leads from the root of a project to a file below it: one or more parts with single slashes
between them, none of which is empty or stands for the directory itself or the one above.
-/

namespace SourceEdit

/-- A part of a path: it is not empty, holds no slash and leads downwards. -/
structure IsPathPart (part : List Char) : Prop where
  nonempty : part ≠ []
  noSlash : '/' ∉ part
  notHere : part ≠ ['.']
  notAbove : part ≠ ['.', '.']

instance (part : List Char) : Decidable (IsPathPart part) :=
  decidable_of_iff (part ≠ [] ∧ '/' ∉ part ∧ part ≠ ['.'] ∧ part ≠ ['.', '.'])
    ⟨fun ⟨hne, hslash, hhere, habove⟩ => ⟨hne, hslash, hhere, habove⟩,
      fun h => ⟨h.nonempty, h.noSlash, h.notHere, h.notAbove⟩⟩

/-- A path that is the join of one or more parts. -/
def WellFormedPath (path : String) : Prop :=
  ∃ parts, parts ≠ [] ∧ (∀ part ∈ parts, IsPathPart part) ∧
    path = String.ofList (Text.join '/' parts)

/-- The tests of the whole path are implied: a path that is empty or has a slash at one of its ends
has a part that is empty. -/
theorem isValidPath_iff_parts {path : String} : isValidPath path = true ↔
    ∀ part ∈ Text.fields '/' path.toList, part ≠ [] ∧ part ≠ ['.'] ∧ part ≠ ['.', '.'] := by
  simp only [isValidPath, Bool.not_eq_true', Bool.or_eq_false_iff, List.any_eq_false,
    Bool.or_eq_true, not_or, List.isEmpty_iff, beq_iff_eq, List.isEmpty_eq_false_iff,
    beq_eq_false_iff_ne, and_assoc]
  constructor
  · rintro ⟨-, -, -, hparts⟩
    exact hparts
  · intro hparts
    have hnone : [] ∉ Text.fields '/' path.toList := fun hmem => (hparts [] hmem).1 rfl
    refine ⟨fun hempty => hnone ?_, fun hfirst => hnone ?_, fun hlast => hnone ?_, hparts⟩
    · rw [hempty]
      exact List.mem_singleton.mpr rfl
    · obtain ⟨cs, hcs⟩ := List.head?_eq_some_iff.mp hfirst
      rw [hcs, Text.fields, if_pos rfl]
      exact List.mem_cons_self
    · obtain ⟨cs, hcs⟩ := List.getLast?_eq_some_iff.mp hlast
      rw [hcs, Text.fields_append_sep_append]
      exact List.mem_append_right _ (List.mem_singleton.mpr rfl)

theorem isValidPath_iff_wellFormed {path : String} :
    isValidPath path = true ↔ WellFormedPath path := by
  rw [isValidPath_iff_parts]
  constructor
  · intro hparts
    refine ⟨Text.fields '/' path.toList, Text.fields_ne_nil _ _, ?_, ?_⟩
    · intro part hpart
      obtain ⟨hnonempty, hhere, habove⟩ := hparts part hpart
      exact ⟨hnonempty, Text.not_mem_of_mem_fields hpart, hhere, habove⟩
    · rw [Text.join_fields, String.ofList_toList]
  · rintro ⟨parts, hne, hparts, rfl⟩
    rw [String.toList_ofList,
      Text.fields_join hne fun part hpart => (hparts part hpart).noSlash]
    intro part hpart
    obtain ⟨hnonempty, -, hhere, habove⟩ := hparts part hpart
    exact ⟨hnonempty, hhere, habove⟩

instance (path : String) : Decidable (WellFormedPath path) :=
  decidable_of_iff _ isValidPath_iff_wellFormed

/-! ## Where a path leads -/

/-- Where some parts lead from a place below the root. Places are told by the names on the way to
them, the last name first. An empty part and a single dot stay where they are, two dots go up, and
nothing lies above the root. -/
def descend (place : List (List Char)) : List (List Char) → Option (List (List Char))
  | [] => some place
  | part :: parts =>
    if part = [] ∨ part = ['.'] then descend place parts
    else if part = ['.', '.'] then place.tail?.bind fun above => descend above parts
    else descend (part :: place) parts

/-- The names on the way from the root of a project to where a path leads. There are none if the
path starts elsewhere, as one with a slash in front does, or goes above the root on its way. -/
def leadsTo? (path : String) : Option (List (List Char)) :=
  match path.toList with
  | '/' :: _ => none
  | cs => (descend [] (Text.fields '/' cs)).map List.reverse

theorem descend_of_parts {parts : List (List Char)} (h : ∀ part ∈ parts, IsPathPart part)
    (place : List (List Char)) : descend place parts = some (parts.reverse ++ place) := by
  induction parts generalizing place with
  | nil => rfl
  | cons part parts ih =>
      obtain ⟨hnonempty, -, hhere, habove⟩ := h part List.mem_cons_self
      have hstays : ¬ (part = [] ∨ part = ['.']) := fun h => h.elim hnonempty hhere
      rw [descend, if_neg hstays, if_neg habove,
        ih fun part hpart => h part (List.mem_cons_of_mem _ hpart), List.reverse_cons,
        List.append_assoc]
      rfl

theorem leadsTo?_of_wellFormed {path : String} (h : WellFormedPath path) :
    leadsTo? path = some (Text.fields '/' path.toList) := by
  obtain ⟨parts, hne, hparts, rfl⟩ := h
  have hfields := Text.fields_join hne fun part hpart => (hparts part hpart).noSlash
  rw [leadsTo?, String.toList_ofList]
  split
  · next cs hslash =>
    -- with a slash in front, the first part would be empty
    rw [hslash, Text.fields, if_pos rfl] at hfields
    exact absurd rfl (hparts [] (hfields ▸ List.mem_cons_self)).nonempty
  · rw [hfields, descend_of_parts hparts, Option.map_some, List.append_nil, List.reverse_reverse]

/-- The name of a file is the last part of its path. -/
theorem File.getLast?_fields_path (f : File) :
    (Text.fields '/' f.path.toList).getLast? = some f.name.toList := by
  rw [Text.getLast?_fields, File.name, String.toList_ofList]

end SourceEdit
