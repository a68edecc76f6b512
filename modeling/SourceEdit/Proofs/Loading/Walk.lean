import SourceEdit.Loading
import SourceEdit.Proofs.FileTree

/-!
# What a walk finds

A walk finds the regular files of a tree, in their order, except those that it passes by itself or
in one of the directories on their paths.
-/

namespace SourceEdit

def IgnoreLevels.enterAll (ls : IgnoreLevels) (tree : FileTree) (directory : List String) :
    List String → IgnoreLevels
  | [] => ls
  | name :: rest => (ls.enter tree (directory ++ [name])).enterAll tree (directory ++ [name]) rest

namespace Loader

open FileTree (regularFiles regularIn)

variable {w : Walk} {levels : IgnoreLevels} {directory path : List String} {name : String}

namespace Walk

/-- Whether a walk gets from an entry to a file in it. -/
def reaches (w : Walk) (levels : IgnoreLevels) (path : List String) : List String → Bool
  | [] => !w.passesBy levels path false
  | name :: rest =>
    !w.passesBy levels path true &&
      w.reaches (levels.enter w.tree (w.root ++ path)) (path ++ [name]) rest

/-- Whether a walk gets from the inside of a directory to a file in it. -/
def finds (w : Walk) (levels : IgnoreLevels) (directory : List String) : List String → Bool
  | [] => false
  | name :: rest => w.reaches levels (directory ++ [name]) rest

/-- A walk gets to what is in a directory if it does not pass by the directory. -/
theorem reaches_of_mem_regularIn (path : List String) {entries : List (String × FileTree)}
    {f : List String × ByteArray} (hf : f ∈ regularIn entries) :
    w.reaches levels path f.1 = (!w.passesBy levels path true &&
      w.finds (levels.enter w.tree (w.root ++ path)) path f.1) := by
  obtain ⟨name, rest, node, hname, -, -⟩ := FileTree.mem_regularIn_iff.mp hf
  rw [hname]
  rfl

end Walk

/-- What a walk finds at the entries of a directory, given what it finds at each. -/
theorem filesIn_eq_of {entries : List (String × FileTree)}
    (h : ∀ name node, (name, node) ∈ entries → ∀ levels path, filesAt w levels path node =
      (node.regularFiles.filter fun f => w.reaches levels path f.1).map
        fun f => examine w.maxFileSize (path ++ f.1) f.2)
    (levels : IgnoreLevels) (directory : List String) :
    filesIn w levels directory entries =
      ((regularIn entries).filter fun f => w.finds levels directory f.1).map
        fun f => examine w.maxFileSize (directory ++ f.1) f.2 := by
  induction entries with
  | nil => rfl
  | cons e entries ih =>
      obtain ⟨name, node⟩ := e
      rw [filesIn, regularIn, List.filter_append, List.map_append, List.filter_map, List.map_map,
        ih fun name' node' hmem => h name' node' (List.mem_cons_of_mem _ hmem),
        h name node List.mem_cons_self]
      congr 2
      funext f
      rw [Function.comp_apply, List.append_assoc]
      rfl

theorem filesAt_eq (node : FileTree) (levels : IgnoreLevels) (path : List String) :
    filesAt w levels path node = (node.regularFiles.filter fun f => w.reaches levels path f.1).map
      fun f => examine w.maxFileSize (path ++ f.1) f.2 := by
  induction node using FileTree.induct generalizing levels path with
  | file bytes =>
      rw [filesAt, regularFiles]
      by_cases hpass : w.passesBy levels path false = true
      · rw [if_pos hpass, List.filter_cons_of_neg (by simp [Walk.reaches, hpass])]
        rfl
      · rw [if_neg hpass, List.filter_cons_of_pos (by simp [Walk.reaches, hpass])]
        rw [List.filter_nil, List.map_singleton, List.append_nil]
  | link target => rw [filesAt, regularFiles, List.filter_nil, List.map_nil]
  | directory entries ih =>
      rw [filesAt, regularFiles,
        List.filter_congr fun f hf => Walk.reaches_of_mem_regularIn path hf]
      -- passing by a directory leaves out all that is in it
      by_cases hpass : w.passesBy levels path true = true
      · simp only [hpass, if_true, Bool.not_true, Bool.false_and, List.filter_false, List.map_nil]
      · rw [Bool.not_eq_true] at hpass
        simp only [hpass, Bool.false_eq_true, if_false, Bool.not_false, Bool.true_and]
        exact filesIn_eq_of ih _ path

/-- **What a walk finds** in a directory. -/
theorem filesIn_eq (w : Walk) (levels : IgnoreLevels) (directory : List String)
    (entries : List (String × FileTree)) : filesIn w levels directory entries =
      ((regularIn entries).filter fun f => w.finds levels directory f.1).map
        fun f => examine w.maxFileSize (directory ++ f.1) f.2 :=
  filesIn_eq_of (fun _ node _ => filesAt_eq node) levels directory

namespace Walk

/-- **A walk finds a file** if it passes by none of the entries on its path. -/
theorem finds_iff (w : Walk) (levels : IgnoreLevels) (directory path : List String) :
    w.finds levels directory path = true ↔ path ≠ [] ∧ ∀ before name after,
      path = before ++ name :: after →
      w.passesBy (levels.enterAll w.tree (w.root ++ directory) before)
        (directory ++ (before ++ [name])) (!after.isEmpty) = false := by
  induction path generalizing levels directory with
  | nil => simp [finds]
  | cons name rest ih =>
      rw [and_iff_right (List.cons_ne_nil name rest)]
      have hfirst : w.finds levels directory (name :: rest) = true ↔
          w.passesBy levels (directory ++ [name]) (!rest.isEmpty) = false ∧
            (rest ≠ [] → w.finds (levels.enter w.tree (w.root ++ (directory ++ [name])))
              (directory ++ [name]) rest = true) := by
        cases rest with
        | nil => simp [finds, reaches]
        | cons name' rest => simp [finds, reaches]
      rw [hfirst, ih]
      constructor
      · rintro ⟨hhere, hbelow⟩ before name' after heq
        cases before with
        | nil =>
            obtain ⟨rfl, rfl⟩ := List.cons.inj heq
            exact hhere
        | cons name'' before =>
            obtain ⟨rfl, rfl⟩ := List.cons.inj heq
            have hrest := (hbelow (by simp)).2 before name' after rfl
            rwa [← List.append_assoc, List.append_assoc directory] at hrest
      · intro h
        refine ⟨h [] name rest rfl, fun hne => ⟨hne, ?_⟩⟩
        rintro before name' after rfl
        have hrest := h (name :: before) name' after rfl
        rw [← List.append_assoc w.root, List.append_assoc directory]
        exact hrest

end Walk

end Loader

end SourceEdit
