import SourceEdit.Proofs.Outcome
import SourceEdit.Proofs.Project.Session

/-!
# Building projects

A project is built of pairs of a path and a content, one after another. It can be exactly if all
paths are well formed and no two are the same, and then it has the pairs for its files, in their
order; otherwise the first pair that cannot be added is the error. What a project holds, after any
session on it, are pairs of which the same project is built again.
-/

namespace SourceEdit

open Outcome

namespace Project

variable {p p' : Project} {path content : String} {files : List (String × String)}
  {f : String × String} {e : ProjectError}

structure Buildable (files : List (String × String)) : Prop where
  wellFormed : ∀ f ∈ files, WellFormedPath f.1
  distinct : (files.map (·.1)).Nodup

/-- What stands against a pair behind some others: its path is malformed, or it is well formed and
one of them has it already. -/
inductive Refuses (before : List (String × String)) (f : String × String) : ProjectError → Prop
  | malformed (h : ¬ WellFormedPath f.1) : Refuses before f (.invalidPath f.1)
  | repeated (h : WellFormedPath f.1) (hbefore : f.1 ∈ before.map (·.1)) :
      Refuses before f (.duplicatePath f.1)

def pairs (p : Project) : List (String × String) :=
  p.files.map fun file => (file.path, file.content)

/-! ## One pair -/

theorem ext_files (h : p.files = p'.files) : p = p' := by
  cases p
  cases p'
  cases h
  rfl

/-- Behind the files of some pairs, a pair cannot be added for one of the two reasons. -/
theorem add_eq_error_iff (hfiles : p.files.map (·.path) = files.map (·.1)) :
    p.add f.1 f.2 = .error e ↔ Refuses files f e := by
  by_cases hpath : WellFormedPath f.1
  · by_cases htaken : f.1 ∈ p.files.map (·.path)
    · rw [add_of_taken hpath htaken]
      constructor
      · intro h
        obtain rfl := Except.error.inj h
        exact .repeated hpath (hfiles ▸ htaken)
      · intro h
        cases h with
        | malformed h => exact absurd hpath h
        | repeated => rfl
    · obtain ⟨p', hadd, -⟩ := add_of_new hpath htaken f.2
      rw [hadd]
      refine iff_of_false (fun h => nomatch h) fun h => ?_
      cases h with
      | malformed h => exact h hpath
      | repeated _ hbefore => exact htaken (hfiles ▸ hbefore)
  · rw [add_of_malformed hpath]
    constructor
    · intro h
      obtain rfl := Except.error.inj h
      exact .malformed hpath
    · intro h
      cases h with
      | malformed => rfl
      | repeated h => exact absurd h hpath

/-! ## All pairs -/

theorem ofFiles_eq_ok_iff : ofFiles files = .ok p ↔
    Buildable files ∧ p.files = files.map fun f => ⟨f.1, f.2⟩ := by
  constructor
  · intro h
    have hfiles : p.files = files.map fun f => ⟨f.1, f.2⟩ := files_of_foldlM_add h
    refine ⟨⟨fun f hf => isValidPath_iff_wellFormed.mp ?_, ?_⟩, hfiles⟩
    · exact p.valid ⟨f.1, f.2⟩ (hfiles ▸ List.mem_map_of_mem hf)
    · rw [← map_path_of_files hfiles]
      exact p.nodup
  · rintro ⟨⟨hwellFormed, hdistinct⟩, hfiles⟩
    obtain ⟨p', hp', hfiles'⟩ := ofFiles_of_good hwellFormed hdistinct
    rw [hp', ext_files (hfiles'.trans hfiles.symm)]

theorem ofFiles_eq_error_iff : ofFiles files = .error e ↔ ∃ before f after,
    files = before ++ f :: after ∧ Buildable before ∧ Refuses before f e := by
  rw [ofFiles, foldlM_eq_error_iff]
  constructor
  · rintro ⟨before, f, after, p, hfiles, hbefore, hadd⟩
    obtain ⟨hbuildable, hp⟩ := ofFiles_eq_ok_iff.mp hbefore
    refine ⟨before, f, after, hfiles, hbuildable, ?_⟩
    exact (add_eq_error_iff (map_path_of_files hp)).mp hadd
  · rintro ⟨before, f, after, hfiles, hbuildable, hrefuses⟩
    obtain ⟨p, hp, hpfiles⟩ := ofFiles_of_good hbuildable.wellFormed hbuildable.distinct
    refine ⟨before, f, after, p, hfiles, hp, ?_⟩
    exact (add_eq_error_iff (map_path_of_files hpfiles)).mpr hrefuses

theorem ofFiles_pairs (p : Project) : ofFiles p.pairs = .ok p := by
  refine ofFiles_eq_ok_iff.mpr ⟨⟨?_, ?_⟩, ?_⟩
  · intro f hf
    obtain ⟨file, hfile, rfl⟩ := List.mem_map.mp hf
    exact isValidPath_iff_wellFormed.mp (p.valid file hfile)
  · rw [pairs, List.map_map]
    exact p.nodup
  · rw [pairs, List.map_map]
    exact (List.map_id p.files).symm

/-- **Building a project.** It succeeds exactly if all paths are well formed and distinct. The
project then has the pairs for its files, in their order, each of its paths leads down from the root
by its own parts, and whatever a session makes of the project can be built again of the pairs that
it holds. Otherwise the error is that of the first pair that is malformed or, being well formed,
repeats the path of an earlier one. -/
theorem ofFiles_accepts_exactly_buildable (files : List (String × String)) :
    ((∃ p, ofFiles files = .ok p) ↔
      (∀ f ∈ files, WellFormedPath f.1) ∧ (files.map (·.1)).Nodup) ∧
    (∀ p, ofFiles files = .ok p →
      p.files = files.map (fun f => ⟨f.1, f.2⟩) ∧
      (∀ file ∈ p.files, leadsTo? file.path = some (Text.fields '/' file.path.toList)) ∧
      ∀ steps, ofFiles (HostStep.performAll steps p).pairs = .ok (HostStep.performAll steps p)) ∧
    ∀ e, ofFiles files = .error e ↔ ∃ before f after,
      files = before ++ f :: after ∧ Buildable before ∧ Refuses before f e := by
  refine ⟨?_, ?_, fun e => ofFiles_eq_error_iff⟩
  · constructor
    · rintro ⟨p, hp⟩
      obtain ⟨⟨hwellFormed, hdistinct⟩, -⟩ := ofFiles_eq_ok_iff.mp hp
      exact ⟨hwellFormed, hdistinct⟩
    · rintro ⟨hwellFormed, hdistinct⟩
      obtain ⟨p, hp, -⟩ := ofFiles_of_good hwellFormed hdistinct
      exact ⟨p, hp⟩
  · intro p hp
    refine ⟨(ofFiles_eq_ok_iff.mp hp).2, ?_, fun steps => ofFiles_pairs _⟩
    intro file hfile
    exact leadsTo?_of_wellFormed (isValidPath_iff_wellFormed.mp (p.valid file hfile))

/-- The path that is repeated comes before the malformed one. -/
example : ofFiles [("a/b", ""), ("a/b", "x"), ("../c", "")] =
    .error (.duplicatePath "a/b") := rfl

/-- A path that goes up and comes back is malformed, wherever it leads. -/
example : leadsTo? "a/../b" = some [['b']] ∧ leadsTo? "a/../../b" = none ∧
    ¬ WellFormedPath "a/../b" := by decide +kernel

end Project

end SourceEdit
