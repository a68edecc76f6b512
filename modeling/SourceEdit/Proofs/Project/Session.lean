import SourceEdit.Proofs.Project.Ordered
import SourceEdit.Registry

/-!
# Sessions on a project

The host calls a project itself and has editors run on it by a registry. An editor reaches the
project through calls only, whichever they are and wherever it breaks off, so that a session is a
run of calls and the project an insertion-ordered map all along.
-/

namespace SourceEdit

variable {p : Project}

/-! ## The calls of an edit -/

namespace Edit

/-- The calls that an edit issues when it is run on a project, refused ones included. -/
def calls : Edit → Project → List Change
  | .finish _, _ => []
  | .breakOff _, _ => []
  | .inspect next, p => (next p).calls p
  | .add path content next, p =>
    .add path content ::
      match p.add path content with
      | .ok p' => (next (.ok ())).calls p'
      | .error e => (next (.error e)).calls p
  | .update path content next, p =>
    .update path content ::
      match p.update path content with
      | .ok p' => (next (.ok ())).calls p'
      | .error e => (next (.error e)).calls p
  | .remove path next, p =>
    .remove path ::
      match p.remove path with
      | .ok (file, p') => (next (.ok file)).calls p'
      | .error e => (next (.error e)).calls p

/-- **An edit** changes a project by its calls and in no other way. -/
theorem run_eq_after (e : Edit) (p : Project) : (e.run p).1 = p.after (e.calls p) := by
  induction e generalizing p with
  | finish result => rfl
  | breakOff error => rfl
  | inspect next ih => exact ih p p
  | add path content next ih =>
      cases hadd : p.add path content with
      | ok p' =>
          simp only [run, calls, hadd, Project.after_cons, Project.perform]
          exact ih (.ok ()) p'
      | error e =>
          simp only [run, calls, hadd, Project.after_cons, Project.perform]
          exact ih (.error e) p
  | update path content next ih =>
      cases hupdate : p.update path content with
      | ok p' =>
          simp only [run, calls, hupdate, Project.after_cons, Project.perform]
          exact ih (.ok ()) p'
      | error e =>
          simp only [run, calls, hupdate, Project.after_cons, Project.perform]
          exact ih (.error e) p
  | remove path next ih =>
      cases hremove : p.remove path with
      | ok r =>
          simp only [run, calls, hremove, Project.after_cons, Project.perform]
          exact ih (.ok r.1) r.2
      | error e =>
          simp only [run, calls, hremove, Project.after_cons, Project.perform]
          exact ih (.error e) p

end Edit

theorem Editor.run_eq_after (e : Editor) (p : Project) (bundle : Bundle) :
    (e.run p bundle).1 = p.after ((e.edit bundle).calls p) := by
  rw [← Edit.run_eq_after, Editor.run]
  split
  · next heq => rw [heq]
  · next heq => rw [heq]

/-! ## The calls of a session -/

inductive HostStep where
  | call (c : Change)
  /-- Has a registry run an editor with values that have been bound. -/
  | run (r : Registry) (editor : String) (bundle : Bundle)
  /-- Has a registry bind raw values for an editor and run it. -/
  | invoke (r : Registry) (editor : String) (raw : Dict String)

namespace HostStep

/-- The project after a step. One that the registry refuses does nothing. -/
def perform (p : Project) : HostStep → Project
  | .call c => (p.perform c).1
  | .run r editor bundle =>
    match r.run editor p bundle with
    | .ok (p', _) => p'
    | .error _ => p
  | .invoke r editor raw =>
    match r.invoke editor p raw with
    | .ok (p', _) => p'
    | .error _ => p

def editorCalls (p : Project) (r : Registry) (editor : String) (bundle : Bundle) : List Change :=
  match r.find editor with
  | .ok e => (e.edit bundle).calls p
  | .error _ => []

def calls (p : Project) : HostStep → List Change
  | .call c => [c]
  | .run r editor bundle => editorCalls p r editor bundle
  | .invoke r editor raw =>
    match r.bind editor raw with
    | .ok bundle => editorCalls p r editor bundle
    | .error _ => []

theorem perform_run (r : Registry) (editor : String) (bundle : Bundle) :
    perform p (.run r editor bundle) = p.after (editorCalls p r editor bundle) := by
  have hrun : r.run editor p bundle = r.find editor >>= fun e => pure (e.run p bundle) := rfl
  rw [perform, editorCalls, hrun]
  cases hfind : r.find editor with
  | error e => rfl
  | ok e => exact e.run_eq_after p bundle

theorem perform_invoke (r : Registry) (editor : String) (raw : Dict String) :
    perform p (.invoke r editor raw) = p.after (calls p (.invoke r editor raw)) := by
  have hinvoke : r.invoke editor p raw = r.bind editor raw >>= fun b => r.run editor p b := rfl
  rw [perform, calls, hinvoke]
  cases hbind : r.bind editor raw with
  | error e => rfl
  | ok bundle => exact perform_run r editor bundle

theorem perform_eq_after (s : HostStep) : s.perform p = p.after (s.calls p) := by
  cases s with
  | call c => rfl
  | run r editor bundle => exact perform_run r editor bundle
  | invoke r editor raw => exact perform_invoke r editor raw

def performAll : List HostStep → Project → Project
  | [], p => p
  | s :: steps, p => performAll steps (s.perform p)

def allCalls : List HostStep → Project → List Change
  | [], _ => []
  | s :: steps, p => s.calls p ++ allCalls steps (s.perform p)

/-- **A session** is the run of its calls. -/
theorem performAll_eq_after (steps : List HostStep) (p : Project) :
    performAll steps p = p.after (allCalls steps p) := by
  induction steps generalizing p with
  | nil => rfl
  | cons s steps ih =>
      rw [performAll, allCalls, ih, Project.after_append, ← perform_eq_after]

end HostStep

/-! ## The project as a map -/

/-- **A project is an insertion-ordered map.** Built from pairs, it shows the map of these pairs
after any run of calls, answers the next call as the map does, and is left as it was if that call is
refused. A session of the host, with editors of any kind, is such a run: of the calls that it issues
itself and those that its editors issue. -/
theorem session_follows_ordered_map {files : List (String × String)}
    (h : Project.ofFiles files = .ok p) (steps : List HostStep) :
    HostStep.performAll steps p = p.after (HostStep.allCalls steps p) ∧
      ∀ cs, (p.after cs).Shows ((OrderedMap.ofPairs files).after cs) ∧
        ∀ c, ((p.after cs).perform c).2 = (((OrderedMap.ofPairs files).after cs).perform c).2 ∧
          ∀ e, ((p.after cs).perform c).2 = .error e →
            ((p.after cs).perform c).1 = p.after cs := by
  refine ⟨HostStep.performAll_eq_after steps p, fun cs => ?_⟩
  have hview : (p.after cs).view = (OrderedMap.ofPairs files).after cs := by
    rw [Project.view_after, Project.view_of_ofFiles h]
  rw [← hview]
  refine ⟨Project.shows_view _, fun c => ⟨?_, fun e he => Project.perform_of_refused he⟩⟩
  rw [Project.view_perform]

/-- An editor that takes a file out, puts it back, and breaks off at a path that is taken. -/
def shuffle : Editor where
  info := ⟨"Shuffle", "Puts a file last", []⟩
  edit _ :=
    .remove "a.txt" (.orBreakOff fun file =>
      .add "a.txt" file.content (.orBreakOff fun _ =>
        .add "b/c.txt" "" (.orBreakOff fun _ => .finish (.success "done"))))

def shuffleRegistry : Registry := ⟨Dict.ofList [("Shuffle", shuffle)], ⟨∅⟩⟩

def unshuffled : Project where
  files := [⟨"a.txt", "1"⟩, ⟨"b/c.txt", "2"⟩]
  nodup := by decide
  valid := by decide +kernel

theorem shuffled_file_comes_last :
    Project.ofFiles [("a.txt", "1"), ("b/c.txt", "2")] = .ok unshuffled ∧
      ∃ p', HostStep.performAll [.run shuffleRegistry "Shuffle" ∅] unshuffled = p' ∧
        p'.Shows ((OrderedMap.ofPairs [("a.txt", "1"), ("b/c.txt", "2")]).after
          [.remove "a.txt", .add "a.txt" "1", .add "b/c.txt" ""]) ∧
        p'.files = [⟨"b/c.txt", "2"⟩, ⟨"a.txt", "1"⟩] := by
  have hbuilt : Project.ofFiles [("a.txt", "1"), ("b/c.txt", "2")] = .ok unshuffled := rfl
  refine ⟨hbuilt, _, rfl, ?_⟩
  obtain ⟨hrun, hshows⟩ :=
    session_follows_ordered_map hbuilt [.run shuffleRegistry "Shuffle" ∅]
  rw [hrun]
  have hcalls : HostStep.allCalls [.run shuffleRegistry "Shuffle" ∅] unshuffled =
      [.remove "a.txt", .add "a.txt" "1", .add "b/c.txt" ""] := by decide +kernel
  rw [hcalls]
  refine ⟨(hshows _).1, ?_⟩
  rw [(hshows _).1.files]
  decide +kernel

end SourceEdit
