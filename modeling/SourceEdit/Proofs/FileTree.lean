import SourceEdit.FileTree
import SourceEdit.Proofs.Latest
import SourceEdit.Proofs.Path

/-!
# Files in a tree

The regular files of a tree, each with the names that lead to it, in the order of a walk. In a sound
tree a path leads to one file at most, the names on it are proper parts of a path, and the text of
the path tells it from all others.
-/

namespace SourceEdit

theorem fromUTF8?_eq_some_iff {bytes : ByteArray} {content : String} :
    String.fromUTF8? bytes = some content ↔ content.toUTF8 = bytes := by
  rw [String.fromUTF8?]
  constructor
  · intro h
    split at h
    · obtain rfl := Option.some.inj h
      rfl
    · cases h
  · rintro rfl
    exact dif_pos content.isValidUTF8

/-! ## Texts of paths -/

theorem Text.join_eq_intercalate (sep : Char) (fs : List (List Char)) :
    Text.join sep fs = [sep].intercalate fs := by
  induction fs with
  | nil => rfl
  | cons f fs ih =>
      cases fs with
      | nil => simp [Text.join, List.intercalate]
      | cons g gs =>
          rw [Text.join_cons (List.cons_ne_nil g gs), ih]
          simp [List.intercalate]

theorem toList_pathText (names : List String) :
    (pathText names).toList = Text.join '/' (names.map String.toList) := by
  rw [pathText, String.toList_intercalate, Text.join_eq_intercalate]
  rfl

def IsName (name : String) : Prop := IsPathPart name.toList

instance (name : String) : Decidable (IsName name) :=
  inferInstanceAs (Decidable (IsPathPart name.toList))

theorem IsName.ne_dots {name : String} (h : IsName name) : name ≠ "." ∧ name ≠ ".." := by
  constructor
  · rintro rfl
    exact h.notHere rfl
  · rintro rfl
    exact h.notAbove rfl

theorem wellFormed_pathText {path : List String} (hne : path ≠ [])
    (hnames : ∀ name ∈ path, IsName name) : WellFormedPath (pathText path) := by
  refine ⟨path.map String.toList, fun h => hne (List.map_eq_nil_iff.mp h), ?_, ?_⟩
  · intro part hpart
    obtain ⟨name, hname, rfl⟩ := List.mem_map.mp hpart
    exact hnames name hname
  · rw [← toList_pathText, String.ofList_toList]

theorem pathText_inj {path path' : List String} (hne : path ≠ []) (hne' : path' ≠ [])
    (hnames : ∀ name ∈ path, IsName name) (hnames' : ∀ name ∈ path', IsName name)
    (h : pathText path = pathText path') : path = path' := by
  have hfields : ∀ {path : List String}, path ≠ [] → (∀ name ∈ path, IsName name) →
      Text.fields '/' (pathText path).toList = path.map String.toList := by
    intro path hne hnames
    rw [toList_pathText, Text.fields_join fun h => hne (List.map_eq_nil_iff.mp h)]
    intro part hpart
    obtain ⟨name, hname, rfl⟩ := List.mem_map.mp hpart
    exact (hnames name hname).noSlash
  have hmaps : path.map String.toList = path'.map String.toList := by
    rw [← hfields hne hnames, h, hfields hne' hnames']
  exact List.map_injective_iff.mpr (fun _ _ => String.toList_inj.mp) hmaps

/-! ## Induction -/

namespace FileTree

/-- What holds of a directory if it holds of all that stands in it holds of every tree, given that it
holds of files and links. -/
theorem induct {P : FileTree → Prop} (file : ∀ bytes, P (.file bytes))
    (link : ∀ target, P (.link target))
    (directory : ∀ entries, (∀ name node, (name, node) ∈ entries → P node) →
      P (.directory entries)) (t : FileTree) : P t := by
  have hcons : ∀ (e : String × FileTree) (rest : List (String × FileTree)), P e.2 →
      (∀ e' ∈ rest, P e'.2) → ∀ e' ∈ e :: rest, P e'.2 := by
    intro e rest he hrest e' hmem
    rcases List.mem_cons.mp hmem with rfl | hmem
    · exact he
    · exact hrest e' hmem
  exact @FileTree.rec P (fun entries => ∀ e ∈ entries, P e.2) (fun e => P e.2) file link
    (fun entries h => directory entries fun name node hmem => h (name, node) hmem)
    (fun _ h => absurd h List.not_mem_nil) hcons (fun _ _ h => h) t

/-! ## Sound trees -/

mutual

/-- The names in each directory are distinct, and each of them may stand there. -/
def IsSound : FileTree → Prop
  | .file _ => True
  | .link _ => True
  | .directory entries => (entries.map (·.1)).Nodup ∧ EntriesAreSound entries

def EntriesAreSound : List (String × FileTree) → Prop
  | [] => True
  | (name, node) :: rest => IsName name ∧ node.IsSound ∧ EntriesAreSound rest

end

mutual

/-- The regular files in a tree, each under its path. -/
def regularFiles : FileTree → List (List String × ByteArray)
  | .file bytes => [([], bytes)]
  | .link _ => []
  | .directory entries => regularIn entries

def regularIn : List (String × FileTree) → List (List String × ByteArray)
  | [] => []
  | (name, node) :: rest =>
    node.regularFiles.map (fun f => (name :: f.1, f.2)) ++ regularIn rest

end

variable {t node : FileTree} {entries : List (String × FileTree)} {path : List String}
  {name : String} {bytes : ByteArray}

theorem mem_regularIn_iff : (path, bytes) ∈ regularIn entries ↔
    ∃ name rest node, path = name :: rest ∧ (name, node) ∈ entries ∧
      (rest, bytes) ∈ node.regularFiles := by
  induction entries with
  | nil => simp [regularIn]
  | cons e entries ih =>
      obtain ⟨name, node⟩ := e
      rw [regularIn, List.mem_append, ih, List.mem_map]
      constructor
      · rintro (⟨f, hf, heq⟩ | ⟨name', rest, node', rfl, hmem, hfile⟩)
        · obtain ⟨rfl, rfl⟩ := Prod.mk.inj heq
          exact ⟨name, f.1, node, rfl, List.mem_cons_self, hf⟩
        · exact ⟨name', rest, node', rfl, List.mem_cons_of_mem _ hmem, hfile⟩
      · rintro ⟨name', rest, node', rfl, hmem, hfile⟩
        rcases List.mem_cons.mp hmem with heq | hmem
        · obtain ⟨rfl, rfl⟩ := Prod.mk.inj heq
          exact .inl ⟨(rest, bytes), hfile, rfl⟩
        · exact .inr ⟨name', rest, node', rfl, hmem, hfile⟩

theorem entriesAreSound_iff : EntriesAreSound entries ↔
    ∀ name node, (name, node) ∈ entries → IsName name ∧ node.IsSound := by
  induction entries with
  | nil => simp [EntriesAreSound]
  | cons e entries ih =>
      obtain ⟨name, node⟩ := e
      rw [EntriesAreSound, ih]
      constructor
      · rintro ⟨hname, hnode, hrest⟩ name' node' hmem
        rcases List.mem_cons.mp hmem with heq | hmem
        · obtain ⟨rfl, rfl⟩ := Prod.mk.inj heq
          exact ⟨hname, hnode⟩
        · exact hrest name' node' hmem
      · intro h
        obtain ⟨hname, hnode⟩ := h name node List.mem_cons_self
        exact ⟨hname, hnode, fun name' node' hmem => h name' node' (List.mem_cons_of_mem _ hmem)⟩

theorem at?_cons (entries : List (String × FileTree)) (name : String) (rest : List String) :
    (directory entries).at? (name :: rest) = (entries.lookup name).bind (·.at? rest) :=
  List.foldlM_cons

theorem at?_append (t : FileTree) (path rest : List String) :
    t.at? (path ++ rest) = (t.at? path).bind (·.at? rest) :=
  List.foldlM_append

theorem isDirectory_of_at?_cons {rest : List String} (h : t.at? (name :: rest) = some node) :
    t.isDirectory = true := by
  cases t with
  | directory entries => rfl
  | file bytes => cases h
  | link target => cases h

theorem isDirectory_of_at?_concat {rest : List String} (h : t.at? (rest ++ [name]) = some node) :
    t.isDirectory = true := by
  cases rest with
  | nil => exact isDirectory_of_at?_cons h
  | cons name' rest => exact isDirectory_of_at?_cons h

/-! ## Following paths -/

theorem canonical?_nil (t : FileTree) : t.canonical? [] = some [] := by
  rw [canonical?, canonicalFrom?]

/-- A path to a directory that leads through no links is followed as it stands. -/
theorem canonicalFrom?_append {start : List String} (links : Nat) (rest : List String)
    (hnames : ∀ name ∈ path, IsName name)
    (hat : t.at? (start ++ path) = some (.directory entries)) :
    canonicalFrom? t links start (path ++ rest) = canonicalFrom? t links (start ++ path) rest := by
  induction path generalizing start with
  | nil => rw [List.nil_append, List.append_nil]
  | cons name path ih =>
      obtain ⟨hhere, habove⟩ := (hnames name List.mem_cons_self).ne_dots
      rw [List.append_cons] at hat
      have hdirectory : ∃ entries', t.at? (start ++ [name]) = some (.directory entries') := by
        rw [at?_append, Option.bind_eq_some_iff] at hat
        obtain ⟨node, hnode, hrest⟩ := hat
        cases path with
        | nil => exact ⟨entries, hnode.trans hrest⟩
        | cons name' path =>
            cases node with
            | directory entries' => exact ⟨entries', hnode⟩
            | file bytes => cases hrest
            | link target => cases hrest
      obtain ⟨entries', hnode⟩ := hdirectory
      rw [List.cons_append, canonicalFrom?, if_neg hhere, if_neg habove]
      simp only [hnode]
      rw [ih (fun name hname => hnames name (List.mem_cons_of_mem _ hname)) hat, List.append_assoc]
      rfl

/-- A path leads to what its directory has under its last name, unless that is a link. -/
theorem follow?_concat (hnames : ∀ name ∈ path, IsName name) (hname : IsName name)
    (hat : t.at? path = some (.directory entries))
    (hlink : ∀ target, entries.lookup name ≠ some (.link target)) :
    t.follow? (path ++ [name]) = entries.lookup name := by
  obtain ⟨hhere, habove⟩ := hname.ne_dots
  have hentry : t.at? (path ++ [name]) = entries.lookup name := by
    rw [at?_append, hat, Option.bind_some, at?_cons]
    cases entries.lookup name <;> rfl
  rw [follow?, canonical?, canonicalFrom?_append _ _ hnames hat, List.nil_append, canonicalFrom?,
    if_neg hhere, if_neg habove]
  simp only [hentry]
  cases hnode : entries.lookup name with
  | none => rfl
  | some node =>
      rw [hnode] at hentry
      cases node with
      | file bytes => exact hentry
      | directory entries' =>
          simp only [canonicalFrom?]
          exact hentry
      | link target => exact absurd hnode (hlink target)

theorem text?_of_file {content : String} (h : t.follow? path = some (.file content.toUTF8)) :
    t.text? path = some (.ok content) := by
  rw [text?, h]
  simp only [fromUTF8?_eq_some_iff.mpr rfl]

theorem text?_of_nothing (h : t.follow? path = none) : t.text? path = none := by
  rw [text?, h]

/-- **The regular files** of a sound tree are those to which its paths lead. -/
theorem mem_regularFiles_iff (h : t.IsSound) :
    (path, bytes) ∈ t.regularFiles ↔ t.at? path = some (.file bytes) := by
  induction t using induct generalizing path with
  | file b =>
      cases path with
      | nil =>
          show ([], bytes) ∈ [([], b)] ↔ some (FileTree.file b) = some (.file bytes)
          rw [List.mem_singleton, Option.some_inj, FileTree.file.injEq, Prod.mk.injEq,
            and_iff_right rfl, eq_comm]
      | cons name rest =>
          show (name :: rest, bytes) ∈ [([], b)] ↔ none = some (FileTree.file bytes)
          simp
  | link target =>
      cases path with
      | nil =>
          show ([], bytes) ∈ [] ↔ some (FileTree.link target) = some (.file bytes)
          simp
      | cons name rest =>
          show (name :: rest, bytes) ∈ [] ↔ none = some (FileTree.file bytes)
          simp
  | directory entries ih =>
      rw [IsSound, entriesAreSound_iff] at h
      obtain ⟨hdistinct, hentries⟩ := h
      rw [regularFiles, mem_regularIn_iff]
      cases path with
      | nil =>
          show _ ↔ some (FileTree.directory entries) = some (.file bytes)
          simp
      | cons name rest =>
          rw [at?_cons, Option.bind_eq_some_iff]
          constructor
          · rintro ⟨name', rest', node, heq, hmem, hfile⟩
            obtain ⟨rfl, rfl⟩ := List.cons.inj heq
            exact ⟨node, (lookup_eq_some_iff hdistinct).mpr hmem,
              (ih name node hmem (hentries name node hmem).2).mp hfile⟩
          · rintro ⟨node, hlookup, hat⟩
            have hmem := (lookup_eq_some_iff hdistinct).mp hlookup
            exact ⟨name, rest, node, rfl, hmem,
              (ih name node hmem (hentries name node hmem).2).mpr hat⟩

theorem isName_of_mem_regularFiles (h : t.IsSound) (hfile : (path, bytes) ∈ t.regularFiles) :
    ∀ name ∈ path, IsName name := by
  induction t using induct generalizing path with
  | file b =>
      rw [regularFiles, List.mem_singleton, Prod.mk.injEq] at hfile
      rw [hfile.1]
      exact fun _ hname => absurd hname List.not_mem_nil
  | link target => exact absurd hfile List.not_mem_nil
  | directory entries ih =>
      rw [IsSound, entriesAreSound_iff] at h
      rw [regularFiles, mem_regularIn_iff] at hfile
      obtain ⟨name, rest, node, rfl, hmem, hfile⟩ := hfile
      intro name' hname'
      rcases List.mem_cons.mp hname' with rfl | hname'
      · exact (h.2 name' node hmem).1
      · exact ih name node hmem (h.2 name node hmem).2 hfile name' hname'

theorem ne_nil_of_mem_regularIn {f : List String × ByteArray} (hf : f ∈ regularIn entries) :
    f.1 ≠ [] := by
  obtain ⟨name, rest, node, hname, -, -⟩ := mem_regularIn_iff.mp hf
  rw [hname]
  exact List.cons_ne_nil name rest

theorem pathText_inj_of_mem {f g : List String × ByteArray} (h : (directory entries).IsSound)
    (hf : f ∈ regularIn entries) (hg : g ∈ regularIn entries)
    (heq : pathText f.1 = pathText g.1) : f.1 = g.1 :=
  pathText_inj (ne_nil_of_mem_regularIn hf) (ne_nil_of_mem_regularIn hg)
    (isName_of_mem_regularFiles h hf) (isName_of_mem_regularFiles h hg) heq

theorem nodup_regularFiles (h : t.IsSound) : (t.regularFiles.map (·.1)).Nodup := by
  induction t using induct with
  | file b => exact List.nodup_singleton []
  | link target => exact List.nodup_nil
  | directory entries ih =>
      obtain ⟨hdistinct, hentries⟩ := h
      rw [regularFiles]
      induction entries with
      | nil => exact List.nodup_nil
      | cons e entries ihentries =>
          obtain ⟨name, node⟩ := e
          obtain ⟨hname, hnode, hrest⟩ := hentries
          rw [List.map_cons, List.nodup_cons] at hdistinct
          rw [regularIn, List.map_append, List.map_map, List.nodup_append]
          refine ⟨?_, ihentries (fun name' node' hmem => ih name' node'
            (List.mem_cons_of_mem _ hmem)) hdistinct.2 hrest, ?_⟩
          · have hfiles := ih name node List.mem_cons_self hnode
            have hpaths : node.regularFiles.map ((·.1) ∘ fun f => (name :: f.1, f.2)) =
                (node.regularFiles.map (·.1)).map (name :: ·) := by
              rw [List.map_map]
              rfl
            rw [hpaths]
            exact hfiles.map fun _ _ heq => (List.cons.inj heq).2
          · -- the first name tells the files of one entry from those of the others
            rintro path hpath path' hpath' rfl
            obtain ⟨f, -, rfl⟩ := List.mem_map.mp hpath
            obtain ⟨f', hf', heq⟩ := List.mem_map.mp hpath'
            obtain ⟨name', rest, node', hf, hmem, -⟩ := mem_regularIn_iff.mp hf'
            have hnames : name' = name := (List.cons.inj (hf.symm.trans heq)).1
            exact hdistinct.1 (hnames ▸ List.mem_map_of_mem (f := (·.1)) hmem)

end FileTree

end SourceEdit
