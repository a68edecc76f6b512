import SourceEdit.Proofs.Manifest.Sum
import SourceEdit.Proofs.Manifest.Valid
import SourceEdit.Proofs.Version.Brackets

/-!
# Constraints without their spaces

The constraint on the runtime is stored without its spaces, and what is stored is checked. A
constraint that is valid as it is written is valid without its spaces too. The converse fails in one
way: spaces between two characters of a version are taken away with the rest, and what was refused
as two words is accepted as one.
-/

namespace SourceEdit

namespace Version

open Text (AreBlanks Padded)

def unspaced (cs : List Char) : List Char := cs.filter (· != ' ')

theorem unspaced_append (cs ds : List Char) : unspaced (cs ++ ds) = unspaced cs ++ unspaced ds :=
  List.filter_append ..

theorem unspaced_cons_of_ne {c : Char} (hc : c ≠ ' ') (cs : List Char) :
    unspaced (c :: cs) = c :: unspaced cs :=
  List.filter_cons_of_pos (by simpa using hc)

/-! ## From what is written to what is stored -/

theorem areBlanks_unspaced {cs : List Char} (h : AreBlanks cs) : AreBlanks (unspaced cs) :=
  fun c hc => h c (List.mem_filter.mp hc).1

theorem IsWord.unspaced_eq {cs : List Char} (h : IsWord cs) : unspaced cs = cs := by
  refine List.filter_eq_self.mpr fun c hc => ?_
  have hne : c ≠ ' ' := by
    rintro rfl
    exact absurd (h ' ' hc).notBlank (by decide)
  simpa using hne

theorem padded_unspaced {P : List Char → Prop} (hP : ∀ cs, P cs → P (unspaced cs))
    {cs : List Char} (h : Padded P cs) : Padded P (unspaced cs) := by
  obtain ⟨s, core, t, hs, hcore, ht, rfl⟩ := h
  refine ⟨unspaced s, unspaced core, unspaced t, areBlanks_unspaced hs, hP core hcore,
    areBlanks_unspaced ht, ?_⟩
  rw [unspaced_append, unspaced_append]

theorem isWord_unspaced (cs : List Char) (h : IsWord cs) : IsWord (unspaced cs) := by
  rwa [h.unspaced_eq]

theorem isPlain_unspaced (cs : List Char) (h : IsPlain cs) : IsPlain (unspaced cs) := by
  rwa [h.word.unspaced_eq]

theorem ne_space_of_mark {c : Char} (h : c ∈ marks) : c ≠ ' ' := by
  rintro rfl
  exact absurd h (by decide)

theorem isRange_unspaced {cs : List Char} (h : IsRange cs) : IsRange (unspaced cs) := by
  cases h with
  | exact hb =>
      rw [unspaced_cons_of_ne (by decide), unspaced_append]
      exact .exact (padded_unspaced isWord_unspaced hb)
  | between ho hb hb' hc =>
      rw [unspaced_cons_of_ne (ne_space_of_mark (mem_marks_of_opening ho)), unspaced_append,
        unspaced_cons_of_ne (by decide), unspaced_append,
        unspaced_cons_of_ne (ne_space_of_mark (mem_marks_of_closing hc))]
      exact .between ho (padded_unspaced isWord_unspaced hb)
        (padded_unspaced isWord_unspaced hb') hc

theorem areRanges_unspaced (cs : List Char) (h : AreRanges cs) : AreRanges (unspaced cs) := by
  induction h with
  | last hr => exact .last (isRange_unspaced hr)
  | cons hr hs ht hrest ih =>
      rw [unspaced_append, unspaced_append, unspaced_cons_of_ne (by decide), unspaced_append]
      exact .cons (isRange_unspaced hr) (areBlanks_unspaced hs) (areBlanks_unspaced ht) ih

/-! ## From what is stored to what is written -/

/-- Spaces stand between two characters of a word. -/
def HasSplitWord (cs : List Char) : Prop :=
  ∃ before c n d after, cs = before ++ c :: (List.replicate (n + 1) ' ' ++ d :: after) ∧
    IsWordChar c ∧ IsWordChar d

/-- Parts of a text without split words have none either. -/
theorem HasSplitWord.of_infix {cs ds : List Char} (h : HasSplitWord cs) (hpart : cs <:+: ds) :
    HasSplitWord ds := by
  obtain ⟨b, c, n, d, a, rfl, hc, hd⟩ := h
  obtain ⟨before, after, rfl⟩ := hpart
  exact ⟨before ++ b, c, n, d, a ++ after, by simp, hc, hd⟩

theorem HasSplitWord.splitsWord {cs : List Char} (h : HasSplitWord cs) : SplitsWord cs := by
  obtain ⟨before, c, n, d, after, hcs, hc, hd⟩ := h
  refine ⟨before, c, List.replicate (n + 1) ' ', d, after, hcs, hc, ?_, by simp, hd⟩
  intro x hx
  rw [(List.mem_replicate.mp hx).2]
  rfl

theorem areBlanks_replicate (n : Nat) : AreBlanks (List.replicate n ' ') := by
  intro x hx
  rw [(List.mem_replicate.mp hx).2]
  rfl

/-- What is blank without its spaces is blank. -/
theorem areBlanks_of_unspaced {cs : List Char} (h : AreBlanks (unspaced cs)) : AreBlanks cs := by
  intro c hc
  by_cases hspace : c = ' '
  · rw [hspace]
    rfl
  · exact h c (List.mem_filter.mpr ⟨hc, by simpa using hspace⟩)

/-- A word is written with spaces around it, if none are within. -/
theorem word_of_unspaced {cs : List Char} (hsplit : ¬ HasSplitWord cs)
    (h : IsWord (unspaced cs)) :
    ∃ m n, cs = List.replicate m ' ' ++ unspaced cs ++ List.replicate n ' ' := by
  induction cs with
  | nil => exact ⟨0, 0, rfl⟩
  | cons c cs ih =>
      have hrest : ¬ HasSplitWord cs := fun h => hsplit (h.of_infix ⟨[c], [], by simp⟩)
      by_cases hspace : c = ' '
      · subst hspace
        obtain ⟨m, n, hcs⟩ := ih hrest h
        exact ⟨m + 1, n, congrArg (' ' :: ·) hcs⟩
      · rw [unspaced_cons_of_ne hspace] at h ⊢
        obtain ⟨m, n, hcs⟩ := ih hrest fun x hx => h x (List.mem_cons_of_mem _ hx)
        cases m with
        | zero => exact ⟨0, n, congrArg (c :: ·) hcs⟩
        | succ m =>
            cases hword : unspaced cs with
            | nil =>
                rw [hword, List.append_nil, List.replicate_append_replicate] at hcs
                exact ⟨0, m + 1 + n, congrArg (c :: ·) hcs⟩
            | cons d w =>
                -- the spaces behind the first character split the word
                rw [hword] at hcs h
                refine absurd ⟨[], c, m, d, w ++ List.replicate n ' ', ?_, h c (by simp),
                  h d (by simp)⟩ hsplit
                rw [hcs]
                simp

theorem padded_of_word {P : List Char → Prop} {cs : List Char} (hsplit : ¬ HasSplitWord cs)
    (hword : IsWord (unspaced cs)) (h : P (unspaced cs)) : Padded P cs := by
  obtain ⟨m, n, hcs⟩ := word_of_unspaced hsplit hword
  exact ⟨_, _, _, areBlanks_replicate m, h, areBlanks_replicate n, hcs⟩

/-- What is padded without its spaces is padded, if that is so of what stands between. -/
theorem padded_of_unspaced {P : List Char → Prop}
    (hP : ∀ cs, ¬ HasSplitWord cs → P (unspaced cs) → Padded P cs) {cs : List Char}
    (hsplit : ¬ HasSplitWord cs) (h : Padded P (unspaced cs)) : Padded P cs := by
  obtain ⟨s, core, t, hs, hcore, ht, hcs⟩ := h
  obtain ⟨front, t', rfl, hfront, rfl⟩ := List.filter_eq_append_iff.mp hcs
  obtain ⟨s', core', rfl, rfl, rfl⟩ := List.filter_eq_append_iff.mp hfront
  have hcore' : ¬ HasSplitWord core' := fun h => hsplit (h.of_infix ⟨s', t', rfl⟩)
  exact (hP core' hcore' hcore).around (areBlanks_of_unspaced hs) (areBlanks_of_unspaced ht)

/-- A character that is not a space is found where it was, with the spaces before it. -/
theorem exists_of_unspaced {cs ds rest : List Char} {c : Char}
    (h : unspaced cs = ds ++ c :: rest) : ∃ ds' rest', cs = ds' ++ c :: rest' ∧
      unspaced ds' = ds ∧ unspaced rest' = rest := by
  obtain ⟨front, back, rfl, rfl, hback⟩ := List.filter_eq_append_iff.mp h
  obtain ⟨spaces, rest', rfl, hspaces, -, rfl⟩ := List.filter_eq_cons_iff.mp hback
  refine ⟨front ++ spaces, rest', by simp, ?_, rfl⟩
  have hnone : unspaced spaces = [] := List.filter_eq_nil_iff.mpr hspaces
  rw [unspaced_append, hnone, List.append_nil]
  rfl

theorem areBlanks_of_unspaced_eq_nil {cs : List Char} (h : unspaced cs = []) : AreBlanks cs :=
  areBlanks_of_unspaced (h ▸ Text.areBlanks_nil)

theorem padded_word_of_unspaced {cs : List Char} (hsplit : ¬ HasSplitWord cs)
    (h : Padded IsWord (unspaced cs)) : Padded IsWord cs :=
  padded_of_unspaced (fun _ hsplit h => padded_of_word hsplit h h) hsplit h

/-- A range is written with spaces around it, and around its words. -/
theorem range_of_unspaced {r cs : List Char} (h : IsRange r) (hsplit : ¬ HasSplitWord cs)
    (hcs : unspaced cs = r) : Padded IsRange cs := by
  cases h with
  | @exact b hb =>
      have hopen : unspaced cs = [] ++ '[' :: (b ++ [']']) := hcs
      obtain ⟨s, inner, rfl, hs, hinner⟩ := exists_of_unspaced hopen
      obtain ⟨b, t, rfl, rfl, ht⟩ := exists_of_unspaced hinner
      have hword : Padded IsWord b := padded_word_of_unspaced
        (fun h => hsplit (h.of_infix ⟨s ++ ['['], ']' :: t, by simp⟩)) hb
      exact ⟨s, '[' :: (b ++ [']']), t, areBlanks_of_unspaced_eq_nil hs, .exact hword,
        areBlanks_of_unspaced_eq_nil ht, by simp⟩
  | @between o c b b' ho hb hb' hc =>
      have hopen : unspaced cs = [] ++ o :: (b ++ ',' :: (b' ++ [c])) := hcs
      obtain ⟨s, inner, rfl, hs, hinner⟩ := exists_of_unspaced hopen
      obtain ⟨b, back, rfl, rfl, hback⟩ := exists_of_unspaced hinner
      obtain ⟨b', t, rfl, rfl, ht⟩ := exists_of_unspaced hback
      have hword : Padded IsWord b := padded_word_of_unspaced
        (fun h => hsplit (h.of_infix ⟨s ++ [o], ',' :: (b' ++ c :: t), by simp⟩)) hb
      have hword' : Padded IsWord b' := padded_word_of_unspaced
        (fun h => hsplit (h.of_infix ⟨s ++ o :: (b ++ [',']), c :: t, by simp⟩)) hb'
      exact ⟨s, o :: (b ++ ',' :: (b' ++ [c])), t, areBlanks_of_unspaced_eq_nil hs,
        .between ho hword hword' hc, areBlanks_of_unspaced_eq_nil ht, by simp⟩

/-- A list of ranges is written with spaces around it, and between its parts. -/
theorem ranges_of_unspaced {rs cs : List Char} (h : AreRanges rs) (hsplit : ¬ HasSplitWord cs)
    (hcs : unspaced cs = rs) : Padded AreRanges cs := by
  induction h generalizing cs with
  | last hr => exact (range_of_unspaced hr hsplit hcs).imp fun _ => .last
  | @cons r s t rest hr hs ht hrest ih =>
      have hcomma : unspaced cs = (r ++ s) ++ ',' :: (t ++ rest) := by rw [hcs, List.append_assoc]
      obtain ⟨front, back, rfl, hfront, hback⟩ := exists_of_unspaced hcomma
      obtain ⟨r', s', rfl, hr', rfl⟩ := List.filter_eq_append_iff.mp hfront
      obtain ⟨t', rest', rfl, rfl, hrest'⟩ := List.filter_eq_append_iff.mp hback
      have hfirst := range_of_unspaced hr
        (fun h => hsplit (h.of_infix ⟨[], s' ++ ',' :: (t' ++ rest'), by simp⟩)) hr'
      have hothers := ih
        (fun h => hsplit (h.of_infix ⟨r' ++ s' ++ ',' :: t', [], by simp⟩)) hrest'
      -- the spaces behind the first range and before the others stand around the comma
      obtain ⟨before, r'', gap, hbefore, hrange, hgap, rfl⟩ := hfirst
      obtain ⟨gap', rest'', after, hgap', hranges, hafter, rfl⟩ := hothers
      refine ⟨before, r'' ++ ((gap ++ s') ++ ',' :: ((t' ++ gap') ++ rest'')), after, hbefore,
        .cons hrange ?_ ?_ hranges, hafter, by simp⟩
      · exact Text.areBlanks_append.mpr ⟨hgap, areBlanks_of_unspaced hs⟩
      · exact Text.areBlanks_append.mpr ⟨areBlanks_of_unspaced ht, hgap'⟩

/-! ## What is accepted has no split words -/

theorem not_splitsWord_of_padded_word {cs : List Char} (h : Padded IsWord cs) :
    ¬ SplitsWord cs := by
  obtain ⟨phase, hwalk⟩ := walk_bound false false h
  exact hwalk.not_splitsWord

theorem not_splitsWord_of_padded_ranges {cs : List Char} (h : Padded AreRanges cs) :
    ¬ SplitsWord cs := by
  obtain ⟨s, core, t, hs, hcore, ht, rfl⟩ := h
  exact (((walk_outside hs).append hcore.walk).append (walk_outside ht)).not_splitsWord

end Version

namespace Manifest

open Version (HasSplitWord unspaced)

variable {key r : String} {m m' : Manifest} {p : Part} {project : Project}

theorem toList_withoutSpaces (r : String) : (withoutSpaces r).toList = unspaced r.toList := by
  rw [withoutSpaces, String.toList_ofList]
  rfl

theorem checkVersion_withoutSpaces (h : checkVersion key (some r) = .ok ()) :
    checkVersion key (some (withoutSpaces r)) = .ok () := by
  rw [checkVersion_some_eq_ok_iff_padded] at h ⊢
  rw [toList_withoutSpaces]
  exact h.imp (Version.padded_unspaced Version.isPlain_unspaced)
    (Version.padded_unspaced Version.areRanges_unspaced)

theorem not_hasSplitWord_of_checkVersion (h : checkVersion key (some r) = .ok ()) :
    ¬ HasSplitWord r.toList := by
  intro hsplit
  rcases checkVersion_some_eq_ok_iff_padded.mp h with hplain | hranges
  · have hword := hplain.imp fun _ h => h.word
    exact Version.not_splitsWord_of_padded_word hword hsplit.splitsWord
  · exact Version.not_splitsWord_of_padded_ranges hranges hsplit.splitsWord

theorem checkVersion_of_withoutSpaces (h : checkVersion key (some (withoutSpaces r)) = .ok ())
    (hsplit : ¬ HasSplitWord r.toList) : checkVersion key (some r) = .ok () := by
  rw [checkVersion_some_eq_ok_iff_padded] at h ⊢
  rw [toList_withoutSpaces] at h
  refine h.imp ?_ ?_
  · exact Version.padded_of_unspaced
      (fun _ hsplit h => Version.padded_of_word hsplit h.word h) hsplit
  · exact Version.padded_of_unspaced
      (fun _ hsplit h => Version.ranges_of_unspaced h hsplit rfl) hsplit

/-- **What is stored against what is written.** -/
theorem checkVersion_iff_withoutSpaces : checkVersion key (some r) = .ok () ↔
    checkVersion key (some (withoutSpaces r)) = .ok () ∧ ¬ HasSplitWord r.toList :=
  ⟨fun h => ⟨checkVersion_withoutSpaces h, not_hasSplitWord_of_checkVersion h⟩,
    fun h => checkVersion_of_withoutSpaces h.1 h.2⟩

theorem requires_of_addPart (hr : p.requires = some r) (h : m.addPart p = .ok m') :
    m'.requires = some (withoutSpaces r) := by
  obtain ⟨_, _, _, _, rfl⟩ := addPart_eq_ok_iff.mp h
  show (p.requires.map withoutSpaces <|> m.requires) = _
  rw [hr]
  rfl

/-- What the documents say last is what is stored, without its spaces. -/
theorem requires_of_ofText {text : String} (h : ofText text = .ok m)
    (hr : latest? (·.requires) ((Yaml.documents text.toList).filterMap said?) = some r) :
    m.requires = some (withoutSpaces r) := by
  obtain ⟨-, rfl⟩ := ofDocuments_eq_ok_iff.mp h
  exact congrArg (Option.map withoutSpaces) hr

/-- **A constraint is checked without its spaces.** A constraint is accepted as it is written just
if it is accepted as it is stored and has no spaces between two characters of a version. So a
manifest with a constraint that is not accepted as it is written is refused, unless such spaces are
the only fault of the constraint. -/
theorem requires_checked_without_spaces (r : String) :
    (∀ key, checkVersion key (some r) = .ok () ↔
      checkVersion key (some (withoutSpaces r)) = .ok () ∧ ¬ HasSplitWord r.toList) ∧
    (∀ m p m', p.requires = some r → addPart m p = .ok m' →
      m'.requires = some (withoutSpaces r)) ∧
    ∀ project file, project.find? path = some file →
      latest? (·.requires) ((Yaml.documents file.content.toList).filterMap said?) = some r →
      (∀ m, ofProject project = .ok m → m.requires = some (withoutSpaces r) ∧
        checkVersion "requires" (some (withoutSpaces r)) = .ok ()) ∧
      (checkVersion "requires" (some r) ≠ .ok () → ¬ HasSplitWord r.toList →
        ∃ e, ofProject project = .error e) := by
  refine ⟨fun _ => checkVersion_iff_withoutSpaces, fun _ _ _ => requires_of_addPart, ?_⟩
  intro project file hfile hlast
  have hread : ∀ m, ofProject project = .ok m → m.requires = some (withoutSpaces r) ∧
      checkVersion "requires" (some (withoutSpaces r)) = .ok () := by
    intro m hm
    obtain ⟨file', hfile', hread, hvalid⟩ := ofProject_eq_ok_iff.mp hm
    obtain rfl := Option.some.inj (hfile.symm.trans hfile')
    have hstored := requires_of_ofText hread hlast
    obtain ⟨-, -, -, hrequires⟩ := validate_eq_ok_iff.mp hvalid
    exact ⟨hstored, hstored ▸ hrequires⟩
  refine ⟨hread, ?_⟩
  intro hwritten hsplit
  cases hm : ofProject project with
  | error e => exact ⟨e, rfl⟩
  | ok m => exact absurd (checkVersion_of_withoutSpaces (hread m hm).2 hsplit) hwritten

/-- A project whose manifest has a space within the required version. -/
def spacedProject : Project where
  files := [⟨path, "group: g\nartifact: a\nversion: 1.0.0\nrequires: 1.0 beta"⟩]
  nodup := by simp
  valid := by decide +kernel

/-- The required version is not accepted as it is written, but the manifest is. -/
theorem split_version_is_joined :
    checkVersion "requires" (some "1.0 beta") = .error (.invalidVersion "requires" "1.0 beta") ∧
      checkVersion "requires" (some (withoutSpaces "1.0 beta")) = .ok () ∧
      ofProject spacedProject = .ok {
        group := "g", artifact := "a", version := some "1.0.0", requires := some "1.0beta" } := by
  refine ⟨?_, ?_, ?_⟩ <;> decide +kernel

end Manifest

end SourceEdit
