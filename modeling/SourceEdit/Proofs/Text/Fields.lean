import SourceEdit.Text.Blank
import SourceEdit.Text.Fields
import Mathlib.Data.List.TakeWhile

/-!
# Joined fields and trimmed texts

Cutting is the inverse of joining on fields without the separator, and trimming takes away exactly
the blanks around a text that neither starts nor ends with one.
-/

namespace SourceEdit.Text

theorem fields_of_notMem {sep : Char} {f : List Char} (h : sep ∉ f) : fields sep f = [f] := by
  induction f with
  | nil => rfl
  | cons c f ih =>
      have hc : ¬ c = sep := fun e => h (by simp [e])
      rw [fields, if_neg hc, ih fun hm => h (List.mem_cons_of_mem _ hm)]

theorem length_fields (sep : Char) (cs : List Char) :
    (fields sep cs).length = cs.count sep + 1 := by
  induction cs with
  | nil => rfl
  | cons c cs ih =>
      rw [fields]
      by_cases hc : c = sep
      · rw [if_pos hc, hc, List.count_cons_self, List.length_cons, ih]
      · rw [if_neg hc, List.count_cons_of_ne hc, ← ih]
        cases hf : fields sep cs with
        | nil => exact absurd hf (fields_ne_nil sep cs)
        | cons f fs => rfl

theorem fields_append_sep {sep : Char} {f : List Char} (h : sep ∉ f) (cs : List Char) :
    fields sep (f ++ sep :: cs) = f :: fields sep cs := by
  induction f with
  | nil => rw [List.nil_append, fields, if_pos rfl]
  | cons c f ih =>
      have hc : ¬ c = sep := fun e => h (by simp [e])
      rw [List.cons_append, fields, if_neg hc, ih fun hm => h (List.mem_cons_of_mem _ hm)]

/-- Cutting two texts with a separator between them cuts each. -/
theorem fields_append_sep_append (sep : Char) (cs ds : List Char) :
    fields sep (cs ++ sep :: ds) = fields sep cs ++ fields sep ds := by
  induction cs with
  | nil => exact if_pos rfl
  | cons c cs ih =>
      rw [List.cons_append, fields, fields]
      by_cases hc : c = sep
      · rw [if_pos hc, if_pos hc, ih, List.cons_append]
      · rw [if_neg hc, if_neg hc, ih]
        cases hf : fields sep cs with
        | nil => exact absurd hf (fields_ne_nil sep cs)
        | cons f fs => rfl

theorem join_cons {sep : Char} {f : List Char} {fs : List (List Char)} (h : fs ≠ []) :
    join sep (f :: fs) = f ++ sep :: join sep fs := by
  cases fs with
  | nil => exact absurd rfl h
  | cons g gs => rfl

theorem fields_join {sep : Char} {fs : List (List Char)} (hne : fs ≠ [])
    (h : ∀ f ∈ fs, sep ∉ f) : fields sep (join sep fs) = fs := by
  induction fs with
  | nil => exact absurd rfl hne
  | cons f fs ih =>
      cases fs with
      | nil => exact fields_of_notMem (h f (by simp))
      | cons g gs =>
          rw [join_cons (by simp), fields_append_sep (h f (by simp)),
            ih (by simp) fun f' hf => h f' (List.mem_cons_of_mem _ hf)]

/-- The fields of a text are the parts without a separator that make it up. -/
theorem fields_eq_iff {sep : Char} {cs : List Char} {fs : List (List Char)} (hne : fs ≠ []) :
    fields sep cs = fs ↔ cs = join sep fs ∧ ∀ f ∈ fs, sep ∉ f := by
  constructor
  · rintro rfl
    exact ⟨(join_fields sep cs).symm, fun _ hf => not_mem_of_mem_fields hf⟩
  · rintro ⟨rfl, hfree⟩
    exact fields_join hne hfree

theorem join_concat (sep : Char) (fs : List (List Char)) (f : List Char) :
    join sep (fs ++ [f]) = fs.flatMap (fun g => g ++ [sep]) ++ f := by
  induction fs with
  | nil => rfl
  | cons g gs ih =>
      rw [List.cons_append, join_cons (by simp), ih]
      simp

theorem join_append_singleton {sep : Char} {fs : List (List Char)} (hne : fs ≠ [])
    (f : List Char) : join sep (fs ++ [f]) = join sep fs ++ sep :: f := by
  induction fs with
  | nil => exact absurd rfl hne
  | cons g gs ih =>
      cases gs with
      | nil => rfl
      | cons g' gs =>
          rw [List.cons_append, join_cons (by simp), join_cons (by simp), ih (by simp),
            List.append_assoc, List.cons_append]

theorem mem_join_of_mem {sep c : Char} {fs : List (List Char)} {f : List Char} (hf : f ∈ fs)
    (hc : c ∈ f) : c ∈ join sep fs := by
  induction fs with
  | nil => exact absurd hf List.not_mem_nil
  | cons g gs ih =>
      cases gs with
      | nil => rwa [List.mem_singleton.mp hf] at hc
      | cons g' gs =>
          rw [join_cons (by simp), List.mem_append]
          rcases List.mem_cons.mp hf with rfl | hf
          · exact Or.inl hc
          · exact Or.inr (List.mem_cons_of_mem _ (ih hf))

/-! ## Stretches at the start -/

theorem dropWhile_append_cons {α : Type} {p : α → Bool} {a : List α} {x : α} {b : List α}
    (ha : ∀ y ∈ a, p y = true) (hx : p x = false) : (a ++ x :: b).dropWhile p = x :: b := by
  rw [List.dropWhile_append_of_pos ha, List.dropWhile_cons_of_neg (by simp [hx])]

theorem takeWhile_append_cons {α : Type} {p : α → Bool} {a : List α} {x : α} {b : List α}
    (ha : ∀ y ∈ a, p y = true) (hx : p x = false) : (a ++ x :: b).takeWhile p = a := by
  rw [List.takeWhile_append_of_pos ha, List.takeWhile_cons_of_neg (by simp [hx]), List.append_nil]

/-- A text is the stretch at its start that satisfies `p`, and the rest. -/
theorem stretch_eq (p : Char → Bool) (cs : List Char) :
    cs = cs.takeWhile p ++ cs.dropWhile p ∧ ∀ c ∈ cs.takeWhile p, p c = true :=
  ⟨List.takeWhile_append_dropWhile.symm, fun _ hc => List.mem_takeWhile_imp hc⟩

/-- The rest begins with a character that does not satisfy `p`. -/
theorem head_of_dropWhile {p : Char → Bool} {cs rest : List Char} {c : Char}
    (h : cs.dropWhile p = c :: rest) : p c = false := by
  have hnot := List.head?_dropWhile_not p cs
  rw [h] at hnot
  simpa using hnot

/-! ## The last separator -/

/-- Where a text is not split, it holds no separator. -/
theorem splitLast_eq_none {sep : Char} {cs after : List Char}
    (h : splitLast sep cs = (none, after)) : cs = after ∧ sep ∉ after := by
  obtain ⟨hsplit, hfree⟩ := stretch_eq (· != sep) cs.reverse
  unfold splitLast at h
  dsimp only at h
  split at h
  · next hdrop =>
    obtain ⟨-, rfl⟩ := Prod.mk.inj h
    rw [hdrop, List.append_nil] at hsplit
    refine ⟨by rw [← hsplit, List.reverse_reverse], fun hmem => ?_⟩
    exact absurd (hfree sep (List.mem_reverse.mp hmem)) (by simp)
  · cases h

/-- Else the separator at which it is split is the last. -/
theorem splitLast_eq_some {sep : Char} {cs before after : List Char}
    (h : splitLast sep cs = (some before, after)) : cs = before ++ sep :: after ∧ sep ∉ after := by
  obtain ⟨hsplit, hfree⟩ := stretch_eq (· != sep) cs.reverse
  unfold splitLast at h
  dsimp only at h
  split at h
  · cases h
  · next c rest hdrop =>
    obtain ⟨hbefore, rfl⟩ := Prod.mk.inj h
    obtain rfl := Option.some.inj hbefore
    obtain rfl : c = sep := by simpa using head_of_dropWhile hdrop
    refine ⟨?_, fun hmem => ?_⟩
    · rw [hdrop] at hsplit
      generalize cs.reverse.takeWhile (· != c) = stretch at hsplit
      rw [← List.reverse_reverse cs, hsplit]
      simp
    · exact absurd (hfree c (List.mem_reverse.mp hmem)) (by simp)

theorem splitLast_of_notMem {sep : Char} {cs : List Char} (h : sep ∉ cs) :
    splitLast sep cs = (none, cs) := by
  match hsplit : splitLast sep cs with
  | (none, after) => rw [(splitLast_eq_none hsplit).1]
  | (some before, after) =>
      rw [(splitLast_eq_some hsplit).1] at h
      exact absurd (List.mem_append_right _ List.mem_cons_self) h

theorem splitLast_append_sep {sep : Char} {after : List Char} (h : sep ∉ after)
    (before : List Char) : splitLast sep (before ++ sep :: after) = (some before, after) := by
  have hfree : ∀ c ∈ after.reverse, (c != sep) = true := by
    intro c hc
    rw [bne_iff_ne]
    rintro rfl
    exact h (List.mem_reverse.mp hc)
  have hsep : (sep != sep) = false := bne_self_eq_false sep
  have hreverse : (before ++ sep :: after).reverse = after.reverse ++ sep :: before.reverse := by
    simp
  rw [splitLast, hreverse, takeWhile_append_cons hfree hsep, dropWhile_append_cons hfree hsep]
  simp only [List.reverse_reverse]

theorem getLast?_fields (sep : Char) (cs : List Char) :
    (fields sep cs).getLast? = some (splitLast sep cs).2 := by
  match hsplit : splitLast sep cs with
  | (none, after) =>
      obtain ⟨rfl, hfree⟩ := splitLast_eq_none hsplit
      rw [fields_of_notMem hfree]
      rfl
  | (some before, after) =>
      obtain ⟨rfl, hfree⟩ := splitLast_eq_some hsplit
      rw [fields_append_sep_append, fields_of_notMem hfree, List.getLast?_concat]

/-! ## Trimming -/

def AreBlanks (cs : List Char) : Prop := ∀ c ∈ cs, isBlank c = true

theorem areBlanks_nil : AreBlanks [] := fun _ hc => absurd hc List.not_mem_nil

theorem areBlanks_append {cs ds : List Char} :
    AreBlanks (cs ++ ds) ↔ AreBlanks cs ∧ AreBlanks ds := List.forall_mem_append

theorem trim_eq_nil_iff {cs : List Char} : trim cs = [] ↔ ∀ c ∈ cs, isBlank c = true := by
  unfold trim trimWhile dropEndWhile
  rw [List.reverse_eq_nil_iff, List.dropWhile_eq_nil_iff]
  constructor
  · intro hall c hc
    rw [← List.takeWhile_append_dropWhile (p := isBlank) (l := cs)] at hc
    rcases List.mem_append.mp hc with hc | hc
    · exact List.mem_takeWhile_imp hc
    · exact hall c (List.mem_reverse.mpr hc)
  · intro hall c hc
    exact hall c ((List.dropWhile_sublist _).subset (List.mem_reverse.mp hc))

theorem trim_append_blanks {a : Char} {cs : List Char} {z : Char} {blanks : List Char}
    (ha : isBlank a = false) (hz : (a :: cs).getLast? = some z) (hz' : isBlank z = false)
    (hblanks : ∀ c ∈ blanks, isBlank c = true) : trim (a :: cs ++ blanks) = a :: cs := by
  obtain ⟨init, hinit⟩ := List.getLast?_eq_some_iff.mp hz
  unfold trim trimWhile dropEndWhile
  rw [List.cons_append, List.dropWhile_cons_of_neg (by simp [ha]), ← List.cons_append, hinit,
    List.reverse_append, List.reverse_append, List.reverse_singleton, List.singleton_append,
    dropWhile_append_cons (fun y hy => hblanks y (List.mem_reverse.mp hy)) hz']
  simp

theorem trim_around {s cs t : List Char} (hs : AreBlanks s) (ht : AreBlanks t) :
    trim (s ++ cs ++ t) = trim cs := by
  unfold trim trimWhile dropEndWhile
  rw [List.append_assoc, List.dropWhile_append_of_pos hs, List.dropWhile_append]
  split
  · next hblank =>
    have hcs : cs.dropWhile isBlank = [] := List.isEmpty_iff.mp hblank
    have ht' : t.dropWhile isBlank = [] := List.dropWhile_eq_nil_iff.mpr ht
    rw [hcs, ht']
  · rw [List.reverse_append,
      List.dropWhile_append_of_pos fun c hc => ht c (List.mem_reverse.mp hc)]

theorem exists_blanks_around (cs : List Char) :
    ∃ s t, AreBlanks s ∧ AreBlanks t ∧ cs = s ++ trim cs ++ t := by
  obtain ⟨hstart, hs⟩ := stretch_eq isBlank cs
  obtain ⟨hend, ht⟩ := stretch_eq isBlank (cs.dropWhile isBlank).reverse
  refine ⟨_, ((cs.dropWhile isBlank).reverse.takeWhile isBlank).reverse, hs,
    fun c hc => ht c (List.mem_reverse.mp hc), ?_⟩
  rw [trim, trimWhile, dropEndWhile, List.append_assoc, ← List.reverse_append, ← hend,
    List.reverse_reverse]
  exact hstart

theorem trim_trim (cs : List Char) : trim (trim cs) = trim cs := by
  obtain ⟨s, t, hs, ht, hcs⟩ := exists_blanks_around cs
  have htrim : trim (s ++ trim cs ++ t) = trim (trim cs) := trim_around hs ht
  rw [← hcs] at htrim
  exact htrim.symm

theorem trim_eq_self_of_ends {a : Char} {cs : List Char} {z : Char} (ha : isBlank a = false)
    (hz : (a :: cs).getLast? = some z) (hz' : isBlank z = false) : trim (a :: cs) = a :: cs := by
  have htrim := trim_append_blanks ha hz hz' areBlanks_nil
  rwa [List.append_nil] at htrim

theorem trim_eq_self {cs : List Char} (h : ∀ c ∈ cs, isBlank c = false) : trim cs = cs := by
  cases cs with
  | nil => rfl
  | cons a cs =>
      have hlast : (a :: cs).getLast? = some ((a :: cs).getLast (by simp)) :=
        List.getLast?_eq_some_getLast _
      exact trim_eq_self_of_ends (h a (by simp)) hlast (h _ (List.getLast_mem _))

/-- What is of some kind, but for blanks around it. -/
def Padded (P : List Char → Prop) (cs : List Char) : Prop :=
  ∃ s core t, AreBlanks s ∧ P core ∧ AreBlanks t ∧ cs = s ++ core ++ t

theorem Padded.imp {P Q : List Char → Prop} {cs : List Char} (h : Padded P cs)
    (hPQ : ∀ cs, P cs → Q cs) : Padded Q cs := by
  obtain ⟨s, core, t, hs, hcore, ht, hcs⟩ := h
  exact ⟨s, core, t, hs, hPQ core hcore, ht, hcs⟩

theorem Padded.around {P : List Char → Prop} {s cs t : List Char} (hs : AreBlanks s)
    (h : Padded P cs) (ht : AreBlanks t) : Padded P (s ++ cs ++ t) := by
  obtain ⟨s', core, t', hs', hcore, ht', rfl⟩ := h
  refine ⟨s ++ s', core, t' ++ t, areBlanks_append.mpr ⟨hs, hs'⟩, hcore,
    areBlanks_append.mpr ⟨ht', ht⟩, ?_⟩
  simp only [List.append_assoc]

/-- Trimming finds what stands between the blanks, if that has none at its ends. -/
theorem padded_iff_trim {P : List Char → Prop} (hP : ∀ cs, P cs → trim cs = cs)
    {cs : List Char} : Padded P cs ↔ P (trim cs) := by
  constructor
  · rintro ⟨s, core, t, hs, hcore, ht, rfl⟩
    rwa [trim_around hs ht, hP core hcore]
  · intro hcore
    obtain ⟨s, t, hs, ht, hcs⟩ := exists_blanks_around cs
    exact ⟨s, trim cs, t, hs, hcore, ht, hcs⟩

end SourceEdit.Text
