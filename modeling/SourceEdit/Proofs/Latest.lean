import Mathlib.Data.List.Induction
import Mathlib.Data.List.Nodup

/-!
# The latest of several sources

Where several sources may say something, one after another, the latest that does is the one that
counts. Where they are kept apart by keys, there is one for each key, which is then both the first
and the latest.
-/

namespace SourceEdit

variable {α β : Type} {f : α → Option β} {xs : List α} {b : β}

/-- What the last of some sources says that says anything. -/
def latest? (f : α → Option β) (xs : List α) : Option β :=
  (xs.filterMap f).getLast?

theorem latest?_nil : latest? f [] = none := rfl

theorem latest?_concat (f : α → Option β) (xs : List α) (x : α) :
    latest? f (xs ++ [x]) = (f x).or (latest? f xs) := by
  rw [latest?, latest?, List.filterMap_append]
  cases hx : f x with
  | none => rw [List.filterMap_cons_none hx, List.filterMap_nil, List.append_nil, Option.none_or]
  | some b =>
      rw [List.filterMap_cons_some hx, List.filterMap_nil, List.getLast?_concat, Option.some_or]

theorem latest?_append (f : α → Option β) (xs ys : List α) :
    latest? f (xs ++ ys) = (latest? f ys).or (latest? f xs) := by
  induction ys using List.reverseRecOn with
  | nil => rw [List.append_nil, latest?_nil, Option.none_or]
  | append_singleton ys y ih =>
      rw [← List.append_assoc, latest?_concat, latest?_concat, ih, Option.or_assoc]

/-- Nothing is said exactly if no source says anything. -/
theorem latest?_eq_none_iff : latest? f xs = none ↔ ∀ x ∈ xs, f x = none := by
  rw [latest?, List.getLast?_eq_none_iff, List.filterMap_eq_nil_iff]

theorem latest?_eq_some_iff : latest? f xs = some b ↔
    ∃ before x after, xs = before ++ x :: after ∧ f x = some b ∧ ∀ y ∈ after, f y = none := by
  constructor
  · intro h
    induction xs using List.reverseRecOn with
    | nil => cases h
    | append_singleton xs x ih =>
        rw [latest?_concat] at h
        cases hx : f x with
        | some b' =>
            rw [hx, Option.some_or] at h
            exact ⟨xs, x, [], rfl, hx.trans h, by simp⟩
        | none =>
            rw [hx, Option.none_or] at h
            obtain ⟨before, y, after, rfl, hy, hafter⟩ := ih h
            refine ⟨before, y, after ++ [x], by simp, hy, ?_⟩
            intro z hz
            rcases List.mem_append.mp hz with hz | hz
            · exact hafter z hz
            · rw [List.mem_singleton.mp hz, hx]
  · rintro ⟨before, x, after, rfl, hx, hafter⟩
    have hbehind : latest? f after = none := latest?_eq_none_iff.mpr hafter
    rw [List.append_cons, latest?_append, latest?_concat, hbehind, hx, Option.none_or,
      Option.some_or]

theorem find?_key_eq_some_iff [DecidableEq β] {key : α → β} {x : α}
    (hdistinct : (xs.map key).Nodup) :
    xs.find? (fun x => key x = b) = some x ↔ x ∈ xs ∧ key x = b := by
  constructor
  · intro hfound
    have hkey := List.find?_some hfound
    exact ⟨List.mem_of_find?_eq_some hfound, of_decide_eq_true hkey⟩
  · rintro ⟨hmem, rfl⟩
    have hsome : (xs.find? fun y => key y = key x).isSome = true :=
      List.find?_isSome.mpr ⟨x, hmem, decide_eq_true rfl⟩
    obtain ⟨found, hfound⟩ := Option.isSome_iff_exists.mp hsome
    have hkey := List.find?_some hfound
    rw [hfound, List.inj_on_of_nodup_map hdistinct (List.mem_of_find?_eq_some hfound) hmem
      (of_decide_eq_true hkey)]

/-- Where names are distinct, looking up finds what stands there. -/
theorem lookup_eq_some_iff {entries : List (String × β)} {name : String}
    (h : (entries.map (·.1)).Nodup) :
    entries.lookup name = some b ↔ (name, b) ∈ entries := by
  induction entries with
  | nil => simp
  | cons e entries ih =>
      obtain ⟨name', b'⟩ := e
      rw [List.map_cons, List.nodup_cons] at h
      by_cases hname : name = name'
      · subst hname
        rw [List.lookup_cons_self, Option.some_inj, List.mem_cons]
        constructor
        · rintro rfl
          exact .inl rfl
        · rintro (heq | hmem)
          · exact (Prod.mk.inj heq).2.symm
          · exact absurd (List.mem_map_of_mem (f := (·.1)) hmem) h.1
      · have hne : (name == name') = false := beq_eq_false_iff_ne.mpr hname
        rw [List.lookup_cons, hne, ih h.2, List.mem_cons]
        constructor
        · exact .inr
        · rintro (heq | hmem)
          · exact absurd (Prod.mk.inj heq).1 hname
          · exact hmem

theorem lookup_eq_of_perm {entries entries' : List (String × β)} (hperm : entries.Perm entries')
    (h : (entries.map (·.1)).Nodup) (name : String) :
    entries.lookup name = entries'.lookup name := by
  have h' : (entries'.map (·.1)).Nodup := (hperm.map (·.1)).nodup_iff.mp h
  ext b
  rw [lookup_eq_some_iff h, lookup_eq_some_iff h', hperm.mem_iff]

end SourceEdit
