import Mathlib.Data.List.Perm.Basic
import SourceEdit.Data
import SourceEdit.Proofs.Latest

/-!
# Data up to the order of fields

A record may come back with its fields in another order than they were given. Where the names of the
fields are distinct, what is found under each of them is the same.
-/

namespace SourceEdit.Data

mutual

/-- The same data, but for the order of the fields in records. -/
inductive Reordered : Data → Data → Prop
  | same (d : Data) : Reordered d d
  | list {ds es : List Data} : List.Forall₂ Reordered ds es → Reordered (.list ds) (.list es)
  | record {fs gs hs : List (String × Data)} :
      List.Forall₂ SameField fs gs → gs.Perm hs → Reordered (.record fs) (.record hs)

inductive SameField : String × Data → String × Data → Prop
  | mk {d e : Data} (name : String) : Reordered d e → SameField (name, d) (name, e)

end

variable {d e : Data} {ds : List Data} {fs gs : List (String × Data)}

/-! ## Data without records -/

/-- Whether there is only one order. -/
def Rigid (d : Data) : Prop := ∀ e, Reordered d e → e = d

theorem rigid_text (value : String) : Rigid (.text value) := by
  intro e h
  cases h
  rfl

theorem rigid_integer (value : Int) : Rigid (.integer value) := by
  intro e h
  cases h
  rfl

theorem rigid_boolean (value : Bool) : Rigid (.boolean value) := by
  intro e h
  cases h
  rfl

theorem rigid_list (h : ∀ d ∈ ds, Rigid d) : Rigid (.list ds) := by
  intro e he
  cases he with
  | same => rfl
  | list hitems =>
      congr 1
      induction hitems with
      | nil => rfl
      | cons hd _ ih =>
          rw [h _ List.mem_cons_self _ hd, ih fun d hd => h d (List.mem_cons_of_mem _ hd)]

/-! ## Records -/

theorem SameField.refl (f : String × Data) : SameField f f := .mk f.1 (.same f.2)

theorem Reordered.exists_record (h : Reordered (.record fs) e) :
    ∃ gs hs, e = .record hs ∧ List.Forall₂ SameField fs gs ∧ gs.Perm hs := by
  cases h with
  | same => exact ⟨fs, fs, rfl, List.forall₂_same.mpr fun f _ => .refl f, .refl fs⟩
  | record hfields hperm => exact ⟨_, _, rfl, hfields, hperm⟩

theorem names_eq (h : List.Forall₂ SameField fs gs) : gs.map (·.1) = fs.map (·.1) := by
  induction h with
  | nil => rfl
  | cons hfield _ ih =>
      obtain ⟨name, hd⟩ := hfield
      rw [List.map_cons, List.map_cons, ih]

theorem rel_lookup (h : List.Forall₂ SameField fs gs) (name : String) :
    Option.Rel Reordered (fs.lookup name) (gs.lookup name) := by
  induction h with
  | nil => exact .none
  | cons hfield _ ih =>
      obtain ⟨name', hd⟩ := hfield
      rw [List.lookup_cons, List.lookup_cons]
      cases name == name' with
      | true => exact .some hd
      | false => exact ih

theorem members?_of_nodup (h : (fs.map (·.1)).Nodup) (surplus : Surplus) (names : List String) :
    members? surplus names (.record fs) = some fun name => fs.lookup name := by
  rw [members?, if_pos]
  refine List.all_eq_true.mpr fun name _ => decide_eq_true ?_
  have hcount := List.nodup_iff_count_le_one.mp h name
  rwa [List.count, List.countP_map] at hcount

/-- **What is found** under a name in a reordered record is what was there, itself reordered. -/
theorem Reordered.lookup (h : Reordered (.record fs) e) (hnames : (fs.map (·.1)).Nodup) :
    ∃ hs, e = .record hs ∧ (hs.map (·.1)).Nodup ∧
      ∀ name, Option.Rel Reordered (fs.lookup name) (hs.lookup name) := by
  obtain ⟨gs, hs, rfl, hfields, hperm⟩ := h.exists_record
  rw [← names_eq hfields] at hnames
  refine ⟨hs, rfl, (hperm.map (·.1)).nodup_iff.mp hnames, fun name => ?_⟩
  rw [← lookup_eq_of_perm hperm hnames]
  exact rel_lookup hfields name

theorem exists_of_rel {member : Option Data} (h : Option.Rel Reordered (some d) member) :
    ∃ e, member = some e ∧ d.Reordered e := by
  cases h with
  | some hd => exact ⟨_, rfl, hd⟩

theorem eq_of_rel {α : Type} {write : α → Data} {value : Option α} {member : Option Data}
    (h : Option.Rel Reordered (value.map write) member) (hrigid : ∀ a, Rigid (write a)) :
    member = value.map write := by
  cases value with
  | none =>
      cases h
      rfl
  | some a =>
      obtain ⟨e, rfl, he⟩ := exists_of_rel h
      rw [hrigid a e he]
      rfl

/-- Of fields with one order each there is only one order, as long as they keep theirs. -/
theorem fields_eq_of_rigid (h : List.Forall₂ SameField fs gs) (hrigid : ∀ f ∈ fs, Rigid f.2) :
    gs = fs := by
  induction h with
  | nil => rfl
  | cons hfield _ ih =>
      obtain ⟨name, hd⟩ := hfield
      rw [ih fun f hf => hrigid f (List.mem_cons_of_mem _ hf),
        hrigid _ List.mem_cons_self _ hd]

theorem Reordered.exists_texts {entries : List (String × String)}
    (h : Reordered (.record (entries.map fun e => (e.1, .text e.2))) e) :
    ∃ entries', entries.Perm entries' ∧
      e = .record (entries'.map fun e => (e.1, .text e.2)) := by
  obtain ⟨gs, hs, rfl, hfields, hperm⟩ := h.exists_record
  have hgs : gs = entries.map fun e => (e.1, .text e.2) := by
    refine fields_eq_of_rigid hfields fun f hf => ?_
    obtain ⟨entry, -, rfl⟩ := List.mem_map.mp hf
    exact rigid_text entry.2
  rw [hgs] at hperm
  have hback := congrFun₂ (List.eq_map_comp_perm fun e : String × String => (e.1, Data.text e.2))
    hs entries
  obtain ⟨entries', rfl, hentries⟩ := hback.mpr hperm.symm
  exact ⟨entries', hentries.symm, rfl⟩

end SourceEdit.Data
