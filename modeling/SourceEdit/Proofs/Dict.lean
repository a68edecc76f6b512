import SourceEdit.Dict
import SourceEdit.Proofs.Latest
import Mathlib.Data.List.Sort

/-!
# What a dictionary holds

A dictionary is seen through `get?`: an insertion changes the value under its own name and no
other, and the keys are the names that have a value.
-/

namespace SourceEdit.Dict

variable {α : Type}

theorem find?_insertEntry_self (k : String) (v : α) (es : List (String × α)) :
    (insertEntry k v es).find? (·.1 = k) = some (k, v) := by
  induction es with
  | nil => simp [insertEntry]
  | cons e es ih =>
      obtain ⟨k', v'⟩ := e
      rw [insertEntry]
      by_cases hlt : k < k'
      · simp [hlt]
      · by_cases heq : k = k'
        · simp [heq]
        · have hne : ¬ k' = k := fun e => heq e.symm
          rw [if_neg hlt, if_neg heq, List.find?_cons_of_neg (by simpa using hne)]
          exact ih

theorem find?_insertEntry_of_ne {k k' : String} (h : k' ≠ k) (v : α) (es : List (String × α)) :
    (insertEntry k v es).find? (·.1 = k') = es.find? (·.1 = k') := by
  have hk : ¬ k = k' := fun e => h e.symm
  induction es with
  | nil => simp [insertEntry, hk]
  | cons e es ih =>
      obtain ⟨j, w⟩ := e
      rw [insertEntry]
      by_cases hlt : k < j
      · rw [if_pos hlt, List.find?_cons_of_neg (by simpa using hk)]
      · by_cases heq : k = j
        · subst heq
          simp [hk]
        · rw [if_neg hlt, if_neg heq, List.find?_cons, List.find?_cons, ih]

theorem get?_insert (d : Dict α) (k k' : String) (v : α) :
    (d.insert k v).get? k' = if k' = k then some v else d.get? k' := by
  unfold get? insert
  by_cases h : k' = k
  · rw [if_pos h, h]
    show ((insertEntry k v d.entries).find? (·.1 = k)).map (·.2) = some v
    rw [find?_insertEntry_self]
    rfl
  · rw [if_neg h]
    show ((insertEntry k v d.entries).find? (·.1 = k')).map (·.2) = _
    rw [find?_insertEntry_of_ne h]

theorem mem_keys_iff {d : Dict α} {k : String} : k ∈ d.keys ↔ (d.get? k).isSome = true := by
  simp only [keys, get?, Option.isSome_map, List.find?_isSome, List.mem_map, decide_eq_true_eq]

theorem contains_iff_isSome {d : Dict α} {k : String} :
    d.contains k = true ↔ (d.get? k).isSome = true := by
  rw [contains, get?, Option.isSome_map, List.find?_isSome, List.any_eq_true]

theorem keys_pairwise (d : Dict α) : d.keys.Pairwise (· < ·) := by
  rw [keys, List.pairwise_map]
  exact d.sorted

theorem nodup_keys (d : Dict α) : d.keys.Nodup := by
  refine d.keys_pairwise.imp fun hlt heq => ?_
  rw [heq] at hlt
  exact String.lt_irrefl _ hlt

/-- The first name that satisfies a test is the smallest that does. -/
theorem find?_keys_eq_some_iff {d : Dict α} {test : String → Bool} {k : String} :
    d.keys.find? test = some k ↔ k ∈ d.keys ∧ test k = true ∧
      ∀ k' ∈ d.keys, test k' = true → k' = k ∨ k < k' := by
  have hsorted := d.keys_pairwise
  rw [List.find?_eq_some_iff_append]
  constructor
  · rintro ⟨htest, before, after, hkeys, hbefore⟩
    rw [hkeys] at hsorted ⊢
    refine ⟨by simp, htest, ?_⟩
    intro k' hk' htest'
    rcases List.mem_append.mp hk' with hk' | hk'
    · have hnot := hbefore k' hk'
      rw [htest'] at hnot
      exact absurd hnot (by decide)
    · rcases List.mem_cons.mp hk' with rfl | hk'
      · exact Or.inl rfl
      · exact Or.inr (List.rel_of_pairwise_cons (List.pairwise_append.mp hsorted).2.1 hk')
  · rintro ⟨hk, htest, hleast⟩
    obtain ⟨before, after, hkeys⟩ := List.append_of_mem hk
    refine ⟨htest, before, after, hkeys, ?_⟩
    intro k' hk'
    rw [Bool.not_eq_true']
    apply Bool.eq_false_iff.mpr
    intro htest'
    rw [hkeys] at hsorted hleast
    have hlt : k' < k := (List.pairwise_append.mp hsorted).2.2 k' hk' k List.mem_cons_self
    rcases hleast k' (List.mem_append_left _ hk') htest' with rfl | hgt
    · exact String.lt_irrefl k' hlt
    · exact String.lt_asymm hlt hgt

/-! ## Several entries -/

def under (k : String) (e : String × α) : Option α :=
  if e.1 = k then some e.2 else none

theorem under_self (e : String × α) : under e.1 e = some e.2 := if_pos rfl

theorem under_of_ne {k : String} {e : String × α} (h : e.1 ≠ k) : under k e = none := if_neg h

theorem get?_foldl_insert (d : Dict α) (es : List (String × α)) (k : String) :
    (es.foldl (fun d e => d.insert e.1 e.2) d).get? k =
      (latest? (under k) es).or (d.get? k) := by
  induction es using List.reverseRecOn with
  | nil => rfl
  | append_singleton es e ih =>
      rw [List.foldl_append, List.foldl_cons, List.foldl_nil, get?_insert, ih, latest?_concat]
      by_cases hk : k = e.1
      · subst hk
        rw [if_pos rfl, under_self, Option.some_or, Option.some_or]
      · rw [if_neg hk, under_of_ne fun h => hk h.symm, Option.none_or]

theorem get?_ofList (es : List (String × α)) (k : String) :
    (ofList es).get? k = latest? (under k) es := by
  rw [ofList, get?_foldl_insert]
  exact Option.or_none

/-- In a dictionary there is one entry under a name at most. -/
theorem mem_entries_iff {d : Dict α} {e : String × α} :
    e ∈ d.entries ↔ latest? (under e.1) d.entries = some e.2 := by
  constructor
  · intro he
    obtain ⟨before, after, hentries⟩ := List.append_of_mem he
    refine latest?_eq_some_iff.mpr ⟨before, e, after, hentries, under_self e, ?_⟩
    intro e' he'
    have hsorted := d.sorted
    rw [hentries, List.pairwise_append] at hsorted
    have hlt := List.rel_of_pairwise_cons hsorted.2.1 he'
    exact under_of_ne fun h => String.lt_irrefl e.1 (by rwa [h] at hlt)
  · intro h
    obtain ⟨before, e', after, hentries, he', -⟩ := latest?_eq_some_iff.mp h
    rw [under, Option.ite_none_right_eq_some] at he'
    obtain rfl : e' = e := Prod.ext he'.1 (Option.some.inj he'.2)
    rw [hentries]
    exact List.mem_append_right _ List.mem_cons_self

theorem latest?_entries (d : Dict α) (k : String) : latest? (under k) d.entries = d.get? k := by
  cases hfind : d.entries.find? (·.1 = k) with
  | none =>
      rw [get?, hfind, Option.map_none, latest?_eq_none_iff]
      intro e he
      exact under_of_ne fun h => List.find?_eq_none.mp hfind e he (decide_eq_true h)
  | some e =>
      have hname : e.1 = k := of_decide_eq_true (List.find?_some hfind :)
      rw [get?, hfind, Option.map_some, ← hname]
      exact mem_entries_iff.mp (List.mem_of_find?_eq_some hfind)

/-- The entries are the names that have a value, each with its value. -/
theorem mem_entries_iff_get? {d : Dict α} {e : String × α} :
    e ∈ d.entries ↔ d.get? e.1 = some e.2 := by
  rw [mem_entries_iff, latest?_entries]

theorem eq_of_ascending {β : Type} {name : β → String} {xs ys : List β}
    (hxs : xs.Pairwise fun a b => name a < name b) (hys : ys.Pairwise fun a b => name a < name b)
    (h : ∀ a, a ∈ xs ↔ a ∈ ys) : xs = ys := by
  have hantisymm : Std.Antisymm fun a b : β => name a < name b :=
    ⟨fun a b hab hba => absurd hba (String.lt_asymm hab)⟩
  have hirrefl : Std.Irrefl fun a b : β => name a < name b := ⟨fun a => String.lt_irrefl (name a)⟩
  exact hxs.eq_of_mem_iff hys h

theorem ext_get? {d d' : Dict α} (h : ∀ k, d.get? k = d'.get? k) : d = d' := by
  have hmem : ∀ e, e ∈ d.entries ↔ e ∈ d'.entries := by
    intro e
    rw [mem_entries_iff_get?, mem_entries_iff_get?, h]
  have hentries : d.entries = d'.entries := eq_of_ascending d.sorted d'.sorted hmem
  cases d
  cases d'
  cases hentries
  rfl

/-- Among the entries of a dictionary in any order, no two are under one name. -/
theorem latest?_eq_some_iff_of_perm {d : Dict α} {es : List (String × α)} {k : String} {v : α}
    (h : d.entries.Perm es) : latest? (under k) es = some v ↔ d.get? k = some v := by
  have hget : ∀ w, latest? (under k) es = some w → d.get? k = some w := by
    intro w hw
    obtain ⟨before, e, after, rfl, he, -⟩ := latest?_eq_some_iff.mp hw
    rw [under, Option.ite_none_right_eq_some] at he
    obtain ⟨rfl, hvalue⟩ := he
    rw [← hvalue, ← mem_entries_iff_get?, h.mem_iff]
    exact List.mem_append_right _ List.mem_cons_self
  refine ⟨hget v, fun hv => ?_⟩
  cases hlatest : latest? (under k) es with
  | none =>
      have hmem : (k, v) ∈ es := h.mem_iff.mp (mem_entries_iff_get?.mpr hv)
      have hnone := latest?_eq_none_iff.mp hlatest (k, v) hmem
      rw [under, if_pos rfl] at hnone
      cases hnone
  | some w => rw [← hv, hget w hlatest]

/-- A dictionary is made of its entries, in whatever order they come. -/
theorem ofList_eq_of_perm {d : Dict α} {es : List (String × α)} (h : d.entries.Perm es) :
    ofList es = d := by
  refine ext_get? fun k => Option.ext fun v => ?_
  rw [get?_ofList, latest?_eq_some_iff_of_perm h]

theorem get?_overlay (lower upper : Dict α) (k : String) :
    (lower.overlay upper).get? k = (upper.get? k).or (lower.get? k) := by
  rw [overlay, get?_foldl_insert, latest?_entries]

/-! ## Sorted texts -/

theorem isSome_get?_foldl_insert_unit (ts : List String) (k : String) :
    ((ts.foldl (fun (d : Dict Unit) t => d.insert t ()) ∅).get? k).isSome = true ↔ k ∈ ts := by
  induction ts using List.reverseRecOn with
  | nil => simp [get?, show (∅ : Dict Unit).entries = [] from rfl]
  | append_singleton ts t ih =>
      rw [List.foldl_append, List.foldl_cons, List.foldl_nil, get?_insert, List.mem_append,
        List.mem_singleton, ← ih]
      by_cases hk : k = t
      · simp [hk]
      · simp [hk]

theorem mem_sortedTexts {ts : List String} {t : String} : t ∈ sortedTexts ts ↔ t ∈ ts := by
  rw [sortedTexts, mem_keys_iff, isSome_get?_foldl_insert_unit]

theorem sortedTexts_pairwise (ts : List String) : (sortedTexts ts).Pairwise (· < ·) :=
  keys_pairwise _

/-- Only which texts there are counts. -/
theorem sortedTexts_congr {ts us : List String} (h : ∀ t, t ∈ ts ↔ t ∈ us) :
    sortedTexts ts = sortedTexts us := by
  refine eq_of_ascending (sortedTexts_pairwise ts) (sortedTexts_pairwise us) fun t => ?_
  rw [mem_sortedTexts, mem_sortedTexts, h]

/-! ## Where a value stands -/

theorem exists_insertEntry_self (k : String) (es : List (String × α)) :
    ∃ before after, ∀ v, insertEntry k v es = before ++ (k, v) :: after := by
  induction es with
  | nil => exact ⟨[], [], fun v => rfl⟩
  | cons e es ih =>
      obtain ⟨j, w⟩ := e
      by_cases hlt : k < j
      · exact ⟨[], (j, w) :: es, fun v => by rw [insertEntry, if_pos hlt]; rfl⟩
      · by_cases heq : k = j
        · exact ⟨[], es, fun v => by rw [insertEntry, if_neg hlt, if_pos heq]; rfl⟩
        · obtain ⟨before, after, h⟩ := ih
          exact ⟨(j, w) :: before, after, fun v => by
            rw [insertEntry, if_neg hlt, if_neg heq, h]; rfl⟩

theorem exists_insertEntry_of_ne {k k' : String} (h : k' ≠ k) (v' : α)
    (before after : List (String × α)) :
    ∃ before' after', ∀ v, insertEntry k' v' (before ++ (k, v) :: after) =
      before' ++ (k, v) :: after' := by
  induction before with
  | nil =>
      by_cases hlt : k' < k
      · exact ⟨[(k', v')], after, fun v => by
          rw [List.nil_append, insertEntry, if_pos hlt]; rfl⟩
      · exact ⟨[], insertEntry k' v' after, fun v => by
          rw [List.nil_append, insertEntry, if_neg hlt, if_neg h]; rfl⟩
  | cons e before ih =>
      obtain ⟨j, w⟩ := e
      by_cases hlt : k' < j
      · exact ⟨(k', v') :: (j, w) :: before, after, fun v => by
          rw [List.cons_append, insertEntry, if_pos hlt]; rfl⟩
      · by_cases heq : k' = j
        · exact ⟨(k', v') :: before, after, fun v => by
            rw [List.cons_append, insertEntry, if_neg hlt, if_pos heq]; rfl⟩
        · obtain ⟨before', after', hb⟩ := ih
          exact ⟨(j, w) :: before', after', fun v => by
            rw [List.cons_append, insertEntry, if_neg hlt, if_neg heq, hb]; rfl⟩

theorem entries_ofList_concat (es : List (String × α)) (e : String × α) :
    (ofList (es ++ [e])).entries = insertEntry e.1 e.2 (ofList es).entries := by
  rw [ofList, List.foldl_append]
  rfl

/-- **The last entry under a name** stands in the dictionary with its value, at a place that does
not depend on the value. -/
theorem exists_entries_ofList {k : String} (before : List (String × α)) {after : List (String × α)}
    (h : ∀ e ∈ after, e.1 ≠ k) :
    ∃ before' after', ∀ v, (ofList (before ++ (k, v) :: after)).entries =
      before' ++ (k, v) :: after' := by
  induction after using List.reverseRecOn with
  | nil =>
      obtain ⟨before', after', hb⟩ := exists_insertEntry_self k (ofList before).entries
      exact ⟨before', after', fun v => by rw [entries_ofList_concat, hb]⟩
  | append_singleton after e ih =>
      obtain ⟨b, a, hb⟩ := ih fun e he => h e (List.mem_append_left _ he)
      obtain ⟨before', after', hb'⟩ := exists_insertEntry_of_ne (h e (by simp)) e.2 b a
      refine ⟨before', after', fun v => ?_⟩
      rw [← List.cons_append, ← List.append_assoc, entries_ofList_concat, hb, hb']

end SourceEdit.Dict
