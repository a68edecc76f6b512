/-!
# Dictionaries

Values under names, in the order of the names, each name once. Names are compared character by
character, which is also the order of their encoded bytes.
-/

namespace SourceEdit

/-- A finite map from names to values, sorted by name. -/
structure Dict (α : Type) where
  entries : List (String × α)
  sorted : entries.Pairwise fun a b => a.1 < b.1

namespace Dict

variable {α : Type}

def empty : Dict α := ⟨[], .nil⟩

instance : EmptyCollection (Dict α) := ⟨empty⟩

instance : Inhabited (Dict α) := ⟨empty⟩

instance [BEq α] : BEq (Dict α) := ⟨fun a b => a.entries == b.entries⟩

def insertEntry (k : String) (v : α) : List (String × α) → List (String × α)
  | [] => [(k, v)]
  | (k', v') :: rest =>
    if k < k' then (k, v) :: (k', v') :: rest
    else if k = k' then (k, v) :: rest
    else (k', v') :: insertEntry k v rest

theorem fst_of_mem_insertEntry {k : String} {v : α} {es : List (String × α)} {e : String × α}
    (h : e ∈ insertEntry k v es) : e.1 = k ∨ e ∈ es := by
  induction es with
  | nil => simp [insertEntry] at h; simp [h]
  | cons x es ih =>
    obtain ⟨k', v'⟩ := x
    simp only [insertEntry] at h
    split at h
    · rcases List.mem_cons.1 h with rfl | h
      · exact .inl rfl
      · exact .inr h
    · split at h
      · rcases List.mem_cons.1 h with rfl | h
        · exact .inl rfl
        · exact .inr (List.mem_cons_of_mem _ h)
      · rcases List.mem_cons.1 h with rfl | h
        · exact .inr (List.mem_cons_self ..)
        · rcases ih h with h | h
          · exact .inl h
          · exact .inr (List.mem_cons_of_mem _ h)

theorem insertEntry_sorted (k : String) (v : α) {es : List (String × α)}
    (h : es.Pairwise fun a b => a.1 < b.1) :
    (insertEntry k v es).Pairwise fun a b => a.1 < b.1 := by
  induction es with
  | nil => simp [insertEntry]
  | cons x es ih =>
    obtain ⟨k', v'⟩ := x
    obtain ⟨hx, hes⟩ := List.pairwise_cons.1 h
    simp only [insertEntry]
    split
    · next hlt =>
      refine List.pairwise_cons.2 ⟨fun e he => ?_, h⟩
      rcases List.mem_cons.1 he with rfl | he
      · exact hlt
      · exact String.lt_trans hlt (hx e he)
    · next hnlt =>
      split
      · next heq =>
        subst heq
        exact List.pairwise_cons.2 ⟨hx, hes⟩
      · next hne =>
        refine List.pairwise_cons.2 ⟨fun e he => ?_, ih hes⟩
        rcases fst_of_mem_insertEntry he with he | he
        · rw [he]; exact Std.lt_of_le_of_ne hnlt fun e => hne e.symm
        · exact hx e he

def insert (d : Dict α) (k : String) (v : α) : Dict α :=
  ⟨insertEntry k v d.entries, insertEntry_sorted k v d.sorted⟩

def get? (d : Dict α) (k : String) : Option α :=
  (d.entries.find? (·.1 = k)).map (·.2)

def contains (d : Dict α) (k : String) : Bool :=
  d.entries.any (·.1 = k)

def size (d : Dict α) : Nat := d.entries.length

def isEmpty (d : Dict α) : Bool := d.entries.isEmpty

def keys (d : Dict α) : List String := d.entries.map (·.1)

def values (d : Dict α) : List α := d.entries.map (·.2)

/-- The dictionary of some entries; the last of those under one name counts. -/
def ofList (es : List (String × α)) : Dict α :=
  es.foldl (fun d e => d.insert e.1 e.2) ∅

/-- Every entry of `upper`, and those of `lower` under other names. -/
def overlay (lower upper : Dict α) : Dict α :=
  upper.entries.foldl (fun d e => d.insert e.1 e.2) lower

end Dict

/-- The distinct texts of a list in ascending order. -/
def sortedTexts (texts : List String) : List String :=
  (texts.foldl (fun (d : Dict Unit) t => d.insert t ()) ∅).keys

end SourceEdit
