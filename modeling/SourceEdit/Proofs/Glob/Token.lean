import SourceEdit.Glob
import SourceEdit.Proofs.Pattern.Reach

/-!
# What the tokens of a glob stand for

Each token of a glob stands for a set of lists of bytes, and a list of tokens for what its tokens
stand for one after another. Wildcards stay within one part of a path here.
-/

namespace SourceEdit.Glob

open Pattern (Accepts)
open Unicode (CodeSet)

/-! ## Encoded characters -/

def utf8 (cs : List Char) : List Nat :=
  cs.flatMap fun c => (String.utf8EncodeChar c).map UInt8.toNat

def slashByte : Nat := 47

theorem utf8_append (cs ds : List Char) : utf8 (cs ++ ds) = utf8 cs ++ utf8 ds := by
  simp [utf8]

@[simp] theorem utf8_slash : utf8 ['/'] = [slashByte] := by decide

theorem bytesOf_ofList (cs : List Char) : bytesOf (String.ofList cs) = utf8 cs := by
  show ((List.utf8Encode cs).data.toList).map UInt8.toNat = utf8 cs
  simp [List.utf8Encode, utf8, List.map_flatMap]

theorem bytesOf_eq_utf8 (text : String) : bytesOf text = utf8 text.toList := by
  rw [← bytesOf_ofList, String.ofList_toList]

theorem utf8_injective : Function.Injective utf8 := by
  intro cs ds h
  rw [← bytesOf_ofList, ← bytesOf_ofList] at h
  have hbytes : (String.ofList cs).toUTF8 = (String.ofList ds).toUTF8 := by
    refine ByteArray.ext (Array.toList_inj.mp ?_)
    exact List.map_injective_iff.mpr (fun _ _ => UInt8.toNat_inj.mp) h
  exact String.ofList_injective (String.toByteArray_inj.mp hbytes)

theorem slashByte_notMem_utf8 {cs : List Char} (h : '/' ∉ cs) : slashByte ∉ utf8 cs := by
  intro hmem
  obtain ⟨c, hc, hb⟩ := List.mem_flatMap.mp hmem
  have hne : c.val.toNat ≠ 47 := by
    intro e
    have hslash : c = '/' := Char.ext (UInt32.toNat_inj.mp e)
    exact h (hslash ▸ hc)
  revert hb
  unfold String.utf8EncodeChar slashByte
  generalize c.val.toNat = n at hne
  simp only
  split
  · simp; omega
  · split
    · simp; omega
    · split
      · simp; omega
      · simp; omega

def IsBytes (w : List Nat) : Prop := ∀ b ∈ w, b ≤ 255

theorem isBytes_append {u v : List Nat} : IsBytes (u ++ v) ↔ IsBytes u ∧ IsBytes v := by
  simp only [IsBytes, List.mem_append]
  constructor
  · exact fun h => ⟨fun b hb => h b (Or.inl hb), fun b hb => h b (Or.inr hb)⟩
  · rintro ⟨hu, hv⟩ b (hb | hb)
    · exact hu b hb
    · exact hv b hb

theorem isBytes_utf8 (cs : List Char) : IsBytes (utf8 cs) := by
  intro b hb
  obtain ⟨c, _, hb⟩ := List.mem_flatMap.mp hb
  obtain ⟨u, _, rfl⟩ := List.mem_map.mp hb
  exact Nat.le_of_lt_succ (UInt8.toNat_lt u)

/-! ## Sets of bytes -/

theorem hasCode_range (lo hi b : Nat) :
    (CodeSet.range lo hi).hasCode b = true ↔ lo ≤ b ∧ b ≤ hi := by
  simp [CodeSet.range, CodeSet.hasCode]

theorem hasCode_wildcard {b : Nat} (hb : b ≤ 255) :
    (wildcard true).hasCode b = true ↔ b ≠ slashByte := by
  have hset : wildcard true = ⟨[(0, 46), (48, 255)]⟩ := rfl
  rw [hset]
  simp only [CodeSet.hasCode, List.any_cons, List.any_nil, Bool.or_false, Bool.or_eq_true,
    Bool.and_eq_true, decide_eq_true_eq, slashByte]
  omega

theorem hasCode_allBytes {b : Nat} (hb : b ≤ 255) : allBytes.hasCode b = true := by
  rw [allBytes, hasCode_range]
  omega

/-! ## Tokens -/

def TokensAccept (ts : List Token) (w : List Nat) : Prop :=
  Accepts CodeSet.hasCode (nodeOf true ts) w

def TokenAccepts (t : Token) (w : List Nat) : Prop :=
  Accepts CodeSet.hasCode (nodeOfToken true t) w

@[simp] theorem tokensAccept_nil {w : List Nat} : TokensAccept [] w ↔ w = [] := Iff.rfl

theorem tokensAccept_cons {t : Token} {ts : List Token} {w : List Nat} :
    TokensAccept (t :: ts) w ↔ ∃ u v, w = u ++ v ∧ TokenAccepts t u ∧ TokensAccept ts v := by
  rw [TokensAccept, nodeOf]
  exact Iff.rfl

theorem tokensAccept_append {ts us : List Token} {w : List Nat} :
    TokensAccept (ts ++ us) w ↔ ∃ u v, w = u ++ v ∧ TokensAccept ts u ∧ TokensAccept us v := by
  induction ts generalizing w with
  | nil => simp
  | cons t ts ih =>
      rw [List.cons_append, tokensAccept_cons]
      constructor
      · rintro ⟨u, v, rfl, hu, hv⟩
        obtain ⟨x, y, rfl, hx, hy⟩ := ih.mp hv
        exact ⟨u ++ x, y, by simp, tokensAccept_cons.mpr ⟨u, x, rfl, hu, hx⟩, hy⟩
      · rintro ⟨u, v, rfl, hu, hv⟩
        obtain ⟨x, y, rfl, hx, hy⟩ := tokensAccept_cons.mp hu
        exact ⟨x, y ++ v, by simp, hx, ih.mpr ⟨y, v, rfl, hy, hv⟩⟩

theorem tokensAccept_singleton {t : Token} {w : List Nat} :
    TokensAccept [t] w ↔ TokenAccepts t w := by
  simp [tokensAccept_cons]

theorem accepts_seqOf_leaves (bs w : List Nat) :
    Accepts CodeSet.hasCode (.seqOf (bs.map fun b => .leaf (.range b b))) w ↔ w = bs := by
  have hleaf : ∀ b u, Accepts CodeSet.hasCode (.leaf (.range b b)) u ↔ u = [b] := by
    intro b u
    constructor
    · rintro ⟨b', rfl, hfit⟩
      rw [hasCode_range] at hfit
      have hb : b' = b := by omega
      rw [hb]
    · rintro rfl
      exact ⟨b, rfl, by rw [hasCode_range]; omega⟩
  induction bs generalizing w with
  | nil => exact Iff.rfl
  | cons b bs ih =>
      cases bs with
      | nil => exact hleaf b w
      | cons b' bs =>
          constructor
          · rintro ⟨u, v, rfl, hu, hv⟩
            rw [(hleaf b u).mp hu, (ih v).mp hv]
            rfl
          · rintro rfl
            exact ⟨[b], b' :: bs, rfl, (hleaf b _).mpr rfl, (ih _).mpr rfl⟩

theorem tokenAccepts_literal {c : Char} {w : List Nat} :
    TokenAccepts (.literal c) w ↔ w = utf8 [c] := by
  rw [TokenAccepts, nodeOfToken, accepts_seqOf_leaves]
  have h : bytesOf (String.singleton c) = utf8 [c] := by
    rw [bytesOf_eq_utf8, String.toList_singleton]
  rw [h]

theorem tokenAccepts_any {w : List Nat} (hw : IsBytes w) :
    TokenAccepts .any w ↔ ∃ b, w = [b] ∧ b ≠ slashByte := by
  rw [TokenAccepts, nodeOfToken]
  constructor
  · rintro ⟨b, rfl, hfit⟩
    exact ⟨b, rfl, (hasCode_wildcard (hw b (by simp))).mp hfit⟩
  · rintro ⟨b, rfl, hb⟩
    exact ⟨b, rfl, (hasCode_wildcard (hw b (by simp))).mpr hb⟩

/-- A repeated set stands for the lists of its members. -/
theorem accepts_times_set (set : CodeSet) (w : List Nat) :
    Accepts CodeSet.hasCode (.times 0 none (.leaf set)) w ↔ ∀ b ∈ w, set.hasCode b = true := by
  rw [Pattern.accepts_times_leaf]
  exact and_iff_right (Nat.zero_le _)

theorem tokenAccepts_star {w : List Nat} (hw : IsBytes w) :
    TokenAccepts .star w ↔ slashByte ∉ w := by
  rw [TokenAccepts, nodeOfToken, accepts_times_set]
  constructor
  · intro h hmem
    exact (hasCode_wildcard (hw _ hmem)).mp (h _ hmem) rfl
  · intro h b hb
    exact (hasCode_wildcard (hw b hb)).mpr fun e => h (e ▸ hb)

theorem accepts_anything {w : List Nat} (hw : IsBytes w) :
    Accepts CodeSet.hasCode anything w := by
  rw [anything, accepts_times_set]
  exact fun b hb => hasCode_allBytes (hw b hb)

theorem accepts_slash {w : List Nat} :
    Accepts CodeSet.hasCode (.leaf slash) w ↔ w = [slashByte] := by
  constructor
  · rintro ⟨b, rfl, hfit⟩
    rw [slash, hasCode_range] at hfit
    have hb : b = slashByte := by unfold slashByte; omega
    rw [hb]
  · rintro rfl
    exact ⟨slashByte, rfl, by decide⟩

/-- Whether bytes are those of some parts of a path with a slash after each. -/
def IsClosed (w : List Nat) : Prop := w = [] ∨ ∃ u, w = u ++ [slashByte]

theorem tokenAccepts_leadingDirs {w : List Nat} (hw : IsBytes w) :
    TokenAccepts .leadingDirs w ↔ IsClosed w := by
  rw [TokenAccepts, nodeOfToken]
  constructor
  · rintro (⟨parts, _, hle, rfl, hall⟩ | ⟨u, v, rfl, _, hv⟩)
    · have hlen : parts.length ≤ 1 := by simpa using hle 1 rfl
      cases parts with
      | nil => exact Or.inl rfl
      | cons u parts =>
          obtain rfl : parts = [] := by simpa using hlen
          refine Or.inr ⟨[], ?_⟩
          simpa using accepts_slash.mp (hall u (by simp))
    · exact Or.inr ⟨u, by rw [accepts_slash.mp hv]⟩
  · rintro (rfl | ⟨u, rfl⟩)
    · exact Or.inl ⟨[], Nat.zero_le _, by simp, rfl, by simp⟩
    · exact Or.inr ⟨u, [slashByte], rfl, accepts_anything (isBytes_append.mp hw).1,
        accepts_slash.mpr rfl⟩

theorem tokenAccepts_innerDirs {w : List Nat} (hw : IsBytes w) :
    TokenAccepts .innerDirs w ↔ ∃ u, w = slashByte :: u ∧ IsClosed u := by
  rw [TokenAccepts, nodeOfToken]
  constructor
  · rintro (h | ⟨u, v, rfl, hu, x, y, rfl, _, hy⟩)
    · exact ⟨[], accepts_slash.mp h, Or.inl rfl⟩
    · rw [accepts_slash.mp hu, accepts_slash.mp hy]
      exact ⟨x ++ [slashByte], rfl, Or.inr ⟨x, rfl⟩⟩
  · rintro ⟨u, rfl, rfl | ⟨x, rfl⟩⟩
    · exact Or.inl (accepts_slash.mpr rfl)
    · have hx : IsBytes x := fun b hb => hw b (by simp [hb])
      exact Or.inr ⟨[slashByte], _, rfl, accepts_slash.mpr rfl, x, [slashByte], rfl,
        accepts_anything hx, accepts_slash.mpr rfl⟩

theorem tokenAccepts_trailingDirs {w : List Nat} (hw : IsBytes w) :
    TokenAccepts .trailingDirs w ↔ ∃ u, w = slashByte :: u := by
  rw [TokenAccepts, nodeOfToken]
  constructor
  · rintro ⟨u, v, rfl, hu, _⟩
    rw [accepts_slash.mp hu]
    exact ⟨v, rfl⟩
  · rintro ⟨u, rfl⟩
    have hu : IsBytes u := fun b hb => hw b (by simp [hb])
    exact ⟨[slashByte], u, rfl, accepts_slash.mpr rfl, accepts_anything hu⟩

end SourceEdit.Glob
