import Mathlib.Data.Fintype.Pigeonhole
import SourceEdit.Pattern.Places

/-!
# What matching computes

`Reach` is the meaning of an expression as a relation between places of a text: from where to where
it can match. The sets of places that matching computes are images under that relation
(`testBit_endsIn`), so that a test for a match is a statement about `Reach`.

The one argument is about unbounded repetition, which is cut off after as many rounds as the text
has places: a way with more rounds than that visits a place twice and can be shortened.
-/

namespace SourceEdit.Pattern

/-! ## Ways of several rounds -/

/-- Whether `n` rounds of a step lead from one place to another. -/
def Rounds (step : Nat → Nat → Prop) : Nat → Nat → Nat → Prop
  | 0, i, j => j = i
  | n + 1, i, j => ∃ k, step i k ∧ Rounds step n k j

variable {step : Nat → Nat → Prop}

theorem Rounds.append {m n i j k : Nat} (h₁ : Rounds step m i j) (h₂ : Rounds step n j k) :
    Rounds step (m + n) i k := by
  induction m generalizing i with
  | zero =>
      obtain rfl : j = i := h₁
      rwa [Nat.zero_add]
  | succ m ih =>
      obtain ⟨l, hl, hrest⟩ := h₁
      rw [Nat.succ_add]
      exact ⟨l, hl, ih hrest⟩

theorem Rounds.snoc {n i j k : Nat} (h : Rounds step n i j) (hs : step j k) :
    Rounds step (n + 1) i k :=
  h.append ⟨k, hs, rfl⟩

theorem Rounds.split {m n i k : Nat} (h : Rounds step (m + n) i k) :
    ∃ j, Rounds step m i j ∧ Rounds step n j k := by
  induction m generalizing i with
  | zero => exact ⟨i, rfl, by rwa [Nat.zero_add] at h⟩
  | succ m ih =>
      rw [Nat.succ_add] at h
      obtain ⟨l, hl, hrest⟩ := h
      obtain ⟨j, h₁, h₂⟩ := ih hrest
      exact ⟨j, ⟨l, hl, h₁⟩, h₂⟩

theorem Rounds.mono {step' : Nat → Nat → Prop} (hsub : ∀ i j, step i j → step' i j) {n i j : Nat}
    (h : Rounds step n i j) : Rounds step' n i j := by
  induction n generalizing i with
  | zero => exact h
  | succ n ih =>
      obtain ⟨k, hk, hrest⟩ := h
      exact ⟨k, hsub i k hk, ih hrest⟩

theorem Rounds.le {n i j bound : Nat} (hstep : ∀ i j, step i j → i ≤ bound → j ≤ bound)
    (h : Rounds step n i j) (hi : i ≤ bound) : j ≤ bound := by
  induction n generalizing i with
  | zero =>
      obtain rfl : j = i := h
      exact hi
  | succ n ih =>
      obtain ⟨k, hk, hrest⟩ := h
      exact ih hrest (hstep i k hk hi)

theorem Rounds.places {n i j : Nat} (h : Rounds step n i j) :
    ∃ at_ : Nat → Nat, at_ 0 = i ∧ at_ n = j ∧ ∀ k < n, step (at_ k) (at_ (k + 1)) := by
  induction n generalizing i with
  | zero => exact ⟨fun _ => i, rfl, h.symm, fun k hk => absurd hk (Nat.not_lt_zero k)⟩
  | succ n ih =>
      obtain ⟨l, hl, hrest⟩ := h
      obtain ⟨at_, h0, hn, hs⟩ := ih hrest
      refine ⟨fun k => if k = 0 then i else at_ (k - 1), by simp, by simpa using hn, ?_⟩
      intro k hk
      by_cases hk0 : k = 0
      · subst hk0
        simpa [h0] using hl
      · have h := hs (k - 1) (by omega)
        have hpred : k - 1 + 1 = k := by omega
        rw [hpred] at h
        simpa [hk0] using h

theorem Rounds.of_places {at_ : Nat → Nat} {m n : Nat}
    (hs : ∀ k, m ≤ k → k < m + n → step (at_ k) (at_ (k + 1))) :
    Rounds step n (at_ m) (at_ (m + n)) := by
  induction n with
  | zero => rfl
  | succ n ih =>
      refine Rounds.snoc (ih fun k hk hlt => hs k hk (by omega)) ?_
      exact hs (m + n) (by omega) (by omega)

theorem Rounds.shorten_once {n i j bound : Nat}
    (hstep : ∀ i j, step i j → i ≤ bound → j ≤ bound) (hi : i ≤ bound)
    (h : Rounds step n i j) (hn : bound < n) : ∃ m < n, Rounds step m i j := by
  obtain ⟨at_, h0, hlast, hs⟩ := h.places
  have hle : ∀ k ≤ n, at_ k ≤ bound := by
    intro k hk
    have hway : Rounds step k (at_ 0) (at_ (0 + k)) :=
      Rounds.of_places fun l _ hl => hs l (by omega)
    rw [Nat.zero_add, h0] at hway
    exact hway.le hstep hi
  -- two of the `n + 1` places visited are the same, as only `bound + 1` are there
  obtain ⟨a, b, hne, heq⟩ := Fintype.exists_ne_map_eq_of_card_lt
    (fun k : Fin (n + 1) => (⟨at_ k, Nat.lt_succ_of_le (hle k (by omega))⟩ : Fin (bound + 1)))
    (by simp only [Fintype.card_fin]; omega)
  have heq' : at_ a = at_ b := congrArg Fin.val heq
  have hcut : ∀ a b : Fin (n + 1), (a : Nat) < b → at_ a = at_ b →
      ∃ m < n, Rounds step m i j := by
    intro a b hab hsame
    have hfirst : Rounds step a (at_ 0) (at_ (0 + a)) :=
      Rounds.of_places fun k _ hk => hs k (by omega)
    have hsecond : Rounds step (n - b) (at_ b) (at_ (b + (n - b))) :=
      Rounds.of_places fun k _ hk => hs k (by omega)
    have hb : (b : Nat) + (n - b) = n := by omega
    rw [Nat.zero_add, h0, hsame] at hfirst
    rw [hb, hlast] at hsecond
    exact ⟨a + (n - b), by omega, hfirst.append hsecond⟩
  have hval : (a : Nat) ≠ b := fun e => hne (Fin.ext e)
  rcases Nat.lt_or_gt_of_ne hval with hlt | hgt
  · exact hcut a b hlt heq'
  · exact hcut b a hgt heq'.symm

theorem Rounds.shorten {n i j bound : Nat}
    (hstep : ∀ i j, step i j → i ≤ bound → j ≤ bound) (hi : i ≤ bound)
    (h : Rounds step n i j) : ∃ m ≤ bound, m ≤ n ∧ Rounds step m i j := by
  induction n using Nat.strong_induction_on with
  | _ n ih =>
      by_cases hn : n ≤ bound
      · exact ⟨n, hn, Nat.le_refl n, h⟩
      · obtain ⟨m, hm, hway⟩ := h.shorten_once hstep hi (by omega)
        obtain ⟨k, hk, hkm, hshort⟩ := ih m hm hway
        exact ⟨k, hk, by omega, hshort⟩

/-! ## Images of sets of places -/

/-- Whether a function on sets of places is the image under a step. -/
def IsImage (f : Nat → Nat) (step : Nat → Nat → Prop) (bound : Nat) : Prop :=
  ∀ places, (∀ i, places.testBit i = true → i ≤ bound) →
    ∀ j, (f places).testBit j = true ↔ ∃ i, places.testBit i = true ∧ step i j

variable {f : Nat → Nat} {bound : Nat}

theorem IsImage.within (hf : IsImage f step bound)
    (hstep : ∀ i j, step i j → i ≤ bound → j ≤ bound) {places : Nat}
    (hp : ∀ i, places.testBit i = true → i ≤ bound) {j : Nat}
    (hj : (f places).testBit j = true) : j ≤ bound := by
  obtain ⟨i, hi, hij⟩ := (hf places hp j).mp hj
  exact hstep i j hij (hp i hi)

theorem testBit_iterate (hf : IsImage f step bound)
    (hstep : ∀ i j, step i j → i ≤ bound → j ≤ bound) (n : Nat) {places : Nat}
    (hp : ∀ i, places.testBit i = true → i ≤ bound) (j : Nat) :
    (iterate f n places).testBit j = true ↔
      ∃ i, places.testBit i = true ∧ Rounds step n i j := by
  induction n generalizing places with
  | zero => simp [iterate, Rounds]
  | succ n ih =>
      rw [iterate]
      by_cases h0 : places = 0
      · simp [h0]
      · rw [if_neg h0, ih fun i => hf.within hstep hp]
        constructor
        · rintro ⟨k, hk, hrest⟩
          obtain ⟨i, hi, hik⟩ := (hf places hp k).mp hk
          exact ⟨i, hi, k, hik, hrest⟩
        · rintro ⟨i, hi, k, hik, hrest⟩
          exact ⟨k, (hf places hp k).mpr ⟨i, hi, hik⟩, hrest⟩

/-- From a place that has been seen, a way either stays among those seen or passes through the
frontier of the next round, with fewer rounds left. -/
theorem Rounds.leaves {seen : Nat → Prop} {fresh : Nat → Prop}
    (hclosed : ∀ i j, seen i → step i j → seen j ∨ fresh j) {n i j : Nat}
    (h : Rounds step n i j) (hi : seen i) :
    seen j ∨ ∃ k, fresh k ∧ ∃ m < n, Rounds step m k j := by
  induction n generalizing i with
  | zero =>
      obtain rfl : j = i := h
      exact Or.inl hi
  | succ n ih =>
      obtain ⟨k, hk, hrest⟩ := h
      rcases hclosed i k hi hk with hs | hf
      · rcases ih hrest hs with h | ⟨l, hl, m, hm, hway⟩
        · exact Or.inl h
        · exact Or.inr ⟨l, hl, m, by omega, hway⟩
      · exact Or.inr ⟨k, hf, n, by omega, hrest⟩

/-! ## Growing a set -/

def unseen (reached seen : Nat) : Nat := reached ^^^ (reached &&& seen)

theorem testBit_unseen (reached seen j : Nat) :
    (unseen reached seen).testBit j = true ↔
      reached.testBit j = true ∧ ¬ seen.testBit j = true := by
  rw [unseen, Nat.testBit_xor, Nat.testBit_and]
  cases reached.testBit j <;> cases seen.testBit j <;> decide

theorem grow_succ (f : Nat → Nat) (fuel seen frontier : Nat) :
    grow f (fuel + 1) seen frontier =
      if unseen (f frontier) seen = 0 then seen
      else grow f fuel (seen ||| unseen (f frontier) seen) (unseen (f frontier) seen) :=
  rfl

/-- What holds before each round of growing: a step from what has been seen and does not belong to
the frontier leads to what has been seen. -/
structure Explored (step : Nat → Nat → Prop) (bound seen frontier : Nat) : Prop where
  le : ∀ i, seen.testBit i = true → i ≤ bound
  seen_of_frontier : ∀ i, frontier.testBit i = true → seen.testBit i = true
  closed : ∀ i j, seen.testBit i = true → ¬ frontier.testBit i = true → step i j →
    seen.testBit j = true

namespace Explored

variable {seen frontier : Nat}

/-- Before the first round all that has been seen belongs to the frontier. -/
theorem start (hle : ∀ i, seen.testBit i = true → i ≤ bound) : Explored step bound seen seen :=
  ⟨hle, fun _ hi => hi, fun _ _ hi hnot _ => absurd hi hnot⟩

theorem testBit_image (h : Explored step bound seen frontier) (hf : IsImage f step bound)
    (j : Nat) : (f frontier).testBit j = true ↔ ∃ i, frontier.testBit i = true ∧ step i j :=
  hf frontier (fun i hi => h.le i (h.seen_of_frontier i hi)) j

/-- One step from what has been seen leads to that or to what the round adds. -/
theorem seen_or_unseen (h : Explored step bound seen frontier) (hf : IsImage f step bound)
    (i j : Nat) (hi : seen.testBit i = true) (hij : step i j) :
    seen.testBit j = true ∨ (unseen (f frontier) seen).testBit j = true := by
  by_cases hs : seen.testBit j = true
  · exact Or.inl hs
  · refine Or.inr ((testBit_unseen ..).mpr ⟨?_, hs⟩)
    by_cases hfi : frontier.testBit i = true
    · exact (h.testBit_image hf j).mpr ⟨i, hfi, hij⟩
    · exact absurd (h.closed i j hi hfi hij) hs

theorem next (h : Explored step bound seen frontier) (hf : IsImage f step bound)
    (hstep : ∀ i j, step i j → i ≤ bound → j ≤ bound) :
    Explored step bound (seen ||| unseen (f frontier) seen) (unseen (f frontier) seen) where
  le := by
    intro j hj
    rw [Nat.testBit_or, Bool.or_eq_true] at hj
    rcases hj with hj | hj
    · exact h.le j hj
    · obtain ⟨i, hi, hij⟩ := (h.testBit_image hf j).mp ((testBit_unseen ..).mp hj).1
      exact hstep i j hij (h.le i (h.seen_of_frontier i hi))
  seen_of_frontier := by
    intro i hi
    rw [Nat.testBit_or, hi, Bool.or_true]
  closed := by
    intro i j hi hnot hij
    rw [Nat.testBit_or, Bool.or_eq_true] at hi ⊢
    rcases hi with hi | hi
    · exact h.seen_or_unseen hf i j hi hij
    · exact absurd hi hnot

/-- A round leaves open what was open before it: what the frontier reaches, what the round adds
reaches with one round less. -/
theorem reaches_next (h : Explored step bound seen frontier) (hf : IsImage f step bound)
    (fuel j : Nat) :
    (seen.testBit j = true ∨
        ∃ i, frontier.testBit i = true ∧ ∃ n ≤ fuel + 1, Rounds step n i j) ↔
      (seen.testBit j = true ∨
        ∃ i, (unseen (f frontier) seen).testBit i = true ∧ ∃ n ≤ fuel, Rounds step n i j) := by
  constructor
  · rintro (hs | ⟨i, hi, n, hn, hway⟩)
    · exact Or.inl hs
    · rcases hway.leaves (h.seen_or_unseen hf) (h.seen_of_frontier i hi) with
        hs | ⟨k, hk, m, hm, hrest⟩
      · exact Or.inl hs
      · exact Or.inr ⟨k, hk, m, by omega, hrest⟩
  · rintro (hs | ⟨k, hk, n, hn, hway⟩)
    · exact Or.inl hs
    · obtain ⟨i, hi, hik⟩ := (h.testBit_image hf k).mp ((testBit_unseen ..).mp hk).1
      exact Or.inr ⟨i, hi, n + 1, by omega, k, hik, hway⟩

end Explored

/-- **Growing a set.** What is seen after some rounds is what was seen before them and what these
rounds reach from the frontier. -/
theorem testBit_grow (hf : IsImage f step bound)
    (hstep : ∀ i j, step i j → i ≤ bound → j ≤ bound) (fuel : Nat) {seen frontier : Nat}
    (h : Explored step bound seen frontier) (j : Nat) :
    (grow f fuel seen frontier).testBit j = true ↔
      seen.testBit j = true ∨
        ∃ i, frontier.testBit i = true ∧ ∃ n ≤ fuel, Rounds step n i j := by
  induction fuel generalizing seen frontier with
  | zero =>
      rw [grow]
      refine (or_iff_left_of_imp ?_).symm
      rintro ⟨i, hi, n, hn, hway⟩
      obtain rfl : n = 0 := by omega
      obtain rfl : j = i := hway
      exact h.seen_of_frontier j hi
  | succ fuel ih =>
      rw [grow_succ, h.reaches_next hf]
      by_cases h0 : unseen (f frontier) seen = 0
      · simp [h0]
      · rw [if_neg h0, ih (h.next hf hstep), Nat.testBit_or, Bool.or_eq_true, or_assoc]
        -- what the round adds is reached from itself in no rounds
        exact or_congr_right (or_iff_right_of_imp fun hj => ⟨j, hj, 0, Nat.zero_le fuel, rfl⟩)

/-- How many rounds are grown behind the first `lo`: as many as `hi` allows, and never more than the
places make useful. -/
def roundsBehind (size lo : Nat) : Option Nat → Nat
  | none => size + 1
  | some hi => min (hi - lo) (size + 1)

/-- **Repetition.** The image under a number of rounds within bounds is computed by `lo` rounds from
the places themselves and by growing what these reach. -/
theorem IsImage.times (hf : IsImage f step bound)
    (hstep : ∀ i j, step i j → i ≤ bound → j ≤ bound) (lo : Nat) (hi : Option Nat) :
    IsImage
      (fun places => grow f (roundsBehind bound lo hi) (iterate f lo places) (iterate f lo places))
      (fun i j => ∃ n, lo ≤ n ∧ (∀ h, hi = some h → n ≤ max lo h) ∧ Rounds step n i j) bound := by
  intro places hp j
  have hfirst := testBit_iterate hf hstep lo hp
  have hwithin : ∀ i, (iterate f lo places).testBit i = true → i ≤ bound := by
    intro i h
    obtain ⟨k, hk, hway⟩ := (hfirst i).mp h
    exact hway.le hstep (hp k hk)
  rw [testBit_grow hf hstep _ (Explored.start hwithin)]
  constructor
  · rintro (h | ⟨k, hk, n, hn, hmore⟩)
    · obtain ⟨i, hi, hway⟩ := (hfirst j).mp h
      exact ⟨i, hi, lo, Nat.le_refl lo, fun _ _ => Nat.le_max_left .., hway⟩
    · obtain ⟨i, hi, hway⟩ := (hfirst k).mp hk
      refine ⟨i, hi, lo + n, Nat.le_add_right .., ?_, hway.append hmore⟩
      rintro h rfl
      simp only [roundsBehind, Nat.le_min] at hn
      omega
  · rintro ⟨i, hstart, n, hlo, hhi, hway⟩
    obtain ⟨m, rfl⟩ := Nat.exists_eq_add_of_le hlo
    obtain ⟨k, hk, hmore⟩ := hway.split
    -- the rounds behind the first `lo` may be more than are grown, but a shorter way is enough
    obtain ⟨m', hle, hm', hshort⟩ := hmore.shorten hstep (hk.le hstep (hp i hstart))
    refine Or.inr ⟨k, (hfirst k).mpr ⟨i, hstart, hk⟩, m', ?_, hshort⟩
    cases hi with
    | none => simp only [roundsBehind]; omega
    | some h =>
        have := hhi h rfl
        simp only [roundsBehind, Nat.le_min]
        omega

/-! ## Expressions as relations -/

variable {α β : Type} {fits : α → β → Bool} {anchors : Anchor → Nat} {text : List β}

/-- Whether an expression can match from one place of a text to another. -/
def Reach (fits : α → β → Bool) (anchors : Anchor → Nat) (text : List β) :
    Node α → Nat → Nat → Prop
  | .empty, i, j => j = i
  | .leaf a, i, j => (∃ b, text[i]? = some b ∧ fits a b = true) ∧ j = i + 1
  | .anchor a, i, j => (anchors a).testBit i = true ∧ j = i
  | .seq a b, i, j => ∃ k, Reach fits anchors text a i k ∧ Reach fits anchors text b k j
  | .alt a b, i, j => Reach fits anchors text a i j ∨ Reach fits anchors text b i j
  | .times lo hi body, i, j =>
    ∃ n, lo ≤ n ∧ (∀ h, hi = some h → n ≤ max lo h) ∧
      Rounds (Reach fits anchors text body) n i j

theorem Reach.le {node : Node α} {i j : Nat} (h : Reach fits anchors text node i j)
    (hi : i ≤ text.length) : j ≤ text.length := by
  induction node generalizing i j with
  | empty =>
      obtain rfl : j = i := h
      exact hi
  | leaf a =>
      obtain ⟨⟨b, hb, _⟩, rfl⟩ := h
      have hlt : i < text.length := (List.getElem?_eq_some_iff.mp hb).1
      omega
  | anchor a =>
      obtain ⟨_, rfl⟩ := h
      exact hi
  | seq a b iha ihb =>
      obtain ⟨k, hk, hj⟩ := h
      exact ihb hj (iha hk hi)
  | alt a b iha ihb =>
      rcases h with h | h
      · exact iha h hi
      · exact ihb h hi
  | times lo hi' body ih =>
      obtain ⟨n, _, _, hway⟩ := h
      exact hway.le (fun _ _ hs hi => ih hs hi) hi

theorem testBit_bitsFrom (bs : List Bool) (i j : Nat) :
    (bitsFrom i bs).testBit j = true ↔ i ≤ j ∧ bs[j - i]? = some true := by
  induction bs generalizing i with
  | nil => simp [bitsFrom]
  | cons b bs ih =>
      rw [bitsFrom, Nat.testBit_or, Bool.or_eq_true, ih]
      have hhead : (if b then 1 <<< i else 0 : Nat).testBit j = true ↔ b = true ∧ j = i := by
        cases b with
        | false => simp
        | true => simp [Nat.one_shiftLeft, Nat.testBit_two_pow, eq_comm]
      rw [hhead]
      constructor
      · rintro (⟨rfl, rfl⟩ | ⟨hle, hget⟩)
        · simp
        · have hsub : j - i = (j - (i + 1)) + 1 := by omega
          exact ⟨by omega, by rw [hsub]; exact hget⟩
      · rintro ⟨hle, hget⟩
        by_cases hij : j = i
        · subst hij
          exact Or.inl ⟨by simpa using hget, rfl⟩
        · have hsub : j - i = (j - (i + 1)) + 1 := by omega
          rw [hsub] at hget
          exact Or.inr ⟨by omega, hget⟩

theorem testBit_placesBefore (p : β → Bool) (text : List β) (i : Nat) :
    (placesBefore p text).testBit i = true ↔ ∃ b, text[i]? = some b ∧ p b = true := by
  rw [placesBefore, testBit_bitsFrom, Nat.sub_zero, List.getElem?_map]
  cases text[i]? with
  | none => simp
  | some b => simp

/-- **Matching computes images.** The places where a match may end are those that the relation of
the expression reaches from the places where it may begin. -/
theorem ends_isImage (node : Node α) :
    IsImage (ends anchors text.length (node.map fun a => placesBefore (fits a) text))
      (Reach fits anchors text node) text.length := by
  induction node with
  | empty =>
      intro places _ j
      simp [Node.map, ends, Reach]
  | leaf a =>
      intro places _ j
      rw [Node.map, ends, Nat.testBit_shiftLeft, Bool.and_eq_true, decide_eq_true_eq,
        Nat.testBit_and, Bool.and_eq_true, testBit_placesBefore]
      constructor
      · rintro ⟨hj, hi, hfit⟩
        exact ⟨j - 1, hi, hfit, by omega⟩
      · rintro ⟨i, hi, hfit, rfl⟩
        exact ⟨by omega, hi, hfit⟩
  | anchor a =>
      intro places _ j
      rw [Node.map, ends, Nat.testBit_and, Bool.and_eq_true]
      constructor
      · rintro ⟨hj, ha⟩
        exact ⟨j, hj, ha, rfl⟩
      · rintro ⟨i, hi, ha, rfl⟩
        exact ⟨hi, ha⟩
  | seq a b iha ihb =>
      intro places hp j
      have hfirst := iha places hp
      rw [Node.map, ends, ihb _ fun i hi => iha.within (fun _ _ h => h.le) hp hi]
      constructor
      · rintro ⟨k, hk, hkj⟩
        obtain ⟨i, hi, hik⟩ := (hfirst k).mp hk
        exact ⟨i, hi, k, hik, hkj⟩
      · rintro ⟨i, hi, k, hik, hkj⟩
        exact ⟨k, (hfirst k).mpr ⟨i, hi, hik⟩, hkj⟩
  | alt a b iha ihb =>
      intro places hp j
      rw [Node.map, ends, Nat.testBit_or, Bool.or_eq_true, iha places hp, ihb places hp]
      constructor
      · rintro (⟨i, hi, h⟩ | ⟨i, hi, h⟩)
        · exact ⟨i, hi, Or.inl h⟩
        · exact ⟨i, hi, Or.inr h⟩
      · rintro ⟨i, hi, h | h⟩
        · exact Or.inl ⟨i, hi, h⟩
        · exact Or.inr ⟨i, hi, h⟩
  | times lo hi' body ih =>
      exact ih.times (fun _ _ h => h.le) lo hi'

theorem testBit_endsIn (node : Node α) {starts : Nat}
    (h : ∀ i, starts.testBit i = true → i ≤ text.length) (j : Nat) :
    (endsIn fits anchors node text starts).testBit j = true ↔
      ∃ i, starts.testBit i = true ∧ Reach fits anchors text node i j :=
  ends_isImage node starts h j

theorem matchesWhole_iff_reach (node : Node α) :
    matchesWhole fits anchors node text = true ↔
      Reach fits anchors text node 0 text.length := by
  have hone : ∀ i, (1 : Nat).testBit i = true ↔ i = 0 := by
    intro i
    rw [Nat.testBit_one_eq_true_iff_self_eq_zero]
  rw [matchesWhole, testBit_endsIn node fun i hi => by rw [(hone i).mp hi]; omega]
  simp only [hone, exists_eq_left]

/-! ## Expressions without anchors -/

/-- Whether a list as a whole is one that an expression stands for, where no anchor ever holds. -/
def Accepts (fits : α → β → Bool) : Node α → List β → Prop
  | .empty, w => w = []
  | .leaf a, w => ∃ b, w = [b] ∧ fits a b = true
  | .anchor _, _ => False
  | .seq a b, w => ∃ u v, w = u ++ v ∧ Accepts fits a u ∧ Accepts fits b v
  | .alt a b, w => Accepts fits a w ∨ Accepts fits b w
  | .times lo hi body, w =>
    ∃ parts : List (List β), lo ≤ parts.length ∧ (∀ h, hi = some h → parts.length ≤ max lo h) ∧
      w = parts.flatten ∧ ∀ u ∈ parts, Accepts fits body u

theorem Rounds.accepts {body : Node α} {n i j : Nat}
    (hbody : ∀ i j, Reach fits (fun _ => 0) text body i j → i ≤ text.length →
      ∃ w, text.drop i = w ++ text.drop j ∧ Accepts fits body w)
    (h : Rounds (Reach fits (fun _ => 0) text body) n i j) (hi : i ≤ text.length) :
    ∃ parts : List (List β), parts.length = n ∧ text.drop i = parts.flatten ++ text.drop j ∧
      ∀ u ∈ parts, Accepts fits body u := by
  induction n generalizing i with
  | zero =>
      obtain rfl : j = i := h
      exact ⟨[], rfl, rfl, by simp⟩
  | succ n ih =>
      obtain ⟨k, hk, hrest⟩ := h
      obtain ⟨u, hu, hacc⟩ := hbody i k hk hi
      obtain ⟨parts, hlen, hparts, hall⟩ := ih hrest (hk.le hi)
      refine ⟨u :: parts, by simp [hlen], ?_, by simpa using ⟨hacc, hall⟩⟩
      rw [hu, hparts, List.flatten_cons, List.append_assoc]

theorem Reach.accepts {node : Node α} {i j : Nat}
    (h : Reach fits (fun _ => 0) text node i j) (hi : i ≤ text.length) :
    ∃ w, text.drop i = w ++ text.drop j ∧ Accepts fits node w := by
  induction node generalizing i j with
  | empty =>
      obtain rfl : j = i := h
      exact ⟨[], rfl, rfl⟩
  | leaf a =>
      obtain ⟨⟨b, hb, hfit⟩, rfl⟩ := h
      obtain ⟨hlt, hget⟩ := List.getElem?_eq_some_iff.mp hb
      exact ⟨[b], by rw [← hget, List.drop_eq_getElem_cons hlt]; rfl, b, rfl, hfit⟩
  | anchor a =>
      obtain ⟨ha, _⟩ := h
      simp at ha
  | seq a b iha ihb =>
      obtain ⟨k, hk, hj⟩ := h
      obtain ⟨u, hu, hau⟩ := iha hk hi
      obtain ⟨v, hv, hbv⟩ := ihb hj (hk.le hi)
      exact ⟨u ++ v, by rw [hu, hv, List.append_assoc], u, v, rfl, hau, hbv⟩
  | alt a b iha ihb =>
      rcases h with h | h
      · obtain ⟨w, hw, hacc⟩ := iha h hi
        exact ⟨w, hw, Or.inl hacc⟩
      · obtain ⟨w, hw, hacc⟩ := ihb h hi
        exact ⟨w, hw, Or.inr hacc⟩
  | times lo hi' body ih =>
      obtain ⟨n, hlo, hhi, hway⟩ := h
      obtain ⟨parts, rfl, hparts, hall⟩ := hway.accepts (fun _ _ h hi => ih h hi) hi
      exact ⟨parts.flatten, hparts, parts, hlo, hhi, rfl, hall⟩

theorem Accepts.reach {node : Node α} {w : List β} (h : Accepts fits node w)
    (before after : List β) :
    Reach fits anchors (before ++ (w ++ after)) node before.length
      (before.length + w.length) := by
  induction node generalizing w before after with
  | empty =>
      obtain rfl : w = [] := h
      rfl
  | leaf a =>
      obtain ⟨b, rfl, hfit⟩ := h
      exact ⟨⟨b, by simp, hfit⟩, rfl⟩
  | anchor a => exact h.elim
  | seq a b iha ihb =>
      obtain ⟨u, v, rfl, hu, hv⟩ := h
      refine ⟨before.length + u.length, ?_, ?_⟩
      · rw [List.append_assoc]
        exact iha hu before (v ++ after)
      · have h := ihb hv (before ++ u) after
        rw [List.append_assoc, List.length_append, ← List.append_assoc u] at h
        rwa [List.length_append, ← Nat.add_assoc]
  | alt a b iha ihb =>
      rcases h with h | h
      · exact Or.inl (iha h before after)
      · exact Or.inr (ihb h before after)
  | times lo hi' body ih =>
      obtain ⟨parts, hlo, hhi, rfl, hall⟩ := h
      refine ⟨parts.length, hlo, hhi, ?_⟩
      clear hlo hhi
      induction parts generalizing before with
      | nil => rfl
      | cons u parts ihp =>
          refine ⟨before.length + u.length, ?_, ?_⟩
          · rw [List.flatten_cons, List.append_assoc]
            exact ih (hall u (by simp)) before _
          · have h := ihp (before ++ u) fun v hv => hall v (List.mem_cons_of_mem _ hv)
            rw [List.append_assoc, List.length_append, ← List.append_assoc u] at h
            rwa [List.flatten_cons, List.length_append, ← Nat.add_assoc]

/-- Without anchors, a match from end to end says that the whole text is accepted. -/
theorem matchesWhole_iff_accepts (node : Node α) :
    matchesWhole fits (fun _ => 0) node text = true ↔ Accepts fits node text := by
  rw [matchesWhole_iff_reach]
  constructor
  · intro h
    obtain ⟨w, hw, hacc⟩ := h.accepts (Nat.zero_le _)
    have htext : text = w := by simpa using hw
    rwa [htext]
  · intro h
    have hreach : Reach fits (fun _ => 0) ([] ++ (text ++ [])) node _ _ := h.reach [] []
    simpa using hreach

def Node.isAnchorFree : Node α → Bool
  | .empty => true
  | .leaf _ => true
  | .anchor _ => false
  | .seq a b => a.isAnchorFree && b.isAnchorFree
  | .alt a b => a.isAnchorFree && b.isAnchorFree
  | .times _ _ body => body.isAnchorFree

/-- Without anchors, it does not matter where they would hold. -/
theorem Reach.of_anchorFree {node : Node α} (hfree : node.isAnchorFree = true)
    {anchors' : Anchor → Nat} {i j : Nat} (h : Reach fits anchors text node i j) :
    Reach fits anchors' text node i j := by
  induction node generalizing i j with
  | empty => exact h
  | leaf a => exact h
  | anchor a => cases hfree
  | seq a b iha ihb =>
      obtain ⟨ha, hb⟩ := Bool.and_eq_true_iff.mp hfree
      obtain ⟨k, hk, hj⟩ := h
      exact ⟨k, iha ha hk, ihb hb hj⟩
  | alt a b iha ihb =>
      obtain ⟨ha, hb⟩ := Bool.and_eq_true_iff.mp hfree
      rcases h with h | h
      · exact Or.inl (iha ha h)
      · exact Or.inr (ihb hb h)
  | times lo hi body ih =>
      obtain ⟨n, hlo, hhi, hway⟩ := h
      exact ⟨n, hlo, hhi, hway.mono fun _ _ => ih hfree⟩

/-- Without anchors, an expression leads through a text from its start to its end exactly if it
accepts the text. -/
theorem reach_iff_accepts {node : Node α} (hfree : node.isAnchorFree = true) :
    Reach fits anchors text node 0 text.length ↔ Accepts fits node text := by
  rw [← matchesWhole_iff_accepts, matchesWhole_iff_reach]
  exact ⟨fun h => h.of_anchorFree hfree, fun h => h.of_anchorFree hfree⟩

theorem accepts_times_leaf {lo : Nat} {a : α} {w : List β} :
    Accepts fits (.times lo none (.leaf a)) w ↔ lo ≤ w.length ∧ ∀ b ∈ w, fits a b = true := by
  constructor
  · rintro ⟨parts, hlo, -, rfl, hall⟩
    constructor
    · have hlength : parts.length ≤ parts.flatten.length := by
        clear hlo
        induction parts with
        | nil => exact Nat.zero_le _
        | cons u parts ih =>
            obtain ⟨b, rfl, -⟩ := hall u (by simp)
            have hrest := ih fun v hv => hall v (List.mem_cons_of_mem _ hv)
            simp only [List.flatten_cons, List.length_append, List.length_cons, List.length_nil]
            omega
      exact Nat.le_trans hlo hlength
    · intro b hb
      obtain ⟨u, hu, hbu⟩ := List.mem_flatten.mp hb
      obtain ⟨b', rfl, hfit⟩ := hall u hu
      rw [List.mem_singleton.mp hbu]
      exact hfit
  · rintro ⟨hlo, hall⟩
    refine ⟨w.map fun b => [b], by rwa [List.length_map], by simp, ?_, ?_⟩
    · simp [← List.flatMap_def]
    · intro u hu
      obtain ⟨b, hb, rfl⟩ := List.mem_map.mp hu
      exact ⟨b, rfl, hall b hb⟩

end SourceEdit.Pattern
