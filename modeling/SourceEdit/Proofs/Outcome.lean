/-!
# Chains of steps that may fail

A chain succeeds exactly if each of its steps does, and breaks off at the first that does not. Where
every step of one chain is followed by a step of another, the whole chain is.
-/

namespace SourceEdit.Outcome

variable {ε α β γ δ : Type}

theorem bind_eq_ok_iff {x : Except ε α} {f : α → Except ε β} {b : β} :
    x >>= f = .ok b ↔ ∃ a, x = .ok a ∧ f a = .ok b := by
  cases x with
  | error e =>
      show Except.error e = Except.ok b ↔ _
      simp
  | ok a =>
      show f a = Except.ok b ↔ _
      simp

theorem bind_eq_error_iff {x : Except ε α} {f : α → Except ε β} {e : ε} :
    x >>= f = .error e ↔ x = .error e ∨ ∃ a, x = .ok a ∧ f a = .error e := by
  cases x with
  | error e' =>
      show Except.error e' = Except.error e ↔ _
      simp
  | ok a =>
      show f a = Except.error e ↔ _
      simp

theorem pure_eq_ok_iff {a b : α} : (pure a : Except ε α) = .ok b ↔ b = a := by
  show Except.ok a = Except.ok b ↔ b = a
  rw [Except.ok.injEq, eq_comm]

theorem eq_ok_of_toOption {x : Except ε α} {a : α} (h : x.toOption = some a) : x = .ok a := by
  cases x with
  | error e => cases h
  | ok b => exact congrArg Except.ok (Option.some.inj h)

/-- A loop breaks off at the first item that cannot be taken in after those before it. -/
theorem foldlM_eq_error_iff {f : α → β → Except ε α} {a : α} {xs : List β} {e : ε} :
    xs.foldlM f a = .error e ↔ ∃ before x after a', xs = before ++ x :: after ∧
      before.foldlM f a = .ok a' ∧ f a' x = .error e := by
  induction xs generalizing a with
  | nil =>
      constructor
      · intro h
        cases h
      · rintro ⟨before, x, after, _, hxs, -⟩
        cases before <;> cases hxs
  | cons x xs ih =>
      rw [List.foldlM_cons, bind_eq_error_iff]
      constructor
      · rintro (hx | ⟨a₁, hx, hrest⟩)
        · exact ⟨[], x, xs, a, rfl, rfl, hx⟩
        · obtain ⟨before, y, after, a', rfl, hbefore, hy⟩ := ih.mp hrest
          refine ⟨x :: before, y, after, a', rfl, ?_, hy⟩
          rw [List.foldlM_cons, bind_eq_ok_iff]
          exact ⟨a₁, hx, hbefore⟩
      · rintro ⟨before, y, after, a', hxs, hbefore, hy⟩
        cases before with
        | nil =>
            obtain ⟨rfl, -⟩ := List.cons.inj hxs
            obtain rfl : a = a' := Except.ok.inj hbefore
            exact Or.inl hy
        | cons z before =>
            obtain ⟨rfl, rfl⟩ := List.cons.inj hxs
            rw [List.foldlM_cons, bind_eq_ok_iff] at hbefore
            obtain ⟨a₁, hx, hbefore⟩ := hbefore
            exact Or.inr ⟨a₁, hx, ih.mpr ⟨before, y, after, a', rfl, hbefore, hy⟩⟩

/-- Where every item of a list gives something, the list gives that of each item, and nothing else. -/
theorem of_mapM_eq_some {f : α → Option β} {as : List α} {bs : List β}
    (h : as.mapM f = some bs) : bs.length = as.length ∧ (∀ a ∈ as, ∃ b, f a = some b) ∧
      ∀ b ∈ bs, ∃ a ∈ as, f a = some b := by
  induction as generalizing bs with
  | nil =>
      obtain rfl := Option.some.inj h
      exact ⟨rfl, fun a ha => absurd ha List.not_mem_nil, fun b hb => absurd hb List.not_mem_nil⟩
  | cons a as ih =>
      rw [List.mapM_cons] at h
      obtain ⟨b, hb, h⟩ := Option.bind_eq_some_iff.mp h
      obtain ⟨bs', hbs, h⟩ := Option.bind_eq_some_iff.mp h
      obtain rfl := Option.some.inj h
      obtain ⟨hlength, hgives, hgiven⟩ := ih hbs
      refine ⟨congrArg (· + 1) hlength, List.forall_mem_cons.mpr ⟨⟨b, hb⟩, hgives⟩, ?_⟩
      intro c hc
      rcases List.mem_cons.mp hc with rfl | hc
      · exact ⟨a, List.mem_cons_self, hb⟩
      · obtain ⟨a', ha', hac⟩ := hgiven c hc
        exact ⟨a', List.mem_cons_of_mem _ ha', hac⟩

/-- A list of items, each written so that it is read back, is read back. -/
theorem mapM_map_eq_some {f : α → β} {read? : β → Option α} (hread : ∀ a, read? (f a) = some a)
    (as : List α) : (as.map f).mapM read? = some as := by
  induction as with
  | nil => rfl
  | cons a as ih =>
      rw [List.map_cons, List.mapM_cons, hread, ih]
      rfl

/-- Wherever the first outcome is a result, the second is one that stands in the relation to it. -/
def Follows (R : α → β → Prop) (x : Option α) (y : Option β) : Prop :=
  ∀ a, x = some a → ∃ b, y = some b ∧ R a b

namespace Follows

variable {R : α → β → Prop} {S : γ → δ → Prop} {x x' : Option α} {y y' : Option β}

theorem none : Follows R none y := fun _ h => nomatch h

theorem some {a : α} {b : β} (h : R a b) : Follows R (some a) (some b) := by
  intro a' ha
  obtain rfl := Option.some.inj ha
  exact ⟨b, rfl, h⟩

theorem bind {f : α → Option γ} {g : β → Option δ} (h : Follows R x y)
    (hfg : ∀ a b, R a b → Follows S (f a) (g b)) : Follows S (x.bind f) (y.bind g) := by
  intro c hc
  obtain ⟨a, ha, hfa⟩ := Option.bind_eq_some_iff.mp hc
  obtain ⟨b, rfl, hab⟩ := h a ha
  exact hfg a b hab c hfa

/-- The same step stands in front of both. -/
theorem bind_same {f : β → Option γ} {g : β → Option δ} {o : Option β}
    (hfg : ∀ b, o = Option.some b → Follows S (f b) (g b)) :
    Follows S (o.bind f) (o.bind g) := by
  cases o with
  | none => exact Follows.none
  | some b => exact hfg b rfl

theorem same {R : α → α → Prop} (h : ∀ a, R a a) : Follows R x x :=
  fun a ha => ⟨a, ha, h a⟩

theorem map {f : α → γ} {g : β → δ} (h : Follows R x y) (hfg : ∀ a b, R a b → S (f a) (g b)) :
    Follows S (x.map f) (y.map g) := by
  intro c hc
  obtain ⟨a, ha, rfl⟩ := Option.map_eq_some_iff.mp hc
  obtain ⟨b, rfl, hab⟩ := h a ha
  exact ⟨g b, rfl, hfg a b hab⟩

theorem ite {p : Prop} [Decidable p] (hpos : p → Follows R x y) (hneg : ¬ p → Follows R x' y') :
    Follows R (if p then x else x') (if p then y else y') := by
  by_cases h : p
  · rw [if_pos h, if_pos h]
    exact hpos h
  · rw [if_neg h, if_neg h]
    exact hneg h

end Follows

def Beside (R : β → γ → Prop) (a : α × β) (b : α × γ) : Prop := a.1 = b.1 ∧ R a.2 b.2

end SourceEdit.Outcome
