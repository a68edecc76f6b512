import SourceEdit.Proofs.Yaml.Node.Documents

/-!
# Streams without an end

Readers only take tokens from the front. So a stream that lacks its end never gets there: the last
of its documents is faulty.
-/

namespace SourceEdit.Yaml

namespace NodeState

variable {α β : Type} {s s' : NodeState} {o : Option (α × NodeState)}

/-- A reading from a state leaves the end of its tokens. -/
def Drops (s : NodeState) (o : Option (α × NodeState)) : Prop :=
  ∀ a s', o = some (a, s') → s'.tokens <:+ s.tokens

namespace Drops

theorem none : Drops s (none : Option (α × NodeState)) := fun _ _ h => absurd h (by simp)

theorem some {a : α} (h : s'.tokens <:+ s.tokens) : Drops s (some (a, s')) := by
  intro b s'' heq
  obtain ⟨-, rfl⟩ := Prod.mk.inj (Option.some.inj heq)
  exact h

theorem same {a : α} : Drops s (Option.some (a, s)) := Drops.some (List.suffix_refl _)

theorem after (h : Drops s' o) (hs : s'.tokens <:+ s.tokens) : Drops s o :=
  fun a s'' heq => (h a s'' heq).trans hs

theorem bind {f : α × NodeState → Option (β × NodeState)} (h : Drops s o)
    (hf : ∀ a s', Drops s' (f (a, s'))) : Drops s (o.bind f) := by
  intro b s'' heq
  obtain ⟨⟨a, s'⟩, ho, hb⟩ := Option.bind_eq_some_iff.mp heq
  exact (hf a s' b s'' hb).trans (h a s' ho)

theorem bind_value {x : Option β} {f : β → Option (α × NodeState)} (hf : ∀ b, Drops s (f b)) :
    Drops s (x.bind f) := by
  intro a s' heq
  obtain ⟨b, -, hb⟩ := Option.bind_eq_some_iff.mp heq
  exact hf b a s' hb

theorem ite {p : Prop} [Decidable p] {o' : Option (α × NodeState)} (h : Drops s o)
    (h' : Drops s o') : Drops s (if p then o else o') := by
  split
  · exact h
  · exact h'

end Drops

theorem advance_suffix (s : NodeState) : s.advance.tokens <:+ s.tokens := List.drop_suffix _ _

theorem behindComma_suffix (first : Bool) (s : NodeState) :
    (if first then s else s.advance).tokens <:+ s.tokens := by
  cases first
  · exact advance_suffix s
  · exact List.suffix_refl _

theorem properties?_drops (s : NodeState) : Drops s s.properties? := by
  unfold properties?
  split
  · next name _ =>
    have hset : (s.advance.setAnchor name).2.tokens <:+ s.tokens := advance_suffix s
    dsimp only
    split
    · exact Drops.bind_value fun tag => Drops.some ((advance_suffix _).trans hset)
    · exact Drops.some hset
  · refine Drops.bind_value fun tag => ?_
    dsimp only
    split
    · exact Drops.some ((advance_suffix _).trans (advance_suffix s))
    · exact Drops.some (advance_suffix s)
  · exact Drops.same

theorem missing?_drops (props : Properties) (s : NodeState) : Drops s (missing? props s) :=
  Drops.ite (Drops.ite Drops.none Drops.same) Drops.none

structure AllDrop (n : Nat) : Prop where
  node : ∀ block indentless s, Drops s (node? block indentless n s)
  blockItems : ∀ s, Drops s (blockItems? n s)
  indentlessItems : ∀ s, Drops s (indentlessItems? n s)
  blockEntries : ∀ s, Drops s (blockEntries? n s)
  blockValue : ∀ s, Drops s (blockValue? n s)
  flowItems : ∀ first s, Drops s (flowItems? first n s)
  flowPair : ∀ s, Drops s (flowPair? n s)
  flowEntries : ∀ first s, Drops s (flowEntries? first n s)
  flowValue : ∀ s, Drops s (flowValue? n s)

variable {n : Nat}

theorem node?_drops (ih : AllDrop n) (block indentless : Bool) (s : NodeState) :
    Drops s (node? block indentless (n + 1) s) := by
  unfold node?
  split
  · exact Drops.bind_value fun number => Drops.some (advance_suffix s)
  · refine (properties?_drops s).bind fun props s' => ?_
    dsimp only
    split
    · exact Drops.some (advance_suffix s')
    · refine Drops.ite ?_ (missing?_drops props s')
      exact (ih.indentlessItems s').bind fun items s'' => Drops.same
    · refine Drops.after ?_ (advance_suffix s')
      exact (ih.flowItems true _).bind fun items s'' => Drops.same
    · refine Drops.after ?_ (advance_suffix s')
      exact (ih.flowEntries true _).bind fun entries s'' => Drops.same
    · refine Drops.ite ?_ (missing?_drops props s')
      refine Drops.after ?_ (advance_suffix s')
      exact (ih.blockItems _).bind fun items s'' => Drops.same
    · refine Drops.ite ?_ (missing?_drops props s')
      refine Drops.after ?_ (advance_suffix s')
      exact (ih.blockEntries _).bind fun entries s'' => Drops.same
    · exact missing?_drops props s'

theorem blockItems?_drops (ih : AllDrop n) (s : NodeState) : Drops s (blockItems? (n + 1) s) := by
  unfold blockItems?
  split
  · refine Drops.after ?_ (advance_suffix s)
    refine (Drops.ite Drops.same (ih.node true false _)).bind fun item s' => ?_
    exact (ih.blockItems s').bind fun items s'' => Drops.same
  · exact Drops.some (advance_suffix s)
  · exact Drops.none

theorem indentlessItems?_drops (ih : AllDrop n) (s : NodeState) :
    Drops s (indentlessItems? (n + 1) s) := by
  unfold indentlessItems?
  split
  · refine Drops.after ?_ (advance_suffix s)
    refine (Drops.ite Drops.same (ih.node true false _)).bind fun item s' => ?_
    exact (ih.indentlessItems s').bind fun items s'' => Drops.same
  · exact Drops.none
  · exact Drops.same

theorem blockEntries?_drops (ih : AllDrop n) (s : NodeState) :
    Drops s (blockEntries? (n + 1) s) := by
  unfold blockEntries?
  split
  · refine Drops.after ?_ (advance_suffix s)
    refine (Drops.ite Drops.same (ih.node true true _)).bind fun key s' => ?_
    refine (ih.blockValue s').bind fun value s'' => ?_
    exact (ih.blockEntries s'').bind fun entries s₃ => Drops.same
  · exact Drops.some (advance_suffix s)
  · exact Drops.none

theorem blockValue?_drops (ih : AllDrop n) (s : NodeState) : Drops s (blockValue? (n + 1) s) := by
  unfold blockValue?
  split
  · exact (Drops.ite Drops.same (ih.node true true _)).after (advance_suffix s)
  · exact Drops.none
  · exact Drops.same

theorem flowItems?_drops (ih : AllDrop n) (first : Bool) (s : NodeState) :
    Drops s (flowItems? first (n + 1) s) := by
  unfold flowItems?
  refine Drops.ite (Drops.some (advance_suffix s)) (Drops.ite Drops.none ?_)
  refine Drops.after ?_ (behindComma_suffix first s)
  dsimp only
  generalize (if first then s else s.advance) = s₁
  split
  · exact Drops.some (advance_suffix _)
  · refine Drops.after ?_ (advance_suffix _)
    refine (ih.flowPair _).bind fun pair s' => ?_
    exact (ih.flowItems false s').bind fun items s'' => Drops.same
  · refine (ih.node false false _).bind fun item s' => ?_
    exact (ih.flowItems false s').bind fun items s'' => Drops.same

theorem flowPair?_drops (ih : AllDrop n) (s : NodeState) : Drops s (flowPair? (n + 1) s) := by
  unfold flowPair?
  refine Drops.bind (Drops.ite (Drops.some (advance_suffix s)) (ih.node false false s))
    fun key s' => ?_
  refine Drops.ite (Drops.after ?_ (advance_suffix s')) (Drops.ite Drops.none Drops.same)
  refine Drops.ite Drops.same ?_
  exact (ih.node false false _).bind fun value s'' => Drops.same

theorem flowEntries?_drops (ih : AllDrop n) (first : Bool) (s : NodeState) :
    Drops s (flowEntries? first (n + 1) s) := by
  unfold flowEntries?
  refine Drops.ite (Drops.some (advance_suffix s)) (Drops.ite Drops.none ?_)
  refine Drops.after ?_ (behindComma_suffix first s)
  dsimp only
  generalize (if first then s else s.advance) = s₁
  split
  · exact Drops.some (advance_suffix _)
  · refine Drops.after ?_ (advance_suffix _)
    refine (Drops.ite Drops.same (ih.node false false _)).bind fun key s' => ?_
    refine (ih.flowValue s').bind fun value s'' => ?_
    exact (ih.flowEntries false s'').bind fun entries s₃ => Drops.same
  · refine (ih.node false false _).bind fun key s' => ?_
    exact (ih.flowEntries false s').bind fun entries s'' => Drops.same

theorem flowValue?_drops (ih : AllDrop n) (s : NodeState) : Drops s (flowValue? (n + 1) s) := by
  unfold flowValue?
  split
  · exact (Drops.ite Drops.same (ih.node false false _)).after (advance_suffix s)
  · exact Drops.none
  · exact Drops.same

theorem allDrop (n : Nat) : AllDrop n := by
  induction n with
  | zero =>
      exact ⟨fun _ _ _ => Drops.none, fun _ => Drops.none, fun _ => Drops.none, fun _ => Drops.none,
        fun _ => Drops.none, fun _ _ => Drops.none, fun _ => Drops.none, fun _ _ => Drops.none,
        fun _ => Drops.none⟩
  | succ n ih =>
      exact
        { node := node?_drops ih
          blockItems := blockItems?_drops ih
          indentlessItems := indentlessItems?_drops ih
          blockEntries := blockEntries?_drops ih
          blockValue := blockValue?_drops ih
          flowItems := flowItems?_drops ih
          flowPair := flowPair?_drops ih
          flowEntries := flowEntries?_drops ih
          flowValue := flowValue?_drops ih }

end NodeState

/-! ## Documents -/

theorem afterDocument?_suffix {ts rest : List Token} (h : afterDocument? ts = some rest) :
    rest <:+ ts := by
  unfold afterDocument? at h
  split at h
  · obtain rfl := Option.some.inj h
    exact List.suffix_cons _ _
  · exact absurd h (by simp)
  · obtain rfl := Option.some.inj h
    exact List.suffix_refl _

theorem root?_suffix {handles : List (String × String)} {ts rest : List Token} {d : Document}
    (h : root? handles ts = some (d, rest)) : rest <:+ ts := by
  obtain ⟨⟨node, s⟩, hnode, h⟩ := Option.bind_eq_some_iff.mp h
  obtain ⟨rest', hrest, h⟩ := Option.bind_eq_some_iff.mp h
  obtain ⟨-, rfl⟩ := Prod.mk.inj (Option.some.inj h)
  exact (afterDocument?_suffix hrest).trans
    ((NodeState.allDrop _).node true false _ node s hnode)

theorem markedRoot?_suffix {handles : List (String × String)} {ts rest : List Token} {d : Document}
    (h : markedRoot? handles ts = some (d, rest)) : rest <:+ ts := by
  have hmissing : (afterDocument? ts).map (Document.ofRoot .missing, ·) = some (d, rest) →
      rest <:+ ts := by
    intro h
    obtain ⟨rest', hrest, heq⟩ := Option.map_eq_some_iff.mp h
    obtain ⟨-, rfl⟩ := Prod.mk.inj heq
    exact afterDocument?_suffix hrest
  unfold markedRoot? at h
  split at h
  · exact hmissing h
  · exact hmissing h
  · exact hmissing h
  · exact hmissing h
  · exact hmissing h
  · exact root?_suffix h

theorem directives?_suffix {d d' : Directives} {ts rest : List Token}
    (h : directives? d ts = some (d', rest)) : rest <:+ ts := by
  induction ts generalizing d with
  | nil =>
      obtain ⟨-, rfl⟩ := Prod.mk.inj (Option.some.inj h)
      exact List.suffix_refl _
  | cons t ts ih =>
      unfold directives? at h
      split at h
      · next heq =>
        obtain ⟨rfl, rfl⟩ := List.cons.inj heq
        split at h
        · exact absurd h (by simp)
        · exact (ih h).trans (List.suffix_cons _ _)
      · next heq =>
        obtain ⟨rfl, rfl⟩ := List.cons.inj heq
        split at h
        · exact absurd h (by simp)
        · exact (ih h).trans (List.suffix_cons _ _)
      · obtain ⟨-, rfl⟩ := Prod.mk.inj (Option.some.inj h)
        exact List.suffix_refl _

/-- **A stream without an end** has a fault in its last document. -/
theorem documentsFrom_unended (first : Bool) (fuel : Nat) {ts : List Token}
    (hend : .streamEnd ∉ ts) : ∃ ds, documentsFrom first fuel ts = ds ++ [none] := by
  induction fuel generalizing first ts with
  | zero => exact ⟨[], rfl⟩
  | succ fuel ih =>
      -- what a document leaves is a suffix of the tokens, so it has no end of the stream either
      have hproceed : ∀ (read : Option (Document × List Token)),
          (∀ d rest, read = some (d, rest) → .streamEnd ∉ rest) →
          ∃ ds, proceed fuel read = ds ++ [none] := by
        intro read hread
        cases read with
        | none => exact ⟨[], rfl⟩
        | some p =>
            obtain ⟨ds, hds⟩ := ih false (hread p.1 p.2 rfl)
            exact ⟨some p.1 :: ds, congrArg (some p.1 :: ·) hds⟩
      have hsuffix : (if first then ts else ts.dropWhile (· == .documentEnd)) <:+ ts := by
        cases first
        · exact List.dropWhile_suffix _
        · exact List.suffix_refl _
      have hstart : Token.streamEnd ∉ if first then ts else ts.dropWhile (· == .documentEnd) :=
        fun hmem => hend (hsuffix.subset hmem)
      unfold documentsFrom
      dsimp only
      generalize (if first then ts else ts.dropWhile (· == .documentEnd)) = us at hstart
      have hdirected : ∃ ds, directed fuel us = ds ++ [none] := by
        unfold directed
        split
        · next d rest hread =>
          refine hproceed _ fun d' rest' hroot hmem => hstart ?_
          refine (directives?_suffix hread).subset (List.mem_cons_of_mem _ ?_)
          exact (markedRoot?_suffix hroot).subset hmem
        · exact ⟨[], rfl⟩
      split
      · next hhead =>
        cases us with
        | nil => exact absurd hhead (by simp)
        | cons t us =>
            obtain rfl : t = .streamEnd := hhead
            exact absurd (List.mem_cons_self ..) hstart
      · exact ⟨[], rfl⟩
      · exact hdirected
      · exact hdirected
      · exact hdirected
      · split
        · exact hproceed _ fun d rest hroot hmem => hstart ((root?_suffix hroot).subset hmem)
        · exact ⟨[], rfl⟩

end SourceEdit.Yaml
