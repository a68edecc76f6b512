import SourceEdit.Proofs.Outcome
import SourceEdit.Proofs.Yaml.Node.Readers

/-!
# Nodes at the end of the stream

For a node, the end of the stream and the start of another document are one: it ends there. So what
is read of a node at the end of the stream is read when another document starts there instead.
-/

namespace SourceEdit.Yaml

open Outcome (Follows Beside)

/-- A document starts instead of the end of the stream. -/
def reopen : Token → Token
  | .streamEnd => .documentStart
  | t => t

theorem reopen_of_ne {t : Token} (h : t ≠ .streamEnd) : reopen t = t := by
  cases t <;> first | rfl | exact absurd rfl h

theorem reopen_beq (t : Token) {k : Token} (hend : k ≠ .streamEnd) (hstart : k ≠ .documentStart) :
    (reopen t == k) = (t == k) := by
  by_cases ht : t = .streamEnd
  · subst ht
    rw [beq_eq_false_iff_ne.mpr hend.symm]
    exact beq_eq_false_iff_ne.mpr hstart.symm
  · rw [reopen_of_ne ht]

namespace NodeState

def reopened (s : NodeState) : NodeState := { s with tokens := s.tokens.map reopen }

/-- The same state but for the end of the stream. -/
def Reopens (s s' : NodeState) : Prop := s' = s.reopened

variable {α : Type} {s : NodeState} {n : Nat}

theorem peek_reopened (s : NodeState) : s.reopened.peek = reopen s.peek := by
  obtain ⟨tokens, names, handles⟩ := s
  cases tokens <;> rfl

theorem advance_reopened (s : NodeState) : s.reopened.advance = s.advance.reopened := by
  obtain ⟨tokens, names, handles⟩ := s
  cases tokens <;> rfl

theorem peek_reopened_beq (s : NodeState) {k : Token} (hend : k ≠ .streamEnd)
    (hstart : k ≠ .documentStart) : (s.reopened.peek == k) = (s.peek == k) := by
  rw [peek_reopened, reopen_beq _ hend hstart]

theorem peek_reopened_bne (s : NodeState) {k : Token} (hend : k ≠ .streamEnd)
    (hstart : k ≠ .documentStart) : (s.reopened.peek != k) = (s.peek != k) :=
  congrArg (!·) (peek_reopened_beq s hend hstart)

/-- The comma before an item or an entry in brackets, which the first one has not. -/
theorem behindComma_reopened (first : Bool) (s : NodeState) :
    (if first then s.reopened else s.reopened.advance) =
      (if first then s else s.advance).reopened := by
  cases first
  · exact advance_reopened s
  · rfl

theorem endsBlockPart_reopen (t : Token) : endsBlockPart (reopen t) = endsBlockPart t := by
  cases t <;> rfl

theorem follows_pure (a : α) (s : NodeState) :
    Follows (Beside Reopens) (some (a, s)) (some (a, s.reopened)) := Follows.some ⟨rfl, rfl⟩

theorem follows_advance (a : α) (s : NodeState) :
    Follows (Beside Reopens) (some (a, s.advance)) (some (a, s.reopened.advance)) :=
  Follows.some ⟨rfl, advance_reopened s⟩

structure AllReopen (n : Nat) : Prop where
  node : ∀ block indentless s, Follows (Beside Reopens) (node? block indentless n s)
    (node? block indentless n s.reopened)
  blockItems : ∀ s, Follows (Beside Reopens) (blockItems? n s) (blockItems? n s.reopened)
  indentlessItems : ∀ s,
    Follows (Beside Reopens) (indentlessItems? n s) (indentlessItems? n s.reopened)
  blockEntries : ∀ s, Follows (Beside Reopens) (blockEntries? n s) (blockEntries? n s.reopened)
  blockValue : ∀ s, Follows (Beside Reopens) (blockValue? n s) (blockValue? n s.reopened)
  flowItems : ∀ first s,
    Follows (Beside Reopens) (flowItems? first n s) (flowItems? first n s.reopened)
  flowPair : ∀ s, Follows (Beside Reopens) (flowPair? n s) (flowPair? n s.reopened)
  flowEntries : ∀ first s,
    Follows (Beside Reopens) (flowEntries? first n s) (flowEntries? first n s.reopened)
  flowValue : ∀ s, Follows (Beside Reopens) (flowValue? n s) (flowValue? n s.reopened)

/-- One reader after another, from the same place on. -/
theorem follows_bind {β : Type} {o o' : Option (α × NodeState)}
    {f : α × NodeState → Option (β × NodeState)} (h : Follows (Beside Reopens) o o')
    (hf : ∀ a s, Follows (Beside Reopens) (f (a, s)) (f (a, s.reopened))) :
    Follows (Beside Reopens) (o.bind f) (o'.bind f) := by
  refine Follows.bind h ?_
  rintro ⟨a, s⟩ ⟨a', s'⟩ ⟨ha, hs⟩
  obtain rfl : a = a' := ha
  obtain rfl : s' = s.reopened := hs
  exact hf a s

/-! ## Block collections -/

theorem blockItem_reopened (ih : AllReopen n) (s : NodeState) :
    Follows (Beside Reopens) (blockItem n s) (blockItem n s.reopened) := by
  unfold blockItem
  rw [peek_reopened_beq s (by decide) (by decide), peek_reopened_beq s (by decide) (by decide)]
  exact Follows.ite (fun _ => follows_pure _ s) fun _ => ih.node true false s

theorem indentlessItem_reopened (ih : AllReopen n) (s : NodeState) :
    Follows (Beside Reopens) (indentlessItem n s) (indentlessItem n s.reopened) := by
  unfold indentlessItem
  rw [peek_reopened_beq s (by decide) (by decide), peek_reopened, endsBlockPart_reopen]
  exact Follows.ite (fun _ => follows_pure _ s) fun _ => ih.node true false s

theorem blockPart_reopened (ih : AllReopen n) (s : NodeState) :
    Follows (Beside Reopens) (blockPart n s) (blockPart n s.reopened) := by
  unfold blockPart
  rw [peek_reopened, endsBlockPart_reopen]
  exact Follows.ite (fun _ => follows_pure _ s) fun _ => ih.node true true s

theorem blockItems?_reopened (ih : AllReopen n) (s : NodeState) :
    Follows (Beside Reopens) (blockItems? (n + 1) s) (blockItems? (n + 1) s.reopened) := by
  unfold blockItems?
  rw [peek_reopened]
  cases s.peek with
  | blockEntry =>
      dsimp only [reopen]
      rw [advance_reopened]
      refine follows_bind (blockItem_reopened ih s.advance) fun item s => ?_
      exact follows_bind (ih.blockItems s) fun items s => follows_pure _ s
  | blockEnd => exact follows_advance _ s
  | _ => exact Follows.none

theorem indentlessItems?_reopened (ih : AllReopen n) (s : NodeState) :
    Follows (Beside Reopens) (indentlessItems? (n + 1) s)
      (indentlessItems? (n + 1) s.reopened) := by
  unfold indentlessItems?
  rw [peek_reopened]
  cases s.peek with
  | blockEntry =>
      dsimp only [reopen]
      rw [advance_reopened]
      refine follows_bind (indentlessItem_reopened ih s.advance) fun item s => ?_
      exact follows_bind (ih.indentlessItems s) fun items s => follows_pure _ s
  | unreadable => exact Follows.none
  | _ => exact follows_pure _ s

theorem blockEntries?_reopened (ih : AllReopen n) (s : NodeState) :
    Follows (Beside Reopens) (blockEntries? (n + 1) s) (blockEntries? (n + 1) s.reopened) := by
  unfold blockEntries?
  rw [peek_reopened]
  cases s.peek with
  | key =>
      dsimp only [reopen]
      rw [advance_reopened]
      refine follows_bind (blockPart_reopened ih s.advance) fun key s => ?_
      refine follows_bind (ih.blockValue s) fun value s => ?_
      exact follows_bind (ih.blockEntries s) fun entries s => follows_pure _ s
  | blockEnd => exact follows_advance _ s
  | _ => exact Follows.none

theorem blockValue?_reopened (ih : AllReopen n) (s : NodeState) :
    Follows (Beside Reopens) (blockValue? (n + 1) s) (blockValue? (n + 1) s.reopened) := by
  unfold blockValue?
  rw [peek_reopened]
  cases s.peek with
  | value =>
      dsimp only [reopen]
      rw [advance_reopened]
      exact blockPart_reopened ih s.advance
  | unreadable => exact Follows.none
  | _ => exact follows_pure _ s

/-! ## Flow collections -/

theorem flowPart_reopened (ih : AllReopen n) (last : Token) (hend : last ≠ .streamEnd)
    (hstart : last ≠ .documentStart) (s : NodeState) :
    Follows (Beside Reopens) (flowPart last n s) (flowPart last n s.reopened) := by
  unfold flowPart
  rw [peek_reopened_beq s (by decide) (by decide), peek_reopened_beq s hend hstart]
  exact Follows.ite (fun _ => follows_pure _ s) fun _ => ih.node false false s

theorem flowValue?_reopened (ih : AllReopen n) (s : NodeState) :
    Follows (Beside Reopens) (flowValue? (n + 1) s) (flowValue? (n + 1) s.reopened) := by
  unfold flowValue?
  rw [peek_reopened]
  cases s.peek with
  | value =>
      dsimp only [reopen]
      rw [advance_reopened]
      exact flowPart_reopened ih .flowMappingEnd (by decide) (by decide) s.advance
  | unreadable => exact Follows.none
  | _ => exact follows_pure _ s

theorem pairKey_reopened (ih : AllReopen n) (s : NodeState) :
    Follows (Beside Reopens) (pairKey n s) (pairKey n s.reopened) := by
  unfold pairKey
  rw [peek_reopened_beq s (by decide) (by decide), peek_reopened_beq s (by decide) (by decide),
    peek_reopened_beq s (by decide) (by decide)]
  exact Follows.ite (fun _ => follows_advance _ s) fun _ => ih.node false false s

theorem pairValue_reopened (ih : AllReopen n) (key : Node) (s : NodeState) :
    Follows (Beside Reopens) (pairValue key n s) (pairValue key n s.reopened) := by
  unfold pairValue
  rw [peek_reopened_beq s (by decide) (by decide), peek_reopened_beq s (by decide) (by decide),
    advance_reopened]
  refine Follows.ite (fun _ => ?_) fun _ => ?_
  · exact follows_bind
      (flowPart_reopened ih .flowSequenceEnd (by decide) (by decide) s.advance) fun value s =>
        follows_pure _ s
  · exact Follows.ite (fun _ => Follows.none) fun _ => follows_pure _ s

theorem flowItem_reopened (ih : AllReopen n) (s : NodeState) :
    Follows (Beside Reopens) (flowItem n s) (flowItem n s.reopened) := by
  unfold flowItem
  rw [peek_reopened_beq s (by decide) (by decide), peek_reopened_beq s (by decide) (by decide),
    advance_reopened]
  refine Follows.ite (fun _ => follows_pure _ s.advance) fun _ => ?_
  refine Follows.ite (fun _ => ?_) fun _ => ?_
  · refine follows_bind (ih.flowPair s.advance) fun pair s => ?_
    exact follows_bind (ih.flowItems false s) fun items s => follows_pure _ s
  · refine follows_bind (ih.node false false s) fun item s => ?_
    exact follows_bind (ih.flowItems false s) fun items s => follows_pure _ s

theorem flowItems?_reopened (ih : AllReopen n) (first : Bool) (s : NodeState) :
    Follows (Beside Reopens) (flowItems? first (n + 1) s)
      (flowItems? first (n + 1) s.reopened) := by
  rw [flowItems?_eq, flowItems?_eq, peek_reopened_beq s (by decide) (by decide),
    peek_reopened_bne s (by decide) (by decide), behindComma_reopened]
  refine Follows.ite (fun _ => follows_advance _ s) fun _ => ?_
  exact Follows.ite (fun _ => Follows.none) fun _ => flowItem_reopened ih _

theorem flowPair?_reopened (ih : AllReopen n) (s : NodeState) :
    Follows (Beside Reopens) (flowPair? (n + 1) s) (flowPair? (n + 1) s.reopened) := by
  rw [flowPair?_eq, flowPair?_eq]
  exact follows_bind (pairKey_reopened ih s) fun key s => pairValue_reopened ih key s

theorem flowKey_reopened (ih : AllReopen n) (s : NodeState) :
    Follows (Beside Reopens) (flowEntry.flowKey n s) (flowEntry.flowKey n s.reopened) := by
  unfold flowEntry.flowKey
  rw [peek_reopened_beq s (by decide) (by decide), peek_reopened_beq s (by decide) (by decide),
    peek_reopened_beq s (by decide) (by decide)]
  exact Follows.ite (fun _ => follows_pure _ s) fun _ => ih.node false false s

theorem flowEntry_reopened (ih : AllReopen n) (s : NodeState) :
    Follows (Beside Reopens) (flowEntry n s) (flowEntry n s.reopened) := by
  unfold flowEntry
  rw [peek_reopened_beq s (by decide) (by decide), peek_reopened_beq s (by decide) (by decide),
    advance_reopened]
  refine Follows.ite (fun _ => follows_pure _ s.advance) fun _ => ?_
  refine Follows.ite (fun _ => ?_) fun _ => ?_
  · refine follows_bind (flowKey_reopened ih s.advance) fun key s => ?_
    refine follows_bind (ih.flowValue s) fun value s => ?_
    exact follows_bind (ih.flowEntries false s) fun entries s => follows_pure _ s
  · refine follows_bind (ih.node false false s) fun key s => ?_
    exact follows_bind (ih.flowEntries false s) fun entries s => follows_pure _ s

theorem flowEntries?_reopened (ih : AllReopen n) (first : Bool) (s : NodeState) :
    Follows (Beside Reopens) (flowEntries? first (n + 1) s)
      (flowEntries? first (n + 1) s.reopened) := by
  rw [flowEntries?_eq, flowEntries?_eq, peek_reopened_beq s (by decide) (by decide),
    peek_reopened_bne s (by decide) (by decide), behindComma_reopened]
  refine Follows.ite (fun _ => follows_advance _ s) fun _ => ?_
  exact Follows.ite (fun _ => Follows.none) fun _ => flowEntry_reopened ih _

/-! ## Nodes -/

theorem tagAfter_reopened (number n : Nat) (s : NodeState) :
    Follows (Beside Reopens) (tagAfter number n s) (tagAfter number n s.reopened) := by
  unfold tagAfter
  rw [peek_reopened]
  cases s.peek with
  | tag handle suffix =>
      dsimp only [reopen]
      rw [advance_reopened]
      exact Follows.bind_same (o := s.tag? handle suffix) fun tag _ => follows_pure _ _
  | _ => exact follows_pure _ s

theorem anchorAfter_reopened (tag : String) (n : Nat) (s : NodeState) :
    Follows (Beside Reopens) (anchorAfter tag n s) (anchorAfter tag n s.reopened) := by
  unfold anchorAfter
  rw [peek_reopened]
  cases s.peek with
  | anchor name =>
      dsimp only [reopen]
      rw [advance_reopened]
      exact follows_pure _ (s.advance.setAnchor name).2
  | _ => exact follows_pure _ s

theorem properties?_reopened (s : NodeState) :
    Follows (Beside Reopens) s.properties? s.reopened.properties? := by
  unfold properties?
  rw [peek_reopened]
  cases s.peek with
  | anchor name =>
      dsimp only [reopen]
      rw [advance_reopened]
      exact tagAfter_reopened _ 0 (s.advance.setAnchor name).2
  | tag handle suffix =>
      dsimp only [reopen]
      rw [advance_reopened]
      exact Follows.bind_same (o := s.tag? handle suffix) fun tag _ =>
        anchorAfter_reopened tag 0 s.advance
  | _ => exact follows_pure _ s

theorem missing?_reopened (props : Properties) (s : NodeState) :
    Follows (Beside Reopens) (missing? props s) (missing? props s.reopened) := by
  unfold missing?
  rw [peek_reopened_beq s (by decide) (by decide)]
  refine Follows.ite (fun _ => ?_) fun _ => Follows.none
  exact Follows.ite (fun _ => Follows.none) fun _ => follows_pure _ s

theorem nodeBody_reopened (ih : AllReopen n) (block indentless : Bool) (props : Properties)
    (s : NodeState) :
    Follows (Beside Reopens) (nodeBody block indentless props n s)
      (nodeBody block indentless props n s.reopened) := by
  unfold nodeBody
  rw [peek_reopened]
  cases s.peek with
  | scalar style text => exact follows_advance _ s
  | blockEntry =>
      refine Follows.ite (fun _ => ?_) fun _ => missing?_reopened props s
      exact follows_bind (ih.indentlessItems s) fun items s => follows_pure _ s
  | flowSequenceStart =>
      dsimp only [reopen]
      rw [advance_reopened]
      exact follows_bind (ih.flowItems true s.advance) fun items s => follows_pure _ s
  | flowMappingStart =>
      dsimp only [reopen]
      rw [advance_reopened]
      exact follows_bind (ih.flowEntries true s.advance) fun entries s => follows_pure _ s
  | blockSequenceStart =>
      dsimp only [reopen]
      rw [advance_reopened]
      refine Follows.ite (fun _ => ?_) fun _ => missing?_reopened props s
      exact follows_bind (ih.blockItems s.advance) fun items s => follows_pure _ s
  | blockMappingStart =>
      dsimp only [reopen]
      rw [advance_reopened]
      refine Follows.ite (fun _ => ?_) fun _ => missing?_reopened props s
      exact follows_bind (ih.blockEntries s.advance) fun entries s => follows_pure _ s
  | _ => exact missing?_reopened props s

theorem node?_reopened (ih : AllReopen n) (block indentless : Bool) (s : NodeState) :
    Follows (Beside Reopens) (node? block indentless (n + 1) s)
      (node? block indentless (n + 1) s.reopened) := by
  have hbody : Follows (Beside Reopens)
      (s.properties?.bind fun p => nodeBody block indentless p.1 n p.2)
      (s.reopened.properties?.bind fun p => nodeBody block indentless p.1 n p.2) :=
    follows_bind (properties?_reopened s) fun props s => nodeBody_reopened ih _ _ props s
  unfold node?
  rw [peek_reopened]
  cases s.peek with
  | «alias» name =>
      exact Follows.bind_same (o := s.anchor? name) fun number _ => follows_advance _ s
  | _ => exact hbody

theorem allReopen (n : Nat) : AllReopen n := by
  induction n with
  | zero =>
      exact ⟨fun _ _ _ => Follows.none, fun _ => Follows.none, fun _ => Follows.none,
        fun _ => Follows.none, fun _ => Follows.none, fun _ _ => Follows.none,
        fun _ => Follows.none, fun _ _ => Follows.none, fun _ => Follows.none⟩
  | succ n ih =>
      exact
        { node := node?_reopened ih
          blockItems := blockItems?_reopened ih
          indentlessItems := indentlessItems?_reopened ih
          blockEntries := blockEntries?_reopened ih
          blockValue := blockValue?_reopened ih
          flowItems := flowItems?_reopened ih
          flowPair := flowPair?_reopened ih
          flowEntries := flowEntries?_reopened ih
          flowValue := flowValue?_reopened ih }

end NodeState

end SourceEdit.Yaml
