import SourceEdit.Yaml.Node.Reader

/-!
# Nodes are read locally

What is read in front of the marker of a document does not depend on what stands behind the marker,
nor on the number of steps allowed, once that covers the tokens that are taken. The tokens taken
never deepen the nesting of brackets and braces. Both are one invariant, `LocalAt`, that the
building blocks of the readers preserve; from these it is carried over the readers by induction on
the number of steps.
-/

namespace SourceEdit.Yaml

variable {α β : Type}

/-! ## Depth of brackets -/

/-- The depth of brackets and braces after a token. Closing ones that nothing opened do not count,
as for the lexer. -/
def depthStep (n : Nat) : Token → Nat
  | .flowSequenceStart | .flowMappingStart => n + 1
  | .flowSequenceEnd | .flowMappingEnd => n - 1
  | _ => n

def depthAfter (n : Nat) (ts : List Token) : Nat := ts.foldl depthStep n

theorem depthStep_mono {m n : Nat} (h : m ≤ n) (t : Token) : depthStep m t ≤ depthStep n t := by
  cases t <;> simp only [depthStep] <;> omega

theorem depthAfter_mono {m n : Nat} (h : m ≤ n) (ts : List Token) :
    depthAfter m ts ≤ depthAfter n ts := by
  induction ts generalizing m n with
  | nil => exact h
  | cons t ts ih => exact ih (depthStep_mono h t)

theorem depthAfter_append (n : Nat) (ts us : List Token) :
    depthAfter n (ts ++ us) = depthAfter (depthAfter n ts) us := by
  rw [depthAfter, List.foldl_append]
  rfl

/-- Whether tokens leave at least `drop` brackets fewer open. -/
def Sinks (drop : Nat) (ts : List Token) : Prop := ∀ n, depthAfter (n + drop) ts ≤ n

theorem Sinks.append {drop : Nat} {ts us : List Token} (h : Sinks 0 ts) (h' : Sinks drop us) :
    Sinks drop (ts ++ us) := by
  intro n
  rw [depthAfter_append]
  exact Nat.le_trans (depthAfter_mono (h (n + drop)) us) (h' n)

theorem Sinks.cons {drop d : Nat} {t : Token} {ts : List Token}
    (ht : ∀ n, depthStep (n + drop) t ≤ n + d) (h : Sinks d ts) :
    Sinks drop (t :: ts) := fun n =>
  Nat.le_trans (depthAfter_mono (ht n) ts) (h n)

namespace NodeState

/-! ## States in front of a marker -/

/-- The state with a marker and other tokens behind the tokens that it has. -/
def before (s : NodeState) (behind : List Token) : NodeState :=
  { s with tokens := s.tokens ++ .documentStart :: behind }

def head (s : NodeState) : Token := s.tokens.headD .documentStart

@[simp] theorem peek_before (s : NodeState) (behind : List Token) :
    (s.before behind).peek = s.head := by
  obtain ⟨tokens, names, handles⟩ := s
  cases tokens <;> rfl

theorem tokens_eq_cons {s : NodeState} {t : Token} (h : s.head = t) (ht : t ≠ .documentStart) :
    s.tokens = t :: s.advance.tokens := by
  obtain ⟨tokens, names, handles⟩ := s
  cases tokens with
  | nil => exact absurd h.symm ht
  | cons u us =>
      obtain rfl : u = t := h
      rfl

theorem advance_before {s : NodeState} {t : Token} (h : s.head = t) (ht : t ≠ .documentStart)
    (behind : List Token) : (s.before behind).advance = s.advance.before behind := by
  obtain ⟨tokens, names, handles⟩ := s
  cases tokens with
  | nil => exact absurd h.symm ht
  | cons u us => rfl

/-! ## Locality -/

/-- **Locality.** A reader that succeeds in front of a marker takes some tokens, which leave `drop`
brackets fewer open; it does the same whatever is behind the marker, with any number of steps that
covers four for each token taken and `k` more. -/
def LocalAt (f : Nat → NodeState → Option (α × NodeState)) (k drop n : Nat) (s : NodeState) :
    Prop :=
  ∀ behind a r, f n (s.before behind) = some (a, r) →
    ∃ (s' : NodeState) (taken : List Token), r = s'.before behind ∧
      s.tokens = taken ++ s'.tokens ∧ Sinks drop taken ∧
      ∀ behind' m, 4 * taken.length + k ≤ m → f m (s.before behind') = some (a, s'.before behind')

def IsLocal (f : Nat → NodeState → Option (α × NodeState)) (k drop n : Nat) : Prop :=
  ∀ s, LocalAt f k drop n s

variable {f g : Nat → NodeState → Option (α × NodeState)} {k k' drop d n : Nat}
  {s : NodeState}

theorem LocalAt.mono (h : LocalAt f k drop n s) (hk : k ≤ k') : LocalAt f k' drop n s := by
  intro behind a r hr
  obtain ⟨s', taken, rfl, htaken, hsinks, hall⟩ := h behind a r hr
  exact ⟨s', taken, rfl, htaken, hsinks, fun behind' m hm => hall behind' m (by omega)⟩

theorem LocalAt.fail (h : ∀ behind, f n (s.before behind) = none) : LocalAt f k drop n s := by
  intro behind a r hr
  rw [h behind] at hr
  cases hr

/-- Nothing is taken. -/
theorem LocalAt.pure {a : α} : LocalAt (fun _ s => some (a, s)) k 0 n s := by
  intro behind b r hr
  cases hr
  exact ⟨s, [], rfl, rfl, fun _ => Nat.le_refl _, fun _ _ _ => rfl⟩

theorem LocalAt.congr (heq : ∀ behind m, f m (s.before behind) = g m (s.before behind))
    (h : LocalAt g k drop n s) : LocalAt f k drop n s := by
  intro behind a r hr
  rw [heq] at hr
  obtain ⟨s', taken, rfl, htaken, hsinks, hall⟩ := h behind a r hr
  exact ⟨s', taken, rfl, htaken, hsinks, fun behind' m hm => by rw [heq, hall behind' m hm]⟩

/-- One step of a reader. -/
theorem LocalAt.succ (heq : ∀ behind m, f (m + 1) (s.before behind) = g m (s.before behind))
    (h : LocalAt g k drop n s) : LocalAt f (k + 1) drop (n + 1) s := by
  intro behind a r hr
  rw [heq] at hr
  obtain ⟨s', taken, rfl, htaken, hsinks, hall⟩ := h behind a r hr
  refine ⟨s', taken, rfl, htaken, hsinks, fun behind' m hm => ?_⟩
  obtain ⟨m, rfl⟩ := Nat.exists_eq_add_of_le' (by omega : 1 ≤ m)
  rw [heq, hall behind' m (by omega)]

/-- One reader after another. -/
theorem LocalAt.bind {f' : α → Nat → NodeState → Option (β × NodeState)}
    (h : LocalAt f k 0 n s) (h' : ∀ a s', LocalAt (f' a) k drop n s') :
    LocalAt (fun m s => (f m s).bind fun p => f' p.1 m p.2) k drop n s := by
  intro behind b r hr
  obtain ⟨⟨a, r'⟩, hfirst, hsecond⟩ := Option.bind_eq_some_iff.mp hr
  obtain ⟨s', taken, rfl, htaken, hsinks, hall⟩ := h behind a r' hfirst
  obtain ⟨s'', taken', rfl, htaken', hsinks', hall'⟩ := h' a s' behind b r hsecond
  refine ⟨s'', taken ++ taken', rfl, by rw [htaken, htaken', List.append_assoc],
    hsinks.append hsinks', fun behind' m hm => ?_⟩
  rw [List.length_append] at hm
  show (f m (s.before behind')).bind _ = _
  rw [hall behind' m (by omega)]
  exact hall' behind' m (by omega)

/-- A reader with something done to its result. -/
theorem LocalAt.bind_some (step : α → β) (h : LocalAt f k drop n s) :
    LocalAt (fun m s => (f m s).bind fun p => some (step p.1, p.2)) k drop n s := by
  intro behind b r hr
  obtain ⟨⟨a, r'⟩, hread, hpair⟩ := Option.bind_eq_some_iff.mp hr
  cases hpair
  obtain ⟨s', taken, rfl, htaken, hsinks, hall⟩ := h behind a r' hread
  refine ⟨s', taken, rfl, htaken, hsinks, fun behind' m hm => ?_⟩
  show (f m (s.before behind')).bind _ = _
  rw [hall behind' m hm]
  rfl

/-- A token that is taken pays for four steps. -/
theorem LocalAt.skip {t : Token} (hhead : s.head = t) (hmarker : t ≠ .documentStart)
    (hdepth : ∀ n, depthStep (n + drop) t ≤ n + d)
    (h : LocalAt f (k + 4) d n s.advance) :
    LocalAt (fun m s => f m s.advance) k drop n s := by
  intro behind a r hr
  replace hr : f n (s.before behind).advance = some (a, r) := hr
  rw [advance_before hhead hmarker] at hr
  obtain ⟨s', taken, rfl, htaken, hsinks, hall⟩ := h behind a r hr
  refine ⟨s', t :: taken, rfl, ?_, hsinks.cons hdepth, fun behind' m hm => ?_⟩
  · rw [tokens_eq_cons hhead hmarker, htaken]
    rfl
  · rw [List.length_cons] at hm
    show f m (s.before behind').advance = _
    rw [advance_before hhead hmarker]
    exact hall behind' m (by omega)

theorem LocalAt.taken {a : α} {t : Token} (hhead : s.head = t) (hmarker : t ≠ .documentStart)
    (hdepth : ∀ n, depthStep (n + drop) t ≤ n) :
    LocalAt (fun _ s => some (a, s.advance)) k drop n s :=
  LocalAt.skip (f := fun _ s => some (a, s)) hhead hmarker hdepth LocalAt.pure

/-- One step of a reader that takes a token first. -/
theorem LocalAt.succ_skip {t : Token} (hhead : s.head = t) (hmarker : t ≠ .documentStart)
    (hdepth : ∀ n, depthStep (n + drop) t ≤ n + d)
    (heq : ∀ behind m, f (m + 1) (s.before behind) = g m (s.before behind).advance)
    (h : LocalAt g (k + 4) d n s.advance) : LocalAt f (k + 1) drop (n + 1) s :=
  LocalAt.succ heq (LocalAt.skip hhead hmarker hdepth h)

theorem LocalAt.ite {p : Token → Bool} (h : p s.head = true → LocalAt f k drop n s)
    (h' : p s.head = false → LocalAt g k drop n s) :
    LocalAt (fun m s => if p s.peek then f m s else g m s) k drop n s := by
  cases hp : p s.head with
  | true =>
      refine LocalAt.congr (fun behind m => ?_) (h hp)
      show (if p (s.before behind).peek then _ else _) = _
      rw [peek_before, hp, if_pos rfl]
  | false =>
      refine LocalAt.congr (fun behind m => ?_) (h' hp)
      show (if p (s.before behind).peek then _ else _) = _
      rw [peek_before, hp, if_neg (by decide)]

end NodeState

end SourceEdit.Yaml
