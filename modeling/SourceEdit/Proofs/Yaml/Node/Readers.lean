import SourceEdit.Proofs.Yaml.Node.Locality

/-!
# The readers of nodes are local

One lemma for each reader: if all readers are local with some number of steps, it is local with one
more. A block collection pays for its steps with the tokens that it takes, a flow collection for all
but the three before its first item.
-/

namespace SourceEdit.Yaml.NodeState

/-- Locality of all readers with one number of steps. -/
structure AllLocal (n : Nat) : Prop where
  node : ∀ block indentless, IsLocal (node? block indentless) 2 0 n
  blockItems : IsLocal blockItems? 1 0 n
  indentlessItems : IsLocal indentlessItems? 1 0 n
  blockEntries : IsLocal blockEntries? 1 0 n
  blockValue : IsLocal blockValue? 1 0 n
  firstFlowItems : IsLocal (flowItems? true) 3 1 n
  flowItems : IsLocal (flowItems? false) 1 1 n
  flowPair : IsLocal flowPair? 3 0 n
  firstFlowEntries : IsLocal (flowEntries? true) 3 1 n
  flowEntries : IsLocal (flowEntries? false) 1 1 n
  flowValue : IsLocal flowValue? 1 0 n

variable {n : Nat}

/-- A token that is neither a bracket nor a brace. -/
theorem depthStep_of_plain {t : Token} (h : ∀ n, depthStep n t = n) (drop : Nat) :
    ∀ n, depthStep (n + drop) t ≤ n + drop := fun _ => Nat.le_of_eq (h _)

/-! ## Block collections -/

/-- An item of an indented sequence, which may be left out. -/
def blockItem (m : Nat) (s : NodeState) : Option (Node × NodeState) :=
  if s.peek == .blockEntry || s.peek == .blockEnd then some (.missing, s)
  else node? true false m s

def indentlessItem (m : Nat) (s : NodeState) : Option (Node × NodeState) :=
  if s.peek == .blockEntry || endsBlockPart s.peek then some (.missing, s)
  else node? true false m s

def blockPart (m : Nat) (s : NodeState) : Option (Node × NodeState) :=
  if endsBlockPart s.peek then some (.missing, s) else node? true true m s

theorem blockItem_local (ih : AllLocal n) : IsLocal blockItem 4 0 n := fun s =>
  LocalAt.ite (p := fun t => t == .blockEntry || t == .blockEnd) (fun _ => LocalAt.pure)
    fun _ => (ih.node true false s).mono (by omega)

theorem indentlessItem_local (ih : AllLocal n) : IsLocal indentlessItem 4 0 n := fun s =>
  LocalAt.ite (p := fun t => t == .blockEntry || endsBlockPart t) (fun _ => LocalAt.pure)
    fun _ => (ih.node true false s).mono (by omega)

theorem blockPart_local (ih : AllLocal n) : IsLocal blockPart 4 0 n := fun s =>
  LocalAt.ite (p := endsBlockPart) (fun _ => LocalAt.pure)
    fun _ => (ih.node true true s).mono (by omega)

theorem blockItems?_local (ih : AllLocal n) : IsLocal blockItems? 1 0 (n + 1) := by
  intro s
  by_cases hentry : s.head = .blockEntry
  · refine LocalAt.succ_skip (d := 0) (g := fun m s => (blockItem m s).bind fun p =>
      (blockItems? m p.2).bind fun q => some (p.1 :: q.1, q.2)) hentry (by decide)
      (depthStep_of_plain (fun _ => rfl) 0) (fun behind m => ?_) ?_
    · simp only [blockItems?, peek_before, hentry]
      rfl
    · exact LocalAt.bind (blockItem_local ih _) fun item s' =>
        LocalAt.bind ((ih.blockItems s').mono (by omega)) fun items s'' => LocalAt.pure
  · by_cases hend : s.head = .blockEnd
    · refine LocalAt.succ_skip (d := 0) (g := fun _ s => some ([], s)) hend (by decide)
        (depthStep_of_plain (fun _ => rfl) 0) (fun behind m => ?_) LocalAt.pure
      simp only [blockItems?, peek_before, hend]
    · refine LocalAt.fail fun behind => ?_
      simp only [blockItems?, peek_before]

theorem indentlessItems?_local (ih : AllLocal n) : IsLocal indentlessItems? 1 0 (n + 1) := by
  intro s
  by_cases hentry : s.head = .blockEntry
  · refine LocalAt.succ_skip (d := 0) (g := fun m s => (indentlessItem m s).bind fun p =>
      (indentlessItems? m p.2).bind fun q => some (p.1 :: q.1, q.2)) hentry (by decide)
      (depthStep_of_plain (fun _ => rfl) 0) (fun behind m => ?_) ?_
    · simp only [indentlessItems?, peek_before, hentry]
      rfl
    · exact LocalAt.bind (indentlessItem_local ih _) fun item s' =>
        LocalAt.bind ((ih.indentlessItems s').mono (by omega)) fun items s'' => LocalAt.pure
  · by_cases hunreadable : s.head = .unreadable
    · refine LocalAt.fail fun behind => ?_
      simp only [indentlessItems?, peek_before, hunreadable]
    · refine LocalAt.succ (k := 0) (g := fun _ s => some ([], s)) (fun behind m => ?_) LocalAt.pure
      simp only [indentlessItems?, peek_before]

theorem blockEntries?_local (ih : AllLocal n) : IsLocal blockEntries? 1 0 (n + 1) := by
  intro s
  by_cases hkey : s.head = .key
  · refine LocalAt.succ_skip (d := 0) (g := fun m s => (blockPart m s).bind fun p =>
      (blockValue? m p.2).bind fun q => (blockEntries? m q.2).bind fun r =>
        some ((p.1, q.1) :: r.1, r.2)) hkey (by decide)
      (depthStep_of_plain (fun _ => rfl) 0) (fun behind m => ?_) ?_
    · simp only [blockEntries?, peek_before, hkey]
      rfl
    · exact LocalAt.bind (blockPart_local ih _) fun key s' =>
        LocalAt.bind ((ih.blockValue s').mono (by omega)) fun value s'' =>
          LocalAt.bind ((ih.blockEntries s'').mono (by omega)) fun entries s₃ =>
            LocalAt.pure (a := (key, value) :: entries)
  · by_cases hend : s.head = .blockEnd
    · refine LocalAt.succ_skip (d := 0) (g := fun _ s => some ([], s)) hend (by decide)
        (depthStep_of_plain (fun _ => rfl) 0) (fun behind m => ?_) LocalAt.pure
      simp only [blockEntries?, peek_before, hend]
    · refine LocalAt.fail fun behind => ?_
      simp only [blockEntries?, peek_before]

theorem blockValue?_local (ih : AllLocal n) : IsLocal blockValue? 1 0 (n + 1) := by
  intro s
  by_cases hvalue : s.head = .value
  · refine LocalAt.succ_skip (d := 0) (g := blockPart) hvalue (by decide)
      (depthStep_of_plain (fun _ => rfl) 0) (fun behind m => ?_) (blockPart_local ih _)
    simp only [blockValue?, peek_before, hvalue]
    rfl
  · by_cases hunreadable : s.head = .unreadable
    · refine LocalAt.fail fun behind => ?_
      simp only [blockValue?, peek_before, hunreadable]
    · refine LocalAt.succ (k := 0) (g := fun _ s => some (.missing, s)) (fun behind m => ?_)
        LocalAt.pure
      simp only [blockValue?, peek_before]

/-! ## Flow collections -/

/-- A key or a value in brackets, which may be left out before a comma or the end. -/
def flowPart (last : Token) (m : Nat) (s : NodeState) : Option (Node × NodeState) :=
  if s.peek == .flowEntry || s.peek == last then some (.missing, s) else node? false false m s

theorem flowPart_local (ih : AllLocal n) (last : Token) : IsLocal (flowPart last) 2 0 n := fun s =>
  LocalAt.ite (p := fun t => t == .flowEntry || t == last) (fun _ => LocalAt.pure)
    fun _ => ih.node false false s

theorem flowValue?_local (ih : AllLocal n) : IsLocal flowValue? 1 0 (n + 1) := by
  intro s
  by_cases hvalue : s.head = .value
  · refine LocalAt.succ_skip (d := 0) (g := flowPart .flowMappingEnd) hvalue (by decide)
      (depthStep_of_plain (fun _ => rfl) 0) (fun behind m => ?_)
      ((flowPart_local ih _ _).mono (by omega))
    simp only [flowValue?, peek_before, hvalue]
    rfl
  · by_cases hunreadable : s.head = .unreadable
    · refine LocalAt.fail fun behind => ?_
      simp only [flowValue?, peek_before, hunreadable]
    · refine LocalAt.succ (k := 0) (g := fun _ s => some (.missing, s)) (fun behind m => ?_)
        LocalAt.pure
      simp only [flowValue?, peek_before]

/-- The key of a pair in brackets. One that is left out takes the next token along. -/
def pairKey (m : Nat) (s : NodeState) : Option (Node × NodeState) :=
  if s.peek == .value || s.peek == .flowEntry || s.peek == .flowSequenceEnd then
    some (.missing, s.advance)
  else node? false false m s

theorem pairKey_local (ih : AllLocal n) : IsLocal pairKey 2 0 n := fun s => by
  refine LocalAt.ite (p := fun t => t == .value || t == .flowEntry || t == .flowSequenceEnd)
    (fun h => ?_) fun _ => ih.node false false s
  simp only [Bool.or_eq_true, beq_iff_eq] at h
  rcases h with (h | h) | h
  · exact LocalAt.taken h (by decide) fun n => Nat.le_refl n
  · exact LocalAt.taken h (by decide) fun n => Nat.le_refl n
  · exact LocalAt.taken h (by decide) fun n => Nat.sub_le n 1

def pairValue (key : Node) (m : Nat) (s : NodeState) : Option ((Node × Node) × NodeState) :=
  if s.peek == .value then
    (flowPart .flowSequenceEnd m s.advance).bind fun p => some ((key, p.1), p.2)
  else if s.peek == .unreadable then none
  else some ((key, .missing), s)

theorem pairValue_local (ih : AllLocal n) (key : Node) :
    IsLocal (pairValue key) 2 0 n := fun s => by
  refine LocalAt.ite (p := fun t => t == .value) (fun h => ?_) fun _ =>
    LocalAt.ite (p := fun t => t == .unreadable) (fun _ => LocalAt.fail fun _ => rfl) fun _ =>
      LocalAt.pure
  refine LocalAt.skip (d := 0)
    (f := fun m s => (flowPart .flowSequenceEnd m s).bind fun p => some ((key, p.1), p.2))
    (eq_of_beq h) (by decide) (depthStep_of_plain (fun _ => rfl) 0) ?_
  exact LocalAt.bind_some (fun v => (key, v)) ((flowPart_local ih _ _).mono (by omega))

theorem flowPair?_eq (m : Nat) (s : NodeState) :
    flowPair? (m + 1) s = (pairKey m s).bind fun p => pairValue p.1 m p.2 := by
  have hvalue : ∀ (key : Node) (s : NodeState), pairValue key m s =
      if s.peek == .value then
        if s.advance.peek == .flowEntry || s.advance.peek == .flowSequenceEnd then
          some ((key, .missing), s.advance)
        else (node? false false m s.advance).bind fun p => some ((key, p.1), p.2)
      else if s.peek == .unreadable then none
      else some ((key, .missing), s) := by
    intro key s
    rw [pairValue, flowPart]
    split
    · split
      · rfl
      · rfl
    · rfl
  simp only [hvalue]
  rw [flowPair?]
  rfl

theorem flowPair?_local (ih : AllLocal n) : IsLocal flowPair? 3 0 (n + 1) := by
  intro s
  refine LocalAt.succ (k := 2) (g := fun m s => (pairKey m s).bind fun p => pairValue p.1 m p.2)
    (fun behind m => flowPair?_eq m _) ?_
  exact LocalAt.bind (pairKey_local ih s) fun key s' => pairValue_local ih key s'

def flowItem (m : Nat) (s : NodeState) : Option (List Node × NodeState) :=
  if s.peek == .flowSequenceEnd then some ([], s.advance)
  else if s.peek == .key then
    (flowPair? m s.advance).bind fun p =>
      (flowItems? false m p.2).bind fun q => some (.mapping {} [p.1] :: q.1, q.2)
  else
    (node? false false m s).bind fun p =>
      (flowItems? false m p.2).bind fun q => some (p.1 :: q.1, q.2)

theorem flowItem_local (ih : AllLocal n) : IsLocal flowItem 2 1 n := fun s => by
  refine LocalAt.ite (p := fun t => t == .flowSequenceEnd) (fun h => ?_) fun _ =>
    LocalAt.ite (p := fun t => t == .key) (fun h => ?_) fun _ => ?_
  · exact LocalAt.taken (eq_of_beq h) (by decide) fun n => Nat.le_refl n
  · refine LocalAt.skip (d := 1) (f := fun m s => (flowPair? m s).bind fun p =>
      (flowItems? false m p.2).bind fun q => some (.mapping {} [p.1] :: q.1, q.2)) (eq_of_beq h)
      (by decide) (depthStep_of_plain (fun _ => rfl) 1) ?_
    exact LocalAt.bind (k := 6) ((ih.flowPair _).mono (by omega)) fun pair s' =>
      LocalAt.bind_some (fun items => Node.mapping {} [pair] :: items)
        ((ih.flowItems s').mono (by omega))
  · exact LocalAt.bind (ih.node false false s) fun item s' =>
      LocalAt.bind_some (fun items => item :: items)
        ((ih.flowItems s').mono (by omega))

theorem flowItems?_eq (first : Bool) (m : Nat) (s : NodeState) : flowItems? first (m + 1) s =
    if s.peek == .flowSequenceEnd then some ([], s.advance)
    else if !first && s.peek != .flowEntry then none
    else flowItem m (if first then s else s.advance) := by
  rw [flowItems?]
  split
  · rfl
  · split
    · rfl
    · generalize (if first then s else s.advance) = s'
      rw [flowItem]
      dsimp only
      split
      · next h => rw [h]; rfl
      · next h => rw [h]; rfl
      · next hend hkey =>
        rw [if_neg (by simpa using hend), if_neg (by simpa using hkey)]
        rfl

theorem firstFlowItems_local (ih : AllLocal n) : IsLocal (flowItems? true) 3 1 (n + 1) := by
  intro s
  refine LocalAt.succ (k := 2) (g := fun m s =>
    if s.peek == .flowSequenceEnd then some ([], s.advance) else flowItem m s)
    (fun behind m => by rw [flowItems?_eq]; rfl) ?_
  exact LocalAt.ite (p := fun t => t == .flowSequenceEnd)
    (fun h => LocalAt.taken (eq_of_beq h) (by decide) fun n => Nat.le_refl n)
    fun _ => flowItem_local ih s

theorem flowItems_local (ih : AllLocal n) : IsLocal (flowItems? false) 1 1 (n + 1) := by
  intro s
  refine LocalAt.succ (k := 0) (g := fun m s =>
    if s.peek == .flowSequenceEnd then some ([], s.advance)
    else if s.peek != .flowEntry then none
    else flowItem m s.advance) (fun behind m => by rw [flowItems?_eq]; rfl) ?_
  refine LocalAt.ite (p := fun t => t == .flowSequenceEnd)
    (fun h => LocalAt.taken (eq_of_beq h) (by decide) fun n => Nat.le_refl n) fun _ =>
    LocalAt.ite (p := fun t => t != .flowEntry) (fun _ => LocalAt.fail fun _ => rfl) fun h => ?_
  exact LocalAt.skip (f := flowItem) (d := 1) (by simpa using h) (by decide)
    (depthStep_of_plain (fun _ => rfl) 1) ((flowItem_local ih _).mono (by omega))

def flowEntry (m : Nat) (s : NodeState) : Option (List (Node × Node) × NodeState) :=
  if s.peek == .flowMappingEnd then some ([], s.advance)
  else if s.peek == .key then
    (flowKey m s.advance).bind fun p => (flowValue? m p.2).bind fun q =>
      (flowEntries? false m q.2).bind fun r => some ((p.1, q.1) :: r.1, r.2)
  else
    (node? false false m s).bind fun p =>
      (flowEntries? false m p.2).bind fun q => some ((p.1, .missing) :: q.1, q.2)
where
  /-- The key of an entry in braces, which may be left out. -/
  flowKey (m : Nat) (s : NodeState) : Option (Node × NodeState) :=
    if s.peek == .value || s.peek == .flowEntry || s.peek == .flowMappingEnd then
      some (.missing, s)
    else node? false false m s

theorem flowKey_local (ih : AllLocal n) : IsLocal flowEntry.flowKey 2 0 n := fun s =>
  LocalAt.ite (p := fun t => t == .value || t == .flowEntry || t == .flowMappingEnd)
    (fun _ => LocalAt.pure) fun _ => ih.node false false s

theorem flowEntry_local (ih : AllLocal n) : IsLocal flowEntry 2 1 n := fun s => by
  refine LocalAt.ite (p := fun t => t == .flowMappingEnd) (fun h => ?_) fun _ =>
    LocalAt.ite (p := fun t => t == .key) (fun h => ?_) fun _ => ?_
  · exact LocalAt.taken (eq_of_beq h) (by decide) fun n => Nat.le_refl n
  · refine LocalAt.skip (d := 1) (f := fun m s => (flowEntry.flowKey m s).bind fun p =>
      (flowValue? m p.2).bind fun q => (flowEntries? false m q.2).bind fun r =>
        some ((p.1, q.1) :: r.1, r.2)) (eq_of_beq h) (by decide)
      (depthStep_of_plain (fun _ => rfl) 1) ?_
    exact LocalAt.bind ((flowKey_local ih _).mono (by omega)) fun key s' =>
      LocalAt.bind ((ih.flowValue s').mono (by omega)) fun value s'' =>
        LocalAt.bind_some (fun entries => (key, value) :: entries)
          ((ih.flowEntries s'').mono (by omega))
  · exact LocalAt.bind (ih.node false false s) fun key s' =>
      LocalAt.bind_some (fun entries => (key, .missing) :: entries)
        ((ih.flowEntries s').mono (by omega))

theorem flowEntries?_eq (first : Bool) (m : Nat) (s : NodeState) :
    flowEntries? first (m + 1) s =
      if s.peek == .flowMappingEnd then some ([], s.advance)
      else if !first && s.peek != .flowEntry then none
      else flowEntry m (if first then s else s.advance) := by
  rw [flowEntries?]
  split
  · rfl
  · split
    · rfl
    · generalize (if first then s else s.advance) = s'
      rw [flowEntry]
      dsimp only
      split
      · next h => rw [h]; rfl
      · next h => rw [h]; rfl
      · next hend hkey =>
        rw [if_neg (by simpa using hend), if_neg (by simpa using hkey)]
        rfl

theorem firstFlowEntries_local (ih : AllLocal n) : IsLocal (flowEntries? true) 3 1 (n + 1) := by
  intro s
  refine LocalAt.succ (k := 2) (g := fun m s =>
    if s.peek == .flowMappingEnd then some ([], s.advance) else flowEntry m s)
    (fun behind m => by rw [flowEntries?_eq]; rfl) ?_
  exact LocalAt.ite (p := fun t => t == .flowMappingEnd)
    (fun h => LocalAt.taken (eq_of_beq h) (by decide) fun n => Nat.le_refl n)
    fun _ => flowEntry_local ih s

theorem flowEntries_local (ih : AllLocal n) : IsLocal (flowEntries? false) 1 1 (n + 1) := by
  intro s
  refine LocalAt.succ (k := 0) (g := fun m s =>
    if s.peek == .flowMappingEnd then some ([], s.advance)
    else if s.peek != .flowEntry then none
    else flowEntry m s.advance) (fun behind m => by rw [flowEntries?_eq]; rfl) ?_
  refine LocalAt.ite (p := fun t => t == .flowMappingEnd)
    (fun h => LocalAt.taken (eq_of_beq h) (by decide) fun n => Nat.le_refl n) fun _ =>
    LocalAt.ite (p := fun t => t != .flowEntry) (fun _ => LocalAt.fail fun _ => rfl) fun h => ?_
  exact LocalAt.skip (f := flowEntry) (d := 1) (by simpa using h) (by decide)
    (depthStep_of_plain (fun _ => rfl) 1) ((flowEntry_local ih _).mono (by omega))

/-! ## Nodes -/

/-- Setting an anchor takes no tokens. -/
theorem LocalAt.setAnchor {α : Type} {f : Nat → Nat → NodeState → Option (α × NodeState)}
    {k drop : Nat} {s : NodeState} {name : String}
    (h : LocalAt (f (s.setAnchor name).1) k drop n (s.setAnchor name).2) :
    LocalAt (fun m s => f (s.setAnchor name).1 m (s.setAnchor name).2) k drop n s :=
  h

def tagAfter (number _m : Nat) (s : NodeState) : Option (Properties × NodeState) :=
  match s.peek with
  | .tag handle suffix =>
    (s.tag? handle suffix).bind fun tag =>
      some ({ anchor := some number, tag := some tag }, s.advance)
  | _ => some ({ anchor := some number }, s)

theorem tagAfter_local (number : Nat) : IsLocal (tagAfter number) 4 0 n := by
  intro s
  cases hhead : s.head with
  | tag handle suffix =>
      have heq : ∀ behind m, tagAfter number m (s.before behind) =
          (s.tag? handle suffix).bind fun tag =>
            some ({ anchor := some number, tag := some tag }, (s.before behind).advance) := by
        intro behind m
        rw [tagAfter, peek_before, hhead]
        rfl
      cases htag : s.tag? handle suffix with
      | none => exact LocalAt.fail fun behind => by rw [heq, htag]; rfl
      | some tag =>
          exact LocalAt.congr (fun behind m => by rw [heq, htag]; rfl)
            (LocalAt.taken hhead (by simp) fun n => Nat.le_refl n)
  | _ =>
      exact LocalAt.congr (g := fun _ s => some ({ anchor := some number }, s))
        (fun behind m => by rw [tagAfter, peek_before, hhead]) LocalAt.pure

def anchorAfter (tag : String) (_m : Nat) (s : NodeState) : Option (Properties × NodeState) :=
  match s.peek with
  | .anchor name =>
    let (number, s) := s.advance.setAnchor name
    some ({ anchor := some number, tag := some tag }, s)
  | _ => some ({ tag := some tag }, s)

theorem anchorAfter_local (tag : String) : IsLocal (anchorAfter tag) 4 0 n := by
  intro s
  cases hhead : s.head with
  | anchor name =>
      let after := fun (number _m : Nat) (s : NodeState) =>
        some (({ anchor := some number, tag := some tag } : Properties), s)
      refine LocalAt.congr (g := fun m s => (fun m s =>
        after (s.setAnchor name).1 m (s.setAnchor name).2) m s.advance)
        (fun behind m => by rw [anchorAfter, peek_before, hhead]) ?_
      exact LocalAt.skip hhead (by simp) (depthStep_of_plain (fun _ => rfl) 0)
        (LocalAt.setAnchor (f := after) LocalAt.pure)
  | _ =>
      exact LocalAt.congr (g := fun _ s => some ({ tag := some tag }, s))
        (fun behind m => by rw [anchorAfter, peek_before, hhead]) LocalAt.pure

theorem properties?_local : IsLocal (fun _ s => s.properties?) 0 0 n := by
  intro s
  cases hhead : s.head with
  | anchor name =>
      refine LocalAt.congr (g := fun m s => (fun m s =>
        tagAfter (s.setAnchor name).1 m (s.setAnchor name).2) m s.advance) (fun behind m => ?_) ?_
      · show (s.before behind).properties? = _
        rw [properties?, peek_before, hhead]
        rfl
      · exact LocalAt.skip hhead (by simp) (depthStep_of_plain (fun _ => rfl) 0)
          (LocalAt.setAnchor (f := tagAfter) (tagAfter_local _ _))
  | tag handle suffix =>
      have heq : ∀ behind m, (s.before behind).properties? =
          (s.tag? handle suffix).bind fun tag => anchorAfter tag m (s.before behind).advance := by
        intro behind m
        rw [properties?, peek_before, hhead]
        rfl
      cases htag : s.tag? handle suffix with
      | none =>
          refine LocalAt.fail fun behind => ?_
          show (s.before behind).properties? = none
          rw [heq behind 0, htag]
          rfl
      | some tag =>
          refine LocalAt.congr (g := fun m s => anchorAfter tag m s.advance) (fun behind m => ?_) ?_
          · show (s.before behind).properties? = _
            rw [heq behind m, htag]
            rfl
          · exact LocalAt.skip hhead (by simp) (depthStep_of_plain (fun _ => rfl) 0)
              (anchorAfter_local tag _)
  | _ =>
      refine LocalAt.congr (g := fun _ s => some ({}, s)) (fun behind m => ?_) LocalAt.pure
      show (s.before behind).properties? = _
      rw [properties?, peek_before, hhead]

def nodeBody (block indentless : Bool) (props : Properties) (m : Nat) (s : NodeState) :
    Option (Node × NodeState) :=
  match s.peek with
  | .scalar style text => some (.scalar props style text, s.advance)
  | .blockEntry =>
    if indentless then (indentlessItems? m s).bind fun p => some (.sequence props p.1, p.2)
    else missing? props s
  | .flowSequenceStart =>
    (flowItems? true m s.advance).bind fun p => some (.sequence props p.1, p.2)
  | .flowMappingStart =>
    (flowEntries? true m s.advance).bind fun p => some (.mapping props p.1, p.2)
  | .blockSequenceStart =>
    if block then (blockItems? m s.advance).bind fun p => some (.sequence props p.1, p.2)
    else missing? props s
  | .blockMappingStart =>
    if block then (blockEntries? m s.advance).bind fun p => some (.mapping props p.1, p.2)
    else missing? props s
  | _ => missing? props s

theorem missing?_local (props : Properties) {k : Nat} :
    IsLocal (fun _ => missing? props) k 0 n := by
  intro s
  by_cases hprops : (props.anchor.isSome || props.tag.isSome) = true
  · refine LocalAt.congr (g := fun _ s => if s.peek == .unreadable then none
      else some (.missing props, s)) (fun behind m => by rw [missing?, if_pos hprops]) ?_
    exact LocalAt.ite (p := fun t => t == .unreadable) (fun _ => LocalAt.fail fun _ => rfl)
      fun _ => LocalAt.pure
  · exact LocalAt.fail fun behind => by rw [missing?, if_neg hprops]

theorem nodeBody_local (ih : AllLocal n) (block indentless : Bool) (props : Properties) :
    IsLocal (nodeBody block indentless props) 1 0 n := by
  intro s
  -- where no body starts, the node is a missing one
  have hmissing : (∀ behind m, nodeBody block indentless props m (s.before behind) =
      missing? props (s.before behind)) → LocalAt (nodeBody block indentless props) 1 0 n s :=
    fun heq => LocalAt.congr heq (missing?_local props s)
  cases hhead : s.head with
  | scalar style text =>
      exact LocalAt.congr (fun behind m => by rw [nodeBody, peek_before, hhead])
        (LocalAt.taken hhead (by simp) fun n => Nat.le_refl n)
  | blockEntry =>
      cases indentless with
      | true =>
          exact LocalAt.congr (fun behind m => by rw [nodeBody, peek_before, hhead]; rfl)
            (LocalAt.bind_some (Node.sequence props) (ih.indentlessItems s))
      | false => exact hmissing fun behind m => by rw [nodeBody, peek_before, hhead]; rfl
  | flowSequenceStart =>
      refine LocalAt.congr (g := fun m s => (flowItems? true m s.advance).bind fun p =>
        some (.sequence props p.1, p.2)) (fun behind m => by rw [nodeBody, peek_before, hhead]) ?_
      exact LocalAt.bind_some (f := fun m s => flowItems? true m s.advance) (Node.sequence props)
        (LocalAt.skip hhead (by simp) (fun n => Nat.le_refl (n + 1))
          ((ih.firstFlowItems _).mono (by omega)))
  | flowMappingStart =>
      refine LocalAt.congr (g := fun m s => (flowEntries? true m s.advance).bind fun p =>
        some (.mapping props p.1, p.2)) (fun behind m => by rw [nodeBody, peek_before, hhead]) ?_
      exact LocalAt.bind_some (f := fun m s => flowEntries? true m s.advance) (Node.mapping props)
        (LocalAt.skip hhead (by simp) (fun n => Nat.le_refl (n + 1))
          ((ih.firstFlowEntries _).mono (by omega)))
  | blockSequenceStart =>
      cases block with
      | true =>
          refine LocalAt.congr (g := fun m s => (blockItems? m s.advance).bind fun p =>
            some (.sequence props p.1, p.2))
            (fun behind m => by rw [nodeBody, peek_before, hhead]; rfl) ?_
          exact LocalAt.bind_some (f := fun m s => blockItems? m s.advance) (Node.sequence props)
            (LocalAt.skip hhead (by simp) (depthStep_of_plain (fun _ => rfl) 0)
              ((ih.blockItems _).mono (by omega)))
      | false => exact hmissing fun behind m => by rw [nodeBody, peek_before, hhead]; rfl
  | blockMappingStart =>
      cases block with
      | true =>
          refine LocalAt.congr (g := fun m s => (blockEntries? m s.advance).bind fun p =>
            some (.mapping props p.1, p.2))
            (fun behind m => by rw [nodeBody, peek_before, hhead]; rfl) ?_
          exact LocalAt.bind_some (f := fun m s => blockEntries? m s.advance) (Node.mapping props)
            (LocalAt.skip hhead (by simp) (depthStep_of_plain (fun _ => rfl) 0)
              ((ih.blockEntries _).mono (by omega)))
      | false => exact hmissing fun behind m => by rw [nodeBody, peek_before, hhead]; rfl
  | _ => exact hmissing fun behind m => by rw [nodeBody, peek_before, hhead]

theorem node?_local (ih : AllLocal n) (block indentless : Bool) :
    IsLocal (node? block indentless) 2 0 (n + 1) := by
  intro s
  by_cases halias : ∃ name, s.head = .alias name
  · obtain ⟨name, hhead⟩ := halias
    have heq : ∀ behind m, node? block indentless (m + 1) (s.before behind) =
        (s.anchor? name).bind fun number => some (.alias number, (s.before behind).advance) := by
      intro behind m
      rw [node?, peek_before, hhead]
      rfl
    cases hanchor : s.anchor? name with
    | none => exact LocalAt.fail fun behind => by rw [heq, hanchor]; rfl
    | some number =>
        exact LocalAt.succ (k := 1) (fun behind m => by rw [heq, hanchor]; rfl)
          (LocalAt.taken hhead (by simp) fun n => Nat.le_refl n)
  · refine LocalAt.succ (k := 1) (g := fun m s => s.properties?.bind fun p =>
      nodeBody block indentless p.1 m p.2) (fun behind m => ?_) ?_
    · rw [node?, peek_before]
      split
      · next name hhead => exact absurd ⟨name, hhead⟩ halias
      · rfl
    · exact LocalAt.bind (f := fun _ s => s.properties?) ((properties?_local s).mono (by omega))
        fun props s' => nodeBody_local ih block indentless props s'

/-- **All readers are local**, with any number of steps. -/
theorem allLocal (n : Nat) : AllLocal n := by
  induction n with
  | zero =>
      exact ⟨fun _ _ _ => LocalAt.fail fun _ => rfl, fun _ => LocalAt.fail fun _ => rfl,
        fun _ => LocalAt.fail fun _ => rfl, fun _ => LocalAt.fail fun _ => rfl,
        fun _ => LocalAt.fail fun _ => rfl, fun _ => LocalAt.fail fun _ => rfl,
        fun _ => LocalAt.fail fun _ => rfl, fun _ => LocalAt.fail fun _ => rfl,
        fun _ => LocalAt.fail fun _ => rfl, fun _ => LocalAt.fail fun _ => rfl,
        fun _ => LocalAt.fail fun _ => rfl⟩
  | succ n ih =>
      exact ⟨node?_local ih, blockItems?_local ih, indentlessItems?_local ih,
        blockEntries?_local ih, blockValue?_local ih, firstFlowItems_local ih, flowItems_local ih,
        flowPair?_local ih, firstFlowEntries_local ih, flowEntries_local ih, flowValue?_local ih⟩

end SourceEdit.Yaml.NodeState
