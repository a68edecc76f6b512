import SourceEdit.Proofs.Glob.Token
import SourceEdit.Proofs.Text.Fields

/-!
# Paths part by part

A path read part by part: a step matches one part, wildcards inside it match bytes of that part
only, and a step that is `**` alone matches any number of parts. `PartMatches` and `StepsMatch` say
so without globs; the lemmas below say what the tokens of a step stand for in these terms, and what
`**` between slashes does to the parts matched so far.
-/

namespace SourceEdit.Glob

/-! ## One part -/

/-- Whether a step matches the bytes of one part: `*` stands for any bytes but slashes, `?` for one
of them, and any other character for itself. -/
def PartMatches : List Char → List Nat → Prop
  | [], w => w = []
  | '*' :: cs, w => ∃ u v, w = u ++ v ∧ slashByte ∉ u ∧ PartMatches cs v
  | '?' :: cs, w => ∃ b v, w = b :: v ∧ b ≠ slashByte ∧ PartMatches cs v
  | c :: cs, w => ∃ v, w = utf8 [c] ++ v ∧ PartMatches cs v

def partToken (c : Char) : Token :=
  if c = '*' then .star else if c = '?' then .any else .literal c

/-- The tokens of a step stand for what the step matches. -/
theorem tokensAccept_part {cs : List Char} {w : List Nat} (hw : IsBytes w) :
    TokensAccept (cs.map partToken) w ↔ PartMatches cs w := by
  -- one case for each kind of character: the two wildcards and all others
  induction cs generalizing w with
  | nil => exact Iff.rfl
  | cons c cs ih =>
      rw [List.map_cons, tokensAccept_cons]
      unfold PartMatches
      split
      · next heq => exact nomatch heq
      · next cs' heq =>
        obtain ⟨rfl, rfl⟩ := List.cons.inj heq
        constructor
        · rintro ⟨u, v, rfl, hu, hv⟩
          obtain ⟨hbu, hbv⟩ := isBytes_append.mp hw
          exact ⟨u, v, rfl, (tokenAccepts_star hbu).mp hu, (ih hbv).mp hv⟩
        · rintro ⟨u, v, rfl, hu, hv⟩
          obtain ⟨hbu, hbv⟩ := isBytes_append.mp hw
          exact ⟨u, v, rfl, (tokenAccepts_star hbu).mpr hu, (ih hbv).mpr hv⟩
      · next cs' heq =>
        obtain ⟨rfl, rfl⟩ := List.cons.inj heq
        constructor
        · rintro ⟨u, v, rfl, hu, hv⟩
          obtain ⟨hbu, hbv⟩ := isBytes_append.mp hw
          obtain ⟨b, rfl, hb⟩ := (tokenAccepts_any hbu).mp hu
          exact ⟨b, v, rfl, hb, (ih hbv).mp hv⟩
        · rintro ⟨b, v, rfl, hb, hv⟩
          obtain ⟨hbu, hbv⟩ := (isBytes_append (u := [b])).mp hw
          exact ⟨[b], v, rfl, (tokenAccepts_any hbu).mpr ⟨b, rfl, hb⟩, (ih hbv).mpr hv⟩
      · next c' cs' hstar hany heq =>
        obtain ⟨rfl, rfl⟩ := List.cons.inj heq
        have htoken : partToken c = .literal c := by
          rw [partToken, if_neg hstar, if_neg hany]
        rw [htoken]
        constructor
        · rintro ⟨u, v, rfl, hu, hv⟩
          exact ⟨v, by rw [tokenAccepts_literal.mp hu], (ih (isBytes_append.mp hw).2).mp hv⟩
        · rintro ⟨v, rfl, hv⟩
          exact ⟨_, v, rfl, tokenAccepts_literal.mpr rfl, (ih (isBytes_append.mp hw).2).mpr hv⟩

/-- A step without slashes matches no slashes. -/
theorem PartMatches.slash_notMem {cs : List Char} {w : List Nat} (hcs : '/' ∉ cs)
    (h : PartMatches cs w) : slashByte ∉ w := by
  induction cs generalizing w with
  | nil =>
      obtain rfl : w = [] := h
      simp
  | cons c cs ih =>
      have hrest : '/' ∉ cs := fun hm => hcs (List.mem_cons_of_mem _ hm)
      unfold PartMatches at h
      split at h
      · next heq => exact nomatch heq
      · next cs' heq =>
        obtain ⟨rfl, rfl⟩ := List.cons.inj heq
        obtain ⟨u, v, rfl, hu, hv⟩ := h
        simpa [hu] using ih hrest hv
      · next cs' heq =>
        obtain ⟨rfl, rfl⟩ := List.cons.inj heq
        obtain ⟨b, v, rfl, hb, hv⟩ := h
        simpa [hb.symm] using ih hrest hv
      · next c' cs' _ _ heq =>
        obtain ⟨rfl, rfl⟩ := List.cons.inj heq
        obtain ⟨v, rfl, hv⟩ := h
        have hc : slashByte ∉ utf8 [c] := by
          refine slashByte_notMem_utf8 fun hm => hcs ?_
          rw [List.mem_singleton.mp hm]
          exact List.mem_cons_self ..
        simpa [hc] using ih hrest hv

/-! ## Several parts -/

def anyParts : List Char := ['*', '*']

/-- Whether steps match some parts, from the first to the last of them. -/
def StepsMatch : List (List Char) → List (List Nat) → Prop
  | [], parts => parts = []
  | s :: ss, parts =>
    if s = anyParts then ∃ a b, parts = a ++ b ∧ StepsMatch ss b
    else ∃ p rest, parts = p :: rest ∧ PartMatches s p ∧ StepsMatch ss rest

theorem stepsMatch_append {ss ts : List (List Char)} {parts : List (List Nat)} :
    StepsMatch (ss ++ ts) parts ↔
      ∃ a b, parts = a ++ b ∧ StepsMatch ss a ∧ StepsMatch ts b := by
  induction ss generalizing parts with
  | nil => simp [StepsMatch]
  | cons s ss ih =>
      rw [List.cons_append, StepsMatch]
      by_cases hs : s = anyParts
      · rw [if_pos hs]
        constructor
        · rintro ⟨a, b, rfl, hb⟩
          obtain ⟨x, y, rfl, hx, hy⟩ := ih.mp hb
          exact ⟨a ++ x, y, by simp, by rw [StepsMatch, if_pos hs]; exact ⟨a, x, rfl, hx⟩, hy⟩
        · rintro ⟨a, b, rfl, ha, hb⟩
          rw [StepsMatch, if_pos hs] at ha
          obtain ⟨x, y, rfl, hy⟩ := ha
          exact ⟨x, y ++ b, by simp, ih.mpr ⟨y, b, rfl, hy, hb⟩⟩
      · rw [if_neg hs]
        constructor
        · rintro ⟨p, rest, rfl, hp, hrest⟩
          obtain ⟨x, y, rfl, hx, hy⟩ := ih.mp hrest
          exact ⟨p :: x, y, rfl, by rw [StepsMatch, if_neg hs]; exact ⟨p, x, rfl, hp, hx⟩, hy⟩
        · rintro ⟨a, b, rfl, ha, hb⟩
          rw [StepsMatch, if_neg hs] at ha
          obtain ⟨p, rest, rfl, hp, hrest⟩ := ha
          exact ⟨p, rest ++ b, rfl, hp, ih.mpr ⟨rest, b, rfl, hrest, hb⟩⟩

@[simp] theorem stepsMatch_anyParts (parts : List (List Nat)) : StepsMatch [anyParts] parts := by
  rw [StepsMatch, if_pos rfl]
  exact ⟨parts, [], by simp, rfl⟩

theorem stepsMatch_singleton {s : List Char} (hs : s ≠ anyParts) {parts : List (List Nat)} :
    StepsMatch [s] parts ↔ ∃ p, parts = [p] ∧ PartMatches s p := by
  rw [StepsMatch, if_neg hs]
  constructor
  · rintro ⟨p, rest, rfl, hp, rfl⟩
    exact ⟨p, rfl, hp⟩
  · rintro ⟨p, rfl, hp⟩
    exact ⟨p, [], rfl, hp, rfl⟩

/-! ## Parts with a slash after each -/

/-- The bytes of some parts with a slash after each of them. -/
def closed (parts : List (List Nat)) : List Nat :=
  parts.flatMap fun p => p ++ [slashByte]

def AreParts (parts : List (List Nat)) : Prop := ∀ p ∈ parts, slashByte ∉ p

@[simp] theorem closed_nil : closed [] = [] := rfl

theorem closed_cons (p : List Nat) (parts : List (List Nat)) :
    closed (p :: parts) = p ++ slashByte :: closed parts := by
  simp [closed]

theorem closed_append (a b : List (List Nat)) : closed (a ++ b) = closed a ++ closed b := by
  simp [closed]

/-- A path is its directories with a slash after each, and its last part. -/
theorem closed_join (dirs : List (List Char)) (name : List Char) :
    utf8 (Text.join '/' (dirs ++ [name])) = closed (dirs.map utf8) ++ utf8 name := by
  rw [Text.join_concat, utf8_append]
  congr 1
  induction dirs with
  | nil => rfl
  | cons d dirs ih =>
      rw [List.flatMap_cons, utf8_append, ih, utf8_append, utf8_slash, List.map_cons, closed_cons]
      simp

/-- With a slash behind it, a text is its fields with a slash after each. -/
theorem closed_fields (cs : List Char) :
    closed ((Text.fields '/' cs).map utf8) = utf8 cs ++ [slashByte] := by
  obtain ⟨dirs, name, hfields⟩ := (List.eq_nil_or_concat' (Text.fields '/' cs)).resolve_left
    (Text.fields_ne_nil '/' cs)
  have hjoin := closed_join dirs name
  rw [← hfields, Text.join_fields] at hjoin
  rw [hfields, hjoin, List.map_append, closed_append, List.append_assoc, List.map_singleton,
    closed_cons, closed_nil]

theorem areParts_fields (cs : List Char) : AreParts ((Text.fields '/' cs).map utf8) := by
  intro p hp
  obtain ⟨f, hf, rfl⟩ := List.mem_map.mp hp
  exact slashByte_notMem_utf8 (Text.not_mem_of_mem_fields hf)

theorem areParts_append {a b : List (List Nat)} : AreParts (a ++ b) ↔ AreParts a ∧ AreParts b := by
  simp only [AreParts, List.mem_append]
  constructor
  · exact fun h => ⟨fun p hp => h p (Or.inl hp), fun p hp => h p (Or.inr hp)⟩
  · rintro ⟨ha, hb⟩ p (hp | hp)
    · exact ha p hp
    · exact hb p hp

/-- Any bytes are some parts with a slash after each, and a last part. -/
theorem exists_closed_append (w : List Nat) :
    ∃ parts last, AreParts parts ∧ slashByte ∉ last ∧ w = closed parts ++ last := by
  induction w with
  | nil => exact ⟨[], [], by simp [AreParts], by simp, rfl⟩
  | cons b w ih =>
      obtain ⟨parts, last, hparts, hlast, rfl⟩ := ih
      by_cases hb : b = slashByte
      · refine ⟨[] :: parts, last, ?_, hlast, by rw [closed_cons, hb]; rfl⟩
        intro p hp
        rcases List.mem_cons.mp hp with rfl | hp
        · simp
        · exact hparts p hp
      · have hne : slashByte ≠ b := fun e => hb e.symm
        cases parts with
        | nil => exact ⟨[], b :: last, hparts, by simp [hne, hlast], rfl⟩
        | cons p parts =>
            refine ⟨(b :: p) :: parts, last, ?_, hlast, by simp [closed_cons]⟩
            intro q hq
            rcases List.mem_cons.mp hq with rfl | hq
            · simpa [hne] using hparts p (by simp)
            · exact hparts q (List.mem_cons_of_mem _ hq)

/-- The first slash cuts a text in one way only. -/
theorem append_slash_inj {u v r s : List Nat} (hu : slashByte ∉ u) (hv : slashByte ∉ v)
    (h : u ++ slashByte :: r = v ++ slashByte :: s) : u = v ∧ r = s := by
  induction u generalizing v with
  | nil =>
      cases v with
      | nil => exact ⟨rfl, (List.cons.inj h).2⟩
      | cons c v => exact absurd (List.cons.inj h).1 fun e => hv (by simp [e])
  | cons c u ih =>
      cases v with
      | nil => exact absurd (List.cons.inj h).1 fun e => hu (by simp [e])
      | cons d v =>
          obtain ⟨rfl, hrest⟩ := List.cons.inj h
          obtain ⟨rfl, hrs⟩ := ih (fun hm => hu (List.mem_cons_of_mem _ hm))
            (fun hm => hv (List.mem_cons_of_mem _ hm)) hrest
          exact ⟨rfl, hrs⟩

/-- Parts and last part are determined by the bytes that they make up. -/
theorem closed_append_inj {a b : List (List Nat)} {x y : List Nat} (ha : AreParts a)
    (hb : AreParts b) (hx : slashByte ∉ x) (hy : slashByte ∉ y)
    (h : closed a ++ x = closed b ++ y) : a = b ∧ x = y := by
  induction a generalizing b with
  | nil =>
      cases b with
      | nil => exact ⟨rfl, h⟩
      | cons q b =>
          rw [closed_nil, List.nil_append, closed_cons] at h
          exact absurd (by rw [h]; simp) hx
  | cons p a ih =>
      cases b with
      | nil =>
          rw [closed_nil, List.nil_append, closed_cons] at h
          exact absurd (by rw [← h]; simp) hy
      | cons q b =>
          rw [closed_cons, closed_cons, List.append_assoc, List.append_assoc] at h
          obtain ⟨rfl, hrest⟩ := append_slash_inj (ha p (by simp)) (hb q (by simp)) h
          obtain ⟨rfl, hxy⟩ := ih (fun p' hp => ha p' (List.mem_cons_of_mem _ hp))
            (fun p' hp => hb p' (List.mem_cons_of_mem _ hp)) hrest
          exact ⟨rfl, hxy⟩

theorem isClosed_iff {w : List Nat} : IsClosed w ↔ ∃ parts, AreParts parts ∧ w = closed parts := by
  constructor
  · rintro (rfl | ⟨u, rfl⟩)
    · exact ⟨[], by simp [AreParts], rfl⟩
    · obtain ⟨parts, last, hparts, hlast, rfl⟩ := exists_closed_append u
      refine ⟨parts ++ [last], areParts_append.mpr ⟨hparts, by simpa [AreParts] using hlast⟩, ?_⟩
      rw [closed_append, closed_cons]
      simp
  · rintro ⟨parts, _, rfl⟩
    rcases List.eq_nil_or_concat parts with rfl | ⟨parts, last, rfl⟩
    · exact Or.inl rfl
    · refine Or.inr ⟨closed parts ++ last, ?_⟩
      rw [List.concat_eq_append, closed_append, closed_cons]
      simp

end SourceEdit.Glob
