import SourceEdit.Json.Quoted
import SourceEdit.Proofs.Data.Written
import SourceEdit.Proofs.Outcome
import SourceEdit.Toml

/-!
# Written texts and integers of TOML

A text in one line with its escapes, and an integer in decimal, as one value is read in front of all
that can follow it: an integer that fits 64 bits is read as such, and not as the start of a date, of
a time or of a number with a fraction.
-/

namespace SourceEdit.Toml

open Text
open Data.Format (EndsValue escape_cons escape_cons_append quoted_append)

variable {cs ds rest : List Char} {c : Char} {n fuel : Nat}

/-! ## Texts -/

/-- A character as it stands between quotes: as in JSON, but the delete character is a control
character too. -/
def escapeChar (c : Char) : List Char :=
  if c = '\x7f' then ['\\', 'u', '0', '0', '7', 'f'] else Json.escapeChar c

def format : Data.Format where
  escapeChar := escapeChar
  mark := '='

theorem hexCode?_digitChars (hc : c.toNat < 256) (rest : List Char) :
    hexCode? 4 ('0' :: '0' :: Nat.digitChar (c.toNat / 16) :: Nat.digitChar (c.toNat % 16) :: rest) =
      some (c, rest) := by
  have hzero : digit? 16 '0' = some 0 := by decide
  have hhigh := digit?_digitChar (n := c.toNat / 16) (by omega)
  have hlow := digit?_digitChar (n := c.toNat % 16) (by omega)
  have hcode : c.toNat / 16 * 16 + c.toNat % 16 = c.toNat := by omega
  simp [hexCode?, hzero, hhigh, hlow, hcode, charOf?_toNat]

/-- One character or escape, and then the rest of the text. -/
theorem lineText_cons {x : Char} (hquote : c ≠ '"')
    (h : (if c = '\\' then escape? cs else if isPlain c then some (c, cs) else none) =
      some (x, rest)) :
    lineText (fuel + 1) (c :: cs) = (lineText fuel rest).map fun (t, r) => (x :: t, r) := by
  rw [lineText, if_neg hquote]
  by_cases hslash : c = '\\'
  · rw [if_pos hslash] at h ⊢
    rw [h, Option.map_eq_bind]
    rfl
  · rw [if_neg hslash] at h ⊢
    by_cases hplain : isPlain c = true
    · rw [if_pos hplain] at h ⊢
      rw [h, Option.map_eq_bind]
      rfl
    · rw [if_neg hplain] at h
      cases h

/-- **Step.** What stands for a character is read as that character, and the rest as it would be
without it. -/
theorem lineText_escapeChar (c : Char) (rest : List Char) :
    lineText (fuel + 1) (escapeChar c ++ rest) =
      (lineText fuel rest).map fun (t, r) => (c :: t, r) := by
  by_cases hshort : c = '\x7f' ∨ c = '"' ∨ c = '\\' ∨ c = '\x08' ∨ c = '\t' ∨ c = '\n' ∨
    c = '\x0c' ∨ c = '\r'
  · -- each of these has an escape of its own
    rcases hshort with rfl | rfl | rfl | rfl | rfl | rfl | rfl | rfl <;>
      exact lineText_cons (by decide) rfl
  simp only [not_or] at hshort
  obtain ⟨hdelete, hquote, hslash, hbackspace, htab, hline, hfeed, hreturn⟩ := hshort
  rw [escapeChar, if_neg hdelete, Json.escapeChar, if_neg hquote, if_neg hslash, if_neg hbackspace,
    if_neg htab, if_neg hline, if_neg hfeed, if_neg hreturn]
  split
  · next hcontrol =>
    refine lineText_cons (by decide) ?_
    rw [if_pos rfl]
    exact hexCode?_digitChars (by omega) rest
  · next hcontrol =>
    have hplain : isPlain c = true := by
      have hcode : c.toNat ≠ 127 := fun h => hdelete (Char.toNat_inj.mp h)
      simp only [isPlain, Bool.or_eq_true, Bool.and_eq_true, decide_eq_true_eq]
      omega
    refine lineText_cons hquote ?_
    rw [if_neg hslash, if_pos hplain]
    rfl

/-- **Run.** A text in one line is read up to its quote. -/
theorem lineText_escape (cs rest : List Char) (hfuel : cs.length < fuel) :
    lineText fuel (format.escape cs ++ '"' :: rest) = some (cs, rest) := by
  induction cs generalizing fuel with
  | nil =>
      obtain ⟨fuel, rfl⟩ := Nat.exists_eq_add_of_le' (Nat.one_le_of_lt hfuel)
      rfl
  | cons c cs ih =>
      obtain ⟨fuel, rfl⟩ := Nat.exists_eq_add_of_le' (Nat.one_le_of_lt hfuel)
      rw [escape_cons_append]
      show lineText (fuel + 1) (escapeChar c ++ _) = _
      rw [lineText_escapeChar, ih (Nat.lt_of_succ_lt_succ hfuel)]
      rfl

/-- What stands for a character is a backslash with more behind it, or a character that is no
quote. -/
theorem escapeChar_eq_cons (c : Char) :
    ∃ x more, format.escapeChar c = x :: more ∧ x ≠ '"' := by
  have hslash : '\\' ≠ '"' := by decide
  show ∃ x more, escapeChar c = x :: more ∧ x ≠ '"'
  rw [escapeChar, Json.escapeChar]
  repeat' split
  all_goals first
    | exact ⟨_, _, rfl, hslash⟩
    | exact ⟨_, _, rfl, by assumption⟩

theorem length_le_escape (cs : List Char) : cs.length ≤ (format.escape cs).length := by
  induction cs with
  | nil => exact Nat.le_refl 0
  | cons c cs ih =>
      obtain ⟨x, more, hx, -⟩ := escapeChar_eq_cons c
      rw [escape_cons, hx, List.length_append, List.length_cons, List.length_cons]
      omega

/-- The length of a text bounds the steps of its reading. -/
theorem lineText_length (cs rest : List Char) :
    lineText (format.escape cs ++ '"' :: rest).length (format.escape cs ++ '"' :: rest) =
      some (cs, rest) := by
  have hlength := length_le_escape cs
  apply lineText_escape
  simp only [List.length_append, List.length_cons]
  omega

/-- What is between quotes does not start with a quote. -/
theorem escape_append_ne_quote (hne : cs ≠ []) (rest more : List Char) :
    format.escape cs ++ rest ≠ '"' :: more := by
  cases cs with
  | nil => exact absurd rfl hne
  | cons c cs =>
      obtain ⟨x, tail, hx, hquote⟩ := escapeChar_eq_cons c
      rw [escape_cons_append, hx]
      exact fun h => hquote (List.cons.inj h).1

/-- **A text** is read as it was, whatever characters it has. -/
theorem text?_quoted (text : String) (hrest : EndsValue rest) :
    text? (format.quoted text ++ rest) = some (text, rest) := by
  rw [quoted_append, text?]
  · rw [lineText_length]
    simp
  · -- neither a text nor what follows an empty one starts with a quote
    intro cs h
    cases htext : text.toList with
    | nil =>
        rw [htext] at h
        have hquote := hrest '"' (congrArg List.head? (List.cons.inj h).2)
        simp at hquote
    | cons c cs =>
        rw [htext] at h
        exact escape_append_ne_quote (List.cons_ne_nil c cs) _ _ h

/-! ## Digits -/

def digitValues (ds : List Char) : List Nat :=
  ds.map fun d => d.toNat - '0'.toNat

/-- What ends a value is no digit, and nothing that can stand in a number. -/
theorem digitsFrom_of_endsValue (hrest : EndsValue rest) : digitsFrom 10 rest = ([], rest) := by
  cases rest with
  | nil => rfl
  | cons c cs => rcases hrest c rfl with rfl | rfl | rfl | rfl <;> rfl

/-- Digits are read up to the end of a value. -/
theorem digitsFrom_append (hds : ∀ c ∈ ds, c.isDigit = true) (hrest : EndsValue rest) :
    digitsFrom 10 (ds ++ rest) = (digitValues ds, rest) := by
  induction ds with
  | nil => exact digitsFrom_of_endsValue hrest
  | cons c ds ih =>
      have hc : c.isDigit = true := hds c List.mem_cons_self
      rw [List.cons_append, digitsFrom.eq_3, digit?_of_isDigit hc,
        ih fun d hd => hds d (List.mem_cons_of_mem _ hd)]
      · rfl
      · rintro d cs rfl
        cases hc

theorem digits?_cons (hds : ∀ d ∈ c :: ds, d.isDigit = true) (hrest : EndsValue rest) :
    digits? 10 (c :: (ds ++ rest)) = some (digitValues (c :: ds), rest) := by
  rw [digits?, digit?_of_isDigit (hds c List.mem_cons_self),
    digitsFrom_append (fun d hd => hds d (List.mem_cons_of_mem _ hd)) hrest]
  rfl

theorem wholeDigits?_toDigits (n : Nat) (hrest : EndsValue rest) :
    wholeDigits? (Nat.toDigits 10 n ++ rest) =
      some (digitValues (Nat.toDigits 10 n), rest) := by
  have hdigits : ∀ c ∈ Nat.toDigits 10 n, c.isDigit = true := fun c => isDigit_of_mem_toDigits
  obtain ⟨d, ds, heq, -, hzero⟩ := toDigits_eq_cons n
  rw [heq] at hdigits ⊢
  by_cases hd : d = '0'
  · rw [hd, hzero hd]
    rfl
  · rw [List.cons_append, wholeDigits?.eq_2, digits?_cons hdigits hrest]
    exact fun rest' h => hd (List.cons.inj h).1

theorem valueOf_toDigits (n : Nat) :
    valueOf 10 (digitValues (Nat.toDigits 10 n)) = n := by
  have hfold : ∀ (ds : List Char) (acc : Nat),
      (digitValues ds).foldl (fun v d => v * 10 + d) acc = Nat.ofDigitChars 10 ds acc := by
    intro ds
    induction ds with
    | nil => exact fun acc => rfl
    | cons d ds ih =>
        intro acc
        rw [digitValues, List.map_cons, List.foldl_cons, ← digitValues, ih, Nat.ofDigitChars_cons,
          Nat.mul_comm acc 10]
  rw [valueOf, hfold, Nat.ofDigitChars_ten_toDigits]

/-! ## No date and no time -/

/-- A number of so many digits is only read where there are so many. -/
theorem eq_of_fixed? {lo hi value : Nat} {text more : List Char} (hrest : EndsValue rest)
    (h : fixed? n lo hi (ds ++ rest) = some (text, value, more)) : more = ds.drop n ++ rest := by
  obtain ⟨values, hvalues, h⟩ := Option.bind_eq_some_iff.mp h
  obtain ⟨⟨hlength, -, -⟩, h⟩ := Option.ite_none_right_eq_some.mp h
  obtain ⟨-, h⟩ := Prod.mk.inj (Option.some.inj h)
  obtain ⟨-, rfl⟩ := Prod.mk.inj h
  obtain ⟨htaken, hdigits, -⟩ := Outcome.of_mapM_eq_some hvalues
  have hle : n ≤ ds.length := by
    refine Nat.le_of_not_lt fun hgt => ?_
    cases rest with
    | nil =>
        rw [List.append_nil, List.length_take] at htaken
        omega
    | cons c cs =>
        -- what ends the value would have to be a digit
        have hmem : c ∈ (ds ++ c :: cs).take n := by
          rw [List.take_append, List.mem_append]
          obtain ⟨k, hk⟩ := Nat.exists_eq_add_of_lt hgt
          have hsub : n - ds.length = k + 1 := by omega
          rw [hsub, List.take_succ_cons]
          exact .inr List.mem_cons_self
        obtain ⟨value, hdigit⟩ := hdigits c hmem
        rcases hrest c rfl with rfl | rfl | rfl | rfl <;> cases hdigit
  rw [List.drop_append_of_le_length hle]

/-- Behind digits there is no mark of a date or a time. -/
theorem expect?_digits (hds : ∀ c ∈ ds, c.isDigit = true) (hrest : EndsValue rest)
    (hc : c = '-' ∨ c = ':') : expect? c (ds ++ rest) = none := by
  have hne : ∀ x more, ds ++ rest = x :: more → x ≠ c := by
    rintro x more h rfl
    cases ds with
    | nil => rcases hrest x (congrArg List.head? h) with rfl | rfl | rfl | rfl <;> simp at hc
    | cons d ds =>
        obtain ⟨rfl, -⟩ := List.cons.inj h
        have hdigit := hds d List.mem_cons_self
        rcases hc with rfl | rfl <;> cases hdigit
  cases h : ds ++ rest with
  | nil => rfl
  | cons x more => rw [expect?, if_neg (hne x more h)]

theorem expect?_of_fixed? {lo hi value : Nat} {text more : List Char}
    (hds : ∀ c ∈ ds, c.isDigit = true) (hrest : EndsValue rest) (hc : c = '-' ∨ c = ':')
    (h : fixed? n lo hi (ds ++ rest) = some (text, value, more)) : expect? c more = none := by
  rw [eq_of_fixed? hrest h]
  exact expect?_digits (fun d hd => hds d (List.mem_of_mem_drop hd)) hrest hc

/-- **Digits are no date** and no time. -/
theorem momentData?_digits (hds : ∀ c ∈ ds, c.isDigit = true) (hrest : EndsValue rest) :
    momentData? (ds ++ rest) = none := by
  have hdate : date? (ds ++ rest) = none := by
    rw [date?]
    cases h : fixed? 4 0 9999 (ds ++ rest) with
    | none => rfl
    | some found =>
        obtain ⟨text, value, more⟩ := found
        have hmark := expect?_of_fixed? hds hrest (.inl rfl) h
        simp only [Option.bind_eq_bind, Option.bind_some, hmark, Option.bind_none]
  have htime : time? (ds ++ rest) = none := by
    rw [time?]
    cases h : fixed? 2 0 23 (ds ++ rest) with
    | none => rfl
    | some found =>
        obtain ⟨text, value, more⟩ := found
        have hmark := expect?_of_fixed? hds hrest (.inr rfl) h
        simp only [Option.bind_eq_bind, Option.bind_some, hmark, Option.bind_none]
  rw [momentData?, moment?, hdate, htime]
  rfl

theorem momentData?_minus (cs : List Char) : momentData? ('-' :: cs) = none := by
  have hfixed : ∀ n lo hi, fixed? (n + 1) lo hi ('-' :: cs) = none := by
    intro n lo hi
    have hdigit : digit? 10 '-' = none := by decide
    simp [fixed?, hdigit]
  rw [momentData?, moment?, date?, time?, hfixed, hfixed]
  rfl

/-! ## Integers -/

variable {negative : Bool}

theorem toDigits_append_ne (hc : c.isDigit = false) (rest more : List Char) :
    Nat.toDigits 10 n ++ rest ≠ c :: more := by
  obtain ⟨d, ds, heq, hdigit, -⟩ := toDigits_eq_cons n
  rw [heq, List.cons_append]
  intro h
  rw [(List.cons.inj h).1, hc] at hdigit
  cases hdigit

/-- There is no number with a fraction where an integer ends in front of the end of a value. -/
theorem fraction?_of_sign (hsign : sign cs = (negative, Nat.toDigits 10 n ++ rest))
    (hrest : EndsValue rest) : fraction? cs = none := by
  have hfraction : fractionDigits? rest = none := by
    cases rest with
    | nil => rfl
    | cons c cs => rcases hrest c rfl with rfl | rfl | rfl | rfl <;> rfl
  have hexponent : exponent? rest = none := by
    cases rest with
    | nil => rfl
    | cons c cs => rcases hrest c rfl with rfl | rfl | rfl | rfl <;> rfl
  rw [fraction?, hsign]
  simp only
  split
  · next h => exact absurd h (toDigits_append_ne (by decide) rest _)
  · next h => exact absurd h (toDigits_append_ne (by decide) rest _)
  · simp only [wholeDigits?_toDigits n hrest, Option.bind_eq_bind, Option.bind_some, hfraction,
      hexponent, Option.bind_none]

/-- An integer is read in decimal, unless it starts as one in another base. -/
theorem integer?_of_sign (hsign : sign cs = (negative, Nat.toDigits 10 n ++ rest))
    (hrest : EndsValue rest) (hbase : ∀ b more, cs = '0' :: b :: more → b ∉ ['x', 'o', 'b']) :
    integer? cs = (inRange? (if negative then -n else n)).map fun d => (d, rest) := by
  unfold integer?
  simp only
  split
  · next more => exact absurd (List.mem_cons_self ..) (hbase 'x' more rfl)
  · next more => exact absurd (by simp) (hbase 'o' more rfl)
  · next more => exact absurd (by simp) (hbase 'b' more rfl)
  · simp only [hsign, wholeDigits?_toDigits n hrest, Option.bind_eq_bind, Option.bind_some,
      valueOf_toDigits, Option.map_eq_bind]
    rfl

theorem sign_toDigits (n : Nat) (rest : List Char) :
    sign (Nat.toDigits 10 n ++ rest) = (false, Nat.toDigits 10 n ++ rest) := by
  unfold sign
  split
  · next h => exact absurd h (toDigits_append_ne (by decide) rest _)
  · next h => exact absurd h (toDigits_append_ne (by decide) rest _)
  · rfl

/-- A decimal does not start as a number in another base. -/
theorem notMem_bases {b : Char} {more : List Char} (hrest : EndsValue rest)
    (h : Nat.toDigits 10 n ++ rest = '0' :: b :: more) : b ∉ ['x', 'o', 'b'] := by
  obtain ⟨d, ds, heq, -, hzero⟩ := toDigits_eq_cons n
  rw [heq, List.cons_append] at h
  obtain ⟨hd, htail⟩ := List.cons.inj h
  rw [hzero hd, List.nil_append] at htail
  rcases hrest b (congrArg List.head? htail) with rfl | rfl | rfl | rfl <;> decide

/-- **An integer** of 64 bits is read as it was. -/
theorem number?_toString {value : Int} (hrange : inRange? value = some (.integer value))
    (hrest : EndsValue rest) :
    number? ((toString value).toList ++ rest) = some (.integer value, rest) := by
  rw [toList_toString]
  split
  · next hvalue =>
    have hsign := sign_toDigits value.toNat rest
    have hinteger := integer?_of_sign hsign hrest fun b more => notMem_bases hrest
    rw [if_neg Bool.false_ne_true, Int.toNat_of_nonneg hvalue, hrange] at hinteger
    rw [number?, momentData?_digits (fun c => isDigit_of_mem_toDigits) hrest,
      fraction?_of_sign hsign hrest, hinteger]
    rfl
  · next hvalue =>
    have hsign : sign ('-' :: (Nat.toDigits 10 (-value).toNat ++ rest)) =
        (true, Nat.toDigits 10 (-value).toNat ++ rest) := rfl
    have hinteger := integer?_of_sign hsign hrest fun b more h => nomatch (List.cons.inj h).1
    rw [if_pos rfl, Int.toNat_of_nonneg (by omega), Int.neg_neg, hrange] at hinteger
    rw [List.cons_append, number?, momentData?_minus, fraction?_of_sign hsign hrest, hinteger]
    rfl

end SourceEdit.Toml
