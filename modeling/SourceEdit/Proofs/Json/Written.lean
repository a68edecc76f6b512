import SourceEdit.Json.Reader
import SourceEdit.Proofs.Data.Written

/-!
# Written JSON

Data as a JSON text without blanks. What is written is read back as it was, whatever characters its
texts have, and what follows it is left alone; so a whole text is read as the data it was written
for, if these hold no number but integers and do not nest too deep.
-/

namespace SourceEdit.Json

open Text
open Data.Format (Starts EndsValue endsValue_nil endsValue_cons write writeItems writeFields
  escape_cons_append quoted_append starts_write starts_writeItems starts_writeFields
  length_le_writeItems length_le_writeFields)

def format : Data.Format where
  escapeChar := escapeChar
  mark := ':'

/-- Whether data can be written, nested at most so deep. -/
def Fits : Nat → Data → Prop
  | 0, _ => False
  | _ + 1, .fraction => False
  | n + 1, .list items => ∀ d ∈ items, Fits n d
  | n + 1, .record fields => ∀ f ∈ fields, Fits n f.2
  | _ + 1, _ => True

/-! ## Quoted texts -/

theorem unit?_digitChar {n : Nat} (hn : n < 256) :
    unit? '0' '0' (Nat.digitChar (n / 16)) (Nat.digitChar (n % 16)) = some n := by
  have hzero : Text.digit? 16 '0' = some 0 := rfl
  have hhigh := Text.digit?_digitChar (n := n / 16) (by omega)
  have hlow := Text.digit?_digitChar (n := n % 16) (by omega)
  simp only [unit?, hzero, hhigh, hlow, Option.bind_eq_bind, Option.bind_some, Option.pure_def]
  congr 1
  omega

/-- **Step.** What stands for a character is read as that character, and the rest as it would be
without it. -/
theorem unescape_escapeChar (c : Char) (rest : List Char) :
    unescape (escapeChar c ++ rest) = (unescape rest).map fun (t, r) => (c :: t, r) := by
  by_cases hshort : c = '"' ∨ c = '\\' ∨ c = '\x08' ∨ c = '\t' ∨ c = '\n' ∨ c = '\x0c' ∨
    c = '\r'
  · -- each of these has a letter of its own
    rcases hshort with rfl | rfl | rfl | rfl | rfl | rfl | rfl <;> rfl
  simp only [not_or] at hshort
  obtain ⟨hquote, hslash, hbackspace, htab, hline, hfeed, hreturn⟩ := hshort
  rw [escapeChar, if_neg hquote, if_neg hslash, if_neg hbackspace, if_neg htab, if_neg hline,
    if_neg hfeed, if_neg hreturn]
  split
  · next hcontrol =>
    have hcode : unit? '0' '0' (Nat.digitChar (c.toNat / 16)) (Nat.digitChar (c.toNat % 16)) =
        some c.toNat := unit?_digitChar (by omega)
    simp [unescape, hcode, Text.charOf?_toNat]
  · next hcontrol =>
    rw [List.singleton_append, unescape]
    · rw [if_neg (by simp [hcontrol, hslash])]
    · exact hquote
    · exact fun _ _ _ _ _ h _ => hslash h
    · exact fun _ _ h _ => hslash h

/-- **Run.** Reading stops at the quote behind what was written, and gives back what it stands
for. -/
theorem unescape_escape (cs rest : List Char) :
    unescape (format.escape cs ++ '"' :: rest) = some (cs, rest) := by
  induction cs with
  | nil => rfl
  | cons c cs ih =>
      rw [escape_cons_append]
      show unescape (escapeChar c ++ _) = _
      rw [unescape_escapeChar, ih]
      rfl

theorem toList_quote (text : String) : (quote text).toList = format.quoted text :=
  String.toList_ofList

/-! ## Integers -/

variable {rest : List Char}

theorem foldl_digits {ds : List Char} (h : ∀ c ∈ ds, c.isDigit = true) (acc : Nat) :
    ds.foldl (fun (v : Int) d => v * 10 + (d.toNat - '0'.toNat)) acc =
      (Nat.ofDigitChars 10 ds acc : Int) := by
  induction ds generalizing acc with
  | nil => rfl
  | cons c ds ih =>
      have hlow : '0'.toNat ≤ c.toNat := (Char.isDigit_iff_toNat.mp (h c (by simp))).1
      have hstep : (acc : Int) * 10 + ((c.toNat : Int) - ('0'.toNat : Int)) =
          ((10 * acc + (c.toNat - '0'.toNat) : Nat) : Int) := by
        omega
      rw [List.foldl_cons, Nat.ofDigitChars_cons, hstep]
      exact ih (fun d hd => h d (List.mem_cons_of_mem _ hd)) _

theorem noDigit_of_endsValue (hrest : EndsValue rest) :
    rest = [] ∨ ∃ c cs, rest = c :: cs ∧ c.isDigit = false := by
  cases rest with
  | nil => exact .inl rfl
  | cons c cs =>
      refine .inr ⟨c, cs, rfl, ?_⟩
      rcases hrest c rfl with rfl | rfl | rfl | rfl <;> rfl

theorem digits?_append {ds : List Char} (hds : ∀ c ∈ ds, c.isDigit = true) (hne : ds ≠ [])
    (hrest : EndsValue rest) : digits? (ds ++ rest) = some (ds, rest) := by
  have htake : (ds ++ rest).takeWhile Char.isDigit = ds := by
    rw [List.takeWhile_append_of_pos hds]
    rcases noDigit_of_endsValue hrest with rfl | ⟨c, cs, rfl, hc⟩
    · simp
    · rw [List.takeWhile_cons_of_neg (by simp [hc]), List.append_nil]
  have hempty : ds.isEmpty = false := by simpa using hne
  rw [digits?, htake]
  simp [hempty]

theorem wholeDigits?_toDigits (n : Nat) (hrest : EndsValue rest) :
    wholeDigits? (Nat.toDigits 10 n ++ rest) = some (Nat.toDigits 10 n, rest) := by
  obtain ⟨d, ds, heq, -, hzero⟩ := toDigits_eq_cons n
  by_cases hd : d = '0'
  · rw [heq, hd, hzero hd]
    rfl
  · have hdigits : ∀ c ∈ Nat.toDigits 10 n, c.isDigit = true := fun c => isDigit_of_mem_toDigits
    rw [← digits?_append hdigits (by simp) hrest, heq, List.cons_append, wholeDigits?.eq_2]
    exact fun rest' h => hd (List.cons.inj h).1

theorem skip_of_endsValue (hrest : EndsValue rest) :
    skipFraction? rest = some rest ∧ skipExponent? rest = some rest := by
  cases rest with
  | nil => exact ⟨rfl, rfl⟩
  | cons c cs => rcases hrest c rfl with rfl | rfl | rfl | rfl <;> exact ⟨rfl, rfl⟩

/-- **An integer** is read up to the end of its value. -/
theorem number?_toString (n : Int) (hrest : EndsValue rest) :
    number? ((toString n).toList ++ rest) = some (.integer n, rest) := by
  have hvalue : ∀ m : Nat, (Nat.toDigits 10 m).foldl
      (fun (v : Int) d => v * 10 + (d.toNat - '0'.toNat)) 0 = m := by
    intro m
    have hdigits := foldl_digits (fun c => isDigit_of_mem_toDigits (n := m) (c := c)) 0
    rwa [Nat.ofDigitChars_ten_toDigits] at hdigits
  obtain ⟨hfraction, hexponent⟩ := skip_of_endsValue hrest
  rw [toList_toString]
  split
  · next hn =>
    obtain ⟨d, ds, heq, hdigit, -⟩ := toDigits_eq_cons n.toNat
    have hsign : ∀ cs, Nat.toDigits 10 n.toNat ++ rest ≠ '-' :: cs := by
      intro cs h
      rw [heq] at h
      obtain ⟨rfl, -⟩ := List.cons.inj h
      exact absurd hdigit (by decide)
    unfold number?
    split
    next negative digits hmatch =>
    split at hmatch
    · next h => exact absurd h (hsign _)
    · obtain ⟨rfl, rfl⟩ := Prod.mk.inj hmatch
      simp only [wholeDigits?_toDigits _ hrest, Option.bind_eq_bind, Option.bind_some, hfraction,
        hexponent, hvalue, if_true]
      rw [Int.toNat_of_nonneg hn]
      rfl
  · next hn =>
    simp only [List.cons_append, number?, wholeDigits?_toDigits _ hrest, Option.bind_eq_bind,
      Option.bind_some, hfraction, hexponent, hvalue, if_true]
    rw [Int.toNat_of_nonneg (by omega), Int.neg_neg]
    rfl

/-! ## Values -/

variable {n fuel : Nat} {d : Data}

theorem value?_cons {c : Char} (hc : c ∉ ['n', 't', 'f', '"', '[', '\x7b']) (cs : List Char) :
    value? (n + 1) (c :: cs) = number? (c :: cs) := by
  have hne : ∀ x more more', x ∈ ['n', 't', 'f', '"', '[', '\x7b'] → c :: more ≠ x :: more' := by
    intro x more more' hx heq
    exact hc ((List.cons.inj heq).1 ▸ hx)
  rw [value?.eq_8]
  all_goals exact fun more => hne _ _ _ (by decide)

theorem skipBlanks_of_starts {cs : List Char} (h : Starts cs) (rest : List Char) :
    skipBlanks (cs ++ rest) = cs ++ rest := by
  refine h.dropWhile_append (fun c hc => ?_) rest
  simp only [Bool.or_eq_true, beq_iff_eq] at hc
  rcases hc with ((rfl | rfl) | rfl) | rfl <;> decide

abbrev ReadsBack (read? : ValueReader) (d : Data) : Prop := format.ReadsBack read? d

theorem elements?_write {read? : ValueReader} {ds : List Data} (hds : ∀ d ∈ ds, ReadsBack read? d)
    (hne : ds ≠ []) (hfuel : ds.length ≤ fuel) :
    elements? read? fuel (format.writeItems ds ++ ']' :: rest) = some (ds, rest) := by
  induction ds generalizing fuel with
  | nil => exact absurd rfl hne
  | cons d ds ih =>
      obtain ⟨fuel, rfl⟩ := Nat.exists_eq_add_of_le' (Nat.one_le_of_lt hfuel)
      obtain ⟨hstarts, hread⟩ := hds d (by simp)
      cases ds with
      | nil =>
          have hbracket : skipBlanks (']' :: rest) = ']' :: rest := rfl
          rw [writeItems, elements?, skipBlanks_of_starts hstarts,
            hread _ (endsValue_cons (by simp) _)]
          simp only [Option.bind_eq_bind, Option.bind_some, hbracket]
          rfl
      | cons e ds =>
          have hrest := ih (fun x hx => hds x (List.mem_cons_of_mem _ hx)) (by simp)
            (Nat.le_of_succ_le_succ hfuel)
          have hcomma : ∀ cs, skipBlanks (',' :: cs) = ',' :: cs := fun _ => rfl
          rw [writeItems, List.append_assoc, List.cons_append, elements?,
            skipBlanks_of_starts hstarts, hread _ (endsValue_cons (by simp) _)]
          simp only [Option.bind_eq_bind, Option.bind_some, hcomma, hrest]
          rfl

theorem skipBlanks_quoted (text : String) (rest : List Char) :
    skipBlanks (format.quoted text ++ rest) = '"' :: (format.escape text.toList ++ '"' :: rest) := by
  rw [quoted_append]
  rfl

theorem fields?_write {read? : ValueReader} {fs : List (String × Data)}
    (hfs : ∀ f ∈ fs, ReadsBack read? f.2) (hne : fs ≠ []) (hfuel : fs.length ≤ fuel) :
    fields? read? fuel (format.writeFields fs ++ '\x7d' :: rest) = some (fs, rest) := by
  have hcolon : ∀ cs, skipBlanks (format.mark :: cs) = ':' :: cs := fun _ => rfl
  induction fs generalizing fuel with
  | nil => exact absurd rfl hne
  | cons f fs ih =>
      obtain ⟨name, d⟩ := f
      obtain ⟨fuel, rfl⟩ := Nat.exists_eq_add_of_le' (Nat.one_le_of_lt hfuel)
      obtain ⟨hstarts, hread⟩ := hfs (name, d) (by simp)
      cases fs with
      | nil =>
          have hbrace : skipBlanks ('\x7d' :: rest) = '\x7d' :: rest := rfl
          have hvalue := hread ('\x7d' :: rest) (endsValue_cons (by simp) _)
          rw [writeFields, List.append_assoc, List.cons_append, fields?, skipBlanks_quoted]
          simp only [unescape_escape, hcolon, skipBlanks_of_starts hstarts, hvalue,
            Option.bind_eq_bind, Option.bind_some, hbrace, String.ofList_toList]
          rfl
      | cons g fs =>
          have hrest := ih (fun x hx => hfs x (List.mem_cons_of_mem _ hx)) (by simp)
            (Nat.le_of_succ_le_succ hfuel)
          have hcomma : ∀ cs, skipBlanks (',' :: cs) = ',' :: cs := fun _ => rfl
          have hvalue := fun rest => hread (',' :: rest) (endsValue_cons (by simp) _)
          rw [writeFields, List.append_assoc, List.cons_append, List.append_assoc, List.cons_append,
            fields?, skipBlanks_quoted]
          simp only [unescape_escape, hcolon, skipBlanks_of_starts hstarts, hvalue,
            Option.bind_eq_bind, Option.bind_some, hcomma, hrest, String.ofList_toList]
          rfl

theorem value?_bracket {body : List Char} (h : Starts body) :
    value? (n + 1) ('[' :: (body ++ rest)) =
      (elements? (value? n) (body ++ rest).length (body ++ rest)).map fun (vs, rest) =>
        (.list vs, rest) := by
  rw [value?, skipBlanks_of_starts h]
  split
  · next heq => exact absurd heq (h.append_ne (by decide) _ _)
  · rfl

theorem value?_brace {body : List Char} (h : Starts body) :
    value? (n + 1) ('\x7b' :: (body ++ rest)) =
      (fields? (value? n) (body ++ rest).length (body ++ rest)).map fun (fs, rest) =>
        (.record fs, rest) := by
  rw [value?, skipBlanks_of_starts h]
  split
  · next heq => exact absurd heq (h.append_ne (by decide) _ _)
  · rfl

theorem Fits.ne_fraction (h : Fits (n + 1) d) : d ≠ .fraction := by
  rintro rfl
  exact h

/-- **What is written is read back**, whatever follows. -/
theorem readsBack_write (h : Fits n d) : ReadsBack (value? n) d := by
  -- by induction on how deep the data may nest, one case for each kind of data
  induction n generalizing d with
  | zero => exact h.elim
  | succ n ih =>
      refine ⟨starts_write h.ne_fraction, fun rest hrest => ?_⟩
      cases d with
      | null => rfl
      | boolean b => cases b <;> rfl
      | integer value =>
          obtain ⟨c, more, heq, hc⟩ := head?_toString value
          rw [← number?_toString value hrest, write, heq, List.cons_append,
            value?_cons (notMem_of_startsInteger hc (by decide))]
      | fraction => exact h.elim
      | text value =>
          rw [write, quoted_append, value?, unescape_escape]
          simp
      | list items =>
          have hitems : ∀ d ∈ items, ReadsBack (value? n) d := fun d hd => ih (h d hd)
          have hlength := length_le_writeItems format items
          rw [write, List.cons_append, List.append_assoc, List.singleton_append]
          cases items with
          | nil => rfl
          | cons d ds =>
              have hne : d :: ds ≠ [] := List.cons_ne_nil d ds
              rw [value?_bracket (starts_writeItems hne fun d hd => (hitems d hd).1),
                elements?_write hitems hne]
              · rfl
              · simp only [List.length_append, List.length_cons] at hlength ⊢
                omega
      | record fields =>
          have hfields : ∀ f ∈ fields, ReadsBack (value? n) f.2 := fun f hf => ih (h f hf)
          have hlength := length_le_writeFields format fields
          rw [write, List.cons_append, List.append_assoc, List.singleton_append]
          cases fields with
          | nil => rfl
          | cons f fs =>
              have hne : f :: fs ≠ [] := List.cons_ne_nil f fs
              rw [value?_brace (starts_writeFields hne), fields?_write hfields hne]
              · rfl
              · simp only [List.length_append, List.length_cons] at hlength ⊢
                omega

/-- **A written text** is read as the data it was written for. -/
theorem read?_write (h : Fits depthLimit d) :
    read? (String.ofList (format.write d)) = some d := by
  obtain ⟨hstarts, hread⟩ := readsBack_write h
  have hskip := skipBlanks_of_starts hstarts []
  have hvalue := hread [] endsValue_nil
  rw [List.append_nil] at hskip hvalue
  rw [read?, String.toList_ofList, hskip, hvalue]
  rfl

end SourceEdit.Json
