import SourceEdit.Data
import SourceEdit.Proofs.Text.Decimal

/-!
# Written data

Data as a compact text. The formats have truth values, integers, lists and records in common; each
has its own way to escape the characters of a text, and its own mark behind the name of a field.
-/

namespace SourceEdit.Data

open Text

structure Format where
  /-- What stands for a character between quotes. -/
  escapeChar : Char → List Char
  /-- What stands between a name and its value. -/
  mark : Char

namespace Format

def escape (F : Format) (cs : List Char) : List Char :=
  cs.flatMap F.escapeChar

def quoted (F : Format) (text : String) : List Char :=
  '"' :: (F.escape text.toList ++ ['"'])

mutual

/-- Data as they are written. A number that is no integer has no text. -/
def write (F : Format) : Data → List Char
  | .null => ['n', 'u', 'l', 'l']
  | .boolean true => ['t', 'r', 'u', 'e']
  | .boolean false => ['f', 'a', 'l', 's', 'e']
  | .integer value => (toString value).toList
  | .fraction => []
  | .text value => F.quoted value
  | .list items => '[' :: (writeItems F items ++ [']'])
  | .record fields => '\x7b' :: (writeFields F fields ++ ['\x7d'])

def writeItems (F : Format) : List Data → List Char
  | [] => []
  | [d] => write F d
  | d :: e :: ds => write F d ++ ',' :: writeItems F (e :: ds)

def writeFields (F : Format) : List (String × Data) → List Char
  | [] => []
  | [(name, d)] => F.quoted name ++ F.mark :: write F d
  | (name, d) :: f :: fs => F.quoted name ++ F.mark :: (write F d ++ ',' :: writeFields F (f :: fs))

end

variable {F : Format} {d : Data} {cs rest : List Char}

theorem escape_cons (F : Format) (c : Char) (cs : List Char) :
    F.escape (c :: cs) = F.escapeChar c ++ F.escape cs :=
  List.flatMap_cons

theorem escape_cons_append (F : Format) (c : Char) (cs rest : List Char) :
    F.escape (c :: cs) ++ rest = F.escapeChar c ++ (F.escape cs ++ rest) := by
  rw [escape_cons, List.append_assoc]

theorem quoted_append (F : Format) (text : String) (rest : List Char) :
    F.quoted text ++ rest = '"' :: (F.escape text.toList ++ '"' :: rest) := by
  rw [quoted, List.cons_append, List.append_assoc]
  rfl

/-! ## Where a value starts and ends -/

/-- Blanks, line ends, comments, and the marks at which a list or a record ends. -/
def idle : List Char := [' ', '\t', '\n', '\r', '#', ']', '\x7d']

/-- Whether a text starts with a character of its own. -/
def Starts (cs : List Char) : Prop := ∃ c more, cs = c :: more ∧ c ∉ idle

theorem Starts.append (h : Starts cs) (more : List Char) : Starts (cs ++ more) := by
  obtain ⟨c, cs, rfl, hc⟩ := h
  exact ⟨c, cs ++ more, rfl, hc⟩

theorem Starts.append_ne {c : Char} (h : Starts cs) (hc : c ∈ idle) (rest more : List Char) :
    cs ++ rest ≠ c :: more := by
  obtain ⟨x, tail, rfl, hx⟩ := h
  intro heq
  rw [← (List.cons.inj heq).1] at hc
  exact hx hc

/-- What starts with a character of its own is left alone where others are dropped. -/
theorem Starts.dropWhile_append {p : Char → Bool} (h : Starts cs)
    (hp : ∀ c, p c = true → c ∈ idle) (rest : List Char) :
    (cs ++ rest).dropWhile p = cs ++ rest := by
  obtain ⟨c, more, rfl, hc⟩ := h
  exact List.dropWhile_cons_of_neg fun hdrop => hc (hp c hdrop)

theorem starts_quoted (F : Format) (text : String) : Starts (F.quoted text) :=
  ⟨'"', _, rfl, by decide⟩

theorem starts_write (h : d ≠ .fraction) : Starts (F.write d) := by
  cases d with
  | null => exact ⟨_, _, rfl, by decide⟩
  | boolean b => cases b <;> exact ⟨_, _, rfl, by decide⟩
  | integer value =>
      obtain ⟨c, more, heq, hc⟩ := head?_toString value
      exact ⟨c, more, heq, notMem_of_startsInteger hc (by decide)⟩
  | fraction => exact absurd rfl h
  | text value => exact F.starts_quoted value
  | list items => exact ⟨_, _, rfl, by decide⟩
  | record fields => exact ⟨_, _, rfl, by decide⟩

theorem starts_writeItems {ds : List Data} (hne : ds ≠ []) (h : ∀ d ∈ ds, Starts (F.write d)) :
    Starts (F.writeItems ds) := by
  cases ds with
  | nil => exact absurd rfl hne
  | cons d ds =>
      have hfirst := h d (by simp)
      cases ds with
      | nil => exact hfirst
      | cons e ds => exact hfirst.append _

theorem starts_writeFields {fs : List (String × Data)} (hne : fs ≠ []) :
    Starts (F.writeFields fs) := by
  cases fs with
  | nil => exact absurd rfl hne
  | cons f fs =>
      obtain ⟨name, d⟩ := f
      cases fs with
      | nil => exact (F.starts_quoted name).append _
      | cons g fs => exact (F.starts_quoted name).append _

/-- Whether a value is over in front of a text: at the end of all or of a line, or at a mark of a
list or a record. -/
def EndsValue (rest : List Char) : Prop :=
  ∀ c, rest.head? = some c → c = ',' ∨ c = ']' ∨ c = '\x7d' ∨ c = '\n'

theorem endsValue_nil : EndsValue [] := fun _ h => nomatch h

theorem endsValue_cons {c : Char} (h : c = ',' ∨ c = ']' ∨ c = '\x7d' ∨ c = '\n')
    (rest : List Char) : EndsValue (c :: rest) := by
  intro d hd
  rwa [← Option.some.inj hd]

/-- Whether data are read back by a reader in front of all that can follow a value. -/
def ReadsBack (F : Format) (read? : List Char → Option (Data × List Char)) (d : Data) : Prop :=
  Starts (F.write d) ∧ ∀ rest, EndsValue rest → read? (F.write d ++ rest) = some (d, rest)

/-! ## How long it is -/

theorem length_le_writeItems (F : Format) (ds : List Data) :
    ds.length ≤ (F.writeItems ds).length + 1 := by
  induction ds with
  | nil => simp
  | cons d ds ih =>
      cases ds with
      | nil => simp
      | cons e ds =>
          simp only [writeItems, List.length_append, List.length_cons] at ih ⊢
          omega

theorem length_le_writeFields (F : Format) (fs : List (String × Data)) :
    fs.length ≤ (F.writeFields fs).length + 1 := by
  induction fs with
  | nil => simp
  | cons f fs ih =>
      cases fs with
      | nil => simp
      | cons g fs =>
          obtain ⟨name, d⟩ := f
          simp only [writeFields, List.length_append, List.length_cons] at ih ⊢
          omega

end Format

end SourceEdit.Data
