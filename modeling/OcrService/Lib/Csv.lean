/-
  Comma-separated records, as Python's `csv.writer` writes them by default: fields
  are quoted where they must be, quotes in them are doubled, and a record ends
  with a carriage return and a line feed.

  `read_record`, `read_records`: a reader that knows of quotes gets back the
  records that were written, whatever characters their fields have.
-/
import OcrService.Lib.PyStr

namespace Csv

open PyStr

def comma : Char := Char.ofNat 44
def cr : Char := Char.ofNat 13
def lf : Char := Char.ofNat 10

/-! ## The writer -/

/-- The characters for which a field is quoted. -/
def special (c : Char) : Bool := c == comma || c == dquote || c == cr || c == lf

/-- A character between quotes. -/
def escape (c : Char) : List Char := if c = dquote then [dquote, dquote] else [c]

def quoted (f : List Char) : List Char := dquote :: (f.flatMap escape ++ [dquote])

def field (f : List Char) : List Char := if f.any special then quoted f else f

/-- The fields of a record and the commas between them. -/
def fields : List (List Char) → List Char
  | [] => []
  | [f] => field f
  | f :: g :: fs => field f ++ comma :: fields (g :: fs)

/-- `writer.writerow`; the only field of a record is quoted if it is empty. -/
def record (fs : List (List Char)) : List Char :=
  (if fs = [[]] then quoted [] else fields fs) ++ [cr, lf]

/-! ## The reader -/

/-- Where a reader is: at the beginning of a record, at the beginning of a field
    after a comma, in a field, in a quoted field, behind a quote in a quoted field,
    at the end of a record. -/
inductive Mode where
  | start | next | bare | inside | closed | stop

/-- What is read from a text, with the field `f` and the fields `fs` of the record
    read so far.  What follows a carriage return that is no line feed is left. -/
def readFrom : Mode → List Char → List (List Char) → List Char → List (List (List Char))
  | .start, _, _, [] => []
  | _, f, fs, [] => [fs ++ [f]]
  | .start, _, _, c :: cs =>
    if c = dquote then readFrom .inside [] [] cs
    else if c = comma then readFrom .next [] [[]] cs
    else if c = cr then readFrom .stop [] [] cs
    else readFrom .bare [c] [] cs
  | .next, _, fs, c :: cs =>
    if c = dquote then readFrom .inside [] fs cs
    else if c = comma then readFrom .next [] (fs ++ [[]]) cs
    else if c = cr then readFrom .stop [] (fs ++ [[]]) cs
    else readFrom .bare [c] fs cs
  | .bare, f, fs, c :: cs =>
    if c = comma then readFrom .next [] (fs ++ [f]) cs
    else if c = cr then readFrom .stop [] (fs ++ [f]) cs
    else readFrom .bare (f ++ [c]) fs cs
  | .inside, f, fs, c :: cs =>
    if c = dquote then readFrom .closed f fs cs else readFrom .inside (f ++ [c]) fs cs
  | .closed, f, fs, c :: cs =>
    if c = dquote then readFrom .inside (f ++ [dquote]) fs cs
    else if c = comma then readFrom .next [] (fs ++ [f]) cs
    else if c = cr then readFrom .stop [] (fs ++ [f]) cs
    else readFrom .bare (f ++ [c]) fs cs
  | .stop, _, fs, c :: cs => if c = lf then fs :: readFrom .start [] [] cs else []

/-- The records of a text. -/
def read (text : List Char) : List (List (List Char)) := readFrom .start [] [] text

/-! ## What is written is read -/

section
variable {f g : List Char} {fs gs : List (List Char)} {c sep : Char} {rest : List Char}

/-- Where a reader is behind a comma or a carriage return that ends a field. -/
def behind (sep : Char) (fs : List (List Char)) (rest : List Char) : List (List (List Char)) :=
  if sep = comma then readFrom .next [] fs rest else readFrom .stop [] fs rest

theorem special_eq_false (h : special c = false) : c ≠ dquote ∧ c ≠ comma ∧ c ≠ cr ∧ c ≠ lf := by
  simpa [special, and_assoc, and_left_comm] using h

theorem readFrom_inside (g f : List Char) (fs : List (List Char)) (rest : List Char) :
    readFrom .inside f fs (g.flatMap escape ++ dquote :: rest) = readFrom .closed (f ++ g) fs rest := by
  induction g generalizing f with
  | nil => simp [readFrom]
  | cons c g ih =>
    by_cases hc : c = dquote
    · simp [escape, hc, readFrom, ih]
    · simp [escape, hc, readFrom, ih]

theorem readFrom_bare (hg : ∀ c ∈ g, special c = false) (f : List Char) (fs : List (List Char))
    (rest : List Char) : readFrom .bare f fs (g ++ rest) = readFrom .bare (f ++ g) fs rest := by
  induction g generalizing f with
  | nil => simp
  | cons c g ih =>
    obtain ⟨-, hcomma, hcr, -⟩ := special_eq_false (hg c List.mem_cons_self)
    rw [List.cons_append, readFrom, if_neg hcomma, if_neg hcr, ih fun d hd => hg d (List.mem_cons_of_mem _ hd),
      List.append_assoc, List.singleton_append]

/-- **A field and what ends it** are read as the field, from behind a comma on. -/
theorem readFrom_field (hsep : sep = comma ∨ sep = cr) (g f : List Char) (fs : List (List Char))
    (rest : List Char) : readFrom .next f fs (field g ++ sep :: rest) = behind sep (fs ++ [g]) rest := by
  by_cases hg : g.any special = true
  · -- a quote, what is between, a quote
    rw [field, if_pos hg, quoted, List.cons_append, List.append_assoc, readFrom, if_pos rfl,
      List.singleton_append, readFrom_inside]
    rcases hsep with rfl | rfl <;> rfl
  · have hplain : ∀ c ∈ g, special c = false := by simpa using hg
    rw [field, if_neg hg]
    cases g with
    | nil => rcases hsep with rfl | rfl <;> rfl
    | cons c g =>
      obtain ⟨hquote, hcomma, hcr, -⟩ := special_eq_false (hplain c List.mem_cons_self)
      rw [List.cons_append, readFrom, if_neg hquote, if_neg hcomma, if_neg hcr,
        readFrom_bare fun d hd => hplain d (List.mem_cons_of_mem _ hd)]
      rcases hsep with rfl | rfl <;> rfl

/-- The fields of a record up to its end. -/
theorem readFrom_fields (hfs : fs ≠ []) (f : List Char) (gs : List (List Char)) (rest : List Char) :
    readFrom .next f gs (fields fs ++ cr :: rest) = readFrom .stop [] (gs ++ fs) rest := by
  induction fs generalizing f gs with
  | nil => exact absurd rfl hfs
  | cons g fs ih =>
    cases fs with
    | nil => exact readFrom_field (Or.inr rfl) g f gs rest
    | cons g' fs =>
      rw [fields, List.append_assoc, List.cons_append, readFrom_field (Or.inl rfl), behind, if_pos rfl,
        ih (List.cons_ne_nil _ _), List.append_assoc, List.singleton_append]

/-- At the beginning of a record only a carriage return is read otherwise than
    behind a comma. -/
theorem readFrom_start (hc : c ≠ cr) (cs : List Char) :
    readFrom .start [] [] (c :: cs) = readFrom .next [] [] (c :: cs) := by
  simp only [readFrom, if_neg hc, List.nil_append]

theorem field_cons (c : Char) (g : List Char) : ∃ d ds, field (c :: g) = d :: ds ∧ d ≠ cr := by
  by_cases hg : (c :: g).any special = true
  · exact ⟨dquote, _, if_pos hg, by decide⟩
  · have hc : special c = false := Bool.eq_false_iff.2 fun h => hg (by simp [h])
    exact ⟨c, g, if_neg hg, (special_eq_false hc).2.2.1⟩

theorem fields_cons (hempty : fs ≠ []) (hblank : fs ≠ [[]]) :
    ∃ c cs, fields fs = c :: cs ∧ c ≠ cr := by
  match fs with
  | [[]] => exact absurd rfl hblank
  | [c :: g] => exact field_cons c g
  | [] :: g :: fs => exact ⟨comma, fields (g :: fs), rfl, by decide⟩
  | (c :: f) :: g :: fs =>
    obtain ⟨d, ds, hd, hne⟩ := field_cons c f
    exact ⟨d, _, by rw [fields, hd, List.cons_append], hne⟩

theorem read_record (fs : List (List Char)) (rest : List Char) :
    read (record fs ++ rest) = fs :: read rest := by
  by_cases hblank : fs = [[]]
  · subst hblank
    rfl
  · rw [record, if_neg hblank, List.append_assoc]
    by_cases hempty : fs = []
    · subst hempty
      rfl
    · obtain ⟨c, cs, hcs, hc⟩ := fields_cons hempty hblank
      have hfields := readFrom_fields hempty [] [] (lf :: rest)
      rw [hcs, List.cons_append] at hfields
      rw [read, hcs, List.cons_append, List.cons_append, List.cons_append, List.nil_append,
        readFrom_start hc, hfields, List.nil_append, readFrom, if_pos rfl, read]

/-- **What is written is read**, record by record. -/
theorem read_records (rows : List (List (List Char))) : read (rows.flatMap record) = rows := by
  induction rows with
  | nil => rfl
  | cons fs rows ih => rw [List.flatMap_cons, read_record, ih]

end

end Csv
