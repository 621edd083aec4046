/-
  JSON lines: dictionaries of texts and `None`, each printed on a line of its own
  by `json.dumps` with its default separators.

  `lines_injective`: the text determines the dictionaries, with the order of their
  keys; `count_lines`: it has a line for each.
-/
import OcrService.Lib.Canonical

namespace PyData

open PyStr

/-- A dictionary whose values are texts and `None`. -/
abbrev Flat := List (String × Option String)

/-- `json.dumps` of a value that is a text or `None`. -/
def dumpsValue : Option String → List Char
  | none => ['n', 'u', 'l', 'l']
  | some s => (dumpsStr s).toList

/-- An entry of a dictionary. -/
def dumpsEntry (e : String × Option String) : List Char :=
  (dumpsStr e.1).toList ++ ([':', ' '] ++ dumpsValue e.2)

/-- The entries after the first one, and the end of the dictionary. -/
def dumpsRest : Flat → List Char
  | [] => ['\x7d']
  | e :: es => [',', ' '] ++ (dumpsEntry e ++ dumpsRest es)

/-- `json.dumps` of a dictionary of such values. -/
def dumpsObject : Flat → List Char
  | [] => ['\x7b', '\x7d']
  | e :: es => '\x7b' :: (dumpsEntry e ++ dumpsRest es)

/-- The line of a dictionary. -/
def dumpsLine (d : Flat) : List Char := dumpsObject d ++ ['\n']

/-! ## A line is one line -/

theorem newline_notMem_escapeChar (c : Char) : '\n' ∉ escapeChar c := by
  have hhex (k n : ℕ) : '\n' ∉ hex k n := fun h => by
    obtain ⟨m, hm, hnewline⟩ := mem_hex h
    exact (by decide : ∀ m < 16, '\n' ≠ hexDigit m) m hm hnewline
  -- the line feed itself is escaped
  by_cases hc : c = '\n'
  · subst hc
    decide
  · have hc : '\n' ≠ c := Ne.symm hc
    have hbackslash : '\n' ≠ backslash := by decide
    unfold escapeChar
    dsimp only
    split_ifs <;> simp [hc, hbackslash, hhex]

theorem newline_notMem_dumpsStr (s : String) : '\n' ∉ (dumpsStr s).toList := by
  have hquote : '\n' ≠ dquote := by decide
  simp [dumpsStr, hquote, newline_notMem_escapeChar]

theorem newline_notMem_dumpsEntry (e : String × Option String) : '\n' ∉ dumpsEntry e := by
  have hvalue : '\n' ∉ dumpsValue e.2 := by
    cases e.2 with
    | none => decide
    | some s => exact newline_notMem_dumpsStr s
  simp only [dumpsEntry, List.mem_append, not_or]
  exact ⟨newline_notMem_dumpsStr e.1, by decide, hvalue⟩

theorem newline_notMem_dumpsRest (es : Flat) : '\n' ∉ dumpsRest es := by
  induction es with
  | nil => decide
  | cons e es ih =>
    simp only [dumpsRest, List.mem_append, not_or]
    exact ⟨by decide, newline_notMem_dumpsEntry e, ih⟩

theorem count_dumpsLine (d : Flat) : (dumpsLine d).count '\n' = 1 := by
  have hobject : '\n' ∉ dumpsObject d := by
    cases d with
    | nil => decide
    | cons e es =>
      exact List.not_mem_cons_of_ne_of_not_mem (by decide)
        (List.not_mem_append (newline_notMem_dumpsEntry e) (newline_notMem_dumpsRest es))
  rw [dumpsLine, List.count_append, List.count_eq_zero_of_not_mem hobject]
  rfl

/-- **A line for each dictionary.** -/
theorem count_lines (ds : List Flat) : (ds.flatMap dumpsLine).count '\n' = ds.length := by
  simp [List.count_flatMap, Function.comp_def, count_dumpsLine]

/-! ## A line determines the dictionary -/

theorem dumpsStr_head (s : String) : ∃ cs, (dumpsStr s).toList = dquote :: cs :=
  ⟨_, String.toList_ofList⟩

theorem null_ne_dumpsStr (x : String) (s t : List Char) :
    dumpsValue none ++ s ≠ dumpsValue (some x) ++ t := by
  obtain ⟨cs, hcs⟩ := dumpsStr_head x
  intro h
  rw [dumpsValue, dumpsValue, hcs] at h
  exact absurd (List.cons.inj h).1 (by decide)

theorem dumpsValue_append_inj {v w : Option String} {s t : List Char}
    (h : dumpsValue v ++ s = dumpsValue w ++ t) : v = w ∧ s = t := by
  cases v with
  | none =>
    cases w with
    | none => exact ⟨rfl, List.append_cancel_left h⟩
    | some y => exact absurd h (null_ne_dumpsStr y s t)
  | some x =>
    cases w with
    | none => exact absurd h.symm (null_ne_dumpsStr x t s)
    | some y =>
      obtain ⟨rfl, hst⟩ := dumpsStr_append_inj h
      exact ⟨rfl, hst⟩

theorem dumpsEntry_append_inj {e e' : String × Option String} {s t : List Char}
    (h : dumpsEntry e ++ s = dumpsEntry e' ++ t) : e = e' ∧ s = t := by
  simp only [dumpsEntry, List.append_assoc] at h
  obtain ⟨hkey, hrest⟩ := dumpsStr_append_inj h
  obtain ⟨hvalue, hst⟩ := dumpsValue_append_inj (List.append_cancel_left hrest)
  exact ⟨Prod.ext hkey hvalue, hst⟩

theorem dumpsRest_append_inj {es es' : Flat} {s t : List Char}
    (h : dumpsRest es ++ s = dumpsRest es' ++ t) : es = es' ∧ s = t := by
  induction es generalizing es' with
  | nil =>
    cases es' with
    | nil => exact ⟨rfl, (List.cons.inj h).2⟩
    | cons e' es' => exact absurd (List.cons.inj h).1 (by decide)
  | cons e es ih =>
    cases es' with
    | nil => exact absurd (List.cons.inj h).1 (by decide)
    | cons e' es' =>
      simp only [dumpsRest, List.append_assoc] at h
      obtain ⟨rfl, hrest⟩ := dumpsEntry_append_inj (List.append_cancel_left h)
      obtain ⟨rfl, hst⟩ := ih hrest
      exact ⟨rfl, hst⟩

/-- An entry begins with a quote, so that the empty dictionary is told from others. -/
theorem close_ne_dumpsEntry (e : String × Option String) (s t : List Char) :
    '\x7d' :: s ≠ dumpsEntry e ++ t := by
  obtain ⟨cs, hcs⟩ := dumpsStr_head e.1
  intro h
  rw [dumpsEntry, hcs] at h
  exact absurd (List.cons.inj h).1 (by decide)

theorem dumpsObject_append_inj {es es' : Flat} {s t : List Char}
    (h : dumpsObject es ++ s = dumpsObject es' ++ t) : es = es' ∧ s = t := by
  cases es with
  | nil =>
    cases es' with
    | nil => exact ⟨rfl, List.append_cancel_left h⟩
    | cons e' es' =>
      simp only [dumpsObject, List.cons_append, List.append_assoc, List.nil_append] at h
      exact absurd (List.cons.inj h).2 (close_ne_dumpsEntry e' s _)
  | cons e es =>
    cases es' with
    | nil =>
      simp only [dumpsObject, List.cons_append, List.append_assoc, List.nil_append] at h
      exact absurd (List.cons.inj h).2.symm (close_ne_dumpsEntry e t _)
    | cons e' es' =>
      simp only [dumpsObject, List.cons_append, List.append_assoc] at h
      obtain ⟨rfl, hrest⟩ := dumpsEntry_append_inj (List.cons.inj h).2
      obtain ⟨rfl, hst⟩ := dumpsRest_append_inj hrest
      exact ⟨rfl, hst⟩

theorem dumpsLine_append_inj {d d' : Flat} {s t : List Char} (h : dumpsLine d ++ s = dumpsLine d' ++ t) :
    d = d' ∧ s = t := by
  rw [dumpsLine, dumpsLine, List.append_assoc, List.append_assoc] at h
  obtain ⟨hd, hst⟩ := dumpsObject_append_inj h
  exact ⟨hd, List.append_cancel_left hst⟩

/-- **The lines determine the dictionaries.** -/
theorem lines_injective : Function.Injective fun ds : List Flat => ds.flatMap dumpsLine := by
  have hne (d : Flat) (s : List Char) : dumpsLine d ++ s ≠ [] := by simp [dumpsLine]
  intro ds ds' h
  induction ds generalizing ds' with
  | nil =>
    cases ds' with
    | nil => rfl
    | cons d' ds' => exact absurd h.symm (hne d' _)
  | cons d ds ih =>
    cases ds' with
    | nil => exact absurd h (hne d _)
    | cons d' ds' =>
      obtain ⟨rfl, hrest⟩ := dumpsLine_append_inj h
      exact congrArg (d :: ·) (ih hrest)

end PyData
