/-!
The lines of a text, each of which a line feed ends.
-/
namespace ExportKit.Lines

/-- The lines of a text without the line feeds. What stands after the last line feed is a line too,
unless it is empty. -/
def split : List Char → List (List Char)
  | [] => []
  | c :: rest =>
    if c = '\n' then [] :: split rest
    else
      match split rest with
      | [] => [[c]]
      | line :: lines => (c :: line) :: lines

def join (lines : List (List Char)) : List Char := lines.flatMap (· ++ ['\n'])

@[simp] theorem join_nil : join [] = [] := rfl

@[simp] theorem join_cons (line : List Char) (lines : List (List Char)) :
    join (line :: lines) = line ++ '\n' :: join lines := by
  simp [join]

/-- A line feed ends the line before it. -/
theorem split_append_newline {line : List Char} (h : '\n' ∉ line) (rest : List Char) :
    split (line ++ '\n' :: rest) = line :: split rest := by
  induction line with
  | nil => simp [split]
  | cons c line ih =>
      have hc : c ≠ '\n' := fun hEq => h (hEq ▸ List.mem_cons_self)
      have hLine := ih fun hMem => h (List.mem_cons_of_mem _ hMem)
      simp [split, hc, hLine]

/-- Lines without line feeds are the lines of the text that they make up. -/
theorem split_join_append {lines : List (List Char)} (h : ∀ line ∈ lines, '\n' ∉ line)
    (rest : List Char) : split (join lines ++ rest) = lines ++ split rest := by
  induction lines with
  | nil => rfl
  | cons line lines ih =>
      have hLine := h line List.mem_cons_self
      have hRest := ih fun other hOther => h other (List.mem_cons_of_mem _ hOther)
      rw [join_cons, List.append_assoc, List.cons_append, split_append_newline hLine, hRest,
        List.cons_append]

theorem not_newline_mem_split {text line : List Char} (h : line ∈ split text) : '\n' ∉ line := by
  induction text generalizing line with
  | nil => simp [split] at h
  | cons c text ih =>
      by_cases hc : c = '\n'
      · rw [split, if_pos hc, List.mem_cons] at h
        rcases h with rfl | h
        · simp
        · exact ih h
      · rw [split, if_neg hc] at h
        cases hText : split text with
        | nil =>
            rw [hText, List.mem_singleton] at h
            subst h
            simpa using Ne.symm hc
        | cons first lines =>
            rw [hText, List.mem_cons] at h
            rcases h with rfl | h
            · have hFirst : '\n' ∉ first := ih (hText ▸ List.mem_cons_self)
              simpa [hFirst] using Ne.symm hc
            · exact ih (hText ▸ List.mem_cons_of_mem _ h)

theorem isPrefix_of_split {text line : List Char} {lines : List (List Char)}
    (h : split text = line :: lines) : line <+: text := by
  induction text generalizing line lines with
  | nil => simp [split] at h
  | cons c text ih =>
      by_cases hc : c = '\n'
      · rw [split, if_pos hc, List.cons.injEq] at h
        rw [← h.1]
        exact List.nil_prefix
      · rw [split, if_neg hc] at h
        cases hText : split text with
        | nil =>
            rw [hText, List.cons.injEq] at h
            rw [← h.1]
            exact ⟨text, rfl⟩
        | cons first rest =>
            rw [hText, List.cons.injEq] at h
            rw [← h.1]
            exact (List.prefix_cons_inj c).mpr (ih hText)

/-- A line stands in the text as it is. -/
theorem isInfix_of_mem_split {text line : List Char} (h : line ∈ split text) :
    line <:+: text := by
  induction text with
  | nil => simp [split] at h
  | cons c text ih =>
      by_cases hc : c = '\n'
      · rw [split, if_pos hc, List.mem_cons] at h
        rcases h with rfl | h
        · exact List.nil_infix
        · exact List.infix_cons (ih h)
      · cases hText : split text with
        | nil =>
            have hSplit : split (c :: text) = [[c]] := by rw [split, if_neg hc, hText]
            rw [hSplit, List.mem_singleton] at h
            subst h
            exact (isPrefix_of_split hSplit).isInfix
        | cons first lines =>
            have hSplit : split (c :: text) = (c :: first) :: lines := by
              rw [split, if_neg hc, hText]
            rw [hSplit, List.mem_cons] at h
            rcases h with rfl | h
            · exact (isPrefix_of_split hSplit).isInfix
            · exact List.infix_cons (ih (hText ▸ List.mem_cons_of_mem first h))

/-- A text that ends in a line feed is made up by its lines. -/
theorem join_split (text : List Char) : join (split (text ++ ['\n'])) = text ++ ['\n'] := by
  induction text with
  | nil => rfl
  | cons c text ih =>
      by_cases hc : c = '\n'
      · rw [List.cons_append, split, if_pos hc, join_cons, ih, hc]
        rfl
      · simp only [List.cons_append, split, if_neg hc]
        cases hText : split (text ++ ['\n']) with
        | nil => simp [hText] at ih
        | cons first lines =>
            rw [hText, join_cons] at ih
            rw [join_cons, List.cons_append, ih]

/-- A line feed after the last line changes nothing. -/
theorem split_append_newline_of_getLast? {text : List Char} (hText : text ≠ [])
    (hLast : text.getLast? ≠ some '\n') : split (text ++ ['\n']) = split text := by
  induction text with
  | nil => exact absurd rfl hText
  | cons c text ih =>
      by_cases hEmpty : text = []
      · subst hEmpty
        have hc : c ≠ '\n' := by simpa using hLast
        simp [split, hc]
      · have hRest := ih hEmpty (by rwa [List.getLast?_cons_of_ne_nil hEmpty] at hLast)
        rw [List.cons_append, split, split, hRest]

/-- Lines with line feeds between them and one after the last are the text that they make up. -/
theorem intercalate_append_nil (lines : List (List Char)) :
    ['\n'].intercalate (lines ++ [[]]) = join lines := by
  induction lines with
  | nil => rfl
  | cons line lines ih =>
      have hCons : ['\n'].intercalate (line :: (lines ++ [[]])) =
          line ++ ['\n'] ++ ['\n'].intercalate (lines ++ [[]]) := by
        cases lines <;> simp [List.intercalate]
      rw [List.cons_append, hCons, ih, join_cons, List.append_assoc, List.singleton_append]

end ExportKit.Lines
