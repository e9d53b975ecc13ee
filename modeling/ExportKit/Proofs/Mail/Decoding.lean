import ExportKit.Proofs.Mail.EncodedWords
import Mathlib.Data.List.SplitBy

/-!
Reading encoded words: values that are made of them, and phrases in which they stand among other
words. What was encoded is read back.
-/
namespace ExportKit.Mail.Reading

open Header (fold word encodeWords pieces splitFolds)

variable {p : Char → Prop} [DecidablePred p]

/-- To decide something about the characters of a text the library would go through all characters
there are, and not only those of the text. -/
abbrev decidableForallMem (text : List Char) : Decidable (∀ c ∈ text, p c) :=
  List.decidableBAll p text

abbrev decidableExistsMem (text : List Char) : Decidable (∃ c ∈ text, p c) :=
  List.decidableBEx p text

attribute [local instance] decidableForallMem

/-- The bytes that an encoded word carries. -/
def carried? (word : List Char) : Option (List UInt8) := do
  let rest ← "=?utf-8?b?".toList.isPrefixOf? word
  let digits ← "?=".toList.isSuffixOf? rest
  Base64.decode? digits

/-- The text of a value that is made of encoded words with folds between them. -/
def decodeWords? (value : List Char) : Option (List Char) := do
  let parts ← (splitFolds value).mapM carried?
  Utf8.decode? parts.flatten

def wordText? (word : List Char) : Option (List Char) := (carried? word).bind Utf8.decode?

/-- White space that separates the words of a header. -/
def isGap (c : Char) : Bool := c = ' ' || c = '\t' || c = '\r' || c = '\n'

/-- A text in runs, by turns of white space and of all else. -/
def runs (text : List Char) : List (List Char) := text.splitBy fun a b => isGap a == isGap b

/-- White space between two encoded words does not belong to the text. -/
def dropGaps : List (List Char) → List (List Char)
  | word :: gap :: next :: rest =>
    if (wordText? word).isSome && (wordText? next).isSome then word :: dropGaps (next :: rest)
    else word :: dropGaps (gap :: next :: rest)
  | runs => runs

/-- A phrase with the encoded words in it decoded. -/
def decodePhrase (phrase : List Char) : List Char :=
  (dropGaps (runs phrase)).flatMap fun run => (wordText? run).getD run

/-- A text some part of which is read as an encoded word. -/
def HoldsWord (text : List Char) : Prop := ∃ word, word <:+: text ∧ (wordText? word).isSome

/-! Joined lines. -/

section Joined

variable {separator line : List Char}

theorem head?_intercalate (h : line ≠ []) (lines : List (List Char)) :
    (separator.intercalate (line :: lines)).head? = line.head? := by
  cases lines with
  | nil => rw [List.intercalate_singleton]
  | cons next lines =>
      rw [List.intercalate_cons_cons, List.append_assoc, List.head?_append_of_ne_nil _ h]

theorem getLast?_intercalate (h : line ≠ []) (lines : List (List Char)) :
    (separator.intercalate (lines ++ [line])).getLast? = line.getLast? := by
  induction lines with
  | nil => rw [List.nil_append, List.intercalate_singleton]
  | cons first lines ih =>
      obtain ⟨next, rest, hRest⟩ := List.exists_cons_of_ne_nil
        (List.append_ne_nil_of_right_ne_nil lines (List.cons_ne_nil line []))
      have hNe : separator.intercalate (next :: rest) ≠ [] := by
        intro hNil
        rw [hRest, hNil, List.getLast?_nil, eq_comm, List.getLast?_eq_none_iff] at ih
        exact h ih
      rw [List.cons_append, hRest, List.intercalate_cons_cons,
        List.getLast?_append_of_ne_nil _ hNe, ← hRest, ih]

/-- What holds of the separator and of all lines holds of what they are joined to. -/
theorem forall_mem_intercalate {p : Char → Prop} {lines : List (List Char)}
    (hSeparator : ∀ c ∈ separator, p c) (hLines : ∀ line ∈ lines, ∀ c ∈ line, p c) :
    ∀ c ∈ separator.intercalate lines, p c := by
  induction lines with
  | nil => simp
  | cons line lines ih =>
      obtain ⟨hLine, hRest⟩ := List.forall_mem_cons.mp hLines
      cases lines with
      | nil => rwa [List.intercalate_singleton]
      | cons next lines =>
          rw [List.intercalate_cons_cons]
          exact List.forall_mem_append.mpr
            ⟨List.forall_mem_append.mpr ⟨hLine, hSeparator⟩, ih hRest⟩

end Joined

/-! Words. -/

/-- An encoded word carries the bytes of the piece that it was made of. -/
theorem carried?_word (piece : List Char) : carried? (word piece) = some (Utf8.encode piece) := by
  have hOpening : "=?utf-8?b?".toList.isPrefixOf? (word piece) =
      some (Base64.encode (Utf8.encode piece) ++ "?=".toList) := by
    rw [List.isPrefixOf?_eq_some_iff_append_eq, word, List.append_assoc]
    rfl
  have hClosing : "?=".toList.isSuffixOf? (Base64.encode (Utf8.encode piece) ++ "?=".toList) =
      some (Base64.encode (Utf8.encode piece)) :=
    List.isSuffixOf?_eq_some_iff_append_eq.mpr rfl
  simp only [carried?, hOpening, hClosing, Option.bind_eq_bind, Option.bind_some,
    Base64.decode?_encode]

/-- An encoded word is read as the piece that it was made of. -/
theorem wordText?_word (piece : List Char) : wordText? (word piece) = some piece := by
  rw [wordText?, carried?_word, Option.bind_some, Utf8.decode?_encode]

/-- The characters that encoded words are made of. -/
def wordCharacters : List Char := ['?', '-'] ++ '=' :: Base64.alphabet

theorem mem_wordCharacters {piece : List Char} {c : Char} (h : c ∈ word piece) :
    c ∈ wordCharacters := by
  have hOpening : ∀ c ∈ Header.wordOpening, c ∈ wordCharacters := by decide
  have hClosing : ∀ c ∈ Header.wordClosing, c ∈ wordCharacters := by decide
  rw [word, List.mem_append, List.mem_append] at h
  rcases h with (h | h) | h
  · exact hOpening c h
  · exact List.mem_append_right _ (Base64.mem_alphabet_of_mem_encode h)
  · exact hClosing c h

theorem word_ne_nil (piece : List Char) : word piece ≠ [] := by
  apply List.ne_nil_of_length_pos
  rw [Header.length_word]
  omega

/-- The words of an encoded text are read back as the text. -/
theorem decodeWords?_encodeWords {text : List Char} (h : text ≠ []) :
    decodeWords? (encodeWords text) = some text := by
  have hParts : ((pieces text).map word).mapM carried? = some ((pieces text).map Utf8.encode) := by
    have hEach : carried? ∘ word = fun piece => pure (Utf8.encode piece) := funext carried?_word
    rw [List.mapM_map, hEach, List.mapM_pure]
    rfl
  simp only [decodeWords?, Header.splitFolds_encodeWords h, hParts, Option.bind_eq_bind,
    Option.bind_some, Header.flatten_map_encode, Header.flatten_pieces, Utf8.decode?_encode]

/-! Phrases. -/

theorem flatten_runs (text : List Char) : (runs text).flatten = text := List.flatten_splitBy _ _

/-- Runs of which none is an encoded word are left as they are. -/
theorem dropGaps_eq_self {runs : List (List Char)} (h : ∀ run ∈ runs, wordText? run = none) :
    dropGaps runs = runs := by
  fun_induction dropGaps runs with
  | case1 word gap next rest hWords =>
      rw [h word List.mem_cons_self] at hWords
      simp at hWords
  | case2 word gap next rest _ ih =>
      rw [ih fun run hRun => h run (List.mem_cons_of_mem _ hRun)]
  | case3 => rfl

/-- A phrase without encoded words is read as it stands. -/
theorem decodePhrase_of_runs {phrase : List Char} (h : ∀ run ∈ runs phrase, wordText? run = none) :
    decodePhrase phrase = phrase := by
  have hEach : ∀ run ∈ runs phrase, (wordText? run).getD run = id run := by
    intro run hRun
    rw [h run hRun]
    rfl
  rw [decodePhrase, dropGaps_eq_self h, List.flatMap_def, List.map_congr_left hEach,
    List.map_id, flatten_runs]

/-- A phrase without encoded words is read as it stands. -/
theorem decodePhrase_eq_self {phrase : List Char} (h : ¬HoldsWord phrase) :
    decodePhrase phrase = phrase := by
  apply decodePhrase_of_runs
  intro run hRun
  rw [← Option.not_isSome_iff_eq_none]
  intro hWord
  have hInfix := List.infix_of_mem_flatten hRun
  rw [flatten_runs] at hInfix
  exact h ⟨run, hInfix, hWord⟩

theorem not_isGap_of_mem_word {piece : List Char} {c : Char} (h : c ∈ word piece) :
    isGap c = false := by
  have hAll : ∀ c ∈ wordCharacters, isGap c = false := by decide
  exact hAll c (mem_wordCharacters h)

/-- A text of white space only, or without any, is a single run. -/
theorem runs_eq_singleton {text : List Char} (hNe : text ≠ []) {gap : Bool}
    (h : ∀ c ∈ text, isGap c = gap) : runs text = [text] := by
  apply List.splitBy_of_isChain hNe
  apply List.Pairwise.isChain
  apply List.pairwise_of_forall_mem_list
  intro a ha b hb
  rw [h a ha, h b hb, beq_self_eq_true]

/-- Where white space meets something else one run ends and another begins. -/
theorem runs_append {left right : List Char} (hLeft : left ≠ []) {gap : Bool}
    (h : ∀ c ∈ left, isGap c = gap) (hRight : ∀ c ∈ right.head?, isGap c = !gap) :
    runs (left ++ right) = left :: runs right := by
  have hEnd : ∀ x ∈ left.getLast?, ∀ y ∈ right.head?, (isGap x == isGap y) = false := by
    intro x hx y hy
    rw [h x (List.mem_of_getLast? hx), hRight y hy]
    cases gap <;> rfl
  have hSplit := List.splitBy_append hEnd
  rw [runs, hSplit, ← runs, ← runs, runs_eq_singleton hLeft h, List.singleton_append]

/-- Folded words and the folds between them are runs. -/
theorem runs_intercalate_fold (pieces : List (List Char)) :
    runs (fold.intercalate (pieces.map word)) = (pieces.map word).intersperse fold := by
  induction pieces with
  | nil => rfl
  | cons piece pieces ih =>
      have hWord : ∀ c ∈ word piece, isGap c = false := fun _ => not_isGap_of_mem_word
      cases pieces with
      | nil =>
          rw [List.map_singleton, List.intercalate_singleton,
            runs_eq_singleton (word_ne_nil piece) hWord]
          rfl
      | cons next pieces =>
          have hFoldNe : fold ≠ [] := List.cons_ne_nil _ _
          have hFold : ∀ c ∈ fold, isGap c = true := by decide
          have hNext : ∀ c ∈ (fold.intercalate (word next :: pieces.map word)).head?,
              isGap c = !true := by
            rw [head?_intercalate (word_ne_nil next)]
            exact fun c hc => not_isGap_of_mem_word (List.mem_of_mem_head? hc)
          rw [List.map_cons] at ih
          rw [List.map_cons, List.map_cons, List.intercalate_cons_cons, List.append_assoc,
            runs_append (word_ne_nil piece) hWord (by simp [fold, isGap]),
            runs_append hFoldNe hFold hNext, ih, List.intersperse_cons_cons]

/-- Of encoded words with gaps between them only the words remain. -/
theorem dropGaps_intersperse {words : List (List Char)}
    (h : ∀ word ∈ words, (wordText? word).isSome) (gap : List Char) :
    dropGaps (words.intersperse gap) = words := by
  induction words with
  | nil => rfl
  | cons word words ih =>
      have hWord := h word List.mem_cons_self
      have hRest := ih fun other hOther => h other (List.mem_cons_of_mem _ hOther)
      cases words with
      | nil => rfl
      | cons next words =>
          have hNext := h next (List.mem_cons_of_mem _ List.mem_cons_self)
          cases words with
          | nil => simp [dropGaps, hWord, hNext]
          | cons other words =>
              rw [List.intersperse_cons_cons] at hRest ⊢
              rw [List.intersperse_cons_cons, dropGaps, hWord, hNext, Bool.and_self, if_pos rfl,
                hRest]

/-- The words of an encoded text stand for it in a phrase. -/
theorem decodePhrase_encodeWords (text : List Char) : decodePhrase (encodeWords text) = text := by
  have hWords : ∀ line ∈ (pieces text).map word, (wordText? line).isSome := by
    rw [List.forall_mem_map]
    intro piece _
    rw [wordText?_word]
    rfl
  have hText : (fun piece => (wordText? (word piece)).getD (word piece)) = id := by
    funext piece
    rw [wordText?_word]
    rfl
  rw [decodePhrase, encodeWords, runs_intercalate_fold, dropGaps_intersperse hWords,
    List.flatMap_map, hText, List.flatMap_id, Header.flatten_pieces]

end ExportKit.Mail.Reading
