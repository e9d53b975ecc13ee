import ExportKit.Proofs.Mail.Decoding
import ExportKit.Proofs.Text.Blank

/-!
Lists of recipients: how a reader takes them apart at the commas, and how they may be written. What
is written is read. Main statement: `recipients?_listing`.
-/
namespace ExportKit.Mail

open Header (isPlain)

attribute [local instance] Reading.decidableForallMem

namespace Reading

/-- A text taken apart at a separator. In double quotes it does not separate. -/
def splitUnquoted (separator : Char) : Bool → List Char → List (List Char)
  | _, [] => [[]]
  | quoted, c :: rest =>
    if c = separator ∧ quoted = false then [] :: splitUnquoted separator false rest
    else (splitUnquoted separator (if c = '"' then !quoted else quoted) rest).modifyHead (c :: ·)

/-- What stands in double quotes, if they enclose all of a phrase. -/
def quotation? (phrase : List Char) : Option (List Char) := do
  let rest ← ['"'].isPrefixOf? phrase
  ['"'].isSuffixOf? rest

/-- The name that a phrase gives, in quotes or in words, of which some may be encoded. -/
def nameOf (phrase : List Char) : List Char :=
  let phrase := Blank.trim phrase
  Blank.trim ((quotation? phrase).getD (decodePhrase phrase))

/-- Someone to whom a message goes. -/
structure Recipient where
  name : List Char
  address : List Char
  deriving DecidableEq

/-- The recipient that one part of a list gives: a phrase, an address in angle brackets, and nothing
after it but white space. -/
def recipient? (part : List Char) : Option Recipient :=
  match splitUnquoted '<' false part with
  | [phrase, rest] =>
    match splitUnquoted '>' false rest with
    | [address, after] =>
      if after.all Blank.isBlank then some { name := nameOf phrase, address } else none
    | _ => none
  | _ => none

/-- The recipients in a list with commas between them. -/
def recipients? (value : List Char) : Option (List Recipient) :=
  (splitUnquoted ',' false value).mapM recipient?

/-- The characters that take part in separating, quoting and bracketing. -/
def reserved : List Char := [',', '"', '<', '>']

/-- A text in which a separator stands only in double quotes, each of which is closed. -/
inductive IsFree (separator : Char) : List Char → Prop
  | nil : IsFree separator []
  | cons {c : Char} {rest : List Char} (ne : c ≠ separator ∧ c ≠ '"')
      (free : IsFree separator rest) : IsFree separator (c :: rest)
  | quoted {text rest : List Char} (notMem : '"' ∉ text) (free : IsFree separator rest) :
      IsFree separator ('"' :: (text ++ '"' :: rest))

namespace IsFree

variable {separator : Char} {left right text : List Char}

theorem append (hLeft : IsFree separator left) (hRight : IsFree separator right) :
    IsFree separator (left ++ right) := by
  induction hLeft with
  | nil => exact hRight
  | cons ne _ ih => exact .cons ne ih
  | quoted notMem _ ih =>
      rw [List.cons_append, List.append_assoc, List.cons_append]
      exact .quoted notMem ih

/-- A text may be cut where no quotes follow. -/
theorem of_append (hRight : '"' ∉ right) (h : IsFree separator (left ++ right)) :
    IsFree separator left := by
  generalize hText : left ++ right = text at h
  induction h generalizing left with
  | nil =>
      rw [(List.append_eq_nil_iff.mp hText).1]
      exact .nil
  | cons ne free ih =>
      cases left with
      | nil => exact .nil
      | cons c left =>
          obtain ⟨rfl, hRest⟩ := List.cons.inj hText
          exact .cons ne (ih hRest)
  | @quoted inner rest notMem free ih =>
      cases left with
      | nil => exact .nil
      | cons c left =>
          obtain ⟨rfl, hRest⟩ := List.cons.inj hText
          -- The cut cannot be before the closing quote, which would be to the right of it.
          rcases List.append_eq_append_iff.mp hRest with ⟨cut, -, rfl⟩ | ⟨cut, rfl, hCut⟩
          · exact absurd (List.mem_append_right _ List.mem_cons_self) hRight
          · cases cut with
            | nil =>
                obtain rfl : '"' :: rest = right := hCut
                exact absurd List.mem_cons_self hRight
            | cons d cut =>
                obtain ⟨rfl, hEnd⟩ := List.cons.inj hCut
                exact .quoted notMem (ih hEnd.symm)

/-- A text without the separator and without quotes is not taken apart. -/
theorem of_forall (h : ∀ c ∈ text, c ≠ separator ∧ c ≠ '"') : IsFree separator text := by
  induction text with
  | nil => exact .nil
  | cons c text ih =>
      obtain ⟨hc, hText⟩ := List.forall_mem_cons.mp h
      exact .cons hc (ih hText)

theorem of_not_reserved (hSeparator : separator ∈ reserved) (h : ∀ c ∈ text, c ∉ reserved) :
    IsFree separator text :=
  of_forall fun c hc => ⟨(ne_of_mem_of_not_mem hSeparator (h c hc)).symm,
    (ne_of_mem_of_not_mem (by decide : '"' ∈ reserved) (h c hc)).symm⟩

/-- Within quotes the separator may stand. -/
theorem of_quoted (h : '"' ∉ text) : IsFree separator ('"' :: text ++ ['"']) :=
  .quoted h .nil

end IsFree

/-- In quotes a text is passed over up to the closing quote. -/
theorem splitUnquoted_quoted {separator : Char} {text : List Char} (h : '"' ∉ text)
    (rest : List Char) : splitUnquoted separator true (text ++ '"' :: rest) =
      (splitUnquoted separator false rest).modifyHead (text ++ '"' :: ·) := by
  induction text with
  | nil => simp [splitUnquoted]
  | cons c text ih =>
      obtain ⟨hc, hText⟩ := List.ne_and_not_mem_of_not_mem_cons h
      simp [splitUnquoted, Ne.symm hc, ih hText, List.modifyHead_modifyHead, Function.comp_def]

/-- A text in which the separator is not free stays together. -/
theorem splitUnquoted_append {separator : Char} (hQuote : separator ≠ '"') {text : List Char}
    (h : IsFree separator text) (rest : List Char) : splitUnquoted separator false (text ++ rest) =
      (splitUnquoted separator false rest).modifyHead (text ++ ·) := by
  induction h with
  | nil => exact (congrFun List.modifyHead_id _).symm
  | cons ne _ ih =>
      simp [splitUnquoted, ne, ih, List.modifyHead_modifyHead, Function.comp_def]
  | quoted notMem _ ih =>
      simp [splitUnquoted, Ne.symm hQuote, splitUnquoted_quoted notMem, ih,
        List.modifyHead_modifyHead, Function.comp_def]

/-- A text in which the separator stands only in quotes is a single part. -/
theorem splitUnquoted_eq_singleton {separator : Char} (hQuote : separator ≠ '"')
    {text : List Char} (h : IsFree separator text) :
    splitUnquoted separator false text = [text] := by
  have hSplit := splitUnquoted_append hQuote h []
  rwa [List.append_nil, splitUnquoted, List.modifyHead_cons, List.append_nil] at hSplit

/-- A separator outside of quotes ends the first part. -/
theorem splitUnquoted_append_separator {separator : Char} (hQuote : separator ≠ '"')
    {text : List Char} (h : IsFree separator text) (rest : List Char) :
    splitUnquoted separator false (text ++ separator :: rest) =
      text :: splitUnquoted separator false rest := by
  rw [splitUnquoted_append hQuote h, splitUnquoted, if_pos ⟨rfl, rfl⟩, List.modifyHead_cons,
    List.append_nil]

/-! Names. -/

/-- White space around a phrase does not belong to the name. -/
theorem nameOf_congr {left right : List Char} (h : Blank.trim left = Blank.trim right) :
    nameOf left = nameOf right := by
  rw [nameOf, nameOf, h]

theorem quotation?_quoted (text : List Char) : quotation? ('"' :: text ++ ['"']) = some text := by
  have hOpening : ['"'].isPrefixOf? ('"' :: text ++ ['"']) = some (text ++ ['"']) :=
    List.isPrefixOf?_eq_some_iff_append_eq.mpr rfl
  simp only [quotation?, hOpening, Option.bind_eq_bind, Option.bind_some]
  exact List.isSuffixOf?_eq_some_iff_append_eq.mpr rfl

theorem quotation?_of_head? {phrase : List Char} (h : phrase.head? ≠ some '"') :
    quotation? phrase = none := by
  have hOpening : ['"'].isPrefixOf? phrase = none := by
    cases phrase with
    | nil => rfl
    | cons c rest =>
        have hc : '"' ≠ c := fun hEq => h (by rw [hEq]; rfl)
        simp [List.isPrefixOf?, hc]
  rw [quotation?, hOpening]
  rfl

theorem isTrimmed_quoted (text : List Char) : Blank.IsTrimmed ('"' :: text ++ ['"']) := by
  have hQuote : ¬Blank.isBlank '"' := by decide
  constructor
  · rw [List.cons_append, List.head?_cons]
    simpa using hQuote
  · rw [List.getLast?_concat]
    simpa using hQuote

/-- The name in a quotation is what stands between the quotes. -/
theorem nameOf_quoted (text : List Char) : nameOf ('"' :: text ++ ['"']) = Blank.trim text := by
  rw [nameOf]
  simp only [Blank.trim_eq_self (isTrimmed_quoted text), quotation?_quoted, Option.getD_some]

/-- The name in words is what they decode to. -/
theorem nameOf_of_head? {phrase : List Char} (h : (Blank.trim phrase).head? ≠ some '"') :
    nameOf phrase = Blank.trim (decodePhrase (Blank.trim phrase)) := by
  rw [nameOf]
  simp only [quotation?_of_head? h, Option.getD_none]

theorem head?_ne_of_not_mem {text : List Char} {c : Char} (h : c ∉ text) :
    text.head? ≠ some c :=
  fun hHead => h (List.mem_of_head? hHead)

/-- Trimming a text brings in no encoded word. -/
theorem not_holdsWord_trim {text : List Char} (h : ¬HoldsWord text) :
    ¬HoldsWord (Blank.trim text) := by
  rintro ⟨word, hInfix, hWord⟩
  obtain ⟨left, right, hText, -⟩ := Blank.exists_trim text
  exact h ⟨word, hInfix.trans ⟨left, right, hText.symm⟩, hWord⟩

/-- Words none of which is encoded are a name as they stand. -/
theorem nameOf_of_not_holdsWord {phrase : List Char} (hQuote : '"' ∉ phrase)
    (hWord : ¬HoldsWord phrase) : nameOf phrase = Blank.trim phrase := by
  rw [nameOf_of_head? (head?_ne_of_not_mem fun h => hQuote (Blank.mem_of_mem_trim h)),
    decodePhrase_eq_self (not_holdsWord_trim hWord), Blank.trim_trim]

theorem nameOf_blank_append {left : List Char} (h : ∀ c ∈ left, Blank.isBlank c)
    (phrase : List Char) : nameOf (left ++ phrase) = nameOf phrase := by
  apply nameOf_congr
  have hTrim := Blank.trim_append h (List.forall_mem_nil _) phrase
  rwa [List.append_nil] at hTrim

theorem nameOf_append_blank {right : List Char} (h : ∀ c ∈ right, Blank.isBlank c)
    (phrase : List Char) : nameOf (phrase ++ right) = nameOf phrase :=
  nameOf_congr (Blank.trim_append (List.forall_mem_nil _) h phrase)

/-! Recipients. -/

theorem not_reserved_of_isBlank {c : Char} (h : Blank.isBlank c) : c ∉ reserved := by
  have hReserved : ∀ c ∈ reserved, ¬Blank.isBlank c := by decide
  exact fun hMem => hReserved c hMem h

def bracketed (address : List Char) : List Char := '<' :: address ++ ['>']

theorem isFree_comma_bracketed {address : List Char} (h : ∀ c ∈ address, c ∉ reserved) :
    IsFree ',' (bracketed address) := by
  have hBody : IsFree ',' (address ++ ['>']) :=
    (IsFree.of_not_reserved (by decide) h).append (.cons (by decide) .nil)
  exact .cons (by decide) hBody

/-- What is read from a part is the name in its phrase and the address in its brackets. -/
theorem recipient?_bracketed {phrase address after : List Char} (hPhrase : IsFree '<' phrase)
    (hAddress : ∀ c ∈ address, c ∉ reserved) (hAfter : ∀ c ∈ after, Blank.isBlank c) :
    recipient? (phrase ++ bracketed address ++ after) =
      some { name := nameOf phrase, address } := by
  have hFree {separator : Char} (h : separator ∈ reserved) : IsFree separator after :=
    .of_not_reserved h fun c hc => not_reserved_of_isBlank (hAfter c hc)
  have hRest : IsFree '<' (address ++ '>' :: after) :=
    (IsFree.of_not_reserved (by decide) hAddress).append (.cons (by decide) (hFree (by decide)))
  have hInner : IsFree '>' address := .of_not_reserved (by decide) hAddress
  have hEnd : IsFree '>' after := hFree (by decide)
  have hText : phrase ++ bracketed address ++ after =
      phrase ++ '<' :: (address ++ '>' :: after) := by
    simp [bracketed]
  simp only [recipient?, hText, splitUnquoted_append_separator (by decide) hPhrase,
    splitUnquoted_eq_singleton (by decide) hRest, splitUnquoted_append_separator (by decide) hInner,
    splitUnquoted_eq_singleton (by decide) hEnd, List.all_eq_true.mpr hAfter, if_true]

end Reading

open Reading

/-! Lists as they may be written. -/

def IsControl (c : Char) : Prop := c.toNat < 32 ∨ c.toNat = 127

instance (c : Char) : Decidable (IsControl c) := inferInstanceAs (Decidable (_ ∨ _))

/-- The name of a recipient as it may be written. -/
inductive Phrase where
  | bare (text : List Char) (allowed : ∀ c ∈ text, c ∉ reserved ∧ ¬IsControl c)
  | quoted (text : List Char) (allowed : ∀ c ∈ text, c ≠ '"' ∧ c ≠ '\\' ∧ ¬IsControl c)

namespace Phrase

def text : Phrase → List Char
  | bare text _ => text
  | quoted text _ => '"' :: text ++ ['"']

def name : Phrase → List Char
  | bare text _ => Blank.trim (decodePhrase (Blank.trim text))
  | quoted text _ => Blank.trim text

/-- The name of a phrase is read from its text. -/
theorem nameOf_text (phrase : Phrase) : nameOf phrase.text = phrase.name := by
  cases phrase with
  | bare text allowed =>
      have hQuote : '"' ∉ text := fun hMem => (allowed _ hMem).1 (by decide)
      exact nameOf_of_head? (head?_ne_of_not_mem fun h => hQuote (Blank.mem_of_mem_trim h))
  | quoted text _ => exact nameOf_quoted text

/-- A phrase holds separators only in quotes. -/
theorem isFree_text (phrase : Phrase) {separator : Char} (h : separator ∈ reserved) :
    IsFree separator phrase.text := by
  cases phrase with
  | bare text allowed => exact .of_not_reserved h fun c hc => (allowed c hc).1
  | quoted text allowed => exact .of_quoted fun hMem => (allowed _ hMem).1 rfl

end Phrase

/-- A recipient as it may be written in a list: a name, which may be empty, and an address in angle
brackets, with white space around them. -/
structure Mailbox where
  left : List Char
  phrase : Phrase
  gap : List Char
  address : List Char
  right : List Char
  left_blank : ∀ c ∈ left, Blank.isBlank c
  gap_blank : ∀ c ∈ gap, Blank.isBlank c
  address_allowed : ∀ c ∈ address, c ∉ reserved ∧ isPlain c ∧ c ≠ ' '
  right_blank : ∀ c ∈ right, Blank.isBlank c

namespace Mailbox

def lead (mailbox : Mailbox) : List Char := mailbox.left ++ mailbox.phrase.text ++ mailbox.gap

def text (mailbox : Mailbox) : List Char :=
  mailbox.lead ++ bracketed mailbox.address ++ mailbox.right

def recipient (mailbox : Mailbox) : Recipient where
  name := mailbox.phrase.name
  address := mailbox.address

variable (mailbox : Mailbox)

theorem address_not_reserved : ∀ c ∈ mailbox.address, c ∉ reserved :=
  fun c hc => (mailbox.address_allowed c hc).1

/-- The name of a recipient is read from the text before the address. -/
theorem nameOf_lead : nameOf mailbox.lead = mailbox.phrase.name := by
  rw [← mailbox.phrase.nameOf_text]
  exact nameOf_congr (Blank.trim_append mailbox.left_blank mailbox.gap_blank _)

theorem isFree_lead {separator : Char} (h : separator ∈ reserved) :
    IsFree separator mailbox.lead := by
  have hBlank {text : List Char} (hText : ∀ c ∈ text, Blank.isBlank c) : IsFree separator text :=
    .of_not_reserved h fun c hc => not_reserved_of_isBlank (hText c hc)
  exact ((hBlank mailbox.left_blank).append (mailbox.phrase.isFree_text h)).append
    (hBlank mailbox.gap_blank)

/-- A recipient holds commas only in quotes. -/
theorem isFree_text : IsFree ',' mailbox.text := by
  have hRight : IsFree ',' mailbox.right :=
    .of_not_reserved (by decide) fun c hc => not_reserved_of_isBlank (mailbox.right_blank c hc)
  exact ((mailbox.isFree_lead (by decide)).append
    (isFree_comma_bracketed mailbox.address_not_reserved)).append hRight

/-- A recipient is read back from its text. -/
theorem recipient?_text : recipient? mailbox.text = some mailbox.recipient := by
  rw [text, recipient?_bracketed (mailbox.isFree_lead (by decide)) mailbox.address_not_reserved
    mailbox.right_blank, nameOf_lead]
  rfl

end Mailbox

/-- Recipients with a comma after each. -/
def separated (mailboxes : List Mailbox) : List Char :=
  mailboxes.flatMap fun mailbox => mailbox.text ++ [',']

/-- A list of recipients, of which there is at least one. -/
def listing (earlier : List Mailbox) (last : Mailbox) : List Char :=
  separated earlier ++ last.text

/-- Recipients that are written one after the other are read one after the other. -/
theorem recipients?_append (earlier : List Mailbox) {part : List Char} (h : IsFree ',' part) :
    recipients? (separated earlier ++ part) =
      (recipient? part).map fun last => earlier.map Mailbox.recipient ++ [last] := by
  induction earlier with
  | nil =>
      rw [recipients?, separated, List.flatMap_nil, List.nil_append,
        splitUnquoted_eq_singleton (by decide) h]
      cases hPart : recipient? part <;> simp [hPart]
  | cons mailbox earlier ih =>
      have hText : separated (mailbox :: earlier) ++ part =
          mailbox.text ++ ',' :: (separated earlier ++ part) := by
        simp [separated]
      rw [recipients?] at ih ⊢
      rw [hText, splitUnquoted_append_separator (by decide) mailbox.isFree_text, List.mapM_cons,
        ih, mailbox.recipient?_text]
      cases recipient? part <;> rfl

/-- The recipients that are written in a list are read from it. -/
theorem recipients?_listing (earlier : List Mailbox) (last : Mailbox) :
    recipients? (listing earlier last) = some ((earlier ++ [last]).map Mailbox.recipient) := by
  rw [listing, recipients?_append earlier last.isFree_text, last.recipient?_text, Option.map_some,
    List.map_append, List.map_singleton]

/-- White space before a recipient makes no difference. -/
theorem recipient?_blank_append {left : List Char} (h : ∀ c ∈ left, Blank.isBlank c)
    (part : List Char) : recipient? (left ++ part) = recipient? part := by
  have hFree : IsFree '<' left :=
    .of_not_reserved (by decide) fun c hc => not_reserved_of_isBlank (h c hc)
  rw [recipient?, recipient?, splitUnquoted_append (by decide) hFree]
  cases splitUnquoted '<' false part with
  | nil => rfl
  | cons phrase rest =>
      rcases rest with _ | ⟨rest, _ | _⟩
      · rfl
      · simp only [List.modifyHead_cons, nameOf_blank_append h]
      · rfl

/-- White space before a list is not read. -/
theorem recipients?_blank_append {left : List Char} (h : ∀ c ∈ left, Blank.isBlank c)
    (value : List Char) : recipients? (left ++ value) = recipients? value := by
  have hFree : IsFree ',' left :=
    .of_not_reserved (by decide) fun c hc => not_reserved_of_isBlank (h c hc)
  rw [recipients?, recipients?, splitUnquoted_append (by decide) hFree]
  cases splitUnquoted ',' false value with
  | nil => rfl
  | cons part parts =>
      rw [List.modifyHead_cons, List.mapM_cons, List.mapM_cons, recipient?_blank_append h]

end ExportKit.Mail
