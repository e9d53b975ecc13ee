import ExportKit.Proofs.Mail.Address
import ExportKit.Proofs.Mail.Recipients

/-!
Lists of recipients as address values. All that stands before the last address is taken for one
display name, so a list keeps its recipients if it has only one, or if nothing but the white space
around that text has to be encoded. Main statement: `recipients_of_encode`.
-/
namespace ExportKit.Mail.Address

open Header (IsForeign encodeWords needsEncoding_iff not_isForeign_of_isPlain)
open Reading

attribute [local instance] decidableForallMem decidableExistsMem

def leadText (earlier : List Mailbox) (last : Mailbox) : List Char := separated earlier ++ last.lead

theorem listing_eq (earlier : List Mailbox) (last : Mailbox) : listing earlier last =
    leadText earlier last ++ bracketed last.address ++ last.right := by
  simp [listing, leadText, Mailbox.text]

/-- A list ends in the address of its last recipient. -/
theorem endsIn_listing (earlier : List Mailbox) (last : Mailbox) :
    EndsIn (listing earlier last) (leadText earlier last) (bracketed last.address) := by
  refine ⟨last.address, last.right, rfl, ?_, last.right_blank, listing_eq earlier last⟩
  exact fun hMem => last.address_not_reserved _ hMem (by decide)

/-- The address of a recipient needs no encoding. -/
theorem not_isForeign_bracketed (mailbox : Mailbox) :
    ∀ c ∈ bracketed mailbox.address, ¬IsForeign c := by
  intro c hc
  apply not_isForeign_of_isPlain
  rw [bracketed, List.mem_append, List.mem_cons, List.mem_singleton] at hc
  rcases hc with (rfl | hc) | rfl
  · decide
  · exact (mailbox.address_allowed c hc).2.1
  · decide

/-- However many recipients a list has, only the last address is taken for one. -/
theorem encode_listing {earlier : List Mailbox} {last : Mailbox}
    (h : ∃ c ∈ listing earlier last, IsForeign c) :
    encode (listing earlier last) = if displayName (leadText earlier last) = []
      then bracketed last.address
      else Header.encode (displayName (leadText earlier last)) ++ ' ' :: bracketed last.address :=
  encode_of_endsIn h (endsIn_listing earlier last) (not_isForeign_bracketed last)

/-! Names that are encoded. -/

theorem not_isBlank_of_mem_word {piece : List Char} {c : Char} (h : c ∈ Header.word piece) :
    ¬Blank.isBlank c := by
  have hAll : ∀ c ∈ wordCharacters, ¬Blank.isBlank c := by decide +kernel
  exact hAll c (mem_wordCharacters h)

/-- Encoded words neither begin nor end with white space. -/
theorem isTrimmed_encodeWords {text : List Char} (h : text ≠ []) :
    Blank.IsTrimmed (encodeWords text) := by
  have hPieces := Header.pieces_ne_nil h
  constructor
  · obtain ⟨piece, rest, hHead⟩ := List.exists_cons_of_ne_nil hPieces
    rw [encodeWords, hHead, List.map_cons, head?_intercalate (word_ne_nil piece)]
    exact fun c hc => not_isBlank_of_mem_word (List.mem_of_mem_head? hc)
  · obtain ⟨rest, piece, hLast⟩ :=
      (List.eq_nil_or_concat' (Header.pieces text)).resolve_left hPieces
    rw [encodeWords, hLast, List.map_append, List.map_singleton,
      getLast?_intercalate (word_ne_nil piece)]
    exact fun c hc => not_isBlank_of_mem_word (List.mem_of_getLast? hc)

/-- Encoded words hold no separators, quotes or brackets. -/
theorem not_reserved_of_mem_encodeWords (text : List Char) :
    ∀ c ∈ encodeWords text, c ∉ reserved := by
  have hFold : ∀ c ∈ Header.fold, c ∉ reserved := by decide
  have hWord : ∀ c ∈ wordCharacters, c ∉ reserved := by decide +kernel
  apply forall_mem_intercalate hFold
  rw [List.forall_mem_map]
  exact fun piece _ c hc => hWord c (mem_wordCharacters hc)

/-- Encoded words give the name that they carry. -/
theorem nameOf_encodeWords {text : List Char} (h : text ≠ []) :
    nameOf (encodeWords text) = Blank.trim text := by
  have hTrim := Blank.trim_eq_self (isTrimmed_encodeWords h)
  have hQuote : (Blank.trim (encodeWords text)).head? ≠ some '"' := by
    rw [hTrim]
    apply head?_ne_of_not_mem
    exact fun hMem => not_reserved_of_mem_encodeWords text _ hMem (by decide)
  rw [nameOf_of_head? hQuote, hTrim, decodePhrase_encodeWords]

/-- The last part of a list is read whatever its phrase is, as long as it stays together. -/
theorem recipients?_bracketed (earlier : List Mailbox) (last : Mailbox) {phrase : List Char}
    (hComma : IsFree ',' phrase) (hOpening : IsFree '<' phrase) :
    recipients? (separated earlier ++ (phrase ++ ' ' :: bracketed last.address)) =
      some (earlier.map Mailbox.recipient ++
        [{ name := nameOf phrase, address := last.address }]) := by
  have hSpace : ∀ c ∈ [' '], Blank.isBlank c := by decide
  have hText : phrase ++ ' ' :: bracketed last.address =
      phrase ++ [' '] ++ bracketed last.address ++ [] := by simp
  have hPart : IsFree ',' (phrase ++ [' '] ++ bracketed last.address ++ []) :=
    ((hComma.append (.cons (by decide) .nil)).append
      (isFree_comma_bracketed last.address_not_reserved)).append .nil
  have hPhrase : IsFree '<' (phrase ++ [' ']) := hOpening.append (.cons (by decide) .nil)
  rw [hText, recipients?_append earlier hPart, recipient?_bracketed hPhrase
    last.address_not_reserved (by simp), nameOf_append_blank hSpace, Option.map_some]

/-! Lists. -/

variable {earlier : List Mailbox} {last : Mailbox}

/-- What the encoder looks at is a part of the list. -/
theorem exists_isForeign_listing (h : ∃ c ∈ Blank.trim (leadText earlier last), IsForeign c) :
    ∃ c ∈ listing earlier last, IsForeign c := by
  obtain ⟨c, hc, hForeign⟩ := h
  refine ⟨c, ?_, hForeign⟩
  rw [listing_eq]
  exact List.mem_append_left _ (List.mem_append_left _ (Blank.mem_of_mem_trim hc))

/-- Quotes are not among the characters for which a name has to be encoded. -/
theorem exists_isForeign_displayName {text : List Char}
    (h : ∃ c ∈ Blank.trim text, IsForeign c) : ∃ c ∈ displayName text, IsForeign c := by
  obtain ⟨c, hc, hForeign⟩ := h
  refine ⟨c, ?_, hForeign⟩
  by_cases hQuoted : ∃ inner, Blank.trim text = '"' :: inner ++ ['"']
  · obtain ⟨inner, hShown⟩ := hQuoted
    have hQuote : c ≠ '"' := by
      rintro rfl
      exact absurd hForeign (not_isForeign_of_isPlain (by decide))
    rw [displayName, hShown, unquote_quoted]
    rw [hShown] at hc
    simpa [hQuote] using hc
  · rw [displayName, unquote_eq_self (not_exists.mp hQuoted)]
    exact hc

/-- If something other than white space before the last address has to be encoded, there is only one
recipient left, and all that stands there is the name. -/
theorem recipients?_encode_of_isForeign
    (h : ∃ c ∈ Blank.trim (leadText earlier last), IsForeign c) :
    recipients? (encode (listing earlier last)) = some
      [{ name := Blank.trim (displayName (leadText earlier last)), address := last.address }] := by
  have hForeign := exists_isForeign_displayName h
  have hName := ne_nil_of_isForeign hForeign
  have hFree {separator : Char} (hSeparator : separator ∈ reserved) :
      IsFree separator (encodeWords (displayName (leadText earlier last))) :=
    .of_not_reserved hSeparator (not_reserved_of_mem_encodeWords _)
  have hRead := recipients?_bracketed [] last (hFree (by decide)) (hFree (by decide))
  rw [nameOf_encodeWords hName] at hRead
  rw [encode_listing (exists_isForeign_listing h), if_neg hName,
    Header.encode_of_isForeign hForeign]
  exact hRead

/-- A space before the address does not matter, so it may also be put before an address alone. -/
theorem recipients?_encode_of_plain_name (hForeign : ∃ c ∈ listing earlier last, IsForeign c)
    (hPlain : ¬∃ c ∈ displayName (leadText earlier last), IsForeign c) :
    recipients? (encode (listing earlier last)) =
      recipients? (displayName (leadText earlier last) ++ ' ' :: bracketed last.address) := by
  rw [encode_listing hForeign, Header.encode_of_not_isForeign hPlain]
  split
  next hEmpty =>
    have hSpace : ∀ c ∈ [' '], Blank.isBlank c := by decide
    rw [hEmpty]
    exact (recipients?_blank_append hSpace _).symm
  next => rfl

/-- White space before a comma is not trailing, so trimming reaches only what follows the last
comma. -/
theorem trimEnd_separated_append (earlier : List Mailbox) (text : List Char) :
    Blank.trimEnd (separated earlier ++ text) = separated earlier ++ Blank.trimEnd text := by
  have hEnd : Blank.trimEnd (separated earlier) = separated earlier := by
    rcases List.eq_nil_or_concat' earlier with rfl | ⟨rest, mailbox, rfl⟩
    · rfl
    · have hText : separated (rest ++ [mailbox]) = separated rest ++ mailbox.text ++ [','] := by
        simp [separated]
      rw [hText, Blank.trimEnd_concat (by decide)]
  rw [Blank.trimEnd_append]
  split
  next hText => rw [hText, hEnd, List.append_nil]
  next => rfl

/-- Trimming a phrase does not take it apart. -/
theorem isFree_trimEnd_lead (mailbox : Mailbox) {separator : Char}
    (hSeparator : separator ∈ reserved) : IsFree separator (Blank.trimEnd mailbox.lead) := by
  obtain ⟨right, hText, hRight⟩ := Blank.exists_trimEnd mailbox.lead
  have hQuote : '"' ∉ right := fun hMem => absurd (hRight _ hMem) (by decide)
  exact .of_append hQuote (hText ▸ mailbox.isFree_lead hSeparator)

/-- Trailing white space does not belong to a name. -/
theorem nameOf_trimEnd (text : List Char) : nameOf (Blank.trimEnd text) = nameOf text := by
  obtain ⟨right, hText, hRight⟩ := Blank.exists_trimEnd text
  rw [← nameOf_append_blank hRight, ← hText]

/-- If nothing but white space has to be encoded, all recipients are kept, unless the text before
the last address begins and ends with a quote. -/
theorem recipients?_encode_of_plain (hForeign : ∃ c ∈ listing earlier last, IsForeign c)
    (hPlain : ¬∃ c ∈ Blank.trim (leadText earlier last), IsForeign c)
    (hQuote : ∀ inner, Blank.trim (leadText earlier last) ≠ '"' :: inner ++ ['"']) :
    recipients? (encode (listing earlier last)) = recipients? (listing earlier last) := by
  have hName : displayName (leadText earlier last) = Blank.trim (leadText earlier last) := by
    rw [displayName, unquote_eq_self hQuote]
  obtain ⟨left, hTrim, hLeft⟩ := Blank.exists_trimEnd_eq_append (leadText earlier last)
  have hLead : left ++ Blank.trim (leadText earlier last) =
      separated earlier ++ Blank.trimEnd last.lead := by
    rw [← hTrim, leadText, trimEnd_separated_append]
  calc recipients? (encode (listing earlier last))
      = recipients? (Blank.trim (leadText earlier last) ++ ' ' :: bracketed last.address) := by
        rw [recipients?_encode_of_plain_name hForeign (hName ▸ hPlain), hName]
    _ = recipients? (separated earlier ++
          (Blank.trimEnd last.lead ++ ' ' :: bracketed last.address)) := by
        rw [← recipients?_blank_append hLeft, ← List.append_assoc, hLead, List.append_assoc]
    _ = some ((earlier ++ [last]).map Mailbox.recipient) := by
        rw [recipients?_bracketed earlier last (isFree_trimEnd_lead last (by decide))
          (isFree_trimEnd_lead last (by decide)), nameOf_trimEnd, last.nameOf_lead,
          List.map_append, List.map_singleton]
        rfl
    _ = recipients? (listing earlier last) := (recipients?_listing earlier last).symm

/-! One recipient. -/

/-- A name that a reader finds whether or not it is encoded. -/
def Survives : Phrase → Prop
  | .bare text _ => ¬HoldsWord text
  | .quoted text _ =>
    (∃ c ∈ text, IsForeign c) ∨ (∀ c ∈ text, c ≠ ',' ∧ c ≠ '<') ∧ ¬HoldsWord text

/-- Before the only recipient of a list stands just the name. -/
theorem trim_leadText_nil (last : Mailbox) :
    Blank.trim (leadText [] last) = Blank.trim last.phrase.text :=
  Blank.trim_append last.left_blank last.gap_blank _

/-- A name without quotes is taken as it is, so it is kept if the reader takes it so too. -/
theorem recipients?_encode_of_bare {text : List Char}
    {allowed : ∀ c ∈ text, c ∉ reserved ∧ ¬IsControl c} (hPhrase : last.phrase = .bare text allowed)
    (hWord : ¬HoldsWord text) (hForeign : ∃ c ∈ listing [] last, IsForeign c) :
    recipients? (encode (listing [] last)) = recipients? (listing [] last) := by
  have hTrim : Blank.trim (leadText [] last) = Blank.trim text := by
    rw [trim_leadText_nil, hPhrase, Phrase.text]
  have hQuote : ∀ inner, Blank.trim (leadText [] last) ≠ '"' :: inner ++ ['"'] := by
    intro inner hEq
    have hMem : '"' ∈ Blank.trim text := by simp [← hTrim, hEq]
    exact (allowed _ (Blank.mem_of_mem_trim hMem)).1 (by decide)
  by_cases hName : ∃ c ∈ Blank.trim (leadText [] last), IsForeign c
  · have hRecipient : last.recipient = { name := Blank.trim text, address := last.address } := by
      rw [Mailbox.recipient, hPhrase, Phrase.name, decodePhrase_eq_self (not_holdsWord_trim hWord),
        Blank.trim_trim]
    rw [recipients?_encode_of_isForeign hName, recipients?_listing, displayName,
      unquote_eq_self hQuote, hTrim, Blank.trim_trim, List.nil_append, List.map_singleton,
      hRecipient]
  · exact recipients?_encode_of_plain hForeign hName hQuote

/-- A quoted name that has to be encoded is read back from the words in its place. -/
theorem recipients?_encode_of_quoted {text : List Char}
    {allowed : ∀ c ∈ text, c ≠ '"' ∧ c ≠ '\\' ∧ ¬IsControl c}
    (hPhrase : last.phrase = .quoted text allowed) (hSurvives : Survives last.phrase)
    (hForeign : ∃ c ∈ listing [] last, IsForeign c) :
    recipients? (encode (listing [] last)) = recipients? (listing [] last) := by
  have hTrim : Blank.trim (leadText [] last) = '"' :: text ++ ['"'] := by
    rw [trim_leadText_nil, hPhrase, Phrase.text, Blank.trim_eq_self (isTrimmed_quoted text)]
  have hName : displayName (leadText [] last) = text := by
    rw [displayName, hTrim, unquote_quoted]
  have hRecipient : last.recipient = { name := Blank.trim text, address := last.address } := by
    rw [Mailbox.recipient, hPhrase, Phrase.name]
  rw [recipients?_listing, List.nil_append, List.map_singleton, hRecipient]
  by_cases hText : ∃ c ∈ text, IsForeign c
  · have hLead : ∃ c ∈ Blank.trim (leadText [] last), IsForeign c := by
      obtain ⟨c, hc, hBad⟩ := hText
      exact ⟨c, by simp [hTrim, hc], hBad⟩
    rw [recipients?_encode_of_isForeign hLead, hName]
  · rw [hPhrase, Survives] at hSurvives
    obtain ⟨hPlain, hWord⟩ := hSurvives.resolve_left hText
    have hQuote : '"' ∉ text := fun hMem => (allowed _ hMem).1 rfl
    have hComma : IsFree ',' text :=
      .of_forall fun c hc => ⟨(hPlain c hc).1, (allowed c hc).1⟩
    have hOpening : IsFree '<' text :=
      .of_forall fun c hc => ⟨(hPlain c hc).2, (allowed c hc).1⟩
    rw [recipients?_encode_of_plain_name hForeign (hName ▸ hText), hName,
      ← nameOf_of_not_holdsWord hQuote hWord]
    exact recipients?_bracketed [] last hComma hOpening

/-- A list that needs no encoding is not changed. Any other keeps only the last address as one, and
all before it is taken for one display name. If more than white space around that text has to be
encoded, one recipient of that name is left; if not, the recipients are kept, unless the text is
enclosed in quotes. One recipient is always kept if the name is found as it is written. -/
theorem recipients_of_encode (earlier : List Mailbox) (last : Mailbox) :
    recipients? (listing earlier last) = some ((earlier ++ [last]).map Mailbox.recipient) ∧
      ((¬∃ c ∈ listing earlier last, IsForeign c) →
        encode (listing earlier last) = listing earlier last) ∧
      ((∃ c ∈ Blank.trim (leadText earlier last), IsForeign c) →
        ∃ name, Names (leadText earlier last) name ∧
          recipients? (encode (listing earlier last)) =
            some [{ name := Blank.trim name, address := last.address }]) ∧
      ((¬∃ c ∈ Blank.trim (leadText earlier last), IsForeign c) →
        (∀ inner, Blank.trim (leadText earlier last) ≠ '"' :: inner ++ ['"']) →
        recipients? (encode (listing earlier last)) = recipients? (listing earlier last)) ∧
      (earlier = [] → Survives last.phrase →
        recipients? (encode (listing earlier last)) = recipients? (listing earlier last)) := by
  refine ⟨recipients?_listing earlier last, encode_of_plain, ?_, ?_, ?_⟩
  · intro hName
    exact ⟨_, names_displayName _, recipients?_encode_of_isForeign hName⟩
  · intro hPlain hQuote
    by_cases hForeign : ∃ c ∈ listing earlier last, IsForeign c
    · exact recipients?_encode_of_plain hForeign hPlain hQuote
    · rw [encode_of_plain hForeign]
  · rintro rfl hSurvives
    by_cases hForeign : ∃ c ∈ listing [] last, IsForeign c
    · cases hPhrase : last.phrase with
      | bare text allowed =>
          rw [hPhrase, Survives] at hSurvives
          exact recipients?_encode_of_bare hPhrase hSurvives hForeign
      | quoted text allowed => exact recipients?_encode_of_quoted hPhrase hSurvives hForeign
    · rw [encode_of_plain hForeign]

/-! Recipients that are kept or not. -/

/-- A name in quotes that has to be encoded. -/
def mueller : Mailbox :=
  ⟨[], .quoted "Müller, Jörg".toList (by decide), [' '], "j@x".toList, [], by decide, by decide,
    by decide, by decide⟩

/-- A name that need not be encoded, after a space. -/
def ann : Mailbox :=
  ⟨[' '], .bare "Ann".toList (by decide), [' '], "a@x".toList, [], by decide, by decide, by decide,
    by decide⟩

/-- A name in quotes that need not be encoded, but the white space after it has to be. -/
def smith : Mailbox :=
  ⟨[], .quoted "Smith, John".toList (by decide), ['\u00a0'], "s@x".toList, [], by decide, by decide,
    by decide, by decide⟩

/-- A name of an encoded word and a word that has to be encoded. -/
def mixed : Mailbox :=
  ⟨[], .bare "=?utf-8?b?QQ==?= ü".toList (by decide), [' '], "u@x".toList, [], by decide, by decide,
    by decide, by decide⟩

theorem name_mixed : mixed.recipient.name = "A ü".toList := by
  have hText : "=?utf-8?b?QQ==?= ü".toList = Header.word ['A'] ++ ([' '] ++ ['ü']) := by decide
  have hWord : ∀ c ∈ Header.word ['A'], isGap c = false := fun _ => not_isGap_of_mem_word
  have hSpace : ∀ c ∈ [' '], isGap c = true := by decide
  have hRuns : runs "=?utf-8?b?QQ==?= ü".toList = [Header.word ['A'], [' '], ['ü']] := by
    rw [hText, runs_append (word_ne_nil _) hWord (by rintro _ ⟨⟩; rfl),
      runs_append (List.cons_ne_nil _ _) hSpace (by rintro _ ⟨⟩; rfl)]
    rfl
  have hGap : wordText? [' '] = none := rfl
  have hLast : wordText? ['ü'] = none := rfl
  have hName : decodePhrase "=?utf-8?b?QQ==?= ü".toList = "A ü".toList := by
    rw [decodePhrase, hRuns]
    simp [dropGaps, hGap, hLast, wordText?_word]
  have hTrim : Blank.trim "=?utf-8?b?QQ==?= ü".toList = "=?utf-8?b?QQ==?= ü".toList := by decide
  rw [Mailbox.recipient, mixed, Phrase.name, hTrim, hName]
  decide

/-- The recipients are not always kept: two become one if a name before the last has to be encoded,
a name is cut at its comma if it loses its quotes and needs no encoding, and what an encoded word
says is lost if it is encoded again. -/
theorem not_recipients_of_encode :
    recipients? (encode (listing [mueller] ann)) ≠ recipients? (listing [mueller] ann) ∧
      recipients? (encode (listing [] smith)) ≠ recipients? (listing [] smith) ∧
      recipients? (encode (listing [] mixed)) ≠ recipients? (listing [] mixed) := by
  refine ⟨?_, ?_, ?_⟩
  · have hForeign : ∃ c ∈ Blank.trim (leadText [mueller] ann), IsForeign c := by decide
    rw [recipients?_encode_of_isForeign hForeign, recipients?_listing]
    simp
  · have hNone : recipients? (encode (listing [] smith)) = none := by decide
    rw [hNone, recipients?_listing]
    simp
  · have hForeign : ∃ c ∈ Blank.trim (leadText [] mixed), IsForeign c := by decide
    have hName : Blank.trim (displayName (leadText [] mixed)) ≠ mixed.recipient.name := by
      rw [name_mixed]
      decide
    rw [recipients?_encode_of_isForeign hForeign, recipients?_listing]
    exact fun hEq => hName (by simpa using congrArg (·.map (·.map Recipient.name)) hEq)

/-- Of two recipients one is left if the first has to be encoded, both if none has to be, and one
recipient alone is kept in either case. -/
theorem recipients_of_encode_mueller :
    listing [mueller] ann = "\"Müller, Jörg\" <j@x>, Ann <a@x>".toList ∧
      recipients? (listing [mueller] ann) = some [mueller.recipient, ann.recipient] ∧
      recipients? (encode (listing [mueller] ann)) =
        some [{ name := "\"Müller, Jörg\" <j@x>, Ann".toList, address := "a@x".toList }] ∧
      recipients? (encode (listing [ann] smith)) = some [ann.recipient, smith.recipient] ∧
      recipients? (encode (listing [] mueller)) = some [mueller.recipient] ∧
      encode (listing [] ann) = listing [] ann := by
  have hForeign : ∃ c ∈ Blank.trim (leadText [mueller] ann), IsForeign c := by decide
  obtain ⟨name, hNames, hJoined⟩ := (recipients_of_encode [mueller] ann).2.2.1 hForeign
  have hName : Blank.trim name = "\"Müller, Jörg\" <j@x>, Ann".toList := by
    rw [eq_displayName_of_names hNames]
    decide
  rw [hName] at hJoined
  have hPlain : ¬∃ c ∈ Blank.trim (leadText [ann] smith), IsForeign c := by decide
  have hQuote : ∀ inner, Blank.trim (leadText [ann] smith) ≠ '"' :: inner ++ ['"'] := by
    intro inner hEq
    have hHead : (Blank.trim (leadText [ann] smith)).head? = some '"' := by simp [hEq]
    exact absurd hHead (by decide)
  have hKept := (recipients_of_encode [ann] smith).2.2.2.1 hPlain hQuote
  rw [(recipients_of_encode [ann] smith).1] at hKept
  have hSurvives : Survives mueller.phrase := .inl (by decide)
  have hSingle := (recipients_of_encode [] mueller).2.2.2.2 rfl hSurvives
  rw [(recipients_of_encode [] mueller).1] at hSingle
  have hAscii : ¬∃ c ∈ listing [] ann, IsForeign c := by decide
  exact ⟨by decide, (recipients_of_encode [mueller] ann).1, hJoined, hKept, hSingle,
    (recipients_of_encode [] ann).2.1 hAscii⟩

end ExportKit.Mail.Address
