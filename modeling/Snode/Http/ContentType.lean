import Snode.Http.Headers
import Snode.Lib.Trim

/-!
# Content types

`parse_content_type_and_charset` and what it uses.  The header value is cut at its
first semicolon and what follows at its first equals sign; every access to the end
of a string is modelled with the fault that it is on an empty one.
-/

namespace Snode.Http

/-- Uses of a `std::string` outside its bounds. -/
inductive StringFault where
  | back
  | front
  | popBack
  | substr
deriving DecidableEq, Repr

namespace StdString

def back (str : Bytes) : Except StringFault UInt8 :=
  match str.getLast? with
  | some byte => .ok byte
  | none => .error .back

def front (str : Bytes) : Except StringFault UInt8 :=
  match str.head? with
  | some byte => .ok byte
  | none => .error .front

def popBack (str : Bytes) : Except StringFault Bytes :=
  if str.isEmpty then .error .popBack else .ok str.dropLast

/-- `substr`; no count is `npos`, which is beyond every size. -/
def substr (str : Bytes) (position : ℕ) (count : Option ℕ) : Except StringFault Bytes :=
  if position ≤ str.length then
    .ok ((str.drop position).take (count.getD str.length))
  else
    .error .substr

/-- `size - count` as a count; below zero it wraps round to a number beyond every size. -/
def sizeMinus (size count : ℕ) : Option ℕ :=
  if count ≤ size then some (size - count) else none

end StdString

namespace MimeTypes

def applicationAtomXml : Bytes := ascii "application/atom+xml"
def applicationHttp : Bytes := ascii "application/http"
def applicationJavascript : Bytes := ascii "application/javascript"
def applicationJson : Bytes := ascii "application/json"
def applicationXjson : Bytes := ascii "application/x-json"
def applicationXWwwFormUrlencoded : Bytes := ascii "application/x-www-form-urlencoded"
def applicationXjavascript : Bytes := ascii "application/x-javascript"
def applicationXml : Bytes := ascii "application/xml"
def messageHttp : Bytes := ascii "message/http"
def textJavascript : Bytes := ascii "text/javascript"
def textJson : Bytes := ascii "text/json"
def textXjavascript : Bytes := ascii "text/x-javascript"
def textXjson : Bytes := ascii "text/x-json"

def textualTypes : List Bytes :=
  [messageHttp, applicationJson, applicationXml, applicationAtomXml, applicationHttp,
    applicationXWwwFormUrlencoded]

def jsonTypes : List Bytes :=
  [applicationJson, applicationXjson, textJson, textXjson, textJavascript, textXjavascript,
    applicationJavascript, applicationXjavascript]

end MimeTypes

namespace CharsetTypes

def latin1 : Bytes := ascii "iso-8859-1"
def utf8 : Bytes := ascii "utf-8"

end CharsetTypes

def isContentTypeOneOf (types : List Bytes) (value : Bytes) : Bool :=
  types.any (iequals · value)

def isContentTypeTextual (contentType : Bytes) : Bool :=
  (decide (4 ≤ contentType.length) && iequals (contentType.take 4) (ascii "text")) ||
    isContentTypeOneOf MimeTypes.textualTypes contentType

def isContentTypeJson (contentType : Bytes) : Bool :=
  isContentTypeOneOf MimeTypes.jsonTypes contentType

def getDefaultCharset (contentType : Bytes) : Bytes :=
  if isContentTypeJson contentType then CharsetTypes.utf8 else CharsetTypes.latin1

/-- `while (charset.back() == ';') charset.pop_back();`, at most `fuel` times. -/
def removeSemicolons : ℕ → Bytes → Except StringFault Bytes
  | 0, charset => .ok charset
  | fuel + 1, charset => do
      let last ← StdString.back charset
      if last = 59 then
        let shorter ← StdString.popBack charset
        removeSemicolons fuel shorter
      else
        .ok charset

/-- What is made of the text behind the equals sign. -/
def cleanCharset (text : Bytes) : Except StringFault Bytes := do
  let stripped ← removeSemicolons (text.length + 1) text
  let charset := trimWhitespace stripped
  let first ← StdString.front charset
  if first = 34 then
    let last ← StdString.back charset
    if last = 34 then
      let inner ← StdString.substr charset 1 (StdString.sizeMinus charset.length 2)
      .ok (trimWhitespace inner)
    else
      .ok charset
  else
    .ok charset

/-- The content type and the charset of a header value. -/
def parseContentTypeAndCharset (contentType : Bytes) : Except StringFault (Bytes × Bytes) :=
  let semiColonIndex := contentType.idxOf 59
  if semiColonIndex = contentType.length then
    let content := trimWhitespace contentType
    .ok (content, getDefaultCharset content)
  else do
    let front ← StdString.substr contentType 0 (some semiColonIndex)
    let content := trimWhitespace front
    let second ← StdString.substr contentType (semiColonIndex + 1) none
    let possibleCharset := trimWhitespace second
    let equalsIndex := possibleCharset.idxOf 61
    if equalsIndex = possibleCharset.length then
      .ok (content, getDefaultCharset content)
    else do
      let key ← StdString.substr possibleCharset 0 (some equalsIndex)
      let charsetKey := trimWhitespace key
      if !iequals charsetKey (ascii "charset") then
        .ok (content, getDefaultCharset content)
      else do
        let text ← StdString.substr possibleCharset (equalsIndex + 1) none
        let charset ← cleanCharset text
        .ok (content, charset)

/-! ### The accesses to a string -/

theorem trimWhitespace_eq (str : Bytes) : trimWhitespace str = str.trim isSpace := rfl

namespace StdString

@[simp]
theorem back_concat (str : Bytes) (byte : UInt8) : back (str ++ [byte]) = .ok byte := by
  simp [back]

@[simp]
theorem popBack_concat (str : Bytes) (byte : UInt8) : popBack (str ++ [byte]) = .ok str := by
  simp [popBack]

theorem substr_front (before after : Bytes) :
    substr (before ++ after) 0 (some before.length) = .ok before := by
  simp [substr]

theorem substr_behind (before : Bytes) (byte : UInt8) (after : Bytes) :
    substr (before ++ byte :: after) (before.length + 1) none = .ok after := by
  have inRange : before.length + 1 ≤ (before ++ byte :: after).length := by simp
  have dropped : (before ++ byte :: after).drop (before.length + 1) = after := by
    rw [List.drop_append]
    simp
  rw [substr, if_pos inRange, dropped, Option.getD_none, List.take_of_length_le]
  simp
  omega

end StdString

/-- The loop stops at the last byte that is no semicolon, and faults when there is none. -/
theorem removeSemicolons_eq {fuel : ℕ} {charset : Bytes} (enough : charset.length < fuel) :
    removeSemicolons fuel charset =
      if charset.rdropWhile (· == 59) = [] then .error .back
      else .ok (charset.rdropWhile (· == 59)) := by
  induction fuel generalizing charset with
  | zero => simp at enough
  | succ fuel ih =>
      rcases List.eq_nil_or_concat charset with rfl | ⟨front, last, rfl⟩
      · rfl
      · have shorter : front.length < fuel := by simpa using enough
        rw [List.concat_eq_append, removeSemicolons, StdString.back_concat,
          StdString.popBack_concat]
        by_cases semicolon : last = 59
        · rw [List.rdropWhile_concat_pos _ _ _ (by simpa using semicolon), ← ih shorter]
          simp [bind, Except.bind, semicolon]
        · rw [List.rdropWhile_concat_neg _ _ _ (by simpa using semicolon)]
          simp [bind, Except.bind, semicolon]

/-- A charset without the quotes around it. -/
def unquote (charset : Bytes) : Bytes :=
  if charset.head? = some 34 ∧ charset.getLast? = some 34 then
    trimWhitespace (charset.drop 1).dropLast
  else
    charset

/-- Nothing but whitespace and semicolons, the semicolons at the end. -/
def NoCharset (text : Bytes) : Prop :=
  ∀ byte ∈ text.rdropWhile (· == 59), isSpace byte = true

theorem cleanCharset_of_none {text : Bytes} (none : NoCharset text) :
    ∃ fault, cleanCharset text = .error fault := by
  have stripped := removeSemicolons_eq (Nat.lt_succ_self text.length)
  by_cases empty : text.rdropWhile (· == 59) = []
  · rw [if_pos empty] at stripped
    refine ⟨.back, ?_⟩
    simp [cleanCharset, stripped, bind, Except.bind]
  · rw [if_neg empty] at stripped
    refine ⟨.front, ?_⟩
    have trimmed : trimWhitespace (text.rdropWhile (· == 59)) = [] :=
      List.trim_eq_nil_iff.mpr none
    simp [cleanCharset, stripped, trimmed, bind, Except.bind, StdString.front]

theorem cleanCharset_eq {text charset : Bytes}
    (trimmed : trimWhitespace (text.rdropWhile (· == 59)) = charset) (nonempty : charset ≠ []) :
    cleanCharset text = .ok (unquote charset) := by
  have some : text.rdropWhile (· == 59) ≠ [] := by
    intro empty
    rw [empty] at trimmed
    exact nonempty trimmed.symm
  have stripped := removeSemicolons_eq (Nat.lt_succ_self text.length)
  rw [if_neg some] at stripped
  rcases List.exists_cons_of_ne_nil nonempty with ⟨first, others, whole⟩
  rcases ends : charset.getLast? with _ | last
  · exact (nonempty (List.getLast?_eq_none_iff.mp ends)).elim
  · have inner : StdString.substr charset 1 (StdString.sizeMinus charset.length 2) =
        .ok (charset.drop 1).dropLast := by
      rw [whole]
      cases others with
      | nil => rfl
      | cons second others =>
          simp [StdString.substr, StdString.sizeMinus, List.dropLast_eq_take]
    have starts : charset.head? = Option.some first := by rw [whole]; rfl
    simp only [cleanCharset, stripped, trimmed, bind, Except.bind, StdString.front,
      StdString.back, starts, ends, unquote, inner, Option.some.injEq]
    by_cases firstQuote : first = 34
    · by_cases lastQuote : last = 34
      · simp [firstQuote, lastQuote]
      · simp [firstQuote, lastQuote]
    · simp [firstQuote]

/-! ### The header value -/

theorem idxOf_separator {before : Bytes} {separator : UInt8} (absent : separator ∉ before)
    (after : Bytes) :
    (before ++ separator :: after).idxOf separator = before.length ∧
      before.length ≠ (before ++ separator :: after).length := by
  constructor
  · rw [List.idxOf_append_of_notMem absent]
    simp
  · simp

theorem parse_noSemicolon {contentType : Bytes} (noSemicolon : 59 ∉ contentType) :
    parseContentTypeAndCharset contentType =
      .ok (trimWhitespace contentType, getDefaultCharset (trimWhitespace contentType)) := by
  rw [parseContentTypeAndCharset, if_pos (List.idxOf_eq_length_iff.mpr noSemicolon)]

theorem parse_noEquals {mediaType second : Bytes} (noSemicolon : 59 ∉ mediaType)
    (noEquals : 61 ∉ second) :
    parseContentTypeAndCharset (mediaType ++ 59 :: second) =
      .ok (trimWhitespace mediaType, getDefaultCharset (trimWhitespace mediaType)) := by
  rcases idxOf_separator noSemicolon second with ⟨semicolon, found⟩
  have absent : 61 ∉ trimWhitespace second := fun present =>
    noEquals (List.trim_subset isSpace second present)
  rw [parseContentTypeAndCharset, semicolon, if_neg found, StdString.substr_front,
    StdString.substr_behind]
  simp only [bind, Except.bind, if_pos (List.idxOf_eq_length_iff.mpr absent)]

theorem parse_key {mediaType key : Bytes} (noSemicolon : 59 ∉ mediaType) (noEquals : 61 ∉ key)
    (value : Bytes) :
    parseContentTypeAndCharset (mediaType ++ 59 :: (key ++ 61 :: value)) =
      if iequals (trimWhitespace key) (ascii "charset") = true then
        (cleanCharset (value.rdropWhile isSpace)).map fun charset =>
          (trimWhitespace mediaType, charset)
      else
        .ok (trimWhitespace mediaType, getDefaultCharset (trimWhitespace mediaType)) := by
  rcases idxOf_separator noSemicolon (key ++ 61 :: value) with ⟨semicolon, found⟩
  have trimmed : trimWhitespace (key ++ 61 :: value) =
      key.dropWhile isSpace ++ 61 :: value.rdropWhile isSpace :=
    List.trim_append_cons (by decide) key value
  have absent : 61 ∉ key.dropWhile isSpace := fun present =>
    noEquals ((List.dropWhile_sublist isSpace).subset present)
  rcases idxOf_separator absent (value.rdropWhile isSpace) with ⟨equals, some⟩
  have sameKey : trimWhitespace (key.dropWhile isSpace) = trimWhitespace key :=
    List.trim_dropWhile isSpace key
  rw [parseContentTypeAndCharset, semicolon, if_neg found, StdString.substr_front,
    StdString.substr_behind]
  simp only [bind, Except.bind, trimmed, equals, if_neg some, StdString.substr_front,
    StdString.substr_behind, sameKey]
  by_cases charset : iequals (trimWhitespace key) (ascii "charset") = true
  · simp only [charset, if_true, Bool.not_true, Bool.false_eq_true, if_false]
    cases cleanCharset (value.rdropWhile isSpace) <;> rfl
  · simp [charset]

/-- A header value with no semicolon, with no equals sign behind its first one, or with both. -/
theorem contentType_cases (contentType : Bytes) :
    59 ∉ contentType ∨
      (∃ mediaType second, contentType = mediaType ++ 59 :: second ∧ 59 ∉ mediaType ∧
        61 ∉ second) ∨
      ∃ mediaType key value, contentType = mediaType ++ 59 :: (key ++ 61 :: value) ∧
        59 ∉ mediaType ∧ 61 ∉ key := by
  by_cases semicolon : 59 ∈ contentType
  · rcases List.eq_append_cons_of_mem semicolon with ⟨mediaType, second, rfl, noSemicolon⟩
    by_cases equals : 61 ∈ second
    · rcases List.eq_append_cons_of_mem equals with ⟨key, value, rfl, noEquals⟩
      exact .inr (.inr ⟨mediaType, key, value, rfl, noSemicolon, noEquals⟩)
    · exact .inr (.inl ⟨mediaType, second, rfl, noSemicolon, equals⟩)
  · exact .inl semicolon

/-- A header value names no charset, or one that is more than whitespace and semicolons. -/
def CharsetReadable (contentType : Bytes) : Prop :=
  ∀ mediaType key value, contentType = mediaType ++ 59 :: (key ++ 61 :: value) →
    59 ∉ mediaType → 61 ∉ key → iequals (trimWhitespace key) (ascii "charset") = true →
      ∃ byte ∈ (value.rdropWhile isSpace).rdropWhile (· == 59), isSpace byte = false

theorem separated_unique {before after before' after' : Bytes} {separator : UInt8}
    (absent : separator ∉ before) (absent' : separator ∉ before')
    (same : before ++ separator :: after = before' ++ separator :: after') :
    before = before' ∧ after = after' := by
  have position := (idxOf_separator absent after).1
  rw [same, (idxOf_separator absent' after').1] at position
  rcases List.append_inj same position.symm with ⟨sameBefore, sameRest⟩
  exact ⟨sameBefore, (List.cons.inj sameRest).2⟩

/-- The parser returns exactly when it has a charset to read, or none to look for. -/
theorem parse_returns_iff (contentType : Bytes) :
    (∃ result, parseContentTypeAndCharset contentType = .ok result) ↔
      CharsetReadable contentType := by
  rcases contentType_cases contentType with
    noSemicolon | ⟨mediaType, second, rfl, noSemicolon, noEquals⟩ |
      ⟨mediaType, key, value, rfl, noSemicolon, noEquals⟩
  · constructor
    · rintro - mediaType key value rfl
      simp at noSemicolon
    · intro _
      exact ⟨_, parse_noSemicolon noSemicolon⟩
  · constructor
    · rintro - mediaType' key value whole noSemicolon'
      rcases separated_unique noSemicolon noSemicolon' whole with ⟨-, rfl⟩
      simp at noEquals
    · intro _
      exact ⟨_, parse_noEquals noSemicolon noEquals⟩
  · rw [parse_key noSemicolon noEquals]
    constructor
    · rintro ⟨result, returned⟩ mediaType' key' value' whole noSemicolon' noEquals' charset
      rcases separated_unique noSemicolon noSemicolon' whole with ⟨-, behind⟩
      rcases separated_unique noEquals noEquals' behind with ⟨rfl, rfl⟩
      by_contra unreadable
      have none : NoCharset (value.rdropWhile isSpace) := by
        intro byte present
        by_contra visible
        exact unreadable ⟨byte, present, by simpa using visible⟩
      rcases cleanCharset_of_none none with ⟨fault, faults⟩
      rw [if_pos charset, faults] at returned
      simp [Except.map] at returned
    · intro readable
      split
      · next charset =>
          rcases readable mediaType key value rfl noSemicolon noEquals charset with
            ⟨byte, present, visible⟩
          have nonempty :
              trimWhitespace ((value.rdropWhile isSpace).rdropWhile (· == 59)) ≠ [] := by
            intro empty
            have blank := List.trim_eq_nil_iff.mp empty byte present
            simp [visible] at blank
          rw [cleanCharset_eq rfl nonempty]
          exact ⟨_, rfl⟩
      · exact ⟨_, rfl⟩

theorem parse_faults_noCharset :
    parseContentTypeAndCharset (ascii "text/plain; charset=") = .error .back ∧
      parseContentTypeAndCharset (ascii "text/plain; charset= ;") = .error .front ∧
      ¬∀ contentType, ∃ result, parseContentTypeAndCharset contentType = .ok result := by
  have faults : parseContentTypeAndCharset (ascii "text/plain; charset=") = .error .back := by
    decide +kernel
  refine ⟨faults, by decide +kernel, ?_⟩
  intro returns
  rcases returns (ascii "text/plain; charset=") with ⟨result, returned⟩
  rw [faults] at returned
  simp at returned

/-! ### Rendering -/

/-- A run of whitespace. -/
abbrev Blank := { text : Bytes // ∀ byte ∈ text, isSpace byte = true }

/-- How a header value is laid out: its whitespace, the quotes around the charset, if there
are any, with the whitespace in them, and the number of semicolons at its end. -/
structure Layout where
  beforeType : Blank
  afterType : Blank
  beforeKey : Blank
  afterKey : Blank
  beforeCharset : Blank
  quotes : Option (Blank × Blank)
  afterCharset : Blank
  semicolons : ℕ
  atEnd : Blank

namespace Layout

/-- The media type with its whitespace. -/
def typeText (layout : Layout) (mediaType : Bytes) : Bytes :=
  layout.beforeType.1 ++ mediaType ++ layout.afterType.1

/-- The charset, in its quotes. -/
def charsetText (layout : Layout) (charset : Bytes) : Bytes :=
  match layout.quotes with
  | none => charset
  | some (left, right) => 34 :: (left.1 ++ charset ++ right.1 ++ [34])

/-- What stands behind the equals sign. -/
def valueText (layout : Layout) (charset : Bytes) : Bytes :=
  layout.beforeCharset.1 ++ layout.charsetText charset ++ layout.afterCharset.1 ++
    List.replicate layout.semicolons 59 ++ layout.atEnd.1

def render (layout : Layout) (mediaType key charset : Bytes) : Bytes :=
  layout.typeText mediaType ++ 59 ::
    (layout.beforeKey.1 ++ key ++ layout.afterKey.1 ++ 61 :: layout.valueText charset)

end Layout

/-- A charset that can be told from its decoration. -/
structure PlainCharset (charset : Bytes) : Prop where
  nonempty : charset ≠ []
  trimmed : charset.Trimmed isSpace
  unquoted : ¬(charset.head? = some 34 ∧ charset.getLast? = some 34)
  noSemicolon : charset.getLast? ≠ some 59

theorem Blank.absent (blank : Blank) (byte : UInt8) (visible : isSpace byte = false) :
    byte ∉ blank.1 := by
  intro present
  simp [blank.2 byte present] at visible

/-- A spelling of the key has neither whitespace nor an equals sign in it. -/
theorem key_visible {key : Bytes} (charset : iequals key (ascii "charset") = true) :
    ∀ byte ∈ key, isSpace byte = false ∧ byte ≠ 61 := by
  intro byte present
  have upper : key.map toUpper = ascii "CHARSET" := by
    rw [iequals, beq_iff_eq] at charset
    rw [charset]
    decide
  have letter : toUpper byte ∈ ascii "CHARSET" := upper ▸ List.mem_map_of_mem present
  have visible : ∀ code < 256, toUpper (UInt8.ofNat code) ∈ ascii "CHARSET" →
      isSpace (UInt8.ofNat code) = false ∧ UInt8.ofNat code ≠ 61 := by
    decide +kernel
  have same : UInt8.ofNat byte.toNat = byte := by simp
  rw [← same] at letter ⊢
  exact visible byte.toNat byte.toNat_lt letter

namespace Layout

variable (layout : Layout) {mediaType charset : Bytes}

theorem typeText_noSemicolon (noSemicolon : 59 ∉ mediaType) : 59 ∉ layout.typeText mediaType := by
  have before := layout.beforeType.absent 59 (by decide)
  have after := layout.afterType.absent 59 (by decide)
  simp [typeText, before, after, noSemicolon]

theorem trim_typeText (trimmed : mediaType.Trimmed isSpace) :
    trimWhitespace (layout.typeText mediaType) = mediaType :=
  trimmed.trim_around layout.beforeType.2 layout.afterType.2

theorem charsetText_trimmed (plain : PlainCharset charset) :
    (layout.charsetText charset).Trimmed isSpace := by
  unfold charsetText
  split
  · exact plain.trimmed
  · constructor
    · intro byte isFirst
      have quote : 34 = byte := by simpa using isFirst
      rw [← quote]
      decide
    · intro byte isLast
      rw [← List.cons_append, List.getLast?_concat] at isLast
      have quote : 34 = byte := by simpa using isLast
      rw [← quote]
      decide

theorem charsetText_last (plain : PlainCharset charset) :
    ∃ front last, layout.charsetText charset = front ++ [last] ∧ last ≠ 59 := by
  unfold charsetText
  split
  · rcases List.eq_nil_or_concat charset with empty | ⟨front, last, whole⟩
    · exact (plain.nonempty empty).elim
    · rw [List.concat_eq_append] at whole
      refine ⟨front, last, whole, ?_⟩
      intro semicolon
      apply plain.noSemicolon
      rw [whole, List.getLast?_concat, semicolon]
  · next left right _ =>
      exact ⟨34 :: (left.1 ++ charset ++ right.1), 34, by simp, by decide⟩

theorem unquote_charsetText (plain : PlainCharset charset) :
    unquote (layout.charsetText charset) = charset := by
  unfold charsetText
  split
  · exact if_neg plain.unquoted
  · next left right _ =>
      have inner : ((34 :: (left.1 ++ charset ++ right.1 ++ [34])).drop 1).dropLast =
          left.1 ++ charset ++ right.1 := by
        rw [List.drop_one, List.tail_cons, List.dropLast_concat]
      rw [unquote, inner, if_pos]
      · exact plain.trimmed.trim_around left.2 right.2
      · refine ⟨rfl, ?_⟩
        rw [← List.cons_append, List.getLast?_concat]

/-- Whitespace at the end goes first, then the semicolons, then what was between them and
the charset. -/
theorem strip_valueText (plain : PlainCharset charset) :
    trimWhitespace (((layout.valueText charset).rdropWhile isSpace).rdropWhile (· == 59)) =
      layout.charsetText charset := by
  have trimmed := layout.charsetText_trimmed plain
  rcases layout.charsetText_last plain with ⟨front, last, ending, notSemicolon⟩
  have lastVisible : isSpace last = false := by
    apply trimmed.last
    rw [ending, List.getLast?_concat]
  have noSemicolonAfter : ∀ after : Blank,
      (layout.beforeCharset.1 ++ layout.charsetText charset ++ after.1).rdropWhile (· == 59) =
        layout.beforeCharset.1 ++ layout.charsetText charset ++ after.1 := by
    intro after
    apply List.rdropWhile_of_last
    intro byte isLast
    rw [List.getLast?_append] at isLast
    rcases afterLast : after.1.getLast? with _ | space
    · have same : last = byte := by
        rw [afterLast, ending, ← List.append_assoc, List.getLast?_concat] at isLast
        simpa using isLast
      simpa [← same] using notSemicolon
    · have same : space = byte := by simpa [afterLast] using isLast
      have isBlank := after.2 space (List.mem_of_getLast? afterLast)
      rw [← same, beq_eq_false_iff_ne]
      rintro rfl
      simp [isSpace] at isBlank
  rw [valueText, List.rdropWhile_append_of_pos layout.atEnd.2]
  rcases Nat.eq_zero_or_pos layout.semicolons with none | some
  · rw [none, List.replicate_zero, List.append_nil,
      List.rdropWhile_append_of_pos layout.afterCharset.2]
    have kept : (layout.beforeCharset.1 ++ layout.charsetText charset).rdropWhile isSpace =
        layout.beforeCharset.1 ++ layout.charsetText charset := by
      rw [ending, ← List.append_assoc, List.rdropWhile_concat_neg]
      simp [lastVisible]
    have plainEnd := noSemicolonAfter ⟨[], by simp⟩
    simp only [List.append_nil] at plainEnd
    rw [kept, plainEnd]
    exact (List.trim_append_of_pos layout.beforeCharset.2).trans trimmed.trim_eq
  · have semicolons : ∀ byte ∈ List.replicate layout.semicolons 59,
        (byte == (59 : UInt8)) = true := by
      intro byte present
      rw [List.eq_of_mem_replicate present]
      rfl
    have kept : (layout.beforeCharset.1 ++ layout.charsetText charset ++
        layout.afterCharset.1 ++ List.replicate layout.semicolons 59).rdropWhile isSpace =
        layout.beforeCharset.1 ++ layout.charsetText charset ++ layout.afterCharset.1 ++
          List.replicate layout.semicolons 59 := by
      obtain ⟨others, count⟩ := Nat.exists_eq_succ_of_ne_zero some.ne'
      rw [count, Nat.succ_eq_add_one, List.replicate_succ', ← List.append_assoc,
        List.rdropWhile_concat_neg]
      simp [isSpace]
    rw [kept, List.rdropWhile_append_of_pos semicolons, noSemicolonAfter]
    exact trimmed.trim_around layout.beforeCharset.2 layout.afterCharset.2

/-- Parsing gives back what was rendered, however it is laid out. -/
theorem parse_render {key : Bytes} (noSemicolon : 59 ∉ mediaType)
    (trimmed : mediaType.Trimmed isSpace) (plain : PlainCharset charset)
    (isKey : iequals key (ascii "charset") = true) :
    parseContentTypeAndCharset (layout.render mediaType key charset) =
      .ok (mediaType, charset) := by
  have visible := key_visible isKey
  have keyTrimmed : key.Trimmed isSpace := by
    constructor
    · intro byte isFirst
      exact (visible byte (List.mem_of_head? isFirst)).1
    · intro byte isLast
      exact (visible byte (List.mem_of_getLast? isLast)).1
  have noEquals : 61 ∉ layout.beforeKey.1 ++ key ++ layout.afterKey.1 := by
    have before := layout.beforeKey.absent 61 (by decide)
    have after := layout.afterKey.absent 61 (by decide)
    have inKey : 61 ∉ key := fun present => (visible 61 present).2 rfl
    simp [before, after, inKey]
  have sameKey : trimWhitespace (layout.beforeKey.1 ++ key ++ layout.afterKey.1) = key :=
    keyTrimmed.trim_around layout.beforeKey.2 layout.afterKey.2
  have nonempty : layout.charsetText charset ≠ [] := by
    rcases layout.charsetText_last plain with ⟨front, last, ending, -⟩
    simp [ending]
  have cleaned := cleanCharset_eq (layout.strip_valueText plain) nonempty
  rw [layout.unquote_charsetText plain] at cleaned
  rw [render, parse_key (layout.typeText_noSemicolon noSemicolon) noEquals, sameKey,
    if_pos isKey, cleaned, layout.trim_typeText trimmed]
  rfl

end Layout

/-- A header value that names no charset: there is no semicolon, no equals sign behind the
first one, or another key before it. -/
inductive NoCharsetNamed (typeText : Bytes) : Bytes → Prop where
  | noSemicolon : NoCharsetNamed typeText typeText
  | noEquals (second : Bytes) : 61 ∉ second → NoCharsetNamed typeText (typeText ++ 59 :: second)
  | otherKey (key value : Bytes) : 61 ∉ key →
      ¬iequals (trimWhitespace key) (ascii "charset") = true →
      NoCharsetNamed typeText (typeText ++ 59 :: (key ++ 61 :: value))

theorem parse_noCharsetNamed {typeText contentType : Bytes} (noSemicolon : 59 ∉ typeText)
    (named : NoCharsetNamed typeText contentType) :
    parseContentTypeAndCharset contentType =
      .ok (trimWhitespace typeText, getDefaultCharset (trimWhitespace typeText)) := by
  cases named with
  | noSemicolon => exact parse_noSemicolon noSemicolon
  | noEquals second noEquals => exact parse_noEquals noSemicolon noEquals
  | otherKey key value noEquals other => rw [parse_key noSemicolon noEquals, if_neg other]

theorem getDefaultCharset_eq (mediaType : Bytes) :
    getDefaultCharset mediaType =
      if ∃ json ∈ MimeTypes.jsonTypes, iequals json mediaType = true then ascii "utf-8"
      else ascii "iso-8859-1" := by
  have json : isContentTypeJson mediaType = true ↔
      ∃ json ∈ MimeTypes.jsonTypes, iequals json mediaType = true := by
    rw [isContentTypeJson, isContentTypeOneOf, List.any_eq_true]
  by_cases isJson : isContentTypeJson mediaType = true
  · rw [getDefaultCharset, if_pos isJson, if_pos (json.mp isJson), CharsetTypes.utf8]
  · rw [getDefaultCharset, if_neg isJson, if_neg (mt json.mpr isJson), CharsetTypes.latin1]

/-- The media type and the charset come back from every layout, and where no charset is named
the one that the media type defaults to. -/
theorem parse_inverts_rendering (layout : Layout) {mediaType : Bytes}
    (noSemicolon : 59 ∉ mediaType) (trimmed : mediaType.Trimmed isSpace) :
    (∀ key charset, iequals key (ascii "charset") = true → PlainCharset charset →
        parseContentTypeAndCharset (layout.render mediaType key charset) =
          .ok (mediaType, charset)) ∧
      ∀ contentType, NoCharsetNamed (layout.typeText mediaType) contentType →
        parseContentTypeAndCharset contentType =
          .ok (mediaType,
            if ∃ json ∈ MimeTypes.jsonTypes, iequals json mediaType = true then ascii "utf-8"
            else ascii "iso-8859-1") := by
  constructor
  · intro key charset isKey plain
    exact layout.parse_render noSemicolon trimmed plain isKey
  · intro contentType named
    rw [parse_noCharsetNamed (layout.typeText_noSemicolon noSemicolon) named,
      layout.trim_typeText trimmed, getDefaultCharset_eq]

/-- ` text/plain ; CharSet = " utf-8 " ;; ` -/
def decorated : Layout where
  beforeType := ⟨[32], by simp [isSpace]⟩
  afterType := ⟨[32], by simp [isSpace]⟩
  beforeKey := ⟨[32], by simp [isSpace]⟩
  afterKey := ⟨[32], by simp [isSpace]⟩
  beforeCharset := ⟨[32], by simp [isSpace]⟩
  quotes := some (⟨[32], by simp [isSpace]⟩, ⟨[9], by simp [isSpace]⟩)
  afterCharset := ⟨[32], by simp [isSpace]⟩
  semicolons := 2
  atEnd := ⟨[32], by simp [isSpace]⟩

theorem parse_inverts_rendering_textPlain :
    parseContentTypeAndCharset
        (decorated.render (ascii "text/plain") (ascii "CharSet") (ascii "utf-8")) =
      .ok (ascii "text/plain", ascii "utf-8") := by
  have trimmed : (ascii "text/plain").Trimmed isSpace := by
    constructor
    · intro byte isFirst
      have letter : 116 = byte := by simpa [ascii] using isFirst
      rw [← letter]
      decide
    · intro byte isLast
      have letter : 110 = byte := by simpa [ascii] using isLast
      rw [← letter]
      decide
  have plain : PlainCharset (ascii "utf-8") := by
    refine ⟨by decide, ⟨?_, ?_⟩, by decide, by decide⟩
    · intro byte isFirst
      have letter : 117 = byte := by simpa [ascii] using isFirst
      rw [← letter]
      decide
    · intro byte isLast
      have digit : 56 = byte := by simpa [ascii] using isLast
      rw [← digit]
      decide
  exact (parse_inverts_rendering decorated (by decide) trimmed).1 _ _ (by decide) plain

end Snode.Http
