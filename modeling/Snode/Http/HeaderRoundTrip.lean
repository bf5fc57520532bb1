import Snode.Http.HeaderBlock

/-!
# Printing and parsing headers

What becomes of the map of a block when it is printed and parsed again.  The lines
come back in the order of the map, and each value without the whitespace around
it, which joining an empty value to others has put at its end.
-/

namespace Snode.Http

open ClientRequest

namespace HttpHeaders

/-- The entries are in the order of the comparator. -/
def Sorted (headers : HttpHeaders) : Prop :=
  headers.Pairwise fun first second => headerKey first.1 < headerKey second.1

theorem Sorted.modify {headers : HttpHeaders} (sorted : Sorted headers) (name : Bytes)
    (change : Bytes → Bytes) : Sorted (headers.modify name change) := by
  induction headers with
  | nil => exact List.pairwise_singleton _ _
  | cons entry rest ih =>
      rcases entry with ⟨key, value⟩
      rcases List.pairwise_cons.mp sorted with ⟨above, rest⟩
      by_cases before : caseInsensitiveCmp name key = true
      · have below := (caseInsensitiveCmp_iff name key).mp before
        rw [HttpHeaders.modify, if_pos before]
        refine List.pairwise_cons.mpr ⟨?_, sorted⟩
        intro other present
        rcases List.mem_cons.mp present with rfl | inRest
        · exact below
        · exact below.trans (above other inRest)
      · by_cases after : caseInsensitiveCmp key name = true
        · rw [HttpHeaders.modify, if_neg before, if_pos after]
          refine List.pairwise_cons.mpr ⟨?_, ih rest⟩
          intro other present
          rcases key_of_mem_modify present with new | ⟨earlier, inRest, same⟩
          · rw [new]
            exact (caseInsensitiveCmp_iff key name).mp after
          · rw [← same]
            exact above earlier inRest
        · rw [HttpHeaders.modify, if_neg before, if_neg after]
          exact List.pairwise_cons.mpr ⟨above, rest⟩

theorem Sorted.find_of_mem {headers : HttpHeaders} (sorted : Sorted headers)
    {entry : Bytes × Bytes} (present : entry ∈ headers) :
    headers.find entry.1 = some entry.2 := by
  induction headers with
  | nil => simp at present
  | cons first rest ih =>
      rcases first with ⟨key, value⟩
      rcases List.pairwise_cons.mp sorted with ⟨above, rest⟩
      rcases List.mem_cons.mp present with rfl | inRest
      · have irreflexive : ¬caseInsensitiveCmp key key = true := by
          rw [caseInsensitiveCmp_iff]
          exact lt_irrefl _
        rw [find, if_neg irreflexive, if_neg irreflexive]
      · have below := above entry inRest
        have notAbove : ¬caseInsensitiveCmp entry.1 key = true := by
          rw [caseInsensitiveCmp_iff]
          exact below.not_gt
        rw [find, if_neg notAbove, if_pos ((caseInsensitiveCmp_iff key entry.1).mpr below),
          ih rest inRest]

theorem exists_of_find {headers : HttpHeaders} {name value : Bytes}
    (found : headers.find name = some value) :
    ∃ entry ∈ headers, SameName entry.1 name ∧ entry.2 = value := by
  induction headers with
  | nil => simp [find] at found
  | cons first rest ih =>
      rcases first with ⟨key, text⟩
      rw [find] at found
      split at found
      · simp at found
      · next before =>
          split at found
          · rcases ih found with ⟨entry, inRest, same, isValue⟩
            exact ⟨entry, List.mem_cons_of_mem _ inRest, same, isValue⟩
          · next after =>
              refine ⟨_, List.mem_cons_self, ?_, Option.some.inj found⟩
              rw [caseInsensitiveCmp_iff] at before after
              rw [sameName_iff_headerKey]
              exact le_antisymm (not_lt.mp before) (not_lt.mp after)

/-- A name above all others is put at the end. -/
theorem modify_last {headers : HttpHeaders} {name : Bytes}
    (above : ∀ entry ∈ headers, headerKey entry.1 < headerKey name) (change : Bytes → Bytes) :
    headers.modify name change = headers ++ [(name, change [])] := by
  induction headers with
  | nil => rfl
  | cons first rest ih =>
      rcases first with ⟨key, value⟩
      have below : headerKey key < headerKey name := above (key, value) List.mem_cons_self
      have notBefore : ¬caseInsensitiveCmp name key = true := by
        rw [caseInsensitiveCmp_iff]
        exact below.not_gt
      rw [modify, if_neg notBefore, if_pos ((caseInsensitiveCmp_iff key name).mpr below),
        ih fun entry inRest => above entry (List.mem_cons_of_mem _ inRest), List.cons_append]

end HttpHeaders

theorem sorted_addHeaderLines {lines : List Bytes} (colons : ∀ line ∈ lines, HasColon line)
    {headers : HttpHeaders} (sorted : headers.Sorted) :
    (addHeaderLines headers lines).Sorted := by
  induction lines generalizing headers with
  | nil => exact sorted
  | cons line lines ih =>
      rw [addHeaderLines_cons (colons line List.mem_cons_self)]
      exact ih (fun other present => colons other (List.mem_cons_of_mem line present))
        (sorted.modify _ _)

/-! ### Printed lines -/

section Printed

variable {name value : Bytes} (noColon : 58 ∉ name)
include noColon

theorem idxOf_fieldLine : (fieldLine (name, value)).idxOf 58 = name.length := by
  have split : fieldLine (name, value) = name ++ 58 :: ([32] ++ value ++ [cr]) := by
    simp [fieldLine, ascii]
  rw [split]
  exact (idxOf_separator noColon _).1

theorem lineName_fieldLine : lineName (fieldLine (name, value)) = trimWhitespace name := by
  have split : fieldLine (name, value) = name ++ 58 :: ([32] ++ value ++ [cr]) := by
    simp [fieldLine, ascii]
  rw [lineName, idxOf_fieldLine noColon, split, List.take_left' rfl]

theorem lineValue_fieldLine : lineValue (fieldLine (name, value)) = trimWhitespace value := by
  have split : fieldLine (name, value) = (name ++ [58]) ++ ([32] ++ value ++ [cr]) := by
    simp [fieldLine, ascii]
  rw [lineValue, idxOf_fieldLine noColon, split, List.drop_left' (by simp)]
  have before : ∀ byte ∈ [(32 : UInt8)], isSpace byte = true := by simp [isSpace]
  have after : ∀ byte ∈ [cr], isSpace byte = true := by simp [isSpace, cr]
  rw [trimWhitespace_eq, List.append_assoc, List.trim_append_of_pos before,
    List.trim_append_right_of_pos after, trimWhitespace_eq]

theorem hasColon_fieldLine : HasColon (fieldLine (name, value)) ↔ name ≠ [] := by
  rw [← isHeaderLine_iff, isHeaderLine, decide_eq_true_eq, idxOf_fieldLine noColon]
  have long : name.length < (fieldLine (name, value)).length := by
    simp [fieldLine, ascii]
  rw [and_iff_right long, ne_eq, List.length_eq_zero_iff]

end Printed

theorem block_fieldLines (headers : HttpHeaders) :
    block (headers.map fieldLine) = HttpConnection.printHeaders headers ++ crlf := by
  have lines : (headers.map fieldLine).flatMap (· ++ [lf]) =
      HttpConnection.printHeaders headers := by
    rw [List.flatMap_map]
    simp [HttpConnection.printHeaders, fieldLine, crlf]
  rw [block, lines]

/-- Headers that can be told apart in a text. -/
structure Printable (headers : HttpHeaders) : Prop where
  sorted : headers.Sorted
  names : ∀ entry ∈ headers, 58 ∉ entry.1 ∧ trimWhitespace entry.1 = entry.1
  noFeed : ∀ entry ∈ headers, lf ∉ entry.1 ∧ lf ∉ entry.2

namespace Printable

variable {headers : HttpHeaders}

theorem lines_proper (printable : Printable headers) :
    ∀ line ∈ headers.map fieldLine, lf ∉ line ∧ line ≠ [cr] := by
  intro line present
  rcases List.mem_map.mp present with ⟨entry, inHeaders, rfl⟩
  rcases printable.noFeed entry inHeaders with ⟨inName, inValue⟩
  refine ⟨?_, fieldLine_ne_return entry⟩
  have colon : lf ∉ ascii ": " := by decide
  have notReturn : lf ∉ [cr] := by decide
  simp only [fieldLine, List.mem_append, not_or]
  exact ⟨⟨⟨inName, colon⟩, inValue⟩, notReturn⟩

/-- Each line is put behind those before it, its value trimmed. -/
theorem addHeaderLines_fieldLines (printable : Printable headers)
    (named : ∀ entry ∈ headers, entry.1 ≠ []) :
    addHeaderLines [] (headers.map fieldLine) =
      headers.map fun entry => (entry.1, trimWhitespace entry.2) := by
  suffices general : ∀ before after : HttpHeaders, before ++ after = headers →
      addHeaderLines (before.map fun entry => (entry.1, trimWhitespace entry.2))
        (after.map fieldLine) =
          headers.map fun entry => (entry.1, trimWhitespace entry.2) from
    general [] headers rfl
  intro before after whole
  induction after generalizing before with
  | nil =>
      rw [List.append_nil] at whole
      rw [whole]
      rfl
  | cons entry after ih =>
      have present : entry ∈ headers := by
        rw [← whole]
        simp
      rcases printable.names entry present with ⟨noColon, trimmed⟩
      have colon : HasColon (fieldLine entry) := (hasColon_fieldLine noColon).mpr (named entry present)
      have above : ∀ earlier ∈ before.map fun entry => (entry.1, trimWhitespace entry.2),
          headerKey earlier.1 < headerKey entry.1 := by
        intro earlier inBefore
        rcases List.mem_map.mp inBefore with ⟨original, inOriginal, rfl⟩
        have sorted := printable.sorted
        rw [HttpHeaders.Sorted, ← whole] at sorted
        exact (List.pairwise_append.mp sorted).2.2 original inOriginal entry List.mem_cons_self
      have name : lineName (fieldLine entry) = entry.1 :=
        (lineName_fieldLine noColon).trans trimmed
      have value : lineValue (fieldLine entry) = trimWhitespace entry.2 :=
        lineValue_fieldLine noColon
      have next := ih (before ++ [entry]) (by rw [← whole]; simp)
      rw [List.map_append, List.map_singleton] at next
      rw [List.map_cons, addHeaderLines_cons colon, name, value,
        HttpHeaders.modify_last above]
      simpa [combine] using next

end Printable

/-! ### The map of a block -/

section Block

variable {lines : List Bytes}

theorem lineName_spec (line : Bytes) :
    (lineName line).Trimmed isSpace ∧ 58 ∉ lineName line ∧ lineName line ⊆ line := by
  have inFront : lineName line ⊆ line.take (line.idxOf 58) := List.trim_subset isSpace _
  refine ⟨List.trimmed_trim isSpace _, ?_, ?_⟩
  · intro present
    have absent : 58 ∉ line.take (line.idxOf 58) := by
      intro early
      have below := (List.mem_take_iff_idxOf_lt (List.mem_of_mem_take early)).mp early
      exact lt_irrefl _ below
    exact absent (inFront present)
  · exact fun byte present => List.mem_of_mem_take (inFront present)

theorem lineValue_spec (line : Bytes) :
    (lineValue line).Trimmed isSpace ∧ lineValue line ⊆ line := by
  have behind : lineValue line ⊆ line.drop (line.idxOf 58 + 1) := List.trim_subset isSpace _
  exact ⟨List.trimmed_trim isSpace _, fun byte present => List.mem_of_mem_drop (behind present)⟩

theorem mem_valuesOf {name value : Bytes} (present : value ∈ valuesOf name lines) :
    ∃ line ∈ lines, lineValue line = value := by
  rcases List.mem_map.mp present with ⟨line, inLines, isValue⟩
  exact ⟨line, (List.mem_filter.mp inLines).1, isValue⟩

theorem valuesOf_congr {name other : Bytes} (same : SameName name other) :
    valuesOf name lines = valuesOf other lines := by
  have sameLines : (fun line => decide (SameName (lineName line) name)) =
      fun line => decide (SameName (lineName line) other) := by
    funext line
    rw [decide_eq_decide]
    constructor
    · intro isName
      exact Eq.trans isName same
    · intro isOther
      exact Eq.trans isOther same.symm
  rw [valuesOf, valuesOf, sameLines]

/-- What a merged value consists of. -/
theorem mem_mergedValue {name : Bytes} {values : List Bytes} {byte : UInt8}
    (present : byte ∈ mergedValue name values) :
    byte ∈ ascii ", " ∨ ∃ value ∈ values, byte ∈ value := by
  rw [mergedValue] at present
  split at present
  · rcases List.eq_nil_or_concat values with rfl | ⟨front, last, rfl⟩
    · simp at present
    · rw [List.concat_eq_append] at present ⊢
      simp only [List.getLastD_concat] at present
      exact .inr ⟨last, by simp, present⟩
  · have joined : values.dropWhile (·.isEmpty) ⊆ values :=
      (List.dropWhile_sublist _).subset
    rcases rest : values.dropWhile (·.isEmpty) with _ | ⟨first, others⟩
    · simp [rest] at present
    · rw [rest] at joined
      rw [rest, intercalate_eq, List.mem_append, List.mem_flatMap] at present
      rcases present with inFirst | ⟨value, inOthers, inPart⟩
      · exact .inr ⟨first, joined List.mem_cons_self, inFirst⟩
      · rcases List.mem_append.mp inPart with inSeparator | inValue
        · exact .inl inSeparator
        · exact .inr ⟨value, joined (List.mem_cons_of_mem first inOthers), inValue⟩

/-- An entry of the map is a name of the block with all that the block says of it. -/
theorem entry_of_block (colons : ∀ line ∈ lines, HasColon line) {entry : Bytes × Bytes}
    (present : entry ∈ addHeaderLines [] lines) :
    (∃ line ∈ lines, lineName line = entry.1) ∧ valuesOf entry.1 lines ≠ [] ∧
      entry.2 = mergedValue entry.1 (valuesOf entry.1 lines) := by
  have sorted : (addHeaderLines [] lines).Sorted :=
    sorted_addHeaderLines colons List.Pairwise.nil
  have found := sorted.find_of_mem present
  rw [find_addHeaderLines_nil entry.1 colons, headerValue] at found
  split at found
  · simp at found
  · next some =>
      refine ⟨?_, some, (Option.some.inj found).symm⟩
      rcases key_of_mem_addHeaderLines colons present with named | ⟨earlier, none, -⟩
      · exact named
      · simp at none

theorem printable_of_block (noFeed : ∀ line ∈ lines, lf ∉ line)
    (colons : ∀ line ∈ lines, HasColon line) : Printable (addHeaderLines [] lines) := by
  refine ⟨sorted_addHeaderLines colons List.Pairwise.nil, ?_, ?_⟩
  · intro entry present
    rcases entry_of_block colons present with ⟨⟨line, inLines, name⟩, -⟩
    rcases lineName_spec line with ⟨trimmed, noColon, -⟩
    rw [← name]
    exact ⟨noColon, trimmed.trim_eq⟩
  · intro entry present
    rcases entry_of_block colons present with ⟨⟨line, inLines, name⟩, -, merged⟩
    refine ⟨?_, ?_⟩
    · rw [← name]
      exact fun feed => noFeed line inLines ((lineName_spec line).2.2 feed)
    · intro feed
      rw [merged] at feed
      rcases mem_mergedValue feed with inSeparator | ⟨value, inValues, inValue⟩
      · revert inSeparator
        decide
      · rcases mem_valuesOf inValues with ⟨other, inLines, isValue⟩
        rw [← isValue] at inValue
        exact noFeed other inLines ((lineValue_spec other).2 inValue)

end Block

/-! ### Values that are kept -/

/-- Values joined from one that is not empty have no whitespace at their ends unless the last
of them is empty. -/
theorem trimmed_intercalate_iff {first : Bytes} {others : List Bytes} (nonempty : first ≠ [])
    (trimmed : ∀ value ∈ first :: others, value.Trimmed isSpace) :
    ((ascii ", ").intercalate (first :: others)).Trimmed isSpace ↔
      (first :: others).getLastD [] ≠ [] := by
  have firstTrimmed := trimmed first List.mem_cons_self
  rw [intercalate_eq]
  rcases List.eq_nil_or_concat others with rfl | ⟨front, last, rfl⟩
  · rw [List.flatMap_nil, List.append_nil]
    exact iff_of_true firstTrimmed nonempty
  · rw [List.concat_eq_append] at trimmed ⊢
    rw [← List.cons_append, List.getLastD_concat, List.flatMap_append, List.flatMap_singleton]
    rcases List.eq_nil_or_concat last with rfl | ⟨start, final, ends⟩
    · refine iff_of_false ?_ (fun nonempty => nonempty rfl)
      intro isTrimmed
      have space := isTrimmed.last 32
      have separator : ascii ", " ++ [] = [44] ++ [32] := by decide
      rw [separator, ← List.append_assoc, ← List.append_assoc, List.getLast?_concat] at space
      have blank : isSpace 32 = true := by decide
      simp [blank] at space
    · rw [List.concat_eq_append] at ends
      have lastTrimmed := trimmed last (by simp)
      refine iff_of_true ⟨?_, ?_⟩ (by simp [ends])
      · intro byte isFirst
        apply firstTrimmed.first
        rw [List.head?_append] at isFirst
        rcases List.exists_cons_of_ne_nil nonempty with ⟨head, tail, whole⟩
        rw [whole] at isFirst ⊢
        exact isFirst
      · intro byte isLast
        apply lastTrimmed.last
        rw [ends, ← List.append_assoc, ← List.append_assoc, ← List.append_assoc,
          List.getLast?_concat] at isLast
        rw [ends, List.getLast?_concat]
        exact isLast

/-- The last of some values is not empty, or all are. -/
def EndsInValue (values : List Bytes) : Prop :=
  values.getLastD [] ≠ [] ∨ ∀ value ∈ values, value = []

theorem trimmed_mergedValue_iff {name : Bytes} {values : List Bytes}
    (trimmed : ∀ value ∈ values, value.Trimmed isSpace) :
    (mergedValue name values).Trimmed isSpace ↔
      (¬SameName name HeaderNames.contentLength → EndsInValue values) := by
  by_cases isLength : SameName name HeaderNames.contentLength
  · refine iff_of_true ?_ (fun other => (other isLength).elim)
    rw [mergedValue, if_pos isLength]
    rcases List.eq_nil_or_concat values with rfl | ⟨front, last, rfl⟩
    · exact List.Trimmed.nil
    · rw [List.concat_eq_append] at trimmed ⊢
      rw [List.getLastD_concat]
      exact trimmed last (by simp)
  · simp only [isLength, not_false_eq_true, true_imp_iff]
    rw [mergedValue, if_neg isLength]
    rcases List.exists_dropWhile (·.isEmpty) values with ⟨empties, whole, allEmpty⟩
    rcases rest : values.dropWhile (·.isEmpty) with _ | ⟨first, others⟩
    · rw [rest]
      refine iff_of_true List.Trimmed.nil (.inr ?_)
      intro value present
      rw [rest, List.append_nil] at whole
      rw [whole] at present
      exact List.isEmpty_iff.mp (allEmpty value present)
    · have nonempty : first ≠ [] := by
        have isFirst : (values.dropWhile (·.isEmpty)).head? = some first := by rw [rest]; rfl
        simpa using List.first_dropWhile values first isFirst
      rw [rest] at whole
      have inValues : ∀ value ∈ first :: others, value ∈ values := by
        intro value present
        rw [whole]
        exact List.mem_append_right empties present
      have sameLast : values.getLastD [] = (first :: others).getLastD [] := by
        rcases List.eq_nil_or_concat (first :: others) with none | ⟨front, last, ends⟩
        · simp at none
        · rw [whole, ends, List.concat_eq_append, ← List.append_assoc, List.getLastD_concat,
            List.getLastD_concat]
      have notAll : ¬∀ value ∈ values, value = [] := fun all =>
        nonempty (all first (inValues first List.mem_cons_self))
      rw [rest, trimmed_intercalate_iff nonempty fun value present =>
        trimmed value (inValues value present), EndsInValue, sameLast, or_iff_left notAll]

/-! ### The round trip -/

/-- A fresh connection that gets some headers printed dispatches a request with these headers. -/
def Reparses (getReqHandler : Bytes → Option ℕ) (headers : HttpHeaders) : Prop :=
  ∀ conn : HttpConnection, ∀ more, conn.request.headers = [] →
    conn.requestBuf = HttpConnection.printHeaders headers ++ crlf ++ more →
      (conn.handleHeaders getReqHandler).log.dispatched =
        conn.log.dispatched ++ [⟨conn.request.method, conn.request.url, headers⟩]

theorem Printable.reparses_iff {headers : HttpHeaders} (printable : Printable headers)
    (getReqHandler : Bytes → Option ℕ) :
    Reparses getReqHandler headers ↔
      (∀ entry ∈ headers, entry.1 ≠ []) ∧ ∀ entry ∈ headers, entry.2.Trimmed isSpace := by
  have fields (conn : HttpConnection) (more : Bytes)
      (buffered : conn.requestBuf = HttpConnection.printHeaders headers ++ crlf ++ more) :
      headerFields conn.requestBuf = headers.map fieldLine := by
    rw [buffered, ← block_fieldLines, headerFields_block printable.lines_proper]
  have accepted_iff : (headers.map fieldLine).all isHeaderLine = true ↔
      ∀ entry ∈ headers, entry.1 ≠ [] := by
    rw [List.all_map, List.all_eq_true]
    refine forall₂_congr fun entry present => ?_
    exact (isHeaderLine_iff _).trans (hasColon_fieldLine (printable.names entry present).1)
  have same_iff : (headers.map fun entry => (entry.1, trimWhitespace entry.2)) = headers ↔
      ∀ entry ∈ headers, entry.2.Trimmed isSpace := by
    constructor
    · intro same entry present
      have pointwise : ∀ entry ∈ headers, (entry.1, trimWhitespace entry.2) = id entry :=
        List.map_inj_left.mp (same.trans (List.map_id headers).symm)
      have kept : trimWhitespace entry.2 = entry.2 :=
        congrArg Prod.snd (pointwise entry present)
      exact kept ▸ List.trimmed_trim isSpace entry.2
    · intro trimmed
      have pointwise : ∀ entry ∈ headers, (entry.1, trimWhitespace entry.2) = id entry :=
        fun entry present => Prod.ext rfl (trimmed entry present).trim_eq
      exact (List.map_inj_left.mpr pointwise).trans (List.map_id headers)
  constructor
  · intro reparses
    let conn : HttpConnection :=
      { HttpConnection.new with
        requestBuf := HttpConnection.printHeaders headers ++ crlf ++ [] }
    have dispatched := reparses conn [] rfl rfl
    have named : ∀ entry ∈ headers, entry.1 ≠ [] := by
      rw [← accepted_iff, ← fields conn [] rfl]
      by_contra refused
      have never := HttpConnection.handleHeaders_refused getReqHandler
        (Bool.eq_false_iff.mpr refused)
      rw [never.1] at dispatched
      simp at dispatched
    refine ⟨named, ?_⟩
    rw [← same_iff]
    have accepted : (headerFields conn.requestBuf).all isHeaderLine = true := by
      rw [fields conn [] rfl]
      exact accepted_iff.mpr named
    rw [HttpConnection.handleHeaders_accepted getReqHandler accepted, fields conn [] rfl] at dispatched
    have same := List.append_cancel_left dispatched
    have parsed : addHeaderLines conn.request.headers (headers.map fieldLine) = headers := by
      simpa using same
    rw [← printable.addHeaderLines_fieldLines named]
    exact parsed
  · rintro ⟨named, trimmed⟩ conn more empty buffered
    have accepted : (headerFields conn.requestBuf).all isHeaderLine = true := by
      rw [fields conn more buffered]
      exact accepted_iff.mpr named
    rw [HttpConnection.handleHeaders_accepted getReqHandler accepted, fields conn more buffered,
      empty, printable.addHeaderLines_fieldLines named, same_iff.mpr trimmed]

/-- The headers of a block come back from what is printed of them exactly when none of its names
is empty and no name but that of the length has its values end in an empty one. -/
theorem reparses_block_iff (getReqHandler : Bytes → Option ℕ) {lines : List Bytes}
    (noFeed : ∀ line ∈ lines, lf ∉ line) (colons : ∀ line ∈ lines, HasColon line) :
    Reparses getReqHandler (addHeaderLines [] lines) ↔
      (∀ line ∈ lines, lineName line ≠ []) ∧
        ∀ line ∈ lines, ¬SameName (lineName line) HeaderNames.contentLength →
          EndsInValue (valuesOf (lineName line) lines) := by
  have values (name : Bytes) : ∀ value ∈ valuesOf name lines, value.Trimmed isSpace := by
    intro value present
    rcases mem_valuesOf present with ⟨line, -, isValue⟩
    exact isValue ▸ (lineValue_spec line).1
  have entry_of_line : ∀ line ∈ lines, ∃ entry ∈ addHeaderLines [] lines,
      SameName entry.1 (lineName line) := by
    intro line present
    have some : valuesOf (lineName line) lines ≠ [] := by
      intro none
      rw [valuesOf, List.map_eq_nil_iff, List.filter_eq_nil_iff] at none
      exact none line present (decide_eq_true rfl)
    have found := find_addHeaderLines_nil (lineName line) colons
    rw [headerValue, if_neg some] at found
    rcases HttpHeaders.exists_of_find found with ⟨entry, inMap, same, -⟩
    exact ⟨entry, inMap, same⟩
  rw [(printable_of_block noFeed colons).reparses_iff]
  refine and_congr ?_ ?_
  · constructor
    · intro named line present
      rcases entry_of_line line present with ⟨entry, inMap, same⟩
      intro empty
      rw [SameName, empty, List.map_nil, List.map_eq_nil_iff] at same
      exact named entry inMap same
    · intro named entry inMap
      rcases (entry_of_block colons inMap).1 with ⟨line, present, name⟩
      exact name ▸ named line present
  · constructor
    · intro trimmed line present
      rcases entry_of_line line present with ⟨entry, inMap, same⟩
      have kept := trimmed entry inMap
      rw [(entry_of_block colons inMap).2.2, trimmed_mergedValue_iff (values entry.1)] at kept
      rw [← valuesOf_congr same]
      intro notLength
      exact kept fun isLength => notLength (Eq.trans same.symm isLength)
    · intro kept entry inMap
      rcases entry_of_block colons inMap with ⟨⟨line, present, name⟩, -, merged⟩
      rw [merged, trimmed_mergedValue_iff (values entry.1), ← name]
      exact kept line present

theorem reparses_block_iff_accept :
    Reparses (fun _ => none) (addHeaderLines [] acceptLines) ↔
      (∀ line ∈ acceptLines, lineName line ≠ []) ∧
        ∀ line ∈ acceptLines, ¬SameName (lineName line) HeaderNames.contentLength →
          EndsInValue (valuesOf (lineName line) acceptLines) := by
  refine reparses_block_iff (fun _ => none) (by decide +kernel) ?_
  intro line present
  rw [← isHeaderLine_iff]
  have all : acceptLines.all isHeaderLine = true := by decide +kernel
  exact List.all_eq_true.mp all line present

/-- A name whose last value is empty. -/
def emptyLast : List Bytes :=
  [ascii "X: a" ++ [cr], ascii "X:" ++ [cr]]

/-- A name of whitespace. -/
def blankName : List Bytes :=
  [ascii " : x" ++ [cr]]

theorem not_reparses_emptyLast :
    (∀ line ∈ emptyLast ++ blankName, isHeaderLine line = true) ∧
      ¬Reparses (fun _ => none) (addHeaderLines [] emptyLast) ∧
      ¬Reparses (fun _ => none) (addHeaderLines [] blankName) := by
  refine ⟨by decide +kernel, ?_, ?_⟩
  · intro reparses
    let conn : HttpConnection :=
      { HttpConnection.new with
        requestBuf := HttpConnection.printHeaders (addHeaderLines [] emptyLast) ++ crlf ++ [] }
    have dispatched : (conn.handleHeaders fun _ => none).log.dispatched =
        [⟨ascii "GET", [], [(ascii "X", ascii "a,")]⟩] := by
      decide +kernel
    have claimed := reparses conn [] rfl rfl
    rw [dispatched] at claimed
    revert claimed
    decide +kernel
  · intro reparses
    let conn : HttpConnection :=
      { HttpConnection.new with
        requestBuf := HttpConnection.printHeaders (addHeaderLines [] blankName) ++ crlf ++ [] }
    have never : (conn.handleHeaders fun _ => none).log.dispatched = [] := by
      decide +kernel
    have claimed := reparses conn [] rfl rfl
    rw [never] at claimed
    simp at claimed

end Snode.Http
