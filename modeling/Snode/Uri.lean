import Snode.Http.Text

/-!
# Paths of URIs

`uri::split_path`.
-/

namespace Snode.Uri

open Http

/-- The results of `std::getline(iss, str, '/')` on a whole string; a separator at the very
end starts no further piece. -/
def pieces (separator : UInt8) : Bytes → List Bytes
  | [] => []
  | byte :: rest =>
      if byte = separator then
        [] :: pieces separator rest
      else
        match rest, pieces separator rest with
        | [], _ => [[byte]]
        | next :: _, others =>
            if next = separator then [byte] :: others.drop 1
            else (byte :: others.headD []) :: others.drop 1

def splitPath (uri : Bytes) : List Bytes :=
  let colonFound := (uri.takeWhile (· != 58)).length
  let path :=
    if colonFound < uri.length ∧ uri[colonFound + 1]? = some 47 ∧
        uri[colonFound + 2]? = some 47 then
      ((uri.drop (colonFound + 3)).dropWhile (· != 47)).drop 1
    else
      []
  (pieces 47 path).filter (!·.isEmpty)

/-! ### Pieces -/

theorem pieces_separator (separator : UInt8) (rest : Bytes) :
    pieces separator (separator :: rest) = [] :: pieces separator rest := by
  rw [pieces.eq_def]
  simp

/-- A byte that is no separator goes to the front of the piece behind it. -/
theorem pieces_byte {separator byte next : UInt8} (different : byte ≠ separator)
    (nextDifferent : next ≠ separator) (rest : Bytes) :
    pieces separator (byte :: next :: rest) =
      (byte :: (pieces separator (next :: rest)).headD []) ::
        (pieces separator (next :: rest)).drop 1 := by
  rw [pieces.eq_def]
  simp only [if_neg different, if_neg nextDifferent]

/-- A piece ends at the next separator. -/
theorem pieces_segment {separator : UInt8} {segment : Bytes} (absent : separator ∉ segment)
    (rest : Bytes) :
    pieces separator (segment ++ separator :: rest) = segment :: pieces separator rest := by
  induction segment with
  | nil => exact pieces_separator separator rest
  | cons byte segment ih =>
      obtain ⟨different, absent⟩ : ¬separator = byte ∧ separator ∉ segment := by
        simpa using absent
      have step := ih absent
      cases segment with
      | nil =>
          rw [List.cons_append, List.nil_append, pieces.eq_def]
          simp only [if_neg (Ne.symm different), if_true, pieces_separator, List.drop_one,
            List.tail_cons]
      | cons next segment =>
          have nextDifferent : next ≠ separator := fun same => absent (by simp [same])
          rw [List.cons_append, List.cons_append, pieces_byte (Ne.symm different) nextDifferent,
            ← List.cons_append, step]
          rfl

theorem pieces_last {separator : UInt8} {segment : Bytes} (absent : separator ∉ segment)
    (nonempty : segment ≠ []) : pieces separator segment = [segment] := by
  induction segment with
  | nil => exact (nonempty rfl).elim
  | cons byte segment ih =>
      obtain ⟨different, absent⟩ : ¬separator = byte ∧ separator ∉ segment := by
        simpa using absent
      cases segment with
      | nil => simp [pieces, Ne.symm different]
      | cons next segment =>
          have nextDifferent : next ≠ separator := fun same => absent (by simp [same])
          rw [pieces_byte (Ne.symm different) nextDifferent, ih absent (by simp)]
          rfl

/-- The pieces are those between separators, but for an empty one at the end. -/
theorem pieces_eq_splitOn (separator : UInt8) (text : Bytes) :
    (pieces separator text).filter (!·.isEmpty) =
      (text.splitOn separator).filter (!·.isEmpty) := by
  by_cases present : separator ∈ text
  · rcases List.eq_append_cons_of_mem present with ⟨segment, rest, whole, absent⟩
    have shorter : rest.length < text.length := by
      rw [whole]
      simp
      omega
    have others := pieces_eq_splitOn separator rest
    rw [whole, pieces_segment absent, List.splitOn_append_cons_self_of_not_mem absent,
      List.filter_cons, List.filter_cons, others]
  · rw [List.splitOn_eq_singleton present]
    by_cases empty : text = []
    · rw [empty]
      rfl
    · rw [pieces_last present empty]
termination_by text.length

/-! ### Paths -/

/-- A scheme, an authority and what follows them. -/
def withAuthority (scheme authority rest : Bytes) : Bytes :=
  scheme ++ ascii "://" ++ authority ++ rest

/-- Only what stands behind the slash after the authority is split. -/
theorem splitPath_withAuthority {scheme authority rest : Bytes} (noColon : 58 ∉ scheme)
    (noSlash : 47 ∉ authority) (ends : ∀ byte, rest.head? = some byte → byte = 47) :
    splitPath (withAuthority scheme authority rest) =
      ((rest.drop 1).splitOn 47).filter (!·.isEmpty) := by
  have literal : ascii "://" = [58, 47, 47] := by decide
  have whole : withAuthority scheme authority rest =
      scheme ++ 58 :: 47 :: 47 :: (authority ++ rest) := by
    simp [withAuthority, literal]
  have beforeColon : (withAuthority scheme authority rest).takeWhile (· != 58) = scheme := by
    rw [whole, List.takeWhile_append_of_pos]
    · simp
    · intro byte present
      rw [bne_iff_ne]
      exact fun same => noColon (same ▸ present)
  have slashes : scheme.length < (withAuthority scheme authority rest).length ∧
      (withAuthority scheme authority rest)[scheme.length + 1]? = some 47 ∧
      (withAuthority scheme authority rest)[scheme.length + 2]? = some 47 := by
    rw [whole]
    simp
  have behind : (withAuthority scheme authority rest).drop (scheme.length + 3) =
      authority ++ rest := by
    rw [whole, List.drop_append]
    simp
  have beforePath : (authority ++ rest).dropWhile (· != 47) = rest := by
    rw [List.dropWhile_append_of_pos]
    · cases rest with
      | nil => rfl
      | cons byte rest => simp [ends byte rfl]
    · intro byte present
      rw [bne_iff_ne]
      exact fun same => noSlash (same ▸ present)
  rw [splitPath, beforeColon]
  simp only [slashes, and_self, if_true, behind, beforePath]
  exact pieces_eq_splitOn 47 _

/-- Segments joined by slashes, one or more between two of them. -/
inductive Joined : List Bytes → Bytes → Prop where
  | nil (trailing : ℕ) : Joined [] (List.replicate trailing 47)
  | last (segment : Bytes) (trailing : ℕ) :
      Joined [segment] (segment ++ List.replicate trailing 47)
  | cons (segment : Bytes) (between : ℕ) {segments : List Bytes} {text : Bytes} :
      Joined segments text →
      Joined (segment :: segments) (segment ++ List.replicate (between + 1) 47 ++ text)

theorem splitOn_slashes (count : ℕ) (text : Bytes) :
    ((List.replicate count 47 ++ text).splitOn 47).filter (!·.isEmpty) =
      (text.splitOn 47).filter (!·.isEmpty) := by
  induction count with
  | zero => simp
  | succ count ih =>
      have first : (47 :: (List.replicate count 47 ++ text)).splitOn 47 =
          [] :: (List.replicate count 47 ++ text).splitOn 47 :=
        List.splitOn_append_cons_self_of_not_mem (List.not_mem_nil) _
      rw [List.replicate_succ, List.cons_append, first, List.filter_cons_of_neg (by simp), ih]

theorem Joined.splitOn {segments : List Bytes} {text : Bytes} (joined : Joined segments text)
    (proper : ∀ segment ∈ segments, segment ≠ [] ∧ 47 ∉ segment) :
    (text.splitOn 47).filter (!·.isEmpty) = segments := by
  induction joined with
  | nil trailing =>
      have slashes := splitOn_slashes trailing []
      rw [List.append_nil] at slashes
      rw [slashes]
      rfl
  | last segment trailing =>
      rcases proper segment (by simp) with ⟨nonempty, absent⟩
      have kept : (!segment.isEmpty) = true := by simpa using nonempty
      cases trailing with
      | zero => simp [List.splitOn_eq_singleton absent, nonempty]
      | succ trailing =>
          have slashes := splitOn_slashes trailing []
          rw [List.append_nil] at slashes
          rw [List.replicate_succ, List.splitOn_append_cons_self_of_not_mem absent,
            List.filter_cons, if_pos kept, slashes]
          rfl
  | cons segment between joined ih =>
      rcases proper segment (by simp) with ⟨nonempty, absent⟩
      have kept : (!segment.isEmpty) = true := by simpa using nonempty
      have others := ih fun other present => proper other (List.mem_cons_of_mem _ present)
      rw [List.append_assoc, List.replicate_succ, List.cons_append,
        List.splitOn_append_cons_self_of_not_mem absent, List.filter_cons, if_pos kept,
        splitOn_slashes, others]

/-- Splitting gives the pieces of the path that are not empty, so that it undoes joining; and a
URI without a path has none. -/
theorem splitPath_inverts (scheme authority : Bytes) (noColon : 58 ∉ scheme)
    (noSlash : 47 ∉ authority) :
    (∀ path, splitPath (withAuthority scheme authority (47 :: path)) =
        (path.splitOn 47).filter (!·.isEmpty)) ∧
      (∀ segments text leading, (∀ segment ∈ segments, segment ≠ [] ∧ 47 ∉ segment) →
        Joined segments text →
        splitPath (withAuthority scheme authority (47 :: (List.replicate leading 47 ++ text))) =
          segments) ∧
      splitPath (withAuthority scheme authority []) = [] := by
  have split : ∀ path, splitPath (withAuthority scheme authority (47 :: path)) =
      (path.splitOn 47).filter (!·.isEmpty) := by
    intro path
    exact splitPath_withAuthority noColon noSlash (by simp)
  refine ⟨split, ?_, ?_⟩
  · intro segments text leading proper joined
    rw [split, splitOn_slashes, joined.splitOn proper]
  · rw [splitPath_withAuthority noColon noSlash (by simp)]
    rfl

theorem splitPath_inverts_port :
    splitPath (withAuthority (ascii "http") (ascii "localhost:8080")
        (47 :: (List.replicate 1 47 ++ (ascii "a:b" ++ List.replicate 2 47 ++
          (ascii "c" ++ List.replicate 1 47))))) =
      [ascii "a:b", ascii "c"] := by
  have inverts := splitPath_inverts (ascii "http") (ascii "localhost:8080") (by decide) (by decide)
  exact inverts.2.1 _ _ 1 (by decide) (.cons _ 1 (.last _ 1))

end Snode.Uri
