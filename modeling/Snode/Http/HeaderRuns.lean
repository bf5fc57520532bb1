import Snode.Http.HeaderRoundTrip
import Snode.Lib.OrderedMap

/-!
# Header fields

What a program does to the headers of a message, one operation after the other.  For each name
they are a field of its own, which the operations on other names leave alone.
-/

namespace Snode.Http

namespace HttpHeaders

/-- `headers_.erase(name)`. -/
def remove (name : Bytes) : HttpHeaders → HttpHeaders
  | [] => []
  | (key, value) :: rest =>
      if caseInsensitiveCmp name key then (key, value) :: rest
      else if caseInsensitiveCmp key name then (key, value) :: remove name rest
      else rest

/-- `operator[]`, of which the reference is not used. -/
def subscript (headers : HttpHeaders) (name : Bytes) : HttpHeaders :=
  headers.modify name id

def has (headers : HttpHeaders) (name : Bytes) : Bool :=
  (headers.find name).isSome

def contentLength (headers : HttpHeaders) : ℕ :=
  (headers.matchSize HeaderNames.contentLength 0).2

def setContentLength (headers : HttpHeaders) (length : ℕ) : HttpHeaders :=
  headers.set HeaderNames.contentLength (printNumber length)

/-! ### The headers as an ordered map -/

theorem modify_eq (headers : HttpHeaders) (name : Bytes) (change : Bytes → Bytes) :
    headers.modify name change =
      OrderedMap.alterEntries headerKey name (fun value => change (value.getD [])) headers := by
  induction headers with
  | nil => rfl
  | cons entry rest ih =>
      simp only [modify, OrderedMap.alterEntries, caseInsensitiveCmp_iff, ih]
      rfl

theorem remove_eq (headers : HttpHeaders) (name : Bytes) :
    headers.remove name = OrderedMap.eraseEntries headerKey name headers := by
  induction headers with
  | nil => rfl
  | cons entry rest ih =>
      by_cases before : headerKey name < headerKey entry.1
      · simp only [remove, OrderedMap.eraseEntries, caseInsensitiveCmp_iff, if_pos before]
      · by_cases after : headerKey entry.1 < headerKey name
        · simp only [remove, OrderedMap.eraseEntries, caseInsensitiveCmp_iff, if_neg before,
            if_pos after, ih]
        · simp only [remove, OrderedMap.eraseEntries, caseInsensitiveCmp_iff, if_neg before,
            if_neg after]

theorem find_eq (headers : HttpHeaders) (name : Bytes) :
    headers.find name = (OrderedMap.findEntry headerKey name headers).map Prod.snd := by
  induction headers with
  | nil => rfl
  | cons entry rest ih =>
      simp only [find, OrderedMap.findEntry, caseInsensitiveCmp_iff, ih]
      split
      · rfl
      · split
        · rfl
        · rfl

end HttpHeaders

/-- A field; its values are the first one and those that were added. -/
structure Field where
  name : Bytes
  first : Bytes
  added : List Bytes

namespace Field

/-- The values as one text. -/
def text (field : Field) : Bytes :=
  (ascii ", ").intercalate (field.first :: field.added)

/-- The entry of the map. -/
def entry (field : Field) : Bytes × Bytes :=
  (field.name, field.text)

def add (field : Field) (value : Bytes) : Field :=
  { field with added := field.added ++ [value] }

theorem text_one (name value : Bytes) : (⟨name, value, []⟩ : Field).text = value := by
  simp [text]

theorem text_add (field : Field) (value : Bytes) :
    (field.add value).text = field.text ++ ascii ", " ++ value := by
  rw [text, text, add, intercalate_eq, intercalate_eq, List.flatMap_append]
  simp

end Field

/-- What is done to headers. -/
inductive HeaderOp where
  | add (name value : Bytes)
  | set (name value : Bytes)
  | subscript (name : Bytes)
  | remove (name : Bytes)
  | clear

namespace HeaderOp

def exec (headers : HttpHeaders) : HeaderOp → HttpHeaders
  | add name value => headers.add name value
  | set name value => headers.set name value
  | subscript name => headers.subscript name
  | remove name => headers.remove name
  | clear => []

/-- Whether an operation is on a name, in whatever case. -/
def Concerns (name : Bytes) : HeaderOp → Prop
  | add other _ | set other _ | subscript other | remove other => SameName other name
  | clear => True

instance (name : Bytes) : DecidablePred (Concerns name) := fun op =>
  match op with
  | add other _ | set other _ | subscript other | remove other =>
      inferInstanceAs (Decidable (SameName other name))
  | clear => inferInstanceAs (Decidable True)

/-- What an operation on its name does to a field. -/
def change (field : Option Field) : HeaderOp → Option Field
  | add name value => some (field.elim ⟨name, value, []⟩ (·.add value))
  | set name value => some ⟨field.elim name Field.name, value, []⟩
  | subscript name => some (field.getD ⟨name, [], []⟩)
  | remove _ | clear => none

/-- The field of a name after some operations. -/
def fieldAfter (ops : List HeaderOp) (name : Bytes) : Option Field :=
  (ops.filter fun op => decide (op.Concerns name)).foldl change none

/-! ### What an operation does to the map -/

def onMap (map : OrderedMap headerKey Bytes) : HeaderOp → OrderedMap headerKey Bytes
  | add name value => map.alter name fun current =>
      current.elim value fun text => text ++ ascii ", " ++ value
  | set name value => map.assign name value
  | subscript name => map.alter name fun current => current.getD []
  | remove name => map.erase name
  | clear => .empty

theorem entries_onMap (map : OrderedMap headerKey Bytes) (op : HeaderOp) :
    (op.onMap map).entries = op.exec map.entries := by
  cases op with
  | add name value =>
      have found : HttpHeaders.find name map.entries = map.lookup name :=
        HttpHeaders.find_eq map.entries name
      have same : map.alter name (fun current =>
          current.elim value fun text => text ++ ascii ", " ++ value) =
            map.alter name (fun current => if (map.lookup name).isSome then
              current.getD [] ++ ascii ", " ++ value else value) := by
        apply OrderedMap.alter_congr
        rcases map.lookup name with _ | text
        · rfl
        · rfl
      rw [onMap, same, exec, HttpHeaders.add, found, HttpHeaders.modify_eq]
      rfl
  | set name value => exact (HttpHeaders.modify_eq map.entries name fun _ => value).symm
  | subscript name => exact (HttpHeaders.modify_eq map.entries name id).symm
  | remove name => exact (HttpHeaders.remove_eq map.entries name).symm
  | clear => rfl

section Entries

variable {map : OrderedMap headerKey Bytes} {name : Bytes} {field : Option Field}

theorem find_alter {other : Bytes} {change : Option Bytes → Bytes} {next : Field}
    (entry : map.find name = field.map Field.entry)
    (changed : field.elim (other, change none) (fun field =>
      (field.name, change (some field.text))) = next.entry) :
    (map.alter other change).find name =
      (if SameName other name then some next else field).map Field.entry := by
  by_cases same : SameName other name
  · have key := (sameName_iff_headerKey other name).mp same
    rw [OrderedMap.find_alter, if_pos key.symm, if_pos same, OrderedMap.find_congr key, entry,
      Option.map_some, ← changed]
    rcases field with _ | field
    · rfl
    · rfl
  · have key : headerKey name ≠ headerKey other := fun key =>
      same ((sameName_iff_headerKey other name).mpr key.symm)
    rw [OrderedMap.find_alter, if_neg key, if_neg same, entry]

/-- The operations on a name do to its entry what they do to its field. -/
theorem find_onMap (entry : map.find name = field.map Field.entry) (op : HeaderOp) :
    (op.onMap map).find name =
      (if op.Concerns name then op.change field else field).map Field.entry := by
  cases op with
  | add other value =>
      apply find_alter entry
      rcases field with _ | field
      · exact congrArg (Prod.mk other) (Field.text_one other value).symm
      · exact congrArg (Prod.mk field.name) (field.text_add value).symm
  | set other value =>
      apply find_alter entry
      rcases field with _ | field
      · exact congrArg (Prod.mk other) (Field.text_one other value).symm
      · exact congrArg (Prod.mk field.name) (Field.text_one field.name value).symm
  | subscript other =>
      apply find_alter entry
      rcases field with _ | field
      · rfl
      · rfl
  | remove other =>
      change (map.erase other).find name = _
      by_cases same : SameName other name
      · have key := (sameName_iff_headerKey other name).mp same
        have concerns : Concerns name (remove other) := same
        rw [OrderedMap.find_erase, if_pos key.symm, if_pos concerns]
        rfl
      · have key : headerKey name ≠ headerKey other := fun key =>
          same ((sameName_iff_headerKey other name).mpr key.symm)
        have elsewhere : ¬Concerns name (remove other) := same
        rw [OrderedMap.find_erase, if_neg key, if_neg elsewhere, entry]
  | clear =>
      have concerns : Concerns name clear := trivial
      rw [if_pos concerns]
      rfl

end Entries

/-! ### Runs -/

/-- The headers after some operations, of a message that had none. -/
def run (ops : List HeaderOp) : HttpHeaders :=
  ops.foldl exec []

/-- The same for the map. -/
def mapAfter (ops : List HeaderOp) : OrderedMap headerKey Bytes :=
  ops.foldl onMap .empty

theorem entries_mapAfter (ops : List HeaderOp) : (mapAfter ops).entries = run ops := by
  induction ops using List.reverseRecOn with
  | nil => rfl
  | append_singleton ops op ih =>
      rw [mapAfter, run, List.foldl_append, List.foldl_append, List.foldl_cons, List.foldl_cons,
        List.foldl_nil, List.foldl_nil, entries_onMap]
      exact congrArg (exec · op) ih

theorem find_mapAfter (ops : List HeaderOp) (name : Bytes) :
    (mapAfter ops).find name = (fieldAfter ops name).map Field.entry := by
  induction ops using List.reverseRecOn with
  | nil => rfl
  | append_singleton ops op ih =>
      rw [mapAfter, fieldAfter, List.foldl_append, List.filter_append, List.foldl_append]
      refine (find_onMap ih op).trans ?_
      by_cases concerns : op.Concerns name
      · simp [concerns, fieldAfter]
      · simp [concerns, fieldAfter]

theorem find_run (ops : List HeaderOp) (name : Bytes) :
    (run ops).find name = (fieldAfter ops name).map Field.text := by
  rw [← entries_mapAfter, HttpHeaders.find_eq]
  change ((mapAfter ops).find name).map Prod.snd = _
  rw [find_mapAfter, Option.map_map]
  rfl

/-- The headers are the fields of their names: in the order of the names there is an entry for
each, under the name it was first given. -/
theorem headers_run (ops : List HeaderOp) :
    (run ops).Sorted ∧
      (∀ name, (run ops).find name = (fieldAfter ops name).map Field.text ∧
        (run ops).has name = (fieldAfter ops name).isSome) ∧
      ∀ key value, (key, value) ∈ run ops ↔
        ∃ field, fieldAfter ops key = some field ∧ field.name = key ∧ field.text = value := by
  refine ⟨?_, fun name => ⟨find_run ops name, ?_⟩, fun key value => ?_⟩
  · rw [← entries_mapAfter]
    exact (mapAfter ops).sorted
  · rw [HttpHeaders.has, find_run, Option.isSome_map]
  · rw [← entries_mapAfter]
    have found : (key, value) ∈ (mapAfter ops).entries ↔
        (mapAfter ops).find key = some (key, value) := by
      rw [OrderedMap.find_eq_some_iff, and_iff_left rfl]
    rw [found, find_mapAfter, Option.map_eq_some_iff]
    simp only [Field.entry, Prod.mk.injEq]

/-- Operations on different names can be done in any order. -/
theorem run_congr {ops others : List HeaderOp}
    (same : ∀ name, ops.filter (fun op => decide (op.Concerns name)) =
      others.filter fun op => decide (op.Concerns name)) : run ops = run others := by
  rw [← entries_mapAfter, ← entries_mapAfter]
  apply congrArg OrderedMap.entries
  apply OrderedMap.ext_find
  intro name
  rw [find_mapAfter, find_mapAfter, fieldAfter, fieldAfter, same]

theorem run_congr_two :
    run [add [97] [1], set [98] [2]] = run [set [98] [2], add [97] [1]] := by
  apply run_congr
  intro name
  by_cases first : SameName [97] name
  · have notSecond : ¬SameName [98] name := by
      rw [SameName, ← first]
      decide
    simp [Concerns, first, notSecond]
  · simp [List.filter_cons, Concerns, first]

/-- A length that was set is the length, until something is done to its field. -/
theorem contentLength_run {length : ℕ} (small : length < 2 ^ 64) (before : List HeaderOp)
    {after : List HeaderOp}
    (elsewhere : ∀ op ∈ after, ¬op.Concerns HeaderNames.contentLength) :
    (after.foldl exec ((run before).setContentLength length)).contentLength = length := by
  let sets := set HeaderNames.contentLength (printNumber length)
  have concerns : Concerns HeaderNames.contentLength sets := rfl
  have whole : after.foldl exec ((run before).setContentLength length) =
      run (before ++ sets :: after) := by
    change _ = (before ++ sets :: after).foldl exec []
    rw [List.foldl_append]
    rfl
  have others : after.filter (fun op => decide (op.Concerns HeaderNames.contentLength)) = [] := by
    apply List.filter_eq_nil_iff.mpr
    intro op present
    simpa using elsewhere op present
  have last : (sets :: after).filter (fun op => decide (op.Concerns HeaderNames.contentLength)) =
      [sets] := by
    rw [List.filter_cons, if_pos (decide_eq_true concerns), others]
  have field : ∃ name, fieldAfter (before ++ sets :: after) HeaderNames.contentLength =
      some ⟨name, printNumber length, []⟩ := by
    rw [fieldAfter, List.filter_append, last, List.foldl_append]
    exact ⟨_, rfl⟩
  rcases field with ⟨name, field⟩
  have found : (run (before ++ sets :: after)).find HeaderNames.contentLength =
      some (printNumber length) := by
    rw [find_run, field, Option.map_some, Field.text_one]
  rw [whole, HttpHeaders.contentLength, HttpHeaders.matchSize_printNumber small found]

theorem contentLength_run_add :
    ([add [97] [1]].foldl exec ((run []).setContentLength 5)).contentLength = 5 := by
  apply contentLength_run (by decide)
  intro op present
  rw [List.mem_singleton.mp present]
  decide

end HeaderOp

end Snode.Http
