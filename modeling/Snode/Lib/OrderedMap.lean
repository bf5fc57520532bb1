import Mathlib.Data.List.Nodup
import Mathlib.Order.Lattice

/-!
# Ordered maps

A map by a comparator that sees no more of a key than its rank, as the list of its entries in
map order.  An entry keeps the key it was made with.
-/

universe u v w

/-- An ordered map; that its entries are in order, and no two of one rank, is a field. -/
structure OrderedMap {κ : Type u} {ρ : Type v} [LinearOrder ρ] (rank : κ → ρ) (β : Type w) where
  entries : List (κ × β)
  sorted : entries.Pairwise fun first second => rank first.1 < rank second.1

namespace OrderedMap

variable {κ : Type u} {ρ : Type v} [LinearOrder ρ] {β : Type w}

/-! ### Operations on entries -/

section Entries

variable (rank : κ → ρ) (key : κ)

def findEntry : List (κ × β) → Option (κ × β)
  | [] => none
  | entry :: rest =>
      if rank key < rank entry.1 then none
      else if rank entry.1 < rank key then findEntry rest
      else some entry

/-- Changes the value of a key, or makes an entry with the value for none. -/
def alterEntries (change : Option β → β) : List (κ × β) → List (κ × β)
  | [] => [(key, change none)]
  | entry :: rest =>
      if rank key < rank entry.1 then (key, change none) :: entry :: rest
      else if rank entry.1 < rank key then entry :: alterEntries change rest
      else (entry.1, change (some entry.2)) :: rest

def eraseEntries : List (κ × β) → List (κ × β)
  | [] => []
  | entry :: rest =>
      if rank key < rank entry.1 then entry :: rest
      else if rank entry.1 < rank key then entry :: eraseEntries rest
      else rest

variable {rank key}

theorem rank_of_mem_alterEntries {change : Option β → β} {entries : List (κ × β)} {entry : κ × β}
    (present : entry ∈ alterEntries rank key change entries) :
    rank entry.1 = rank key ∨ entry ∈ entries := by
  induction entries with
  | nil =>
      obtain rfl := List.mem_singleton.mp present
      exact .inl rfl
  | cons first rest ih =>
      rw [alterEntries] at present
      split at present
      · rcases List.mem_cons.mp present with rfl | later
        · exact .inl rfl
        · exact .inr later
      · split at present
        · rcases List.mem_cons.mp present with rfl | later
          · exact .inr List.mem_cons_self
          · exact (ih later).imp_right (List.mem_cons_of_mem first)
        · next notBefore notBehind =>
            rcases List.mem_cons.mp present with rfl | later
            · exact .inl (le_antisymm (not_lt.mp notBefore) (not_lt.mp notBehind))
            · exact .inr (List.mem_cons_of_mem first later)

theorem mem_of_mem_eraseEntries {entries : List (κ × β)} {entry : κ × β}
    (present : entry ∈ eraseEntries rank key entries) : entry ∈ entries := by
  induction entries with
  | nil => exact present
  | cons first rest ih =>
      rw [eraseEntries] at present
      split at present
      · exact present
      · split at present
        · rcases List.mem_cons.mp present with rfl | later
          · exact List.mem_cons_self
          · exact List.mem_cons_of_mem first (ih later)
        · exact List.mem_cons_of_mem first present

theorem pairwise_alterEntries {entries : List (κ × β)}
    (sorted : entries.Pairwise fun first second => rank first.1 < rank second.1)
    (change : Option β → β) :
    (alterEntries rank key change entries).Pairwise
      fun first second => rank first.1 < rank second.1 := by
  induction entries with
  | nil => exact List.pairwise_singleton _ _
  | cons first rest ih =>
      have behind := (List.pairwise_cons.mp sorted).1
      rw [alterEntries]
      split
      · next before =>
          refine List.pairwise_cons.mpr ⟨fun entry present => ?_, sorted⟩
          rcases List.mem_cons.mp present with rfl | later
          · exact before
          · exact before.trans (behind entry later)
      · split
        · next after =>
            refine List.pairwise_cons.mpr ⟨fun entry present => ?_, ih sorted.of_cons⟩
            rcases rank_of_mem_alterEntries present with same | later
            · rwa [same]
            · exact behind entry later
        · exact List.pairwise_cons.mpr ⟨behind, sorted.of_cons⟩

theorem pairwise_eraseEntries {entries : List (κ × β)}
    (sorted : entries.Pairwise fun first second => rank first.1 < rank second.1) :
    (eraseEntries rank key entries).Pairwise
      fun first second => rank first.1 < rank second.1 := by
  induction entries with
  | nil => exact sorted
  | cons first rest ih =>
      rw [eraseEntries]
      split
      · exact sorted
      · split
        · refine List.pairwise_cons.mpr ⟨fun entry present => ?_, ih sorted.of_cons⟩
          exact List.rel_of_pairwise_cons sorted (mem_of_mem_eraseEntries present)
        · exact sorted.of_cons

/-- In map order, what is found is the entry of the rank. -/
theorem findEntry_eq_some_iff {entries : List (κ × β)}
    (sorted : entries.Pairwise fun first second => rank first.1 < rank second.1)
    {entry : κ × β} :
    findEntry rank key entries = some entry ↔ entry ∈ entries ∧ rank entry.1 = rank key := by
  induction entries with
  | nil => simp [findEntry]
  | cons first rest ih =>
      have behind := (List.pairwise_cons.mp sorted).1 entry
      rw [findEntry, List.mem_cons]
      split
      · next before =>
          constructor
          · intro found
            cases found
          · rintro ⟨rfl | later, same⟩
            · exact absurd same before.ne'
            · exact absurd same (before.trans (behind later)).ne'
      · split
        · next after =>
            rw [ih sorted.of_cons]
            constructor
            · exact fun found => ⟨.inr found.1, found.2⟩
            · rintro ⟨rfl | later, same⟩
              · exact absurd same after.ne
              · exact ⟨later, same⟩
        · next notBefore notAfter =>
            have here : rank first.1 = rank key :=
              le_antisymm (not_lt.mp notBefore) (not_lt.mp notAfter)
            constructor
            · intro found
              obtain rfl := Option.some.inj found
              exact ⟨.inl rfl, here⟩
            · rintro ⟨rfl | later, same⟩
              · rfl
              · exact absurd (here.trans same.symm) (behind later).ne

theorem mem_eraseEntries_iff {entries : List (κ × β)}
    (sorted : entries.Pairwise fun first second => rank first.1 < rank second.1)
    {entry : κ × β} :
    entry ∈ eraseEntries rank key entries ↔ entry ∈ entries ∧ rank entry.1 ≠ rank key := by
  induction entries with
  | nil => simp [eraseEntries]
  | cons first rest ih =>
      have behind := (List.pairwise_cons.mp sorted).1 entry
      rw [eraseEntries]
      split
      · next before =>
          refine ⟨fun present => ⟨present, ?_⟩, And.left⟩
          rcases List.mem_cons.mp present with rfl | later
          · exact before.ne'
          · exact (before.trans (behind later)).ne'
      · split
        · next after =>
            rw [List.mem_cons, List.mem_cons, ih sorted.of_cons, or_and_right]
            refine or_congr_left ⟨?_, And.left⟩
            rintro rfl
            exact ⟨rfl, after.ne⟩
        · next notBefore notAfter =>
            have here : rank first.1 = rank key :=
              le_antisymm (not_lt.mp notBefore) (not_lt.mp notAfter)
            constructor
            · intro later
              refine ⟨List.mem_cons_of_mem first later, ?_⟩
              rw [← here]
              exact (behind later).ne'
            · rintro ⟨present, different⟩
              rcases List.mem_cons.mp present with rfl | later
              · exact absurd here different
              · exact later

theorem findEntry_alterEntries_self (change : Option β → β) (entries : List (κ × β)) :
    findEntry rank key (alterEntries rank key change entries) =
      some ((findEntry rank key entries).elim (key, change none) fun entry =>
        (entry.1, change (some entry.2))) := by
  induction entries with
  | nil => simp [alterEntries, findEntry]
  | cons first rest ih =>
      by_cases before : rank key < rank first.1
      · simp [alterEntries, findEntry, before]
      · by_cases after : rank first.1 < rank key
        · simp [alterEntries, findEntry, before, after, ih]
        · simp [alterEntries, findEntry, before, after]

theorem findEntry_alterEntries_other {other : κ} (different : rank other ≠ rank key)
    (change : Option β → β) (entries : List (κ × β)) :
    findEntry rank other (alterEntries rank key change entries) =
      findEntry rank other entries := by
  induction entries with
  | nil => rcases lt_or_gt_of_ne different with below | above <;> simp [alterEntries, findEntry, *]
  | cons first rest ih =>
      by_cases before : rank key < rank first.1
      · rcases lt_or_gt_of_ne different with below | above
        · simp [alterEntries, findEntry, before, below, below.trans before]
        · simp [alterEntries, findEntry, before, above, above.not_gt]
      · by_cases after : rank first.1 < rank key
        · simp only [alterEntries, findEntry, before, after, if_true, if_false, ih]
        · have here : rank first.1 = rank key := le_antisymm (not_lt.mp before) (not_lt.mp after)
          rcases lt_or_gt_of_ne different with below | above <;>
            simp [alterEntries, findEntry, *, lt_asymm]

end Entries

/-! ### Maps -/

section Maps

variable {rank : κ → ρ}

theorem ext_entries {first second : OrderedMap rank β} (same : first.entries = second.entries) :
    first = second := by
  cases first
  cases second
  simpa using same

def empty : OrderedMap rank β where
  entries := []
  sorted := .nil

variable (map : OrderedMap rank β) (key : κ)

/-- The entry of a key, if there is one. -/
def find : Option (κ × β) :=
  findEntry rank key map.entries

def alter (change : Option β → β) : OrderedMap rank β where
  entries := alterEntries rank key change map.entries
  sorted := pairwise_alterEntries map.sorted change

/-- `map[key] = value`. -/
def assign (value : β) : OrderedMap rank β :=
  map.alter key fun _ => value

def erase : OrderedMap rank β where
  entries := eraseEntries rank key map.entries
  sorted := pairwise_eraseEntries map.sorted

@[simp]
theorem find_empty : (empty : OrderedMap rank β).find key = none :=
  rfl

variable {map key}

theorem find_eq_some_iff {entry : κ × β} :
    map.find key = some entry ↔ entry ∈ map.entries ∧ rank entry.1 = rank key :=
  findEntry_eq_some_iff map.sorted

theorem find_eq_none_iff :
    map.find key = none ↔ ∀ entry ∈ map.entries, rank entry.1 ≠ rank key := by
  rw [Option.eq_none_iff_forall_ne_some]
  constructor
  · intro none entry present same
    exact none entry (find_eq_some_iff.mpr ⟨present, same⟩)
  · intro none entry found
    rcases find_eq_some_iff.mp found with ⟨present, same⟩
    exact none entry present same

/-- No more of a key counts than its rank. -/
theorem find_congr {other : κ} (same : rank other = rank key) : map.find other = map.find key := by
  apply Option.ext
  intro entry
  rw [find_eq_some_iff, find_eq_some_iff, same]

theorem find_alter (map : OrderedMap rank β) (key other : κ) (change : Option β → β) :
    (map.alter key change).find other =
      if rank other = rank key then
        some ((map.find key).elim (key, change none) fun entry =>
          (entry.1, change (some entry.2)))
      else map.find other := by
  split
  · next same =>
      rw [find_congr same]
      exact findEntry_alterEntries_self change map.entries
  · next different => exact findEntry_alterEntries_other different change map.entries

theorem find_erase (map : OrderedMap rank β) (key other : κ) :
    (map.erase key).find other = if rank other = rank key then none else map.find other := by
  have erased (entry : κ × β) : entry ∈ eraseEntries rank key map.entries ↔ _ :=
    mem_eraseEntries_iff map.sorted
  split
  · next same =>
      rw [find_eq_none_iff, same]
      exact fun entry present => ((erased entry).mp present).2
  · next different =>
      apply Option.ext
      intro entry
      rw [find_eq_some_iff, find_eq_some_iff]
      constructor
      · exact fun found => ⟨((erased entry).mp found.1).1, found.2⟩
      · exact fun found => ⟨(erased entry).mpr ⟨found.1, found.2 ▸ different⟩, found.2⟩

/-- The value of a key, if there is one. -/
def lookup (map : OrderedMap rank β) (key : κ) : Option β :=
  (map.find key).map Prod.snd

@[simp]
theorem lookup_empty (key : κ) : (empty : OrderedMap rank β).lookup key = none :=
  rfl

theorem lookup_alter (map : OrderedMap rank β) (key other : κ) (change : Option β → β) :
    (map.alter key change).lookup other =
      if rank other = rank key then some (change (map.lookup key)) else map.lookup other := by
  rw [lookup, find_alter, lookup]
  split
  · rcases map.find key with _ | entry <;> rfl
  · rfl

theorem lookup_assign (map : OrderedMap rank β) (key other : κ) (value : β) :
    (map.assign key value).lookup other =
      if rank other = rank key then some value else map.lookup other :=
  map.lookup_alter key other fun _ => value

theorem lookup_eq_some_iff {value : β} :
    map.lookup key = some value ↔ ∃ entry ∈ map.entries, rank entry.1 = rank key ∧
      entry.2 = value := by
  rw [lookup, Option.map_eq_some_iff]
  constructor
  · rintro ⟨entry, found, rfl⟩
    rcases find_eq_some_iff.mp found with ⟨present, same⟩
    exact ⟨entry, present, same, rfl⟩
  · rintro ⟨entry, present, same, rfl⟩
    exact ⟨entry, find_eq_some_iff.mpr ⟨present, same⟩, rfl⟩

/-- No two entries are of one rank. -/
theorem eq_of_rank_eq {first second : κ × β} (left : first ∈ map.entries)
    (right : second ∈ map.entries) (same : rank first.1 = rank second.1) : first = second := by
  have here : map.find second.1 = some first := find_eq_some_iff.mpr ⟨left, same⟩
  have there : map.find second.1 = some second := find_eq_some_iff.mpr ⟨right, rfl⟩
  exact Option.some.inj (here.symm.trans there)

theorem nodup_entries (map : OrderedMap rank β) : map.entries.Nodup :=
  map.sorted.imp fun below same => (same ▸ below).false

/-- A map is what can be found in it. -/
theorem ext_find {first second : OrderedMap rank β}
    (same : ∀ key, first.find key = second.find key) : first = second := by
  apply ext_entries
  apply List.Perm.eq_of_pairwise _ first.sorted second.sorted
  · rw [List.perm_ext_iff_of_nodup first.nodup_entries second.nodup_entries]
    intro entry
    have found := same entry.1
    constructor
    · intro present
      have here : first.find entry.1 = some entry := find_eq_some_iff.mpr ⟨present, rfl⟩
      exact (find_eq_some_iff.mp (found ▸ here)).1
    · intro present
      have here : second.find entry.1 = some entry := find_eq_some_iff.mpr ⟨present, rfl⟩
      exact (find_eq_some_iff.mp (found.symm ▸ here)).1
  · intro left right _ _ below above
    exact absurd above below.not_gt

/-- Of a change only what it makes of the value that there is counts. -/
theorem alter_congr {map : OrderedMap rank β} {key : κ} {change other : Option β → β}
    (same : change (map.lookup key) = other (map.lookup key)) :
    map.alter key change = map.alter key other := by
  apply ext_find
  intro found
  rw [find_alter, find_alter]
  rcases present : map.find key with _ | entry
  · rw [lookup, present] at same
    exact if_congr Iff.rfl (congrArg (fun value => some (key, value)) same) rfl
  · rw [lookup, present] at same
    exact if_congr Iff.rfl (congrArg (fun value => some (entry.1, value)) same) rfl

end Maps

end OrderedMap
