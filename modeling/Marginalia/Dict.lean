import Marginalia.Text.Basic

/-! Dictionaries with texts as keys. The entries stand in increasing order of their keys, so two
dictionaries with the same contents are equal, and listing one is listing it in order. The order is
by code points, which is also the order of the UTF-8 encodings. -/

namespace Marginalia

/-- A dictionary: one value for each of its keys, in increasing order of the keys. -/
structure Dict (α : Type) where
  entries : List (Text × α)
  ordered : entries.Pairwise fun a b => a.1 < b.1
  deriving DecidableEq

namespace Dict

variable {α β : Type}

def empty : Dict α := ⟨[], .nil⟩

instance : Inhabited (Dict α) := ⟨empty⟩

def get? (d : Dict α) (key : Text) : Option α := d.entries.lookup key

/-- Ordered entries with one more: an entry of the same key is replaced. -/
def insertEntry (key : Text) (value : α) : List (Text × α) → List (Text × α)
  | [] => [(key, value)]
  | entry :: rest =>
    if key = entry.1 then (key, value) :: rest
    else if key < entry.1 then (key, value) :: entry :: rest
    else entry :: insertEntry key value rest

theorem mem_insertEntry {key : Text} {value : α} {entry : Text × α} {entries : List (Text × α)}
    (h : entry ∈ insertEntry key value entries) : entry = (key, value) ∨ entry ∈ entries := by
  induction entries with
  | nil => simpa [insertEntry] using h
  | cons head rest ih =>
    simp only [insertEntry] at h
    split at h
    · rcases List.mem_cons.mp h with h | h
      · exact .inl h
      · exact .inr (List.mem_cons_of_mem _ h)
    · split at h
      · rcases List.mem_cons.mp h with h | h
        · exact .inl h
        · exact .inr h
      · rcases List.mem_cons.mp h with h | h
        · exact .inr (h ▸ List.mem_cons_self)
        · exact (ih h).imp_right (List.mem_cons_of_mem _)

theorem lt_of_not_lt_of_ne {s t : Text} (h : ¬ s < t) (hne : s ≠ t) : t < s :=
  Classical.byContradiction fun h' =>
    hne (List.le_antisymm (List.not_lt.mp h') (List.not_lt.mp h))

theorem pairwise_insertEntry (key : Text) (value : α) {entries : List (Text × α)}
    (h : entries.Pairwise fun a b => a.1 < b.1) :
    (insertEntry key value entries).Pairwise fun a b => a.1 < b.1 := by
  induction entries with
  | nil => simp [insertEntry]
  | cons head rest ih =>
    obtain ⟨hhead, hrest⟩ := List.pairwise_cons.mp h
    simp only [insertEntry]
    split
    · next hkey => exact List.pairwise_cons.mpr ⟨fun b hb => hkey ▸ hhead b hb, hrest⟩
    · next hne =>
      split
      · next hlt =>
        refine List.pairwise_cons.mpr ⟨fun b hb => ?_, h⟩
        rcases List.mem_cons.mp hb with rfl | hb
        · exact hlt
        · exact List.lt_trans hlt (hhead b hb)
      · next hnlt =>
        refine List.pairwise_cons.mpr ⟨fun b hb => ?_, ih hrest⟩
        rcases mem_insertEntry hb with rfl | hb
        · exact lt_of_not_lt_of_ne hnlt hne
        · exact hhead b hb

/-- The dictionary with a key set to a value. The last value set for a key is the one it has. -/
def insert (d : Dict α) (key : Text) (value : α) : Dict α where
  entries := insertEntry key value d.entries
  ordered := pairwise_insertEntry key value d.ordered

/-- The dictionary made from entries in any order; of several for one key the last counts. -/
def ofList (entries : List (Text × α)) : Dict α :=
  entries.foldl (fun d entry => d.insert entry.1 entry.2) empty

/-- The keys in increasing order. -/
def keys (d : Dict α) : List Text := d.entries.map Prod.fst

theorem pairwise_keys (d : Dict α) : d.keys.Pairwise (· < ·) := List.pairwise_map.mpr d.ordered

def values (d : Dict α) : List α := d.entries.map Prod.snd

theorem lookup_cons (k : Text) (entry : Text × α) (rest : List (Text × α)) :
    (entry :: rest).lookup k = if k = entry.1 then some entry.2 else rest.lookup k := by
  rw [List.lookup_cons]
  by_cases hk : k = entry.1
  · rw [if_pos hk, beq_iff_eq.mpr hk]
  · rw [if_neg hk, beq_false_of_ne hk]

theorem lookup_insertEntry (key : Text) (value : α) (k : Text) (entries : List (Text × α)) :
    (insertEntry key value entries).lookup k = if k = key then some value else entries.lookup k := by
  induction entries with
  | nil => rw [insertEntry, lookup_cons]
  | cons head rest ih =>
    simp only [insertEntry]
    split
    · next hkey =>
      rw [lookup_cons, lookup_cons, hkey]
      split <;> rfl
    · split
      · rw [lookup_cons]
      · next hne _ =>
        rw [lookup_cons, lookup_cons, ih]
        by_cases hk : k = key
        · rw [if_pos hk, if_neg (hk ▸ hne), if_pos hk]
        · rw [if_neg hk, if_neg hk]

theorem get?_insert (d : Dict α) (key : Text) (value : α) (k : Text) :
    (d.insert key value).get? k = if k = key then some value else d.get? k :=
  lookup_insertEntry key value k d.entries

theorem mem_entries_iff {d : Dict α} {key : Text} {value : α} :
    (key, value) ∈ d.entries ↔ d.get? key = some value := by
  rw [get?, List.lookup_eq_some_iff]
  constructor
  · intro h
    obtain ⟨before, after, hentries⟩ := List.append_of_mem h
    refine ⟨before, after, hentries, fun entry hentry => ?_⟩
    have hlt := (List.pairwise_append.mp (hentries ▸ d.ordered)).2.2 entry hentry _ List.mem_cons_self
    rw [bne_iff_ne]
    rintro rfl
    exact List.lt_irrefl _ hlt
  · rintro ⟨before, after, hentries, -⟩
    rw [hentries]
    exact List.mem_append_right _ List.mem_cons_self

end Dict
end Marginalia
