import Marginalia.Path

/-! The file tree a command works in. Its root is the working directory, and nothing exists outside
it. A tree is a list of entries, each with the names that lead to it from the root. No place has two
entries, and an entry that is not right below the root is in a folder that is an entry too. -/

namespace Marginalia

/-- The names that lead from the root of a tree to a place in it. -/
abbrev Location := List Text

/-- The same location. The number of names is compared first and tells most locations apart. -/
def Location.isSame (a b : Location) : Bool := a.length == b.length && a == b

theorem Location.isSame_iff {a b : Location} : a.isSame b = true ↔ a = b := by
  rw [isSame, Bool.and_eq_true, beq_iff_eq, beq_iff_eq]
  exact ⟨And.right, fun h => ⟨congrArg List.length h, h⟩⟩

/-- What stands at a place: a file with text, a file that holds no text, or a folder. -/
inductive Entry where
  | text (s : Text)
  | binary
  | folder
  deriving DecidableEq

/-- Why a path cannot be used. -/
inductive PathFault where
  /-- The text holds a NUL. -/
  | notAPath
  /-- The path or one of its names has too many bytes. -/
  | tooLong
  | notFound
  | notAFolder
  | isAFolder
  | notText
  deriving DecidableEq

structure Tree where
  entries : List (Location × Entry)
  distinct : entries.Pairwise fun a b => a.1 ≠ b.1
  named : ∀ e ∈ entries, e.1 ≠ [] ∧ ∀ name ∈ e.1, Path.isName name
  housed : ∀ e ∈ entries, e.1.dropLast = [] ∨ (e.1.dropLast, Entry.folder) ∈ entries
  deriving DecidableEq

namespace Entry

/-- The file that holds these bytes. They are a text if they are valid UTF-8. -/
def ofBytes (bytes : ByteArray) : Entry :=
  match String.fromUTF8? bytes with
  | some s => .text s.toList
  | none => .binary

def isFile : Entry → Bool
  | .text _ => true
  | .binary => true
  | .folder => false

end Entry

namespace Tree

def empty : Tree := ⟨[], .nil, nofun, nofun⟩

/-- What stands at a place. The root is a folder. -/
def get? (tree : Tree) (place : Location) : Option Entry :=
  if place = [] then some .folder
  else (tree.entries.find? fun e => e.1.isSame place).map Prod.snd

/-- The entries at other places. -/
def entriesApartFrom (tree : Tree) (place : Location) : List (Location × Entry) :=
  tree.entries.filter fun e => e.1 ≠ place

theorem mem_entriesApartFrom {tree : Tree} {place : Location} {e : Location × Entry} :
    e ∈ tree.entriesApartFrom place ↔ e ∈ tree.entries ∧ e.1 ≠ place := by
  rw [entriesApartFrom, List.mem_filter, decide_eq_true_iff]

theorem find?_of_mem {place : Location} {entry : Entry} {entries : List (Location × Entry)}
    (distinct : entries.Pairwise fun a b => a.1 ≠ b.1) (h : (place, entry) ∈ entries) :
    entries.find? (fun e => e.1.isSame place) = some (place, entry) := by
  induction entries with
  | nil => cases h
  | cons head rest ih =>
    obtain ⟨hhead, hrest⟩ := List.pairwise_cons.mp distinct
    rcases List.mem_cons.mp h with rfl | hmem
    · exact List.find?_cons_of_pos (Location.isSame_iff.mpr rfl)
    · rw [List.find?_cons_of_neg]
      · exact ih hrest hmem
      · exact mt Location.isSame_iff.mp (hhead _ hmem)

theorem mem_entries_of_get? {tree : Tree} {place : Location} {entry : Entry}
    (hplace : place ≠ []) (h : tree.get? place = some entry) : (place, entry) ∈ tree.entries := by
  rw [get?, if_neg hplace, Option.map_eq_some_iff] at h
  obtain ⟨⟨found, e⟩, hfind, rfl⟩ := h
  have hsame := List.find?_some hfind
  cases Location.isSame_iff.mp hsame
  exact List.mem_of_find?_eq_some hfind

theorem get?_of_mem_entries {tree : Tree} {place : Location} {entry : Entry}
    (h : (place, entry) ∈ tree.entries) : tree.get? place = some entry := by
  rw [get?, if_neg (tree.named _ h).1, find?_of_mem tree.distinct h, Option.map_some]

/-! ### Changes -/

/-- A name in a folder can be given a new entry unless there is a folder of that name. -/
def hasRoom (tree : Tree) (folder : Location) (name : Text) : Prop :=
  Path.isName name ∧ tree.get? folder = some .folder ∧
    tree.get? (folder ++ [name]) ≠ some .folder

instance (tree : Tree) (folder : Location) (name : Text) : Decidable (tree.hasRoom folder name) :=
  inferInstanceAs (Decidable (_ ∧ _))

/-- The entries with one more at a place, instead of what stood there. -/
def entriesWith (tree : Tree) (place : Location) (entry : Entry) : List (Location × Entry) :=
  tree.entriesApartFrom place ++ [(place, entry)]

theorem distinct_entriesWith (tree : Tree) (place : Location) (entry : Entry) :
    (tree.entriesWith place entry).Pairwise fun a b => a.1 ≠ b.1 := by
  refine List.pairwise_append.mpr ⟨tree.distinct.filter _, List.pairwise_singleton _ _, ?_⟩
  intro a ha b hb
  cases List.mem_singleton.mp hb
  exact (mem_entriesApartFrom.mp ha).2

theorem named_entriesWith {tree : Tree} {folder : Location} {name : Text}
    (h : tree.hasRoom folder name) (entry : Entry) :
    ∀ e ∈ tree.entriesWith (folder ++ [name]) entry,
      e.1 ≠ [] ∧ ∀ step ∈ e.1, Path.isName step := by
  intro e he
  rcases List.mem_append.mp he with he | he
  · exact tree.named e (mem_entriesApartFrom.mp he).1
  · cases List.mem_singleton.mp he
    refine ⟨List.append_ne_nil_of_right_ne_nil _ (List.cons_ne_nil _ _), fun step hstep => ?_⟩
    rcases List.mem_append.mp hstep with hstep | hstep
    · have hfolder : folder ≠ [] := List.ne_nil_of_mem hstep
      exact (tree.named _ (mem_entries_of_get? hfolder h.2.1)).2 step hstep
    · exact List.mem_singleton.mp hstep ▸ h.1

theorem housed_entriesWith {tree : Tree} {folder : Location} {name : Text}
    (h : tree.hasRoom folder name) (entry : Entry) :
    ∀ e ∈ tree.entriesWith (folder ++ [name]) entry,
      e.1.dropLast = [] ∨
        (e.1.dropLast, Entry.folder) ∈ tree.entriesWith (folder ++ [name]) entry := by
  intro e he
  rcases List.mem_append.mp he with he | he
  · rcases tree.housed e (mem_entriesApartFrom.mp he).1 with hroot | hmem
    · exact .inl hroot
    · refine .inr (List.mem_append_left _ (mem_entriesApartFrom.mpr ⟨hmem, fun heq => h.2.2 ?_⟩))
      exact get?_of_mem_entries (heq ▸ hmem)
  · cases List.mem_singleton.mp he
    rw [List.dropLast_concat]
    by_cases hfolder : folder = []
    · exact .inl hfolder
    · have hmem := mem_entries_of_get? hfolder h.2.1
      refine .inr (List.mem_append_left _ (mem_entriesApartFrom.mpr ⟨hmem, fun heq => ?_⟩))
      have hlength := congrArg List.length heq
      rw [List.length_append] at hlength
      exact Nat.ne_of_lt (Nat.lt_succ_self _) hlength

/-- The tree with an entry for a name in a folder, instead of the file that stood there. -/
def put? (tree : Tree) (folder : Location) (name : Text) (entry : Entry) : Option Tree :=
  if h : tree.hasRoom folder name then
    some {
      entries := tree.entriesWith (folder ++ [name]) entry
      distinct := tree.distinct_entriesWith (folder ++ [name]) entry
      named := named_entriesWith h entry
      housed := housed_entriesWith h entry }
  else none

/-- The tree with an entry below a folder, and with the folders that lead to it. Where there is no
room for one of them the tree stays as it is. -/
def addBelow (tree : Tree) (folder : Location) (entry : Entry) : Location → Tree
  | [] => tree
  | [name] => (tree.put? folder name entry).getD tree
  | name :: rest =>
    ((tree.put? folder name .folder).getD tree).addBelow (folder ++ [name]) entry rest

/-- The tree with an entry at a place and the folders that lead to it. -/
def add (tree : Tree) (place : Location) (entry : Entry) : Tree := tree.addBelow [] entry place

/-! ### Paths -/

/-- One step of a path from a place. Only folders can be left, even to stay where one is. -/
def step (tree : Tree) (place : Location) (name : Text) : Except PathFault Location :=
  match tree.get? place with
  | some .folder =>
    if Path.isIdleStep name then .ok place
    else if name = ['.', '.'] then
      if place = [] then .error .notFound else .ok place.dropLast
    else if !Path.fitsName name then .error .tooLong
    else if (tree.get? (place ++ [name])).isSome then .ok (place ++ [name])
    else .error .notFound
  | some _ => .error .notAFolder
  | none => .error .notFound

/-- The steps of a path that can be used at all. -/
def stepsOf (path : Text) : Except PathFault (List Text) :=
  if path.elem '\x00' then .error .notAPath
  else if !Path.fits path then .error .tooLong
  else if path.isEmpty || Path.isAbsolute path then .error .notFound
  else .ok (Text.splitOn '/' path)

/-- The place that a path leads to. -/
def locate (tree : Tree) (path : Text) : Except PathFault Location := do
  (← stepsOf path).foldlM tree.step []

def find? (tree : Tree) (path : Text) : Option Entry :=
  (tree.locate path).toOption.bind tree.get?

def exists? (tree : Tree) (path : Text) : Bool := (tree.find? path).isSome

def isFile (tree : Tree) (path : Text) : Bool := (tree.find? path).any Entry.isFile

def isFolder (tree : Tree) (path : Text) : Bool := tree.find? path == some .folder

/-- The text of the file that a path leads to. -/
def read (tree : Tree) (path : Text) : Except PathFault Text := do
  match tree.get? (← tree.locate path) with
  | some (.text s) => .ok s
  | some .binary => .error .notText
  | some .folder => .error .isAFolder
  | none => .error .notFound

/-- The tree with a text written to the file that a path leads to. The file may be new, but not the
folder it is in. -/
def write (tree : Tree) (path text : Text) : Except PathFault Tree := do
  let steps ← stepsOf path
  let endsInSlash := steps.getLast? == some []
  let named := (steps.reverse.dropWhile List.isEmpty).reverse
  let name := named.getLast?.getD []
  let folder ← named.dropLast.foldlM tree.step []
  if Path.isIdleStep name || name = ['.', '.'] then
    let _ ← tree.step folder name
    .error .isAFolder
  else if tree.get? folder != some .folder then .error .notAFolder
  else if endsInSlash then .error .isAFolder
  else if !Path.fitsName name then .error .tooLong
  else
    match tree.put? folder name (.text text) with
    | some tree => .ok tree
    | none => .error .isAFolder

/-! ### Contents -/

/-- The entries below a place, with the names that lead to each from there. -/
def below (tree : Tree) (place : Location) : List (Location × Entry) :=
  tree.entries.filterMap fun (inner, entry) =>
    match inner.drop place.length with
    | [] => none
    | names => if place.isPrefixOf inner then some (names, entry) else none

/-- The names and entries right below a place. -/
def children (tree : Tree) (place : Location) : List (Text × Entry) :=
  (tree.below place).filterMap fun (names, entry) =>
    match names with
    | [name] => some (name, entry)
    | _ => none

/-- The entries below a place that a walk from a path to that place meets, named by the path and the
names that lead on from it. A walk enters a folder by its path, as long as that can be used. -/
def met (tree : Tree) (place : Location) (path : Text) : List (Text × Entry) :=
  let named := (tree.below place).filter fun e => Path.fits (e.1.dropLast.foldl Path.join path)
  named.map fun e => (e.1.foldl Path.join path, e.2)

/-- The files at and below a path, and the number of folders below it that cannot be entered, unless
the path leads nowhere. -/
def walk? (tree : Tree) (path : Text) : Option (List Text × Nat) :=
  match tree.locate path with
  | .error _ => none
  | .ok place =>
    match tree.get? place with
    | some .folder =>
      let (files, folders) := (tree.met place path).partition fun e => e.2.isFile
      some (files.map Prod.fst, folders.countP fun e => !Path.fits e.1)
    | some _ => some ([path], 0)
    | none => none

end Tree
end Marginalia
