import Marginalia.Path

/-! The steps of a path and the way it is spelled. Joining works on texts, and texts with the same steps may
differ in idle steps and in doubled slashes. All that joining sees of a path is `Path.join p []`, the path
written as that of a folder: paths that agree there have the same continuations. -/

namespace Marginalia

namespace Text

theorem splitOn_eq_splitOnP (sep : Char) (s : Text) : splitOn sep s = s.splitOnP (· == sep) := by
  induction s with
  | nil => rw [List.splitOnP_nil]; rfl
  | cons c s ih =>
    have hne := List.splitOnP_ne_nil (· == sep) s
    have hcons : splitOn sep (c :: s) = splitStep sep c (splitOn sep s) := rfl
    rw [hcons, ih, List.splitOnP_cons_eq_if_modifyHead, splitStep.eq_def]
    cases hsplit : s.splitOnP (· == sep) with
    | nil => exact absurd hsplit hne
    | cons piece later => simp only [beq_iff_eq, List.modifyHead_cons]

theorem splitOn_ne_nil (sep : Char) (s : Text) : splitOn sep s ≠ [] :=
  splitOn_eq_splitOnP sep s ▸ List.splitOnP_ne_nil _ s

theorem splitOn_append_sep (sep : Char) (s t : Text) :
    splitOn sep (s ++ sep :: t) = splitOn sep s ++ splitOn sep t := by
  simp only [splitOn_eq_splitOnP]
  exact List.splitOnP_append_cons s t (beq_self_eq_true sep)

theorem splitOn_of_notMem {sep : Char} {s : Text} (h : sep ∉ s) : splitOn sep s = [s] := by
  rw [splitOn_eq_splitOnP]
  exact List.splitOnP_eq_singleton fun c hc => beq_false_of_ne fun heq => h (heq ▸ hc)

theorem splitOn_cut {sep : Char} {first : Text} (h : sep ∉ first) (rest : Text) :
    splitOn sep (first ++ sep :: rest) = first :: splitOn sep rest := by
  rw [splitOn_append_sep, splitOn_of_notMem h, List.singleton_append]

/-- Induction along the pieces of a text. -/
theorem splitOn_induction (sep : Char) {motive : Text → Prop} (last : ∀ s, sep ∉ s → motive s)
    (cut : ∀ first rest, sep ∉ first → motive rest → motive (first ++ sep :: rest)) (s : Text) : motive s := by
  induction hlength : s.length using Nat.strongRecOn generalizing s with
  | _ n ih =>
    by_cases hsep : sep ∈ s
    · obtain ⟨first, rest, rfl, hfirst⟩ := List.eq_append_cons_of_mem hsep
      refine cut first rest hfirst (ih rest.length ?_ rest rfl)
      rw [← hlength, List.length_append, List.length_cons]
      omega
    · exact last s hsep

theorem notMem_of_mem_splitOn {sep : Char} {s piece : Text} (h : piece ∈ splitOn sep s) : sep ∉ piece := by
  induction s using splitOn_induction sep with
  | last s hsep =>
      rw [splitOn_of_notMem hsep, List.mem_singleton] at h
      exact h ▸ hsep
  | cut first rest hfirst ih =>
      rw [splitOn_cut hfirst, List.mem_cons] at h
      rcases h with rfl | h
      · exact hfirst
      · exact ih h

end Text

namespace Path

def isStep (s : Text) : Bool := !isIdleStep s && !s.elem '/'

/-- The steps of a path that lead somewhere. -/
def steps (p : Text) : List Text := (Text.splitOn '/' p).filter fun s => !isIdleStep s

theorem isStep_iff {s : Text} : isStep s = true ↔ isIdleStep s = false ∧ '/' ∉ s := by
  simp [isStep]

theorem isStep_of_isName {s : Text} (h : isName s = true) : isStep s = true := by
  simp only [isName, Bool.and_eq_true] at h
  exact Bool.and_eq_true_iff.mpr ⟨h.1.1.1.1, h.1.1.2⟩

section

variable {s : Text} (hs : isStep s = true)

include hs

theorem isStep_ne_nil : s ≠ [] := by
  rintro rfl
  cases (isStep_iff.mp hs).1

theorem isAbsolute_of_isStep : isAbsolute s = false := by
  have hslash := (isStep_iff.mp hs).2
  cases s with
  | nil => rfl
  | cons c s =>
    have hc : c ≠ '/' := fun heq => hslash (heq ▸ List.mem_cons_self)
    simpa [isAbsolute] using hc

theorem steps_of_isStep : steps s = [s] := by
  obtain ⟨hidle, hslash⟩ := isStep_iff.mp hs
  rw [steps, Text.splitOn_of_notMem hslash]
  simp [hidle]

end

/-! ### Joining -/

theorem join_nil (p : Text) : join p [] = if p = [] ∨ p.getLast? = some '/' then p else p ++ ['/'] := by
  simp [join, isAbsolute]

theorem join_eq_append {p s : Text} (h : isAbsolute s = false) : join p s = join p [] ++ s := by
  rw [join_nil, join, h]
  by_cases hp : p = [] ∨ p.getLast? = some '/' <;> simp [hp]

theorem join_nil_cases (p : Text) : join p [] = [] ∨ ∃ q, join p [] = q ++ ['/'] := by
  rw [join_nil]
  split
  · next h =>
    refine h.imp_right fun h => ?_
    obtain ⟨q, rfl⟩ := List.getLast?_eq_some_iff.mp h
    exact ⟨q, rfl⟩
  · exact .inr ⟨p, rfl⟩

theorem join_join_nil (p : Text) : join (join p []) [] = join p [] := by
  rcases join_nil_cases p with h | ⟨q, h⟩
  · rw [h]; rfl
  · rw [h, join_nil, if_pos (.inr List.getLast?_concat)]

theorem isAbsolute_join {p s : Text} (hp : isAbsolute p = false) (hs : isAbsolute s = false) :
    isAbsolute (join p s) = false := by
  rw [join_eq_append hs, join_nil]
  cases p with
  | nil => exact hs
  | cons c p => split <;> exact hp

theorem join_ne_nil {p s : Text} (hp : p ≠ []) (hs : isAbsolute s = false) : join p s ≠ [] := by
  rw [join_eq_append hs, join_nil]
  split <;> simp [hp]

theorem bytes_join_le (p s : Text) : Text.bytes (join p s) ≤ Text.bytes p + 1 + Text.bytes s := by
  have hslash : Char.utf8Size '/' = 1 := rfl
  unfold join
  split
  · omega
  split <;> simp only [Text.bytes_append, Text.bytes_cons] <;> omega

/-- A path that ends in a step is written as that of a folder with one more slash. -/
theorem join_join_step (p : Text) {s : Text} (hs : isStep s = true) :
    join (join p s) [] = join p s ++ ['/'] := by
  have hne := isStep_ne_nil hs
  rw [join_eq_append (isAbsolute_of_isStep hs), join_nil, if_neg]
  rintro (h | h)
  · exact hne (List.append_eq_nil_iff.mp h).2
  · rw [List.getLast?_append, List.getLast?_eq_some_getLast hne] at h
    have hlast : s.getLast hne = '/' := Option.some.inj h
    exact (isStep_iff.mp hs).2 (hlast ▸ List.getLast_mem hne)

theorem steps_append_slash (p q : Text) : steps (p ++ '/' :: q) = steps p ++ steps q := by
  rw [steps, Text.splitOn_append_sep, List.filter_append]
  rfl

theorem steps_join_nil (p : Text) : steps (join p []) = steps p := by
  rw [join_nil]
  split
  · rfl
  · rw [steps_append_slash]
    exact List.append_nil _

theorem steps_join_relative (p : Text) {s : Text} (hs : isAbsolute s = false) :
    steps (join p s) = steps p ++ steps s := by
  rw [join_eq_append hs, ← steps_join_nil p]
  rcases join_nil_cases p with h | ⟨q, h⟩
  · rw [h]
    rfl
  · rw [h, List.append_assoc, List.singleton_append, steps_append_slash, steps_append_slash]
    exact congrArg (· ++ _) (List.append_nil _).symm

theorem steps_join (p : Text) {s : Text} (hs : isStep s = true) : steps (join p s) = steps p ++ [s] := by
  rw [steps_join_relative p (isAbsolute_of_isStep hs), steps_of_isStep hs]

/-! ### Several steps -/

variable {names : List Text}

theorem steps_foldl_join (p : Text) (h : ∀ s ∈ names, isStep s = true) :
    steps (names.foldl join p) = steps p ++ names := by
  induction names generalizing p with
  | nil => exact (List.append_nil _).symm
  | cons s names ih =>
    obtain ⟨hs, hnames⟩ := List.forall_mem_cons.mp h
    rw [List.foldl_cons, ih _ hnames, steps_join p hs, List.append_assoc, List.singleton_append]

/-- Paths that are one as folders stay so along the same steps. -/
theorem foldl_join_congr {p q : Text} (hpq : join p [] = join q []) (h : ∀ s ∈ names, isStep s = true) :
    join (names.foldl join p) [] = join (names.foldl join q) [] := by
  induction names generalizing p q with
  | nil => exact hpq
  | cons s names ih =>
    obtain ⟨hs, hnames⟩ := List.forall_mem_cons.mp h
    refine ih ?_ hnames
    rw [join_eq_append (isAbsolute_of_isStep hs), join_eq_append (isAbsolute_of_isStep hs), hpq]

/-- The path is another one with some steps after it, and perhaps a slash at the end. -/
def IsUnder (base p : Text) : Prop :=
  ∃ names : List Text, (∀ s ∈ names, isStep s = true) ∧ join p [] = join (names.foldl join base) []

theorem IsUnder.refl (p : Text) : IsUnder p p := ⟨[], nofun, rfl⟩

theorem IsUnder.foldl_join {base p : Text} (h : IsUnder base p) (hnames : ∀ s ∈ names, isStep s = true) :
    IsUnder base (names.foldl join p) := by
  obtain ⟨front, hfront, hp⟩ := h
  refine ⟨front ++ names, List.forall_mem_append.mpr ⟨hfront, hnames⟩, ?_⟩
  rw [List.foldl_append]
  exact foldl_join_congr hp hnames

theorem IsUnder.join_step {base p s : Text} (h : IsUnder base p) (hs : isStep s = true) :
    IsUnder base (join p s) :=
  h.foldl_join (List.forall_mem_singleton.mpr hs)

theorem IsUnder.trans {base p q : Text} (hp : IsUnder base p) (hq : IsUnder p q) : IsUnder base q := by
  obtain ⟨names, hnames, hq⟩ := hq
  obtain ⟨front, hfront, hjoin⟩ := hp.foldl_join hnames
  exact ⟨front, hfront, hq.trans hjoin⟩

theorem IsUnder.exists_steps {base p : Text} (h : IsUnder base p) :
    ∃ names, (∀ s ∈ names, isStep s = true) ∧ join p [] = join (names.foldl join base) [] ∧
      steps p = steps base ++ names := by
  obtain ⟨names, hnames, hp⟩ := h
  refine ⟨names, hnames, hp, ?_⟩
  rw [← steps_join_nil p, hp, steps_join_nil, steps_foldl_join base hnames]

/-- The same steps after the same path spell the same folder. -/
theorem IsUnder.join_nil_eq {base p q : Text} (hp : IsUnder base p) (hq : IsUnder base q)
    (hsteps : steps p = steps q) : join p [] = join q [] := by
  obtain ⟨names, -, hp, hnames⟩ := hp.exists_steps
  obtain ⟨names', -, hq, hnames'⟩ := hq.exists_steps
  rw [hnames, hnames'] at hsteps
  rw [hp, hq, List.append_cancel_left hsteps]

/-- Of two paths under a third, the one whose steps continue those of the other is under it. -/
theorem IsUnder.of_steps {base p q : Text} (hp : IsUnder base p) (hq : IsUnder base q)
    (hsteps : steps p <+: steps q) : IsUnder p q := by
  obtain ⟨front, -, hp, hfront⟩ := hp.exists_steps
  obtain ⟨names, hnames, hq, hwhole⟩ := hq.exists_steps
  rw [hfront, hwhole, List.prefix_append_right_inj] at hsteps
  obtain ⟨later, rfl⟩ := hsteps
  have hlater := (List.forall_mem_append.mp hnames).2
  refine ⟨later, hlater, ?_⟩
  rw [hq, List.foldl_append]
  exact foldl_join_congr hp.symm hlater

/-! ### Plain spelling -/

/-- The path is written without idle steps. It may end in a slash, but not start with one. -/
def isPlain (p : Text) : Bool :=
  (Text.splitOn '/' p).dropLast.all (fun s => !isIdleStep s) && (Text.splitOn '/' p).getLast? != some ['.']

theorem isPlain_cut {first : Text} (hfirst : '/' ∉ first) (rest : Text) :
    isPlain (first ++ '/' :: rest) = (isStep first && isPlain rest) := by
  rw [isPlain, Text.splitOn_cut hfirst, List.dropLast_cons_of_ne_nil (Text.splitOn_ne_nil _ _),
    List.getLast?_cons_of_ne_nil (Text.splitOn_ne_nil _ _), List.all_cons, Bool.and_assoc]
  simp [isStep, hfirst, isPlain]

theorem isAbsolute_of_isPlain {p : Text} (h : isPlain p = true) : isAbsolute p = false := by
  match p with
  | [] => rfl
  | c :: p =>
    refine beq_false_of_ne fun hc => ?_
    cases Option.some.inj hc
    rw [← List.nil_append ('/' :: p), isPlain_cut List.not_mem_nil] at h
    cases h

theorem join_cut {first rest : Text} (hfirst : isStep first = true) (hrest : isPlain rest = true)
    (base : Text) : join base (first ++ '/' :: rest) = join (join base first) rest := by
  have hrelative : isAbsolute first = false := isAbsolute_of_isStep hfirst
  have hwhole : isAbsolute (first ++ '/' :: rest) = false := by
    obtain ⟨c, s, rfl⟩ := List.exists_cons_of_ne_nil (isStep_ne_nil hfirst)
    exact hrelative
  calc join base (first ++ '/' :: rest)
      = join base [] ++ (first ++ '/' :: rest) := join_eq_append hwhole
    _ = (join base [] ++ first) ++ ['/'] ++ rest := by simp
    _ = join base first ++ ['/'] ++ rest := by rw [← join_eq_append hrelative]
    _ = join (join base first) [] ++ rest := by rw [join_join_step base hfirst]
    _ = join (join base first) rest := (join_eq_append (isAbsolute_of_isPlain hrest)).symm

/-- A plain path leads on from any other by its own steps. -/
theorem IsUnder.join_plain {base p q : Text} (hp : IsUnder base p) (hq : isPlain q = true) :
    IsUnder base (join p q) := by
  induction q using Text.splitOn_induction '/' generalizing p with
  | last s hs =>
    by_cases hidle : isIdleStep s = true
    · rw [isPlain, Text.splitOn_of_notMem hs] at hq
      have hnil : s = [] := by simp_all [isIdleStep]
      obtain ⟨names, hnames, hjoin⟩ := hp
      exact ⟨names, hnames, by rw [hnil, join_join_nil, hjoin]⟩
    · exact hp.join_step (isStep_iff.mpr ⟨Bool.not_eq_true _ ▸ hidle, hs⟩)
  | cut first rest hfirst ih =>
    rw [isPlain_cut hfirst, Bool.and_eq_true] at hq
    obtain ⟨hstep, hrest⟩ := hq
    rw [join_cut hstep hrest]
    exact ih (hp.join_step hstep) hrest

end Path
end Marginalia
