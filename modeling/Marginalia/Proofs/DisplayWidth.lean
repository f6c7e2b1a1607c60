import Marginalia.Display.Truncate

/-! The two measures of a text. The width of a text is summed with a record of what follows each character;
texts are cut by the widths the characters have by themselves. A character can take more within a text than by
itself: a control takes one column instead of none, a selector widens the character before it by one, and
flag letters before a joined picture take turns at minus one and three. What follows a character says how much
more than its own width it can still take, so the width of a text is at most the sum of the widths of its
characters and one for each control and selector. A text without these fits once it is cut. -/

namespace Marginalia

namespace CodeRanges

/-- No code point lies in a range of both. -/
def disjoint (ranges others : CodeRanges) : Bool :=
  ranges.all fun range => others.all fun other => range.2 < other.1 || other.2 < range.1

/-- Every range lies in one of the others. -/
def within (ranges others : CodeRanges) : Bool :=
  ranges.all fun range => others.any fun other => other.1 ≤ range.1 && range.2 ≤ other.2

variable {ranges others : CodeRanges} {c : Char}

theorem has_eq_false_of_disjoint (h : ranges.disjoint others = true) (hc : ranges.has c = true) :
    others.has c = false := by
  obtain ⟨range, hrange, hin⟩ := List.any_eq_true.mp hc
  refine List.any_eq_false.mpr fun other hother => ?_
  have hapart := List.all_eq_true.mp (List.all_eq_true.mp h range hrange) other hother
  simp only [Bool.or_eq_true, Bool.and_eq_true, decide_eq_true_eq] at hin hapart ⊢
  omega

theorem has_of_within (h : ranges.within others = true) (hc : ranges.has c = true) : others.has c = true := by
  obtain ⟨range, hrange, hin⟩ := List.any_eq_true.mp hc
  obtain ⟨other, hother, houter⟩ := List.any_eq_true.mp (List.all_eq_true.mp h range hrange)
  refine List.any_eq_true.mpr ⟨other, hother, ?_⟩
  simp only [Bool.and_eq_true, decide_eq_true_eq] at hin houter ⊢
  omega

end CodeRanges

namespace Display

variable {c : Char}

/-- Controls, which take a column within a text only. -/
def isControl (c : Char) : Bool := c.toNat < 0x20 || inRange c 0x7F 0x9F

/-- Selectors that widen the character before them: for a picture and for a wide quotation mark. -/
def isWidening (c : Char) : Bool := c.toNat == 0xFE0F || c.toNat == 0xFE01

/-- Characters that can take a column within a text, though they take none by themselves. -/
def growsInText (c : Char) : Bool := isControl c || isWidening c

/-- The columns the characters of a text take by themselves. -/
def columns : Text → Nat
  | [] => 0
  | c :: s => charWidth c + columns s

/-- How many more columns a text can take than its characters by themselves. -/
def surplus (s : Text) : Nat := s.countP growsInText

@[simp] theorem columns_nil : columns [] = 0 := rfl

@[simp] theorem columns_cons (c : Char) (s : Text) : columns (c :: s) = charWidth c + columns s := rfl

@[simp] theorem columns_append (s t : Text) : columns (s ++ t) = columns s + columns t := by
  induction s with
  | nil => exact (Nat.zero_add _).symm
  | cons c s ih => rw [List.cons_append, columns_cons, columns_cons, ih, Nat.add_assoc]

@[simp] theorem surplus_cons (c : Char) (s : Text) : surplus (c :: s) = surplus s + (growsInText c).toNat := by
  rw [surplus, List.countP_cons, surplus]
  cases growsInText c <;> rfl

@[simp] theorem surplus_append (s t : Text) : surplus (s ++ t) = surplus s + surplus t :=
  List.countP_append

/-! ## Characters with a column of their own -/

theorem charWidth_of_gt (h : 0xA0 < c.toNat) : charWidth c = (alone c).1 := by
  have hlow : ¬ c.toNat < 0x20 := by omega
  have hhigh : ¬ c.toNat ≤ 0x9F := by omega
  have hplain : ¬ c.toNat ≤ 0xA0 := by omega
  simp [charWidth, inRange, hlow, hhigh, hplain]

theorem charWidth_of_le (h : c.toNat ≤ 0xA0) : charWidth c = (!isControl c).toNat := by
  rw [charWidth, ← isControl]
  cases isControl c <;> simp [h]

theorem isControl_eq_has (c : Char) : isControl c = CodeRanges.has [(0, 0x1F), (0x7F, 0x9F)] c := by
  simp [isControl, inRange, CodeRanges.has, Nat.lt_succ_iff]

theorem alone_pos (h : isZeroWidth c = false) : 1 ≤ (alone c).1 := by
  fun_cases alone c <;> simp_all

/-- Blocks of code points without a control or a character without width. -/
def visibleBlocks : CodeRanges := [
  (0x20, 0x7E), (0xA1, 0xAC), (0xAE, 0x2FF), (0x2018, 0x201D), (0x2030, 0x205F), (0x2100, 0x2BFF),
  (0x2D30, 0x2D7F), (0x3030, 0x303F), (0x3200, 0x32FF), (0x16D40, 0x16D7F), (0x1F000, 0x1F6FF)]

theorem charWidth_pos_of_within {ranges : CodeRanges} (hblocks : ranges.within visibleBlocks = true)
    (hc : ranges.has c = true) : 1 ≤ charWidth c := by
  have hcontrols : visibleBlocks.disjoint [(0, 0x1F), (0x7F, 0x9F)] = true := by decide
  have hzeros : visibleBlocks.disjoint zeroWidthRanges = true := by decide +kernel
  have hvisible := CodeRanges.has_of_within hblocks hc
  rcases Nat.lt_or_ge 0xA0 c.toNat with hbeyond | hwithin
  · rw [charWidth_of_gt hbeyond]
    exact alone_pos (CodeRanges.has_eq_false_of_disjoint hzeros hvisible)
  · rw [charWidth_of_le hwithin, isControl_eq_has, CodeRanges.has_eq_false_of_disjoint hcontrols hvisible]
    decide

theorem charWidth_pos_of_takesEmojiSelector (h : takesEmojiSelector c = true) : 1 ≤ charWidth c :=
  charWidth_pos_of_within (by decide +kernel) h

theorem charWidth_pos_of_isCurlyQuote (h : isCurlyQuote c = true) : 1 ≤ charWidth c :=
  charWidth_pos_of_within (by decide) h

/-- Characters that keep a column of their own when they join with what follows: the joiner of Tifinagh
consonants, a vowel of Kirat Rai, and flag letters. -/
def joiningColumnRanges : CodeRanges := [(0x2D7F, 0x2D7F), (0x16D68, 0x16D68), (0x1F1E6, 0x1F1FF)]

theorem charWidth_pos_of_joiningColumn (h : joiningColumnRanges.has c = true) : 1 ≤ charWidth c :=
  charWidth_pos_of_within (by decide) h

/-! ## What a context owes -/

/-- What the character before this place can take beyond its own width. Only an even number of flag letters
before a joined picture leaves anything: they are counted two columns short. -/
def Following.due : Following → Nat
  | .joinedFlag => 2
  | _ => 0

theorem due_alone (c : Char) : (alone c).2.due = 0 := by
  fun_cases alone c <;> rfl

theorem due_join (following : Following) : following.join.due = following.due := by
  cases following <;> rfl

/-- The ways in which a character that joins with what follows changes the width: it adds nothing, a column
of its own, or, as a flag letter before a joined picture, takes its turn. -/
theorem joined?_cases {following next : Following} {change : Int}
    (h : joined? following c = some (change, next)) :
    change ≤ 0 ∧ next.due = 0 ∨
    change = 1 ∧ next.due = 0 ∧ joiningColumnRanges.has c = true ∨
    change = -1 ∧ next = .joinedFlag ∧ joiningColumnRanges.has c = true ∨
    change = 3 ∧ next.due = 0 ∧ following = .joinedFlag ∧ joiningColumnRanges.has c = true := by
  have hflag : isFlagLetter c = true → joiningColumnRanges.has c = true := by
    simp +contextual [CodeRanges.has, joiningColumnRanges, isFlagLetter, inRange]
  have htifinagh : c.toNat = 0x2D7F → joiningColumnRanges.has c = true := by
    simp +contextual [CodeRanges.has, joiningColumnRanges]
  have hkirat : c.toNat = 0x16D68 → joiningColumnRanges.has c = true := by
    simp +contextual [CodeRanges.has, joiningColumnRanges]
  revert h
  fun_cases joined? following c <;> rintro ⟨⟩ <;> simp_all [Following.due]
  -- the two single characters are compared through a local name for their code point
  · exact htifinagh ‹_›
  · exact hkirat ‹_›

theorem joined?_le {following next : Following} {change : Int} (h : joined? following c = some (change, next)) :
    change + next.due ≤ charWidth c + following.due := by
  rcases joined?_cases h with ⟨hchange, hdue⟩ | ⟨rfl, hdue, hc⟩ | ⟨rfl, rfl, hc⟩ | ⟨rfl, hdue, rfl, hc⟩
  · omega
  · have hpos := charWidth_pos_of_joiningColumn hc
    omega
  · have hpos := charWidth_pos_of_joiningColumn hc
    rw [Following.due]
    omega
  · have hpos := charWidth_pos_of_joiningColumn hc
    rw [hdue, Following.due]
    omega

namespace Context

/-- What the character before a context can take beyond its own width. -/
def due (ctx : Context) : Nat :=
  ctx.following.due + ctx.emojiSelected.toNat + ctx.quoteSelected.toNat

@[simp] theorem due_following (following : Following) : due { following } = following.due := rfl

@[simp] theorem due_empty : due {} = 0 := rfl

/-- Columns counted up to a context, together with what is due before it. -/
def charge (sum : Int × Context) : Int := sum.1 + sum.2.due

@[simp] theorem charge_mk (change : Int) (ctx : Context) : charge (change, ctx) = change + ctx.due := rfl

theorem charge_plain_le (following : Following) (hc : 0xA0 < c.toNat) :
    charge (plain following c) ≤ charWidth c + following.due := by
  fun_cases plain following c with
  | case1 _ =>
      rw [charge_mk, due_following, due_join]
      omega
  | case2 _ _ =>
      rw [charge_mk, due_following]
      omega
  | case3 _ _ change next hjoined => exact joined?_le hjoined
  | case4 _ _ _ =>
      rw [charge_mk, due_following, due_alone, charWidth_of_gt hc]
      omega

theorem due_selectEmoji_le (ctx : Context) : ctx.selectEmoji.due ≤ ctx.due + 1 := by
  fun_cases selectEmoji ctx with
  | case1 _ =>
      simp only [due, Bool.toNat_true]
      omega
  | case2 _ hjoined =>
      rcases hjoined with hjoined | hjoined <;> rw [hjoined] <;> exact Nat.le_add_left 1 _
  | case3 _ _ => exact Nat.le_add_left 1 _

theorem due_selectText_le (ctx : Context) : ctx.selectText.due ≤ ctx.due := by
  fun_cases selectText ctx with
  | case1 _ => exact Nat.le_refl _
  | case2 _ => exact Nat.zero_le _

theorem due_selectQuote_le (ctx : Context) : ctx.selectQuote.due ≤ ctx.due + 1 := by
  fun_cases selectQuote ctx with
  | case1 _ =>
      simp only [due, Bool.toNat_true]
      omega
  | case2 _ => exact Nat.le_add_left 1 _

theorem due_dropEmoji_le (ctx : Context) : ctx.dropEmoji.due ≤ ctx.due := by
  fun_cases dropEmoji ctx with
  | case1 _ => exact Nat.le_refl _
  | case2 _ _ =>
      simp only [due, Bool.toNat_false]
      omega
  | case3 _ _ => exact Nat.zero_le _

theorem charge_before_le (ctx : Context) (hc : 0xA0 < c.toNat) :
    charge (ctx.before c) ≤ charWidth c + (growsInText c).toNat + ctx.due := by
  fun_cases before ctx c with
  | case1 hselector =>
      have hgrows : growsInText c = true := by simp [growsInText, isWidening, hselector]
      have hdue := due_selectEmoji_le ctx
      rw [charge_mk, hgrows, Bool.toNat_true]
      omega
  | case2 _ _ =>
      have hdue := due_selectText_le ctx
      rw [charge_mk]
      omega
  | case3 _ _ hselector =>
      have hgrows : growsInText c = true := by simp [growsInText, isWidening, hselector]
      have hdue := due_selectQuote_le ctx
      rw [charge_mk, hgrows, Bool.toNat_true]
      omega
  | case4 _ _ _ hselected =>
      simp only [takesTextSelector, Bool.and_eq_true] at hselected
      have hpos := charWidth_pos_of_takesEmojiSelector hselected.2.1.2
      rw [charge_mk, due_empty]
      omega
  | case5 _ _ _ _ hselected =>
      simp only [Bool.and_eq_true] at hselected
      have hpos := charWidth_pos_of_isCurlyQuote hselected.2
      have hdue : 1 ≤ ctx.due := by simp [due, hselected.1]
      rw [charge_mk, due_empty]
      omega
  | case6 _ _ _ _ _ =>
      have hplain := charge_plain_le ctx.following hc
      have hdue : ctx.following.due ≤ ctx.due := by
        simp only [due]
        omega
      omega

/-- One more character adds at most what it takes by itself and what was due, and one if it can grow. -/
theorem charge_add_le (c : Char) (ctx : Context) :
    charge (ctx.add c) ≤ charWidth c + (growsInText c).toNat + ctx.due := by
  fun_cases add c ctx with
  | case1 hselected =>
      simp only [Bool.and_eq_true] at hselected
      have hpos := charWidth_pos_of_takesEmojiSelector hselected.2
      have hdue : 1 ≤ ctx.due := by
        simp only [due, hselected.1, Bool.toNat_true]
        omega
      simp only [charge_mk, due_following, Following.due]
      split <;> omega
  | case2 _ hfeed =>
      have hgrows : growsInText c = true := by
        rw [hfeed]
        decide
      rw [charge_mk, due_following, hgrows]
      simp only [Following.due, Bool.toNat_true]
      omega
  | case3 _ _ _ _ =>
      rw [charge_mk, due_empty]
      omega
  | case4 _ _ _ _ hlow =>
      have hone : 1 ≤ charWidth c + (growsInText c).toNat := by
        rw [charWidth_of_le hlow, growsInText]
        cases isControl c <;> simp
      rw [charge_mk, due_empty]
      omega
  | case5 _ _ _ _ hhigh =>
      have hbefore := charge_before_le ctx.dropEmoji (Nat.lt_of_not_le hhigh)
      have hdue := due_dropEmoji_le ctx
      exact Int.le_trans hbefore (by omega)

end Context

/-- The columns of a text, counted from its end, with what its start is for a character before it. -/
def counted (s : Text) : Int × Context :=
  s.foldr (fun c (sum, ctx) => let (change, ctx) := ctx.add c; (sum + change, ctx)) (0, {})

theorem width_eq_counted (s : Text) : width s = (counted s).1.toNat := rfl

theorem charge_counted_le (s : Text) : Context.charge (counted s) ≤ columns s + surplus s := by
  induction s with
  | nil => exact Int.le_refl 0
  | cons c s ih =>
      have hstep := (counted s).2.charge_add_le c
      rw [columns_cons, surplus_cons]
      change (counted s).1 + ((counted s).2.add c).1 + ((counted s).2.add c).2.due ≤ _
      simp only [Context.charge] at ih hstep
      omega

/-- The width of a text exceeds that of its characters by at most one for each that can grow. -/
theorem width_le (s : Text) : width s ≤ columns s + surplus s := by
  have hcharge := charge_counted_le s
  rw [width_eq_counted]
  simp only [Context.charge] at hcharge
  omega

/-! ## Cut texts -/

theorem columns_takeColumns_le (budget : Nat) (s : Text) : columns (takeColumns budget s) ≤ budget := by
  fun_induction takeColumns budget s with
  | case1 budget => exact Nat.zero_le budget
  | case2 budget c s hfits ih =>
      rw [columns_cons]
      omega
  | case3 budget c s _ => exact Nat.zero_le budget

/-- The text that is kept starts the text, and the next character has no room. -/
theorem exists_takeColumns_append (budget : Nat) (s : Text) :
    ∃ rest, s = takeColumns budget s ++ rest ∧
      ∀ c ∈ rest.head?, budget < columns (takeColumns budget s) + charWidth c := by
  fun_induction takeColumns budget s with
  | case1 budget => exact ⟨[], rfl, nofun⟩
  | case2 budget c s hfits ih =>
      obtain ⟨rest, hrest, hnext⟩ := ih
      refine ⟨rest, congrArg (c :: ·) hrest, fun next hmem => ?_⟩
      have hroom := hnext next hmem
      rw [columns_cons]
      omega
  | case3 budget c s hwide =>
      refine ⟨c :: s, rfl, fun next hmem => ?_⟩
      obtain rfl : c = next := by simpa using hmem
      rw [columns_nil]
      omega

theorem truncate_of_le {limit : Nat} {s : Text} (h : width s ≤ limit) : truncate limit s = s := if_pos h

theorem truncate_of_lt {limit : Nat} {s : Text} (h : limit < width s) :
    truncate limit s = takeColumns (limit - 1) s ++ ['…'] :=
  if_neg (Nat.not_le_of_lt h)

theorem width_cut_le {limit : Nat} (hlimit : 1 ≤ limit) (s : Text) :
    width (takeColumns (limit - 1) s ++ ['…']) ≤ limit + surplus (takeColumns (limit - 1) s) := by
  have hcolumns := columns_takeColumns_le (limit - 1) s
  have hellipsis : columns ['…'] = 1 ∧ surplus ['…'] = 0 := by decide +kernel
  have hwidth := width_le (takeColumns (limit - 1) s ++ ['…'])
  rw [columns_append, surplus_append, hellipsis.1, hellipsis.2] at hwidth
  omega

theorem width_truncate_le {limit : Nat} (hlimit : 1 ≤ limit) (s : Text) :
    width (truncate limit s) ≤ limit + surplus s := by
  rcases Nat.lt_or_ge limit (width s) with hwide | hfits
  · obtain ⟨rest, hrest, -⟩ := exists_takeColumns_append (limit - 1) s
    have hstart : takeColumns (limit - 1) s <+: s := ⟨rest, hrest.symm⟩
    have hkept : surplus (takeColumns (limit - 1) s) ≤ surplus s := hstart.sublist.countP_le
    have hcut := width_cut_le hlimit s
    rw [truncate_of_lt hwide]
    omega
  · rw [truncate_of_le hfits]
    omega

/-- **Texts cut to a number of columns.** A text that fits is left alone; another one becomes the longest start
of it that leaves room for an ellipsis, with the ellipsis, and exceeds the limit by at most one column for each
control and widening selector that is kept. With at most one of these the start is not the whole text. A text
without any fits once it is cut, and is left alone only if it fits. -/
theorem truncate_fits (s : Text) {limit : Nat} (hlimit : 1 ≤ limit) :
    (width s ≤ limit → truncate limit s = s) ∧
    (limit < width s → ∃ kept rest, s = kept ++ rest ∧ truncate limit s = kept ++ ['…'] ∧
      (∀ c ∈ rest.head?, limit ≤ columns kept + charWidth c) ∧ (surplus s ≤ 1 → rest ≠ []) ∧
      width (truncate limit s) ≤ limit + surplus kept) ∧
    (surplus s = 0 → width (truncate limit s) ≤ limit ∧ (truncate limit s = s ↔ width s ≤ limit)) := by
  refine ⟨truncate_of_le, fun hwide => ?_, fun hplain => ?_⟩
  · obtain ⟨rest, hrest, hnext⟩ := exists_takeColumns_append (limit - 1) s
    have hcut := truncate_of_lt hwide
    refine ⟨takeColumns (limit - 1) s, rest, hrest, hcut, fun c hc => ?_, ?_, hcut ▸ width_cut_le hlimit s⟩
    · have hroom := hnext c hc
      omega
    · rintro hsurplus rfl
      -- all characters would be kept, within one column less than the limit
      have hcolumns := columns_takeColumns_le (limit - 1) s
      rw [List.append_nil] at hrest
      rw [← hrest] at hcolumns
      have hwidth := width_le s
      omega
  · have hfits : width (truncate limit s) ≤ limit := by
      have hbound := width_truncate_le hlimit s
      omega
    exact ⟨hfits, fun hsame => hsame ▸ hfits, truncate_of_le⟩

theorem truncate_fits_wide :
    surplus "日本語テキスト" = 0 ∧ 6 < width "日本語テキスト" ∧
      width (truncate 6 "日本語テキスト") ≤ 6 ∧ truncate 6 "日本語テキスト" = "日本…" :=
  ⟨by decide, by decide +kernel,
    ((truncate_fits "日本語テキスト" (by decide : 1 ≤ 6)).2.2 (by decide)).1, by decide +kernel⟩

/-- Tabs are cut as if they took no column, and then take one each. -/
theorem not_truncate_fits_tabs :
    truncate 4 "\t\tfoo" = "\t\tfoo…" ∧ ¬ width (truncate 4 "\t\tfoo") ≤ 4 := by
  decide +kernel

end Display

end Marginalia
