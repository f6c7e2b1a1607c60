import Marginalia.Json.Print
import Marginalia.Json.Reader

/-! Reading back what was written. A reader takes a written value from the front of any text, whatever white
space stands before the value and whatever follows it, and leaves exactly what follows. Every kind of value has
one lemma that says so, in terms of the same statement about its parts. An object is read member by member, and
`Takes` tells the states that its reader passes through. -/

namespace Marginalia.Json

variable {α β σ : Type}

/-- Reading succeeds with this value and leaves this rest. -/
def Yields {s : Text} (result : Except Fault (Parsed α s)) (value : α) (rest : Text) : Prop :=
  ∃ h, result = .ok ⟨value, rest, h⟩

theorem yields_ok {s : Text} (p : Parsed α s) : Yields (.ok p) p.value p.rest := ⟨p.shorter, rfl⟩

@[simp] theorem Parsed.value_andThen {s : Text} (p : Parsed α s) (q : Parsed β p.rest) :
    (p.andThen q).value = q.value := rfl

@[simp] theorem Parsed.rest_andThen {s : Text} (p : Parsed α s) (q : Parsed β p.rest) :
    (p.andThen q).rest = q.rest := rfl

theorem isSpace_newline (depth : Nat) : (newline depth).all isSpace = true := by
  simp [newline, isSpace]

/-- The first character that is not white space is found behind any white space. -/
theorem next?_append {w : Text} (hw : w.all isSpace = true) {c : Char} (hc : isSpace c = false) (s : Text) :
    ∃ h, next? (w ++ c :: s) = some ⟨c, s, h⟩ := by
  induction w with
  | nil => exact ⟨Nat.lt_succ_self _, by simp [next?, hc, Parsed.first]⟩
  | cons d w ih =>
      rw [List.all_cons, Bool.and_eq_true] at hw
      obtain ⟨h, hnext⟩ := ih hw.2
      rw [List.cons_append, next?, if_pos hw.1, hnext]
      exact ⟨Nat.lt_succ_of_lt h, rfl⟩

theorem next?_cons {c : Char} (hc : isSpace c = false) (s : Text) : ∃ h, next? (c :: s) = some ⟨c, s, h⟩ :=
  next?_append (w := []) rfl hc s

/-! ### Strings -/

theorem hexValue?_hexDigit : ∀ n < 16, hexValue? (hexDigit n) = some n := by decide

theorem hexQuad_hexDigit {high low : Nat} (hhigh : high < 16) (hlow : low < 16) (s : Text) :
    Yields (hexQuad ('0' :: '0' :: hexDigit high :: hexDigit low :: s)) (high * 16 + low) s := by
  have hbytes : ¬ Text.bytes ['0', '0', hexDigit high, hexDigit low] < 4 := by
    have h := (hexDigit high).utf8Size_pos
    have h' := (hexDigit low).utf8Size_pos
    have hzero : ('0' : Char).utf8Size = 1 := rfl
    simp only [Text.bytes_cons, Text.bytes_nil, hzero]
    omega
  have hzero : hexValue? '0' = some 0 := rfl
  rw [hexQuad, List.take_succ_cons, List.take_succ_cons, List.take_succ_cons, List.take_succ_cons, List.take_zero,
    if_neg hbytes]
  simp only [hzero, hexValue?_hexDigit high hhigh, hexValue?_hexDigit low hlow, Nat.zero_mul, Nat.zero_add]
  exact yields_ok _

/-- The controls below the space are read back from their four digits. -/
theorem escaped_control {c : Char} (hc : c.toNat < 0x20) (s : Text) :
    Yields (escaped false ('u' :: '0' :: '0' :: hexDigit (c.toNat / 16) :: hexDigit (c.toNat % 16) :: s)) c s := by
  have hhigh : c.toNat / 16 < 16 := by omega
  have hlow : c.toNat % 16 < 16 := by omega
  obtain ⟨_, hquad⟩ := hexQuad_hexDigit hhigh hlow s
  have hvalue : c.toNat / 16 * 16 + c.toNat % 16 = c.toNat := by omega
  have hplain : (false || decide (c.toNat < 0xD800) || decide (0xDFFF < c.toNat)) = true := by
    have hlt : c.toNat < 0xD800 := by omega
    simp [hlt]
  rw [escaped, if_pos rfl, unicodeEscape, hquad]
  simp only [bind, Except.bind, hvalue, hplain, if_true, pure, Except.pure, Except.map, Parsed.map, Char.ofNat_toNat]
  exact yields_ok _

theorem escaped_simple {letter c : Char} (hletter : letter ≠ 'u') (hc : simpleEscape? letter = some c) (s : Text) :
    Yields (escaped false (letter :: s)) c s := by
  rw [escaped, if_neg hletter, hc]
  exact yields_ok _

section

variable {c : Char} {s value rest : Text}

theorem stringTail_escaped (code : Text) (hcode : Yields (escaped false (code ++ s)) c s)
    (htail : Yields (stringTail false s) value rest) :
    Yields (stringTail false ('\\' :: (code ++ s))) (c :: value) rest := by
  obtain ⟨_, hcode⟩ := hcode
  obtain ⟨_, htail⟩ := htail
  rw [stringTail, if_neg (by decide), if_pos rfl, hcode]
  simp only [bind, Except.bind, htail]
  exact yields_ok _

theorem stringTail_plain (hquote : c ≠ '"') (hslash : c ≠ '\\') (hc : ¬ c.toNat < 0x20)
    (htail : Yields (stringTail false s) value rest) : Yields (stringTail false (c :: s)) (c :: value) rest := by
  obtain ⟨_, htail⟩ := htail
  rw [stringTail, if_neg hquote, if_neg hslash, if_neg hc, htail]
  exact yields_ok _

/-- A character is written with a letter after a backslash, or as four digits, or as it is. -/
theorem escape_cases (c : Char) :
    (∃ letter, letter ≠ 'u' ∧ simpleEscape? letter = some c ∧ escape c = ['\\', letter]) ∨
      (c.toNat < 0x20 ∧ escape c = ['\\', 'u', '0', '0', hexDigit (c.toNat / 16), hexDigit (c.toNat % 16)]) ∨
      (c ≠ '"' ∧ c ≠ '\\' ∧ ¬ c.toNat < 0x20 ∧ escape c = [c]) := by
  fun_cases escape c with
  | case1 => exact .inl ⟨'"', by decide, rfl, rfl⟩
  | case2 => exact .inl ⟨'\\', by decide, rfl, rfl⟩
  | case3 => exact .inl ⟨'b', by decide, rfl, rfl⟩
  | case4 => exact .inl ⟨'t', by decide, rfl, rfl⟩
  | case5 => exact .inl ⟨'n', by decide, rfl, rfl⟩
  | case6 => exact .inl ⟨'f', by decide, rfl, rfl⟩
  | case7 => exact .inl ⟨'r', by decide, rfl, rfl⟩
  | case8 _ _ _ _ _ _ _ _ hc => exact .inr (.inl ⟨hc, rfl⟩)
  | case9 _ hquote hslash _ _ _ _ _ hc => exact .inr (.inr ⟨hquote, hslash, hc, rfl⟩)

theorem stringTail_escape (htail : Yields (stringTail false s) value rest) :
    Yields (stringTail false (escape c ++ s)) (c :: value) rest := by
  rcases escape_cases c with ⟨letter, hletter, hc, hescape⟩ | ⟨hc, hescape⟩ | ⟨hquote, hslash, hc, hescape⟩
  · rw [hescape]
    exact stringTail_escaped [letter] (escaped_simple hletter hc s) htail
  · rw [hescape]
    exact stringTail_escaped ('u' :: _) (escaped_control hc s) htail
  · rw [hescape]
    exact stringTail_plain hquote hslash hc htail

end

theorem stringTail_flatMap (value rest : Text) :
    Yields (stringTail false (value.flatMap escape ++ '"' :: rest)) value rest := by
  induction value with
  | nil =>
      rw [List.flatMap_nil, List.nil_append, stringTail, if_pos rfl]
      exact yields_ok _
  | cons c value ih =>
      rw [List.flatMap_cons, List.append_assoc]
      exact stringTail_escape ih

/-! ### Values -/

/-- The text begins with the sign of a string, of an array or of an object. -/
def startsValue (s : Text) : Bool := s.head?.any fun c => c == '"' || c == '[' || c == '\x7b'

/-- The reader takes the value from the front of every text that goes on with `s`, behind white space too, and
leaves what follows. -/
structure Reads (reader : Reader α) (s : Text) (value : α) : Prop where
  starts : startsValue s = true
  takes : ∀ w rest : Text, w.all isSpace = true → Yields (reader (w ++ (s ++ rest))) value rest

/-- So it does at whatever depth the value is written. -/
def ReadsBack (reader : Reader α) (written : Written) (value : α) : Prop :=
  ∀ depth, Reads reader (written depth) value

theorem exists_next?_of_startsValue {w s : Text} (hw : w.all isSpace = true) (hs : startsValue s = true)
    (rest : Text) :
    ∃ p, next? (w ++ (s ++ rest)) = some p ∧ p.value ≠ ']' ∧ p.value ≠ '\x7d' ∧ p.value ≠ 'n' := by
  obtain ⟨c, hc, hsign⟩ := (Option.any_eq_true _ _).mp hs
  obtain ⟨tail, rfl⟩ := List.head?_eq_some_iff.mp hc
  have hvalue : isSpace c = false ∧ c ≠ ']' ∧ c ≠ '\x7d' ∧ c ≠ 'n' := by
    simp only [Bool.or_eq_true, beq_iff_eq] at hsign
    rcases hsign with (rfl | rfl) | rfl <;> decide
  obtain ⟨_, hnext⟩ := next?_append hw hvalue.1 (tail ++ rest)
  exact ⟨_, hnext, hvalue.2⟩

theorem ReadsBack.map {reader : Reader α} {written : Written} {value : α} (h : ReadsBack reader written value)
    (f : α → β) : ReadsBack (reader.map f) written (f value) := by
  intro depth
  refine ⟨(h depth).starts, fun w rest hw => ?_⟩
  obtain ⟨_, htakes⟩ := (h depth).takes w rest hw
  rw [Reader.map, htakes]
  exact yields_ok _

theorem ReadsBack.nullOr {reader : Reader α} {written : Written} {value : α} (h : ReadsBack reader written value) :
    ReadsBack (Reader.nullOr reader) written (some value) := by
  intro depth
  have hsome := h.map some depth
  refine ⟨hsome.starts, fun w rest hw => ?_⟩
  obtain ⟨p, hnext, -, -, hnull⟩ := exists_next?_of_startsValue hw hsome.starts rest
  rw [Reader.nullOr, hnext]
  simp only [if_neg hnull]
  exact hsome.takes w rest hw

theorem readsBack_string (value : Text) : ReadsBack Reader.text (.string value) value := by
  intro depth
  refine ⟨rfl, fun w rest hw => ?_⟩
  obtain ⟨_, hnext⟩ := next?_append hw (c := '"') rfl (value.flatMap escape ++ '"' :: rest)
  obtain ⟨_, htail⟩ := stringTail_flatMap value rest
  have htext : Written.string value depth ++ rest = '"' :: (value.flatMap escape ++ '"' :: rest) := by
    simp [Written.string, quote]
  rw [htext, Reader.text, hnext]
  simp only [if_true, htail]
  exact yields_ok _

/-! ### Arrays -/

/-- Items as they stand between brackets, each on a line of its own. -/
def lined (depth : Nat) (items : List Written) : Text :=
  Text.join [','] (items.map fun item => newline depth ++ item depth)

theorem bracketed_cons (opening closing : Char) (item : Written) (items : List Written) (depth : Nat) :
    Written.bracketed opening closing (item :: items) depth =
      opening :: (lined (depth + 1) (item :: items) ++ (newline depth ++ [closing])) := by
  simp [Written.bracketed, lined]

theorem lined_singleton (depth : Nat) (item : Written) : lined depth [item] = newline depth ++ item depth := rfl

theorem lined_cons_cons (depth : Nat) (item next : Written) (items : List Written) :
    lined depth (item :: next :: items) = newline depth ++ (item depth ++ ',' :: lined depth (next :: items)) := by
  simp [lined, Text.join]

theorem exists_lined_cons (depth : Nat) (item : Written) (items : List Written) :
    ∃ later, lined depth (item :: items) = newline depth ++ (item depth ++ later) := by
  cases items with
  | nil => exact ⟨[], by rw [lined_singleton, List.append_nil]⟩
  | cons next items => exact ⟨_, lined_cons_cons depth item next items⟩

theorem items_lined {item : Reader α} {write : α → Written} {values : List α} (hne : values ≠ [])
    (h : ∀ a ∈ values, ReadsBack item (write a) a) (depth outer : Nat) (rest : Text) :
    Yields (Reader.items item (lined depth (values.map write) ++ (newline outer ++ ']' :: rest))) values rest := by
  induction values with
  | nil => exact absurd rfl hne
  | cons a values ih =>
      obtain ⟨ha, hvalues⟩ := List.forall_mem_cons.mp h
      cases values with
      | nil =>
          obtain ⟨_, hhead⟩ := (ha depth).takes _ (newline outer ++ ']' :: rest) (isSpace_newline depth)
          obtain ⟨_, hnext⟩ := next?_append (isSpace_newline outer) (c := ']') rfl rest
          rw [List.map_singleton, lined_singleton, List.append_assoc, Reader.items, hhead]
          simp only [bind, Except.bind, hnext, if_true]
          exact yields_ok _
      | cons b values =>
          obtain ⟨_, htail⟩ := ih (List.cons_ne_nil _ _) hvalues
          obtain ⟨_, hnext⟩ := next?_cons (c := ',') rfl
            (lined depth ((b :: values).map write) ++ (newline outer ++ ']' :: rest))
          obtain ⟨_, hhead⟩ := (ha depth).takes _
            (',' :: (lined depth ((b :: values).map write) ++ (newline outer ++ ']' :: rest))) (isSpace_newline depth)
          rw [List.map_cons, List.map_cons, lined_cons_cons, ← List.map_cons, List.append_assoc, List.append_assoc,
            List.cons_append, Reader.items, hhead]
          simp only [bind, Except.bind, hnext, if_neg (show ',' ≠ ']' by decide), if_true, htail]
          exact yields_ok _

theorem readsBack_array {item : Reader α} {write : α → Written} {values : List α}
    (h : ∀ a ∈ values, ReadsBack item (write a) a) :
    ReadsBack (Reader.list item) (.array (values.map write)) values := by
  intro depth
  cases values with
  | nil =>
      refine ⟨rfl, fun w rest hw => ?_⟩
      obtain ⟨_, hopening⟩ := next?_append hw (c := '[') rfl (']' :: rest)
      obtain ⟨_, hclosing⟩ := next?_cons (c := ']') rfl rest
      have htext : Written.array (([] : List α).map write) depth ++ rest = '[' :: ']' :: rest := rfl
      rw [htext, Reader.list, hopening]
      simp only [if_true, hclosing]
      exact yields_ok _
  | cons a values =>
      have hstarts := (h a List.mem_cons_self (depth + 1)).starts
      obtain ⟨later, hlined⟩ := exists_lined_cons (depth + 1) (write a) (values.map write)
      rw [List.map_cons, Written.array, bracketed_cons]
      refine ⟨rfl, fun w rest hw => ?_⟩
      have hbody : lined (depth + 1) (write a :: values.map write) ++ (newline depth ++ ']' :: rest) =
          newline (depth + 1) ++ (write a (depth + 1) ++ (later ++ (newline depth ++ ']' :: rest))) := by
        rw [hlined, List.append_assoc, List.append_assoc]
      have hitems := items_lined (List.cons_ne_nil a values) h (depth + 1) depth rest
      rw [List.map_cons, hbody] at hitems
      obtain ⟨_, hitems⟩ := hitems
      obtain ⟨_, hopening⟩ := next?_append hw (c := '[') rfl
        (newline (depth + 1) ++ (write a (depth + 1) ++ (later ++ (newline depth ++ ']' :: rest))))
      -- The array is not empty, so the first thing in it is not the closing bracket.
      obtain ⟨p, hfirst, hclosing, -⟩ := exists_next?_of_startsValue (isSpace_newline (depth + 1)) hstarts
        (later ++ (newline depth ++ ']' :: rest))
      rw [List.cons_append, List.append_assoc, List.append_assoc, List.singleton_append, hbody, Reader.list, hopening]
      simp only [if_true, hfirst, if_neg hclosing, hitems]
      exact yields_ok _

/-! ### Objects -/

/-- Reading members one after another leads from one state to another. -/
inductive Takes (member : Reader.MemberReader σ) : σ → List (Text × Written) → σ → Prop
  | nil (seen : σ) : Takes member seen [] seen
  | cons {seen next last : σ} {key : Text} {value : Written} {rest : List (Text × Written)} {reader : Reader σ}
      (hkey : member seen key = .ok reader) (hvalue : ReadsBack reader value next)
      (hrest : Takes member next rest last) : Takes member seen ((key, value) :: rest) last

def writtenMember (m : Text × Written) : Written := fun depth => quote m.1 ++ ':' :: ' ' :: m.2 depth

theorem symbol_append {w : Text} (hw : w.all isSpace = true) {c : Char} (hc : isSpace c = false) (s : Text) :
    Yields (Reader.symbol c (w ++ c :: s)) () s := by
  obtain ⟨_, hnext⟩ := next?_append hw hc s
  rw [Reader.symbol, hnext]
  simp only [if_true]
  exact yields_ok _

section

variable {member : Reader.MemberReader σ}

/-- A member is the last one or is followed by others, as the sign after its value tells. -/
theorem members_writtenMember {seen next last : σ} {key : Text} {value : Written} {reader : Reader σ}
    (hkey : member seen key = .ok reader) (hvalue : ReadsBack reader value next) (depth : Nat)
    {tail later rest : Text} {c : Char} (hnext : ∃ h, next? tail = some ⟨c, later, h⟩)
    (hend : (c = '\x7d' ∧ next = last ∧ later = rest) ∨
      (c = ',' ∧ Yields (Reader.members member next later) last rest)) :
    Yields (Reader.members member seen (newline depth ++ (writtenMember (key, value) depth ++ tail))) last rest := by
  obtain ⟨_, hnext⟩ := hnext
  have htext : newline depth ++ (writtenMember (key, value) depth ++ tail) =
      newline depth ++ '"' :: (key.flatMap escape ++ '"' :: ':' :: ([' '] ++ (value depth ++ tail))) := by
    simp [writtenMember, quote]
  obtain ⟨_, hquote⟩ := symbol_append (isSpace_newline depth) (c := '"') rfl
    (key.flatMap escape ++ '"' :: ':' :: ([' '] ++ (value depth ++ tail)))
  obtain ⟨_, hname⟩ := stringTail_flatMap key (':' :: ([' '] ++ (value depth ++ tail)))
  obtain ⟨_, hcolon⟩ : Yields (Reader.symbol ':' (':' :: ([' '] ++ (value depth ++ tail)))) () _ :=
    symbol_append (w := []) rfl rfl _
  obtain ⟨_, hread⟩ := (hvalue depth).takes [' '] tail rfl
  rw [htext, Reader.members, hquote]
  rcases hend with ⟨rfl, rfl, rfl⟩ | ⟨rfl, _, hlater⟩
  · simp only [bind, Except.bind, hname, hkey, hcolon, hread, hnext, Parsed.value_andThen, if_true]
    exact yields_ok _
  · simp only [bind, Except.bind, hname, hkey, hcolon, hread, hnext, Parsed.value_andThen, Parsed.rest_andThen,
      if_neg (show ',' ≠ '\x7d' by decide), if_true, hlater]
    exact yields_ok _

theorem members_lined {seen last : σ} {ms : List (Text × Written)} (h : Takes member seen ms last) (hne : ms ≠ [])
    (depth outer : Nat) (rest : Text) :
    Yields (Reader.members member seen
      (lined depth (ms.map writtenMember) ++ (newline outer ++ '\x7d' :: rest))) last rest := by
  induction h with
  | nil seen => exact absurd rfl hne
  | @cons seen next last key value ms reader hkey hvalue hrest ih =>
      cases ms with
      | nil =>
          cases hrest
          rw [List.map_singleton, lined_singleton, List.append_assoc]
          exact members_writtenMember hkey hvalue depth (next?_append (isSpace_newline outer) rfl rest)
            (.inl ⟨rfl, rfl, rfl⟩)
      | cons m ms =>
          rw [List.map_cons, List.map_cons, lined_cons_cons, List.append_assoc, List.append_assoc, List.cons_append]
          exact members_writtenMember hkey hvalue depth (next?_cons rfl _)
            (.inr ⟨rfl, ih (List.cons_ne_nil m ms)⟩)

theorem objectTail_lined {start last : σ} {m : Text × Written} {ms : List (Text × Written)}
    (h : Takes member start (m :: ms) last) (depth outer : Nat) (rest : Text) :
    Yields (Reader.objectTail member start
      (lined depth ((m :: ms).map writtenMember) ++ (newline outer ++ '\x7d' :: rest))) last rest := by
  have hmembers := members_lined h (List.cons_ne_nil m ms) depth outer rest
  obtain ⟨later, hlined⟩ := exists_lined_cons depth (writtenMember m) (ms.map writtenMember)
  rw [List.map_cons, hlined, List.append_assoc, List.append_assoc] at hmembers ⊢
  obtain ⟨p, hfirst, -, hclosing, -⟩ := exists_next?_of_startsValue (isSpace_newline depth)
    (show startsValue (writtenMember m depth) = true from rfl) (later ++ (newline outer ++ '\x7d' :: rest))
  rw [Reader.objectTail, hfirst]
  simp only [if_neg hclosing]
  exact hmembers

/-- An object is an opening brace and a rest that its members are read from. -/
theorem exists_objectTail {start last : σ} {ms : List (Text × Written)} (h : Takes member start ms last)
    (depth : Nat) (rest : Text) :
    ∃ tail, Written.object ms depth ++ rest = '\x7b' :: tail ∧
      Yields (Reader.objectTail member start tail) last rest := by
  cases ms with
  | nil =>
      cases h
      obtain ⟨_, hclosing⟩ := next?_cons (c := '\x7d') rfl rest
      refine ⟨'\x7d' :: rest, rfl, ?_⟩
      rw [Reader.objectTail, hclosing]
      simp only [if_true]
      exact yields_ok _
  | cons m ms =>
      refine ⟨_, ?_, objectTail_lined h (depth + 1) depth rest⟩
      show Written.bracketed _ _ (writtenMember m :: ms.map writtenMember) depth ++ rest = _
      rw [bracketed_cons]
      simp

theorem readsBack_object {start last : σ} {ms : List (Text × Written)} (h : Takes member start ms last) :
    ReadsBack (Reader.object member start) (.object ms) last := by
  intro depth
  refine ⟨?_, fun w rest hw => ?_⟩
  · obtain ⟨tail, htext, -⟩ := exists_objectTail h depth []
    rw [List.append_nil] at htext
    rw [htext]
    rfl
  · obtain ⟨tail, htext, _, htail⟩ := exists_objectTail h depth rest
    obtain ⟨_, hopening⟩ := next?_append hw (c := '\x7b') rfl tail
    rw [htext, Reader.object, hopening]
    simp only [if_true, htail]
    exact yields_ok _

/-- A record is written as an object, and its fields are read in the order in which they are written. -/
theorem readsBack_record {start : σ} (last : σ) {ms : List (Text × Written)} {fields : List (σ → Reader σ)}
    {finish : σ → Except Fault α} {value : α} (h : Takes member start ms last) (hfinish : finish last = .ok value) :
    ReadsBack (Reader.record member fields start finish) (.object ms) value := by
  intro depth
  refine ⟨(readsBack_object h depth).starts, fun w rest hw => ?_⟩
  obtain ⟨tail, htext, _, htail⟩ := exists_objectTail h depth rest
  obtain ⟨_, hopening⟩ := next?_append hw (c := '\x7b') rfl tail
  rw [htext, Reader.record, hopening]
  simp only [if_true, htail, bind, Except.bind, hfinish]
  exact yields_ok _

end

/-- A text that is one written value is a document with that value. -/
theorem document_of_readsBack {reader : Reader α} {written : Written} {value : α}
    (h : ReadsBack reader written value) (depth : Nat) : Reader.document reader (written depth) = .ok value := by
  have htakes := (h depth).takes [] [] rfl
  rw [List.nil_append, List.append_nil] at htakes
  obtain ⟨_, htakes⟩ := htakes
  rw [Reader.document, htakes]
  rfl

end Marginalia.Json
