import Marginalia.Config.Read
import Marginalia.Proofs.ReadBack

/-! The text of a configuration. Reading a written configuration gives the configuration back, whatever
characters its texts are made of: every field is written under the key that it is read by, in whatever order,
and block delimiters that are not written are missing when they are read. A dictionary is written in the order
of its keys, so reading it adds each entry behind those that are there already. -/

namespace Marginalia

namespace Dict

variable {α : Type}

theorem ext_entries {a b : Dict α} (h : a.entries = b.entries) : a = b := by
  cases a
  cases b
  cases h
  rfl

theorem insertEntry_of_forall_lt {key : Text} (value : α) {entries : List (Text × α)}
    (h : ∀ entry ∈ entries, entry.1 < key) : insertEntry key value entries = entries ++ [(key, value)] := by
  induction entries with
  | nil => rfl
  | cons entry rest ih =>
      obtain ⟨hlt, hrest⟩ := List.forall_mem_cons.mp h
      have hne : key ≠ entry.1 := by
        intro heq
        exact List.lt_irrefl _ (heq ▸ hlt)
      rw [insertEntry, if_neg hne, if_neg (List.lt_asymm hlt), ih hrest, List.cons_append]

end Dict

namespace Config

open Json (Reader Written ReadsBack Takes)

theorem readsBack_texts (texts : List Text) : ReadsBack textsReader (textsJson texts) texts :=
  Json.readsBack_array fun s _ => Json.readsBack_string s

/-- Entries in the order of their keys are added one behind the other. -/
theorem takes_entries {α : Type} {value : Reader α} {write : α → Written}
    (hread : ∀ a, ReadsBack value (write a) a) {d : Dict α} (front : Dict α) {rest : List (Text × α)}
    (h : d.entries = front.entries ++ rest) :
    Takes (fun seen key => .ok (value.map (seen.insert key))) front
      (rest.map fun entry => (entry.1, write entry.2)) d := by
  induction rest generalizing front with
  | nil =>
      rw [Dict.ext_entries (h.trans (List.append_nil _))]
      exact .nil front
  | cons entry rest ih =>
      have hordered := h ▸ d.ordered
      have hlt : ∀ e ∈ front.entries, e.1 < entry.1 := fun e he =>
        (List.pairwise_append.mp hordered).2.2 e he entry List.mem_cons_self
      have hinsert : (front.insert entry.1 entry.2).entries = front.entries ++ [entry] :=
        Dict.insertEntry_of_forall_lt entry.2 hlt
      refine .cons rfl ((hread entry.2).map _) (ih _ ?_)
      rw [hinsert, h, List.append_assoc, List.singleton_append]

theorem readsBack_dict {α : Type} {value : Reader α} {write : α → Written}
    (hread : ∀ a, ReadsBack value (write a) a) (d : Dict α) :
    ReadsBack (dictReader value) (.object (d.entries.map fun entry => (entry.1, write entry.2))) d :=
  Json.readsBack_object (takes_entries hread .empty rfl)

theorem readsBack_delimiters (block : Delimiters) : ReadsBack delimitersReader (delimitersJson block) block := by
  refine Json.readsBack_record ⟨some block.opening, some block.closing⟩ ?_ rfl
  exact .cons rfl ((Json.readsBack_string _).map _) (.cons rfl ((Json.readsBack_string _).map _) (.nil _))

theorem readsBack_style (style : CommentStyle) : ReadsBack styleReader (styleJson style) style := by
  obtain ⟨leaders, block⟩ := style
  cases block with
  | none =>
      refine Json.readsBack_record ⟨some leaders, none⟩ ?_ rfl
      exact .cons rfl ((readsBack_texts leaders).map _) (.nil _)
  | some block =>
      refine Json.readsBack_record ⟨some leaders, some (some block)⟩ ?_ rfl
      exact .cons rfl ((readsBack_texts leaders).map _) (.cons rfl ((readsBack_delimiters block).nullOr.map _) (.nil _))

theorem readsBack_config (config : Config) : ReadsBack reader config.toJson config := by
  obtain ⟨ignores, includes, sourceRoot, extensions, languages⟩ := config
  refine Json.readsBack_record
    ⟨some ignores, some includes, some sourceRoot, some extensions, some languages⟩ ?_ rfl
  refine .cons rfl ((readsBack_texts ignores).map _) ?_
  refine .cons rfl ((readsBack_texts includes).map _) ?_
  refine .cons rfl ((Json.readsBack_string sourceRoot).map _) ?_
  refine .cons rfl ((readsBack_dict Json.readsBack_string extensions).map _) ?_
  exact .cons rfl ((readsBack_dict readsBack_style languages).map _) (.nil _)

/-- Every configuration is read back from its text. -/
theorem parse_print (config : Config) : parse config.print = .ok config :=
  Json.document_of_readsBack (readsBack_config config) 0

end Config
end Marginalia
