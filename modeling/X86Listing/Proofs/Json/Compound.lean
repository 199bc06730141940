import X86Listing.Proofs.Json.Scan

/-!
# Arrays and objects read back

The compact form of an array or object is its first part, and then a comma and a part for each of
the others: `moreItems` and `moreFields` are the text behind a part.  The reading loops go through
exactly these texts, so one induction for each loop is enough.

* `reads_items` — an array is read item by item.
* `FieldsRead`, `reads_fields` — an object is read field by field, each by what the reader knows
  from the fields before.
-/

namespace X86Listing

namespace Json

/-- The fields of an object; other values have none. -/
def fields : Json → List (String × Json)
  | object fields => fields
  | _ => []

theorem compact_array_append (items : List Json) (rest : List Char) :
    (array items).compact ++ rest = '[' :: (compactItems items ++ ']' :: rest) := by
  rw [compact, List.cons_append, List.append_assoc, List.singleton_append]

theorem compact_object_append (fields : List (String × Json)) (rest : List Char) :
    (object fields).compact ++ rest = '\x7b' :: (compactFields fields ++ '\x7d' :: rest) := by
  rw [compact, List.cons_append, List.append_assoc, List.singleton_append]

end Json

namespace Scan

variable {α β : Type} {rest : List Char}

/-! ## Arrays -/

/-- The text behind an item: the other items, each behind a comma, and the closing bracket. -/
def moreItems : List Json → List Char → List Char
  | [], rest => ']' :: rest
  | item :: items, rest => ',' :: (item.compact ++ moreItems items rest)

theorem compactItems_append (item : Json) (items : List Json) (rest : List Char) :
    Json.compactItems (item :: items) ++ ']' :: rest = item.compact ++ moreItems items rest := by
  induction items generalizing item with
  | nil => rfl
  | cons next items ih =>
      rw [Json.compactItems, List.append_assoc, List.cons_append, ih]
      rfl

theorem endsNumeral_moreItems (items : List Json) (rest : List Char) :
    JsonNumeral.EndsNumeral (moreItems items rest) := by
  intro c hc
  cases items with
  | nil =>
      cases hc
      decide
  | cons item items =>
      cases hc
      decide

theorem length_le_moreItems (items : List Json) (rest : List Char) :
    items.length ≤ (moreItems items rest).length := by
  induction items with
  | nil => exact Nat.zero_le _
  | cons item items ih =>
      rw [moreItems, List.length_cons, List.length_cons, List.length_append]
      omega

/-- A value is read by `item` wherever it is written, and it does not look like the end of an
array. -/
structure ItemReads (item : Scan α) (written : Json) (value : α) : Prop where
  head : ∃ c tail, written.compact = c :: tail ∧ isGap c = false ∧ c ≠ ']'
  reads : ∀ rest, JsonNumeral.EndsNumeral rest → Reads item (written.compact ++ rest) value rest

section Items

variable {item : Scan α} {write : α → Json} (hitem : ∀ value, ItemReads item (write value) value)
include hitem

theorem reads_itemsLoop_more {fuel : Nat} (values found : List α) (hfuel : values.length < fuel) :
    Reads (itemsLoop item fuel false found) (moreItems (values.map write) rest)
      (found.reverse ++ values) rest := by
  induction values generalizing fuel found with
  | nil =>
      obtain ⟨fuel, rfl⟩ : ∃ k, fuel = k + 1 := ⟨fuel - 1, by simp at hfuel; omega⟩
      rw [List.append_nil]
      refine Reads.peek_bind (by decide) ?_
      rw [if_pos rfl]
      exact (reads_pure found.reverse rest).advance_bind
  | cons value values ih =>
      obtain ⟨fuel, rfl⟩ : ∃ k, fuel = k + 1 := ⟨fuel - 1, by simp at hfuel; omega⟩
      obtain ⟨c, tail, htext, hgap, hclose⟩ := (hitem value).head
      have hread := (hitem value).reads _ (endsNumeral_moreItems (values.map write) rest)
      have hshort : values.length < fuel := by simpa using hfuel
      have hrest := ih (value :: found) hshort
      rw [List.map_cons, moreItems]
      rw [htext, List.cons_append] at hread ⊢
      refine Reads.peek_bind (by decide) ?_
      rw [if_neg (by decide), if_neg (by decide)]
      refine (reads_expect (by decide)).bind ?_
      refine Reads.peek_bind hgap ?_
      rw [if_neg hclose]
      refine hread.bind ?_
      rw [List.reverse_cons, List.append_assoc] at hrest
      exact hrest

/-- The items of an array and its closing bracket are read one after another. -/
theorem reads_items (values : List α) (rest : List Char) :
    Reads (items item) (Json.compactItems (values.map write) ++ ']' :: rest) values rest := by
  show Reads (itemsLoop item _ true []) _ values rest
  cases values with
  | nil =>
      refine Reads.peek_bind (by decide) ?_
      rw [if_pos rfl]
      exact (reads_pure [] rest).advance_bind
  | cons value values =>
      obtain ⟨c, tail, htext, hgap, hclose⟩ := (hitem value).head
      have hread := (hitem value).reads _ (endsNumeral_moreItems (values.map write) rest)
      have hlength := length_le_moreItems (values.map write) rest
      rw [List.map_cons, compactItems_append]
      rw [htext, List.cons_append] at hread ⊢
      refine Reads.peek_bind hgap ?_
      rw [if_neg hclose, if_pos rfl]
      refine hread.bind ?_
      -- the item took at least one character, so there is fuel left for all the others
      apply reads_itemsLoop_more hitem values [value]
      simp only [List.length_cons, List.length_append, List.length_map] at hlength ⊢
      omega

end Items

/-! ## Objects -/

/-- The text behind a field: the other fields, each behind a comma, and the closing brace. -/
def moreFields : List (String × Json) → List Char → List Char
  | [], rest => '\x7d' :: rest
  | (name, value) :: fields, rest =>
      ',' :: (Json.quote name ++ ':' :: (value.compact ++ moreFields fields rest))

theorem compactFields_append (name : String) (value : Json) (fields : List (String × Json))
    (rest : List Char) :
    Json.compactFields ((name, value) :: fields) ++ '\x7d' :: rest =
      Json.quote name ++ ':' :: (value.compact ++ moreFields fields rest) := by
  induction fields generalizing name value with
  | nil =>
      rw [Json.compactFields, List.append_assoc, List.cons_append]
      rfl
  | cons field fields ih =>
      obtain ⟨next, content⟩ := field
      rw [Json.compactFields, List.append_assoc, List.cons_append, List.append_assoc,
        List.cons_append, ih]
      rfl

theorem endsNumeral_moreFields (fields : List (String × Json)) (rest : List Char) :
    JsonNumeral.EndsNumeral (moreFields fields rest) := by
  intro c hc
  cases fields with
  | nil =>
      cases hc
      decide
  | cons field fields =>
      cases hc
      decide

theorem length_le_moreFields (fields : List (String × Json)) (rest : List Char) :
    fields.length ≤ (moreFields fields rest).length := by
  induction fields with
  | nil => exact Nat.zero_le _
  | cons field fields ih =>
      obtain ⟨name, value⟩ := field
      rw [moreFields, List.length_cons, List.length_cons, List.length_append, List.length_cons,
        List.length_append]
      omega

/-- From `start` the reader of fields gets to `stop` when it reads these fields in order. -/
inductive FieldsRead (step : β → String → Scan β) : β → List (String × Json) → β → Prop
  | nil (found : β) : FieldsRead step found [] found
  | cons {start middle stop : β} {name : String} {value : Json} {fields : List (String × Json)}
      (hstep : ∀ rest, JsonNumeral.EndsNumeral rest →
        Reads (step start name) (':' :: (value.compact ++ rest)) middle rest)
      (hfields : FieldsRead step middle fields stop) :
      FieldsRead step start ((name, value) :: fields) stop

namespace FieldsRead

variable {step : β → String → Scan β} {start stop : β} {fields : List (String × Json)}

/-- Fields that are read one after another may be read in two runs. -/
theorem append {middle : β} {more : List (String × Json)} (h : FieldsRead step start fields middle)
    (hmore : FieldsRead step middle more stop) : FieldsRead step start (fields ++ more) stop := by
  induction h with
  | nil => exact hmore
  | cons hstep _ ih => exact cons hstep (ih hmore)

theorem reads_fieldsLoop_more (h : FieldsRead step start fields stop) {fuel : Nat}
    (hfuel : fields.length < fuel) :
    Reads (fieldsLoop step fuel false start) (moreFields fields rest) stop rest := by
  induction h generalizing fuel with
  | nil found =>
      obtain ⟨fuel, rfl⟩ : ∃ k, fuel = k + 1 := ⟨fuel - 1, by simp at hfuel; omega⟩
      refine Reads.peek_bind (by decide) ?_
      rw [if_pos rfl]
      exact (reads_pure found rest).advance_bind
  | @cons start middle stop name value fields hstep _ ih =>
      obtain ⟨fuel, rfl⟩ : ∃ k, fuel = k + 1 := ⟨fuel - 1, by simp at hfuel; omega⟩
      refine Reads.peek_bind (by decide) ?_
      rw [if_neg (by decide), if_neg (by decide)]
      refine (reads_expect (by decide)).bind ?_
      refine (reads_fieldName name _).bind ?_
      refine (hstep _ (endsNumeral_moreFields fields rest)).bind ?_
      exact ih (by simpa using hfuel)

/-- The fields of an object and its closing brace are read one after another. -/
theorem reads_fields (h : FieldsRead step start fields stop) (rest : List Char) :
    Reads (Scan.fields step start) (Json.compactFields fields ++ '\x7d' :: rest) stop rest := by
  show Reads (fieldsLoop step _ true start) _ stop rest
  cases h with
  | nil =>
      refine Reads.peek_bind (by decide) ?_
      rw [if_pos rfl]
      exact (reads_pure start rest).advance_bind
  | @cons _ middle _ name value fields hstep hfields =>
      have hname := reads_fieldName name
        (':' :: (value.compact ++ moreFields fields rest))
      have hlength := length_le_moreFields fields rest
      rw [compactFields_append]
      rw [quote_append] at hname ⊢
      refine Reads.peek_bind (by decide) ?_
      rw [if_neg (by decide), if_pos rfl]
      refine hname.bind ?_
      refine (hstep _ (endsNumeral_moreFields fields rest)).bind ?_
      apply hfields.reads_fieldsLoop_more
      simp only [List.length_cons, List.length_append] at hlength ⊢
      omega

end FieldsRead

end Scan

end X86Listing
