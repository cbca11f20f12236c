/-!
# Tables by name

A table of values under names, kept in ascending order of the names. Names are compared by code
point, which for their encoded bytes is the same order.

## Main definitions

* `Table` — entries in strictly ascending order of their names
* `Table.get?`, `Table.insert`, `Table.ofList`

## Main results

* `Table.get?_insert` — an insertion changes the value of its own name and of no other
* `Table.ofList_entries` — a table is the table of its entries
-/

namespace ShaderLang

/-- A table of values under names, in strictly ascending order of the names. -/
structure Table (α : Type) where
  entries : List (String × α)
  ascending : entries.Pairwise (fun a b => a.1 < b.1)

namespace Table

variable {α β : Type}

/-- The table without entries. -/
def empty : Table α := ⟨[], List.Pairwise.nil⟩

instance : Inhabited (Table α) := ⟨empty⟩

theorem ext {t u : Table α} (h : t.entries = u.entries) : t = u := by
  cases t
  cases u
  simpa using h

instance [DecidableEq α] : DecidableEq (Table α) := fun t u =>
  decidable_of_iff (t.entries = u.entries) ⟨ext, fun h => h ▸ rfl⟩

/-- The value of the first entry with the name. -/
def find? (name : String) : List (String × α) → Option α
  | [] => none
  | e :: es => if e.1 = name then some e.2 else find? name es

/-- Entries with one more, which takes the place of an entry with its name. -/
def place (name : String) (value : α) : List (String × α) → List (String × α)
  | [] => [(name, value)]
  | e :: es =>
    if name < e.1 then (name, value) :: e :: es
    else if name = e.1 then (name, value) :: es
    else e :: place name value es

theorem fst_of_mem_place {name : String} {value : α} {es : List (String × α)} {e : String × α}
    (h : e ∈ place name value es) : e.1 = name ∨ e ∈ es := by
  induction es with
  | nil => simp_all [place]
  | cons d ds ih => grind [place]

theorem pairwise_place {name : String} {value : α} {es : List (String × α)}
    (h : es.Pairwise (fun a b => a.1 < b.1)) :
    (place name value es).Pairwise (fun a b => a.1 < b.1) := by
  induction es with
  | nil => simp [place]
  | cons d ds ih =>
    obtain ⟨hd, hds⟩ := List.pairwise_cons.1 h
    simp only [place]
    split
    · next hlt =>
      refine List.pairwise_cons.2 ⟨fun e he => ?_, h⟩
      rcases List.mem_cons.1 he with rfl | he
      · exact hlt
      · exact String.lt_trans hlt (hd e he)
    · next hnlt =>
      split
      · next heq => exact List.pairwise_cons.2 ⟨fun e he => heq ▸ hd e he, hds⟩
      · next hne =>
        refine List.pairwise_cons.2 ⟨fun e he => ?_, ih hds⟩
        rcases fst_of_mem_place he with rfl | he
        · have hle : d.1 ≤ e.1 := String.not_lt.1 hnlt
          exact Decidable.byContradiction fun hn =>
            hne (String.le_antisymm (String.not_lt.1 hn) hle)
        · exact hd e he

/-- The value of a name. -/
def get? (t : Table α) (name : String) : Option α := find? name t.entries

/-- The table has an entry of that name. -/
def contains (t : Table α) (name : String) : Bool := (t.get? name).isSome

/-- The table with the name set to the value. -/
def insert (t : Table α) (name : String) (value : α) : Table α :=
  ⟨place name value t.entries, pairwise_place t.ascending⟩

/-- The table of a list of entries, the last one of a name counting. -/
def ofList (es : List (String × α)) : Table α :=
  es.foldl (fun t e => t.insert e.1 e.2) empty

/-- The table without entries has no names. -/
def isEmpty (t : Table α) : Bool := t.entries.isEmpty

theorem find?_place (name other : String) (value : α) (es : List (String × α)) :
    find? other (place name value es) = if name = other then some value else find? other es := by
  induction es with
  | nil => simp [place, find?]
  | cons d ds ih => grind [place, find?]

@[simp] theorem get?_insert (t : Table α) (name other : String) (value : α) :
    (t.insert name value).get? other = if name = other then some value else t.get? other :=
  find?_place name other value t.entries

@[simp] theorem get?_empty (name : String) : (empty : Table α).get? name = none := rfl

/-- A name above all others goes to the end. -/
theorem place_eq_append {name : String} {value : α} {es : List (String × α)}
    (h : ∀ e ∈ es, e.1 < name) : place name value es = es ++ [(name, value)] := by
  induction es with
  | nil => rfl
  | cons d ds ih =>
    have hd : d.1 < name := h d List.mem_cons_self
    have hlt : ¬name < d.1 := fun hlt => String.lt_irrefl _ (String.lt_trans hd hlt)
    have hne : name ≠ d.1 := fun heq => String.lt_irrefl _ (heq ▸ hd)
    simp only [place, hlt, hne, if_false, List.cons_append,
      ih fun e he => h e (List.mem_cons_of_mem d he)]

theorem entries_foldl_insert (es : List (String × α)) (t : Table α)
    (h : (t.entries ++ es).Pairwise (fun a b => a.1 < b.1)) :
    (es.foldl (fun t e => t.insert e.1 e.2) t).entries = t.entries ++ es := by
  induction es generalizing t with
  | nil => simp
  | cons e es ih =>
    have hentries : (t.insert e.1 e.2).entries = t.entries ++ [e] :=
      place_eq_append fun d hd => (List.pairwise_append.1 h).2.2 d hd e List.mem_cons_self
    rw [List.foldl_cons, ih _ (by rw [hentries]; simpa using h), hentries]
    simp

/-- A table is the table of its entries. -/
theorem ofList_entries (t : Table α) : ofList t.entries = t :=
  ext <| by
    simpa [ofList, empty] using
      entries_foldl_insert t.entries empty (by simpa [empty] using t.ascending)

end Table
end ShaderLang
