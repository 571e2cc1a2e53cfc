import JobScheduler.Value.Held

/-!
What is found in tables that are laid over each other. `Table.field?` finds a value two levels deep,
and an overlay of tables with plain values in them gives each field its value or leaves it as it was
below (`Table.field?_layerEntries`). Tables in which no reserved name stands hold what they say.
-/

namespace JobScheduler

namespace Table

/-- The value under a name of the table under another name. -/
def field? (t : Table) (place : String × String) : Option Value :=
  ((t.lookup place.1).bind Value.entries?).bind (·.lookup place.2)

/-- Whether a name, if there is such an entry, is that of a table. -/
def HasSection (t : Table) (name : String) : Prop :=
  ∀ v, t.lookup name = some v → ∃ entries, v = .table entries

/-- Tables below one table, with names that differ and values that are no tables. -/
structure Overlay (t : Table) : Prop where
  names : (t.map (·.1)).Nodup
  sections : ∀ entry ∈ t, ∃ entries, entry.2 = .table entries ∧ (entries.map (·.1)).Nodup ∧
    ∀ field ∈ entries, field.2.entries? = none

variable {t : Table} {name n : String} {v : Value}

theorem lookup_cons (n m : String) (v : Value) (rest : Table) :
    ((m, v) :: rest).lookup n = if n = m then some v else rest.lookup n := by
  rw [List.lookup_cons]
  by_cases h : n = m
  · rw [if_pos h, beq_iff_eq.mpr h]
  · rw [if_neg h, beq_eq_false_iff_ne.mpr h]

theorem lookup_put (t : Table) (name n : String) (v : Value) :
    (t.put name v).lookup n = if n = name then some v else t.lookup n := by
  induction t with
  | nil => rw [put, lookup_cons]
  | cons entry rest ih =>
      obtain ⟨m, w⟩ := entry
      rw [put]
      by_cases hm : m = name
      · subst hm
        rw [if_pos rfl, lookup_cons, lookup_cons]
        split <;> rfl
      · rw [if_neg hm, lookup_cons, lookup_cons, ih]
        by_cases hn : n = m
        · have hne : n ≠ name := fun h => hm (hn.symm.trans h)
          rw [if_pos hn, if_neg hne, if_pos hn]
        · rw [if_neg hn, if_neg hn]

theorem mem_put {entry : String × Value} (h : entry ∈ t.put name v) :
    entry = (name, v) ∨ entry ∈ t := by
  induction t with
  | nil => exact .inl (List.mem_singleton.mp h)
  | cons first rest ih =>
      rw [put] at h
      split at h
      · rename_i hm
        rcases List.mem_cons.mp h with rfl | h
        · exact .inl (by rw [hm])
        · exact .inr (List.mem_cons_of_mem _ h)
      · rcases List.mem_cons.mp h with rfl | h
        · exact .inr List.mem_cons_self
        · exact (ih h).imp_right (List.mem_cons_of_mem _)

theorem nodup_put (h : (t.map (·.1)).Nodup) : ((t.put name v).map (·.1)).Nodup := by
  induction t with
  | nil => simp [put]
  | cons first rest ih =>
      obtain ⟨hfirst, hrest⟩ := List.nodup_cons.mp h
      rw [put]
      split
      · exact h
      · rename_i hm
        refine List.nodup_cons.mpr ⟨fun hmem => ?_, ih hrest⟩
        obtain ⟨entry, hentry, hname⟩ := List.mem_map.mp hmem
        rcases mem_put hentry with rfl | hentry
        · exact hm hname.symm
        · exact hfirst (List.mem_map.mpr ⟨entry, hentry, hname⟩)

end Table

namespace Value

theorem layer_of_plain (under : Value) {v : Value} (h : v.entries? = none) :
    layer under v = v := by
  cases v with
  | table _ => exact absurd h nofun
  | date _ => exact absurd h nofun
  | _ => rw [layer]

theorem layerEntry_eq (below : Table) (name : String) (v : Value) :
    layerEntry below (name, v) =
      below.put name (match below.lookup name with
        | some under => layer under v
        | none => v) := by
  rw [layerEntry]
  cases below.lookup name <;> rfl

theorem layer_table (below entries : Table) :
    layer (.table below) (.table entries) = .table (layerEntries below entries) := by
  rw [layer]
  rfl

theorem lookup_layerEntries (below : Table) {t : Table} (h : (t.map (·.1)).Nodup) (n : String) :
    (layerEntries below t).lookup n =
      match t.lookup n, below.lookup n with
      | some v, some under => some (layer under v)
      | some v, none => some v
      | none, found => found := by
  induction t generalizing below with
  | nil => rw [layerEntries]; rfl
  | cons entry rest ih =>
      obtain ⟨m, v⟩ := entry
      obtain ⟨hm, hrest⟩ := List.nodup_cons.mp h
      rw [layerEntries, ih _ hrest, layerEntry_eq, Table.lookup_put, Table.lookup_cons]
      by_cases hn : n = m
      · subst hn
        have hfree : rest.lookup n = none := by
          apply List.lookup_eq_none_iff.mpr
          intro entry hentry
          apply bne_iff_ne.mpr
          rintro rfl
          exact hm (List.mem_map.mpr ⟨entry, hentry, rfl⟩)
        rw [hfree, if_pos rfl, if_pos rfl]
        cases below.lookup n <;> rfl
      · rw [if_neg hn, if_neg hn]

end Value

namespace Table

variable {t file : Table} {name key : String} {v : Value} {place : String × String}

theorem field?_of_section {entries : Table} (h : t.lookup place.1 = some (.table entries)) :
    t.field? place = entries.lookup place.2 := by
  simp [field?, h, Value.entries?]

theorem field?_of_none (h : t.lookup place.1 = none) : t.field? place = none := by
  simp [field?, h]

theorem mem_of_lookup (h : t.lookup name = some v) : (name, v) ∈ t := by
  obtain ⟨before, after, hsplit, -⟩ := List.lookup_eq_some_iff.mp h
  rw [hsplit]
  simp

theorem Overlay.section_of_lookup (h : t.Overlay) (hl : t.lookup name = some v) :
    ∃ entries, v = .table entries ∧ (entries.map (·.1)).Nodup ∧
      ∀ field ∈ entries, field.2.entries? = none :=
  h.sections _ (mem_of_lookup hl)

theorem Overlay.empty : Overlay [] := ⟨List.nodup_nil, nofun⟩

theorem Overlay.lay_section (h : t.Overlay) (hv : v.entries? = none) (name key : String) :
    ∃ entries, (match t.lookup name with
        | some under => Value.layer under (.table [(key, v)])
        | none => .table [(key, v)]) = Value.table entries ∧ (entries.map (·.1)).Nodup ∧
      (∀ field ∈ entries, field.2.entries? = none) ∧
      ∀ n, entries.lookup n = if n = key then some v else t.field? (name, n) := by
  cases hl : t.lookup name with
  | none =>
      refine ⟨[(key, v)], rfl, by simp, by simpa using hv, ?_⟩
      intro n
      rw [lookup_cons, field?_of_none hl]
      rfl
  | some under =>
      obtain ⟨below, rfl, hnodup, hplain⟩ := h.section_of_lookup hl
      have hput : Value.layerEntries below [(key, v)] = put below key v := by
        rw [Value.layerEntries, Value.layerEntry_eq, Value.layerEntries]
        cases below.lookup key with
        | none => rfl
        | some under => exact congrArg (put below key) (Value.layer_of_plain under hv)
      -- The field is put into the section that is there, and does not go into what it replaces.
      refine ⟨put below key v, ?_, nodup_put hnodup, ?_, ?_⟩
      · rw [← hput]
        exact Value.layer_table _ _
      · intro field hfield
        rcases mem_put hfield with rfl | hfield
        · exact hv
        · exact hplain field hfield
      · intro n
        rw [lookup_put, field?_of_section hl]

theorem Overlay.lay (h : t.Overlay) (hv : v.entries? = none) (place : String × String) :
    (Value.layerEntry t (place.1, .table [(place.2, v)])).Overlay ∧
      ∀ p, (Value.layerEntry t (place.1, .table [(place.2, v)])).field? p =
        if p = place then some v else t.field? p := by
  obtain ⟨entries, hentries, hnodup, hplain, hlookup⟩ := h.lay_section hv place.1 place.2
  rw [Value.layerEntry_eq, hentries]
  refine ⟨⟨nodup_put h.names, ?_⟩, ?_⟩
  · intro entry hentry
    rcases mem_put hentry with rfl | hentry
    · exact ⟨entries, rfl, hnodup, hplain⟩
    · exact h.sections entry hentry
  · intro p
    have hput := lookup_put t place.1 p.1 (.table entries)
    by_cases hp : p.1 = place.1
    · rw [if_pos hp] at hput
      rw [field?_of_section hput, hlookup, ← hp]
      have hiff : p = place ↔ p.2 = place.2 := by simp [Prod.ext_iff, hp]
      simp only [hiff]
    · rw [if_neg hp] at hput
      have hne : p ≠ place := fun h => hp (congrArg Prod.fst h)
      rw [if_neg hne, field?, hput, field?]

/-- What is found in a table once an overlay is laid over it. -/
theorem field?_layerEntries (hfile : file.HasSection place.1) (h : t.Overlay) :
    (Value.layerEntries file t).field? place = (t.field? place).or (file.field? place) := by
  have hboth := Value.lookup_layerEntries file h.names place.1
  cases ht : t.lookup place.1 with
  | none =>
      rw [ht] at hboth
      rw [field?_of_none ht, field?, hboth, field?]
      rfl
  | some v =>
      obtain ⟨entries, rfl, hnodup, hplain⟩ := h.section_of_lookup ht
      rw [field?_of_section ht]
      cases hf : file.lookup place.1 with
      | none =>
          rw [ht, hf] at hboth
          rw [field?_of_section hboth, field?_of_none hf, Option.or_none]
      | some under =>
          obtain ⟨below, rfl⟩ := hfile _ hf
          rw [ht, hf] at hboth
          dsimp only at hboth
          rw [Value.layer_table] at hboth
          rw [field?_of_section hboth, field?_of_section hf,
            Value.lookup_layerEntries below hnodup]
          cases hkey : entries.lookup place.2 with
          | none => rfl
          | some v =>
              cases below.lookup place.2 with
              | none => rfl
              | some under =>
                  exact congrArg some (Value.layer_of_plain under (hplain _ (mem_of_lookup hkey)))

theorem hasSection_layerEntries (hfile : file.HasSection name) (h : t.Overlay) :
    HasSection (Value.layerEntries file t) name := by
  intro v hv
  rw [Value.lookup_layerEntries file h.names] at hv
  cases ht : t.lookup name with
  | none =>
      rw [ht] at hv
      exact hfile v hv
  | some w =>
      obtain ⟨entries, rfl, -⟩ := h.section_of_lookup ht
      cases hf : file.lookup name with
      | none =>
          rw [ht, hf] at hv
          exact ⟨entries, (Option.some_inj.mp hv).symm⟩
      | some under =>
          obtain ⟨below, rfl⟩ := hfile _ hf
          rw [ht, hf] at hv
          dsimp only at hv
          rw [Value.layer_table] at hv
          exact ⟨_, (Option.some_inj.mp hv).symm⟩

end Table

namespace Value

def isReserved (name : String) : Bool := name == heldName || name == forbiddenName

mutual

/-- Whether no table in a value has an entry of a reserved name. -/
def isOpen : Value → Bool
  | table entries => !entries.any (fun entry => isReserved entry.1) && entriesOpen entries
  | list items => itemsOpen items
  | _ => true

def itemsOpen : List Value → Bool
  | [] => true
  | v :: rest => isOpen v && itemsOpen rest

/-- Whether no table below a table of entries has one of a reserved name. -/
def entriesOpen : List (String × Value) → Bool
  | [] => true
  | entry :: rest => pairOpen entry && entriesOpen rest

def pairOpen : String × Value → Bool
  | (_, v) => isOpen v

end

theorem ofEntries?_of_open {entries : Table}
    (h : entries.any (fun entry => isReserved entry.1) = false) :
    ofEntries? entries = some (table entries) := by
  have hfree : ∀ name, isReserved name = true → entries.lookup name = none := by
    intro name hname
    apply List.lookup_eq_none_iff.mpr
    intro entry hentry
    apply bne_iff_ne.mpr
    rintro rfl
    exact List.any_eq_false.mp h entry hentry hname
  rw [ofEntries?, hfree forbiddenName (by decide), hfree heldName (by decide)]
  rfl

mutual

theorem held?_of_open : ∀ {v : Value}, v.isOpen = true → held? v = some v
  | table entries, h => by
      rw [isOpen, Bool.and_eq_true, Bool.not_eq_true'] at h
      rw [held?, heldEntries?_of_open h.2, Option.bind_some, ofEntries?_of_open h.1]
  | list items, h => by
      rw [isOpen] at h
      rw [held?, heldItems?_of_open h, Option.map_some]
  | date _, _ => by rw [held?]
  | flag _, _ => by rw [held?]
  | number _, _ => by rw [held?]
  | letter _, _ => by rw [held?]
  | text _, _ => by rw [held?]

theorem heldItems?_of_open : ∀ {items : List Value}, itemsOpen items = true →
    heldItems? items = some items
  | [], _ => by rw [heldItems?]
  | v :: rest, h => by
      rw [itemsOpen, Bool.and_eq_true] at h
      rw [heldItems?, held?_of_open h.1, Option.bind_some, heldItems?_of_open h.2, Option.map_some]

theorem heldEntries?_of_open : ∀ {entries : List (String × Value)}, entriesOpen entries = true →
    heldEntries? entries = some entries
  | [], _ => by rw [heldEntries?]
  | entry :: rest, h => by
      rw [entriesOpen, Bool.and_eq_true] at h
      rw [heldEntries?, heldPair?_of_open h.1, Option.bind_some, heldEntries?_of_open h.2,
        Option.map_some]

theorem heldPair?_of_open : ∀ {entry : String × Value}, pairOpen entry = true →
    heldPair? entry = some entry
  | (_, v), h => by
      rw [pairOpen] at h
      rw [heldPair?, held?_of_open h, Option.map_some]

end

end Value

end JobScheduler
