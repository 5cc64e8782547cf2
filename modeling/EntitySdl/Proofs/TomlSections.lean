import EntitySdl.Toml.Printer
import EntitySdl.Proofs.TomlLines

/-! # TOML sections that are written are read back

A record is spread over sections: its own lines stand under its header, and what lies
deeper has headers of its own, which name the whole way to it.  While the sections of a
record are read, everything around it stays as it is.  So the reading of a record comes
down to a table with a hole, into which the table of the record is put, and what happens
to the table in the hole does not depend on what is around it.
-/
namespace EntitySdl
namespace Toml

variable {key : String} {way path : List String} {table : Table} {entry : Entry}
  {fill : Table → Table} {draft : Draft}

/-! ## Tables -/

theorem lookup_put (key : String) (entry : Entry) (entries : List (String × Entry)) :
    (put key entry entries).lookup key = some entry := by
  induction entries with
  | nil => simp [put]
  | cons first rest ih =>
    obtain ⟨other, old⟩ := first
    by_cases hother : other = key
    · simp [put, hother]
    · simp [put, hother, List.lookup_cons, beq_eq_false_iff_ne.mpr (Ne.symm hother), ih]

theorem put_put (key : String) (before entry : Entry) (entries : List (String × Entry)) :
    put key entry (put key before entries) = put key entry entries := by
  induction entries with
  | nil => simp [put]
  | cons first rest ih =>
    obtain ⟨other, old⟩ := first
    by_cases hother : other = key <;> simp [put, hother, ih]

/-- An entry under a new key is the last one. -/
theorem put_of_lookup {entries : List (String × Entry)} (h : entries.lookup key = none) :
    put key entry entries = entries ++ [(key, entry)] := by
  induction entries with
  | nil => rfl
  | cons first rest ih =>
    obtain ⟨other, old⟩ := first
    rw [List.lookup_cons] at h
    split at h
    · cases h
    · rename_i hother
      rw [put, if_neg (Ne.symm (beq_eq_false_iff_ne.mp hother)), ih h]
      rfl

namespace Table

@[simp] theorem get?_put (table : Table) (key : String) (entry : Entry) :
    (table.put key entry).get? key = some entry := lookup_put key entry table.entries

@[simp] theorem put_put (table : Table) (key : String) (before entry : Entry) :
    (table.put key before).put key entry = table.put key entry := by
  simp only [put, Toml.put_put]

/-- What the entries of a table stand for. -/
def data (table : Table) : List (String × Datum) := entriesToData table.entries

theorem map_fst_data (table : Table) : table.data.map Prod.fst = table.entries.map Prod.fst := by
  unfold data
  induction table.entries with
  | nil => rfl
  | cons first rest ih =>
    obtain ⟨key, entry⟩ := first
    rw [entriesToData, List.map_cons, List.map_cons, ih]

/-- A key is new in a table if it is not in its data. -/
theorem get?_eq_none_iff : table.get? key = none ↔ key ∉ table.data.map Prod.fst := by
  rw [map_fst_data, get?, List.lookup_eq_none_iff, List.mem_map]
  refine ⟨fun h ⟨first, hfirst, hkey⟩ => ?_, fun h first hfirst => ?_⟩
  · exact absurd hkey.symm (bne_iff_ne.mp (h first hfirst))
  · exact bne_iff_ne.mpr fun hkey => h ⟨first, hfirst, hkey.symm⟩

theorem get?_of_nodup {datum : Datum} {more : List (String × Datum)}
    (h : ((table.data ++ (key, datum) :: more).map Prod.fst).Nodup) : table.get? key = none := by
  rw [List.map_append, List.nodup_append] at h
  exact get?_eq_none_iff.mpr fun hmem => h.2.2 key hmem key (by simp) rfl

theorem data_put (h : table.get? key = none) :
    (table.put key entry).data = table.data ++ [(key, entry.toDatum)] := by
  have hentries : ∀ entries : List (String × Entry),
      entriesToData (entries ++ [(key, entry)]) = entriesToData entries ++ [(key, entry.toDatum)] := by
    intro entries
    induction entries with
    | nil => rfl
    | cons first rest ih =>
      obtain ⟨other, old⟩ := first
      rw [List.cons_append, entriesToData, ih]
      rfl
  rw [data, put, put_of_lookup h, hentries]
  rfl

/-- Nothing is taken away under a new key. -/
theorem erase_of_get? (h : table.get? key = none) : table.erase key = table := by
  have hentries : table.entries.filter (·.1 != key) = table.entries := by
    refine List.filter_eq_self.mpr fun first hfirst => ?_
    have hkey := List.lookup_eq_none_iff.mp h first hfirst
    rwa [bne_comm]
  rw [erase, hentries]

end Table

/-! ## Holes -/

/-- A table with a hole that a path leads to. -/
structure Hole (way : List String) (fill : Table → Table) : Prop where
  /-- What is changed there or further on changes what is in the hole. -/
  change : ∀ change more table, descend false change (way ++ more) (fill table) =
    (descend false change more table).map fill
  /-- What is found there or further on is found from what is in the hole. -/
  look : ∀ more key table, Draft.lookAhead.entryAt (way ++ more) key (fill table) =
    Draft.lookAhead.entryAt more key table

theorem Hole.root : Hole [] id := ⟨fun _ _ _ => by simp, fun _ _ _ => rfl⟩

/-- A hole in place of a table of the table in a hole. -/
theorem Hole.child (h : Hole way fill) (outer : Table) (key : String) :
    Hole (way ++ [key]) fun table => fill (outer.put key table.entry) where
  change change more table := by
    rw [List.append_assoc, h.change, List.singleton_append, descend, Table.get?_put]
    simp only [Table.entry, Bool.false_and, Bool.false_eq_true, if_false]
    cases descend false change more table with
    | none => rfl
    | some changed => simp
  look more other table := by
    rw [List.append_assoc, h.look, List.singleton_append, Draft.lookAhead.entryAt, Table.get?_put]
    rfl

/-- A hole in place of the last of some tables of the table in a hole. -/
theorem Hole.last (h : Hole way fill) (outer : Table) (key : String) (elements : List Entry) :
    Hole (way ++ [key]) fun table => fill (outer.put key (.tables (elements ++ [table.entry]))) where
  change change more table := by
    rw [List.append_assoc, h.change, List.singleton_append, descend, Table.get?_put]
    simp only [Table.entry, List.getLast?_concat, List.dropLast_concat]
    cases descend false change more table with
    | none => rfl
    | some changed => simp
  look more other table := by
    rw [List.append_assoc, h.look, List.singleton_append, Draft.lookAhead.entryAt, Table.get?_put]
    simp only [List.getLast?_concat]
    rfl

theorem Hole.lookAhead (h : Hole way fill) (key : String) (table : Table) :
    Draft.lookAhead (way ++ [key]) (fill table) = some (fill table, table.get? key) := by
  have hchange := h.change some [] table
  have hlook := h.look [] key table
  rw [List.append_nil] at hchange hlook
  simp only [Draft.lookAhead, splitPath, List.dropLast_concat, List.getLast?_concat,
    Option.getD_some, hchange]
  simp only [descend, Option.map_some, Option.bind_eq_bind, Option.bind_some, hlook]
  rfl

/-! ## Drafts -/

/-- A draft whose last table goes into a hole. -/
structure Fills (draft : Draft) (fill : Table → Table) : Prop where
  /-- Whatever the last table is, it is put there. -/
  finish : ∀ table, { draft with current := table }.finish = some (fill table)
  /-- A dotted key has not opened it. -/
  dotted : draft.current.dotted = false

theorem Fills.root : Fills {} id := ⟨fun _ => rfl, rfl⟩

theorem Fills.finish_eq (h : Fills draft fill) : draft.finish = some (fill draft.current) :=
  h.finish draft.current

theorem Hole.change_here (h : Hole way fill) (change : Table → Option Table) (table : Table) :
    descend false change way (fill table) = (change table).map fill := by
  have hchange := h.change change [] table
  rwa [List.append_nil] at hchange

/-- A table with the last one put under its key, alone or behind others in a list. -/
def settle (isElement : Bool) (key : String) (current table : Table) : Option Table :=
  if isElement then
    match table.get? key with
    | none => some (table.put key (.tables [current.entry]))
    | some (.tables elements) => some (table.put key (.tables (elements ++ [current.entry])))
    | _ => none
  else match table.get? key with
    | none => some (table.put key current.entry)
    | some (.table _ true _) => some (table.put key current.entry)
    | _ => none

theorem finish_concat (root current : Table) (way : List String) (key : String)
    (isElement : Bool) : Draft.finish ⟨root, current, way ++ [key], isElement⟩ =
      descend false (settle isElement key current) way root := by
  unfold Draft.finish
  split
  · rename_i hpath
    exact absurd hpath (by simp)
  · simp only [splitPath, List.dropLast_concat, List.getLast?_concat, Option.getD_some]
    rfl

/-- The table under a new header goes into the table that is in a hole. -/
theorem Hole.fills_table (h : Hole way fill) (hkey : table.get? key = none) :
    Fills ⟨fill table, {}, way ++ [key], false⟩ fun inner => fill (table.put key inner.entry) where
  finish inner := by
    rw [finish_concat, h.change_here]
    simp only [settle, hkey, Bool.false_eq_true, if_false]
    rfl
  dotted := rfl

/-- The tables of a list under a key, if there are any. -/
def Table.withTables (table : Table) (key : String) (elements : List Entry) : Table :=
  if elements.isEmpty then table else table.put key (.tables elements)

/-- One more table of a list under a key goes there behind the others. -/
theorem Hole.fills_element (h : Hole way fill) (hkey : table.get? key = none)
    (elements : List Entry) :
    Fills ⟨fill (table.withTables key elements), {}, way ++ [key], true⟩ fun inner =>
      fill (table.put key (.tables (elements ++ [inner.entry]))) where
  finish inner := by
    rw [finish_concat, h.change_here]
    cases elements with
    | nil =>
      simp only [settle, Table.withTables, List.isEmpty_nil, if_true, hkey]
      rfl
    | cons element elements =>
      simp only [settle, Table.withTables, List.isEmpty_cons, Bool.false_eq_true, if_false, if_true,
        Table.get?_put, Table.put_put]
      rfl
  dotted := rfl

theorem header_of_finish (h : Hole way fill) (hfinish : draft.finish = some (fill table))
    (hkey : table.get? key = none) :
    draft.header (way ++ [key]) = some ⟨fill table, {}, way ++ [key], false⟩ := by
  have herase : descend false (fun table => some (table.erase key)) way (fill table) =
      some (fill table) := by
    rw [h.change_here, Table.erase_of_get? hkey]
    rfl
  rw [Draft.header, hfinish]
  simp only [Option.bind_eq_bind, Option.bind_some, h.lookAhead, hkey, splitPath,
    List.dropLast_concat, List.getLast?_concat, Option.getD_some, herase]
  rfl

theorem element_of_finish (h : Hole way fill) (hkey : table.get? key = none)
    (elements : List Entry)
    (hfinish : draft.finish = some (fill (table.withTables key elements))) :
    draft.element (way ++ [key]) =
      some ⟨fill (table.withTables key elements), {}, way ++ [key], true⟩ := by
  rw [Draft.element, hfinish]
  simp only [Option.bind_eq_bind, Option.bind_some, h.lookAhead]
  cases elements with
  | nil => simp [Table.withTables, hkey]
  | cons => simp [Table.withTables]

/-- A pair under a new key goes into the last table. -/
theorem Fills.pair (h : Fills draft fill) (hkey : draft.current.get? key = none) (datum : Datum) :
    draft.pair [key] datum = some { draft with current := draft.current.put key (.value datum) } ∧
      Fills { draft with current := draft.current.put key (.value datum) } fill := by
  refine ⟨?_, h.finish, h.dotted⟩
  have hadd : addPair [key] datum draft.current =
      some (draft.current.put key (.value datum)) := by
    simp [addPair, splitPath, descend, h.dotted, hkey]
  rw [Draft.pair, hadd]
  rfl

/-! ## Data in sections -/

variable {entries direct headed : List (String × Datum)} {datum : Datum} {items : List Datum}
  {below : Datum → Prop} {body : List (String × Datum) → Prop} {depth : Nat}

/-- A datum with headers of its own, in which the records are told by a property of their
entries. -/
def Headed (body : List (String × Datum) → Prop) : Datum → Prop
  | .record entries => body entries
  | .list items => items ≠ [] ∧ ∀ item ∈ items, ∃ entries, item = .record entries ∧ body entries
  | _ => False

/-- The entries of a record: some on lines of their own, and behind them some with headers
of their own. -/
structure IsBody (below : Datum → Prop) (entries direct headed : List (String × Datum)) :
    Prop where
  /-- There are no others. -/
  split : entries = direct ++ headed
  /-- There is at least one line. -/
  nonempty : direct ≠ []
  /-- Each line can be read back. -/
  direct : ∀ entry ∈ direct, hasHeader entry.2 = false ∧ IsReadable entry.2
  /-- The others are known. -/
  headed : ∀ entry ∈ headed, hasHeader entry.2 = true ∧ below entry.2
  /-- No key occurs twice. -/
  keys : (entries.map Prod.fst).Nodup
  /-- No key needs quotation marks. -/
  bare : ∀ key ∈ entries.map Prod.fst, IsBareKey key

/-- Entries of records that lie in sections up to a depth. -/
def Sectioned : Nat → List (String × Datum) → Prop
  | 0, _ => False
  | depth + 1, entries => ∃ direct headed, IsBody (Headed (Sectioned depth)) entries direct headed

theorem hasHeader_of_headed (h : Headed body datum) : hasHeader datum = true := by
  cases datum with
  | record => rfl
  | list items =>
    obtain ⟨hne, hitems⟩ := h
    have hrecords : items.all isRecord = true := by
      refine List.all_eq_true.mpr fun item hitem => ?_
      obtain ⟨entries, rfl, -⟩ := hitems item hitem
      rfl
    rw [hasHeader, hrecords, List.isEmpty_eq_false_iff.mpr hne]
    rfl
  | null | boolean | integer | float | text => exact h.elim

theorem IsBody.directLines_eq (h : IsBody below entries direct headed) :
    directLines entries = direct.flatMap fun entry => pairLine entry.1 entry.2 := by
  have hdirect : (direct.filter fun entry => !hasHeader entry.2) = direct :=
    List.filter_eq_self.mpr fun entry hentry => by rw [(h.direct entry hentry).1]; rfl
  have hheaded : (headed.filter fun entry => !hasHeader entry.2) = [] :=
    List.filter_eq_nil_iff.mpr fun entry hentry => by rw [(h.headed entry hentry).1]; decide
  rw [directLines, h.split, List.filter_append, hdirect, hheaded, List.append_nil]
  rfl

/-- The lines of a record begin with a key. -/
theorem IsBody.exists_cons (h : IsBody below entries direct headed) :
    ∃ c more, directLines entries = c :: more ∧ isBare c = true := by
  obtain ⟨⟨key, datum⟩, direct, rfl⟩ := List.exists_cons_of_ne_nil h.nonempty
  have hkey : IsBareKey key := h.bare key (by rw [h.split]; simp)
  obtain ⟨c, more, hcons, hbare⟩ := hkey.exists_cons
  rw [h.directLines_eq, List.flatMap_cons, pairLine, hkey.printKey, hcons]
  exact ⟨c, _, rfl, hbare⟩

theorem entrySections_append (path : List String) (entries more : List (String × Datum)) :
    entrySections path (entries ++ more) = entrySections path entries ++ entrySections path more := by
  induction entries with
  | nil => rfl
  | cons entry entries ih =>
    obtain ⟨key, datum⟩ := entry
    rw [List.cons_append, entrySections, entrySections, ih, List.append_assoc]

theorem entrySections_eq_nil (path : List String) (h : ∀ entry ∈ direct, hasHeader entry.2 = false) :
    entrySections path direct = [] := by
  induction direct with
  | nil => rfl
  | cons entry direct ih =>
    obtain ⟨key, datum⟩ := entry
    obtain ⟨hdatum, hdirect⟩ := List.forall_mem_cons.mp h
    rw [entrySections, ih hdirect, hdatum]
    rfl

theorem IsBody.entrySections_eq (h : IsBody below entries direct headed) (path : List String) :
    entrySections path entries = entrySections path headed := by
  rw [h.split, entrySections_append,
    entrySections_eq_nil path fun entry hentry => (h.direct entry hentry).1, List.nil_append]

theorem Sectioned.pos (h : Sectioned depth entries) : 0 < depth := by
  cases depth with
  | zero => exact h.elim
  | succ depth => exact Nat.succ_pos depth

theorem Sectioned.exists_cons (h : Sectioned depth entries) :
    ∃ c more, directLines entries = c :: more ∧ isBare c = true := by
  cases depth with
  | zero => exact h.elim
  | succ depth =>
    obtain ⟨direct, headed, hbody⟩ := h
    exact hbody.exists_cons

theorem Sectioned.isEmpty_directLines (h : Sectioned depth entries) :
    (directLines entries).isEmpty = false := by
  obtain ⟨c, more, hcons, -⟩ := h.exists_cons
  rw [hcons]
  rfl

/-! ## Reading sections -/

/-- Sections, each behind an empty line. -/
def spaced (texts : List (List Char)) : List Char := texts.flatMap ('\n' :: ·)

/-- The sections of a datum put it under a key of the table that a path leads to. -/
def Appends (way : List String) (key : String) (datum : Datum) : Prop :=
  ∀ fill draft table, Hole way fill → Draft.finish draft = some (fill table) →
    table.get? key = none → ∃ next entry,
      Takes draft (spaced (sections (way ++ [key]) datum)) next ∧
      next.finish = some (fill (table.put key entry)) ∧ entry.toDatum = datum

/-- The lines and sections of a record put its entries into the table that a path leads to. -/
def TakesBody (path : List String) (entries : List (String × Datum)) : Prop :=
  ∀ fill draft, Hole path fill → Fills draft fill → draft.current.data = [] → ∃ next table,
    Takes draft (directLines entries ++ spaced (entrySections path entries)) next ∧
    next.finish = some (fill table) ∧ table.data = entries

theorem takes_direct (h : Fills draft fill)
    (hdirect : ∀ entry ∈ direct, IsBareKey entry.1 ∧ IsReadable entry.2)
    (hkeys : ((draft.current.data ++ direct).map Prod.fst).Nodup) :
    ∃ next, Takes draft (direct.flatMap fun entry => pairLine entry.1 entry.2) next ∧
      Fills next fill ∧ next.current.data = draft.current.data ++ direct := by
  induction direct generalizing draft with
  | nil => exact ⟨draft, .nil draft, h, (List.append_nil _).symm⟩
  | cons entry direct ih =>
    obtain ⟨key, datum⟩ := entry
    obtain ⟨⟨hbare, hreadable⟩, hdirect⟩ := List.forall_mem_cons.mp hdirect
    have hkey := Table.get?_of_nodup hkeys
    obtain ⟨hpair, hfills⟩ := h.pair hkey datum
    have hdata : (draft.current.put key (.value datum)).data =
        draft.current.data ++ [(key, datum)] := Table.data_put hkey
    obtain ⟨next, htakes, hnext, hnextdata⟩ := ih hfills hdirect (by
      rw [hdata, List.append_assoc]
      exact hkeys)
    refine ⟨next, ?_, hnext, ?_⟩
    · rw [List.flatMap_cons]
      exact (Takes.pair hbare hreadable hpair).append htakes
    · rw [hnextdata, hdata, List.append_assoc]
      rfl

theorem takes_headed (hole : Hole way fill) (hfinish : draft.finish = some (fill table))
    (hheaded : ∀ entry ∈ headed, hasHeader entry.2 = true ∧ Appends way entry.1 entry.2)
    (hkeys : ((table.data ++ headed).map Prod.fst).Nodup) :
    ∃ next table', Takes draft (spaced (entrySections way headed)) next ∧
      next.finish = some (fill table') ∧ table'.data = table.data ++ headed := by
  induction headed generalizing draft table with
  | nil => exact ⟨draft, table, .nil draft, hfinish, (List.append_nil _).symm⟩
  | cons entry headed ih =>
    obtain ⟨key, datum⟩ := entry
    obtain ⟨⟨hheader, happends⟩, hothers⟩ := List.forall_mem_cons.mp hheaded
    have hkey := Table.get?_of_nodup hkeys
    obtain ⟨next, entry, htakes, hnext, rfl⟩ := happends fill draft table hole hfinish hkey
    have hdata : (table.put key entry).data = table.data ++ [(key, entry.toDatum)] :=
      Table.data_put hkey
    obtain ⟨last, table', hlast, hlastfinish, hlastdata⟩ := ih hnext hothers (by
      rw [hdata, List.append_assoc]
      exact hkeys)
    refine ⟨last, table', ?_, hlastfinish, ?_⟩
    · rw [entrySections, if_pos hheader, spaced, List.flatMap_append]
      exact htakes.append hlast
    · rw [hlastdata, hdata, List.append_assoc]
      rfl

theorem TakesBody.appends_record (h : TakesBody (way ++ [key]) entries)
    (hpath : IsHeaderPath (way ++ [key])) (hlines : (directLines entries).isEmpty = false) :
    Appends way key (.record entries) := by
  intro fill draft table hole hfinish hkey
  obtain ⟨next, inner, htakes, hnext, hdata⟩ := h _ _ (hole.child table key)
    (hole.fills_table hkey) rfl
  have hheader := Takes.header hpath (header_of_finish hole hfinish hkey)
  refine ⟨next, inner.entry, ?_, hnext, ?_⟩
  · have hsections : spaced (sections (way ++ [key]) (.record entries)) =
        ['\n'] ++ (headerLine 1 (way ++ [key]) ++
          (directLines entries ++ spaced (entrySections (way ++ [key]) entries))) := by
      simp [sections, hlines, spaced]
    rw [hsections]
    exact (Takes.blank draft).append (hheader.append htakes)
  · exact congrArg Datum.record hdata

theorem takes_elements (hole : Hole way fill) (hkey : table.get? key = none)
    (hpath : IsHeaderPath (way ++ [key])) (done : List Entry)
    (hfinish : draft.finish = some (fill (table.withTables key done)))
    (hitems : ∀ item ∈ items, ∃ entries, item = .record entries ∧
      TakesBody (way ++ [key]) entries) :
    ∃ next elements, Takes draft (spaced (elementSections (way ++ [key]) items)) next ∧
      next.finish = some (fill (table.withTables key (done ++ elements))) ∧
      elementsToData elements = items := by
  induction items generalizing draft done with
  | nil => exact ⟨draft, [], .nil draft, by rwa [List.append_nil], rfl⟩
  | cons item items ih =>
    obtain ⟨⟨entries, rfl, hbody⟩, hothers⟩ := List.forall_mem_cons.mp hitems
    obtain ⟨next, inner, htakes, hnext, hdata⟩ := hbody _ _ (hole.last table key done)
      (hole.fills_element hkey done) rfl
    have helement := Takes.element hpath (element_of_finish hole hkey done hfinish)
    have hmore : next.finish = some (fill (table.withTables key (done ++ [inner.entry]))) := by
      rw [hnext, Table.withTables, if_neg (by simp)]
    obtain ⟨last, elements, hlast, hlastfinish, helements⟩ := ih _ hmore hothers
    refine ⟨last, inner.entry :: elements, ?_, ?_, ?_⟩
    · have hsections : spaced (elementSections (way ++ [key]) (.record entries :: items)) =
          ['\n'] ++ (headerLine 2 (way ++ [key]) ++
            (directLines entries ++ spaced (entrySections (way ++ [key]) entries))) ++
            spaced (elementSections (way ++ [key]) items) := by
        simp [elementSections, spaced]
      rw [hsections]
      exact ((Takes.blank draft).append (helement.append htakes)).append hlast
    · rw [hlastfinish, List.append_assoc]
      rfl
    · rw [elementsToData, helements]
      exact congrArg (Datum.record · :: items) hdata

theorem appends_list (hpath : IsHeaderPath (way ++ [key])) (hne : items ≠ [])
    (hitems : ∀ item ∈ items, ∃ entries, item = .record entries ∧
      TakesBody (way ++ [key]) entries) :
    Appends way key (.list items) := by
  intro fill draft table hole hfinish hkey
  obtain ⟨next, elements, htakes, hnext, helements⟩ := takes_elements hole hkey hpath []
    (show draft.finish = some (fill (table.withTables key [])) from hfinish) hitems
  have hsome : elements.isEmpty = false := by
    cases elements with
    | nil => exact absurd helements.symm hne
    | cons => rfl
  refine ⟨next, .tables elements, htakes, ?_, congrArg Datum.list helements⟩
  rw [hnext, List.nil_append, Table.withTables, hsome]
  rfl

theorem appends_of_headed (h : Headed (Sectioned depth) datum)
    (hpath : 0 < depth → IsHeaderPath (way ++ [key]))
    (hbody : ∀ entries, Sectioned depth entries → TakesBody (way ++ [key]) entries) :
    Appends way key datum := by
  cases datum with
  | record entries =>
    exact (hbody entries h).appends_record (hpath (Sectioned.pos h))
      (Sectioned.isEmpty_directLines h)
  | list items =>
    obtain ⟨hne, hitems⟩ := h
    obtain ⟨item, hitem⟩ := List.exists_mem_of_ne_nil items hne
    obtain ⟨entries, -, hentries⟩ := hitems item hitem
    refine appends_list (hpath hentries.pos) hne fun item hitem => ?_
    obtain ⟨entries, rfl, hentries⟩ := hitems item hitem
    exact ⟨entries, rfl, hbody entries hentries⟩
  | null | boolean | integer | float | text => exact h.elim

/-- **Sections.**  The lines and sections of a record are read as its entries, wherever it
stands. -/
theorem takesBody_of_sectioned (h : Sectioned depth entries) (hbare : ∀ key ∈ path, IsBareKey key)
    (hlength : path.length + depth ≤ maxDepth + 1) : TakesBody path entries := by
  induction depth generalizing path entries with
  | zero => exact h.elim
  | succ depth ih =>
    obtain ⟨direct, headed, hbody⟩ := h
    intro fill draft hole hfills hempty
    have hkeys := hbody.keys
    have hkeysbare := hbody.bare
    rw [hbody.split] at hkeys hkeysbare
    obtain ⟨next, htakes, hnext, hdata⟩ := takes_direct hfills (fun entry hentry =>
      ⟨hkeysbare entry.1 (List.mem_map_of_mem (List.mem_append_left _ hentry)),
        (hbody.direct entry hentry).2⟩) (by
      rw [hempty, List.nil_append]
      rw [List.map_append] at hkeys
      exact (List.nodup_append.mp hkeys).1)
    rw [hempty, List.nil_append] at hdata
    have happends : ∀ entry ∈ headed, hasHeader entry.2 = true ∧ Appends path entry.1 entry.2 := by
      intro entry hentry
      obtain ⟨hheader, hbelow⟩ := hbody.headed entry hentry
      have hkey : IsBareKey entry.1 :=
        hkeysbare entry.1 (List.mem_map_of_mem (List.mem_append_right _ hentry))
      have hmore : ∀ key ∈ path ++ [entry.1], IsBareKey key :=
        List.forall_mem_append.mpr ⟨hbare, List.forall_mem_singleton.mpr hkey⟩
      refine ⟨hheader, appends_of_headed hbelow (fun hpos => ⟨by simp, hmore, ?_⟩) fun entries h =>
        ih h hmore ?_⟩
      · rw [List.length_append, List.length_singleton]
        omega
      · rw [List.length_append, List.length_singleton]
        omega
    obtain ⟨last, table, hlast, hfinish, htable⟩ := takes_headed hole hnext.finish_eq happends (by
      rw [hdata]
      exact hkeys)
    refine ⟨last, table, ?_, hfinish, ?_⟩
    · rw [hbody.directLines_eq, hbody.entrySections_eq]
      exact htakes.append hlast
    · rw [htable, hdata, hbody.split]

theorem intercalate_cons (texts : List (List Char)) (first : List Char) :
    ['\n'].intercalate (first :: texts) = first ++ spaced texts := by
  induction texts generalizing first with
  | nil => simp [spaced, List.intercalate_singleton]
  | cons text texts ih =>
    rw [List.intercalate_cons_cons, ih, spaced, spaced, List.flatMap_cons]
    simp

/-- **Documents.**  Entries that lie in sections are read from the document that they have been
written as. -/
theorem parse_print (h : Sectioned depth entries) (hdepth : depth ≤ maxDepth + 1) :
    parse (print entries) = .ok entries := by
  have hprint : print entries =
      String.ofList (directLines entries ++ spaced (entrySections [] entries)) := by
    simp only [print, h.isEmpty_directLines, Bool.false_eq_true, if_false, intercalate_cons]
  have hmark : ∀ more,
      directLines entries ++ spaced (entrySections [] entries) ≠ '\uFEFF' :: more := by
    obtain ⟨c, lines, hcons, hbare⟩ := h.exists_cons
    rw [hcons]
    exact fun more heq => ne_of_isBare hbare (by decide) (List.cons.inj heq).1
  obtain ⟨draft, table, htakes, hfinish, hdata⟩ := takesBody_of_sectioned h
    (show ∀ key ∈ ([] : List String), IsBareKey key by simp) (by simpa using hdepth) id {} .root
    .root rfl
  rw [hprint, parse_of_takes htakes hfinish hmark]
  exact congrArg Except.ok hdata

end Toml
end EntitySdl
