import Minica.Lib.Table
import Minica.Lib.Text

/-!
# Data definition statements

The catalog of an SQLite database, as far as the statements `CREATE TABLE IF NOT EXISTS`,
`CREATE INDEX IF NOT EXISTS` and `ALTER TABLE … ADD COLUMN` can tell: tables with their columns and
rows, and the indexes.  Names are compared without regard to ASCII case.

* A table carries that its column names differ and that every row has one value per column.
* An index is checked when it is made: the table has to be there, with every column the index
  mentions, and no two rows may agree on a `UNIQUE` column.
* `Grows` is what such statements can do to a database: tables gain columns, whose value is their
  default in the rows that are there, and new tables are empty.

Views, triggers, `CHECK` clauses and real numbers are left out.
-/

open Rust

namespace Sql

/-! ## Tables -/

/-- The values of a column. -/
inductive Value
  | null
  | integer (n : Int)
  | text (s : Str)
  | blob (b : Bytes)
deriving DecidableEq

/-- What `COLLATE NOCASE` compares; a `NULL` differs from every value. -/
def Value.nocase : Value → Option Value
  | .null => none
  | .text s => some (.text (toAsciiLowercase s))
  | v => some v

/-- The order of values: by storage class, then within it. -/
def Value.lt : Value → Value → Bool
  | _, .null => false
  | .null, _ => true
  | .integer m, .integer n => m < n
  | .integer _, _ => true
  | .text _, .integer _ => false
  | .text s, .text t => s < t
  | .text _, .blob _ => true
  | .blob b, .blob b' => b < b'
  | .blob _, _ => false

/-- `max`: `NULL` when there is no other value. -/
def Value.maximum (values : List Value) : Value :=
  values.foldl (fun a b ↦ if a.lt b then b else a) .null

/-- What of a name the catalog compares. -/
def fold (name : Str) : Str := toAsciiLowercase name

structure Column where
  name : Str
  notNull : Bool
  default : Value
deriving DecidableEq

/-- The rows that are there can take the column on. -/
def Column.Fills (col : Column) : Prop := ¬ (col.notNull = true ∧ col.default = .null)

instance (col : Column) : Decidable col.Fills := inferInstanceAs (Decidable (¬ _))

/-- A declaration of a table. -/
structure Decl where
  name : Str
  columns : List Column
  distinct : (columns.map fun col ↦ fold col.name).Nodup

namespace Decl

def columnNames (d : Decl) : List Str := d.columns.map (·.name)

def hasColumn (d : Decl) (name : Str) : Bool := d.columns.any fun col ↦ fold col.name = fold name

variable {d : Decl} {name : Str}

theorem hasColumn_iff : d.hasColumn name = true ↔ ∃ col ∈ d.columns, fold col.name = fold name := by
  simp [hasColumn]

theorem hasColumn_of_mem (h : name ∈ d.columnNames) : d.hasColumn name = true := by
  obtain ⟨col, hcol, rfl⟩ := List.mem_map.mp h
  exact hasColumn_iff.mpr ⟨col, hcol, rfl⟩

end Decl

/-- A table with its rows. -/
structure Relation extends Decl where
  rows : List (List Value)
  wide : ∀ r ∈ rows, r.length = columns.length

/-- The new table of a declaration. -/
def Decl.relation (d : Decl) : Relation where
  toDecl := d
  rows := []
  wide := fun _ h ↦ absurd h List.not_mem_nil

namespace Relation

/-- `ADD COLUMN`, where there is none of the name. -/
def addColumn (t : Relation) (col : Column) : Relation :=
  if h : t.hasColumn col.name = true then t
  else
    { name := t.name
      columns := t.columns ++ [col]
      distinct := by
        rw [List.map_append]
        refine t.distinct.append (List.nodup_singleton _) ?_
        rw [List.map_singleton, List.disjoint_singleton]
        rintro hmem
        obtain ⟨col', hcol', he⟩ := List.mem_map.mp hmem
        exact h (Decl.hasColumn_iff.mpr ⟨col', hcol', he⟩)
      rows := t.rows.map (· ++ [col.default])
      wide := by
        intro r hr
        obtain ⟨r', hr', rfl⟩ := List.mem_map.mp hr
        rw [List.length_append, List.length_append, t.wide r' hr', List.length_singleton,
          List.length_singleton] }

/-- The values of a column, row by row. -/
def values (t : Relation) (column : Str) : List Value :=
  t.rows.map fun r ↦ r.getD (t.columns.findIdx fun col ↦ fold col.name = fold column) .null

/-- No two rows agree on the column under `COLLATE NOCASE`. -/
def Unique (t : Relation) (column : Str) : Prop :=
  (t.values column).Pairwise fun a b ↦ a.nocase = none ∨ a.nocase ≠ b.nocase

instance (t : Relation) (column : Str) : Decidable (t.Unique column) :=
  inferInstanceAs (Decidable (List.Pairwise _ _))

/-- `DELETE FROM` without a condition. -/
def clear (t : Relation) : Relation where
  toDecl := t.toDecl
  rows := []
  wide := fun _ h ↦ absurd h List.not_mem_nil

/-- The row an `INSERT` of one column's value writes. -/
def rowOf (t : Relation) (column : Str) (v : Value) : List Value :=
  t.columns.map fun col ↦ if fold col.name = fold column then v else col.default

/-- A row more. -/
def append (t : Relation) (r : List Value) (h : r.length = t.columns.length) : Relation where
  toDecl := t.toDecl
  rows := t.rows ++ [r]
  wide := by
    intro r' hr'
    rcases List.mem_append.mp hr' with hr' | hr'
    · exact t.wide r' hr'
    · rw [List.mem_singleton.mp hr', h]

variable {t t' t'' : Relation} {col : Column} {name : Str}

theorem addColumn_of_hasColumn (h : t.hasColumn col.name = true) : t.addColumn col = t := dif_pos h

@[simp] theorem name_addColumn : (t.addColumn col).name = t.name := by
  unfold addColumn
  split <;> rfl

theorem hasColumn_addColumn : (t.addColumn col).hasColumn name = true ↔
    t.hasColumn name = true ∨ fold col.name = fold name := by
  unfold addColumn
  split
  · rename_i h
    refine ⟨.inl, fun hor ↦ hor.elim id fun he ↦ ?_⟩
    obtain ⟨col', hcol', he'⟩ := Decl.hasColumn_iff.mp h
    exact Decl.hasColumn_iff.mpr ⟨col', hcol', he'.trans he⟩
  · simp [Decl.hasColumn]

theorem mem_columnNames_addColumn : name ∈ (t.addColumn col).columnNames ↔
    name ∈ t.columnNames ∨ name = col.name ∧ ¬ t.hasColumn col.name = true := by
  unfold addColumn
  split
  · rename_i h
    exact ⟨.inl, fun hor ↦ hor.elim id fun he ↦ absurd h he.2⟩
  · rename_i h
    simp [Decl.columnNames, h]

/-- If the table has a column of the name, it is spelled like this. -/
def Spells (t : Relation) (name : Str) : Prop := t.hasColumn name = true → name ∈ t.columnNames

instance (t : Relation) (name : Str) : Decidable (t.Spells name) :=
  inferInstanceAs (Decidable (_ → _))

/-- **Added columns are there**, under the spelling all statements agree on. -/
theorem mem_columnNames_addColumns {cols : List Column} (hspells : t.Spells name)
    (hcols : ∀ col ∈ cols, fold col.name = fold name → col.name = name)
    (h : name ∈ t.columnNames ∨ ∃ col ∈ cols, col.name = name) :
    name ∈ (cols.foldl addColumn t).columnNames := by
  induction cols generalizing t with
  | nil => exact h.elim id fun ⟨_, hcol, _⟩ ↦ absurd hcol List.not_mem_nil
  | cons col cols ih =>
      have hnew : col.name = name → name ∈ (t.addColumn col).columnNames := by
        rintro rfl
        rw [mem_columnNames_addColumn]
        by_cases hthere : t.hasColumn col.name = true
        · exact .inl (hspells hthere)
        · exact .inr ⟨rfl, hthere⟩
      refine ih (fun hthere ↦ ?_) (fun col' hcol' ↦ hcols col' (List.mem_cons_of_mem col hcol')) ?_
      · rcases hasColumn_addColumn.mp hthere with hthere | he
        · exact mem_columnNames_addColumn.mpr (.inl (hspells hthere))
        · exact hnew (hcols col List.mem_cons_self he)
      · rcases h with h | ⟨col', hcol', he⟩
        · exact .inl (mem_columnNames_addColumn.mpr (.inl h))
        · rcases List.mem_cons.mp hcol' with rfl | hcol'
          · exact .inl (hnew he)
          · exact .inr ⟨col', hcol', he⟩

/-- The table has gained columns, whose value is their default in the rows that were there. -/
structure Extends (t t' : Relation) : Prop where
  name : t'.name = t.name
  columns : ∃ added : List Column, t'.columns = t.columns ++ added ∧
    t'.rows = t.rows.map (· ++ added.map Column.default)

theorem Extends.refl (t : Relation) : t.Extends t :=
  ⟨rfl, [], (List.append_nil _).symm, by simp⟩

theorem Extends.trans (h : t.Extends t') (h' : t'.Extends t'') : t.Extends t'' := by
  obtain ⟨added, hcolumns, hrows⟩ := h.columns
  obtain ⟨added', hcolumns', hrows'⟩ := h'.columns
  refine ⟨h'.name.trans h.name, added ++ added', ?_, ?_⟩
  · rw [hcolumns', hcolumns, List.append_assoc]
  · rw [hrows', hrows, List.map_map]
    refine List.map_congr_left fun r _ ↦ ?_
    rw [Function.comp_apply, List.map_append, List.append_assoc]

theorem name_addColumns {cols : List Column} : (cols.foldl Relation.addColumn t).name = t.name := by
  induction cols generalizing t with
  | nil => rfl
  | cons col cols ih => exact ih.trans name_addColumn

theorem Extends.addColumn (t : Relation) (col : Column) : t.Extends (t.addColumn col) := by
  unfold Relation.addColumn
  split
  · exact .refl t
  · exact ⟨rfl, [col], rfl, rfl⟩

end Relation

/-! ## The catalog -/

structure Index where
  name : Str
  table : Str
  /-- The columns its key and its `WHERE` clause mention. -/
  columns : List Str
  /-- The column whose values are unique under `COLLATE NOCASE`. -/
  unique : Option Str

structure Catalog where
  tables : Table Relation (Keyed fun t ↦ fold t.name)
  indexes : Table Index (Keyed fun i ↦ fold i.name)

namespace Catalog

/-- A new database. -/
def empty : Catalog := ⟨.empty, .empty⟩

def table? (c : Catalog) (name : Str) : Option Relation :=
  c.tables.rows.find? fun t ↦ fold t.name = fold name

def hasTable (c : Catalog) (name : Str) : Bool := (c.table? name).isSome

def hasIndex (c : Catalog) (name : Str) : Bool := c.indexes.rows.any fun i ↦ fold i.name = fold name

/-- Replaces the table of the name by what `f` makes of it. -/
def mapTable (c : Catalog) (name : Str) (f : Relation → Relation) (hf : ∀ t, (f t).name = t.name) :
    Catalog where
  tables := c.tables.update (fun t ↦ fold t.name = fold name) f
    (Keyed.of_setWhere fun t ↦ congrArg fold (hf t))
  indexes := c.indexes

/-- `CREATE TABLE IF NOT EXISTS`. -/
def createTable (c : Catalog) (d : Decl) : Except Str Catalog :=
  if c.hasTable d.name then .ok c
  else if c.hasIndex d.name then
    .error ("there is already an index named ".toList ++ d.name)
  else
    match c.tables.insert? d.relation with
    | none => .ok c
    | some tables => .ok { c with tables := tables }

/-- `CREATE INDEX IF NOT EXISTS`. -/
def createIndex (c : Catalog) (i : Index) : Except Str Catalog :=
  match c.table? i.table with
  | none => .error ("no such table: main.".toList ++ i.table)
  | some t =>
      if c.hasTable i.name then .error ("there is already a table named ".toList ++ i.name)
      else if c.hasIndex i.name then .ok c
      else
        match i.columns.find? fun column ↦ !t.hasColumn column with
        | some column => .error ("no such column: ".toList ++ column)
        | none =>
            match i.unique.filter fun column ↦ ¬ t.Unique column with
            | some column =>
                .error ("UNIQUE constraint failed: ".toList ++ t.name ++ ".".toList ++ column)
            | none =>
                match c.indexes.insert? i with
                | none => .ok c
                | some indexes => .ok { c with indexes := indexes }

/-- `ALTER TABLE … ADD COLUMN`. -/
def addColumn (c : Catalog) (table : Str) (col : Column) : Except Str Catalog :=
  match c.table? table with
  | none => .error ("no such table: ".toList ++ table)
  | some t =>
      if t.hasColumn col.name then .error ("duplicate column name: ".toList ++ col.name)
      else if ¬ col.Fills ∧ t.rows ≠ [] then
        .error "Cannot add a NOT NULL column with default value NULL"
      else .ok (c.mapTable table (·.addColumn col) fun _ ↦ Relation.name_addColumn)

/-- `DELETE FROM` a table. -/
def deleteFrom (c : Catalog) (table : Str) : Except Str Catalog :=
  match c.table? table with
  | none => .error ("no such table: ".toList ++ table)
  | some _ => .ok (c.mapTable table (·.clear) fun _ ↦ rfl)

/-- `INSERT INTO` a table the value of one column. -/
def insertInto (c : Catalog) (table column : Str) (v : Value) : Except Str Catalog :=
  match c.table? table with
  | none => .error ("no such table: ".toList ++ table)
  | some t =>
      if !t.hasColumn column then
        .error ("table ".toList ++ table ++ " has no column named ".toList ++ column)
      else
        let row := t.rowOf column v
        match (t.columns.zip row).find? fun p ↦ p.1.notNull && decide (p.2 = .null) with
        | some (col, _) =>
            .error ("NOT NULL constraint failed: ".toList ++ t.name ++ ".".toList ++ col.name)
        | none =>
            .ok (c.mapTable table (fun t ↦ t.append (t.rowOf column v) (List.length_map _))
              fun _ ↦ rfl)

/-! ## What the statements do -/

section lemmas

variable {c c' c'' : Catalog} {d : Decl} {i : Index} {t t' : Relation} {name name' : Str}
  {f : Relation → Relation} {hf : ∀ t, (f t).name = t.name}

theorem table?_eq_some :
    c.table? name = some t ↔ t ∈ c.tables.rows ∧ fold t.name = fold name :=
  Keyed.find?_eq_some

theorem hasTable_iff : c.hasTable name = true ↔ ∃ t, c.table? name = some t :=
  Option.isSome_iff_exists

theorem hasTable_iff_mem :
    c.hasTable name = true ↔ ∃ t ∈ c.tables.rows, fold t.name = fold name := by
  rw [hasTable_iff]
  exact exists_congr fun t ↦ table?_eq_some

theorem hasIndex_iff :
    c.hasIndex name = true ↔ ∃ i ∈ c.indexes.rows, fold i.name = fold name := by
  simp [hasIndex]

theorem table?_congr (h : fold name = fold name') : c.table? name = c.table? name' := by
  unfold table?
  rw [h]

/-- Tables by one name are one table. -/
theorem eq_of_mem (h : c.table? name = some t) (ht' : t' ∈ c.tables.rows)
    (hname : fold t'.name = fold name) : t' = t :=
  Option.some.inj ((table?_eq_some.mpr ⟨ht', hname⟩).symm.trans h)

theorem table?_mapTable : (c.mapTable name f hf).table? name' =
    (c.table? name').map fun t ↦ if fold name' = fold name then f t else t := by
  unfold table? mapTable Table.update
  rw [List.find?_map]
  have hkey : ((fun t : Relation ↦ decide (fold t.name = fold name')) ∘
      setWhere (fun t ↦ decide (fold t.name = fold name)) f) =
      fun t ↦ decide (fold t.name = fold name') := by
    funext t
    rw [Function.comp_apply, setWhere_keeps (g := fun t : Relation ↦ t.name) hf]
  rw [hkey]
  cases hfind : c.tables.rows.find? fun t ↦ decide (fold t.name = fold name') with
  | none => rfl
  | some t =>
      have ht : fold t.name = fold name' := by simpa using List.find?_some hfind
      rw [Option.map_some, Option.map_some]
      by_cases he : fold name' = fold name <;> simp [setWhere, ht, he]

theorem hasTable_mapTable : (c.mapTable name f hf).hasTable name' = c.hasTable name' := by
  unfold hasTable
  rw [table?_mapTable, Option.isSome_map]

@[simp] theorem indexes_mapTable : (c.mapTable name f hf).indexes = c.indexes := rfl

/-- Two replacements of one table are one. -/
theorem mapTable_mapTable {g : Relation → Relation} {hg : ∀ t, (g t).name = t.name} :
    (c.mapTable name f hf).mapTable name g hg =
      c.mapTable name (fun t ↦ g (f t)) fun t ↦ (hg (f t)).trans (hf t) := by
  unfold mapTable Table.update
  congr 1
  refine Table.ext ?_
  dsimp only
  rw [List.map_map]
  refine List.map_congr_left fun t _ ↦ ?_
  by_cases he : fold t.name = fold name <;> simp [setWhere, he, hf]

/-- A table that stays as it is. -/
theorem mapTable_of_fixed (h : ∀ t, c.table? name = some t → f t = t) :
    c.mapTable name f hf = c := by
  unfold mapTable Table.update
  have hrows : c.tables.rows.map (setWhere (fun t ↦ decide (fold t.name = fold name)) f) =
      c.tables.rows := by
    refine (List.map_congr_left fun t ht ↦ ?_).trans (List.map_id _)
    unfold setWhere
    split
    · rename_i hname
      exact h t (table?_eq_some.mpr ⟨ht, of_decide_eq_true hname⟩)
    · rfl
  cases c with
  | mk tables indexes =>
      congr 1
      exact Table.ext hrows

/-- A new table is made, or there is one of its name. -/
theorem createTable_eq_ok : c.createTable d = .ok c' ↔
    c.hasTable d.name = true ∧ c' = c ∨
      c.hasTable d.name = false ∧ c.hasIndex d.name = false ∧
        c'.tables.rows = c.tables.rows ++ [d.relation] ∧ c'.indexes = c.indexes := by
  unfold createTable
  cases htable : c.hasTable d.name with
  | true =>
      rw [if_pos rfl]
      constructor
      · rintro ⟨⟩
        exact .inl ⟨rfl, rfl⟩
      · rintro (⟨-, rfl⟩ | ⟨h, -⟩)
        · rfl
        · cases h
  | false =>
      cases hindex : c.hasIndex d.name with
      | true => simp
      | false =>
          have hnew : ∀ t ∈ c.tables.rows,
              ¬ Keyed (fun t : Relation ↦ fold t.name) t d.relation := by
            intro t ht hk
            have hthere : c.hasTable d.name = true := hasTable_iff_mem.mpr ⟨t, ht, hk⟩
            rw [htable] at hthere
            cases hthere
          obtain ⟨tables, htables⟩ := Table.exists_insert? hnew
          rw [htables]
          have hrows := (Table.insert?_eq_some.mp htables).1
          constructor
          · rintro ⟨⟩
            exact .inr ⟨rfl, rfl, hrows, rfl⟩
          · rintro (⟨h, -⟩ | ⟨-, -, hr, hi⟩)
            · cases h
            · cases c'
              exact congrArg Except.ok
                (congr (congrArg Catalog.mk (Table.ext (hrows.trans hr.symm))) hi.symm)

/-- What an index asks of the database it is made in. -/
def Admits (c : Catalog) (i : Index) : Prop :=
  ∃ t, c.table? i.table = some t ∧ c.hasTable i.name = false ∧
    (c.hasIndex i.name = true ∨
      (∀ column ∈ i.columns, t.hasColumn column = true) ∧ ∀ column ∈ i.unique, t.Unique column)

/-- An index is made, or there is one of its name. -/
theorem createIndex_eq_ok : c.createIndex i = .ok c' ↔ c.Admits i ∧
    (c.hasIndex i.name = true ∧ c' = c ∨
      c.hasIndex i.name = false ∧ c'.tables = c.tables ∧
        c'.indexes.rows = c.indexes.rows ++ [i]) := by
  unfold createIndex Admits
  cases hfind : c.table? i.table with
  | none => simp
  | some t =>
      dsimp only
      cases htable : c.hasTable i.name with
      | true => simp
      | false =>
          cases hindex : c.hasIndex i.name with
          | true =>
              rw [if_neg Bool.false_ne_true, if_pos rfl]
              constructor
              · rintro ⟨⟩
                exact ⟨⟨t, rfl, rfl, .inl rfl⟩, .inl ⟨rfl, rfl⟩⟩
              · rintro ⟨-, (⟨-, rfl⟩ | ⟨h, -⟩)⟩
                · rfl
                · cases h
          | false =>
              have hnew : ∀ j ∈ c.indexes.rows, ¬ Keyed (fun j : Index ↦ fold j.name) j i := by
                intro j hj hk
                have hthere := hasIndex_iff.mpr ⟨j, hj, hk⟩
                rw [hindex] at hthere
                cases hthere
              obtain ⟨indexes, hindexes⟩ := Table.exists_insert? hnew
              have hrows := (Table.insert?_eq_some.mp hindexes).1
              have hmade : Except.ok { c with indexes := indexes } = (.ok c' : Except Str Catalog) ↔
                  c'.tables = c.tables ∧ c'.indexes.rows = c.indexes.rows ++ [i] := by
                constructor
                · rintro ⟨⟩
                  exact ⟨rfl, hrows⟩
                · rintro ⟨ht, hi⟩
                  cases c'
                  exact congrArg Except.ok (congr (congrArg Catalog.mk ht.symm)
                    (Table.ext (hrows.trans hi.symm)))
              cases hcolumn : i.columns.find? fun column ↦ !t.hasColumn column with
              | some column =>
                  have hmem := List.mem_of_find?_eq_some hcolumn
                  have hnone : t.hasColumn column = false := by
                    simpa using List.find?_some hcolumn
                  refine iff_of_false (fun h ↦ (by cases h)) ?_
                  rintro ⟨⟨t', ⟨⟩, -, (h | ⟨h, -⟩)⟩, -⟩
                  · cases h
                  · rw [h column hmem] at hnone
                    cases hnone
              | none =>
                  have hall : ∀ column ∈ i.columns, t.hasColumn column = true := by
                    intro column hmem
                    simpa using List.find?_eq_none.mp hcolumn column hmem
                  cases hunique : i.unique.filter fun column ↦ ¬ t.Unique column with
                  | some column =>
                      obtain ⟨hmem, hnot⟩ := Option.filter_eq_some_iff.mp hunique
                      refine iff_of_false (fun h ↦ (by cases h)) ?_
                      rintro ⟨⟨t', ⟨⟩, -, (h | ⟨-, h⟩)⟩, -⟩
                      · cases h
                      · exact absurd (h column hmem) (of_decide_eq_true hnot)
                  | none =>
                      have hno : ∀ column ∈ i.unique, t.Unique column := by
                        intro column hmem
                        have := Option.filter_eq_none_iff.mp hunique column hmem
                        simpa using this
                      rw [if_neg Bool.false_ne_true, if_neg Bool.false_ne_true]
                      dsimp only
                      rw [hindexes]
                      refine hmade.trans ?_
                      constructor
                      · intro h
                        exact ⟨⟨t, rfl, rfl, .inr ⟨hall, hno⟩⟩, .inr ⟨rfl, h⟩⟩
                      · rintro ⟨-, (⟨h, -⟩ | ⟨-, h⟩)⟩
                        · cases h
                        · exact h

end lemmas

/-! ## Growing -/

/-- What is there stays, but for new columns; what is new is an empty table or an index. -/
structure Grows (c c' : Catalog) : Prop where
  kept : ∀ t ∈ c.tables.rows, ∃ t' ∈ c'.tables.rows, t.Extends t'
  fresh : ∀ t' ∈ c'.tables.rows, (∃ t ∈ c.tables.rows, t.Extends t') ∨
    c.hasTable t'.name = false ∧ t'.rows = []
  indexes : ∀ i ∈ c.indexes.rows, i ∈ c'.indexes.rows

namespace Grows

variable {c c' c'' : Catalog} {d : Decl} {i : Index}

theorem refl (c : Catalog) : c.Grows c where
  kept := fun t ht ↦ ⟨t, ht, .refl t⟩
  fresh := fun t ht ↦ .inl ⟨t, ht, .refl t⟩
  indexes := fun _ hi ↦ hi

/-- Tables are not lost. -/
theorem hasTable (h : c.Grows c') {name : Str} (ht : c.hasTable name = true) :
    c'.hasTable name = true := by
  obtain ⟨t, ht, hname⟩ := hasTable_iff_mem.mp ht
  obtain ⟨t', ht', he⟩ := h.kept t ht
  exact hasTable_iff_mem.mpr ⟨t', ht', he.name ▸ hname⟩

theorem trans (h : c.Grows c') (h' : c'.Grows c'') : c.Grows c'' where
  kept := by
    intro t ht
    obtain ⟨t', ht', he⟩ := h.kept t ht
    obtain ⟨t'', ht'', he'⟩ := h'.kept t' ht'
    exact ⟨t'', ht'', he.trans he'⟩
  fresh := by
    intro t'' ht''
    rcases h'.fresh t'' ht'' with ⟨t', ht', he'⟩ | ⟨hnone, hrows⟩
    · rcases h.fresh t' ht' with ⟨t, ht, he⟩ | ⟨hnone, hrows⟩
      · exact .inl ⟨t, ht, he.trans he'⟩
      · obtain ⟨added, -, hrows'⟩ := he'.columns
        exact .inr ⟨he'.name ▸ hnone, by rw [hrows', hrows, List.map_nil]⟩
    · refine .inr ⟨?_, hrows⟩
      cases hthere : c.hasTable t''.name with
      | false => rfl
      | true =>
          rw [h.hasTable hthere] at hnone
          cases hnone
  indexes := fun i hi ↦ h'.indexes i (h.indexes i hi)

theorem of_createTable (h : c.createTable d = .ok c') : c.Grows c' := by
  rcases createTable_eq_ok.mp h with ⟨-, rfl⟩ | ⟨hnone, -, hrows, hindexes⟩
  · exact .refl c'
  · refine ⟨fun t ht ↦ ⟨t, ?_, .refl t⟩, fun t' ht' ↦ ?_, fun i hi ↦ hindexes ▸ hi⟩
    · rw [hrows]
      exact List.mem_append_left _ ht
    · rw [hrows] at ht'
      rcases List.mem_append.mp ht' with ht' | ht'
      · exact .inl ⟨t', ht', .refl t'⟩
      · obtain rfl := List.mem_singleton.mp ht'
        exact .inr ⟨hnone, rfl⟩

theorem of_createIndex (h : c.createIndex i = .ok c') : c.Grows c' := by
  rcases (createIndex_eq_ok.mp h).2 with ⟨-, rfl⟩ | ⟨-, htables, hindexes⟩
  · exact .refl c'
  · refine ⟨fun t ht ↦ ⟨t, htables ▸ ht, .refl t⟩, fun t ht ↦ .inl ⟨t, htables ▸ ht, .refl t⟩, ?_⟩
    intro j hj
    rw [hindexes]
    exact List.mem_append_left _ hj

/-- Replacing a table by one that has gained columns. -/
theorem of_mapTable {name : Str} {f : Relation → Relation} (hf : ∀ t, (f t).name = t.name)
    (hext : ∀ t : Relation, t.Extends (f t)) : c.Grows (c.mapTable name f hf) := by
  have hset (t : Relation) :
      t.Extends (setWhere (fun t ↦ decide (fold t.name = fold name)) f t) := by
    unfold setWhere
    split
    · exact hext t
    · exact .refl t
  refine ⟨fun t ht ↦ ⟨_, List.mem_map_of_mem ht, hset t⟩, fun t' ht' ↦ ?_, fun _ hi ↦ hi⟩
  obtain ⟨t, ht, rfl⟩ := List.mem_map.mp ht'
  exact .inl ⟨t, ht, hset t⟩

end Grows

/-! ## Runs of statements -/

section runs

variable {c c' : Catalog} {ds : List Decl} {is : List Index}

theorem hasIndex_of_createTable {d : Decl} (h : c.createTable d = .ok c') {name : Str} :
    c'.hasIndex name = c.hasIndex name := by
  unfold hasIndex
  rcases createTable_eq_ok.mp h with ⟨-, rfl⟩ | ⟨-, -, -, hindexes⟩
  · rfl
  · rw [hindexes]

/-- After the statement, the name stands for the table that was there or for the new one. -/
theorem table?_of_createTable {d : Decl} (h : c.createTable d = .ok c') (name : Str) :
    c'.table? name = if fold d.name = fold name then some ((c.table? name).getD d.relation)
      else c.table? name := by
  rcases createTable_eq_ok.mp h with ⟨hthere, rfl⟩ | ⟨hnone, -, hrows, -⟩
  · split
    · rename_i he
      obtain ⟨t, ht⟩ := hasTable_iff.mp hthere
      rw [← table?_congr he, ht, Option.getD_some]
    · rfl
  · have happend : c'.table? name = (c.table? name).or (if fold d.name = fold name then
        some d.relation else none) := by
      unfold table?
      rw [hrows, List.find?_append, List.find?_singleton]
      congr 1
      by_cases he : fold d.name = fold name <;> simp [Decl.relation, he]
    rw [happend]
    split
    · rename_i he
      have hfind : c.table? name = none := by
        rw [← table?_congr he]
        exact Option.isSome_eq_false_iff.mp hnone |> Option.isNone_iff_eq_none.mp
      rw [hfind, Option.none_or, Option.getD_none]
    · exact Option.or_none

/-- **Tables are made where no index has their name.** -/
theorem exists_createTables (hfree : ∀ d ∈ ds, c.hasIndex d.name = false) :
    ∃ c', ds.foldlM createTable c = .ok c' := by
  induction ds generalizing c with
  | nil => exact ⟨c, rfl⟩
  | cons d ds ih =>
      obtain ⟨c₁, h₁⟩ : ∃ c₁, c.createTable d = .ok c₁ := by
        unfold createTable
        rw [hfree d List.mem_cons_self, if_neg Bool.false_ne_true]
        split
        · exact ⟨c, rfl⟩
        · split <;> exact ⟨_, rfl⟩
      obtain ⟨c', h'⟩ := ih (c := c₁) fun e he ↦
        (hasIndex_of_createTable h₁).trans (hfree e (List.mem_cons_of_mem d he))
      refine ⟨c', ?_⟩
      rw [List.foldlM_cons, h₁]
      exact h'

/-- What a run of `CREATE TABLE` leaves under each name. -/
theorem table?_of_createTables (h : ds.foldlM createTable c = .ok c') (name : Str) :
    c'.table? name = (c.table? name).or
      ((ds.find? fun d ↦ fold d.name = fold name).map Decl.relation) := by
  induction ds generalizing c with
  | nil =>
      obtain rfl := Except.ok.inj h
      simp
  | cons d ds ih =>
      rw [List.foldlM_cons] at h
      cases h₁ : c.createTable d with
      | error e =>
          rw [h₁] at h
          cases h
      | ok c₁ =>
          rw [h₁] at h
          rw [ih h, table?_of_createTable h₁, List.find?_cons]
          by_cases he : fold d.name = fold name
          · simp only [he, if_true, decide_true, Option.map_some]
            cases c.table? name <;> rfl
          · simp only [he, if_false, decide_false]

theorem of_createTables (h : ds.foldlM createTable c = .ok c') :
    c.Grows c' ∧ c'.indexes = c.indexes := by
  induction ds generalizing c with
  | nil =>
      obtain rfl := Except.ok.inj h
      exact ⟨.refl c, rfl⟩
  | cons d ds ih =>
      rw [List.foldlM_cons] at h
      cases h₁ : c.createTable d with
      | error e =>
          rw [h₁] at h
          cases h
      | ok c₁ =>
          rw [h₁] at h
          obtain ⟨hgrows, hindexes⟩ := ih h
          refine ⟨(Grows.of_createTable h₁).trans hgrows, hindexes.trans ?_⟩
          rcases createTable_eq_ok.mp h₁ with ⟨-, rfl⟩ | ⟨-, -, -, h⟩
          · rfl
          · exact h

/-- Making one index does not decide whether another one is admitted. -/
theorem admits_of_createIndex {i j : Index} (h : c.createIndex i = .ok c')
    (hne : fold i.name ≠ fold j.name) : c'.Admits j ↔ c.Admits j := by
  rcases (createIndex_eq_ok.mp h).2 with ⟨-, rfl⟩ | ⟨-, htables, hindexes⟩
  · exact Iff.rfl
  · have hfind (name : Str) : c'.table? name = c.table? name := by
      unfold table?
      rw [htables]
    have hindex : c'.hasIndex j.name = c.hasIndex j.name := by
      unfold hasIndex
      rw [hindexes, List.any_append]
      simp [hne]
    unfold Admits hasTable
    rw [hfind, hfind, hindex]

/-- **A run of `CREATE INDEX` succeeds when each index is admitted.** -/
theorem createIndexes_iff (hdistinct : (is.map fun i ↦ fold i.name).Nodup) :
    (∃ c', is.foldlM createIndex c = .ok c') ↔ ∀ i ∈ is, c.Admits i := by
  induction is generalizing c with
  | nil => exact ⟨fun _ i hi ↦ absurd hi List.not_mem_nil, fun _ ↦ ⟨c, rfl⟩⟩
  | cons i is ih =>
      rw [List.map_cons, List.nodup_cons] at hdistinct
      rw [List.forall_mem_cons, List.foldlM_cons]
      have hne : ∀ j ∈ is, fold i.name ≠ fold j.name := fun j hj he ↦
        hdistinct.1 (he ▸ List.mem_map_of_mem (f := fun i : Index ↦ fold i.name) hj)
      constructor
      · rintro ⟨c', h⟩
        cases h₁ : c.createIndex i with
        | error e =>
            rw [h₁] at h
            cases h
        | ok c₁ =>
            rw [h₁] at h
            refine ⟨(createIndex_eq_ok.mp h₁).1, fun j hj ↦ ?_⟩
            exact (admits_of_createIndex h₁ (hne j hj)).mp ((ih hdistinct.2).mp ⟨c', h⟩ j hj)
      · rintro ⟨hi, his⟩
        obtain ⟨c₁, h₁⟩ : ∃ c₁, c.createIndex i = .ok c₁ := by
          cases hindex : c.hasIndex i.name with
          | true => exact ⟨c, createIndex_eq_ok.mpr ⟨hi, .inl ⟨hindex, rfl⟩⟩⟩
          | false =>
              have hnew : ∀ j ∈ c.indexes.rows, ¬ Keyed (fun j : Index ↦ fold j.name) j i := by
                intro j hj hk
                have hthere := hasIndex_iff.mpr ⟨j, hj, hk⟩
                rw [hindex] at hthere
                cases hthere
              obtain ⟨indexes, hmade⟩ := Table.exists_insert? hnew
              exact ⟨{ c with indexes := indexes }, createIndex_eq_ok.mpr
                ⟨hi, .inr ⟨hindex, rfl, (Table.insert?_eq_some.mp hmade).1⟩⟩⟩
        rw [h₁]
        exact (ih hdistinct.2).mpr fun j hj ↦ (admits_of_createIndex h₁ (hne j hj)).mpr (his j hj)

theorem of_createIndexes (h : is.foldlM createIndex c = .ok c') :
    c.Grows c' ∧ c'.tables = c.tables := by
  induction is generalizing c with
  | nil =>
      obtain rfl := Except.ok.inj h
      exact ⟨.refl c, rfl⟩
  | cons i is ih =>
      rw [List.foldlM_cons] at h
      cases h₁ : c.createIndex i with
      | error e =>
          rw [h₁] at h
          cases h
      | ok c₁ =>
          rw [h₁] at h
          obtain ⟨hgrows, htables⟩ := ih h
          refine ⟨(Grows.of_createIndex h₁).trans hgrows, htables.trans ?_⟩
          rcases (createIndex_eq_ok.mp h₁).2 with ⟨-, rfl⟩ | ⟨-, h, -⟩
          · rfl
          · exact h

/-- The columns added to the tables they are for. -/
def addColumns (c : Catalog) (l : List (Str × Column)) : Catalog :=
  l.foldl (fun c a ↦ c.mapTable a.1 (·.addColumn a.2) fun _ ↦ Relation.name_addColumn) c

variable {l : List (Str × Column)} {name : Str}

theorem addColumns_cons {a : Str × Column} : c.addColumns (a :: l) =
    (c.mapTable a.1 (·.addColumn a.2) fun _ ↦ Relation.name_addColumn).addColumns l := rfl

theorem table?_addColumns : (c.addColumns l).table? name =
    (c.table? name).map fun t ↦
      ((l.filter fun a ↦ fold a.1 = fold name).map Prod.snd).foldl Relation.addColumn t := by
  induction l generalizing c with
  | nil => exact Option.map_id'.symm
  | cons a l ih =>
      rw [addColumns_cons, ih, table?_mapTable, Option.map_map]
      congr 1
      funext t
      by_cases he : fold name = fold a.1 <;> simp [he, eq_comm]

theorem Grows.addColumns (c : Catalog) (l : List (Str × Column)) : c.Grows (c.addColumns l) := by
  induction l generalizing c with
  | nil => exact .refl c
  | cons a l ih =>
      exact (Grows.of_mapTable (fun _ ↦ Relation.name_addColumn)
        fun t ↦ Relation.Extends.addColumn t a.2).trans (ih _)

/-- An `ADD COLUMN` fails only because the column is there. -/
theorem addColumn_spec {t : Relation} {col : Column} (h : c.table? name = some t)
    (hfills : col.Fills) : c.addColumn name col =
      if t.hasColumn col.name = true then .error ("duplicate column name: ".toList ++ col.name)
      else .ok (c.addColumns [(name, col)]) := by
  unfold addColumn
  rw [h]
  dsimp only
  split
  · rfl
  · rw [if_neg fun h ↦ h.1 hfills]
    rfl

end runs

end Catalog

end Sql
