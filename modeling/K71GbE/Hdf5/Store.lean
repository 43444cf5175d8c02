/-
This file is the theory of a file of named two-dimensional arrays.

A store maps names to datasets. Creating a dataset fails when the name is taken,
opening one fails when it is not. A transfer moves a buffer to or from a
rectangle of a dataset, row by row; it fails without effect through an invalid
handle and when the rectangle leaves the dataset. The laws below say what is read
back after a transfer.
-/

import Mathlib.Tactic.Ring
import Mathlib.Data.List.GetD

namespace Hdf5

/-- A rectangle of cells, given by its first cell and its extent. -/
structure Slab where
  row : Nat
  column : Nat
  rows : Nat
  columns : Nat
deriving DecidableEq, Repr

namespace Slab

def Covers (slab : Slab) (row column : Nat) : Prop :=
  (slab.row ≤ row ∧ row < slab.row + slab.rows) ∧
    slab.column ≤ column ∧ column < slab.column + slab.columns

instance (slab : Slab) (row column : Nat) : Decidable (slab.Covers row column) :=
  inferInstanceAs (Decidable ((_ ∧ _) ∧ _ ∧ _))

/-- No cell belongs to both rectangles. -/
def Apart (first second : Slab) : Prop :=
  ∀ row column, first.Covers row column → ¬second.Covers row column

def size (slab : Slab) : Nat := slab.rows * slab.columns

/-- Rectangles whose columns follow each other have no cell in common. -/
theorem apart_of_columns {first second : Slab}
    (order : first.column + first.columns ≤ second.column) : first.Apart second := by
  rintro row column ⟨-, -, below⟩ ⟨-, above, -⟩
  exact absurd (lt_of_lt_of_le below order) (Nat.not_lt.mpr above)

theorem Apart.symm {first second : Slab} (apart : first.Apart second) : second.Apart first :=
  fun row column covered other => apart row column other covered

/-- The cell that holds the `k`th value of a buffer. -/
theorem covers_cell (slab : Slab) {k : Nat} (inside : k < slab.size) :
    slab.Covers (slab.row + k / slab.columns) (slab.column + k % slab.columns) := by
  have wide : 0 < slab.columns := Nat.pos_of_ne_zero fun zero => by
    rw [size, zero, Nat.mul_zero] at inside
    exact Nat.not_lt_zero k inside
  refine ⟨⟨Nat.le_add_right _ _, Nat.add_lt_add_left ?_ _⟩, Nat.le_add_right _ _,
    Nat.add_lt_add_left (Nat.mod_lt k wide) _⟩
  exact (Nat.div_lt_iff_lt_mul wide).mpr inside

end Slab

/-- A two-dimensional array. -/
structure Dataset (Value : Type*) where
  rows : Nat
  columns : Nat
  cell : Nat → Nat → Value

namespace Dataset

variable {Value : Type*}

/-- A new dataset, every cell at the fill value. -/
def blank (rows columns : Nat) (fill : Value) : Dataset Value := ⟨rows, columns, fun _ _ => fill⟩

/-- The rectangle lies inside the dataset. -/
def Holds (dataset : Dataset Value) (slab : Slab) : Prop :=
  slab.row + slab.rows ≤ dataset.rows ∧ slab.column + slab.columns ≤ dataset.columns

instance (dataset : Dataset Value) (slab : Slab) : Decidable (dataset.Holds slab) :=
  inferInstanceAs (Decidable (_ ∧ _))

/-- The dataset with a buffer in a rectangle. -/
def put (dataset : Dataset Value) (slab : Slab) (buffer : List Value) : Dataset Value where
  rows := dataset.rows
  columns := dataset.columns
  cell row column :=
    if slab.Covers row column then
      buffer.getD ((row - slab.row) * slab.columns + (column - slab.column))
        (dataset.cell row column)
    else dataset.cell row column

/-- The values of a rectangle, row by row. -/
def get (dataset : Dataset Value) (slab : Slab) : List Value :=
  (List.range slab.size).map fun k =>
    dataset.cell (slab.row + k / slab.columns) (slab.column + k % slab.columns)

@[simp] theorem length_get (dataset : Dataset Value) (slab : Slab) :
    (dataset.get slab).length = slab.size := by
  rw [get, List.length_map, List.length_range]

/-- A buffer that was put into a rectangle is read back from it. -/
theorem get_put (dataset : Dataset Value) (slab : Slab) {buffer : List Value}
    (full : buffer.length = slab.size) : (dataset.put slab buffer).get slab = buffer := by
  refine List.ext_getElem ((length_get _ slab).trans full.symm) fun k inside within => ?_
  have covered : k < slab.size := (length_get _ slab) ▸ inside
  have offset : k / slab.columns * slab.columns + k % slab.columns = k := by
    rw [Nat.mul_comm]
    exact Nat.div_add_mod k slab.columns
  simp only [get, put, List.getElem_map, List.getElem_range]
  rw [if_pos (slab.covers_cell covered), Nat.add_sub_cancel_left, Nat.add_sub_cancel_left,
    offset, List.getD_eq_getElem _ _ within]

/-- A rectangle elsewhere is not touched. -/
theorem get_put_of_apart (dataset : Dataset Value) {slab other : Slab} (apart : slab.Apart other)
    (buffer : List Value) : (dataset.put slab buffer).get other = dataset.get other := by
  refine List.map_congr_left fun k inside => if_neg fun covered => ?_
  exact apart _ _ covered (other.covers_cell (List.mem_range.mp inside))

end Dataset

/-- A file: its datasets by name. -/
structure Store (Name Value : Type*) where
  dataset : Name → Option (Dataset Value)

namespace Store

variable {Name Value : Type*} [DecidableEq Name]

def empty : Store Name Value := ⟨fun _ => none⟩

/-- The file with a dataset under a name. -/
def set (store : Store Name Value) (name : Name) (dataset : Dataset Value) : Store Name Value where
  dataset other := if other = name then some dataset else store.dataset other

@[simp] theorem dataset_set_self (store : Store Name Value) (name : Name)
    (dataset : Dataset Value) : (store.set name dataset).dataset name = some dataset :=
  if_pos rfl

theorem dataset_set_of_ne (store : Store Name Value) {name other : Name} (differs : other ≠ name)
    (dataset : Dataset Value) : (store.set name dataset).dataset other = store.dataset other :=
  if_neg differs

theorem set_set (store : Store Name Value) (name : Name) (first second : Dataset Value) :
    (store.set name first).set name second = store.set name second := by
  refine congrArg Store.mk (funext fun other => ?_)
  by_cases same : other = name
  · rw [if_pos same, if_pos same]
  · rw [if_neg same, if_neg same]
    exact dataset_set_of_ne store same first

/-- Create a dataset. The handle is invalid when the name is taken. -/
def create (store : Store Name Value) (name : Name) (rows columns : Nat) (fill : Value) :
    Store Name Value × Option Name :=
  if (store.dataset name).isSome then (store, none)
  else (store.set name (.blank rows columns fill), some name)

/-- Open a dataset. The handle is invalid when there is none of that name. -/
def find (store : Store Name Value) (name : Name) : Option Name :=
  if (store.dataset name).isSome then some name else none

/-- Write a buffer to a rectangle; a negative result tells that it failed. -/
def write (store : Store Name Value) (handle : Option Name) (slab : Slab) (buffer : List Value) :
    Store Name Value × Int :=
  match handle with
  | none => (store, -1)
  | some name =>
    match store.dataset name with
    | none => (store, -1)
    | some dataset =>
      if dataset.Holds slab then (store.set name (dataset.put slab buffer), 0) else (store, -1)

/-- Read a rectangle into the beginning of a buffer. -/
def read (store : Store Name Value) (handle : Option Name) (slab : Slab) (buffer : List Value) :
    List Value × Int :=
  match handle.bind store.dataset with
  | none => (buffer, -1)
  | some dataset =>
    if dataset.Holds slab then (dataset.get slab ++ buffer.drop slab.size, 0) else (buffer, -1)

section Laws

variable {store : Store Name Value} {name : Name} {dataset : Dataset Value} {slab : Slab}
  (buffer : List Value)

theorem create_of_some (found : store.dataset name = some dataset) (rows columns : Nat)
    (fill : Value) : store.create name rows columns fill = (store, none) :=
  if_pos (by rw [found]; rfl)

theorem create_of_none (free : store.dataset name = none) (rows columns : Nat) (fill : Value) :
    store.create name rows columns fill =
      (store.set name (.blank rows columns fill), some name) :=
  if_neg (by rw [free]; exact Bool.false_ne_true)

omit [DecidableEq Name] in
theorem find_of_some (found : store.dataset name = some dataset) : store.find name = some name :=
  if_pos (by rw [found]; rfl)

omit [DecidableEq Name] in
theorem find_of_none (free : store.dataset name = none) : store.find name = none :=
  if_neg (by rw [free]; exact Bool.false_ne_true)

theorem write_invalid : store.write none slab buffer = (store, -1) := rfl

theorem write_of_holds (found : store.dataset name = some dataset) (holds : dataset.Holds slab) :
    store.write (some name) slab buffer = (store.set name (dataset.put slab buffer), 0) := by
  simp only [write, found]
  exact if_pos holds

theorem write_of_not_holds (found : store.dataset name = some dataset)
    (leaves : ¬dataset.Holds slab) : store.write (some name) slab buffer = (store, -1) := by
  simp only [write, found]
  exact if_neg leaves

omit [DecidableEq Name] in
theorem read_of_holds (found : store.dataset name = some dataset) (holds : dataset.Holds slab) :
    store.read (store.find name) slab buffer =
      (dataset.get slab ++ buffer.drop slab.size, 0) := by
  simp only [read, find_of_some found, Option.bind_some, found]
  exact if_pos holds

omit [DecidableEq Name] in
/-- A buffer of the size of the rectangle is filled by a read. -/
theorem read_full (found : store.dataset name = some dataset) (holds : dataset.Holds slab)
    (full : buffer.length = slab.size) :
    store.read (store.find name) slab buffer = (dataset.get slab, 0) := by
  rw [read_of_holds buffer found holds, ← full, List.drop_length, List.append_nil]

end Laws

end Store

end Hdf5
