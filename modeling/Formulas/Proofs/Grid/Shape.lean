import Formulas.Grid
import Mathlib.Algebra.BigOperators.Group.List.Basic
import Mathlib.Data.List.Forall2
import Mathlib.Tactic.Common

/-! Arrays by their indices. The innermost lists of an array stand in row-major order: the
list at an index is found at the position of that index. -/
namespace Formulas

/-- An entry of a list that is put together from lists of one length. -/
theorem getElem?_flatMap_of_length_eq {α β : Type} {items : List α} {g : α → List β}
    {width : Nat} (hWidth : ∀ item ∈ items, (g item).length = width) (j : Nat) {r : Nat}
    (hr : r < width) :
    (items.flatMap g)[j * width + r]? = items[j]?.bind fun item => (g item)[r]? := by
  induction items generalizing j with
  | nil => simp
  | cons item rest ih =>
      have hFirst := hWidth item (List.mem_cons_self ..)
      have hRest := ih fun other hOther => hWidth other (List.mem_cons_of_mem _ hOther)
      rw [List.flatMap_cons]
      cases j with
      | zero =>
          rw [Nat.zero_mul, Nat.zero_add, List.getElem?_append_left (hFirst ▸ hr)]
          rfl
      | succ j =>
          have hPosition : (j + 1) * width + r = width + (j * width + r) := by
            rw [Nat.succ_mul]
            omega
          rw [hPosition, List.getElem?_append_right (hFirst ▸ Nat.le_add_right ..), hFirst,
            Nat.add_sub_cancel_left, hRest]
          rfl

namespace Nested

variable {α : Type}

/-- The part of an array at an index, which may stop before the last axis. -/
def at? : Nested α → List Nat → Option (Nested α)
  | array, [] => some array
  | .list items, j :: index => items[j]?.bind fun item => item.at? index
  | .entry _, _ :: _ => none

/-- The numbers of a list of numbers. -/
def row? : Nested α → Option (List α)
  | .entry _ => none
  | .list items => items.mapM entry?

/-- The point of an array at an index of all axes but the last one. -/
def point? (array : Nested α) (index : List Nat) : Option (List α) :=
  (array.at? index).bind row?

/-- The index lies within the lengths along all axes. -/
def IsIndex (index shape : List Nat) : Prop :=
  List.Forall₂ (· < ·) index shape

/-- The position of an index in row-major order. -/
def position : List Nat → List Nat → Nat
  | _ :: shape, j :: index => j * shape.prod + position shape index
  | _, _ => 0

theorem position_lt {shape index : List Nat} (hIndex : IsIndex index shape) :
    position shape index < shape.prod := by
  induction hIndex with
  | nil => simp [position]
  | @cons j n index shape hj hRest ih =>
      calc position (n :: shape) (j :: index)
          < j * shape.prod + shape.prod := Nat.add_lt_add_left ih _
        _ = (j + 1) * shape.prod := (Nat.succ_mul ..).symm
        _ ≤ n * shape.prod := Nat.mul_le_mul_right _ hj
        _ = (n :: shape).prod := List.prod_cons.symm

theorem shapes_eq_map (items : List (Nested α)) : shapes items = items.map shape? := by
  induction items with
  | nil => rfl
  | cons item rest ih => rw [shapes, ih, List.map_cons]

theorem allRows_eq_flatMap (items : List (Nested α)) : allRows items = items.flatMap rows := by
  induction items with
  | nil => rfl
  | cons item rest ih => rw [allRows, ih, List.flatMap_cons]

/-- Shapes with a common shape are all the same; only no shapes at all have it for nothing. -/
theorem commonShape?_eq_some {shapes : List (Option (List Nat))} {shape : List Nat}
    (hCommon : commonShape? shapes = some shape) :
    (∀ other ∈ shapes, other = some shape) ∧ (shapes = [] → shape = []) := by
  cases shapes with
  | nil => simpa [commonShape?, eq_comm] using hCommon
  | cons first rest =>
      cases first with
      | none => exact nomatch hCommon
      | some first =>
          rw [commonShape?] at hCommon
          split at hCommon
          · next hAll =>
              obtain rfl := Option.some.inj hCommon
              simpa using hAll
          · exact nomatch hCommon

/-- An array of at least one axis is a list of that length, whose items all have the shape
along the other axes. -/
theorem shape?_eq_cons {array : Nested α} {n : Nat} {shape : List Nat}
    (hShape : array.shape? = some (n :: shape)) :
    ∃ items, array = .list items ∧ items.length = n ∧
      (∀ item ∈ items, item.shape? = some shape) ∧ (items = [] → shape = []) := by
  cases array with
  | entry value => exact nomatch hShape
  | list items =>
      rw [shape?, shapes_eq_map] at hShape
      obtain ⟨other, hCommon, hCons⟩ := Option.map_eq_some_iff.mp hShape
      obtain ⟨rfl, rfl⟩ := List.cons.inj hCons
      obtain ⟨hSame, hEmpty⟩ := commonShape?_eq_some hCommon
      exact ⟨items, rfl, rfl, List.forall_mem_map.mp hSame, by simpa using hEmpty⟩

/-- An array without axes is a number. -/
theorem shape?_eq_nil {array : Nested α} (hShape : array.shape? = some []) :
    ∃ value, array = .entry value := by
  cases array with
  | entry value => exact ⟨value, rfl⟩
  | list items =>
      rw [shape?] at hShape
      obtain ⟨other, -, hCons⟩ := Option.map_eq_some_iff.mp hShape
      exact nomatch hCons

/-- A list of numbers is a single innermost list. -/
theorem rows_of_shape {array : Nested α} {k : Nat} (hShape : array.shape? = some [k]) :
    ∃ row, array.row? = some row ∧ row.length = k ∧ array.rows = [row] := by
  obtain ⟨items, rfl, rfl, hItems, -⟩ := shape?_eq_cons hShape
  have hRow : ∃ row, items.mapM entry? = some row ∧ row.length = items.length := by
    clear hShape
    induction items with
    | nil => exact ⟨[], rfl, rfl⟩
    | cons item rest ih =>
        obtain ⟨value, rfl⟩ := shape?_eq_nil (hItems item (List.mem_cons_self ..))
        obtain ⟨row, hRow, hLength⟩ := ih fun other hOther =>
          hItems other (List.mem_cons_of_mem _ hOther)
        exact ⟨value :: row, by simp [hRow, entry?], by simp [hLength]⟩
  obtain ⟨row, hRow, hLength⟩ := hRow
  exact ⟨row, hRow, hLength, by rw [rows, hRow]⟩

/-- The innermost lists of a list of arrays are those of its items. -/
theorem rows_of_items {items : List (Nested α)} {shape : List Nat} (hNonempty : items ≠ [])
    (hAxes : shape ≠ []) (hItems : ∀ item ∈ items, item.shape? = some shape) :
    rows (.list items) = items.flatMap rows := by
  obtain ⟨first, rest, rfl⟩ := List.exists_cons_of_ne_nil hNonempty
  obtain ⟨n, others, rfl⟩ := List.exists_cons_of_ne_nil hAxes
  obtain ⟨inner, rfl, -⟩ := shape?_eq_cons (hItems first (List.mem_cons_self ..))
  have hNone : entry? (.list inner) = none := rfl
  rw [rows, ← allRows_eq_flatMap, List.mapM_cons, hNone]
  rfl

/-- No axis but the last one of an array has no entries. -/
theorem zero_not_mem_of_shape {array : Nested α} {shape : List Nat} {k : Nat}
    (hShape : array.shape? = some (shape ++ [k])) : 0 ∉ shape := by
  induction shape generalizing array with
  | nil => exact List.not_mem_nil
  | cons n shape ih =>
      obtain ⟨items, rfl, rfl, hItems, hEmpty⟩ := shape?_eq_cons hShape
      obtain ⟨first, rest, rfl⟩ := List.exists_cons_of_ne_nil fun hNil => by
        simpa using hEmpty hNil
      have hRest := ih (hItems first (List.mem_cons_self ..))
      simpa using hRest

/-- The innermost lists are as many as there are indices, and the one at the position of an
index is the point at that index. -/
theorem rows_at {array : Nested α} {shape : List Nat} {k : Nat}
    (hShape : array.shape? = some (shape ++ [k])) :
    array.rows.length = shape.prod ∧
      (∀ row ∈ array.rows, row.length = k) ∧
      ∀ index, IsIndex index shape → ∃ point, array.point? index = some point ∧
        point.length = k ∧ array.rows[position shape index]? = some point := by
  induction shape generalizing array with
  | nil =>
      obtain ⟨row, hRow, hLength, hRows⟩ := rows_of_shape hShape
      refine ⟨by simp [hRows], by simpa [hRows] using hLength, ?_⟩
      rintro _ ⟨⟩
      exact ⟨row, hRow, hLength, by simp [hRows, position]⟩
  | cons n shape ih =>
      obtain ⟨items, rfl, rfl, hItems, hEmpty⟩ := shape?_eq_cons hShape
      have hNonempty : items ≠ [] := fun hNil => by simpa using hEmpty hNil
      have hRows := rows_of_items hNonempty (by simp) hItems
      have hWidth : ∀ item ∈ items, item.rows.length = shape.prod := fun item hItem =>
        (ih (hItems item hItem)).1
      refine ⟨?_, ?_, ?_⟩
      · rw [hRows, List.length_flatMap, List.map_congr_left hWidth]
        simp
      · rw [hRows]
        intro row hRow
        obtain ⟨item, hItem, hRow⟩ := List.mem_flatMap.mp hRow
        exact (ih (hItems item hItem)).2.1 row hRow
      · intro index hIndex
        cases hIndex with
        | @cons j _ index _ hj hRest =>
            obtain ⟨point, hPoint, hLength, hFound⟩ :=
              (ih (hItems items[j] (List.getElem_mem hj))).2.2 index hRest
            refine ⟨point, ?_, hLength, ?_⟩
            · simpa [point?, at?, List.getElem?_eq_getElem hj] using hPoint
            · rw [hRows, position, getElem?_flatMap_of_length_eq hWidth j (position_lt hRest),
                List.getElem?_eq_getElem hj]
              exact hFound

end Nested

end Formulas
