import Mathlib.Data.List.Forall2
import PipelineManifest.Proofs.Table.Wrap
import PipelineManifest.Table.Layout

/-!
# `PipelineManifest.Proofs.Table.Layout`: the lines of a table

A table has a line of the frame, the titles, another line, the rows in order, and a last line. It is
laid out exactly if each of its texts is well marked up (`render?_eq_some_iff`).

A table that is too wide takes from its widest columns only, and from these in shares as equal as
can be. So no column is narrowed below an equal share of the width, and a column that takes no more
is left as it is (`narrow_ge`). The step is `takeShares_ge`: with as many columns to take from as
there are of the widest, the excess that is left is never more than what they stand above the equal
share.

* `roundedQuotient_le`, `le_roundedQuotient`: the share of one column.
* `takeShares_ge`, `narrowBy_ge`, `narrow_ge`: one step, all steps, and the widths of a table.
* `columnWidths`, `tableLines`, `render?_eq_some_iff`: the lines of a table.
* `exists_columnWidth`: the width of the column of a cell.
-/

set_option autoImplicit false

namespace PipelineManifest.Table

/-! ### Shares -/

section Shares

variable {excess others room : Nat}

/-- A share is no more than its column has room for, if all together have room for the excess. -/
theorem roundedQuotient_le (h : excess ≤ (others + 1) * room) :
    roundedQuotient excess (others + 1) ≤ room := by
  have hdiv := Nat.div_add_mod excess (others + 1)
  have hle : excess / (others + 1) ≤ room := Nat.div_le_of_le_mul h
  simp only [roundedQuotient]
  split
  · exact hle
  · rename_i hround
    rcases Nat.lt_or_eq_of_le hle with hlt | heq
    · exact hlt
    -- When every column gives all the room it has, nothing is left to round up.
    · rw [heq] at hdiv
      have hmod : excess % (others + 1) = 0 := by omega
      simp [hmod] at hround

/-- A share leaves no more than the other columns have room for. -/
theorem le_roundedQuotient (h : excess ≤ (others + 1) * room) :
    excess ≤ roundedQuotient excess (others + 1) + others * room := by
  have hdiv := Nat.div_add_mod excess (others + 1)
  have hmod : excess % (others + 1) < others + 1 := Nat.mod_lt _ (Nat.succ_pos _)
  have hquotient : excess / (others + 1) ≤ roundedQuotient excess (others + 1) := by
    simp only [roundedQuotient]
    split
    · exact Nat.le_refl _
    · exact Nat.le_succ _
  refine Nat.le_trans ?_ (Nat.add_le_add_right hquotient _)
  rw [Nat.add_mul, Nat.one_mul] at h hdiv
  rcases Nat.lt_or_ge (excess / (others + 1)) room with hlt | hge
  · have hroom : others * (excess / (others + 1) + 1) ≤ others * room := Nat.mul_le_mul_left _ hlt
    rw [Nat.mul_add, Nat.mul_one] at hroom
    omega
  · omega

end Shares

/-! ### Widths -/

/-- Columns that are narrowed, but none that is wider than `least` below `least`. -/
abbrev NarrowedTo (least : Nat) : List Nat → List Nat → Prop :=
  List.Forall₂ fun w w' => min w least ≤ w'

/-- Taking shares from the columns of width `widest` leaves them `least` wide at least, and leaves
all other columns as they are; provided that no share is more than they stand above `least`, or that
the excess is no more than all of them do. The induction is on the columns that are left. -/
theorem takeShares_ge {widest most least excess : Nat} {ws : List Nat}
    (h : most ≤ widest - least ∨
      excess ≤ ws.count widest * (widest - least) ∧ min excess (widest - least) ≤ most) :
    NarrowedTo least ws
      (takeShares widest most excess (ws.count widest) ws) := by
  induction ws generalizing excess with
  | nil => exact .nil
  | cons w ws ih =>
    rw [takeShares]
    by_cases hw : w = widest
    · subst hw
      rw [List.count_cons_self] at h ⊢
      rw [if_pos rfl, Nat.add_sub_cancel]
      have hshare : min most (roundedQuotient excess (ws.count w + 1)) ≤ w - least := by
        rcases h with hmost | ⟨hexcess, -⟩
        · exact (Nat.min_le_left _ _).trans hmost
        · exact (Nat.min_le_right _ _).trans (roundedQuotient_le hexcess)
      refine .cons (by omega) (ih ?_)
      rcases h with hmost | ⟨hexcess, hmost⟩
      · exact .inl hmost
      · have hrest := le_roundedQuotient hexcess
        rw [Nat.add_mul, Nat.one_mul] at hexcess
        exact .inr ⟨by omega, by omega⟩
    · rw [List.count_cons_of_ne hw] at h ⊢
      rw [if_neg hw]
      exact .cons (Nat.min_le_left _ _) (ih h)

/-- Columns of which all but the widest take no more than an equal share. -/
theorem sum_add_le {widest least : Nat} {ws : List Nat}
    (h : ∀ w ∈ ws, w ≠ widest → w ≤ least) :
    ws.sum + ws.count widest * least ≤ ws.count widest * widest + ws.length * least := by
  induction ws with
  | nil => simp
  | cons w ws ih =>
    rw [List.forall_mem_cons] at h
    have hrest := ih h.2
    rw [List.sum_cons, List.length_cons, Nat.succ_mul]
    by_cases hw : w = widest
    · subst hw
      rw [List.count_cons_self, Nat.succ_mul, Nat.succ_mul]
      omega
    · have hle := h.1 hw
      rw [List.count_cons_of_ne hw]
      omega

theorem narrowed_trans {least : Nat} {ws ws' ws'' : List Nat}
    (h : NarrowedTo least ws ws')
    (h' : NarrowedTo least ws' ws'') :
    NarrowedTo least ws ws'' := by
  induction h generalizing ws'' with
  | nil => exact h'
  | cons hw _ ih =>
    cases h' with
    | cons hw' hrest => exact .cons (by omega) (ih hrest)

/-- No step takes a column below an equal share of the width. -/
theorem narrowBy_ge {width least : Nat} (fuel : Nat) {ws : List Nat}
    (h : ws.length * least ≤ width) :
    NarrowedTo least ws (narrowBy width fuel ws) := by
  induction fuel generalizing ws with
  | zero => exact List.forall₂_same.mpr fun w _ => Nat.min_le_left _ _
  | succ fuel ih =>
    rw [narrowBy]
    split
    · exact List.forall₂_same.mpr fun w _ => Nat.min_le_left _ _
    · rename_i hexcess
      obtain ⟨widest, hwidest⟩ : ∃ widest, ws.foldl max 0 = widest := ⟨_, rfl⟩
      obtain ⟨second, hsecond⟩ : ∃ second,
        (ws.filter (· ≠ widest)).foldl max 0 = second := ⟨_, rfl⟩
      rw [← List.sum_eq_foldl] at hexcess ⊢
      simp only [hwidest, hsecond]
      have hstep : NarrowedTo least ws
          (takeShares widest (min (ws.sum - width) (widest - second)) (ws.sum - width)
            (ws.count widest) ws) := by
        refine takeShares_ge ?_
        -- Columns are narrowed as far as the next widest one, or else that one is narrow itself.
        rcases Nat.le_total least second with hle | hle
        · exact .inl (by omega)
        · have hothers : ∀ w ∈ ws, w ≠ widest → w ≤ least := fun w hw hne => by
            refine Nat.le_trans ?_ hle
            rw [← hsecond]
            exact le_foldl_max (List.mem_filter.mpr ⟨hw, by simpa using hne⟩) 0
          have hsum := sum_add_le hothers
          refine .inr ⟨?_, by omega⟩
          rw [Nat.mul_sub]
          omega
      rw [hstep.length_eq] at h
      exact narrowed_trans hstep (ih h)

/-- No column is narrowed below an equal share of the width. -/
theorem narrow_ge {width least : Nat} {ws : List Nat} (h : ws.length * least ≤ width) :
    NarrowedTo least ws (narrow width ws) :=
  narrowBy_ge _ h

theorem length_narrow (width : Nat) (ws : List Nat) : (narrow width ws).length = ws.length := by
  have hnarrow : NarrowedTo 0 ws (narrow width ws) := narrow_ge (by simp)
  exact hnarrow.length_eq.symm

/-! ### Lines -/

/-- The widths of the columns of a table with some cells, titles among them. -/
def columnWidths (columns terminal : Nat) (rows : List (List (List Char))) : List Nat :=
  narrow (terminal - (columns + 1)) ((List.range columns).map fun i =>
    ((rows.filterMap (·[i]?)).map naturalWidth).foldl max 0 + 2 * padding)

/-- The lines of a table with columns of some widths. -/
def tableLines (columns : List Column) (widths : List Nat) (titles : List (List Char))
    (rows : List (List (List Char))) : List String :=
  [topRule.render widths] ++ rowLines '┃' columns widths titles ++ [headRule.render widths]
    ++ rows.flatMap (rowLines '│' columns widths) ++ [bottomRule.render widths]

/-- A table is laid out exactly if all its texts are well marked up. -/
theorem render?_eq_some_iff {t : Table} {terminal : Nat} {lines : List String} :
    t.render? terminal = some lines ↔ ∃ titles rows,
      (t.columns.mapM fun c => plainOf? c.title) = some titles ∧
      (t.rows.mapM fun row => row.mapM plainOf?) = some rows ∧
      tableLines t.columns (columnWidths t.columns.length terminal (titles :: rows)) titles rows
        = lines := by
  rw [render?]
  simp only [bind, Option.bind_eq_some_iff, pure, Option.some.injEq, exists_and_left]
  rfl

theorem length_columnWidths (columns terminal : Nat) (rows : List (List (List Char))) :
    (columnWidths columns terminal rows).length = columns := by
  rw [columnWidths, length_narrow, List.length_map, List.length_range]

/-- The column of a cell is as wide as the cell, with a blank on each side, or at least as wide as
an equal share of the terminal. -/
theorem exists_columnWidth {columns terminal least : Nat} {rows : List (List (List Char))}
    (hleast : columns * least ≤ terminal - (columns + 1)) {row : List (List Char)}
    (hrow : row ∈ rows)
    {i : Nat} (hi : i < columns) {cell : List Char} (hcell : row[i]? = some cell) :
    ∃ w, (columnWidths columns terminal rows)[i]? = some w ∧
      min (naturalWidth cell + 2 * padding) least ≤ w := by
  have hnarrow : NarrowedTo least
      ((List.range columns).map fun i =>
        ((rows.filterMap (·[i]?)).map naturalWidth).foldl max 0 + 2 * padding)
      (columnWidths columns terminal rows) :=
    narrow_ge (by rwa [List.length_map, List.length_range])
  have hi' : i < (columnWidths columns terminal rows).length := by rwa [length_columnWidths]
  refine ⟨_, List.getElem?_eq_getElem hi', ?_⟩
  have hnatural : naturalWidth cell
      ≤ ((rows.filterMap (·[i]?)).map naturalWidth).foldl max 0 :=
    le_foldl_max (List.mem_map_of_mem (List.mem_filterMap.mpr ⟨row, hrow, hcell⟩)) 0
  have hkept := (List.forall₂_iff_get.mp hnarrow).2 i (by simpa using hi) hi'
  simp only [List.get_eq_getElem, List.getElem_map, List.getElem_range] at hkept
  refine Nat.le_trans ?_ hkept
  omega

end PipelineManifest.Table
