import PipelineManifest.Proofs.Describe.Json
import PipelineManifest.Proofs.Related
import PipelineManifest.Proofs.Table.Layout

/-!
# `PipelineManifest.Proofs.Describe.Table`: the table of steps

A table has one row for each step, in order. The cells for the name of a step and for the steps that
it depends on are marked-up texts. They show what was written exactly if it is unmarked, and it can
be read back from the lines of the cell unless a word is cut (`Table.ShowsText`).

* `Table.ShowsText`: what a cell shows of a text.
* `Step.IsRow`, `Pipeline.IsStepTable`: the row of a step, and the table of a pipeline.
* `Pipeline.exists_stepTable_iff`, `Pipeline.isStepTable_of_stepTable`: which pipelines have a
  table, and what it is.
-/

set_option autoImplicit false

namespace PipelineManifest

open Table (plainOf? IsUnmarked HasNoTag HasNoEscape isDropped)

/-! ### Texts without markup -/

namespace Table

/-- What a cell in a column of some width shows of a text. -/
structure ShowsText (width : Nat) (text : String) (shown : List Char) : Prop where
  /-- Tags are not shown. -/
  plain : plainOf? text = some shown
  /-- The text is shown character for character exactly if it is unmarked. -/
  exact : shown = text.toList ↔ IsUnmarked text.toList
  /-- What is shown can be read back from the lines of the cell, if nothing is cut. -/
  unwraps : '\t' ∉ shown → isWhole (width - 2 * padding) shown = true →
    Unwraps (cellLines false (width - 2 * padding) shown) shown
  /-- Nothing is cut if no word takes more than sixteen columns. -/
  whole : IsShort 16 shown → isWhole (width - 2 * padding) shown = true

theorem showsText_of_width {width : Nat} {text : String} {shown : List Char}
    (hplain : plainOf? text = some shown)
    (hwidth : min (naturalWidth shown + 2 * padding) 18 ≤ width) : ShowsText width text shown where
  plain := hplain
  exact := by rw [← plainOf?_eq_iff, hplain, Option.some.injEq]
  unwraps := unwraps_cellLines
  whole hshort := isWhole_of_isShort hshort (by
    have hpadding : padding = 1 := rfl
    omega)

/-- Without brackets there is no markup. -/
theorem plainOf?_of_all {text : String}
    (h : text.toList.all (fun c => c ≠ '[' && !isDropped c) = true) :
    plainOf? text = some text.toList := by
  simp only [List.all_eq_true, Bool.and_eq_true, decide_eq_true_eq, Bool.not_eq_true'] at h
  refine plainOf?_eq_iff.mpr ⟨fun before after htext => ?_, fun before after htext => ?_,
    fun c hc => (h c hc).2⟩
  · cases htag : tagAt? after with
    | none => rfl
    | some t =>
      rw [(tagAt?_eq_some htag).1] at htext
      exact absurd rfl (h '[' (by simp [htext])).1
  · exact absurd rfl (h '[' (by simp [htext])).1

theorem plainOf?_toString (n : Nat) : plainOf? (toString n) = some (toString n).toList := by
  refine plainOf?_of_all (List.all_eq_true.mpr fun c hc => ?_)
  rw [Nat.toString_eq_repr, Nat.repr_eq_ofList_toDigits, String.toList_ofList] at hc
  have hdigit := Nat.isDigit_of_mem_toDigits (by decide) (by decide) hc
  rw [Bool.and_eq_true, decide_eq_true_eq, Bool.not_eq_true']
  refine ⟨?_, Bool.eq_false_iff.mpr fun hdropped => ?_⟩
  · rintro rfl
    exact absurd hdigit (by decide)
  · simp only [isDropped, Bool.or_eq_true, decide_eq_true_eq] at hdropped
    rcases hdropped with (((rfl | rfl) | rfl) | rfl) | rfl <;> exact absurd hdigit (by decide)

end Table

theorem Failure.plainOf?_name (f : Failure) : plainOf? f.name = some f.name.toList :=
  Table.plainOf?_of_all (by cases f <;> decide)

/-! ### Rows -/

theorem mapM_eq_some_iff {α β : Type} {f : α → Option β} {xs : List α} {ys : List β} :
    xs.mapM f = some ys ↔ List.Forall₂ (fun x y => f x = some y) xs ys := by
  induction xs generalizing ys with
  | nil => simp [eq_comm]
  | cons x xs ih =>
    rw [List.mapM_cons, List.forall₂_cons_left_iff]
    simp only [bind, Option.bind_eq_some_iff, pure, Option.some.injEq, ih]
    exact ⟨fun ⟨y, hy, ys, hys, h⟩ => ⟨y, ys, hy, hys, h.symm⟩,
      fun ⟨y, ys, hy, hys, h⟩ => ⟨y, hy, ys, hys, h.symm⟩⟩

/-- Texts of a step that can be shown in a table: no tag closes what is not open. -/
def StepTexts.IsWellMarked (t : StepTexts) : Prop :=
  (∃ shown, plainOf? t.name = some shown) ∧ ∃ shown, plainOf? t.needsText = some shown

namespace Step

/-- How many commands a step has that holds texts. -/
def count (s : Step) : Nat := s.commandCount.toOption.getD 0

/-- The texts from which the row of a step is made. -/
def rowTexts (s : Step) : List String :=
  [s.texts.name, s.texts.needsText, toString s.count, s.failure.name]

variable {s : Step}

theorem describeRow_eq (h : s.HoldsTexts) : s.describeRow = .ok s.rowTexts := by
  have hneeds : (s.texts.needs.map Value.str).mapM textOf = .ok s.texts.needs := by
    rw [List.mapM_map]
    simpa using Outcome.mapM_ok (f := textOf ∘ Value.str) (g := id) fun _ _ => rfl
  obtain ⟨n, hn⟩ := h.exists_commandCount
  have hcount : s.count = n := by rw [count, hn]; rfl
  simp only [describeRow, h.elements_dependsOn, h.name_eq, hneeds, hn, textOf, Outcome.ok_bind,
    Outcome.pure_eq_ok, StepTexts.needsText, rowTexts, hcount]

/-- What the cells of a row show. -/
theorem mapM_rowTexts_eq_some_iff {cells : List (List Char)} :
    s.rowTexts.mapM plainOf? = some cells ↔ ∃ name needs,
      plainOf? s.texts.name = some name ∧ plainOf? s.texts.needsText = some needs ∧
      cells = [name, needs, (toString s.count).toList, s.failure.name.toList] := by
  rw [mapM_eq_some_iff, rowTexts]
  simp only [List.forall₂_cons_left_iff, List.forall₂_nil_left_iff, Table.plainOf?_toString,
    Failure.plainOf?_name, Option.some.injEq]
  constructor
  · rintro ⟨name, _, hname, ⟨needs, _, hneeds, ⟨_, _, rfl, ⟨_, _, rfl, rfl, rfl⟩, rfl⟩, rfl⟩, rfl⟩
    exact ⟨name, needs, hname, hneeds, rfl⟩
  · rintro ⟨name, needs, hname, hneeds, rfl⟩
    exact ⟨name, _, hname, ⟨needs, _, hneeds, ⟨_, _, rfl, ⟨_, _, rfl, rfl, rfl⟩, rfl⟩, rfl⟩, rfl⟩

/-- The cells of the row of a step, in a table whose first two columns have some widths: the name of
the step, the steps that it depends on, the number of its commands, and its policy for failures. -/
def IsRow (first second : Nat) (s : Step) (cells : List (List Char)) : Prop :=
  ∃ name needs, Table.ShowsText first s.texts.name name ∧
    Table.ShowsText second s.texts.needsText needs ∧
    cells = [name, needs, (toString s.count).toList, s.failure.name.toList]

end Step

/-! ### Tables -/

namespace Pipeline

/-- The lines of a table of steps: its titles, and a row for each step, in order. -/
def IsStepTable (p : Pipeline) (lines : List String) : Prop :=
  ∃ first second third fourth rows,
    lines = Table.tableLines stepColumns [first, second, third, fourth]
      (stepColumns.map (·.title.toList)) rows ∧
    List.Forall₂ (Step.IsRow first second) p.steps rows

theorem mapM_titles : (stepColumns.mapM fun c => plainOf? c.title)
    = some (stepColumns.map (·.title.toList)) := by
  have htitle : ∀ c ∈ stepColumns, plainOf? c.title = some c.title.toList := fun c hc =>
    Table.plainOf?_of_all (by revert c; decide)
  rw [mapM_eq_some_iff, List.forall₂_map_right_iff, List.forall₂_same]
  exact htitle

variable {p : Pipeline}

theorem mapM_describeRow (h : p.HoldsTexts) :
    p.steps.mapM Step.describeRow = .ok (p.steps.map Step.rowTexts) :=
  Outcome.mapM_ok fun s hs => Step.describeRow_eq (h.steps s hs)

/-- The titles of the columns. -/
def titles : List (List Char) := stepColumns.map (·.title.toList)

/-- A table is made exactly if the texts of all its rows can be shown. -/
theorem stepTable_eq_ok_iff (h : p.HoldsTexts) {lines : List String} :
    p.stepTable = .ok lines ↔ ∃ rows,
      List.Forall₂ (fun s cells => s.rowTexts.mapM plainOf? = some cells) p.steps rows ∧
      Table.tableLines stepColumns
        (Table.columnWidths stepColumns.length terminalWidth (titles :: rows))
        titles rows = lines := by
  have hrender : p.stepTable = .ok lines ↔
      ({ columns := stepColumns, rows := p.steps.map Step.rowTexts } : Table).render? terminalWidth
        = some lines := by
    rw [stepTable, mapM_describeRow h, Outcome.ok_bind]
    cases Table.render? _ _ <;> simp
  rw [hrender, Table.render?_eq_some_iff]
  simp only [mapM_titles, Option.some.injEq, mapM_eq_some_iff, List.forall₂_map_left_iff,
    exists_and_left, exists_eq_left', titles]

/-- A pipeline has a table exactly if the texts of its steps can be shown. -/
theorem exists_stepTable_iff (h : p.HoldsTexts) :
    (∃ lines, p.stepTable = .ok lines) ↔ ∀ s ∈ p.steps, s.texts.IsWellMarked := by
  have hrows : (∃ lines, p.stepTable = .ok lines) ↔
      ∃ rows, List.Forall₂ (fun s cells => s.rowTexts.mapM plainOf? = some cells) p.steps rows := by
    simp only [stepTable_eq_ok_iff h]
    exact ⟨fun ⟨_, rows, hrows, _⟩ => ⟨rows, hrows⟩, fun ⟨rows, hrows⟩ => ⟨_, rows, hrows, rfl⟩⟩
  rw [hrows, exists_forall₂_iff]
  refine forall₂_congr fun s _ => ?_
  simp only [Step.mapM_rowTexts_eq_some_iff, StepTexts.IsWellMarked]
  exact ⟨fun ⟨_, name, needs, hname, hneeds, _⟩ => ⟨⟨name, hname⟩, needs, hneeds⟩,
    fun ⟨⟨name, hname⟩, needs, hneeds⟩ => ⟨_, name, needs, hname, hneeds, rfl⟩⟩

/-- The table of a pipeline has a row for each step. -/
theorem isStepTable_of_stepTable (h : p.HoldsTexts) {lines : List String}
    (hlines : p.stepTable = .ok lines) : p.IsStepTable lines := by
  obtain ⟨rows, hrows, rfl⟩ := (stepTable_eq_ok_iff h).mp hlines
  obtain ⟨widths, hwidths⟩ : ∃ widths,
    Table.columnWidths stepColumns.length terminalWidth (titles :: rows) = widths := ⟨_, rfl⟩
  -- Four columns share seventy-five, which the frame leaves of the terminal.
  have hcolumn : ∀ cells ∈ rows, ∀ i < stepColumns.length, ∀ cell, cells[i]? = some cell →
      ∃ w, widths[i]? = some w ∧ min (Table.naturalWidth cell + 2 * Table.padding) 18 ≤ w := by
    intro cells hcells i hi cell hcell
    rw [← hwidths]
    exact Table.exists_columnWidth (by decide) (List.mem_cons_of_mem _ hcells) hi hcell
  have hlength : widths.length = 4 := by rw [← hwidths, Table.length_columnWidths]; rfl
  rw [hwidths]
  match widths, hlength, hcolumn with
  | [first, second, third, fourth], _, hcolumn =>
    refine ⟨first, second, third, fourth, rows, rfl, ?_⟩
    refine List.forall₂_iff_zip.mpr ⟨hrows.length_eq, fun {s cells} hrow => ?_⟩
    have hcells := hcolumn cells (List.of_mem_zip hrow).2
    obtain ⟨name, needs, hname, hneeds, rfl⟩ :=
      Step.mapM_rowTexts_eq_some_iff.mp (List.forall₂_zip hrows hrow)
    obtain ⟨_, ⟨⟩, hfirst⟩ := hcells 0 (by decide) name rfl
    obtain ⟨_, ⟨⟩, hsecond⟩ := hcells 1 (by decide) needs rfl
    exact ⟨name, needs, Table.showsText_of_width hname hfirst,
      Table.showsText_of_width hneeds hsecond, rfl⟩

end Pipeline

end PipelineManifest
