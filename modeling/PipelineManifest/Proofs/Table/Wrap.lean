import Mathlib.Algebra.GroupWithZero.Nat
import Mathlib.Data.List.DropRight
import Mathlib.Data.List.Forall2
import PipelineManifest.Proofs.Table.Markup
import PipelineManifest.Table.Wrap

/-!
# `PipelineManifest.Proofs.Table.Wrap`: reading a text back from its cell

A cell shows the lines of a text one below the other, and breaks a line that is too long behind
blanks. Nothing is lost on the way but the blanks at the end of a line of the cell, which cannot be
told from those that fill the column, as long as no word has to be cut (`unwraps_cellLines`).

* `IsBroken`, `Unwraps`: a line in pieces, and a cell from which a text can be read back.
* `isBroken_wrapLine`: a line is broken behind blanks, and its pieces make up the line.
* `isWhole`: whether nothing is cut.
* `unwraps_cellLines`: a text is read back from a cell in which nothing is cut.
* `isWhole_of_isShort`: when all words of a text are short, nothing is cut in a column that is not
  narrow.
-/

set_option autoImplicit false

namespace PipelineManifest.Table

open Text (isBlank textWidth fitWidth charWidth)

/-! ### Lines and pieces -/

theorem linesBy_ne_nil (isBreak : Char → Bool) (cs : List Char) : linesBy isBreak cs ≠ [] := by
  cases cs with
  | nil => simp [linesBy]
  | cons c cs =>
    rw [linesBy]
    split
    · simp
    · split <;> simp

/-- Lines put together again, with a line break between them. -/
theorem intercalate_linesBy (cs : List Char) :
    ['\n'].intercalate (linesBy (· = '\n') cs) = cs := by
  induction cs with
  | nil => rfl
  | cons c cs ih =>
    rw [linesBy]
    cases h : linesBy (· = '\n') cs with
    | nil => exact absurd h (linesBy_ne_nil _ _)
    | cons line lines =>
      rw [h] at ih
      dsimp only
      split
      · rename_i hc
        rw [List.intercalate_cons_cons, ih, of_decide_eq_true hc]
        rfl
      · cases lines with
        | nil =>
          rw [List.intercalate_singleton] at ih ⊢
          rw [ih]
        | cons line' lines =>
          rw [List.intercalate_cons_cons] at ih ⊢
          rw [← ih]
          rfl

/-- A text that ends with a blank. -/
def EndsInBlank (cs : List Char) :
    Prop := ∃ front blank, cs = front ++ [blank] ∧ isBlank blank = true

theorem EndsInBlank.ne_nil {cs : List Char} (h : EndsInBlank cs) : cs ≠ [] := by
  obtain ⟨front, blank, rfl, -⟩ := h
  simp

theorem EndsInBlank.append {cs : List Char} (h : EndsInBlank cs) (front : List Char) :
    EndsInBlank (front ++ cs) := by
  obtain ⟨front', blank, rfl, hblank⟩ := h
  exact ⟨front ++ front', blank, (List.append_assoc _ _ _).symm, hblank⟩

/-- A line that is broken into pieces, each but the last of which ends with a blank. -/
inductive IsBroken : List (List Char) → List Char → Prop
  | last (piece : List Char) : IsBroken [piece] piece
  | cons {piece line : List Char} {pieces : List (List Char)} (ends : EndsInBlank piece)
      (rest : IsBroken pieces line) : IsBroken (piece :: pieces) (piece ++ line)

/-- The lines of a cell from which a text can be read back: but for the blanks at their ends, they
are the pieces into which the lines of the text are broken. -/
def Unwraps (cell : List (List Char)) (text : List Char) : Prop :=
  ∃ (lines : List (List Char)) (pieces : List (List (List Char))),
    ['\n'].intercalate lines = text ∧ List.Forall₂ IsBroken pieces lines ∧
    List.Forall₂ (fun shown piece => dropTrailingBlanks shown = dropTrailingBlanks piece)
      cell pieces.flatten

/-! ### Words -/

theorem wordsFrom_nil (fuel : Nat) : wordsFrom fuel [] = [] := by
  cases fuel <;> rfl

theorem eq_false_of_dropWhile {p : Char → Bool} {cs : List Char} {c : Char} {rest : List Char}
    (h : cs.dropWhile p = c :: rest) : p c = false := by
  have hhead := List.head_dropWhile_not p (l := cs) (by simp [h])
  simpa only [h, List.head_cons] using hhead

/-- The first word of a text with a character that is not blank, and what is left. If anything is
left, it starts with a character that is not blank, and the word ends with a blank. -/
theorem exists_wordsFrom_succ {cs : List Char} (h : cs.dropWhile isBlank ≠ []) (fuel : Nat) :
    ∃ word rest, cs = word ++ rest ∧
      wordsFrom (fuel + 1) cs = word :: wordsFrom fuel rest ∧ rest.dropWhile isBlank = rest ∧
      (rest ≠ [] → EndsInBlank word) := by
  have hlead := List.takeWhile_append_dropWhile (p := isBlank) (l := cs)
  simp only [wordsFrom, drop_length_takeWhile, List.isEmpty_iff, if_neg h]
  obtain ⟨c, body, hbody⟩ := List.exists_cons_of_ne_nil h
  rw [hbody] at hlead ⊢
  have hletters := List.takeWhile_append_dropWhile (p := (!isBlank ·)) (l := c :: body)
  have htrail := List.takeWhile_append_dropWhile (p := isBlank)
    (l := (c :: body).dropWhile (!isBlank ·))
  refine ⟨_, ((c :: body).dropWhile (!isBlank ·)).dropWhile isBlank, ?_, rfl,
    List.dropWhile_idempotent _ _, fun hrest => ?_⟩
  · rw [List.append_assoc, htrail, List.append_assoc, hletters, hlead]
  -- What is behind the letters starts with a blank, so the blanks there are some.
  · cases hbehind : (c :: body).dropWhile (!isBlank ·) with
    | nil => simp [hbehind] at hrest
    | cons blank behind =>
      have hblank : isBlank blank = true := by simpa using eq_false_of_dropWhile hbehind
      obtain ⟨blanks, last, hlast⟩ : ∃ blanks last,
          (blank :: behind).takeWhile isBlank = blanks ++ [last] :=
        ⟨_, _, (List.dropLast_append_getLast (by simp [hblank])).symm⟩
      refine ⟨_, last, by rw [hlast, ← List.append_assoc], ?_⟩
      exact List.mem_takeWhile_imp (l := blank :: behind) (by simp [hlast])

/-- A text with a character that is not blank is made up of its words, and every word but the last
ends with a blank. The induction is on the fuel, which bounds the text that is left. -/
theorem isBroken_wordsFrom {fuel : Nat} {cs : List Char} (hfuel : cs.length < fuel)
    (h : cs.dropWhile isBlank ≠ []) : IsBroken (wordsFrom fuel cs) cs := by
  induction fuel generalizing cs with
  | zero => exact absurd hfuel (Nat.not_lt_zero _)
  | succ fuel ih =>
    obtain ⟨word, rest, rfl, hwords, hrest, hblank⟩ := exists_wordsFrom_succ h fuel
    rw [hwords]
    by_cases hnil : rest = []
    · rw [hnil, wordsFrom_nil, List.append_nil]
      exact .last word
    · have hpos := List.length_pos_iff.mpr (hblank hnil).ne_nil
      refine .cons (hblank hnil) (ih ?_ (by rwa [hrest]))
      rw [List.length_append] at hfuel
      omega

/-! ### Lines that words fill -/

/-- Words that fill lines behind a line that has been started, which is empty or ends with a
blank. -/
theorem isBroken_fillLines (width : Nat) {words : List (List Char)} {cs : List Char}
    (h : IsBroken words cs) {line : List Char} (hline : line = [] ∨ EndsInBlank line) :
    IsBroken (fillLines width line words) (line ++ cs) := by
  induction h generalizing line with
  | last word =>
    rw [fillLines, fillLines, fillLines]
    split
    · exact .last _
    · rename_i hfull
      rcases hline with rfl | hline
      · simp at hfull
      · exact .cons hline (.last word)
  | @cons word cs words hword _ ih =>
    rw [fillLines]
    split
    · rw [← List.append_assoc]
      exact ih (.inr (hword.append line))
    · rename_i hfull
      rcases hline with rfl | hline
      · simp at hfull
      · exact .cons hline (ih (.inr hword))

/-- Only a line of blanks has no words. -/
theorem wordsOf_eq_nil_iff {cs : List Char} : wordsOf cs = [] ↔ cs.dropWhile isBlank = [] := by
  constructor
  · intro h
    by_contra hsome
    obtain ⟨word, rest, -, hwords, -⟩ := exists_wordsFrom_succ hsome cs.length
    rw [wordsOf, hwords] at h
    cases h
  · intro h
    simp [wordsOf, wordsFrom, drop_length_takeWhile, h]

/-- A line is broken behind blanks, and its pieces make up the line. -/
theorem isBroken_wrapLine (width : Nat) (cs : List Char) : IsBroken (wrapLine width cs) cs := by
  rw [wrapLine]
  by_cases hnone : cs.dropWhile isBlank = []
  · rw [wordsOf_eq_nil_iff.mpr hnone]
    exact .last cs
  · have hwords : wordsOf cs ≠ [] := fun h => hnone (wordsOf_eq_nil_iff.mp h)
    have hbroken := isBroken_wordsFrom (Nat.lt_succ_self cs.length) hnone
    rw [← wordsOf] at hbroken
    split
    · contradiction
    · exact isBroken_fillLines width hbroken (.inl rfl)

/-! ### Blanks at the end -/

/-- Blanks at the end play no part. -/
theorem dropTrailingBlanks_append {blanks : List Char} (h : ∀ c ∈ blanks, isBlank c = true)
    (cs : List Char) : dropTrailingBlanks (cs ++ blanks) = dropTrailingBlanks cs := by
  rw [dropTrailingBlanks, List.reverse_append, List.dropWhile_append_of_pos (by simpa using h)]
  rfl

/-- What is trimmed from a line are blanks at its end. -/
theorem exists_trimExcess (width : Nat) (cs : List Char) :
    ∃ blanks, cs = trimExcess width cs ++ blanks ∧ ∀ c ∈ blanks, isBlank c = true := by
  refine ⟨_, (List.take_append_drop _ cs).symm, fun c hc => ?_⟩
  rw [← List.mem_reverse, ← List.take_reverse] at hc
  have hblanks := List.prefix_iff_eq_take.mp (List.takeWhile_prefix isBlank (l := cs.reverse))
  refine List.mem_takeWhile_imp (l := cs.reverse) ?_
  rw [hblanks]
  exact List.mem_of_mem_take (i := min _ _)
    (by rwa [List.take_take, Nat.min_eq_left (Nat.min_le_left _ _)])

/-! ### Widths -/

theorem textWidth_eq_sum (cs : List Char) : textWidth cs = (cs.map charWidth).sum := by
  rw [textWidth, List.sum_eq_foldl]

theorem textWidth_append (cs ds : List Char) :
    textWidth (cs ++ ds) = textWidth cs + textWidth ds := by
  rw [textWidth_eq_sum, textWidth_eq_sum, textWidth_eq_sum, List.map_append, List.sum_append]

/-- Whether a line of a cell stands in a column without being cut. -/
def fits (width : Nat) (piece : List Char) : Bool := textWidth (trimExcess width piece) ≤ width

/-- A line that fits is filled up with blanks. -/
theorem alignLine_of_fits {width : Nat} {piece : List Char} (h : fits width piece = true) :
    alignLine false width (trimExcess width piece)
      = trimExcess width piece
        ++ List.replicate (width - textWidth (trimExcess width piece)) ' ' := by
  have hle : textWidth (trimExcess width piece) ≤ width := of_decide_eq_true h
  have hshorten : shorten width (trimExcess width piece) = trimExcess width piece :=
    if_neg (Nat.not_lt.mpr hle)
  simp only [alignLine, hshorten, fitWidth, if_pos hle, Bool.false_eq_true, if_false]

/-- In a line that fits, nothing but blanks at the end tells the line of the cell from the piece. -/
theorem dropTrailingBlanks_alignLine {width : Nat} {piece : List Char}
    (h : fits width piece = true) :
    dropTrailingBlanks (alignLine false width (trimExcess width piece))
      = dropTrailingBlanks piece := by
  obtain ⟨blanks, hpiece, hblanks⟩ := exists_trimExcess width piece
  rw [alignLine_of_fits h, dropTrailingBlanks_append fun c hc => ?_]
  · conv_rhs => rw [hpiece, dropTrailingBlanks_append hblanks]
  · rw [List.eq_of_mem_replicate hc]
    decide

/-! ### Cells -/

/-- Whether a text is shown in a column without anything being cut. -/
def isWhole (width : Nat) (cs : List Char) : Bool :=
  (linesBy (· = '\n') cs).all fun line => (wrapLine width line).all (fits width)

/-- A line without tabs keeps its characters. -/
theorem expandTabs_of_not_mem {cs : List Char} (h : '\t' ∉ cs) (column : Nat) :
    expandTabs column cs = cs := by
  induction cs generalizing column with
  | nil => rfl
  | cons c cs ih =>
    rw [List.mem_cons, not_or] at h
    rw [expandTabs, if_neg (Ne.symm h.1), ih h.2]

theorem mem_of_mem_linesBy {isBreak : Char → Bool} {cs line : List Char}
    (h : line ∈ linesBy isBreak cs) {c : Char} (hc : c ∈ line) : c ∈ cs := by
  induction cs generalizing line with
  | nil =>
    rw [linesBy, List.mem_singleton] at h
    rw [h] at hc
    cases hc
  | cons d cs ih =>
    rw [linesBy] at h
    cases hlines : linesBy isBreak cs with
    | nil => exact absurd hlines (linesBy_ne_nil _ _)
    | cons first lines =>
      rw [hlines] at h ih
      dsimp only at h
      split at h
      · rcases List.mem_cons.mp h with rfl | h
        · cases hc
        · exact List.mem_cons_of_mem _ (ih h hc)
      · rcases List.mem_cons.mp h with rfl | h
        · rcases List.mem_cons.mp hc with rfl | hc
          · exact List.mem_cons_self
          · exact List.mem_cons_of_mem _ (ih List.mem_cons_self hc)
        · exact List.mem_cons_of_mem _ (ih (List.mem_cons_of_mem _ h) hc)

/-- A text without tabs is read back from a cell in which nothing is cut. -/
theorem unwraps_cellLines {width : Nat} {cs : List Char} (htab : '\t' ∉ cs)
    (h : isWhole width cs = true) : Unwraps (cellLines false width cs) cs := by
  refine ⟨linesBy (· = '\n') cs, (linesBy (· = '\n') cs).map (wrapLine width),
    intercalate_linesBy cs, ?_, ?_⟩
  · rw [List.forall₂_map_left_iff, List.forall₂_same]
    exact fun line _ => isBroken_wrapLine width line
  · have hcell : cellLines false width cs
        = ((linesBy (· = '\n') cs).map (wrapLine width)).flatten.map
            fun piece => alignLine false width (trimExcess width piece) := by
      rw [cellLines, List.map_flatten, List.map_map, List.flatMap_def]
      refine congrArg _ (List.map_congr_left fun line hline => ?_)
      rw [expandTabs_of_not_mem fun hc => htab (mem_of_mem_linesBy hline hc)]
      rfl
    rw [hcell, List.forall₂_map_left_iff, List.forall₂_same]
    intro piece hpiece
    obtain ⟨pieces, hpieces, hpiece⟩ := List.mem_flatten.mp hpiece
    obtain ⟨line, hline, rfl⟩ := List.mem_map.mp hpieces
    rw [isWhole, List.all_eq_true] at h
    exact dropTrailingBlanks_alignLine (List.all_eq_true.mp (h line hline) piece hpiece)

/-! ### Short words -/

/-- A text whose words are short: none takes more than a number of columns, and no character takes
more than one. Only a new line ends a line. -/
structure IsShort (most : Nat) (cs : List Char) : Prop where
  narrow : ∀ c ∈ cs, charWidth c ≤ 1
  breaks : ∀ c ∈ cs, isMeasuredBreak c = true → c = '\n'
  words : ∀ line ∈ linesBy (· = '\n') cs, ∀ word ∈ wordsOf line,
    textWidth (dropTrailingBlanks word) ≤ most

theorem textWidth_mono {cs ds : List Char} (h : cs <+: ds) : textWidth cs ≤ textWidth ds := by
  obtain ⟨rest, rfl⟩ := h
  rw [textWidth_append]
  exact Nat.le_add_right _ _

theorem textWidth_le_length {cs : List Char} (h : ∀ c ∈ cs, charWidth c ≤ 1) :
    textWidth cs ≤ cs.length := by
  induction cs with
  | nil => exact Nat.le_refl _
  | cons c cs ih =>
    rw [List.forall_mem_cons] at h
    rw [← List.singleton_append, textWidth_append, List.length_append, List.length_singleton]
    exact Nat.add_le_add (by simpa [textWidth] using h.1) (ih h.2)

/-- A line of narrow characters fits, if it does without the blanks at its end. -/
theorem fits_of_narrow {width : Nat} {piece : List Char} (hnarrow : ∀ c ∈ piece, charWidth c ≤ 1)
    (h : textWidth (dropTrailingBlanks piece) ≤ width) : fits width piece = true := by
  obtain ⟨blanks, hpiece, hblanks⟩ : ∃ blanks, piece = dropTrailingBlanks piece ++ blanks ∧
      (piece.reverse.takeWhile isBlank).length = blanks.length :=
    ⟨piece.rtakeWhile isBlank, List.rdropWhile_append_rtakeWhile.symm,
      by rw [List.rtakeWhile, List.length_reverse]⟩
  have hlength := congrArg List.length hpiece
  rw [List.length_append] at hlength
  rw [fits, decide_eq_true_iff, trimExcess, hblanks]
  rcases Nat.le_total blanks.length (piece.length - width) with hle | hle
  -- Either all blanks are trimmed, or so many that the rest is no longer than the column is wide.
  · rw [Nat.min_eq_left hle, hlength, Nat.add_sub_cancel]
    have htake : piece.take (dropTrailingBlanks piece).length = dropTrailingBlanks piece := by
      obtain ⟨kept, hkept⟩ : ∃ kept, dropTrailingBlanks piece = kept := ⟨_, rfl⟩
      rw [hkept] at hpiece ⊢
      rw [hpiece, List.take_left]
    rwa [htake]
  · rw [Nat.min_eq_right hle]
    have hshort : textWidth (piece.take (piece.length - (piece.length - width)))
        ≤ (piece.take (piece.length - (piece.length - width))).length :=
      textWidth_le_length fun c hc => hnarrow c (List.mem_of_mem_take hc)
    rw [List.length_take] at hshort
    omega

theorem textWidth_le_of_isBroken {pieces : List (List Char)} {line : List Char}
    (h : IsBroken pieces line) {piece : List Char} (hpiece : piece ∈ pieces) :
    textWidth piece ≤ textWidth line := by
  induction h with
  | last => rw [List.mem_singleton.mp hpiece]
  | cons _ _ ih =>
    rw [textWidth_append]
    rcases List.mem_cons.mp hpiece with rfl | hpiece
    · exact Nat.le_add_right _ _
    · exact Nat.le_add_left_of_le (ih hpiece)

/-- Blanks at the end of a text take nothing from the text before it. -/
theorem textWidth_dropTrailingBlanks_append_le (cs ds : List Char) :
    textWidth (dropTrailingBlanks (cs ++ ds))
      ≤ textWidth cs + textWidth (dropTrailingBlanks ds) := by
  have hds : dropTrailingBlanks ds ++ ds.rtakeWhile isBlank = ds :=
    List.rdropWhile_append_rtakeWhile
  conv_lhs => rw [← hds, ← List.append_assoc]
  rw [dropTrailingBlanks_append fun c hc => List.mem_rtakeWhile_imp hc, ← textWidth_append]
  exact textWidth_mono (List.rdropWhile_prefix isBlank _)

/-- Words that fit fill lines that fit, but for the blanks at their ends. -/
theorem textWidth_fillLines {width : Nat} {words : List (List Char)}
    (hwords : ∀ word ∈ words, textWidth (dropTrailingBlanks word) ≤ width) {line : List Char}
    (hline : textWidth (dropTrailingBlanks line) ≤ width) :
    ∀ piece ∈ fillLines width line words, textWidth (dropTrailingBlanks piece) ≤ width := by
  induction words generalizing line with
  | nil => simpa [fillLines] using hline
  | cons word words ih =>
    rw [List.forall_mem_cons] at hwords
    rw [fillLines]
    split
    · rename_i hfits
      refine ih hwords.2 ?_
      rw [Bool.or_eq_true, List.isEmpty_iff, decide_eq_true_iff] at hfits
      rcases hfits with rfl | hfits
      · exact hwords.1
      · exact (textWidth_dropTrailingBlanks_append_le line word).trans hfits
    · rw [List.forall_mem_cons]
      exact ⟨hline, ih hwords.2 hwords.1⟩

/-- Words that fill lines bring in no characters. -/
theorem flatten_of_isBroken {pieces : List (List Char)} {line : List Char}
    (h : IsBroken pieces line) : pieces.flatten = line := by
  induction h with
  | last => simp
  | cons _ _ ih => rw [List.flatten_cons, ih]

/-- A line of narrow characters all of whose words fit is shown without anything being cut. -/
theorem fits_wrapLine {width : Nat} {line : List Char} (hnarrow : ∀ c ∈ line, charWidth c ≤ 1)
    (hwords : ∀ word ∈ wordsOf line, textWidth (dropTrailingBlanks word) ≤ width) :
    ∀ piece ∈ wrapLine width line, fits width piece = true := by
  intro piece hpiece
  refine fits_of_narrow (fun c hc => hnarrow c ?_) ?_
  · rw [← flatten_of_isBroken (isBroken_wrapLine width line)]
    exact List.mem_flatten_of_mem hpiece hc
  · rw [wrapLine] at hpiece
    cases h : wordsOf line with
    | nil =>
      rw [h, List.mem_singleton] at hpiece
      have hblank := List.dropWhile_eq_nil_iff.mp (wordsOf_eq_nil_iff.mp h)
      have hnone : dropTrailingBlanks line = [] := List.rdropWhile_eq_nil_iff.mpr hblank
      rw [hpiece, hnone]
      exact Nat.zero_le _
    | cons word words =>
      rw [h] at hpiece hwords
      exact textWidth_fillLines hwords (Nat.zero_le _) piece hpiece

/-- A word takes no more columns than its line. -/
theorem textWidth_le_of_mem_wordsOf {line word : List Char} (h : word ∈ wordsOf line) :
    textWidth (dropTrailingBlanks word) ≤ textWidth line := by
  have hsome : line.dropWhile isBlank ≠ [] := fun hnone => by
    rw [wordsOf_eq_nil_iff.mpr hnone] at h
    cases h
  exact (textWidth_mono (List.rdropWhile_prefix isBlank word)).trans
    (textWidth_le_of_isBroken (isBroken_wordsFrom (Nat.lt_succ_self _) hsome) h)

theorem le_foldl_max {ns : List Nat} {n : Nat} (h : n ∈ ns) (least : Nat) :
    n ≤ ns.foldl max least := by
  rw [List.foldl_max_eq_max (List.ne_nil_of_mem h)]
  exact (List.le_max_of_mem h).trans (Nat.le_max_right _ _)

theorem linesBy_congr {isBreak isBreak' : Char → Bool} {cs : List Char}
    (h : ∀ c ∈ cs, isBreak c = isBreak' c) : linesBy isBreak cs = linesBy isBreak' cs := by
  induction cs with
  | nil => rfl
  | cons c cs ih =>
    rw [List.forall_mem_cons] at h
    rw [linesBy, linesBy, ih h.2, h.1]

/-- A text of short words is shown without anything being cut, unless the column is narrow and not
as wide as the text itself. -/
theorem isWhole_of_isShort {most width : Nat} {cs : List Char} (h : IsShort most cs)
    (hwidth : min most (naturalWidth cs) ≤ width) : isWhole width cs = true := by
  rw [isWhole, List.all_eq_true]
  intro line hline
  rw [List.all_eq_true]
  refine fits_wrapLine (fun c hc => h.narrow c (mem_of_mem_linesBy hline hc)) fun word hword => ?_
  have hshort := h.words line hline word hword
  have hlines : linesBy isMeasuredBreak cs = linesBy (· = '\n') cs :=
    linesBy_congr fun c hc => by
      rw [Bool.eq_iff_iff, decide_eq_true_iff]
      exact ⟨h.breaks c hc, fun hc => by rw [hc]; rfl⟩
  have hnatural : textWidth (dropTrailingBlanks word) ≤ naturalWidth cs := by
    refine (textWidth_le_of_mem_wordsOf hword).trans ?_
    rw [naturalWidth, hlines]
    exact le_foldl_max (List.mem_map_of_mem hline) 0
  exact (le_min hshort hnatural).trans hwidth

end PipelineManifest.Table
