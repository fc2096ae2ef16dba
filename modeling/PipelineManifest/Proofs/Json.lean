import PipelineManifest.CommandLine.Run
import PipelineManifest.Json

/-!
# `PipelineManifest.Proofs.Json`: JSON texts are ASCII

A document is written in printed ASCII characters and line feeds alone, whatever texts it holds
(`Json.all_render`). So it holds no terminal sequence, and a report as JSON is on the screen as it
was written (`CommandLine.reportLine_render`).

* `isPrinted`: the characters of a document.
* `Json.all_escapedChar`, `Json.all_quotedText`: every character of a text is escaped or printed.
* `Number.all_layOut`, `Json.all_floatText`: numbers.
* `Json.all_renderAt`, `Json.all_render`: whole documents, by induction on the document.
-/

set_option autoImplicit false

namespace PipelineManifest

/-- A line feed or a printed character of ASCII. -/
def isPrinted (c : Char) : Bool := c = '\n' || (' ' ≤ c && c ≤ '~')

/-! ### Digits -/

theorem isPrinted_of_isDigit {c : Char} (h : c.isDigit = true) : isPrinted c = true := by
  simp only [Char.isDigit, Bool.and_eq_true, decide_eq_true_eq] at h
  simp only [isPrinted, Bool.or_eq_true, Bool.and_eq_true, decide_eq_true_eq]
  exact .inr ⟨Char.le_trans (by decide) h.1, Char.le_trans h.2 (by decide)⟩

theorem all_toDigits (n : Nat) : (Nat.toDigits 10 n).all isPrinted = true :=
  List.all_eq_true.mpr fun _ hc =>
    isPrinted_of_isDigit (Nat.isDigit_of_mem_toDigits (by decide) (by decide) hc)

theorem all_repr (n : Nat) : n.repr.toList.all isPrinted = true := by
  rw [Nat.repr_eq_ofList_toDigits, String.toList_ofList]
  exact all_toDigits n

theorem all_toString (i : Int) : (toString i).toList.all isPrinted = true := by
  rw [Int.toString_eq_repr]
  cases i with
  | ofNat n => exact all_repr n
  | negSucc n =>
    have hsign : "-".toList.all isPrinted = true := by decide
    rw [Int.repr.eq_def, String.toList_append, List.all_append, hsign, all_repr]
    rfl

theorem isPrinted_hexDigit (d : Nat) : isPrinted (Text.hexDigit d) = true := by
  have hdigit : ∀ r < 16, isPrinted (Text.hexDigit r) = true := by decide
  have hmod : Text.hexDigit d = Text.hexDigit (d % 16) := by
    simp only [Text.hexDigit, Nat.mod_mod]
  rw [hmod]
  exact hdigit _ (Nat.mod_lt _ (by decide))

theorem all_hexDigits (width n : Nat) : (Text.hexDigits width n).all isPrinted = true := by
  induction width generalizing n with
  | zero => rfl
  | succ width ih =>
    rw [Text.hexDigits, List.all_append, ih, List.all_cons, isPrinted_hexDigit]
    rfl

namespace Number

theorem all_replicate_zero (n : Nat) : (List.replicate n '0').all isPrinted = true :=
  List.all_eq_true.mpr fun c hc => by
    rw [List.eq_of_mem_replicate hc]
    decide

/-- Digits are laid out with signs, points and further digits. -/
theorem all_layOut (f : FloatFormat) {ds : List Char} (h : ds.all isPrinted = true) (k : Int) :
    (f.layOut ds k).all isPrinted = true := by
  have htake : ∀ n, (ds.take n).all isPrinted = true := fun n =>
    List.all_eq_true.mpr fun c hc => List.all_eq_true.mp h c (List.mem_of_mem_take hc)
  have hdrop : ∀ n, (ds.drop n).all isPrinted = true := fun n =>
    List.all_eq_true.mpr fun c hc => List.all_eq_true.mp h c (List.mem_of_mem_drop hc)
  have hpoint : isPrinted '.' = true := by decide
  have hexponent : ∀ e, (f.exponent e).all isPrinted = true := fun e => by
    have hsign : isPrinted (if e < 0 then '-' else '+') = true := by split <;> decide
    simp only [FloatFormat.exponent, List.all_append, List.all_cons, hsign, all_replicate_zero,
      decimal, all_toDigits, Bool.and_true]
  have hfraction : (if (ds.drop 1).isEmpty then [] else '.' :: ds.drop 1).all isPrinted = true := by
    split
    · rfl
    · rw [List.all_cons, hpoint, hdrop, Bool.and_true]
  have hzero : isPrinted '0' = true := by decide
  have hmark : isPrinted 'e' = true := by decide
  unfold FloatFormat.layOut
  dsimp only
  split
  · split
    · simp only [List.all_append, h, all_replicate_zero, List.all_cons, hpoint, hzero, List.all_nil,
        Bool.and_true]
    · split
      · simp only [List.all_append, List.all_cons, htake, hpoint, hdrop, Bool.and_true]
      · simp only [List.all_append, List.all_cons, hzero, hpoint, all_replicate_zero, h,
          Bool.and_true]
  · simp only [List.all_append, List.all_cons, htake, hfraction, hmark, hexponent, Bool.and_true]

theorem all_stripZeros {cs : List Char} (h : cs.all isPrinted = true) (k : Int) :
    (stripZeros cs k).1.all isPrinted = true :=
  List.all_eq_true.mpr fun c hc => List.all_eq_true.mp h c (List.mem_of_mem_take hc)

theorem Binary64.all_text (x : Binary64) : x.text.toList.all isPrinted = true := by
  cases x with
  | nan => decide
  | infinity s => cases s <;> decide
  | finite s m e =>
    have hsign : (if s then ['-'] else []).all isPrinted = true := by cases s <;> decide
    rw [Binary64.text]
    generalize (if m = 0 then ((0 : Nat), (0 : Int)) else shortestDigits m e) = digits
    obtain ⟨c, k⟩ := digits
    dsimp only
    rw [String.toList_ofList, List.all_append, hsign, Bool.true_and]
    refine all_layOut _ ?_ _
    split
    · decide
    · exact all_stripZeros (all_toDigits c) k

end Number

/-! ### Documents -/

namespace Json

theorem all_unitEscape (n : Nat) : (unitEscape n).all isPrinted = true := by
  rw [unitEscape, List.all_cons, List.all_cons, all_hexDigits]
  rfl

/-- A character stands for itself only if it is printed. -/
theorem all_escapedChar (c : Char) : (escapedChar c).all isPrinted = true := by
  unfold escapedChar
  split <;> try rfl
  dsimp only
  split
  · rename_i hprinted
    rw [List.all_cons, List.all_nil, Bool.and_true, isPrinted, hprinted, Bool.or_true]
  · split
    · exact all_unitEscape _
    · rw [List.all_append, all_unitEscape, all_unitEscape, Bool.and_true]

theorem all_quotedText (s : String) : (quotedText s).toList.all isPrinted = true := by
  have hchars : (s.toList.flatMap escapedChar).all isPrinted = true := by
    rw [List.all_flatMap]
    exact List.all_eq_true.mpr fun c _ => all_escapedChar c
  rw [quotedText, String.toList_ofList, List.cons_append, List.all_cons, List.all_append, hchars]
  rfl

theorem all_floatText (x : Number.Binary64) : (floatText x).toList.all isPrinted = true := by
  unfold floatText
  split
  · decide
  · rename_i negative
    cases negative <;> decide
  · exact x.all_text

theorem all_newLine (level : Nat) : (newLine level).toList.all isPrinted = true := by
  rw [newLine, String.toList_ofList, List.all_cons, Bool.and_eq_true]
  refine ⟨by decide, List.all_eq_true.mpr fun c hc => ?_⟩
  rw [List.eq_of_mem_replicate hc]
  decide

theorem all_intercalate {separator : String} (hseparator : separator.toList.all isPrinted = true)
    {parts : List String} (h : ∀ part ∈ parts, part.toList.all isPrinted = true) :
    (separator.intercalate parts).toList.all isPrinted = true := by
  induction parts with
  | nil => rfl
  | cons part parts ih =>
    rw [List.forall_mem_cons] at h
    by_cases hnil : parts = []
    · rw [hnil, String.intercalate_singleton]
      exact h.1
    · rw [String.intercalate_cons_of_ne_nil hnil, String.toList_append, String.toList_append,
        List.all_append, List.all_append, h.1, hseparator, ih h.2]
      rfl

theorem all_bracketed {opening closing : String} (hopening : opening.toList.all isPrinted = true)
    (hclosing : closing.toList.all isPrinted = true) (level : Nat) {parts : List String}
    (h : ∀ part ∈ parts, part.toList.all isPrinted = true) :
    (bracketed opening closing level parts).toList.all isPrinted = true := by
  have hseparator : ("," ++ newLine (level + 1)).toList.all isPrinted = true := by
    rw [String.toList_append, List.all_append, all_newLine, Bool.and_true]
    decide
  unfold bracketed
  split
  · rw [String.toList_append, List.all_append, hopening, hclosing]
    rfl
  · simp only [String.toList_append, List.all_append, hopening, hclosing, all_newLine,
      all_intercalate hseparator h, Bool.and_true]

mutual

theorem all_renderAt (level : Nat) : ∀ j : Json, (renderAt level j).toList.all isPrinted = true
  | null => by
    rw [renderAt]
    decide
  | bool b => by
    rw [renderAt]
    cases b <;> decide
  | int i => by
    rw [renderAt]
    exact all_toString i
  | float x => by
    rw [renderAt]
    exact all_floatText x
  | str s => by
    rw [renderAt]
    exact all_quotedText s
  | array items => by
    rw [renderAt]
    exact all_bracketed (by decide) (by decide) level (all_renderItems (level + 1) items)
  | object fields => by
    rw [renderAt]
    exact all_bracketed (by decide) (by decide) level (all_renderFields (level + 1) fields)

theorem all_renderItems (level : Nat) : ∀ items : List Json,
    ∀ part ∈ renderItems level items, part.toList.all isPrinted = true
  | [] => by simp [renderItems]
  | j :: js => by
    rw [renderItems, List.forall_mem_cons]
    exact ⟨all_renderAt level j, all_renderItems level js⟩

theorem all_renderFields (level : Nat) : ∀ fields : List (String × Json),
    ∀ part ∈ renderFields level fields, part.toList.all isPrinted = true
  | [] => by simp [renderFields]
  | (k, j) :: fs => by
    rw [renderFields, List.forall_mem_cons]
    refine ⟨?_, all_renderFields level fs⟩
    rw [String.toList_append, String.toList_append, List.all_append, List.all_append,
      all_quotedText, all_renderAt level j]
    decide

end

/-- A document is written in printed characters of ASCII and line feeds alone. -/
theorem all_render (j : Json) : j.render.toList.all isPrinted = true := all_renderAt 0 j

end Json

/-! ### Reports -/

namespace CommandLine

theorem withoutSequencesFrom_of_not_mem {cs : List Char} (h : '\x1b' ∉ cs) (fuel : Nat) :
    withoutSequencesFrom fuel cs = cs := by
  induction fuel generalizing cs with
  | zero => rfl
  | succ fuel ih =>
    cases cs with
    | nil => rfl
    | cons c cs =>
      rw [List.mem_cons, not_or] at h
      unfold withoutSequencesFrom
      dsimp only
      split
      · exact absurd rfl h.1
      · rw [ih h.2]

/-- A document is on the screen as it was written. -/
theorem reportLine_render (j : Json) : reportLine j.render = j.render ++ "\n" := by
  have hescape : '\x1b' ∉ j.render.toList := fun h =>
    absurd (List.all_eq_true.mp j.all_render _ h) (by decide)
  rw [reportLine, withoutSequences, withoutSequencesFrom_of_not_mem hescape, String.ofList_toList]

end CommandLine

end PipelineManifest
