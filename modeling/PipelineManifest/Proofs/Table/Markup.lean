import Mathlib.Data.List.TakeWhile
import PipelineManifest.Table.Markup

/-!
# `PipelineManifest.Proofs.Table.Markup`: what a cell shows of a text

A text in a cell is read as marked-up text, whoever wrote it. It is shown character for character
exactly if it holds nothing that has a meaning of its own: no tag, no backslash before a bracket,
and no control character that is left out (`plainOf?_eq_iff`).

* `tagAt?_eq_some`: what a tag looks like.
* `shownLength`: how many characters some pieces show, unless a tag closes what is not open.
* `shownLength_piecesFrom`: every tag, and every backslash that is left out, takes characters away.
* `IsUnmarked`, `plainOf?_eq_iff`: the texts that are shown as they are.
-/

set_option autoImplicit false

namespace PipelineManifest.Table

/-- A tag is a text in brackets, which are no part of it. -/
theorem tagAt?_eq_some {cs tag rest : List Char} (h : tagAt? cs = some (tag, rest)) :
    cs = '[' :: tag ++ ']' :: rest ∧ tag ≠ [] := by
  unfold tagAt? at h
  split at h
  · rename_i c cs'
    dsimp only at h
    split at h
    · rename_i rest' hdrop
      rw [Option.ite_none_right_eq_some, Option.some.injEq, Prod.mk.injEq] at h
      obtain ⟨-, rfl, rfl⟩ := h
      refine ⟨?_, by simp⟩
      have hsplit := List.prefix_iff_eq_append.mp
        (List.takeWhile_prefix (fun c => c ≠ '[' && c ≠ ']') (l := cs'))
      rw [hdrop] at hsplit
      rw [List.cons_append, List.cons_append, hsplit]
    · cases h
  · cases h

/-- Only what starts with a bracket is a tag. -/
theorem tagAt?_cons_of_ne {c : Char} (h : c ≠ '[') (cs : List Char) : tagAt? (c :: cs) = none := by
  cases htag : tagAt? (c :: cs) with
  | none => rfl
  | some t =>
    have hcs := (tagAt?_eq_some htag).1
    simp only [List.cons_append, List.cons.injEq] at hcs
    exact absurd hcs.1 h

/-! ### Backslashes before brackets -/

/-- A text without a backslash before a bracket. -/
def HasNoEscape (cs : List Char) : Prop := ∀ before after, cs ≠ before ++ '\\' :: '[' :: after

theorem length_unescape_le (cs : List Char) :
    (plainPiece.unescape cs).length ≤ cs.length := by
  induction cs using plainPiece.unescape.induct with
  | case1 cs ih =>
    rw [plainPiece.unescape, List.length_cons, List.length_cons, List.length_cons]
    omega
  | case2 c cs hc ih =>
    rw [plainPiece.unescape, List.length_cons, List.length_cons]
    · omega
    · exact hc
  | case3 => exact Nat.le_refl _

theorem unescape_of_hasNoEscape {cs : List Char} (h : HasNoEscape cs) :
    plainPiece.unescape cs = cs := by
  induction cs using plainPiece.unescape.induct with
  | case1 cs ih => exact absurd rfl (h [] cs)
  | case2 c cs hc ih =>
    rw [plainPiece.unescape, ih fun before after hcs => h (c :: before) after (by simp [hcs])]
    exact hc
  | case3 => rfl

/-- A backslash that is left out is missing. -/
theorem hasNoEscape_of_length {cs : List Char}
    (h : (plainPiece.unescape cs).length = cs.length) : HasNoEscape cs := by
  induction cs using plainPiece.unescape.induct with
  | case1 cs ih =>
    have hle := length_unescape_le cs
    rw [plainPiece.unescape, List.length_cons, List.length_cons, List.length_cons] at h
    omega
  | case2 c cs hc ih =>
    rw [plainPiece.unescape, List.length_cons, List.length_cons, Nat.add_right_cancel_iff] at h
    · intro before after hcs
      cases before with
      | nil =>
        rw [List.nil_append, List.cons.injEq] at hcs
        exact hc after hcs.1 hcs.2
      | cons c' before =>
        rw [List.cons_append, List.cons.injEq] at hcs
        exact ih h before after hcs.2
    · exact hc
  | case3 => exact fun before after hcs => by simp at hcs

/-! ### The length of what is shown -/

/-- How many characters some pieces show, if no tag closes what is not open. -/
def shownLength : List Piece → Nat
  | [] => 0
  | .plain cs :: ps => cs.length + shownLength ps
  | .tag _ :: ps => shownLength ps

theorem shownLength_append (ps qs : List Piece) :
    shownLength (ps ++ qs) = shownLength ps + shownLength qs := by
  induction ps with
  | nil => rw [List.nil_append, shownLength, Nat.zero_add]
  | cons p ps ih => cases p <;> simp only [List.cons_append, shownLength, ih, Nat.add_assoc]

/-- Styles come and go, but they do not change which characters are shown. -/
theorem length_of_shownFrom? {ps : List Piece} {opened : List String} {cs : List Char}
    (h : shownFrom? opened ps = some cs) : cs.length = shownLength ps := by
  induction ps generalizing opened cs with
  | nil =>
    cases h
    rfl
  | cons p ps ih =>
    cases p with
    | plain ds =>
      rw [shownFrom?, Option.map_eq_some_iff] at h
      obtain ⟨ds', hds', rfl⟩ := h
      rw [shownLength, List.length_append, ih hds']
    | tag name =>
      rw [shownLength]
      simp only [shownFrom?] at h
      split at h
      · split at h
        · split at h
          · cases h
          · exact ih h
        · split at h
          · exact ih h
          · cases h
      · exact ih h

theorem shownLength_plainPiece (cs : List Char) :
    shownLength (plainPiece cs) = (plainPiece.unescape cs).length := by
  unfold plainPiece
  split
  · rename_i hcs
    rw [List.isEmpty_iff.mp hcs]
    rfl
  · rfl

/-- A text without tags after some position. -/
def HasNoTag (cs : List Char) : Prop := ∀ before after, cs = before ++ after → tagAt? after = none

theorem hasNoTag_cons {c : Char} {cs : List Char} :
    HasNoTag (c :: cs) ↔ tagAt? (c :: cs) = none ∧ HasNoTag cs := by
  constructor
  · exact fun h => ⟨h [] _ rfl, fun before after hcs => h (c :: before) after (by simp [hcs])⟩
  · rintro ⟨hhead, htail⟩ before after hcs
    cases before with
    | nil =>
      rw [← List.nil_append after, ← hcs]
      exact hhead
    | cons c' before =>
      rw [List.cons_append, List.cons.injEq] at hcs
      exact htail before after hcs.2

/-- Backslashes at the front play no part. -/
theorem hasNoTag_backslashes {slashes cs : List Char} (h : ∀ c ∈ slashes, c = '\\') :
    HasNoTag (slashes ++ cs) ↔ HasNoTag cs := by
  induction slashes with
  | nil => rfl
  | cons c slashes ih =>
    rw [List.cons_append, hasNoTag_cons, ih fun d hd => h d (List.mem_cons_of_mem _ hd)]
    have hc : c ≠ '[' := by
      rw [h c List.mem_cons_self]
      decide
    exact and_iff_right (tagAt?_cons_of_ne hc _)

/-- What is left behind the characters at the front that have a property. -/
theorem drop_length_takeWhile (p : Char → Bool) (cs : List Char) :
    cs.drop (cs.takeWhile p).length = cs.dropWhile p := by
  have hdrop : (cs.takeWhile p ++ cs.dropWhile p).drop (cs.takeWhile p).length = cs.dropWhile p :=
    List.drop_left
  rwa [List.takeWhile_append_dropWhile] at hdrop

/-- No character is shown that is not there, and every tag takes some away. -/
theorem shownLength_tag_lt (before slashes tag : List Char) {after : List Char} {fuel : Nat}
    (h : shownLength (piecesFrom [] fuel after) ≤ after.length) :
    shownLength (plainPiece before
        ++ (if slashes.length / 2 = 0 then []
          else [.plain (List.replicate (slashes.length / 2) '\\')])
        ++ (if slashes.length % 2 = 1 then .plain ('[' :: tag ++ [']']) else .tag tag)
          :: piecesFrom [] fuel after)
      < before.length + (slashes ++ ('[' :: tag ++ ']' :: after)).length := by
  have hbefore : shownLength (plainPiece before) ≤ before.length := by
    rw [shownLength_plainPiece]
    exact length_unescape_le before
  have hslashes : shownLength (if slashes.length / 2 = 0 then []
      else [.plain (List.replicate (slashes.length / 2) '\\')]) = slashes.length / 2 := by
    split
    · rw [shownLength]
      omega
    · rw [shownLength, shownLength, List.length_replicate, Nat.add_zero]
  -- The brackets are shown only with a backslash left over, which then is not shown itself.
  have hrest : shownLength ((if slashes.length % 2 = 1 then .plain ('[' :: tag ++ [']'])
      else .tag tag) :: piecesFrom [] fuel after)
      < slashes.length % 2 + tag.length + 2 + after.length := by
    split
    · rename_i hodd
      simp only [shownLength, hodd, List.length_append, List.length_cons, List.length_nil]
      omega
    · rw [shownLength]
      omega
  rw [shownLength_append, shownLength_append, hslashes]
  simp only [List.length_append, List.length_cons]
  omega

/-- No character is shown that is not there; and if as many are shown, there is no tag, and no
backslash is left out. The induction is on the fuel, which bounds the text that is left. -/
theorem shownLength_piecesFrom (before : List Char) (fuel : Nat) (cs : List Char) :
    shownLength (piecesFrom before fuel cs) ≤ before.length + cs.length ∧
    (cs.length < fuel → shownLength (piecesFrom before fuel cs) = before.length + cs.length →
      HasNoTag cs ∧ HasNoEscape (before ++ cs)) := by
  induction fuel generalizing before cs with
  | zero =>
    refine ⟨?_, fun h => absurd h (Nat.not_lt_zero _)⟩
    rw [piecesFrom, shownLength_plainPiece, ← List.length_append]
    exact length_unescape_le _
  | succ fuel ih =>
    cases cs with
    | nil =>
      rw [piecesFrom, shownLength_plainPiece, List.append_nil]
      refine ⟨length_unescape_le before, fun _ h => ⟨?_, hasNoEscape_of_length h⟩⟩
      intro front after hcs
      rw [(List.append_eq_nil_iff.mp hcs.symm).2]
      rfl
    | cons c cs =>
      have hsplit := List.takeWhile_append_dropWhile (p := (· = '\\')) (l := c :: cs)
      have hslash : ∀ d ∈ (c :: cs).takeWhile (· = '\\'), d = '\\' := fun d hd => by
        simpa using List.mem_takeWhile_imp hd
      simp only [piecesFrom, drop_length_takeWhile]
      revert hsplit hslash
      generalize (c :: cs).takeWhile (· = '\\') = slashes, (c :: cs).dropWhile (· = '\\') = rest
      intro hsplit hslash
      have hlength := congrArg List.length hsplit
      rw [List.length_append] at hlength
      cases htag : tagAt? rest with
      | some t =>
        -- The characters of a tag are not shown, so fewer are shown than are there.
        obtain ⟨tag, after⟩ := t
        rw [(tagAt?_eq_some htag).1] at hsplit
        have hafter : shownLength (piecesFrom [] fuel after) ≤ after.length := by
          simpa using (ih [] after).1
        have hlt := shownLength_tag_lt before slashes tag hafter
        rw [hsplit] at hlt
        exact ⟨Nat.le_of_lt hlt, fun _ h => absurd h (Nat.ne_of_lt hlt)⟩
      | none =>
        dsimp only
        -- What has been passed goes to `before`: one character, or all the backslashes at once.
        cases slashes with
        | nil =>
          rw [List.nil_append] at hsplit
          subst hsplit
          obtain ⟨hle, heq⟩ := ih (before ++ [c]) cs
          rw [List.length_append, List.length_singleton, Nat.add_right_comm] at hle heq
          rw [List.append_assoc, List.singleton_append] at heq
          refine ⟨hle, fun hfuel h => ?_⟩
          obtain ⟨hcs, hescape⟩ := heq (Nat.lt_of_succ_lt_succ hfuel) h
          exact ⟨hasNoTag_cons.mpr ⟨htag, hcs⟩, hescape⟩
        | cons d slashes =>
          obtain ⟨hle, heq⟩ := ih (before ++ d :: slashes) rest
          rw [List.append_assoc, hsplit, List.length_append, Nat.add_assoc, hlength] at heq
          rw [List.length_append, Nat.add_assoc, hlength] at hle
          refine ⟨hle, fun hfuel h => ?_⟩
          rw [List.length_cons] at hlength hfuel
          obtain ⟨hrest, hescape⟩ := heq (by rw [List.length_cons] at hlength; omega) h
          exact ⟨hsplit ▸ (hasNoTag_backslashes hslash).mpr hrest, hescape⟩

/-- A text without tags is one plain piece. -/
theorem piecesFrom_of_hasNoTag (before : List Char) (fuel : Nat) {cs : List Char}
    (h : HasNoTag cs) : piecesFrom before fuel cs = plainPiece (before ++ cs) := by
  induction fuel generalizing before cs with
  | zero => rfl
  | succ fuel ih =>
    cases cs with
    | nil => rw [piecesFrom, List.append_nil]
    | cons c cs =>
      have hsplit := List.takeWhile_append_dropWhile (p := (· = '\\')) (l := c :: cs)
      simp only [piecesFrom, drop_length_takeWhile]
      have hrest : HasNoTag ((c :: cs).dropWhile (· = '\\')) := fun front after hcs =>
        h ((c :: cs).takeWhile (· = '\\') ++ front) after (by rw [List.append_assoc, ← hcs, hsplit])
      have hhead : tagAt? ((c :: cs).dropWhile (· = '\\')) = none :=
        hrest [] _ (List.nil_append _).symm
      rw [hhead]
      dsimp only
      split
      · rw [ih _ (hasNoTag_cons.mp h).2, List.append_assoc, List.singleton_append]
      · rw [ih _ hrest, List.append_assoc, hsplit]

/-! ### Texts that are shown as they are -/

/-- A text that holds nothing with a meaning of its own. -/
structure IsUnmarked (cs : List Char) : Prop where
  /-- No tag starts anywhere. -/
  noTag : HasNoTag cs
  /-- No backslash stands before a bracket. -/
  noEscape : HasNoEscape cs
  /-- No character is left out. -/
  noDropped : ∀ c ∈ cs, isDropped c = false

/-- A text is shown character for character exactly if it is unmarked. -/
theorem plainOf?_eq_iff {text : String} :
    plainOf? text = some text.toList ↔ IsUnmarked text.toList := by
  unfold plainOf? piecesOf
  generalize text.toList = cs
  rw [Option.map_eq_some_iff]
  constructor
  · rintro ⟨shown, hshown, hcs⟩
    have hlength := length_of_shownFrom? hshown
    obtain ⟨hle, heq⟩ := shownLength_piecesFrom [] (cs.length + 1) cs
    rw [← hlength, List.length_nil, Nat.zero_add] at hle heq
    have hfilter : (shown.filter (!isDropped ·)).length ≤ shown.length := List.length_filter_le _ _
    rw [hcs] at hfilter
    obtain ⟨hnoTag, hnoEscape⟩ := heq (Nat.lt_succ_self _) (Nat.le_antisymm hle hfilter)
    refine ⟨hnoTag, hnoEscape, fun c hc => ?_⟩
    rw [← hcs] at hc
    simpa using (List.mem_filter.mp hc).2
  · rintro ⟨hnoTag, hnoEscape, hnoDropped⟩
    refine ⟨cs, ?_, List.filter_eq_self.mpr fun c hc => by simp [hnoDropped c hc]⟩
    rw [piecesFrom_of_hasNoTag [] _ hnoTag, List.nil_append, plainPiece]
    split
    · rename_i hempty
      rw [List.isEmpty_iff.mp hempty]
      rfl
    · simp [shownFrom?, unescape_of_hasNoEscape hnoEscape]

end PipelineManifest.Table
