import Mathlib.Data.List.Forall2
import PipelineManifest.Glob

/-!
# `PipelineManifest.Proofs.Glob`: the texts that a pattern stands for

A pattern is read as a list of tokens, one after the other, and stands for the texts that can be cut
into one part for each token: any part for a star, one character for a question mark, one character
in or outside a set for a class, and the character itself for everything else. What tokens there are
is said here by a relation on patterns, without fuel and without joining stars.

A class is read as its body says, with one exception: empty ranges in front of an exclamation mark
are gone before the mark is looked for, so that it negates the class.

* `InSet`, `InClass`: the characters of a class as its body says.
* `HidesMark`, `Holds`: the classes that are read in another way, and the characters that they hold.
* `Token`, `Reads`: the tokens of a pattern.
* `Spells`, `Denotes`: the texts that tokens and patterns stand for.
* `accepts_iff`: a text is accepted if the pattern stands for it.
* `accepts_iff_of_showsMarks`: where no class hides a mark, classes are what their bodies say.
* `accepts_iff_of_isPlain`: a pattern without wildcards stands for itself.
-/

set_option autoImplicit false

namespace PipelineManifest.Glob

/-! ### Classes -/

/-- Whether a character is among those that are listed. A hyphen between two characters stands for
all characters from the one to the other. -/
def InSet : List Char → Char → Prop
  | a :: '-' :: b :: ks, c => a ≤ c ∧ c ≤ b ∨ InSet ks c
  | a :: ks, c => c = a ∨ InSet ks c
  | [], _ => False

/-- Whether a character is in the class with this text between its brackets. An exclamation mark in
front stands for all characters but those that are listed. -/
def InClass : List Char → Char → Prop
  | '!' :: ks, c => ¬InSet ks c
  | ks, c => InSet ks c

/-- Whether nothing but empty ranges keeps an exclamation mark from standing in front. -/
def HidesMark (body : List Char) : Prop :=
  body.head? ≠ some '!' ∧ (dropEmptyRanges body).head? = some '!'

/-- Whether a character is among those that are listed behind a hidden mark. If the mark is the
start of a range, the hyphen and the end of the range stand for themselves. -/
def InRest : List Char → Char → Prop
  | '-' :: b :: ks, c => c = '-' ∨ c = b ∨ InSet ks c
  | ks, c => InSet ks c

/-- Whether a class holds a character. A hidden mark negates the class, too. -/
def Holds (body : List Char) (c : Char) : Prop :=
  (HidesMark body → ¬InRest (dropEmptyRanges body).tail c) ∧ (¬HidesMark body → InClass body c)

theorem Range.holds_iff {r : Range} {c : Char} : r.holds c = true ↔ r.first ≤ c ∧ c ≤ r.last := by
  rw [Range.holds, Bool.and_eq_true, decide_eq_true_iff, decide_eq_true_iff]

theorem Range.holds_single_iff {a c : Char} : (Range.single a).holds c = true ↔ c = a := by
  rw [Range.holds_iff]
  constructor
  · rintro ⟨hle, hge⟩
    exact Char.le_antisymm hge hle
  · rintro rfl
    exact ⟨Char.le_refl _, Char.le_refl _⟩

theorem any_parseRanges_iff {ks : List Char} {c : Char} :
    (parseRanges ks).any (·.holds c) = true ↔ InSet ks c := by
  induction ks using parseRanges.induct with
  | case1 a b ks ih => rw [parseRanges, InSet, List.any_cons, Bool.or_eq_true, Range.holds_iff, ih]
  | case2 a ks hrange ih =>
    rw [parseRanges, InSet, List.any_cons, Bool.or_eq_true, Range.holds_single_iff, ih]
    · exact hrange
    · exact hrange
  | case3 => simp [parseRanges, InSet]

/-- Empty ranges list nothing. -/
theorem inSet_dropEmptyRanges_iff {ks : List Char} {c : Char} :
    InSet (dropEmptyRanges ks) c ↔ InSet ks c := by
  induction ks using dropEmptyRanges.induct with
  | case1 a b ks hle => rw [dropEmptyRanges, if_pos hle]
  | case2 a b ks hle ih =>
    have hempty : ¬(a ≤ c ∧ c ≤ b) := fun h => hle (Char.le_trans h.1 h.2)
    rw [dropEmptyRanges, if_neg hle, ih, InSet, or_iff_right hempty]
  | case3 ks hrange =>
    rw [dropEmptyRanges]
    exact hrange

theorem CharClass.holds_negated_iff {rs : List Range} {c : Char} :
    (CharClass.mk true rs).holds c = true ↔ ¬rs.any (·.holds c) = true := by
  rw [holds, Bool.true_bne, Bool.not_eq_true', Bool.not_eq_true]

theorem CharClass.holds_listed_iff {rs : List Range} {c : Char} :
    (CharClass.mk false rs).holds c = true ↔ rs.any (·.holds c) = true := by
  rw [holds, Bool.false_bne]

/-- A class holds what its body says, but for a hidden mark. -/
theorem holds_parseClass_iff {body : List Char} {c : Char} :
    (parseClass body).holds c = true ↔ Holds body c := by
  unfold parseClass
  split
  · rename_i ks
    have hmark : ¬HidesMark ('!' :: ks) := fun h => h.1 rfl
    rw [CharClass.holds_negated_iff, any_parseRanges_iff]
    simp [Holds, hmark, InClass]
  · rename_i hbody
    have hhead : body.head? ≠ some '!' := fun h => by
      obtain ⟨ks, rfl⟩ := List.head?_eq_some_iff.mp h
      exact hbody ks rfl
    have hclass : InClass body c ↔ InSet (dropEmptyRanges body) c := by
      rw [inSet_dropEmptyRanges_iff]
      unfold InClass
      split
      · exact absurd rfl (hbody _)
      · exact Iff.rfl
    -- The rest of the body starts with a mark and a range, with a mark, or with something else.
    rw [Holds, hclass, HidesMark]
    generalize dropEmptyRanges body = rest
    unfold classOf
    split
    · rw [CharClass.holds_negated_iff, List.any_cons, List.any_cons, Bool.or_eq_true,
        Bool.or_eq_true, Range.holds_single_iff, Range.holds_single_iff, any_parseRanges_iff]
      simp [InRest, hhead]
    · rename_i ks hks
      have hrest : InRest ks c ↔ InSet ks c := by
        unfold InRest
        split
        · exact absurd rfl (hks _ _)
        · exact Iff.rfl
      rw [CharClass.holds_negated_iff, any_parseRanges_iff]
      simp [hrest, hhead]
    · rename_i hrest
      have hmark : rest.head? ≠ some '!' := fun h => by
        obtain ⟨ks, rfl⟩ := List.head?_eq_some_iff.mp h
        exact hrest ks rfl
      rw [CharClass.holds_listed_iff, any_parseRanges_iff]
      simp [hmark]

/-- Only a hidden mark changes what a class holds. -/
theorem holds_iff_inClass {body : List Char} {c : Char} (h : ¬HidesMark body) :
    Holds body c ↔ InClass body c := by
  rw [Holds]
  exact ⟨fun hc => hc.2 h, fun hc => ⟨fun hmark => absurd hmark h, fun _ => hc⟩⟩

/-! ### Tokens -/

/-- A token of a pattern. A class is the text between its brackets. -/
inductive Token where
  | anyText
  | anyChar
  | oneOf (body : List Char)
  | literal (c : Char)

/-- Whether a text can stand between the brackets of a class: its first character, after an
exclamation mark too, may be a closing bracket, and no other one may. -/
inductive IsBody : List Char → Prop
  | listed {c : Char} {ks : List Char} (hc : c ≠ '!') (hks : ']' ∉ ks) : IsBody (c :: ks)
  | negated {c : Char} {ks : List Char} (hks : ']' ∉ ks) : IsBody ('!' :: c :: ks)

/-- The tokens of a pattern. A bracket that is not closed is a character like any other. -/
inductive Reads : List Char → List Token → Prop
  | nil : Reads [] []
  | anyText {cs : List Char} {ts : List Token} (h : Reads cs ts) :
      Reads ('*' :: cs) (.anyText :: ts)
  | anyChar {cs : List Char} {ts : List Token} (h : Reads cs ts) :
      Reads ('?' :: cs) (.anyChar :: ts)
  | oneOf {body cs : List Char} {ts : List Token} (hbody : IsBody body) (h : Reads cs ts) :
    Reads ('[' :: (body ++ ']' :: cs)) (.oneOf body :: ts)
  | bracket {cs : List Char} {ts : List Token}
    (hopen : ∀ body rest, cs = body ++ ']' :: rest → ¬IsBody body) (h : Reads cs ts) :
    Reads ('[' :: cs) (.literal '[' :: ts)
  | literal {c : Char} {cs : List Char} {ts : List Token} (hc : c ∉ ['*', '?', '['])
      (h : Reads cs ts) :
    Reads (c :: cs) (.literal c :: ts)

/-- Whether a part of a text fits a token; `R` says which characters a class holds. -/
def Token.Fits (R : List Char → Char → Prop) : Token → List Char → Prop
  | .anyText, _ => True
  | .anyChar, part => ∃ c, part = [c]
  | .oneOf body, part => ∃ c, part = [c] ∧ R body c
  | .literal d, part => part = [d]

/-- Whether a text can be cut into parts that fit some tokens, one for each. -/
def Spells (R : List Char → Char → Prop) (ts : List Token) (cs : List Char) : Prop :=
  ∃ parts, List.Forall₂ (Token.Fits R) ts parts ∧ cs = parts.flatten

/-- Whether a pattern stands for a text. -/
def Denotes (R : List Char → Char → Prop) (pattern text : String) : Prop :=
  ∃ ts, Reads pattern.toList ts ∧ Spells R ts text.toList

section Spells

variable {R : List Char → Char → Prop} {ts : List Token} {cs : List Char}

theorem spells_nil_iff : Spells R [] cs ↔ cs = [] := by
  constructor
  · rintro ⟨parts, hparts, rfl⟩
    rw [List.forall₂_nil_left_iff.mp hparts, List.flatten_nil]
  · rintro rfl
    exact ⟨[], .nil, rfl⟩

theorem spells_cons_iff {t : Token} :
    Spells R (t :: ts) cs ↔ ∃ part rest, cs = part ++ rest ∧ t.Fits R part ∧ Spells R ts rest := by
  constructor
  · rintro ⟨parts, hparts, rfl⟩
    obtain ⟨part, parts, hpart, hrest, rfl⟩ := List.forall₂_cons_left_iff.mp hparts
    exact ⟨part, parts.flatten, rfl, hpart, parts, hrest, rfl⟩
  · rintro ⟨part, _, rfl, hpart, parts, hparts, rfl⟩
    exact ⟨part :: parts, .cons hpart hparts, rfl⟩

/-- Tokens for single characters go through a text character by character. -/
theorem spells_cons_iff_of_single {t : Token} {P : Char → Prop}
    (h : ∀ part, t.Fits R part ↔ ∃ c, part = [c] ∧ P c) :
    Spells R (t :: ts) cs ↔ ∃ c rest, cs = c :: rest ∧ P c ∧ Spells R ts rest := by
  rw [spells_cons_iff]
  constructor
  · rintro ⟨part, rest, rfl, hpart, hrest⟩
    obtain ⟨c, rfl, hc⟩ := (h part).mp hpart
    exact ⟨c, rest, rfl, hc, hrest⟩
  · rintro ⟨c, rest, rfl, hc, hrest⟩
    exact ⟨[c], rest, rfl, (h [c]).mpr ⟨c, rfl, hc⟩, hrest⟩

/-- Where two readings of classes agree on the classes of some tokens, these spell the same. -/
theorem spells_congr {S : List Char → Char → Prop}
    (h : ∀ body, .oneOf body ∈ ts → ∀ c, R body c ↔ S body c) :
    Spells R ts cs ↔ Spells S ts cs := by
  induction ts generalizing cs with
  | nil => rw [spells_nil_iff, spells_nil_iff]
  | cons t ts ih =>
    have hrest (rest : List Char) : Spells R ts rest ↔ Spells S ts rest :=
      ih fun body hbody => h body (by simp [hbody])
    have hfits (part : List Char) : t.Fits R part ↔ t.Fits S part := by
      cases t with
      | oneOf body =>
        simp only [Token.Fits, h body List.mem_cons_self]
      | _ => exact Iff.rfl
    simp only [spells_cons_iff, hfits, hrest]

end Spells

/-! ### Pieces and tokens -/

/-- The piece that a token is read as. -/
def Token.piece : Token → Piece
  | .anyText => .anyText
  | .anyChar => .anyChar
  | .oneOf body => .oneOf (parseClass body)
  | .literal c => .literal c

theorem mem_rests_iff {cs rest : List Char} : rest ∈ rests cs ↔ rest <:+ cs := by
  induction cs with
  | nil => rw [rests, List.mem_singleton, List.suffix_nil]
  | cons c cs ih => rw [rests, List.mem_cons, ih, List.suffix_cons_iff]

theorem matchesPieces_anyText_iff {ps : List Piece} {cs : List Char} :
    matchesPieces (.anyText :: ps) cs = true ↔
      ∃ rest, rest <:+ cs ∧ matchesPieces ps rest = true := by
  rw [matchesPieces, List.any_eq_true]
  simp only [mem_rests_iff]

/-- The pieces of tokens match what the tokens spell. -/
theorem matchesPieces_map_iff {ts : List Token} {cs : List Char} :
    matchesPieces (ts.map Token.piece) cs = true ↔ Spells Holds ts cs := by
  induction ts generalizing cs with
  | nil => rw [List.map_nil, matchesPieces, List.isEmpty_iff, spells_nil_iff]
  | cons t ts ih =>
    rw [List.map_cons]
    cases t with
    | anyText =>
      -- The part of the star and the rest behind it determine each other.
      rw [Token.piece, matchesPieces_anyText_iff, spells_cons_iff]
      simp only [ih, Token.Fits, true_and]
      constructor
      · rintro ⟨rest, ⟨part, rfl⟩, hrest⟩
        exact ⟨part, rest, rfl, hrest⟩
      · rintro ⟨part, rest, rfl, hrest⟩
        exact ⟨rest, ⟨part, rfl⟩, hrest⟩
    | anyChar =>
      rw [spells_cons_iff_of_single (P := fun _ => True) (by simp [Token.Fits])]
      cases cs <;> simp [Token.piece, matchesPieces, ih]
    | oneOf body =>
      rw [spells_cons_iff_of_single (P := Holds body) (fun _ => Iff.rfl)]
      cases cs <;> simp [Token.piece, matchesPieces, ih, holds_parseClass_iff]
    | literal d =>
      rw [spells_cons_iff_of_single (P := (· = d)) (by simp [Token.Fits])]
      cases cs <;> simp [Token.piece, matchesPieces, ih]

/-! ### The closing bracket of a class -/

theorem close?_eq_some_iff {cs ks rest : List Char} :
    splitClass?.close? cs = some (ks, rest) ↔ cs = ks ++ ']' :: rest ∧ ']' ∉ ks := by
  induction cs generalizing ks with
  | nil => simp [splitClass?.close?]
  | cons c cs ih =>
    rw [splitClass?.close?]
    by_cases hc : c = ']'
    · subst hc
      rw [if_pos rfl, Option.some.injEq, Prod.mk.injEq]
      constructor
      · rintro ⟨rfl, rfl⟩
        exact ⟨rfl, List.not_mem_nil⟩
      · rintro ⟨hcs, hks⟩
        cases ks with
        | nil => exact ⟨rfl, (List.cons.inj hcs).2⟩
        | cons k ks => exact absurd ((List.cons.inj hcs).1 ▸ List.mem_cons_self) hks
    · rw [if_neg hc, Option.map_eq_some_iff]
      constructor
      · rintro ⟨⟨tail, rest⟩, htail, h⟩
        cases h
        obtain ⟨rfl, hmem⟩ := ih.mp htail
        refine ⟨rfl, fun h => ?_⟩
        rcases List.mem_cons.mp h with h | h
        · exact hc h.symm
        · exact hmem h
      · rintro ⟨hcs, hks⟩
        cases ks with
        | nil => exact absurd (List.cons.inj hcs).1 hc
        | cons k ks =>
          obtain ⟨rfl, rfl⟩ := List.cons.inj hcs
          exact ⟨(ks, rest), ih.mpr ⟨rfl, fun h => hks (List.mem_cons_of_mem _ h)⟩, rfl⟩

theorem splitClass?_append {body rest : List Char} (h : IsBody body) :
    splitClass? (body ++ ']' :: rest) = some (body, rest) := by
  cases h with
  | @listed c ks hc hks | @negated c ks hks =>
    have hclose : splitClass?.close? (ks ++ ']' :: rest) = some (ks, rest) :=
      close?_eq_some_iff.mpr ⟨rfl, hks⟩
    simp_all [splitClass?]

/-- What follows an opening bracket is split behind the body of a class. -/
theorem splitClass?_eq_some_iff {cs body rest : List Char} :
    splitClass? cs = some (body, rest) ↔ cs = body ++ ']' :: rest ∧ IsBody body := by
  constructor
  · intro h
    unfold splitClass? at h
    split at h
    · obtain ⟨⟨ks, rest⟩, hks, h⟩ := Option.map_eq_some_iff.mp h
      cases h
      obtain ⟨rfl, hmem⟩ := close?_eq_some_iff.mp hks
      exact ⟨rfl, .negated hmem⟩
    · rw [Option.ite_none_left_eq_some] at h
      obtain ⟨hc, h⟩ := h
      obtain ⟨⟨ks, rest⟩, hks, h⟩ := Option.map_eq_some_iff.mp h
      cases h
      obtain ⟨rfl, hmem⟩ := close?_eq_some_iff.mp hks
      exact ⟨rfl, .listed hc hmem⟩
    · cases h
  · rintro ⟨rfl, hbody⟩
    exact splitClass?_append hbody

/-! ### Reading a pattern -/

theorem length_dropWhile_le (cs : List Char) (p : Char → Bool) :
    (cs.dropWhile p).length ≤ cs.length :=
  (List.dropWhile_sublist p).length_le

theorem length_lt_of_splitClass? {cs body rest : List Char}
    (h : splitClass? cs = some (body, rest)) :
    rest.length < cs.length := by
  obtain ⟨rfl, -⟩ := splitClass?_eq_some_iff.mp h
  simp only [List.length_append, List.length_cons]
  omega

/-- Any fuel that is enough gives the same pieces. -/
theorem parseFrom_eq {fuel fuel' : Nat} {cs : List Char} (h : cs.length ≤ fuel)
    (h' : cs.length ≤ fuel') : parseFrom fuel cs = parseFrom fuel' cs := by
  -- A unit of fuel is spent on every piece, and a piece takes one character or more.
  induction fuel generalizing fuel' cs with
  | zero =>
    rw [List.length_eq_zero_iff.mp (Nat.le_zero.mp h)]
    cases fuel' <;> rfl
  | succ fuel ih =>
    cases cs with
    | nil => cases fuel' <;> rfl
    | cons c cs =>
      cases fuel' with
      | zero => cases h'
      | succ fuel' =>
        rw [List.length_cons, Nat.add_le_add_iff_right] at h h'
        have hstars := length_dropWhile_le cs (· = '*')
        rw [parseFrom, parseFrom, ih h h', ih (Nat.le_trans hstars h) (Nat.le_trans hstars h')]
        split
        · rfl
        · split
          · rfl
          · split
            · split
              · rename_i hsplit
                have hlt := length_lt_of_splitClass? hsplit
                rw [ih (Nat.le_trans (Nat.le_of_lt hlt) h) (Nat.le_trans (Nat.le_of_lt hlt) h')]
              · rfl
            · rfl

/-- The pieces of a pattern, given by its characters. -/
def pieces (cs : List Char) : List Piece := parseFrom cs.length cs

theorem pieces_cons (c : Char) (cs : List Char) :
    pieces (c :: cs) =
      if c = '*' then .anyText :: pieces (cs.dropWhile (· = '*'))
      else if c = '?' then .anyChar :: pieces cs
      else if c = '[' then
        match splitClass? cs with
        | some (body, rest) => .oneOf (parseClass body) :: pieces rest
        | none => .literal '[' :: pieces cs
      else .literal c :: pieces cs := by
  rw [pieces, List.length_cons, parseFrom, pieces,
    parseFrom_eq (length_dropWhile_le cs _) (Nat.le_refl _)]
  cases hsplit : splitClass? cs with
  | none => rfl
  | some split =>
    have hlt := length_lt_of_splitClass? hsplit
    simp only [pieces, parseFrom_eq (Nat.le_of_lt hlt) (Nat.le_refl _)]

/-- A star behind a star matches nothing more. -/
theorem matchesPieces_anyText_anyText (ps : List Piece) (cs : List Char) :
    matchesPieces (.anyText :: .anyText :: ps) cs = matchesPieces (.anyText :: ps) cs := by
  rw [Bool.eq_iff_iff, matchesPieces_anyText_iff]
  simp only [matchesPieces_anyText_iff]
  constructor
  · rintro ⟨rest, hrest, rest', hrest', hmatch⟩
    exact ⟨rest', hrest'.trans hrest, hmatch⟩
  · rintro ⟨rest, hrest, hmatch⟩
    exact ⟨cs, List.suffix_refl cs, rest, hrest, hmatch⟩

theorem matchesPieces_dropStars (cs text : List Char) :
    matchesPieces (.anyText :: pieces (cs.dropWhile (· = '*'))) text
      = matchesPieces (.anyText :: pieces cs) text := by
  cases cs with
  | nil => rfl
  | cons c cs =>
    by_cases hc : c = '*'
    · subst hc
      rw [List.dropWhile_cons_of_pos (by simp), pieces_cons, if_pos rfl,
        matchesPieces_anyText_anyText]
    · rw [List.dropWhile_cons_of_neg (by simpa using hc)]

/-- Only what the pieces behind the first one match counts. -/
theorem matchesPieces_cons_congr {p : Piece} {ps qs : List Piece}
    (h : ∀ text, matchesPieces ps text = matchesPieces qs text) (text : List Char) :
    matchesPieces (p :: ps) text = matchesPieces (p :: qs) text := by
  cases p with
  | anyText => rw [matchesPieces, matchesPieces, funext h]
  | anyChar | oneOf | literal =>
    cases text with
    | nil => rfl
    | cons c text => simp only [matchesPieces, h]

/-- The pieces of a pattern match what its tokens match. -/
theorem matchesPieces_of_reads {cs : List Char} {ts : List Token} (h : Reads cs ts)
    (text : List Char) :
    matchesPieces (pieces cs) text = matchesPieces (ts.map Token.piece) text := by
  induction h generalizing text with
  | nil => rfl
  | anyText _ ih =>
    rw [pieces_cons, if_pos rfl, matchesPieces_dropStars]
    exact matchesPieces_cons_congr ih text
  | anyChar _ ih =>
    rw [pieces_cons, if_neg (by decide), if_pos rfl]
    exact matchesPieces_cons_congr ih text
  | oneOf hbody _ ih =>
    rw [pieces_cons, if_neg (by decide), if_neg (by decide), if_pos rfl, splitClass?_append hbody]
    exact matchesPieces_cons_congr ih text
  | @bracket cs ts hopen _ ih =>
    have hsplit : splitClass? cs = none := by
      rw [Option.eq_none_iff_forall_ne_some]
      rintro ⟨body, rest⟩ hsome
      obtain ⟨hcs, hbody⟩ := splitClass?_eq_some_iff.mp hsome
      exact hopen body rest hcs hbody
    -- No class is split off, so the bracket is a character.
    rw [pieces_cons, if_neg (by decide), if_neg (by decide), if_pos rfl, hsplit]
    exact matchesPieces_cons_congr ih text
  | literal hc _ ih =>
    simp only [List.mem_cons, List.not_mem_nil, or_false, not_or] at hc
    rw [pieces_cons, if_neg hc.1, if_neg hc.2.1, if_neg hc.2.2]
    exact matchesPieces_cons_congr ih text

/-- Every pattern has tokens. -/
theorem exists_reads (cs : List Char) : ∃ ts, Reads cs ts := by
  induction hn : cs.length using Nat.strongRecOn generalizing cs with
  | ind n ih =>
    subst hn
    cases cs with
    | nil => exact ⟨[], .nil⟩
    | cons c cs =>
      obtain ⟨ts, hts⟩ := ih cs.length (Nat.lt_succ_self _) cs rfl
      by_cases hbracket : c = '['
      · subst hbracket
        cases hsplit : splitClass? cs with
        | none =>
          refine ⟨_, .bracket (fun body rest hcs hbody => ?_) hts⟩
          rw [splitClass?_eq_some_iff.mpr ⟨hcs, hbody⟩] at hsplit
          cases hsplit
        | some split =>
          obtain ⟨body, rest⟩ := split
          have hlt := length_lt_of_splitClass? hsplit
          obtain ⟨rfl, hbody⟩ := splitClass?_eq_some_iff.mp hsplit
          obtain ⟨us, hus⟩ := ih rest.length (Nat.lt_succ_of_lt hlt) rest rfl
          exact ⟨_, .oneOf hbody hus⟩
      · by_cases hstar : c = '*'
        · subst hstar
          exact ⟨_, .anyText hts⟩
        · by_cases hmark : c = '?'
          · subst hmark
            exact ⟨_, .anyChar hts⟩
          · exact ⟨_, .literal (by simp [hbracket, hstar, hmark]) hts⟩

/-! ### What patterns stand for -/

section Pattern

variable {pattern text : String}

theorem accepts_iff_spells {ts : List Token} (h : Reads pattern.toList ts) :
    accepts pattern text = true ↔ Spells Holds ts text.toList := by
  rw [accepts, parse, ← pieces, matchesPieces_of_reads h, matchesPieces_map_iff]

/-- A pattern accepts the texts that it stands for, with classes as they are read. -/
theorem accepts_iff : accepts pattern text = true ↔ Denotes Holds pattern text := by
  constructor
  · intro h
    obtain ⟨ts, hts⟩ := exists_reads pattern.toList
    exact ⟨ts, hts, (accepts_iff_spells hts).mp h⟩
  · rintro ⟨ts, hts, h⟩
    exact (accepts_iff_spells hts).mpr h

/-- Whether every class of a pattern is what its body says. -/
def ShowsMarks (pattern : String) : Prop :=
  ∀ ts body, Reads pattern.toList ts → .oneOf body ∈ ts → ¬HidesMark body

/-- Where no class hides a mark, classes are what their bodies say. -/
theorem accepts_iff_of_showsMarks (h : ShowsMarks pattern) :
    accepts pattern text = true ↔ Denotes InClass pattern text := by
  rw [accepts_iff]
  refine exists_congr fun ts => and_congr_right fun hts => ?_
  exact spells_congr fun body hbody c => holds_iff_inClass (h ts body hts hbody)

/-- Whether a pattern has no wildcard. -/
def IsPlain (pattern : String) : Prop := ∀ c ∈ pattern.toList, c ∉ ['*', '?', '[']

theorem spells_map_literal_iff {R : List Char → Char → Prop} {ds cs : List Char} :
    Spells R (ds.map .literal) cs ↔ cs = ds := by
  induction ds generalizing cs with
  | nil => rw [List.map_nil, spells_nil_iff]
  | cons d ds ih =>
    rw [List.map_cons, spells_cons_iff]
    simp only [ih, Token.Fits]
    constructor
    · rintro ⟨_, _, rfl, rfl, rfl⟩
      rfl
    · rintro rfl
      exact ⟨[d], ds, rfl, rfl, rfl⟩

theorem reads_map_literal {cs : List Char} (h : ∀ c ∈ cs, c ∉ ['*', '?', '[']) :
    Reads cs (cs.map .literal) := by
  induction cs with
  | nil => exact .nil
  | cons c cs ih =>
    obtain ⟨hc, hcs⟩ := List.forall_mem_cons.mp h
    exact .literal hc (ih hcs)

/-- A pattern without wildcards stands for itself. -/
theorem accepts_iff_of_isPlain (h : IsPlain pattern) :
    accepts pattern text = true ↔ text = pattern := by
  rw [accepts_iff_spells (reads_map_literal h), spells_map_literal_iff, String.toList_inj]

end Pattern

end PipelineManifest.Glob
