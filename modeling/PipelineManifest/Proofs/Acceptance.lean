import PipelineManifest.Proofs.Condition
import PipelineManifest.Proofs.Glob

/-!
# `PipelineManifest.Proofs.Acceptance`: what conditions accept

A condition admits a text for which no excluded pattern stands and, if any are included, one of
those. That says nothing about the order of its entries. The conditions of a run go through its
arguments in order and stop at the first that decides, which is one with an unknown name or one that
its condition rejects. Where all names are known the order does not matter: all arguments have to
pass.

* `Condition.Admits`: what a condition admits, by what its patterns stand for.
* `Condition.accepts_iff_denotes`: a condition accepts what it admits.
* `Conditions.IsKnown`, `Conditions.Rejects`: the arguments that decide.
* `Conditions.Runs`: the outcome of a run, argument by argument.
* `Conditions.Runs.eq_error_iff`, `Conditions.Runs.eq_ok_false_iff`,
  `Conditions.Runs.eq_ok_true_iff`: the three outcomes.
* `Conditions.accepts_exact`: these outcomes, and what they do not depend on.
-/

set_option autoImplicit false

namespace PipelineManifest

/-! ### One condition -/

namespace Condition

variable {c c' : Condition} {text : String}

/-- Whether a condition admits a text; `D` says which patterns stand for the text. -/
def Admits (c : Condition) (D : String → Prop) : Prop :=
  (∀ p ∈ c.excluded, ¬D p) ∧ (c.included ≠ [] → ∃ p ∈ c.included, D p)

/-- All patterns of a condition. -/
def patterns (c : Condition) : List String := c.included ++ c.excluded

/-- A condition accepts what it admits, where its patterns stand for what they accept. -/
theorem accepts_iff_admits {D : String → Prop}
    (h : ∀ p ∈ c.patterns, Glob.accepts p text = true ↔ D p) :
    c.accepts text = true ↔ c.Admits D := by
  have hexcluded : c.excluded.any (Glob.accepts · text) = true ↔ ∃ p ∈ c.excluded, D p := by
    rw [List.any_eq_true]
    exact exists_congr fun p => and_congr_right fun hp => h p (List.mem_append_right _ hp)
  have hincluded : c.included.any (Glob.accepts · text) = true ↔ ∃ p ∈ c.included, D p := by
    rw [List.any_eq_true]
    exact exists_congr fun p => and_congr_right fun hp => h p (List.mem_append_left _ hp)
  rw [accepts, Admits, ← hincluded]
  by_cases hout : c.excluded.any (Glob.accepts · text) = true
  · obtain ⟨p, hp, hd⟩ := hexcluded.mp hout
    rw [if_pos hout]
    exact iff_of_false (by decide) fun hadmits => hadmits.1 p hp hd
  · have hnone : ∀ p ∈ c.excluded, ¬D p := fun p hp hd => hout (hexcluded.mpr ⟨p, hp, hd⟩)
    rw [if_neg hout, and_iff_right hnone]
    cases c.included <;> simp

/-- Whether two conditions have the same entries, in whatever order and however often. -/
def SameEntries (c c' : Condition) : Prop :=
  (∀ p, p ∈ c.included ↔ p ∈ c'.included) ∧ ∀ p, p ∈ c.excluded ↔ p ∈ c'.excluded

variable {D : String → Prop}

theorem SameEntries.admits_iff (h : c.SameEntries c') : c.Admits D ↔ c'.Admits D := by
  have hempty : c.included = [] ↔ c'.included = [] := by
    rw [List.eq_nil_iff_forall_not_mem, List.eq_nil_iff_forall_not_mem]
    exact forall_congr' fun p => not_congr (h.1 p)
  simp only [Admits, h.1, h.2, ne_eq, hempty]

/-- With more patterns excluded no more is admitted. -/
theorem Admits.of_excluded_subset (h : c'.Admits D) (hincluded : c'.included = c.included)
    (hexcluded : c.excluded ⊆ c'.excluded) : c.Admits D :=
  ⟨fun p hp => h.1 p (hexcluded hp), hincluded ▸ h.2⟩

/-- With more patterns besides those that are included no less is admitted. -/
theorem Admits.of_included_subset (h : c.Admits D) (hexcluded : c'.excluded = c.excluded)
    (hne : c.included ≠ []) (hincluded : c.included ⊆ c'.included) : c'.Admits D := by
  obtain ⟨p, hp, hd⟩ := h.2 hne
  exact ⟨hexcluded ▸ h.1, fun _ => ⟨p, hincluded hp, hd⟩⟩

/-- A condition without wildcards is a list of texts to admit and one of texts not to admit. -/
theorem admits_eq_iff :
    c.Admits (text = ·) ↔ text ∉ c.excluded ∧ (c.included = [] ∨ text ∈ c.included) := by
  have hexcluded : (∀ p ∈ c.excluded, ¬text = p) ↔ text ∉ c.excluded :=
    ⟨fun h htext => h text htext rfl, fun h p hp heq => h (heq ▸ hp)⟩
  rw [Admits, hexcluded, ← or_iff_not_imp_left]
  simp

/-- A condition accepts the texts that it admits: those for which no excluded pattern stands and, if
any are included, one of those. A class in a pattern is what its body says unless it hides a mark.
The order of the entries does not matter, nor how often each is there. More excluded patterns accept
no more, and more included patterns besides others no less. A pattern without wildcards stands for
itself. -/
theorem accepts_iff_denotes (c : Condition) :
    (∀ text, c.accepts text = true ↔ c.Admits (Glob.Denotes Glob.Holds · text)) ∧
    ((∀ p ∈ c.patterns, Glob.ShowsMarks p) →
      ∀ text, c.accepts text = true ↔ c.Admits (Glob.Denotes Glob.InClass · text)) ∧
    (∀ c' : Condition, c.SameEntries c' → ∀ text, c'.accepts text = c.accepts text) ∧
    (∀ c' : Condition, c'.included = c.included → c.excluded ⊆ c'.excluded →
      ∀ text, c.accepts text = false → c'.accepts text = false) ∧
    (∀ c' : Condition, c'.excluded = c.excluded → c.included ≠ [] → c.included ⊆ c'.included →
      ∀ text, c.accepts text = true → c'.accepts text = true) ∧
    ((∀ p ∈ c.patterns, Glob.IsPlain p) → ∀ text, c.accepts text = true ↔
      text ∉ c.excluded ∧ (c.included = [] ∨ text ∈ c.included)) := by
  have hadmits (c : Condition) (text : String) :
      c.accepts text = true ↔ c.Admits (Glob.accepts · text = true) :=
    accepts_iff_admits fun _ _ => Iff.rfl
  refine ⟨?_, ?_, ?_, ?_, ?_, ?_⟩
  · intro text
    exact accepts_iff_admits fun _ _ => Glob.accepts_iff
  · intro h text
    exact accepts_iff_admits fun p hp => Glob.accepts_iff_of_showsMarks (h p hp)
  · intro c' h text
    rw [Bool.eq_iff_iff, hadmits, hadmits, h.admits_iff]
  · intro c' hincluded hexcluded text h
    rw [← Bool.not_eq_true, hadmits] at h ⊢
    exact fun hc' => h (hc'.of_excluded_subset hincluded hexcluded)
  · intro c' hexcluded hne hincluded text h
    rw [hadmits] at h ⊢
    exact h.of_included_subset hexcluded hne hincluded
  · intro h text
    rw [← admits_eq_iff]
    exact accepts_iff_admits fun p hp => Glob.accepts_iff_of_isPlain (h p hp)

/-- The class of an exclamation mark and a letter, behind a range that is empty. -/
def hiddenMark : Condition := { included := ["[b-a!x]"] }

/-- The letter is in the class, but the mark negates it once the empty range is gone. -/
theorem accepts_hiddenMark :
    hiddenMark.Admits (Glob.Denotes Glob.InClass · "x") ∧ hiddenMark.accepts "x" = false := by
  refine ⟨⟨by simp [hiddenMark], fun _ => ⟨"[b-a!x]", by simp [hiddenMark], ?_⟩⟩, by decide⟩
  have hbody : Glob.IsBody ['b', '-', 'a', '!', 'x'] := .listed (by decide) (by decide)
  refine ⟨_, .oneOf hbody .nil, [['x']], .cons ⟨'x', rfl, ?_⟩ .nil, rfl⟩
  simp [Glob.InClass, Glob.InSet]

/-- A condition without entries accepts everything. -/
theorem accepts_of_isEmpty (h : c.isEmpty = true) (text : String) : c.accepts text = true := by
  rw [Conditions.Condition.eq_of_isEmpty h]
  rfl

/-- Texts are looked at until one is accepted. -/
theorem acceptsOneOf_map_str (c : Condition) (texts : List String) :
    c.acceptsOneOf (texts.map .str) = .ok (texts.any c.accepts) := by
  induction texts with
  | nil => rfl
  | cons text texts ih =>
    rw [List.map_cons, acceptsOneOf, acceptsValue, Outcome.ok_bind, ih, List.any_cons]
    cases c.accepts text <;> rfl

theorem acceptsAny_map_str (c : Condition) (texts : List String) :
    c.acceptsAny (.seq (texts.map .str)) = .ok (c.isEmpty || texts.any c.accepts) := by
  have hitems : Value.items (texts.map .str) = texts.map .str := Schema.items_eq_map_str_iff.mpr rfl
  rw [acceptsAny, Value.elements, hitems, Outcome.ok_bind, acceptsOneOf_map_str]
  cases c.isEmpty <;> rfl

/-- Whether a condition rejects a value: a text or, unless it has no entries, all texts of a
list. -/
def RejectsValue (c : Condition) (v : Value) : Prop :=
  (∃ text, v = .str text ∧ c.accepts text = false) ∨
    ∃ texts : List String, v = .seq (texts.map .str) ∧ c.isEmpty = false ∧
      ∀ text ∈ texts, c.accepts text = false

theorem not_rejectsValue_null (c : Condition) : ¬c.RejectsValue .null := by
  rintro (⟨text, htext, -⟩ | ⟨texts, htexts, -⟩)
  · cases htext
  · cases htexts

theorem rejectsValue_str_iff : c.RejectsValue (.str text) ↔ c.accepts text = false := by
  constructor
  · rintro (⟨text', heq, hrejected⟩ | ⟨texts, heq, -⟩)
    · cases heq
      exact hrejected
    · cases heq
  · exact fun h => .inl ⟨text, rfl, h⟩

theorem rejectsValue_seq_iff {texts : List String} :
    c.RejectsValue (.seq (texts.map .str)) ↔ (c.isEmpty || texts.any c.accepts) = false := by
  simp only [Bool.or_eq_false_iff, List.any_eq_false, Bool.not_eq_true]
  constructor
  · rintro (⟨text, heq, -⟩ | ⟨texts', heq, hrejected⟩)
    · cases heq
    · rwa [List.map_injective_iff.mpr (fun _ _ => Value.str.inj) (Value.seq.inj heq)]
  · exact fun h => .inr ⟨texts, rfl, h⟩

end Condition

/-! ### The conditions of a run -/

namespace Conditions

/-- The name and the value of an argument. -/
abbrev Argument := String × Value

/-- The values that arguments have: nothing or a text, and for paths a list of texts, too. -/
def IsArgument (a : Argument) : Prop :=
  a.2 = .null ∨ a.2.IsText ∨ a.1 = Subject.paths.name ∧ a.2.IsTexts

/-- Whether there is a condition with the name of an argument. -/
def IsKnown (a : Argument) : Prop := ∃ s : Subject, a.1 = s.name

/-- Whether the condition of an argument rejects its value. -/
def Rejects (cs : Conditions) (a : Argument) : Prop :=
  ∃ s : Subject, a.1 = s.name ∧ (cs.on s).RejectsValue a.2

/-- Whether a run goes on behind an argument. -/
def Passes (cs : Conditions) (a : Argument) : Prop := IsKnown a ∧ ¬cs.Rejects a

variable {cs : Conditions} {a : Argument} {args args' : List Argument} {s : Subject} {v : Value}

theorem Rejects.isKnown (h : cs.Rejects a) : IsKnown a := h.imp fun _ h => h.1

/-- An argument without a value is not rejected. -/
theorem not_rejects_null (cs : Conditions) (name : String) : ¬cs.Rejects (name, .null) := by
  rintro ⟨s, -, h⟩
  exact (cs.on s).not_rejectsValue_null h

theorem rejects_iff : cs.Rejects (s.name, v) ↔ (cs.on s).RejectsValue v := by
  constructor
  · rintro ⟨t, hname, h⟩
    rwa [eq_of_name_eq hname]
  · exact fun h => ⟨s, rfl, h⟩

/-! #### One argument -/

theorem acceptsArgument_str (cs : Conditions) (s : Subject) (text : String) :
    cs.acceptsArgument s (.str text) = .ok ((cs.on s).accepts text) := by
  cases s with
  | paths =>
    have hone := (cs.on .paths).acceptsAny_map_str [text]
    rw [List.map_singleton, List.any_cons, List.any_nil, Bool.or_false] at hone
    rw [acceptsArgument, hone]
    -- The empty condition accepts the text, too.
    cases hempty : (cs.on .paths).isEmpty with
    | false => rfl
    | true => rw [Condition.accepts_of_isEmpty hempty]; rfl
  | _ => rfl

theorem acceptsArgument_paths (cs : Conditions) (texts : List String) :
    cs.acceptsArgument .paths (.seq (texts.map .str))
      = .ok ((cs.on .paths).isEmpty || texts.any (cs.on .paths).accepts) :=
  (cs.on .paths).acceptsAny_map_str texts

/-- An argument that has a value is rejected or not. -/
theorem acceptsArgument_eq (cs : Conditions) (h : IsArgument (s.name, v)) (hv : v ≠ .null) :
    ∃ b, cs.acceptsArgument s v = .ok b ∧ (b = false ↔ cs.Rejects (s.name, v)) := by
  rw [rejects_iff]
  rcases h with hnull | ⟨text, htext⟩ | ⟨hpaths, texts, htexts⟩
  · exact absurd hnull hv
  · cases htext
    exact ⟨_, acceptsArgument_str cs s text, Condition.rejectsValue_str_iff.symm⟩
  · cases htexts
    obtain rfl : s = .paths := eq_of_name_eq hpaths
    exact ⟨_, acceptsArgument_paths cs texts, Condition.rejectsValue_seq_iff.symm⟩

/-! #### One step of a run -/

theorem accepts_cons_null (s : Subject) (args : List Argument) :
    cs.accepts ((s.name, .null) :: args) = cs.accepts args := by
  rw [accepts, ofName?_name]

theorem accepts_cons_of_acceptsArgument {b : Bool} (hv : v ≠ .null)
    (h : cs.acceptsArgument s v = .ok b) (args : List Argument) :
    cs.accepts ((s.name, v) :: args) = if b then cs.accepts args else .ok false := by
  rw [accepts, ofName?_name]
  -- The loop asks for null first, so what it does is only seen once the value is taken apart.
  cases v with
  | null => exact absurd rfl hv
  | _ =>
    simp only [h, Outcome.ok_bind]
    rfl

/-- A name without a condition ends a run. -/
theorem accepts_cons_of_not_isKnown (h : ¬IsKnown a) (args : List Argument) :
    cs.accepts (a :: args) = .error (.unknownCondition a.1) := by
  obtain ⟨name, v⟩ := a
  have hname : Subject.ofName? name = Option.none := by
    rw [Subject.ofName?, List.find?_eq_none]
    intro s _ hs
    exact h ⟨s, (of_decide_eq_true hs).symm⟩
  rw [accepts, hname]

/-- A rejected argument ends a run. -/
theorem accepts_cons_of_rejects (ha : IsArgument a) (h : cs.Rejects a) (args : List Argument) :
    cs.accepts (a :: args) = .ok false := by
  obtain ⟨name, v⟩ := a
  obtain ⟨s, rfl⟩ : ∃ s : Subject, name = s.name := h.isKnown
  have hv : v ≠ .null := fun hnull => cs.not_rejects_null s.name (hnull ▸ h)
  obtain ⟨b, hb, hiff⟩ := cs.acceptsArgument_eq ha hv
  rw [accepts_cons_of_acceptsArgument hv hb, hiff.mpr h]
  rfl

/-- A run goes on behind an argument that passes. -/
theorem accepts_cons_of_passes (ha : IsArgument a) (h : cs.Passes a) (args : List Argument) :
    cs.accepts (a :: args) = cs.accepts args := by
  obtain ⟨name, v⟩ := a
  obtain ⟨s, rfl⟩ : ∃ s : Subject, name = s.name := h.1
  by_cases hv : v = .null
  · rw [hv, accepts_cons_null]
  · obtain ⟨b, hb, hiff⟩ := cs.acceptsArgument_eq ha hv
    have htrue : b = true := (Bool.not_eq_false b).mp fun hfalse => h.2 (hiff.mp hfalse)
    rw [accepts_cons_of_acceptsArgument hv hb, htrue]
    rfl

/-! #### Whole runs -/

/-- The outcome of a run: it ends at an argument with an unknown name or at one that is rejected,
and goes on behind the others. -/
inductive Runs (cs : Conditions) : List Argument → Outcome Bool → Prop
  | nil : Runs cs [] (.ok true)
  | unknown {a : Argument} {args : List Argument} (h : ¬IsKnown a) :
      Runs cs (a :: args) (.error (.unknownCondition a.1))
  | rejects {a : Argument} {args : List Argument} (h : cs.Rejects a) :
      Runs cs (a :: args) (.ok false)
  | passes {a : Argument} {args : List Argument} {outcome : Outcome Bool} (h : cs.Passes a)
      (rest : Runs cs args outcome) : Runs cs (a :: args) outcome

theorem runs_accepts (cs : Conditions) (h : ∀ a ∈ args, IsArgument a) :
    cs.Runs args (cs.accepts args) := by
  induction args with
  | nil => exact .nil
  | cons a args ih =>
    obtain ⟨ha, hargs⟩ := List.forall_mem_cons.mp h
    -- The name is looked up before the value is looked at, so an unknown name comes first.
    by_cases hknown : IsKnown a
    · by_cases hrejects : cs.Rejects a
      · rw [accepts_cons_of_rejects ha hrejects]
        exact .rejects hrejects
      · rw [accepts_cons_of_passes ha ⟨hknown, hrejects⟩]
        exact .passes ⟨hknown, hrejects⟩ (ih hargs)
    · rw [accepts_cons_of_not_isKnown hknown]
      exact .unknown hknown

/-- Whether a run comes to an argument of one kind with arguments of another kind before it. -/
def Reaches (P Q : Argument → Prop) (args : List Argument) : Prop :=
  ∃ before a after, args = before ++ a :: after ∧ Q a ∧ ∀ b ∈ before, P b

section Reaches

variable {P Q : Argument → Prop}

theorem not_reaches_nil : ¬Reaches P Q [] := by
  rintro ⟨before, a, after, heq, -⟩
  exact absurd heq (by simp)

theorem reaches_cons_iff : Reaches P Q (a :: args) ↔ Q a ∨ P a ∧ Reaches P Q args := by
  constructor
  · rintro ⟨_ | ⟨b, before⟩, a', after, heq, hq, hbefore⟩
    · cases heq
      exact .inl hq
    · cases heq
      exact .inr ⟨hbefore _ List.mem_cons_self, before, a', after, rfl, hq,
        fun b hb => hbefore b (List.mem_cons_of_mem _ hb)⟩
  · rintro (hq | ⟨hp, before, a', after, rfl, hq, hbefore⟩)
    · exact ⟨[], a, args, rfl, hq, by simp⟩
    · exact ⟨a :: before, a', after, rfl, hq, List.forall_mem_cons.mpr ⟨hp, hbefore⟩⟩

end Reaches

section Outcomes

variable {outcome : Outcome Bool}

/-- A run fails at an unknown name, unless an argument before it is rejected. -/
theorem Runs.eq_error_iff (h : cs.Runs args outcome) :
    (∃ fault, outcome = .error fault) ↔
      Reaches (fun b => ¬cs.Rejects b) (fun a => ¬IsKnown a) args := by
  induction h with
  | nil => exact iff_of_false (by simp) not_reaches_nil
  | unknown h => exact iff_of_true ⟨_, rfl⟩ (reaches_cons_iff.mpr (.inl h))
  | rejects h =>
    refine iff_of_false (by simp) fun hreaches => ?_
    rcases reaches_cons_iff.mp hreaches with hunknown | ⟨hnot, -⟩
    · exact hunknown h.isKnown
    · exact hnot h
  | passes h _ ih =>
    rw [ih, reaches_cons_iff, or_iff_right (not_not_intro h.1), and_iff_right h.2]

/-- The name in a failure is the first that is unknown. -/
theorem Runs.reaches_of_eq_error (h : cs.Runs args outcome) {fault : Fault}
    (hfault : outcome = .error fault) :
    Reaches cs.Passes (fun a => ¬IsKnown a ∧ fault = .unknownCondition a.1) args := by
  induction h with
  | nil => cases hfault
  | unknown h => exact reaches_cons_iff.mpr (.inl ⟨h, (Except.error.inj hfault).symm⟩)
  | rejects h => cases hfault
  | passes h _ ih => exact reaches_cons_iff.mpr (.inr ⟨h, ih hfault⟩)

/-- A run is rejected at the first argument that is, unless a name before it is unknown. -/
theorem Runs.eq_ok_false_iff (h : cs.Runs args outcome) :
    outcome = .ok false ↔ Reaches cs.Passes cs.Rejects args := by
  induction h with
  | nil => exact iff_of_false (by simp) not_reaches_nil
  | unknown h =>
    refine iff_of_false (by simp) fun hreaches => ?_
    rcases reaches_cons_iff.mp hreaches with hrejects | ⟨hpasses, -⟩
    · exact h hrejects.isKnown
    · exact h hpasses.1
  | rejects h => exact iff_of_true rfl (reaches_cons_iff.mpr (.inl h))
  | passes h _ ih => rw [ih, reaches_cons_iff, or_iff_right h.2, and_iff_right h]

/-- A run is accepted if all of its arguments pass. -/
theorem Runs.eq_ok_true_iff (h : cs.Runs args outcome) :
    outcome = .ok true ↔ ∀ a ∈ args, cs.Passes a := by
  induction h with
  | nil => exact iff_of_true rfl (by simp)
  | unknown h => exact iff_of_false (by simp) fun hall => h (hall _ List.mem_cons_self).1
  | rejects h => exact iff_of_false (by simp) fun hall => (hall _ List.mem_cons_self).2 h
  | passes h _ ih => rw [ih, List.forall_mem_cons, and_iff_right h]

open Classical in
/-- With known names a run is the conjunction of what its arguments do. -/
theorem Runs.eq_ok_all (h : cs.Runs args outcome) (hknown : ∀ a ∈ args, IsKnown a) :
    outcome = .ok (args.all fun a => !decide (cs.Rejects a)) := by
  induction h with
  | nil => rfl
  | unknown h => exact absurd (hknown _ List.mem_cons_self) h
  | rejects h => simp [h]
  | passes h _ ih =>
    rw [ih fun a ha => hknown a (List.mem_cons_of_mem _ ha)]
    simp [h.2]

end Outcomes

/-! #### Known names -/

/-- Every argument has a result of its own, and with known names a run is the conjunction of
those. -/
theorem exists_accepts_eq_all (cs : Conditions) :
    ∃ result : Argument → Bool, (∀ name, result (name, .null) = true) ∧
      ∀ args, (∀ a ∈ args, IsArgument a) → (∀ a ∈ args, IsKnown a) →
        cs.accepts args = .ok (args.all result) := by
  classical
  exact ⟨fun a => !decide (cs.Rejects a), fun name => by simp [cs.not_rejects_null name],
    fun args h hknown => (cs.runs_accepts h).eq_ok_all hknown⟩

/-- What remains when arguments without a value are dropped has the same conjunction. -/
theorem all_eq_of_dropped {result : Argument → Bool} (hnull : ∀ name, result (name, .null) = true)
    (hsub : args' ⊆ args) (hdropped : ∀ a ∈ args, a ∉ args' → a.2 = .null) :
    args'.all result = args.all result := by
  rw [Bool.eq_iff_iff, List.all_eq_true, List.all_eq_true]
  refine ⟨fun hall a ha => ?_, fun hall a ha => hall a (hsub ha)⟩
  by_cases hkept : a ∈ args'
  · exact hall a hkept
  · obtain ⟨name, v⟩ := a
    cases hdropped _ ha hkept
    exact hnull name

/-! #### Paths -/

/-- What a run says to a list of paths alone. -/
def acceptsPaths (cs : Conditions) (texts : List String) : Outcome Bool :=
  cs.accepts [(Subject.paths.name, .seq (texts.map .str))]

theorem acceptsPaths_eq (cs : Conditions) (texts : List String) :
    cs.acceptsPaths texts
      = .ok ((cs.on .paths).isEmpty || texts.any (cs.on .paths).accepts) := by
  rw [acceptsPaths, accepts_cons_of_acceptsArgument (by simp) (cs.acceptsArgument_paths texts)]
  cases (cs.on .paths).isEmpty || texts.any (cs.on .paths).accepts <;> rfl

theorem accepts_path (cs : Conditions) (text : String) :
    cs.accepts [(Subject.paths.name, .str text)] = cs.acceptsPaths [text] := by
  rw [acceptsPaths, accepts, accepts, ofName?_name]
  rfl

/-- A run fails if a name is unknown and no argument before it is rejected. It is rejected if an
argument is and no name before the first such is unknown, and else it is accepted. With known names
it is the conjunction of what the arguments do alone. So the order of the arguments does not matter,
nor those without a value, and with more arguments no more is accepted. A text is the list of that
text as paths. Conditions without entries accept all lists of paths. Other conditions reject the
empty list and accept lists together if they accept one of them. With more paths no less is
accepted. -/
theorem accepts_exact (cs : Conditions) (args : List Argument) (h : ∀ a ∈ args, IsArgument a) :
    ((∃ fault, cs.accepts args = .error fault) ↔
      Reaches (fun b => ¬cs.Rejects b) (fun a => ¬IsKnown a) args) ∧
    (∀ fault, cs.accepts args = .error fault →
      Reaches cs.Passes (fun a => ¬IsKnown a ∧ fault = .unknownCondition a.1) args) ∧
    (cs.accepts args = .ok false ↔ Reaches cs.Passes cs.Rejects args) ∧
    (cs.accepts args = .ok true ↔
      ¬Reaches (fun b => ¬cs.Rejects b) (fun a => ¬IsKnown a) args ∧
        ¬Reaches cs.Passes cs.Rejects args) ∧
    (cs.accepts args = .ok true ↔ ∀ a ∈ args, cs.Passes a) ∧
    ((∀ a ∈ args, IsKnown a) →
      (∃ result : Argument → Bool, (∀ a ∈ args, cs.accepts [a] = .ok (result a)) ∧
        cs.accepts args = .ok (args.all result)) ∧
      (∀ args', args'.Perm args → cs.accepts args' = cs.accepts args) ∧
      (∀ args', args'.Sublist args → (∀ a ∈ args, a ∉ args' → a.2 = .null) →
        cs.accepts args' = cs.accepts args) ∧
      ∀ args', args.Sublist args' → (∀ a ∈ args', IsArgument a) → (∀ a ∈ args', IsKnown a) →
        cs.accepts args = .ok false → cs.accepts args' = .ok false) ∧
    (∀ text, cs.accepts [(Subject.paths.name, .str text)] = cs.acceptsPaths [text]) ∧
    ((cs.on .paths).isEmpty = true → ∀ texts, cs.acceptsPaths texts = .ok true) ∧
    ((cs.on .paths).isEmpty = false → cs.acceptsPaths [] = .ok false ∧
      ∀ parts : List (List String), cs.acceptsPaths parts.flatten = .ok true ↔
        ∃ part ∈ parts, cs.acceptsPaths part = .ok true) ∧
    ∀ texts texts', texts ⊆ texts' → cs.acceptsPaths texts = .ok true →
      cs.acceptsPaths texts' = .ok true := by
  obtain ⟨result, hnull, hresult⟩ := cs.exists_accepts_eq_all
  have hrun := cs.runs_accepts h
  refine ⟨hrun.eq_error_iff, fun fault => hrun.reaches_of_eq_error, hrun.eq_ok_false_iff, ?_,
    hrun.eq_ok_true_iff, ?_, cs.accepts_path, ?_, ?_, ?_⟩
  · -- The outcomes exclude each other, and there is no fourth.
    rw [← hrun.eq_error_iff, ← hrun.eq_ok_false_iff]
    rcases cs.accepts args with fault | b
    · simp
    · cases b <;> simp
  · -- With known names a run only depends on which arguments there are.
    intro hknown
    have hall := hresult args h hknown
    refine ⟨⟨result, fun a ha => ?_, hall⟩, fun args' hperm => ?_, fun args' hsub hdropped => ?_,
      fun args' hsub hargs' hknown' hfalse => ?_⟩
    · rw [hresult [a] (by simpa using h a ha) (by simpa using hknown a ha), List.all_cons,
        List.all_nil, Bool.and_true]
    · rw [hall, hresult args' (fun a ha => h a (hperm.subset ha))
        fun a ha => hknown a (hperm.subset ha), hperm.all_eq]
    · rw [hall, hresult args' (fun a ha => h a (hsub.subset ha))
        fun a ha => hknown a (hsub.subset ha), all_eq_of_dropped hnull hsub.subset hdropped]
    · rw [hall] at hfalse
      obtain ⟨a, ha, hrejected⟩ := List.all_eq_false.mp (Except.ok.inj hfalse)
      rw [hresult args' hargs' hknown', List.all_eq_false.mpr ⟨a, hsub.subset ha, hrejected⟩]
  · intro hempty texts
    rw [acceptsPaths_eq, hempty, Bool.true_or]
  · intro hne
    refine ⟨by rw [acceptsPaths_eq, hne]; rfl, fun parts => ?_⟩
    simp only [acceptsPaths_eq, hne, Bool.false_or, Except.ok.injEq, List.any_flatten,
      List.any_eq_true]
  · intro texts texts' hsub htrue
    simp only [acceptsPaths_eq, Except.ok.injEq, Bool.or_eq_true, List.any_eq_true] at htrue ⊢
    exact htrue.imp_right fun ⟨text, htext, haccepted⟩ => ⟨text, hsub htext, haccepted⟩

/-- Conditions on the branch alone. -/
def onMain : Conditions := none.set .branch { included := ["main"] }

/-- A run on another branch, with a name that is unknown. -/
def topicRun : List Argument := [("cron", .null), ("branch", .str "topic"), ("label", .str "x")]

/-- The run is rejected, but turned round it fails, since then the unknown name comes first. -/
theorem accepts_topicRun :
    (∀ a ∈ topicRun, IsArgument a) ∧ onMain.accepts topicRun = .ok false ∧
      ∃ fault, onMain.accepts topicRun.reverse = .error fault := by
  have hargs : ∀ a ∈ topicRun, IsArgument a := by
    simp [topicRun, IsArgument, Value.IsText]
  have hlabel : ¬IsKnown ("label", .str "x") := by
    rintro ⟨s, hs⟩
    cases s <;> exact absurd hs (by decide)
  refine ⟨hargs, (accepts_exact onMain topicRun hargs).2.2.1.mpr ?_,
    (accepts_exact onMain topicRun.reverse fun a ha => hargs a (List.mem_reverse.mp ha)).1.mpr ?_⟩
  · refine ⟨[("cron", .null)], ("branch", .str "topic"), [("label", .str "x")], rfl, ?_, ?_⟩
    · exact (rejects_iff (s := .branch)).mpr (Condition.rejectsValue_str_iff.mpr (by decide))
    · rintro a (_ | ⟨_, ⟨⟩⟩)
      exact ⟨⟨.cron, rfl⟩, onMain.not_rejects_null "cron"⟩
  · exact ⟨[], ("label", .str "x"), [("branch", .str "topic"), ("cron", .null)], rfl, hlabel,
      by simp⟩

end Conditions

end PipelineManifest
