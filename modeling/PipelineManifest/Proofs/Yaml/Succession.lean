import PipelineManifest.Proofs.Yaml.Progress

/-!
# `PipelineManifest.Proofs.Yaml.Succession`: one document after the other

A text is read document by document until its end, or until something is wrong. Here this is said
without fuel: which documents have been read, and why nothing is read behind them. Each document
takes a token, so there is always an end, and the fuel with which texts are read is enough to come
to it. What is wrong with a text is wrong with the first document that cannot be read, whatever the
documents before it hold.

* `Reads`, `Stops`, `ReadsUntil`: the documents that are read, and why reading stops.
* `exists_reads`: reading always stops.
* `documentsFrom_eq_of_reads`: the documents with enough fuel.
* `readStream_eq_ok_iff`, `readStream_eq_error_iff`: the documents of a text.
-/

set_option autoImplicit false

namespace PipelineManifest.Yaml

variable {first first' : Bool} {s s' : ComposeState} {vs : List SourcedValue}

/-- The documents that are read one after the other from a state on, and the state behind them. -/
inductive Reads : Bool → ComposeState → List SourcedValue → Bool → ComposeState → Prop
  | nil (first : Bool) (s : ComposeState) : Reads first s [] first s
  | cons {first first' : Bool} {s s' s'' : ComposeState} {root : NodeId} {v : SourcedValue}
    {vs : List SourcedValue} (hnodes : composeDocument first s = .ok (some root, s'))
    (hvalue : s'.graph.sourced root = .ok v) (rest : Reads false s' vs first' s'') :
    Reads first s (v :: vs) first' s''

/-- Why no document is read from a state: there is none, its nodes have a defect, or its value. -/
inductive Stops (first : Bool) (s : ComposeState) : Option Defect → Prop
  | atEnd {s' : ComposeState} (h : composeDocument first s = .ok (none, s')) : Stops first s none
  | nodes {defect : Defect} (h : composeDocument first s = .error defect) :
    Stops first s (some defect)
  | value {root : NodeId} {s' : ComposeState} {defect : Defect}
    (hnodes : composeDocument first s = .ok (some root, s'))
    (h : s'.graph.sourced root = .error defect) : Stops first s (some defect)

/-- Reading stops after some documents. The induction is on the tokens that are left. -/
theorem exists_reads (first : Bool) (s : ComposeState) :
    ∃ vs first' s' stop, Reads first s vs first' s' ∧ Stops first' s' stop := by
  induction hn : s.tokens.length using Nat.strongRecOn generalizing first s with
  | ind n ih =>
    cases hnodes : composeDocument first s with
    | error defect => exact ⟨[], first, s, some defect, .nil first s, .nodes hnodes⟩
    | ok p =>
      obtain ⟨root?, s₁⟩ := p
      cases root? with
      | none => exact ⟨[], first, s, none, .nil first s, .atEnd hnodes⟩
      | some root =>
        cases hvalue : s₁.graph.sourced root with
        | error defect => exact ⟨[], first, s, some defect, .nil first s, .value hnodes hvalue⟩
        | ok v =>
          have hless : s₁.tokens.length < n := hn ▸ length_lt_of_composeDocument hnodes
          obtain ⟨vs, first', s', stop, hreads, hstop⟩ := ih _ hless false s₁ rfl
          exact ⟨v :: vs, first', s', stop, .cons hnodes hvalue hreads, hstop⟩

/-! ### The documents with fuel -/

section Fuel

variable {root : NodeId} {v : SourcedValue} {defect : Defect} (fuel : Nat)

theorem documentsFrom_of_atEnd (h : composeDocument first s = .ok (none, s')) :
    documentsFrom (fuel + 1) first s = .ok [] := by
  rw [documentsFrom, h]
  rfl

theorem documentsFrom_of_nodes (h : composeDocument first s = .error defect) :
    documentsFrom (fuel + 1) first s = .error defect := by
  rw [documentsFrom, h]
  rfl

theorem documentsFrom_of_value (hnodes : composeDocument first s = .ok (some root, s')) :
    documentsFrom (fuel + 1) first s =
      s'.graph.sourced root >>= fun v => (documentsFrom fuel false s').map (v :: ·) := by
  rw [documentsFrom, hnodes]
  show (s'.graph.sourced root >>= _) = _
  cases s'.graph.sourced root with
  | error found => rfl
  | ok v =>
    show (documentsFrom fuel false s' >>= _) = (documentsFrom fuel false s').map (v :: ·)
    cases documentsFrom fuel false s' <;> rfl

end Fuel

/-- What is left of some documents when reading stops. -/
def stopped (vs : List SourcedValue) : Option Defect → Except Defect (List SourcedValue)
  | none => .ok vs
  | some defect => .error defect

/-- With more fuel than tokens all documents are read. -/
theorem documentsFrom_eq_of_reads {stop : Option Defect} (hreads : Reads first s vs first' s')
    (hstop : Stops first' s' stop) {fuel : Nat} (hfuel : s.tokens.length < fuel) :
    documentsFrom fuel first s = stopped vs stop := by
  induction hreads generalizing fuel with
  | nil first s =>
    obtain ⟨fuel, rfl⟩ : ∃ n, fuel = n + 1 := ⟨fuel - 1, by omega⟩
    cases hstop with
    | atEnd h => exact documentsFrom_of_atEnd fuel h
    | nodes h => exact documentsFrom_of_nodes fuel h
    | value hnodes h =>
      rw [documentsFrom_of_value fuel hnodes, h]
      rfl
  | @cons _ _ _ s₁ _ _ v _ hnodes hvalue _ ih =>
    -- A document takes a token and a unit of fuel, so more fuel than tokens is left.
    obtain ⟨fuel, rfl⟩ : ∃ n, fuel = n + 1 := ⟨fuel - 1, by omega⟩
    have hless := length_lt_of_composeDocument hnodes
    have hrest : s₁.tokens.length < fuel := by omega
    rw [documentsFrom_of_value fuel hnodes, hvalue]
    show (documentsFrom fuel false s₁).map (v :: ·) = _
    rw [ih hstop hrest]
    cases stop <;> rfl

/-! ### Texts -/

/-- A text whose characters are allowed, of which some documents are read before reading stops. -/
def ReadsUntil (text : String) (vs : List SourcedValue) (stop : Option Defect) : Prop :=
  checkCharacters text = .ok () ∧
    ∃ first s, Reads true (ComposeState.start text) vs first s ∧ Stops first s stop

variable {text : String} {stop : Option Defect}

theorem readStream_eq (h : checkCharacters text = .ok ()) :
    readStream text = documentsFrom ((ComposeState.start text).tokens.length + 1) true
      (ComposeState.start text) := by
  simp only [readStream, h, bind, Except.bind]

theorem readStream_of_characters {defect : Defect} (h : checkCharacters text = .error defect) :
    readStream text = .error defect := by
  rw [readStream, h]
  rfl

theorem exists_readsUntil (h : checkCharacters text = .ok ()) :
    ∃ vs stop, ReadsUntil text vs stop := by
  obtain ⟨vs, first, s, stop, hreads, hstop⟩ := exists_reads true (ComposeState.start text)
  exact ⟨vs, stop, h, first, s, hreads, hstop⟩

/-- The fuel with which a text is read is enough. -/
theorem readStream_of_readsUntil (h : ReadsUntil text vs stop) :
    readStream text = stopped vs stop := by
  obtain ⟨hcharacters, first, s, hreads, hstop⟩ := h
  rw [readStream_eq hcharacters]
  exact documentsFrom_eq_of_reads hreads hstop (Nat.lt_succ_self _)

/-- All documents of a text are read, up to its end. -/
theorem readStream_eq_ok_iff : readStream text = .ok vs ↔ ReadsUntil text vs none := by
  constructor
  · intro h
    have hcharacters : checkCharacters text = .ok () := by
      obtain ⟨⟨⟩, hcharacters, -⟩ := Outcome.bind_eq_ok_iff.mp h
      exact hcharacters
    obtain ⟨ws, stop, hws⟩ := exists_readsUntil hcharacters
    rw [readStream_of_readsUntil hws] at h
    cases stop with
    | none =>
      cases h
      exact hws
    | some defect => cases h
  · exact readStream_of_readsUntil

/-- A text cannot be read because of a character, or because of the first document that cannot be
read. -/
theorem readStream_eq_error_iff {defect : Defect} :
    readStream text = .error defect ↔
      checkCharacters text = .error defect ∨ ∃ vs, ReadsUntil text vs (some defect) := by
  constructor
  · intro h
    cases hcharacters : checkCharacters text with
    | error found =>
      rw [readStream_of_characters hcharacters] at h
      cases h
      exact .inl rfl
    | ok u =>
      obtain ⟨ws, stop, hws⟩ := exists_readsUntil hcharacters
      rw [readStream_of_readsUntil hws] at h
      cases stop with
      | none => cases h
      | some found =>
        cases h
        exact .inr ⟨ws, hws⟩
  · rintro (h | ⟨vs, h⟩)
    · exact readStream_of_characters h
    · exact readStream_of_readsUntil h

end PipelineManifest.Yaml
