import Mathlib.Data.Fintype.EquivFin
import PipelineManifest.Proofs.Dispatch

/-!
# `PipelineManifest.Proofs.Registration`: which families a registry keeps, and which it finds

A registry takes families whose keys differ, and keeps their order. So at most two of them own a
document: one for its type and one for any type. The one that stands first is found, and that is all
the order matters for: a family for any type hides the families of its kind that stand behind it,
and nothing else does.

* `Family.Precedes`: one family stands before another.
* `Registry.ofFamilies_eq_error_iff`: families are refused at the first key that comes again.
* `Registry.pairwise_owners`: the families that own a document.
* `Registry.lookup?_eq_some_iff_precedes`: the family that is found stands before all other owners.
* `Registry.exists_lookup?_eq_some`: a family that no family for any type precedes is found for some
  document.
* `Registry.lookup?_eq_of_sameHiding`: the order matters only between families of one kind, of which
  one is for any type.
* `Registry.ofFamilies_exact`: all of this.
-/

set_option autoImplicit false

namespace PipelineManifest

variable {ρ : Type}

/-! ### Families in a list -/

namespace Family

variable {fs gs : List (Family ρ)} {f g : Family ρ} {d : Document}

/-- One family stands before another in a list. -/
def Precedes (fs : List (Family ρ)) (f g : Family ρ) : Prop := [f, g].Sublist fs

theorem precedes_cons_iff {h : Family ρ} :
    Precedes (h :: fs) f g ↔ f = h ∧ g ∈ fs ∨ Precedes fs f g := by
  rw [Precedes, Precedes, List.cons_sublist_cons', List.singleton_sublist, or_comm]

theorem precedes_append (before after : List (Family ρ)) (hg : g ∈ after) :
    Precedes (before ++ f :: after) f g := by
  have htail : [f, g].Sublist (f :: after) := (List.singleton_sublist.mpr hg).cons_cons f
  exact htail.trans (List.sublist_append_right before _)

theorem Precedes.mem_left (h : Precedes fs f g) : f ∈ fs := h.subset (by simp)

theorem Precedes.mem_right (h : Precedes fs f g) : g ∈ fs := h.subset (by simp)

/-- Of two families in a list one precedes the other. -/
theorem precedes_or_precedes (hf : f ∈ fs) (hg : g ∈ fs) (hne : f ≠ g) :
    Precedes fs f g ∨ Precedes fs g f := by
  obtain ⟨before, after, rfl⟩ := List.append_of_mem hf
  rcases List.mem_append.mp hg with hg | hg
  · obtain ⟨first, second, rfl⟩ := List.append_of_mem hg
    rw [List.append_assoc]
    exact .inr (precedes_append first _ (by simp))
  · rcases List.mem_cons.mp hg with rfl | hg
    · exact absurd rfl hne
    · exact .inl (precedes_append before after hg)

/-- In a list that holds no family twice only one of two families precedes the other. -/
theorem Precedes.not_precedes (hfs : fs.Nodup) (h : Precedes fs f g) : ¬Precedes fs g f := by
  induction fs with
  | nil => cases h
  | cons a fs ih =>
    obtain ⟨ha, hfs⟩ := List.nodup_cons.mp hfs
    intro hback
    rcases precedes_cons_iff.mp h with ⟨rfl, hg⟩ | htail
    · rcases precedes_cons_iff.mp hback with ⟨rfl, -⟩ | hbackTail
      · exact ha hg
      · exact ha hbackTail.mem_right
    · rcases precedes_cons_iff.mp hback with ⟨rfl, -⟩ | hbackTail
      · exact ha htail.mem_right
      · exact ih hfs htail hbackTail

/-- Two families of a list have the same key when the keys of the list repeat. -/
theorem nodup_keys_iff :
    (fs.map key).Nodup ↔ ¬∃ f g, Precedes fs f g ∧ f.key = g.key := by
  rw [List.Nodup, List.pairwise_map, List.pairwise_iff_forall_sublist]
  simp only [Precedes, not_exists, not_and]

/-- A family owns the documents of its kind and, unless it is for any type, of its type. -/
theorem owns_iff :
    f.owns d = true ↔ d.kind = f.kind ∧ ∀ type, f.type = some type → d.type = type := by
  rw [owns, Bool.and_eq_true, decide_eq_true_iff, Option.all_eq_true]
  simp only [decide_eq_true_iff]

/-- Two owners of a document have the same key, unless just one of them is for any type. -/
theorem key_eq_of_owns (hf : f.owns d = true) (hg : g.owns d = true)
    (htype : f.type.isNone = g.type.isNone) : f.key = g.key := by
  obtain ⟨hfkind, hftype⟩ := owns_iff.mp hf
  obtain ⟨hgkind, hgtype⟩ := owns_iff.mp hg
  have hkind : f.kind = g.kind := hfkind.symm.trans hgkind
  have htypes : f.type = g.type := by
    cases hft : f.type with
    | none =>
      rw [hft, Option.isNone_none] at htype
      exact (Option.isNone_iff_eq_none.mp htype.symm).symm
    | some s =>
      cases hgt : g.type with
      | none => simp [hft, hgt] at htype
      | some t => rw [← hftype s hft, ← hgtype t hgt]
  exact Prod.ext hkind htypes

/-- Two lists have the same hiding when, for each kind, its family for any type stands before the
same typed families of this kind. -/
def SameHiding (fs gs : List (Family ρ)) : Prop :=
  ∀ f ∈ fs, ∀ g ∈ fs, f.kind = g.kind → f.type = none → g.type ≠ none →
    (Precedes fs f g ↔ Precedes gs f g)

end Family

namespace Registry

open Family (Precedes SameHiding)

variable {r r' : Registry ρ} {f g : Family ρ} {d : Document}

/-! ### Which families are kept -/

/-- The first family whose key comes before it, among the given keys or in the list. -/
theorem duplicate?_eq_some_iff {seen : List (String × Option String)} {fs : List (Family ρ)}
    (hseen : seen.Nodup) :
    duplicate? seen fs = some f ↔
      ∃ before after, fs = before ++ f :: after ∧ (seen ++ before.map Family.key).Nodup ∧
        f.key ∈ seen ++ before.map Family.key := by
  induction fs generalizing seen with
  | nil => simp [duplicate?]
  | cons a fs ih =>
    rw [duplicate?]
    by_cases ha : a.key ∈ seen
    · rw [if_pos ha]
      constructor
      · rintro ⟨⟩
        exact ⟨[], fs, rfl, by simpa using hseen, by simpa using ha⟩
      · rintro ⟨before, after, hfs, hnodup, -⟩
        cases before with
        | nil => rw [(List.cons.inj hfs).1]
        | cons b before =>
          rw [← (List.cons.inj hfs).1, List.nodup_append] at hnodup
          exact absurd rfl (hnodup.2.2 _ ha _ (by simp))
    · have hnext : (seen ++ [a.key]).Nodup :=
        List.nodup_append.mpr ⟨hseen, List.nodup_singleton _, by
          rintro k hk _ hka rfl
          exact ha (List.mem_singleton.mp hka ▸ hk)⟩
      rw [if_neg ha, ih hnext]
      constructor
      · rintro ⟨before, after, rfl, hnodup, hmem⟩
        exact ⟨a :: before, after, rfl, by simpa using hnodup, by simpa using hmem⟩
      · rintro ⟨before, after, hfs, hnodup, hmem⟩
        cases before with
        | nil =>
          rw [(List.cons.inj hfs).1] at ha
          exact absurd (by simpa using hmem) ha
        | cons b before =>
          obtain ⟨rfl, rfl⟩ := List.cons.inj hfs
          exact ⟨before, after, rfl, by simpa using hnodup, by simpa using hmem⟩

/-- Keys that repeat have a first one that does. -/
theorem duplicate?_isSome {seen : List (String × Option String)} {fs : List (Family ρ)}
    (h : ¬(seen ++ fs.map Family.key).Nodup) (hseen : seen.Nodup) :
    (duplicate? seen fs).isSome = true := by
  induction fs generalizing seen with
  | nil => exact absurd (by simpa using hseen) h
  | cons a fs ih =>
    rw [duplicate?]
    by_cases ha : a.key ∈ seen
    · rw [if_pos ha]
      rfl
    · rw [if_neg ha]
      refine ih (by simpa using h) (List.nodup_append.mpr ⟨hseen, List.nodup_singleton _, ?_⟩)
      rintro k hk _ hka rfl
      exact ha (List.mem_singleton.mp hka ▸ hk)

theorem ofFamilies_eq_ok_iff {fs : List (Family ρ)} :
    ofFamilies fs = .ok r ↔ (fs.map Family.key).Nodup ∧ r.families = fs := by
  unfold ofFamilies
  split
  · rename_i h
    obtain ⟨families, distinct⟩ := r
    simp [h, eq_comm]
  · rename_i h
    split <;> simp [h]

/-- Families are refused at the first one whose key comes before it. -/
theorem ofFamilies_eq_error_iff {fs : List (Family ρ)} {fault : Fault} :
    ofFamilies fs = .error fault ↔
      ∃ before f after, fs = before ++ f :: after ∧ (before.map Family.key).Nodup ∧
        f.key ∈ before.map Family.key ∧ fault = .duplicateFamily f.kind f.type := by
  have hfirst (f : Family ρ) : duplicate? [] fs = some f ↔
      ∃ before after, fs = before ++ f :: after ∧ (before.map Family.key).Nodup ∧
        f.key ∈ before.map Family.key :=
    duplicate?_eq_some_iff List.nodup_nil
  unfold ofFamilies
  split
  · rename_i h
    constructor
    · intro hfault
      cases hfault
    · rintro ⟨before, f, after, rfl, -, hmem, -⟩
      rw [List.map_append, List.nodup_append] at h
      exact absurd rfl (h.2.2 _ hmem _ (by simp))
  · rename_i h
    obtain ⟨f, hf⟩ := Option.isSome_iff_exists.mp
      (duplicate?_isSome (by simpa using h) List.nodup_nil)
    rw [hf]
    constructor
    · rintro ⟨⟩
      obtain ⟨before, after, hfs, hnodup, hmem⟩ := (hfirst f).mp hf
      exact ⟨before, f, after, hfs, hnodup, hmem, rfl⟩
    · rintro ⟨before, g, after, hfs, hnodup, hmem, rfl⟩
      have hg := (hfirst g).mpr ⟨before, after, hfs, hnodup, hmem⟩
      cases hf.symm.trans hg
      rfl

/-! ### Which family is found -/

theorem nodup_families (r : Registry ρ) : r.families.Nodup := r.distinct.of_map

/-- Of two families that own the same document one is for any type and the other is not. -/
theorem eq_of_owns (hf : f ∈ r.families) (hg : g ∈ r.families) (hfd : f.owns d = true)
    (hgd : g.owns d = true) (htype : f.type.isNone = g.type.isNone) : f = g :=
  List.inj_on_of_nodup_map r.distinct hf hg (Family.key_eq_of_owns hfd hgd htype)

/-- The families that own a document. -/
def owners (r : Registry ρ) (d : Document) : List (Family ρ) := r.families.filter (·.owns d)

theorem pairwise_owners (r : Registry ρ) (d : Document) :
    (r.owners d).Pairwise fun f g => f.type.isNone ≠ g.type.isNone := by
  refine (r.nodup_families.filter _).imp_of_mem fun {f g} hf hg hne htype => hne ?_
  obtain ⟨hf, hfd⟩ := List.mem_filter.mp hf
  obtain ⟨hg, hgd⟩ := List.mem_filter.mp hg
  exact eq_of_owns hf hg hfd hgd htype

/-- There are only two ways to be for any type or not. -/
theorem length_owners_le (r : Registry ρ) (d : Document) : (r.owners d).length ≤ 2 := by
  have h := r.pairwise_owners d
  match hfs : r.owners d with
  | [] | [_] | [_, _] => simp
  | f :: g :: k :: _ =>
    rw [hfs] at h
    simp only [List.pairwise_cons, List.mem_cons, forall_eq_or_imp] at h
    obtain ⟨⟨hfg, hfk, -⟩, ⟨hgk, -⟩, -⟩ := h
    cases hf : f.type.isNone <;> cases hg : g.type.isNone <;> cases hk : k.type.isNone <;> simp_all

/-- The family that is found is the first one that owns the document. -/
theorem lookup?_eq_some_iff_first :
    r.lookup? d = some f ↔
      ∃ before after, r.families = before ++ f :: after ∧ f.owns d = true ∧
        ∀ g ∈ before, g.owns d = false := by
  rw [lookup?, List.find?_eq_some_iff_append]
  simp only [Bool.not_eq_true']
  constructor
  · rintro ⟨hf, before, after, hfs, hbefore⟩
    exact ⟨before, after, hfs, hf, hbefore⟩
  · rintro ⟨before, after, hfs, hf, hbefore⟩
    exact ⟨hf, before, after, hfs, hbefore⟩

theorem lookup?_eq_none_iff : r.lookup? d = none ↔ ∀ f ∈ r.families, f.owns d = false := by
  rw [lookup?, List.find?_eq_none]
  simp only [Bool.not_eq_true]

/-- The family that is found precedes all others that own the document. -/
theorem lookup?_eq_some_iff_precedes :
    r.lookup? d = some f ↔ f ∈ r.families ∧ f.owns d = true ∧
      ∀ g ∈ r.families, g.owns d = true → g ≠ f → Precedes r.families f g := by
  constructor
  · intro h
    obtain ⟨before, after, hfs, hf, hbefore⟩ := lookup?_eq_some_iff_first.mp h
    refine ⟨by simp [hfs], hf, fun g hg hgd hne => ?_⟩
    rw [hfs] at hg ⊢
    rcases List.mem_append.mp hg with hg | hg
    · rw [hbefore g hg] at hgd
      cases hgd
    · exact Family.precedes_append before after ((List.mem_cons.mp hg).resolve_left hne)
  · rintro ⟨hf, hfd, hall⟩
    -- Some family is found. If it is not `f`, each of the two precedes the other.
    have hsome : (r.lookup? d).isSome = true := List.find?_isSome.mpr ⟨f, hf, hfd⟩
    obtain ⟨g, hg⟩ := Option.isSome_iff_exists.mp hsome
    obtain ⟨before, after, hfs, hgd, hbefore⟩ := lookup?_eq_some_iff_first.mp hg
    by_cases hne : g = f
    · rw [← hne]
      exact hg
    · have hfg : Precedes r.families f g := hall g (by simp [hfs]) hgd hne
      have hafter : f ∈ after := by
        rw [hfs] at hf
        rcases List.mem_append.mp hf with hf | hf
        · rw [hbefore f hf] at hfd
          cases hfd
        · exact (List.mem_cons.mp hf).resolve_left (Ne.symm hne)
      have hgf : Precedes r.families g f := by
        rw [hfs]
        exact Family.precedes_append before after hafter
      exact absurd hgf (hfg.not_precedes r.nodup_families)

/-! ### Which families are never found -/

/-- A family for any type hides the families of its kind behind it. -/
theorem lookup?_ne_of_precedes (h : Precedes r.families g f) (hkind : g.kind = f.kind)
    (htype : g.type = none) (d : Document) : r.lookup? d ≠ some f := by
  intro hf
  obtain ⟨-, hfd, hall⟩ := lookup?_eq_some_iff_precedes.mp hf
  have hgd : g.owns d = true :=
    Family.owns_iff.mpr ⟨(Family.kind_of_owns hfd).trans hkind.symm, by simp [htype]⟩
  by_cases hne : g = f
  · rw [hne] at h
    exact h.not_precedes r.nodup_families h
  · exact (hall g h.mem_left hgd hne).not_precedes r.nodup_families h

/-- Any other family is found for a document of its own type or, if it is for any type, of a type
that no family of the registry has. -/
theorem exists_lookup?_eq_some (hf : f ∈ r.families)
    (h : ∀ g, Precedes r.families g f → g.kind = f.kind → g.type ≠ none) :
    ∃ d, r.lookup? d = some f := by
  obtain ⟨fresh, hfresh⟩ := Infinite.exists_notMem_finset
    (r.families.filterMap Family.type).toFinset
  rw [List.mem_toFinset, List.mem_filterMap] at hfresh
  let d : Document := {
    kind := f.kind, type := f.type.getD fresh, version := "", name := "",
    data := .null, source := .null }
  have hfd : f.owns d = true :=
    Family.owns_iff.mpr ⟨rfl, fun type htype => by simp only [d, htype, Option.getD_some]⟩
  refine ⟨d, lookup?_eq_some_iff_precedes.mpr ⟨hf, hfd, fun g hg hgd hne => ?_⟩⟩
  obtain ⟨hgkind, hgtype⟩ := Family.owns_iff.mp hgd
  cases hft : f.type with
  | none =>
    -- Another owner has a type, but the type of the document belongs to nobody.
    cases hgt : g.type with
    | none => exact absurd (eq_of_owns hg hf hgd hfd (by rw [hft, hgt])) hne
    | some type =>
      have hmem : g.type = some fresh := by
        rw [hgt, ← hgtype type hgt]
        simp only [d, hft, Option.getD_none]
      exact absurd ⟨g, hg, hmem⟩ hfresh
  | some type =>
    -- Another owner is for any type, so it stands behind.
    have hgt : g.type = none := by
      cases hgt : g.type with
      | none => rfl
      | some t => exact absurd (eq_of_owns hg hf hgd hfd (by rw [hft, hgt]; rfl)) hne
    refine (Family.precedes_or_precedes hf hg (Ne.symm hne)).resolve_right fun hgf => ?_
    exact h g hgf hgkind.symm hgt

/-! ### Families in another order -/

/-- The order matters only between a family for any type and the typed families of its kind. -/
theorem lookup?_eq_of_sameHiding (hperm : r'.families.Perm r.families)
    (h : SameHiding r.families r'.families) (d : Document) : r'.lookup? d = r.lookup? d := by
  -- Two owners of one document are such a pair, so they keep their order.
  have horder (f g : Family ρ) (hf : f ∈ r.families) (hg : g ∈ r.families) (hfd : f.owns d = true)
      (hgd : g.owns d = true) (hne : g ≠ f) :
      Precedes r'.families f g ↔ Precedes r.families f g := by
    have hkind : f.kind = g.kind := (Family.kind_of_owns hfd).symm.trans (Family.kind_of_owns hgd)
    have htype : f.type.isNone ≠ g.type.isNone := fun heq =>
      hne (eq_of_owns hg hf hgd hfd heq.symm)
    cases hft : f.type with
    | none =>
      have hgt : g.type ≠ none := fun hgt => htype (by rw [hft, hgt])
      exact (h f hf g hg hkind hft hgt).symm
    | some s =>
      have hgt : g.type = none := by
        cases hgt : g.type with
        | none => rfl
        | some t => exact absurd (by rw [hft, hgt]; rfl) htype
      have hback := h g hg f hf hkind.symm hgt (by simp [hft])
      have hopposite (fs : List (Family ρ)) (hfs : fs.Nodup) (hf : f ∈ fs) (hg : g ∈ fs) :
          Precedes fs f g ↔ ¬Precedes fs g f :=
        ⟨fun hfg => hfg.not_precedes hfs,
          fun hgf => (Family.precedes_or_precedes hf hg (Ne.symm hne)).resolve_right hgf⟩
      rw [hopposite _ r.nodup_families hf hg, hback,
        hopposite _ r'.nodup_families (hperm.mem_iff.mpr hf) (hperm.mem_iff.mpr hg)]
  ext f
  rw [lookup?_eq_some_iff_precedes, lookup?_eq_some_iff_precedes]
  simp only [hperm.mem_iff]
  refine and_congr_right fun hf => and_congr_right fun hfd => ?_
  refine forall₂_congr fun g hg => forall₂_congr fun hgd hne => ?_
  exact horder f g hf hg hfd hgd hne

/-! ### All of this -/

/-- What a registry does with a document. At most two families own it, of which one is for its type
and one for any type; the first owner is found, and what it decodes is the resource. -/
structure FindsFirst (r : Registry ρ) (d : Document) : Prop where
  owners_le : (r.owners d).length ≤ 2
  owners_differ : (r.owners d).Pairwise fun f g => f.type.isNone ≠ g.type.isNone
  found_iff : ∀ f, r.lookup? d = some f ↔
    ∃ before after, r.families = before ++ f :: after ∧ f.owns d = true ∧
      ∀ g ∈ before, g.owns d = false
  missed_iff : r.lookup? d = none ↔ ∀ f ∈ r.families, f.owns d = false
  parse_found : ∀ f, r.lookup? d = some f → r.parse d = (f.decode d).map some
  parse_missed : r.lookup? d = none → r.parse d = .ok none

theorem parse_of_lookup?_eq_some (h : r.lookup? d = some f) :
    r.parse d = (f.decode d).map some := by
  have hfd : f.owns d = true := by simpa using List.find?_some h
  rw [parse, h]
  simp only [Family.parse, hfd, if_true]

theorem parse_of_lookup?_eq_none (h : r.lookup? d = none) : r.parse d = .ok none := by
  rw [parse, h]

theorem findsFirst (r : Registry ρ) (d : Document) : r.FindsFirst d where
  owners_le := r.length_owners_le d
  owners_differ := r.pairwise_owners d
  found_iff _ := lookup?_eq_some_iff_first
  missed_iff := lookup?_eq_none_iff
  parse_found _ := parse_of_lookup?_eq_some
  parse_missed := parse_of_lookup?_eq_none

/-- Families are refused exactly when two of them have the same key, and otherwise all of them are
kept in order. The registry finds the first owner of a document. A family is found for no document
exactly when a family of its kind for any type stands before it. The same families in an order that
keeps what they hide make a registry that finds the same. -/
theorem ofFamilies_exact (fs : List (Family ρ)) :
    ((∃ f ∈ fs, ofFamilies fs = .error (.duplicateFamily f.kind f.type)) ↔
      ∃ f g, Precedes fs f g ∧ f.key = g.key) ∧
    ((¬∃ f g, Precedes fs f g ∧ f.key = g.key) → ∃ r, ofFamilies fs = .ok r) ∧
    ∀ r, ofFamilies fs = .ok r → r.families = fs ∧ (∀ d, r.FindsFirst d) ∧
      (∀ f ∈ fs, (∀ d, r.lookup? d ≠ some f) ↔
        ∃ g, Precedes fs g f ∧ g.kind = f.kind ∧ g.type = none) ∧
      ∀ gs, gs.Perm fs → SameHiding fs gs →
        ∃ r', ofFamilies gs = .ok r' ∧ ∀ d, r'.lookup? d = r.lookup? d := by
  refine ⟨?_, ?_, ?_⟩
  · rw [← not_iff_not, ← Family.nodup_keys_iff]
    constructor
    · intro h
      cases hfs : ofFamilies fs with
      | ok r => exact (ofFamilies_eq_ok_iff.mp hfs).1
      | error fault =>
        obtain ⟨before, f, after, heq, -, -, rfl⟩ := ofFamilies_eq_error_iff.mp hfs
        exact absurd ⟨f, by simp [heq], hfs⟩ h
    · rintro h ⟨f, -, hfs⟩
      rw [ofFamilies_eq_ok_iff (r := ⟨fs, h⟩).mpr ⟨h, rfl⟩] at hfs
      cases hfs
  · intro h
    rw [← Family.nodup_keys_iff] at h
    exact ⟨⟨fs, h⟩, ofFamilies_eq_ok_iff.mpr ⟨h, rfl⟩⟩
  · intro r hr
    obtain ⟨hnodup, rfl⟩ := ofFamilies_eq_ok_iff.mp hr
    refine ⟨rfl, r.findsFirst, fun f hf => ⟨fun hnever => ?_, ?_⟩, fun gs hperm hhiding => ?_⟩
    · by_contra hnone
      obtain ⟨d, hd⟩ := exists_lookup?_eq_some hf fun g hg hkind htype =>
        hnone ⟨g, hg, hkind, htype⟩
      exact hnever d hd
    · rintro ⟨g, hg, hkind, htype⟩
      exact lookup?_ne_of_precedes hg hkind htype
    · have hgs : (gs.map Family.key).Nodup := (hperm.map _).nodup_iff.mpr hnodup
      exact ⟨⟨gs, hgs⟩, ofFamilies_eq_ok_iff.mpr ⟨hgs, rfl⟩,
        lookup?_eq_of_sameHiding hperm hhiding⟩

/-- Jobs of one type, or of any. -/
def job (type : Option String) : Family String := ⟨"job", type, fun d => .ok d.name⟩

/-- Jobs of any type between those of two types. -/
def jobs : List (Family String) := [job (some "build"), job none, job (some "test")]

/-- The family behind the one for any type is found for no document, and this one is for some. -/
theorem ofFamilies_exact_jobs :
    ∃ r, ofFamilies jobs = .ok r ∧ (∀ d, r.lookup? d ≠ some (job (some "test"))) ∧
      ∃ d, r.lookup? d = some (job none) := by
  obtain ⟨-, haccepted, hexact⟩ := ofFamilies_exact jobs
  obtain ⟨r, hr⟩ := haccepted (Family.nodup_keys_iff.mp (by decide))
  obtain ⟨-, -, hnever, -⟩ := hexact r hr
  refine ⟨r, hr, ?_, ?_⟩
  · exact (hnever _ (by simp [jobs])).mpr
      ⟨job none, Family.precedes_append [job (some "build")] _ (by simp), rfl, rfl⟩
  · by_contra hnone
    obtain ⟨g, hg, -, htype⟩ := (hnever (job none) (by simp [jobs])).mp fun d hd => hnone ⟨d, hd⟩
    simp only [jobs, Family.precedes_cons_iff] at hg
    rcases hg with ⟨rfl, -⟩ | ⟨-, hmem⟩ | ⟨-, hmem⟩ | hnil
    · cases htype
    · simp [job] at hmem
    · cases hmem
    · cases hnil

end Registry

end PipelineManifest
