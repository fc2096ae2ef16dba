import Mathlib.Data.List.Forall2
import Mathlib.Data.List.Induction
import PipelineManifest.Proofs.Value.WellFormed

/-!
# `PipelineManifest.Proofs.Value.Entries`: mappings that are entered entry by entry

A mapping is built by entering its entries one after the other. A key that comes again keeps its
place, and gets the new value. Which entries are left depends only on which keys are the same.

* `kept`: for every key of a list the first item that has it, and the last one.
* `kept_congr`: the same items are left where the same keys are the same.
* `ofEntries_eq_map_kept`: the entries that are left have the keys of the first items and the
  values of the last ones.
* `nodup_keys_ofEntries`, `keys_ofEntries`, `exists_last_of_mem_ofEntries`: the same for the keys
  and for each entry that is left.
* `lookup?_ofEntries_str`: what is found under a text is the last value that was entered under it.
* `field?_eq_map_lookup?`, `entries_eq_map`: a value that is taken out of a mapping, and what stands
  in it for the mapping.
* `isScalar_detach`, `map_isScalar_items`: what is taken out is a container exactly if it was one.
-/

set_option autoImplicit false

namespace PipelineManifest.Value

/-! ### The items that are left -/

section Kept

variable {ε : Type} (same : ε → ε → Bool)

/-- The items with one more: it becomes the last one of its key, and also the first one where the
key is new. -/
def keep (e : ε) : List (ε × ε) → List (ε × ε)
  | [] => [(e, e)]
  | p :: ps => if same p.1 e then (p.1, e) :: ps else p :: keep e ps

/-- For every key of a list the first item that has it, and the last one. -/
def kept (es : List ε) : List (ε × ε) := es.foldl (fun ps e => keep same e ps) []

variable {same}

/-- What holds of nothing, and after every item if it held before, holds of what is left. -/
theorem kept_induction {P : List (ε × ε) → Prop} {es : List ε} (hnil : P [])
    (hkeep : ∀ e ∈ es, ∀ ps, P ps → P (keep same e ps)) : P (kept same es) := by
  have hfold : ∀ ps, P ps → P (es.foldl (fun ps e => keep same e ps) ps) := by
    induction es with
    | nil => exact fun ps hps => hps
    | cons e es ih =>
      intro ps hps
      exact ih (fun x hx => hkeep x (List.mem_cons_of_mem _ hx)) _
        (hkeep e List.mem_cons_self ps hps)
  exact hfold [] hnil

/-- An item is entered as the last one of its key; the first ones stay. -/
theorem mem_keep {e : ε} {ps : List (ε × ε)} {p : ε × ε} (h : p ∈ keep same e ps) :
    (p.1 = e ∨ p.1 ∈ ps.map Prod.fst) ∧ (p.2 = e ∨ p ∈ ps) := by
  induction ps with
  | nil =>
    rw [keep, List.mem_singleton] at h
    subst h
    exact ⟨.inl rfl, .inl rfl⟩
  | cons q ps ih =>
    rw [keep] at h
    split at h
    · rcases List.mem_cons.mp h with rfl | hp
      · exact ⟨.inr List.mem_cons_self, .inl rfl⟩
      · exact ⟨.inr (List.mem_cons_of_mem _ (List.mem_map_of_mem hp)),
          .inr (List.mem_cons_of_mem _ hp)⟩
    · rcases List.mem_cons.mp h with rfl | hp
      · exact ⟨.inr List.mem_cons_self, .inr List.mem_cons_self⟩
      · obtain ⟨hfirst, hlast⟩ := ih hp
        exact ⟨hfirst.imp_right (List.mem_cons_of_mem _), hlast.imp_right (List.mem_cons_of_mem _)⟩

/-- What is left are items of the list. -/
theorem mem_of_mem_kept {es : List ε} {p : ε × ε} (h : p ∈ kept same es) :
    p.1 ∈ es ∧ p.2 ∈ es := by
  have hall : ∀ p ∈ kept same es, p.1 ∈ es ∧ p.2 ∈ es := by
    refine kept_induction (P := fun ps => ∀ p ∈ ps, p.1 ∈ es ∧ p.2 ∈ es) (by simp) ?_
    intro e he ps ih p hp
    obtain ⟨hfirst, hlast⟩ := mem_keep hp
    refine ⟨?_, ?_⟩
    · rcases hfirst with hfirst | hfirst
      · exact hfirst ▸ he
      · obtain ⟨q, hq, hpq⟩ := List.mem_map.mp hfirst
        exact hpq ▸ (ih q hq).1
    · rcases hlast with hlast | hlast
      · exact hlast ▸ he
      · exact (ih p hlast).2
  exact hall p h

/-- Every key is that of the last item in its place. -/
theorem same_of_mem_kept {es : List ε} (hsame : ∀ e ∈ es, same e e = true) :
    ∀ p ∈ kept same es, same p.1 p.2 = true := by
  refine kept_induction (P := fun ps => ∀ p ∈ ps, same p.1 p.2 = true) (by simp) ?_
  intro e he ps ih
  induction ps with
  | nil =>
    intro p hp
    rw [keep, List.mem_singleton] at hp
    subst hp
    exact hsame e he
  | cons q ps ihps =>
    intro p hp
    rw [keep] at hp
    split at hp
    · rename_i hq
      rcases List.mem_cons.mp hp with rfl | hp
      · exact hq
      · exact ih p (List.mem_cons_of_mem _ hp)
    · rcases List.mem_cons.mp hp with rfl | hp
      · exact ih _ List.mem_cons_self
      · exact ihps (fun r hr => ih r (List.mem_cons_of_mem _ hr)) p hp

/-- No key is that of an item in a later place. -/
theorem pairwise_kept (es : List ε) :
    (kept same es).Pairwise fun p q => same p.1 q.1 = false ∧ same p.1 q.2 = false := by
  refine kept_induction
    (P := List.Pairwise fun p q => same p.1 q.1 = false ∧ same p.1 q.2 = false) .nil ?_
  intro e _ ps ih
  induction ps with
  | nil => exact List.pairwise_singleton _ _
  | cons r ps ihps =>
    obtain ⟨hr, hps⟩ := List.pairwise_cons.mp ih
    rw [keep]
    split
    · exact List.pairwise_cons.mpr ⟨hr, hps⟩
    · rename_i hre
      have hre : same r.1 e = false := by simpa using hre
      refine List.pairwise_cons.mpr ⟨fun q hq => ?_, ihps hps⟩
      obtain ⟨hfirst, hlast⟩ := mem_keep hq
      refine ⟨?_, ?_⟩
      · rcases hfirst with hfirst | hfirst
        · exact hfirst ▸ hre
        · obtain ⟨t, ht, htq⟩ := List.mem_map.mp hfirst
          exact htq ▸ (hr t ht).1
      · rcases hlast with hlast | hlast
        · exact hlast ▸ hre
        · exact (hr q hlast).2

/-- The same items are left where the same keys are the same. -/
theorem kept_congr {same' : ε → ε → Bool} {es : List ε}
    (h : ∀ a ∈ es, ∀ b ∈ es, same a b = same' a b) : kept same es = kept same' es := by
  have hkeep : ∀ e ∈ es, ∀ ps : List (ε × ε), (∀ p ∈ ps, p.1 ∈ es) →
      keep same e ps = keep same' e ps := by
    intro e he ps hps
    induction ps with
    | nil => rfl
    | cons p ps ih =>
      rw [keep, keep, h p.1 (hps p List.mem_cons_self) e he,
        ih fun q hq => hps q (List.mem_cons_of_mem _ hq)]
  have hfold : ∀ rest : List ε, (∀ e ∈ rest, e ∈ es) → ∀ ps : List (ε × ε), (∀ p ∈ ps, p.1 ∈ es) →
      rest.foldl (fun ps e => keep same e ps) ps = rest.foldl (fun ps e => keep same' e ps) ps := by
    intro rest hrest
    induction rest with
    | nil => exact fun _ _ => rfl
    | cons e rest ih =>
      intro ps hps
      have he := hrest e List.mem_cons_self
      rw [List.foldl_cons, List.foldl_cons, ← hkeep e he ps hps]
      refine ih (fun x hx => hrest x (List.mem_cons_of_mem _ hx)) _ fun p hp => ?_
      rcases (mem_keep hp).1 with hfirst | hfirst
      · exact hfirst ▸ he
      · obtain ⟨q, hq, hpq⟩ := List.mem_map.mp hfirst
        exact hpq ▸ hps q hq
  exact hfold es (fun _ he => he) [] (by simp)

end Kept

/-! ### Entering entries -/

section Enter

variable {α : Type}

/-- The entries that are left have the keys of the first items and the values of the last ones. -/
theorem ofEntries_eq_map_kept {ε : Type} (key : ε → Value) (value : ε → α) (es : List ε) :
    ofEntries (es.map fun e => (key e, value e))
      = (kept (fun a b => sameKey (key a) (key b)) es).map fun p => (key p.1, value p.2) := by
  have hkeep : ∀ e (ps : List (ε × ε)),
      insertEntry (key e) (value e) (ps.map fun p => (key p.1, value p.2))
        = (keep (fun a b => sameKey (key a) (key b)) e ps).map fun p => (key p.1, value p.2) := by
    intro e ps
    induction ps with
    | nil => rfl
    | cons p ps ih =>
      rw [List.map_cons, insertEntry, keep, ih]
      split <;> rfl
  have hfold : ∀ ps : List (ε × ε),
      (es.map fun e => (key e, value e)).foldl (fun l e => insertEntry e.1 e.2 l)
          (ps.map fun p => (key p.1, value p.2))
        = (es.foldl (fun ps e => keep (fun a b => sameKey (key a) (key b)) e ps) ps).map
            fun p => (key p.1, value p.2) := by
    induction es with
    | nil => exact fun _ => rfl
    | cons e es ih =>
      intro ps
      rw [List.map_cons, List.foldl_cons, List.foldl_cons, hkeep, ih]
  exact hfold []

/-- Mapping the values of the entries maps those that are left. -/
theorem ofEntries_map {β : Type} (f : α → β) (es : List (Value × α)) :
    ofEntries (es.map fun e => (e.1, f e.2)) = (ofEntries es).map fun e => (e.1, f e.2) := by
  have hself := ofEntries_eq_map_kept (fun e : Value × α => e.1) (fun e => e.2) es
  rw [List.map_id'] at hself
  rw [ofEntries_eq_map_kept (fun e : Value × α => e.1), hself, List.map_map]
  rfl

/-- One more entry. -/
theorem ofEntries_concat (es : List (Value × α)) (k : Value) (v : α) :
    ofEntries (es ++ [(k, v)]) = insertEntry k v (ofEntries es) := by
  rw [ofEntries, List.foldl_append]
  rfl

/-- Of entries some are left. -/
theorem ofEntries_eq_nil_iff {es : List (Value × α)} : ofEntries es = [] ↔ es = [] := by
  constructor
  · intro h
    induction es using List.reverseRecOn with
    | nil => rfl
    | append_singleton es e _ =>
      obtain ⟨k, v⟩ := e
      rw [ofEntries_concat] at h
      cases hes : ofEntries es with
      | nil =>
        rw [hes] at h
        cases h
      | cons f fs =>
        obtain ⟨l, w⟩ := f
        rw [hes, insertEntry] at h
        split at h <;> cases h
  · rintro rfl
    rfl

/-- The keys of the entries that are left are different. -/
theorem areDistinct_keys_ofEntries (es : List (Value × α)) :
    areDistinct ((ofEntries es).map Prod.fst) = true := by
  have hself := ofEntries_eq_map_kept (fun e : Value × α => e.1) (fun e => e.2) es
  rw [List.map_id'] at hself
  rw [hself, List.map_map]
  have hpairwise : (kept (fun a b : Value × α => sameKey a.1 b.1) es).Pairwise _ := pairwise_kept es
  generalize kept (fun a b : Value × α => sameKey a.1 b.1) es = ps at hpairwise
  induction ps with
  | nil => rfl
  | cons p ps ih =>
    obtain ⟨hp, hps⟩ := List.pairwise_cons.mp hpairwise
    rw [List.map_cons, areDistinct, Bool.and_eq_true, ih hps, Bool.not_eq_true', List.any_eq_false]
    refine ⟨fun k hk => ?_, rfl⟩
    obtain ⟨q, hq, rfl⟩ := List.mem_map.mp hk
    exact Bool.eq_false_iff.mp (hp q hq).1

theorem mem_of_mem_ofEntries {es : List (Value × α)} {e : Value × α} (h : e ∈ ofEntries es) :
    (∃ f ∈ es, f.1 = e.1) ∧ ∃ f ∈ es, f.2 = e.2 := by
  have hself := ofEntries_eq_map_kept (fun e : Value × α => e.1) (fun e => e.2) es
  rw [List.map_id'] at hself
  rw [hself] at h
  obtain ⟨p, hp, rfl⟩ := List.mem_map.mp h
  obtain ⟨hfirst, hlast⟩ := mem_of_mem_kept hp
  exact ⟨⟨p.1, hfirst, rfl⟩, ⟨p.2, hlast, rfl⟩⟩

/-- The same where every key is the same as itself. -/
theorem nodup_keys_ofEntries {es : List (Value × α)} (h : ∀ e ∈ es, sameKey e.1 e.1 = true) :
    ((ofEntries es).map Prod.fst).Nodup := by
  have hself : ∀ k ∈ (ofEntries es).map Prod.fst, sameKey k k = true := by
    intro k hk
    obtain ⟨p, hp, rfl⟩ := List.mem_map.mp hk
    obtain ⟨⟨e, he, hkey⟩, -⟩ := mem_of_mem_ofEntries hp
    exact hkey ▸ h e he
  have hdistinct := areDistinct_keys_ofEntries es
  generalize (ofEntries es).map Prod.fst = ks at hself hdistinct
  induction ks with
  | nil => exact List.nodup_nil
  | cons k ks ih =>
    obtain ⟨hk, hks⟩ := List.forall_mem_cons.mp hself
    rw [areDistinct, Bool.and_eq_true, Bool.not_eq_true', List.any_eq_false] at hdistinct
    exact List.nodup_cons.mpr ⟨fun hmem => hdistinct.1 k hmem hk, ih hks hdistinct.2⟩

/-- A new key is put behind the others, and under an old one no key changes. -/
theorem keys_insertEntry (k : Value) (v : α) (es : List (Value × α)) :
    (insertEntry k v es).map Prod.fst
      = if (es.map Prod.fst).any (sameKey · k) then es.map Prod.fst
        else es.map Prod.fst ++ [k] := by
  induction es with
  | nil => rfl
  | cons e es ih =>
    obtain ⟨l, w⟩ := e
    rw [insertEntry, List.map_cons, List.any_cons]
    cases hl : sameKey l k with
    | true => rfl
    | false =>
      show l :: (insertEntry k v es).map Prod.fst = _
      rw [ih, Bool.false_or]
      split <;> rfl

/-- The keys of the entries that are left are those of all entries, each where it comes first. -/
theorem keys_ofEntries (es : List (Value × α)) :
    (ofEntries es).map Prod.fst = distinct (es.map Prod.fst) := by
  have hfold : ∀ l : List (Value × α),
      (es.foldl (fun l e => insertEntry e.1 e.2 l) l).map Prod.fst
        = (es.map Prod.fst).foldl (fun ks k => if ks.any (sameKey · k) then ks else ks ++ [k])
            (l.map Prod.fst) := by
    induction es with
    | nil => exact fun _ => rfl
    | cons e es ih =>
      intro l
      rw [List.foldl_cons, ih, List.map_cons, List.foldl_cons, keys_insertEntry]
  exact hfold []

/-- After an entry has been entered, no other entry has its key. Keys are taken for the same only if
they are equal, as texts are. -/
theorem mem_insertEntry {k : Value} {v : α} {es : List (Value × α)} {p : Value × α}
    (hsame : ∀ e ∈ es, sameKey e.1 k = true ↔ e.1 = k)
    (hdistinct : areDistinct (es.map Prod.fst) = true) (h : p ∈ insertEntry k v es) :
    p = (k, v) ∨ p ∈ es ∧ p.1 ≠ k := by
  induction es with
  | nil => exact .inl (List.mem_singleton.mp h)
  | cons e es ih =>
    obtain ⟨l, w⟩ := e
    obtain ⟨hl, hsame'⟩ := List.forall_mem_cons.mp hsame
    rw [List.map_cons, areDistinct, Bool.and_eq_true, Bool.not_eq_true', List.any_eq_false]
      at hdistinct
    rw [insertEntry] at h
    split at h
    · rename_i hlk
      have heq : l = k := hl.mp hlk
      rcases List.mem_cons.mp h with rfl | hp
      · exact .inl (by rw [heq])
      -- Behind the entry that is replaced no key is the same.
      · refine .inr ⟨List.mem_cons_of_mem _ hp, fun hpk => ?_⟩
        refine hdistinct.1 p.1 (List.mem_map_of_mem hp) ?_
        rw [hpk]
        exact hlk
    · rename_i hlk
      rcases List.mem_cons.mp h with rfl | hp
      · exact .inr ⟨List.mem_cons_self, fun heq => hlk (hl.mpr heq)⟩
      · exact (ih hsame' hdistinct.2 hp).imp_right fun hp => ⟨List.mem_cons_of_mem _ hp.1, hp.2⟩

/-- An entry that is left is the last one of its key. -/
theorem exists_last_of_mem_ofEntries {es : List (Value × α)}
    (hsame : ∀ e ∈ es, ∀ f ∈ es, sameKey e.1 f.1 = true ↔ e.1 = f.1) {p : Value × α}
    (hp : p ∈ ofEntries es) :
    ∃ before after, es = before ++ p :: after ∧ ∀ f ∈ after, f.1 ≠ p.1 := by
  induction es using List.reverseRecOn with
  | nil => cases hp
  | append_singleton es e ih =>
    obtain ⟨k, v⟩ := e
    have hlast : ∀ f ∈ ofEntries es, sameKey f.1 k = true ↔ f.1 = k := by
      intro f hf
      obtain ⟨⟨f', hf', hkey⟩, -⟩ := mem_of_mem_ofEntries hf
      rw [← hkey]
      exact hsame f' (List.mem_append_left _ hf') (k, v) (by simp)
    rw [ofEntries_concat] at hp
    rcases mem_insertEntry hlast (areDistinct_keys_ofEntries es) hp with rfl | ⟨hp, hne⟩
    · exact ⟨es, [], rfl, by simp⟩
    · obtain ⟨before, after, heq, hafter⟩ := ih (fun e he f hf => hsame e
        (List.mem_append_left _ he) f (List.mem_append_left _ hf)) hp
      refine ⟨before, after ++ [(k, v)], by simp [heq], fun f hf => ?_⟩
      rcases List.mem_append.mp hf with hf | hf
      · exact hafter f hf
      · rw [List.mem_singleton.mp hf]
        exact hne.symm

end Enter

/-! ### Lookups -/

theorem sameKey_str_left_iff {k : Value} {s : String} : sameKey (str s) k = true ↔ k = str s := by
  have h : sameKey (str s) k = equal (str s) k := by
    unfold sameKey
    split
    · rename_i h
      cases h
    · rfl
  rw [h]
  cases k <;> simp [equal, sameQuantity, quantity?, eq_comm]

section Lookup

variable {α : Type}

/-- Entering an entry changes what is found under its own key only. -/
theorem lookup?_insertEntry_str (name : String) (k : Value) (v : α) (es : List (Value × α)) :
    lookup? (str name) (insertEntry k v es)
      = if sameKey k (str name) then some v else lookup? (str name) es := by
  induction es with
  | nil => rfl
  | cons e es ih =>
    obtain ⟨l, w⟩ := e
    rw [insertEntry]
    by_cases hk : k = str name
    · subst hk
      rw [sameKey_str_str, decide_eq_true rfl, if_pos rfl]
      split
      · rename_i hl
        rw [lookup?_cons, if_pos hl]
      · rename_i hl
        rw [lookup?_cons, if_neg hl, ih, sameKey_str_str, decide_eq_true rfl, if_pos rfl]
    · have hname : sameKey k (str name) = false :=
        Bool.eq_false_iff.mpr fun h => hk (sameKey_str_iff.mp h)
      rw [hname] at ih ⊢
      split
      · rename_i hl
        have hne : sameKey l (str name) = false := by
          refine Bool.eq_false_iff.mpr fun h => ?_
          rw [sameKey_str_iff.mp h, sameKey_str_left_iff] at hl
          exact hk hl
        rw [lookup?_cons, lookup?_cons, hne]
        rfl
      · rw [lookup?_cons, lookup?_cons, ih]
        rfl

/-- What is found under a text is the last value that was entered under it. -/
theorem lookup?_ofEntries_str (name : String) (es : List (Value × α)) :
    lookup? (str name) (ofEntries es)
      = (es.reverse.find? fun e => sameKey e.1 (str name)).map Prod.snd := by
  have hfold : ∀ l : List (Value × α),
      lookup? (str name) (es.foldl (fun l e => insertEntry e.1 e.2 l) l)
        = ((es.reverse.find? fun e => sameKey e.1 (str name)).map Prod.snd).or
            (lookup? (str name) l) := by
    induction es with
    | nil => exact fun _ => rfl
    | cons e es ih =>
      intro l
      rw [List.foldl_cons, ih, lookup?_insertEntry_str, List.reverse_cons, List.find?_append]
      cases es.reverse.find? fun e => sameKey e.1 (str name) with
      | some f => rfl
      | none =>
        cases hname : sameKey e.1 (str name) with
        | true => simp [hname]
        | false => simp [hname]
  rw [ofEntries, hfold, lookup?_nil, Option.or_none]

/-- Of two lists of entries that are related one by one, the same keys being the text, what is found
under the text is related. -/
theorem rel_lookup?_ofEntries {β : Type} {R : α → β → Prop} {name : String}
    {es : List (Value × α)} {fs : List (Value × β)}
    (h : List.Forall₂ (fun e f => (e.1 = str name ↔ f.1 = str name) ∧ R e.2 f.2) es fs) :
    Option.Rel R (lookup? (str name) (ofEntries es)) (lookup? (str name) (ofEntries fs)) := by
  have hfind : ∀ {es : List (Value × α)} {fs : List (Value × β)},
      List.Forall₂ (fun e f => (e.1 = str name ↔ f.1 = str name) ∧ R e.2 f.2) es fs →
      Option.Rel R ((es.find? fun e => sameKey e.1 (str name)).map Prod.snd)
        ((fs.find? fun f => sameKey f.1 (str name)).map Prod.snd) := by
    intro es fs h
    induction h with
    | nil => exact .none
    | @cons e f es fs hef _ ih =>
      have hkey : sameKey e.1 (str name) = sameKey f.1 (str name) := by
        rw [Bool.eq_iff_iff, sameKey_str_iff, sameKey_str_iff, hef.1]
      rw [List.find?_cons, List.find?_cons, hkey]
      cases sameKey f.1 (str name) with
      | true => exact .some hef.2
      | false => exact ih
  rw [lookup?_ofEntries_str, lookup?_ofEntries_str]
  exact hfind (List.forall₂_reverse_iff.mpr h)

end Lookup

/-! ### Values that are taken out -/

theorem detachEntries_eq_map (outer : Nat → Value) (depth : Nat) (es : List (Value × Value)) :
    detachEntries outer depth es = es.map fun e => (e.1, detach outer depth e.2) := by
  induction es with
  | nil => rfl
  | cons e es ih =>
    obtain ⟨k, v⟩ := e
    rw [detachEntries, ih, List.map_cons]

/-- Parts can be taken out before the entries are entered. -/
theorem ofEntries_detachEntries (outer : Nat → Value) (depth : Nat) (es : List (Value × Value)) :
    ofEntries (detachEntries outer depth es) = detachEntries outer depth (ofEntries es) := by
  rw [detachEntries_eq_map, detachEntries_eq_map, ofEntries_map]

/-- Entering an entry under a key replaces the value in the first place that has the key. -/
theorem insertEntry_append {α : Type} {before : List (Value × α)} {key l : Value}
    (hbefore : ∀ b ∈ before, sameKey b.1 key = false) (hl : sameKey l key = true) (v w : α)
    (after : List (Value × α)) :
    insertEntry key v (before ++ (l, w) :: after) = before ++ (l, v) :: after := by
  induction before with
  | nil => rw [List.nil_append, insertEntry, if_pos hl, List.nil_append]
  | cons b before ih =>
    rw [List.cons_append, insertEntry, hbefore b List.mem_cons_self,
      ih fun c hc => hbefore c (List.mem_cons_of_mem _ hc)]
    rfl

/-- The values of a mapping, taken out. In what stands for the mapping the value's own place holds a
reference to the value. -/
theorem entries_eq_map {π : Type} {key : π → Value} (own : π → Value) {value : π → Value}
    {ps : List π}
    (hpairwise : ps.Pairwise fun p q => sameKey (key p) (own q) = false)
    (hown : ∀ p ∈ ps, sameKey (key p) (own p) = true) {es : List (Value × Value)}
    (hes : es = ps.map fun p => (key p, value p)) :
    entries es = ps.map fun p =>
      (key p, detach (fun d => map (insertEntry (own p) (back d) es)) 0 (value p)) := by
  -- The place of an entry is known from the entries before it, so the induction keeps those.
  have hfrom : ∀ (rest : List π) (before : List (Value × Value)),
      rest.Pairwise (fun p q => sameKey (key p) (own q) = false) → (∀ p ∈ rest, p ∈ ps) →
      (∀ p ∈ rest, ∀ b ∈ before, sameKey b.1 (own p) = false) →
      es = before ++ rest.map (fun p => (key p, value p)) →
      detachedEntries before (rest.map fun p => (key p, value p)) = rest.map fun p =>
        (key p, detach (fun d => map (insertEntry (own p) (back d) es)) 0 (value p)) := by
    intro rest
    induction rest with
    | nil => exact fun _ _ _ _ _ => rfl
    | cons p rest ih =>
      intro before hrest hmem hbefore heq
      obtain ⟨hp, hrest⟩ := List.pairwise_cons.mp hrest
      have houter : (fun d => map (before ++ (key p, back d) :: rest.map fun p => (key p, value p)))
          = fun d => map (insertEntry (own p) (back d) es) := by
        funext d
        rw [heq, List.map_cons, insertEntry_append (hbefore p List.mem_cons_self)
          (hown p (hmem p List.mem_cons_self))]
      rw [List.map_cons, List.map_cons, detachedEntries, houter]
      refine congrArg (List.cons _)
        (ih _ hrest (fun q hq => hmem q (List.mem_cons_of_mem _ hq)) ?_ ?_)
      · intro q hq b hb
        rcases List.mem_append.mp hb with hb | hb
        · exact hbefore q (List.mem_cons_of_mem _ hq) b hb
        · rw [List.mem_singleton.mp hb]
          exact hp q hq
      · rw [heq]
        simp
  rw [entries]
  conv => lhs; rw [hes]
  exact hfrom ps [] hpairwise (fun _ hp => hp) (by simp) hes

/-- A field of a mapping, taken out. -/
theorem field?_eq_map_lookup? (name : String) (es : List (Value × Value)) :
    field? name es = (lookup? (str name) es).map fun v =>
      detach (fun d => map (insertEntry (str name) (back d) es)) 0 v := by
  have hfrom : ∀ (rest before : List (Value × Value)),
      (∀ b ∈ before, sameKey b.1 (str name) = false) → es = before ++ rest →
      lookup? (str name) (detachedEntries before rest) = (lookup? (str name) rest).map fun v =>
        detach (fun d => map (insertEntry (str name) (back d) es)) 0 v := by
    intro rest
    induction rest with
    | nil => exact fun _ _ _ => rfl
    | cons e rest ih =>
      intro before hbefore heq
      obtain ⟨k, v⟩ := e
      rw [detachedEntries, lookup?_cons, lookup?_cons]
      cases hk : sameKey k (str name) with
      | true =>
        have houter : (fun d => map (before ++ (k, back d) :: rest))
            = fun d => map (insertEntry (str name) (back d) es) := by
          funext d
          rw [heq, insertEntry_append hbefore hk]
        rw [houter]
        rfl
      | false =>
        refine ih _ (fun b hb => ?_) (by rw [heq]; simp)
        rcases List.mem_append.mp hb with hb | hb
        · exact hbefore b hb
        · rw [List.mem_singleton.mp hb]
          exact hk
  exact hfrom es [] (by simp) rfl

/-! ### Containers among the parts -/

/-- A value that is taken out is a container exactly if it was one before, since what stands for the
containers around it are containers. -/
theorem isScalar_detach {outer : Nat → Value} (houter : ∀ d, (outer d).isScalar = false)
    (depth : Nat) (v : Value) : (detach outer depth v).isScalar = v.isScalar := by
  cases v with
  | back n =>
    rw [detach]
    split
    · exact houter depth
    · rfl
  | _ => rfl

theorem map_isScalar_detachItems {outer : Nat → Value} (houter : ∀ d, (outer d).isScalar = false)
    (depth : Nat) (vs : List Value) :
    (detachItems outer depth vs).map isScalar = vs.map isScalar := by
  induction vs with
  | nil => rfl
  | cons v vs ih => rw [detachItems, List.map_cons, List.map_cons, isScalar_detach houter, ih]

theorem map_isScalar_items (vs : List Value) : (items vs).map isScalar = vs.map isScalar := by
  have hfrom : ∀ before, (detachedItems seq before vs).map isScalar = vs.map isScalar := by
    induction vs with
    | nil => exact fun _ => rfl
    | cons v vs ih =>
      intro before
      rw [detachedItems, List.map_cons, List.map_cons, isScalar_detach fun _ => rfl, ih]
  exact hfrom []

/-- A field with a list is a list before it is taken out, with containers in the same places. -/
theorem exists_lookup?_of_field?_seq {name : String} {es : List (Value × Value)} {vs : List Value}
    (h : field? name es = some (seq vs)) :
    ∃ ws, lookup? (str name) es = some (seq ws) ∧
      (items vs).map isScalar = ws.map isScalar := by
  rw [field?_eq_map_lookup?, Option.map_eq_some_iff] at h
  obtain ⟨v, hv, h⟩ := h
  cases v with
  | seq ws =>
    cases h
    refine ⟨ws, hv, ?_⟩
    rw [map_isScalar_items, map_isScalar_detachItems fun _ => rfl]
  | back n =>
    rw [detach] at h
    split at h <;> cases h
  | _ => cases h

theorem exists_field?_of_lookup?_seq {name : String} {es : List (Value × Value)} {ws : List Value}
    (h : lookup? (str name) es = some (seq ws)) :
    ∃ vs, field? name es = some (seq vs) ∧ (items vs).map isScalar = ws.map isScalar := by
  rw [field?_eq_map_lookup?, h]
  refine ⟨_, rfl, ?_⟩
  rw [map_isScalar_items, map_isScalar_detachItems fun _ => rfl]

end PipelineManifest.Value
