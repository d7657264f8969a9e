import DeckMerge.Proofs.Deck.Layers
import DeckMerge.Proofs.Deck.Merged

/-!
Settings in layers: the defaults, the presets in the order they are named, and what is given explicitly. Each
setting is the one of the last layer that has it. A null counts in a preset and is left out of what is given.
-/

namespace DeckMerge.Deck

/-! ### Resolving -/

variable {ps : Presets} {names : List Text} {given : List (Key × Value)}

/-- The layers over the defaults. -/
def layersOf (ps : Presets) (names : List Text) (given : List (Key × Value)) : List (List (Key × Value)) :=
  names.map ps.fieldsOf ++ [Fields.withoutNulls given]

def merged (ps : Presets) (names : List Text) (given : List (Key × Value)) : List (Key × Value) :=
  Fields.layer Settings.default (layersOf ps names given).flatten

theorem layer_of_mem_layersOf (hps : ps.Flat) (hgiven : Layer given) (names : List Text) :
    ∀ more ∈ layersOf ps names given, Layer more := by
  intro more hmore
  rcases List.mem_append.1 hmore with hmore | hmore
  · obtain ⟨name, -, rfl⟩ := List.mem_map.1 hmore
    exact Presets.layer_fieldsOf hps name
  · obtain rfl := List.mem_singleton.1 hmore
    exact hgiven.withoutNulls

theorem layer_merged (hps : ps.Flat) (hgiven : Layer given) : Layer (merged ps names given) :=
  layer_default.layer (layer_of_mem_layersOf hps hgiven names)

/-- Where nothing is named, nothing is looked up; and where nothing is given, that is no layer of its own. -/
theorem resolve_eq (ps : Presets) (names : List Text) (given : List (Key × Value)) :
    Settings.resolve (.ok ps) names given = ps.layers names >>= fun layers =>
      (overlay Settings.default (layers ++
        if Fields.withoutNulls given = [] then [] else [.mapping (Fields.withoutNulls given)]) >>= fun fields =>
          Document.resolve (.mapping fields)).mapError .fault >>= fun
        | .mapping fields => Settings.ofMerged fields
        | _ => .error (.fault .wrongKind) := by
  rw [Settings.resolve]
  split
  case isTrue h => rw [h]; rfl
  case isFalse => rfl

theorem resolve_of_missing {name : Text} (hps : ps.Flat) (given : List (Key × Value))
    (hname : names.find? (ps.lookup · |>.isNone) = some name) :
    Settings.resolve (.ok ps) names given = .error (.refusal (.unknownPreset name (ps.map (·.1)))) := by
  rw [resolve_eq, Presets.layers_of_missing hps hname]
  rfl

theorem resolve_of_named (hps : ps.Flat) (hgiven : Layer given) (hnames : ∀ name ∈ names, (ps.lookup name).isSome) :
    Settings.resolve (.ok ps) names given = Settings.ofMerged (merged ps names given) := by
  have hover : overlay Settings.default ((names.map fun name => .mapping (ps.fieldsOf name)) ++
      if Fields.withoutNulls given = [] then [] else [.mapping (Fields.withoutNulls given)]) =
      .ok (merged ps names given) := by
    split
    case isTrue hnone =>
      have hpresets : ∀ more ∈ names.map ps.fieldsOf, Layer more :=
        List.forall_mem_map.2 fun name _ => Presets.layer_fieldsOf hps name
      have hlayers := overlay_of_layers layer_default hpresets
      rw [List.map_map] at hlayers
      rw [List.append_nil, merged, layersOf, hnone, List.flatten_append, List.flatten_singleton, List.append_nil]
      exact hlayers
    case isFalse =>
      have hlayers := overlay_of_layers layer_default (layer_of_mem_layersOf hps hgiven names)
      rw [layersOf, List.map_append, List.map_map] at hlayers
      exact hlayers
  rw [resolve_eq, Presets.layers_of_named hps hnames, Sequence.bind_ok, hover, Sequence.bind_ok,
    Document.resolve_of_plain (layer_merged hps hgiven).plain]
  rfl

/-! ### Orders of layers -/

theorem flatten_layersOf (ps : Presets) (names : List Text) (given : List (Key × Value)) :
    (layersOf ps names given).flatten = names.flatMap ps.fieldsOf ++ Fields.withoutNulls given := by
  rw [layersOf, List.flatten_append, List.flatten_singleton, List.flatMap_def]

/-- Layers that are missing alike and come to the same under each key are resolved alike. -/
theorem resolve_eq_resolve {names' : List Text} (hps : ps.Flat) (hgiven : Layer given)
    (hmissing : names.find? (ps.lookup · |>.isNone) = names'.find? (ps.lookup · |>.isNone))
    (hunder : ∀ i fields, Fields.layer fields (Fields.under i (names.flatMap ps.fieldsOf)) =
      Fields.layer fields (Fields.under i (names'.flatMap ps.fieldsOf))) :
    Settings.resolve (.ok ps) names given = Settings.resolve (.ok ps) names' given := by
  cases hfind : names'.find? (ps.lookup · |>.isNone) with
  | some name => rw [resolve_of_missing hps given hfind, resolve_of_missing hps given (hmissing.trans hfind)]
  | none =>
    have hnamed {names : List Text} (h : names.find? (ps.lookup · |>.isNone) = none) :
        ∀ name ∈ names, (ps.lookup name).isSome := by simpa using h
    rw [resolve_of_named hps hgiven (hnamed hfind), resolve_of_named hps hgiven (hnamed (hmissing.trans hfind))]
    -- The merged fields need not be in the same order, but settings do not show it.
    refine Settings.ofMerged_eq_of_perm (Fields.layer_perm layer_default.distinct fun i => ?_)
      (layer_merged hps hgiven).distinct
    simp only [flatten_layersOf, Fields.under_append, Fields.layer_append, hunder]

/-- Presets without a key in common can be swapped, if those between them have no key of theirs. -/
theorem resolve_swap (hps : ps.Flat) (hgiven : Layer given) {before between after : List Text} {a b : Text}
    (ha : (ps.lookup a).isSome) (hb : (ps.lookup b).isSome) (hab : ps.AreApart a b)
    (hbetween : ∀ n ∈ between, ps.AreApart n a ∧ ps.AreApart n b) :
    Settings.resolve (.ok ps) (before ++ a :: between ++ b :: after) given =
      Settings.resolve (.ok ps) (before ++ b :: between ++ a :: after) given := by
  have hdisjoint {x : Text} (h : ∀ n ∈ between, ps.AreApart n x) :
      (Fields.identities (between.flatMap ps.fieldsOf)).Disjoint (Fields.identities (ps.fieldsOf x)) := by
    intro i hi
    obtain ⟨f, hf, rfl⟩ := List.mem_map.1 hi
    obtain ⟨n, hn, hf⟩ := List.mem_flatMap.1 hf
    exact h n hn (Fields.mem_identities hf)
  have hgroup (x y : Text) : (before ++ x :: between ++ y :: after).flatMap ps.fieldsOf = before.flatMap ps.fieldsOf ++
      (ps.fieldsOf x ++ between.flatMap ps.fieldsOf ++ ps.fieldsOf y) ++ after.flatMap ps.fieldsOf := by
    simp [List.flatMap_append, List.flatMap_cons]
  refine resolve_eq_resolve hps hgiven ?_ fun i fields => ?_
  · have ha : (ps.lookup a).isNone = false := by rw [Option.isNone_eq_false_iff, ha]
    have hb : (ps.lookup b).isNone = false := by rw [Option.isNone_eq_false_iff, hb]
    simp [List.find?_append, ha, hb]
  · have hswap := Fields.under_swap (i := i) hab (hdisjoint fun n hn => (hbetween n hn).1)
      (hdisjoint fun n hn => (hbetween n hn).2)
    rw [hgroup, hgroup, Fields.under_append, Fields.under_append, hswap, ← Fields.under_append,
      ← Fields.under_append]

/-- A preset named once more right behind itself changes nothing. -/
theorem resolve_twice (hps : ps.Flat) (hgiven : Layer given) (before after : List Text) (a : Text) :
    Settings.resolve (.ok ps) (before ++ a :: a :: after) given =
      Settings.resolve (.ok ps) (before ++ a :: after) given := by
  refine resolve_eq_resolve hps hgiven ?_ fun i fields => ?_
  · cases h : (ps.lookup a).isNone <;> simp [List.find?_append, h]
  · simp only [List.flatMap_append, List.flatMap_cons, Fields.under_append, Fields.layer_append,
      Fields.layer_under_twice (Presets.layer_fieldsOf hps a).distinct]

/-! ### What is chosen -/

/-- What a setting is to be: the explicit value that is not null, or else that of the last preset that has
one, or else the default. -/
def chosen (ps : Presets) (names : List Text) (given : List (Key × Value)) (f : Key × Value) : Value :=
  (((given.lookup f.1).filter (!·.isNull)).or
    (names.reverse.findSome? fun name => (ps.fieldsOf name).lookup f.1)).getD f.2

theorem lookup_merged (hps : ps.Flat) (hgiven : Layer given) {f : Key × Value} (hf : f ∈ Settings.default) :
    ((merged ps names given).lookup f.1).getD f.2 = chosen ps names given f := by
  have hname : ∀ k ∈ Settings.default.map (·.1), ∃ name, k = .text name := by
    simp [Settings.default]
  obtain ⟨name, hname⟩ := hname f.1 (List.mem_map_of_mem hf)
  have hdefault : Settings.default.lookup f.1 = some f.2 := Association.lookup_eq_some_of_nodup (by decide) hf
  have hgiven' : (Fields.withoutNulls given).reverse.lookup f.1 = (given.lookup f.1).filter (!·.isNull) := by
    rw [← Association.lookup_eq_of_perm (List.reverse_perm _).symm (Fields.nodup_keys hgiven.withoutNulls.distinct),
      hname]
    exact Fields.get?_withoutNulls (Fields.nodup_keys hgiven.distinct) name
  have hpreset (n : Text) : (ps.fieldsOf n).reverse.lookup f.1 = (ps.fieldsOf n).lookup f.1 :=
    (Association.lookup_eq_of_perm (List.reverse_perm _).symm
      (Fields.nodup_keys (Presets.layer_fieldsOf hps n).distinct) _).symm
  have hpresets : (names.flatMap ps.fieldsOf).reverse.lookup f.1 =
      names.reverse.findSome? fun n => (ps.fieldsOf n).lookup f.1 := by
    rw [List.reverse_flatMap, Association.lookup_flatMap]
    exact congrArg (names.reverse.findSome? ·) (funext hpreset)
  have hlayer : (merged ps names given).lookup f.1 =
      ((layersOf ps names given).flatten.reverse.lookup f.1).or (Settings.default.lookup f.1) := by
    rw [hname]
    exact Fields.get?_layer _ _ name
  rw [hlayer, hdefault, layersOf, List.flatten_append, List.flatten_singleton, List.reverse_append, List.lookup_append,
    hgiven', ← List.flatMap_def, hpresets, Option.getD_or]
  rfl

theorem eq_of_resolve_eq_ok (hps : ps.Flat) (hgiven : Layer given) {s : Settings}
    (hs : Settings.resolve (.ok ps) names given = .ok s) :
    s = Settings.default.map fun f => (f.1, stored f.1 (chosen ps names given f)) := by
  cases hfind : names.find? (ps.lookup · |>.isNone) with
  | some name =>
    rw [resolve_of_missing hps given hfind] at hs
    cases hs
  | none =>
    rw [resolve_of_named hps hgiven (by simpa using hfind)] at hs
    rw [Settings.eq_of_ofMerged_eq_ok hs, filled, List.map_map]
    refine List.map_congr_left fun f hf => ?_
    simp only [Function.comp_apply, lookup_merged hps hgiven hf]

/-- Whether a key that is no setting is one of a preset that is named, or has an explicit value but null. -/
def IsStray (ps : Presets) (names : List Text) (given : List (Key × Value)) (k : Key) : Prop :=
  k ∉ settingNames.map Key.text ∧
    ((∃ name ∈ names, k ∈ (ps.fieldsOf name).map (·.1)) ∨ ∃ v, (k, v) ∈ given ∧ ¬ v.isNull)

/-- Whether a chosen number is below the bound of its setting. -/
def IsLow (ps : Presets) (names : List Text) (given : List (Key × Value)) : Prop :=
  ∃ f ∈ Settings.default, ∃ b ∈ lowerBounds, f.1 = .text b.1 ∧ isBelow (chosen ps names given f) b.2 = .ok true

theorem hasLow_merged_iff (hps : ps.Flat) (hgiven : Layer given) :
    HasLow (filled (merged ps names given)) lowerBounds ↔ IsLow ps names given := by
  have hlookup {f : Key × Value} (hf : f ∈ Settings.default) :
      (filled (merged ps names given)).lookup f.1 = some (chosen ps names given f) := by
    rw [lookup_filled _ hf, lookup_merged hps hgiven hf]
  have hdefault : ∀ b ∈ lowerBounds, (Settings.default.lookup (.text b.1)).isSome := by decide
  constructor
  · rintro ⟨b, hb, w, hw, hlow⟩
    obtain ⟨v, hv⟩ := Option.isSome_iff_exists.1 (hdefault b hb)
    have hv := Association.mem_of_lookup_eq_some hv
    rw [hlookup hv] at hw
    exact ⟨_, hv, b, hb, rfl, Option.some.inj hw ▸ hlow⟩
  · rintro ⟨f, hf, b, hb, hname, hlow⟩
    exact ⟨b, hb, _, hname ▸ hlookup hf, hlow⟩

theorem isStray_iff {k : Key} : IsStray ps names given k ↔
    k ∉ settingNames.map Key.text ∧ ∃ f ∈ (layersOf ps names given).flatten, f.1 = k := by
  refine and_congr_right fun _ => ?_
  simp only [flatten_layersOf, List.mem_append, or_and_right, exists_or, List.mem_flatMap, List.mem_map,
    Fields.withoutNulls, List.mem_filter]
  refine or_congr ⟨?_, ?_⟩ ⟨?_, ?_⟩
  · rintro ⟨name, hname, f, hf, rfl⟩
    exact ⟨f, ⟨name, hname, hf⟩, rfl⟩
  · rintro ⟨f, ⟨name, hname, hf⟩, rfl⟩
    exact ⟨name, hname, f, hf, rfl⟩
  · rintro ⟨v, hv, hsome⟩
    exact ⟨(k, v), ⟨hv, by simpa using hsome⟩, rfl⟩
  · rintro ⟨f, ⟨hf, hsome⟩, rfl⟩
    exact ⟨f.2, hf, by simpa using hsome⟩

theorem mem_settings_iff_of_identity {k k' : Key} (h : k.identity = k'.identity) :
    k ∈ settingNames.map Key.text ↔ k' ∈ settingNames.map Key.text := by
  simp only [List.mem_map]
  refine exists_congr fun name => and_congr_right fun _ => ?_
  rw [eq_comm, ← Key.identity_eq_text_iff, h, Key.identity_eq_text_iff, eq_comm]

/-- What holds of the keys among the merged fields that are no settings. -/
theorem forall_strays_merged_iff (ps : Presets) (names : List Text) (given : List (Key × Value))
    {p : Option Text ⊕ (Int × Rat) → Prop} :
    (∀ f ∈ strays (merged ps names given), p f.1.identity) ↔ ∀ k, IsStray ps names given k → p k.identity := by
  have hmem (f : Key × Value) (fields : List (Key × Value)) : f ∈ strays fields ↔
      f ∈ fields ∧ f.1 ∉ settingNames.map Key.text := by simp [strays]
  have hdefault : Fields.identities Settings.default = (settingNames.map Key.text).map Key.identity := rfl
  -- A merged field has its key in the form of the first layer with it, which may not be the one at hand.
  constructor
  · intro h k hk
    obtain ⟨hk, g, hg, rfl⟩ := isStray_iff.1 hk
    have hmerged : g.1.identity ∈ Fields.identities (merged ps names given) :=
      Fields.mem_identities_layer.2 (.inr (Fields.mem_identities hg))
    obtain ⟨f, hf, hsame⟩ := List.mem_map.1 hmerged
    exact hsame ▸ h f ((hmem f _).2 ⟨hf, fun hsetting => hk ((mem_settings_iff_of_identity hsame).1 hsetting)⟩)
  · intro h f hf
    obtain ⟨hf, hstray⟩ := (hmem f _).1 hf
    rcases Fields.mem_identities_layer.1 (Fields.mem_identities hf) with hknown | hover
    · rw [hdefault] at hknown
      obtain ⟨k, hk, hsame⟩ := List.mem_map.1 hknown
      exact absurd ((mem_settings_iff_of_identity hsame).1 hk) hstray
    · obtain ⟨g, hg, hsame⟩ := List.mem_map.1 hover
      refine hsame ▸ h g.1 (isStray_iff.2 ⟨fun hsetting => ?_, g, hg, rfl⟩)
      exact hstray ((mem_settings_iff_of_identity hsame).1 hsetting)

/-- Whether the keys that are no settings have an order: all of them are numbers or none is. -/
def AreSortable (ps : Presets) (names : List Text) (given : List (Key × Value)) : Prop :=
  (∀ k, IsStray ps names given k → isNumeric k) ∨ ∀ k, IsStray ps names given k → ¬ isNumeric k

theorem isSortable_strays_merged_iff :
    IsSortable ((strays (merged ps names given)).map (·.1)) ↔ AreSortable ps names given := by
  rw [IsSortable, List.forall_mem_map, List.forall_mem_map]
  exact or_congr (forall_strays_merged_iff ps names given (p := fun i => i.isRight))
    (forall_strays_merged_iff ps names given (p := fun i => ¬ i.isRight))

theorem strays_merged_ne_nil_iff : strays (merged ps names given) ≠ [] ↔ ∃ k, IsStray ps names given k := by
  have hnone := forall_strays_merged_iff ps names given (p := fun _ => False)
  rw [Ne, List.eq_nil_iff_forall_not_mem, hnone, not_forall]
  simp

/-- Whether a preset is named that does not exist. -/
def HasMissing (ps : Presets) (names : List Text) : Prop := ∃ name ∈ names, ps.lookup name = none

/-- Settings of their kinds are refused for a preset that does not exist, or for a key that is no setting or a
number below its bound, unless the keys that are no settings have no order. -/
theorem resolve_of_declared (hps : ps.Flat) (hgiven : Layer given)
    (hdeclared : ∀ f ∈ Settings.default, isDeclared f.1 (chosen ps names given f)) :
    ((∃ r, Settings.resolve (.ok ps) names given = .error (.refusal r)) ↔ HasMissing ps names ∨
      AreSortable ps names given ∧ ((∃ k, IsStray ps names given k) ∨ IsLow ps names given)) ∧
    ((∃ s, Settings.resolve (.ok ps) names given = .ok s) ↔
      ¬ HasMissing ps names ∧ (¬ ∃ k, IsStray ps names given k) ∧ ¬ IsLow ps names given) ∧
    (Settings.resolve (.ok ps) names given = .error (.fault .wrongKind) ↔
      ¬ HasMissing ps names ∧ ¬ AreSortable ps names given) := by
  cases hfind : names.find? (ps.lookup · |>.isNone) with
  | some name =>
    have hmissing : HasMissing ps names :=
      ⟨name, List.mem_of_find?_eq_some hfind, Option.isNone_iff_eq_none.1 (List.find?_some hfind :)⟩
    simp [resolve_of_missing hps given hfind, hmissing]
  | none =>
    have hnamed : ∀ name ∈ names, (ps.lookup name).isSome := by simpa using hfind
    have hmissing : ¬ HasMissing ps names := by
      rintro ⟨name, hname, hnone⟩
      simpa [hnone] using hnamed name hname
    have hmerged : ∀ f ∈ Settings.default, isDeclared f.1 (((merged ps names given).lookup f.1).getD f.2) :=
      fun f hf => (lookup_merged hps hgiven hf).symm ▸ hdeclared f hf
    have houtcome := Settings.ofMerged_of_declared hmerged
    rw [isSortable_strays_merged_iff, hasLow_merged_iff hps hgiven, strays_merged_ne_nil_iff,
      ← not_ne_iff, strays_merged_ne_nil_iff] at houtcome
    rw [resolve_of_named hps hgiven hnamed]
    have hnone : (¬ ∃ k, IsStray ps names given k) → AreSortable ps names given := fun hnone =>
      .inl fun k hk => absurd ⟨k, hk⟩ hnone
    generalize (∃ k, IsStray ps names given k) = hasStray at houtcome hnone ⊢
    rcases houtcome with ⟨hstray, hlow, s, hs⟩ | ⟨hsortable, hwrong, r, hr⟩ | ⟨hsortable, hfault⟩
    · simp [hs, hmissing, hstray, hlow, hnone hstray]
    · simp only [hr, hmissing, hsortable, hwrong, false_or, true_and, not_true_eq_false, not_false_eq_true,
        reduceCtorEq]
      simpa using fun hstray => hwrong.resolve_left hstray
    · simp only [hfault, hmissing, hsortable, false_or, false_and, true_and, not_false_eq_true, reduceCtorEq]
      simpa using fun hstray => absurd (hnone hstray) hsortable

/-- Settings in layers: each setting that comes out is the explicit value that is not null, or else that of the
last preset that has one, or else the default; presets without a key in common can be swapped, and one may be
named again right behind itself; and settings of their kinds are refused for exactly three reasons, if the keys
that are no settings have an order. -/
theorem resolve_layered (hps : ps.Flat) (hgiven : Layer given) (names : List Text) :
    (∀ s, Settings.resolve (.ok ps) names given = .ok s →
      s = Settings.default.map fun f => (f.1, stored f.1 (chosen ps names given f))) ∧
    (∀ before between after a b, names = before ++ a :: between ++ b :: after →
      (ps.lookup a).isSome → (ps.lookup b).isSome → ps.AreApart a b →
      (∀ n ∈ between, ps.AreApart n a ∧ ps.AreApart n b) →
      Settings.resolve (.ok ps) (before ++ b :: between ++ a :: after) given = Settings.resolve (.ok ps) names given) ∧
    (∀ before after a, names = before ++ a :: after →
      Settings.resolve (.ok ps) (before ++ a :: a :: after) given = Settings.resolve (.ok ps) names given) ∧
    ((∀ f ∈ Settings.default, isDeclared f.1 (chosen ps names given f)) →
      ((∃ r, Settings.resolve (.ok ps) names given = .error (.refusal r)) ↔ HasMissing ps names ∨
        AreSortable ps names given ∧ ((∃ k, IsStray ps names given k) ∨ IsLow ps names given)) ∧
      ((∃ s, Settings.resolve (.ok ps) names given = .ok s) ↔
        ¬ HasMissing ps names ∧ (¬ ∃ k, IsStray ps names given k) ∧ ¬ IsLow ps names given) ∧
      (Settings.resolve (.ok ps) names given = .error (.fault .wrongKind) ↔
        ¬ HasMissing ps names ∧ ¬ AreSortable ps names given)) := by
  refine ⟨fun s => eq_of_resolve_eq_ok hps hgiven, ?_, ?_, resolve_of_declared hps hgiven⟩
  · rintro before between after a b rfl ha hb hab hbetween
    exact (resolve_swap hps hgiven ha hb hab hbetween).symm
  · rintro before after a rfl
    exact resolve_twice hps hgiven before after a

/-! ### The presets that are built in -/

theorem Presets.flat_builtIn : builtIn.Flat := by
  intro p hp
  simp only [builtIn, List.mem_cons, List.not_mem_nil, or_false] at hp
  rcases hp with rfl | rfl | rfl | rfl | rfl <;> exact ⟨_, rfl, by decide, by decide, by simp⟩

/-- Two slots given explicitly, and the workers left open. -/
def slotsGiven : List (Key × Value) := [("page_capacity", .int 2), ("workers", .null)]

theorem layer_slotsGiven : Layer slotsGiven := ⟨by decide, by decide, by simp [slotsGiven]⟩

/-- Six slots a page, and short histories. -/
def compactShort : List Text := ["layout_compact".toList, "history_short".toList]

theorem resolve_layered_compact :
    Settings.resolve (.ok Presets.builtIn) compactShort slotsGiven =
      .ok [("page_capacity", .int 2), ("work_history_cap", .int 3), ("education_cap", .int 2), ("max_records", .int 60),
        ("template_parts", .null), ("workers", .int 1), ("output_filename", .text "Candidate_Summary_Generated.pptx")] ∧
    Settings.resolve (.ok Presets.builtIn) ["history_short".toList, "layout_compact".toList] slotsGiven =
      Settings.resolve (.ok Presets.builtIn) compactShort slotsGiven ∧
    Settings.resolve (.ok Presets.builtIn) ("layout_compact".toList :: compactShort) slotsGiven =
      Settings.resolve (.ok Presets.builtIn) compactShort slotsGiven := by
  obtain ⟨hchosen, hswap, htwice, hdeclared⟩ := resolve_layered Presets.flat_builtIn layer_slotsGiven compactShort
  have hmissing : ¬ HasMissing Presets.builtIn compactShort := by
    unfold HasMissing
    decide
  have hstray : ¬ ∃ k, IsStray Presets.builtIn compactShort slotsGiven k := by
    have hknown : ∀ f ∈ (layersOf Presets.builtIn compactShort slotsGiven).flatten,
        f.1 ∈ settingNames.map Key.text := by decide
    rintro ⟨k, hk⟩
    obtain ⟨hk, f, hf, rfl⟩ := isStray_iff.1 hk
    exact hk (hknown f hf)
  have hlow : ¬ IsLow Presets.builtIn compactShort slotsGiven := by
    unfold IsLow
    decide
  obtain ⟨s, hs⟩ := (hdeclared (by decide)).2.1.2 ⟨hmissing, hstray, hlow⟩
  have hapart : Presets.builtIn.AreApart "layout_compact" "history_short" :=
    List.disjoint_of_nodup_append (by decide)
  refine ⟨?_, hswap [] [] [] _ _ rfl (by decide) (by decide) hapart nofun, htwice [] _ _ rfl⟩
  rw [hs, hchosen s hs]
  rfl

/-! ### Keys of two kinds -/

def mixedText : Text := "a:\n  b: \x7b1: 2, slides: 3\x7d\n"

def mixedPresets : Presets := [("a_b", .mapping [(.int 1, .int 2), ("slides", .int 3)])]

/-- Whether there is one preset, with a key that is a number and one that is a text. -/
def isMixed : Except Fault Presets → Bool
  | .ok [(name, .mapping [(.int 1, .int 2), (.text k, .int 3)])] => name = "a_b".toList && k = "slides".toList
  | _ => false

theorem ofText_mixedText : Presets.ofText mixedText = .ok mixedPresets := by
  have hmixed : isMixed (Presets.ofText mixedText) := by decide +kernel
  unfold isMixed at hmixed
  split at hmixed
  case h_1 name k h =>
    obtain ⟨hname, hk⟩ := Bool.and_eq_true_iff.1 hmixed
    rw [h, of_decide_eq_true hname, of_decide_eq_true hk]
    rfl
  case h_2 => cases hmixed

/-- A number and a text that are no settings have no order, so that nothing is refused. -/
theorem resolve_mixed : mixedPresets.Flat ∧ Layer [] ∧
    (∀ f ∈ Settings.default, isDeclared f.1 (chosen mixedPresets ["a_b".toList] [] f)) ∧
    IsStray mixedPresets ["a_b".toList] [] (.int 1) ∧
    Settings.resolve (Presets.ofText mixedText) ["a_b".toList] [] = .error (.fault .wrongKind) := by
  have hflat : mixedPresets.Flat := Presets.flat_of_ofText ofText_mixedText
    (List.forall_mem_singleton.2 ⟨_, rfl, by simp⟩)
  have hgiven : Layer [] := ⟨nofun, List.nodup_nil, nofun⟩
  have hdeclared : ∀ f ∈ Settings.default, isDeclared f.1 (chosen mixedPresets ["a_b".toList] [] f) := by decide
  have hnumber : IsStray mixedPresets ["a_b".toList] [] (.int 1) :=
    ⟨by decide, .inl ⟨_, List.mem_singleton_self _, by decide⟩⟩
  have htext : IsStray mixedPresets ["a_b".toList] [] (.text "slides") :=
    ⟨by decide, .inl ⟨_, List.mem_singleton_self _, by decide⟩⟩
  have hmissing : ¬ HasMissing mixedPresets ["a_b".toList] := by
    unfold HasMissing
    decide
  have hsortable : ¬ AreSortable mixedPresets ["a_b".toList] [] := by
    rintro (hnumeric | hplain)
    · exact absurd (hnumeric _ htext) (by decide)
    · exact absurd (by decide) (hplain _ hnumber)
  refine ⟨hflat, hgiven, hdeclared, hnumber, ?_⟩
  rw [ofText_mixedText]
  exact (resolve_of_declared hflat hgiven hdeclared).2.2.2 ⟨hmissing, hsortable⟩

end DeckMerge.Deck
