import DeckMerge.Deck.Presets
import DeckMerge.Proofs.Document.Keys
import DeckMerge.Proofs.Document.Plain

/-!
Layers of settings. Presets that are read name no field twice and none by a null, so that those with flat values
can be put over one another key by key.
-/

namespace DeckMerge.Deck

/-- Fields that can be put over settings key by key. -/
structure Layer (fields : List (Key × Value)) : Prop where
  named : ∀ f ∈ fields, f.1 ≠ .null
  distinct : (Fields.identities fields).Nodup
  flat : ∀ f ∈ fields, Document.Flat f.2

theorem Layer.plain {fields : List (Key × Value)} (h : Layer fields) : Document.Plain (.mapping fields) :=
  .mapping h.named (Fields.nodup_keys h.distinct) fun f hf => (h.flat f hf).plain

theorem Layer.withoutNulls {fields : List (Key × Value)} (h : Layer fields) : Layer (Fields.withoutNulls fields) where
  named f hf := h.named f (List.mem_of_mem_filter hf)
  distinct := h.distinct.sublist (List.filter_sublist.map _)
  flat f hf := h.flat f (List.mem_of_mem_filter hf)

/-- Layers over a layer are a layer. -/
theorem Layer.layer {fields : List (Key × Value)} (h : Layer fields) {layers : List (List (Key × Value))}
    (hlayers : ∀ more ∈ layers, Layer more) : Layer (Fields.layer fields layers.flatten) where
  named f hf := by
    rcases Fields.mem_layer hf with hf | ⟨g, hg, -, hsame⟩
    · exact h.named f hf
    · obtain ⟨more, hmore, hg⟩ := List.mem_flatten.1 hg
      rintro hnull
      rw [hnull] at hsame
      exact (hlayers more hmore).named g hg (Key.identity_eq_null_iff.1 hsame.symm)
  distinct := Fields.nodup_layer h.distinct _
  flat f hf := by
    rcases Fields.mem_layer hf with hf | ⟨g, hg, hsame, -⟩
    · exact h.flat f hf
    · obtain ⟨more, hmore, hg⟩ := List.mem_flatten.1 hg
      exact hsame ▸ (hlayers more hmore).flat g hg

theorem layer_default : Layer Settings.default where
  named := by decide
  distinct := by decide
  flat f hf := by
    simp only [Settings.default, List.mem_cons, List.not_mem_nil, or_false] at hf
    rcases hf with rfl | rfl | rfl | rfl | rfl | rfl | rfl
    case inr.inr.inr.inr.inr.inr => exact Document.flat_text (by decide) (by decide)
    all_goals simp

namespace Presets

/-- Each preset is a layer. -/
def Flat (ps : Presets) : Prop := ∀ p ∈ ps, ∃ fields, p.2 = .mapping fields ∧ Layer fields

/-- The fields of the preset of a name. -/
def fieldsOf (ps : Presets) (name : Text) : List (Key × Value) :=
  match ps.lookup name with
  | some (.mapping fields) => fields
  | _ => []

/-- Whether two presets have no key in common. -/
def AreApart (ps : Presets) (a b : Text) : Prop :=
  (Fields.identities (ps.fieldsOf a)).Disjoint (Fields.identities (ps.fieldsOf b))

variable {ps : Presets} {name : Text}

theorem layer_fieldsOf (h : ps.Flat) (name : Text) : Layer (ps.fieldsOf name) := by
  rw [fieldsOf]
  split
  case h_1 fields hlookup =>
    obtain ⟨fields', hmapping, hlayer⟩ := h _ (Association.mem_of_lookup_eq_some hlookup)
    exact Value.mapping.inj hmapping ▸ hlayer
  case h_2 => exact ⟨nofun, List.nodup_nil, nofun⟩

theorem lookup_eq_fieldsOf (h : ps.Flat) (hname : (ps.lookup name).isSome) :
    ps.lookup name = some (.mapping (ps.fieldsOf name)) := by
  obtain ⟨v, hv⟩ := Option.isSome_iff_exists.1 hname
  obtain ⟨fields, rfl, -⟩ := h _ (Association.mem_of_lookup_eq_some hv)
  rw [fieldsOf, hv]

/-! ### Presets that are read -/

theorem mem_put {p : Text × Value} {v : Value} (h : p ∈ put ps name v) : p ∈ ps ∨ p.2 = v := by
  induction ps with
  | nil => exact .inr (by rw [List.mem_singleton.1 h])
  | cons q ps ih =>
    obtain ⟨n, w⟩ := q
    rw [put] at h
    split at h
    · rcases List.mem_cons.1 h with rfl | h
      · exact .inr rfl
      · exact .inl (List.mem_cons_of_mem _ h)
    · rcases List.mem_cons.1 h with rfl | h
      · exact .inl List.mem_cons_self
      · exact (ih h).imp_left (List.mem_cons_of_mem _)

theorem mem_foldl_put {named : List (Text × Value)} {p : Text × Value}
    (h : p ∈ named.foldl (fun ps (name, v) => put ps name v) ps) : p ∈ ps ∨ ∃ q ∈ named, p.2 = q.2 := by
  induction named generalizing ps with
  | nil => exact .inl h
  | cons q named ih =>
    rcases ih h with h | ⟨q', hq', hsame⟩
    · exact (mem_put h).imp_right fun hsame => ⟨q, List.mem_cons_self, hsame⟩
    · exact .inr ⟨q', List.mem_cons_of_mem _ hq', hsame⟩

theorem hasKeys_of_ofDocument {p : List Key → Prop} {v : Value} (h : ofDocument v = .ok ps) (hv : v.HasKeys p) :
    ∀ q ∈ ps, q.2.HasKeys p := by
  cases hv with
  | @mapping categories _ hcategories =>
    obtain ⟨named, hnamed, h⟩ := Sequence.bind_eq_ok_iff.1 h
    cases h
    intro q hq
    rcases mem_foldl_put hq with hq | ⟨q', hq', hsame⟩
    · cases hq
    · obtain ⟨part, hpart, hq'⟩ := List.mem_flatten.1 hq'
      obtain ⟨⟨category, v⟩, hcategory, hmade⟩ := Sequence.exists_of_mem_mapM hnamed hpart
      have hkeys := hcategories _ hcategory
      cases hkeys with
      | mapping _ hpresets =>
        cases hmade
        obtain ⟨f, hf, rfl⟩ := List.mem_map.1 hq'
        exact hsame ▸ hpresets f hf
      | _ => cases hmade
  | _ => cases h

/-- Presets that are read are layers, as soon as all they give are flat values. -/
theorem flat_of_ofText {s : Text} (h : ofText s = .ok ps)
    (hflat : ∀ p ∈ ps, ∃ fields, p.2 = .mapping fields ∧ ∀ f ∈ fields, Document.Flat f.2) : ps.Flat := by
  obtain ⟨v, hv, h⟩ := Sequence.bind_eq_ok_iff.1 h
  intro p hp
  obtain ⟨fields, hfields, hvalues⟩ := hflat p hp
  have hkeys := hasKeys_of_ofDocument h (Document.hasKeys_of_read hv) p hp
  rw [hfields] at hkeys
  cases hkeys with
  | mapping hnamed _ =>
    obtain ⟨hdistinct, hsome⟩ := hnamed
    rw [Key.AreDistinct, List.map_map] at hdistinct
    exact ⟨fields, hfields, fun f hf => hsome _ (List.mem_map_of_mem hf), hdistinct, hvalues⟩

/-! ### Presets that are named -/

theorem layers_of_named {names : List Text} (h : ps.Flat) (hnames : ∀ name ∈ names, (ps.lookup name).isSome) :
    ps.layers names = .ok (names.map fun name => .mapping (ps.fieldsOf name)) := by
  refine Sequence.mapM_eq_ok_map fun name hname => ?_
  rw [lookup_eq_fieldsOf h (hnames name hname)]
  rfl

theorem layers_of_missing {names : List Text} (h : ps.Flat)
    (hname : names.find? (ps.lookup · |>.isNone) = some name) :
    ps.layers names = .error (.refusal (.unknownPreset name (ps.map (·.1)))) := by
  obtain ⟨hmissing, before, after, rfl, hbefore⟩ := List.find?_eq_some_iff_append.1 hname
  refine Sequence.mapM_eq_error_iff.2 ⟨before, name, after, rfl, fun n hn => ?_, ?_⟩
  · have hn : (ps.lookup n).isSome := by simpa using hbefore n hn
    exact ⟨.mapping (ps.fieldsOf n), by rw [lookup_eq_fieldsOf h hn]; rfl⟩
  · rw [Option.isNone_iff_eq_none.1 hmissing]

end Presets

theorem overlay_of_layers {fields : List (Key × Value)} (h : Layer fields) {layers : List (List (Key × Value))}
    (hlayers : ∀ more ∈ layers, Layer more) :
    overlay fields (layers.map .mapping) = .ok (Fields.layer fields layers.flatten) := by
  induction layers generalizing fields with
  | nil => rfl
  | cons more layers ih =>
    obtain ⟨hmore, hlayers⟩ := List.forall_mem_cons.1 hlayers
    have hover : Layer (Fields.layer fields more) := by
      simpa using h.layer (List.forall_mem_singleton.2 hmore)
    rw [List.map_cons, overlay, Document.mergeFields_of_flat h.flat hmore.flat, Sequence.bind_ok, ih hover hlayers,
      List.flatten_cons, Fields.layer_append]

end DeckMerge.Deck
