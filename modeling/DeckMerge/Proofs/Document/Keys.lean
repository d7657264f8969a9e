import DeckMerge.Document.Reading
import DeckMerge.Proofs.Fields
import DeckMerge.Proofs.Sequence

/-!
The keys of documents. A mapping that is read has no key twice, since its fields are set one after another; and
where references were followed, none of its keys is null.
-/

namespace DeckMerge

/-- In each mapping of a value the keys are as they should be. -/
inductive Value.HasKeys (p : List Key → Prop) : Value → Prop
  | null : HasKeys p .null
  | bool (b : Bool) : HasKeys p (.bool b)
  | int (n : Int) : HasKeys p (.int n)
  | real (x : Binary64) : HasKeys p (.real x)
  | text (s : Text) : HasKeys p (.text s)
  | list {items : List Value} : (∀ v ∈ items, HasKeys p v) → HasKeys p (.list items)
  | mapping {fields : List (Key × Value)} : p (fields.map (·.1)) → (∀ f ∈ fields, HasKeys p f.2) →
    HasKeys p (.mapping fields)

/-- No key is there twice. -/
def Key.AreDistinct (ks : List Key) : Prop := (ks.map Key.identity).Nodup

/-- No key is there twice, and none is null. -/
def Key.AreNamed (ks : List Key) : Prop := AreDistinct ks ∧ ∀ k ∈ ks, k ≠ .null

namespace Yaml

variable {v : Value}

theorem Tag.hasKeys_of_valueOf {p : List Key → Prop} {t : Tag} {s : Text} (h : t.valueOf s = .ok v) : v.HasKeys p := by
  have hmap {α : Type} {x : Except Fault α} {f : α → Value} (h : f <$> x = .ok v) : ∃ a, f a = v := by
    cases x with
    | error e => cases h
    | ok a => exact ⟨a, Except.ok.inj h⟩
  cases t with
  | null => cases h; exact .null
  | text => cases h; exact .text s
  | bool => obtain ⟨b, rfl⟩ := hmap h; exact .bool b
  | int => obtain ⟨n, rfl⟩ := hmap h; exact .int n
  | real => obtain ⟨x, rfl⟩ := hmap h; exact .real x
  | _ => cases h

theorem Node.hasKeys_of_value {fuel : Nat} {n : Node} (h : n.value fuel = .ok v) : v.HasKeys Key.AreDistinct := by
  induction fuel generalizing n v with
  | zero => cases n <;> cases h
  | succ fuel ih =>
    cases n with
    | scalar t s => exact Tag.hasKeys_of_valueOf h
    | sequence t items =>
      rw [value] at h
      split at h
      case isFalse => cases h
      case isTrue =>
        obtain ⟨vs, hvs, h⟩ := Sequence.bind_eq_ok_iff.1 h
        cases h
        refine .list fun v hv => ?_
        obtain ⟨n, -, hn⟩ := Sequence.exists_of_mem_mapM hvs hv
        exact ih hn
    | mapping t fields =>
      rw [value] at h
      split at h
      case isTrue => cases h
      case isFalse =>
        obtain ⟨merged, -, h⟩ := Sequence.bind_eq_ok_iff.1 h
        obtain ⟨named, hnamed, h⟩ := Sequence.bind_eq_ok_iff.1 h
        cases h
        have hdistinct : Key.AreDistinct ((Fields.layer [] named).map (·.1)) := by
          have hempty : (Fields.identities []).Nodup := List.nodup_nil
          rw [Key.AreDistinct, List.map_map]
          exact Fields.nodup_layer hempty named
        refine .mapping hdistinct fun f hf => ?_
        rcases Fields.mem_layer hf with hf | ⟨g, hg, hsame, -⟩
        · cases hf
        · obtain ⟨⟨k, n⟩, -, hn⟩ := Sequence.exists_of_mem_mapM hnamed hg
          obtain ⟨k', -, hn⟩ := Sequence.bind_eq_ok_iff.1 hn
          obtain ⟨w, hw, hn⟩ := Sequence.bind_eq_ok_iff.1 hn
          cases hn
          exact hsame ▸ ih hw

theorem hasKeys_of_read {s : Text} (h : read s = .ok v) : v.HasKeys Key.AreDistinct := by
  obtain ⟨n?, -, h⟩ := Sequence.bind_eq_ok_iff.1 h
  cases n? with
  | none => cases h; exact .null
  | some n => exact Node.hasKeys_of_value h

end Yaml

namespace Document

variable {root v : Value}

theorem hasKeys_of_ofText {s : Text} (h : ofText s = .ok v) : v.HasKeys Key.AreDistinct := by
  obtain ⟨w, hw, h⟩ := Sequence.bind_eq_ok_iff.1 h
  have hkeys := Yaml.hasKeys_of_read hw
  cases w with
  | null => cases h; exact .mapping List.nodup_nil nofun
  | text t => cases h; exact .mapping (List.nodup_singleton _) (List.forall_mem_singleton.2 .null)
  | list => cases h; exact hkeys
  | mapping => cases h; exact hkeys
  | _ => cases h

theorem hasKeys_of_readRaw {s : Text} (h : readRaw s = .ok v) : v.HasKeys Key.AreDistinct := by
  obtain ⟨w, hw, h⟩ := Sequence.bind_eq_ok_iff.1 h
  have hkeys := Yaml.hasKeys_of_read hw
  cases w with
  | null => cases h; exact .mapping List.nodup_nil nofun
  | text t => exact hasKeys_of_ofText h
  | list => cases h; exact hkeys
  | mapping => cases h; exact hkeys
  | _ => cases h

theorem hasKeys_of_child? {p : List Key → Prop} {s : Step} (hv : v.HasKeys p) {w : Value} (h : child? v s = some w) :
    w.HasKeys p := by
  cases s with
  | field k =>
    cases hv with
    | mapping _ hfields => exact hfields _ (Association.mem_of_lookup_eq_some h)
    | _ => cases h
  | item n =>
    cases hv with
    | list hitems => exact hitems _ (List.mem_of_getElem? h)
    | _ => cases h

theorem hasKeys_of_get? {p : List Key → Prop} (hroot : root.HasKeys p) {place : Place} (h : get? root place = some v) :
    v.HasKeys p := by
  induction place generalizing root with
  | nil => exact Option.some.inj h ▸ hroot
  | cons s place ih =>
    obtain ⟨w, hw, h⟩ := Option.bind_eq_some_iff.1 h
    exact ih (hasKeys_of_child? hroot hw) h

theorem hasKeys_of_valueOf {fuel : Nat} {t : Target} (hroot : root.HasKeys Key.AreDistinct)
    (h : valueOf root fuel t = .ok v) : v.HasKeys Key.AreNamed := by
  induction fuel generalizing t v with
  | zero => cases h
  | succ fuel ih =>
    cases t with
    | text s => cases h; exact .text s
    | place p =>
      rw [valueOf] at h
      cases hp : get? root p with
      | none => rw [hp] at h; cases h
      | some w =>
        have hkeys := hasKeys_of_get? hroot hp
        rw [hp] at h
        cases hkeys with
        | list hitems =>
          obtain ⟨vs, hvs, h⟩ := Sequence.bind_eq_ok_iff.1 h
          cases h
          refine .list fun v hv => ?_
          obtain ⟨n, -, hn⟩ := Sequence.exists_of_mem_mapM hvs hv
          obtain ⟨t, -, hn⟩ := Sequence.bind_eq_ok_iff.1 hn
          exact ih hn
        | @mapping fields hdistinct hfields =>
          obtain ⟨vs, hvs, h⟩ := Sequence.bind_eq_ok_iff.1 h
          cases h
          have heach : List.Forall₂ (fun f g => f.1 = g.1 ∧ g.1 ≠ .null ∧ g.2.HasKeys Key.AreNamed) fields vs := by
            refine (Sequence.mapM_eq_ok_iff.1 hvs).imp fun ⟨k, w⟩ g hg => ?_
            simp only at hg
            split at hg
            case isTrue => cases hg
            case isFalse hnull =>
              obtain ⟨t, -, hg⟩ := Sequence.bind_eq_ok_iff.1 hg
              obtain ⟨w, hw, hg⟩ := Sequence.bind_eq_ok_iff.1 hg
              cases hg
              exact ⟨rfl, hnull, ih hw⟩
          have hsame : fields.map (·.1) = vs.map (·.1) := by
            rw [← List.forall₂_eq_eq_eq, List.forall₂_map_left_iff, List.forall₂_map_right_iff]
            exact heach.imp fun _ _ h => h.1
          have hmem {g : Key × Value} (hg : g ∈ vs) : g.1 ≠ .null ∧ g.2.HasKeys Key.AreNamed := by
            obtain ⟨f, -, -, hg⟩ := Sequence.exists_of_mem_forall₂ heach hg
            exact hg
          exact .mapping ⟨hsame ▸ hdistinct, List.forall_mem_map.2 fun g hg => (hmem hg).1⟩ fun g hg => (hmem hg).2
        | null => cases h; exact .null
        | bool b => cases h; exact .bool b
        | int n => cases h; exact .int n
        | real x => cases h; exact .real x
        | text s => cases h; exact .text s

theorem hasKeys_of_read {s : Text} (h : read s = .ok v) : v.HasKeys Key.AreNamed := by
  obtain ⟨raw, hraw, h⟩ := Sequence.bind_eq_ok_iff.1 h
  exact hasKeys_of_valueOf (hasKeys_of_readRaw hraw) h

end Document

end DeckMerge
