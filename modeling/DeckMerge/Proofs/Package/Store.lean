import DeckMerge.Package.Store
import DeckMerge.Proofs.Sequence
import DeckMerge.Proofs.Text.Utf8
import Mathlib.Data.List.Basic

/-!
Reading back what has been written to a package.
-/

namespace DeckMerge.Package

variable {p : Package} {name name' s : Text} {bs : Bytes}

theorem find?_put (es : List Zip.Entry) (e : Zip.Entry) (name : Text) :
    (put es e).find? (·.name = name) = if e.name = name then some e else es.find? (·.name = name) := by
  induction es with
  | nil => by_cases hn : e.name = name <;> simp [put, hn]
  | cons e' es ih =>
    by_cases h : e'.name = e.name
    · by_cases hn : e.name = name <;> simp [put, h, hn]
    · by_cases hn : e.name = name
      · have hn' : e'.name ≠ name := fun hn' => h (hn'.trans hn.symm)
        simp_all [put]
      · by_cases hn' : e'.name = name <;> simp_all [put]

@[simp] theorem name_entryFor (p : Package) (name : Text) (bs : Bytes) :
    (p.entryFor name bs).name = name := by
  rw [entryFor]
  split
  case h_1 e he => simpa using List.find?_some he
  case h_2 => rfl

@[simp] theorem content_entryFor (p : Package) (name : Text) (bs : Bytes) :
    (p.entryFor name bs).content = bs := by
  rw [entryFor]
  split <;> rfl

theorem content?_write (p : Package) (name : Text) (bs : Bytes) (name' : Text) :
    (p.write name bs).content? name' = if name = name' then some bs else p.content? name' := by
  rw [content?, write, find?_put, name_entryFor]
  split <;> simp [content?]

@[simp] theorem content?_write_self (p : Package) (name : Text) (bs : Bytes) :
    (p.write name bs).content? name = some bs := by
  simp [content?_write]

theorem content?_write_of_ne (h : name ≠ name') (bs : Bytes) :
    (p.write name bs).content? name' = p.content? name' := by
  simp [content?_write, h]

theorem nodup_names (p : Package) : p.names.Nodup := p.distinct

theorem content?_isSome_iff : (p.content? name).isSome ↔ name ∈ p.names := by
  simp [content?, names]

theorem readText_eq_ok_iff :
    p.readText name = .ok s ↔ ∃ bs, p.content? name = some bs ∧ Text.ofUtf8? bs = some s := by
  rw [readText, read]
  cases p.content? name with
  | none => simp [Sequence.bind_eq_ok_iff]
  | some bs => cases h : Text.ofUtf8? bs <;> simp [h]

theorem readText_congr {q : Package} (h : q.content? name = p.content? name) :
    q.readText name = .ok s ↔ p.readText name = .ok s := by
  rw [readText_eq_ok_iff, readText_eq_ok_iff, h]

theorem mem_names_of_readText (h : p.readText name = .ok s) : name ∈ p.names := by
  obtain ⟨bs, hbs, -⟩ := readText_eq_ok_iff.1 h
  exact content?_isSome_iff.1 (by simp [hbs])

theorem readText_of_content? (h : p.content? name = some (Text.utf8 s)) : p.readText name = .ok s :=
  readText_eq_ok_iff.2 ⟨_, h, Text.ofUtf8?_utf8 s⟩

end DeckMerge.Package
