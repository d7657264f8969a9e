import DeckMerge.Proofs.Package.Calls
import DeckMerge.Proofs.Package.Reopening

/-!
Packages that are opened, written to, and opened again from what they are written as. Opening merges the
entries under one name and cuts names at a null character, so every package that was opened comes back.
-/

namespace DeckMerge

namespace Zip

variable {bs : Bytes} {es : List Entry}

namespace Entry

/-- An entry as it comes back: without attributes it has those of a file for its owner. -/
def settled (e : Entry) : Entry :=
  { e with attributes := if e.attributes = 0 then (0o600 : UInt32) <<< 16 else e.attributes }

theorem writtenName_written (e : Entry) : e.written.writtenName = e.writtenName := by
  simp [written, writtenName, List.takeWhile_idem]

theorem writtenAttributes_written (e : Entry) : e.written.writtenAttributes = e.writtenAttributes := by
  have hne : (0o600 : UInt32) <<< 16 ≠ 0 := by decide
  rw [written, writtenAttributes, writtenAttributes]
  by_cases h : e.attributes = 0 <;> simp [h, hne]

theorem written_written (e : Entry) : e.written.written = e.written := by
  have hname := e.writtenName_written
  have hattributes := e.writtenAttributes_written
  rw [written, hname, hattributes]
  rfl

theorem summary_written (e : Entry) : e.written.summary = e.summary := by
  simp only [summary, flags, nameBytes, writtenName_written]
  rfl

theorem localRecord_written (e : Entry) : e.written.localRecord = e.localRecord := by
  simp only [localRecord, summary_written, nameBytes, writtenName_written]
  rfl

theorem directoryRecord_written (e : Entry) (offset : Nat) :
    e.written.directoryRecord offset = e.directoryRecord offset := by
  simp only [directoryRecord, summary_written, nameBytes, writtenName_written, writtenAttributes_written]
  rfl

end Entry

theorem directory_written (offset : Nat) (es : List Entry) :
    directory offset (es.map Entry.written) = directory offset es := by
  induction es generalizing offset with
  | nil => rfl
  | cons e es ih =>
    rw [List.map_cons, directory, directory, Entry.directoryRecord_written, Entry.localRecord_written, ih]

/-- What comes back is written as before. -/
theorem write_written (es : List Entry) : write (es.map Entry.written) = write es := by
  have hrecords : (es.map Entry.written).flatMap Entry.localRecord = es.flatMap Entry.localRecord := by
    rw [List.flatMap_map]
    exact List.flatMap_congr fun e _ => e.localRecord_written
  simp only [write, hrecords, directory_written, List.length_map]

theorem Keeps.written (h : Keeps es) : Keeps (es.map Entry.written) := by
  rw [Keeps, write_written, h, List.map_map]
  congr 2
  funext e
  exact e.written_written.symm

end Zip

namespace Package

variable {p : Package} {source : Text} {bs : Bytes} {ws : List (Text × Bytes)}

theorem mem_put {es : List Zip.Entry} {e e' : Zip.Entry} (h : e' ∈ put es e) : e' ∈ es ∨ e' = e := by
  induction es with
  | nil => exact .inr (List.mem_singleton.1 h)
  | cons e'' es ih =>
    rw [put] at h
    split at h
    · exact (List.mem_cons.1 h).symm.imp_left fun h => List.mem_cons_of_mem _ h
    · rcases List.mem_cons.1 h with rfl | h
      · exact .inl List.mem_cons_self
      · exact (ih h).imp_left fun h => List.mem_cons_of_mem _ h

theorem mem_foldl_put {es before : List Zip.Entry} {e : Zip.Entry} (h : e ∈ es.foldl put before) :
    e ∈ before ∨ e ∈ es := by
  induction es generalizing before with
  | nil => exact .inl h
  | cons e' es ih =>
    rcases ih h with h | h
    · rcases mem_put h with h | rfl
      · exact .inl h
      · exact .inr List.mem_cons_self
    · exact .inr (List.mem_cons_of_mem _ h)

theorem Plain.writeAll (hp : p.Plain) (hws : ∀ w ∈ ws, ∀ c ∈ w.1, c.toNat ≠ 0) : (p.writeAll ws).Plain := by
  intro name hname
  rw [(rewritten_writeAll p ws).names_eq, List.mem_append, mem_newcomers] at hname
  rcases hname with hname | ⟨hname, -⟩
  · exact hp name hname
  · obtain ⟨w, hw, rfl⟩ := List.mem_map.1 hname
    exact hws w hw

/-- The package that it opens as: the second entry under the name stands in the place of the first. -/
def merged : Package where
  source := memory
  entries := [⟨"a", .of 2023 5 6 7 8 10, .stored, 0x20, 3, [0x43]⟩,
    ⟨"b", .of 2024 1 2 3 4 6, .stored, (0o600 : UInt32) <<< 16, 0, [0x42]⟩]
  modified := []
  distinct := by decide

end Package

end DeckMerge
