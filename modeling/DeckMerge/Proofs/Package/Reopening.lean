import DeckMerge.Proofs.Package.Store
import DeckMerge.Proofs.Zip.Container
import Mathlib.Data.List.Find

/-!
Packages opened from the octets that they are written in.
-/

namespace DeckMerge.Package

theorem put_of_not_mem {es : List Zip.Entry} {e : Zip.Entry} (h : e.name ∉ es.map (·.name)) :
    put es e = es ++ [e] := by
  induction es with
  | nil => rfl
  | cons e' es ih =>
    obtain ⟨hne, h⟩ := not_or.1 (mt List.mem_cons.2 h)
    rw [put, if_neg (Ne.symm hne), ih h]
    rfl

theorem foldl_put {before es : List Zip.Entry} (h : ((before ++ es).map (·.name)).Nodup) :
    es.foldl put before = before ++ es := by
  induction es generalizing before with
  | nil => rw [List.foldl_nil, List.append_nil]
  | cons e es ih =>
    have hmem : e.name ∉ before.map (·.name) := by
      rw [List.map_append, List.map_cons, List.nodup_append] at h
      exact fun hmem => h.2.2 _ hmem _ List.mem_cons_self rfl
    rw [List.foldl_cons, put_of_not_mem hmem, ih (by rwa [List.append_assoc]), List.append_assoc]
    rfl

/-- Names that are written as they are. -/
def Plain (p : Package) : Prop := ∀ name ∈ p.names, ∀ c ∈ name, c.toNat ≠ 0

theorem Plain.writtenName_eq {p : Package} (h : p.Plain) {e : Zip.Entry} (he : e ∈ p.entries) :
    e.writtenName = e.name := by
  rw [Zip.Entry.writtenName, List.takeWhile_eq_self_iff]
  intro c hc
  simpa using h e.name (List.mem_map_of_mem he) c hc

/-- The entries come back in order, as they are written, if the container keeps them. -/
theorem entries_of_keeps {p : Package} (hkeeps : Zip.Keeps p.entries) (hplain : p.Plain) (source : Text) :
    ∃ q, ofBytes source p.toBytes = .ok q ∧ q.entries = p.entries.map Zip.Entry.written := by
  have hnames : (p.entries.map Zip.Entry.written).map (·.name) = p.names := by
    rw [List.map_map]
    exact List.map_congr_left fun e he => hplain.writtenName_eq he
  have hentries : (p.entries.map Zip.Entry.written).foldl put [] = p.entries.map Zip.Entry.written :=
    foldl_put (by rw [List.nil_append, hnames]; exact p.nodup_names)
  have hopen : ofBytes source p.toBytes =
      .ok ⟨source, (p.entries.map Zip.Entry.written).foldl put [], [], nodup_foldl_put _ List.nodup_nil⟩ := by
    unfold ofBytes
    rw [toBytes, hkeeps]
  exact ⟨_, hopen, hentries⟩

/-- A package that its container holds: names are written as they are. -/
structure Fits (p : Package) : Prop where
  container : Zip.Fits p.entries
  names : ∀ e ∈ p.entries, ∀ c ∈ e.name, c.toNat ≠ 0

theorem Fits.plain {p : Package} (h : p.Fits) : p.Plain := List.forall_mem_map.2 h.names

theorem Fits.writtenName_eq {p : Package} (h : p.Fits) {e : Zip.Entry} (he : e ∈ p.entries) :
    e.writtenName = e.name :=
  h.plain.writtenName_eq he

theorem Plain.find?_written {p : Package} (h : p.Plain) (name : Text) :
    (p.entries.map Zip.Entry.written).find? (·.name = name) =
      (p.entries.find? (·.name = name)).map Zip.Entry.written := by
  rw [List.find?_map]
  congr 1
  apply List.find?_congr
  intro e he
  simp [Zip.Entry.written, h.writtenName_eq he]

theorem entries_ofBytes_toBytes {p : Package} (h : p.Fits) (source : Text) :
    ∃ q, ofBytes source p.toBytes = .ok q ∧ q.entries = p.entries.map Zip.Entry.written :=
  entries_of_keeps h.container.keeps h.plain source

theorem Plain.content?_eq {p q : Package} (h : p.Plain)
    (hentries : q.entries = p.entries.map Zip.Entry.written) (name : Text) :
    q.content? name = p.content? name := by
  simp only [content?, hentries, h.find?_written, Option.map_map]
  rfl

theorem ofBytes_toBytes {p : Package} (h : p.Fits) (source : Text) :
    ∃ q, ofBytes source p.toBytes = .ok q ∧ ∀ name, q.content? name = p.content? name := by
  obtain ⟨q, hopen, hentries⟩ := entries_ofBytes_toBytes h source
  exact ⟨q, hopen, h.plain.content?_eq hentries⟩

/-- A package of one small part is held by its container. -/
example : Fits ⟨memory, [⟨"a", .first, .deflated, 0, 3, [0x41]⟩], [], by decide⟩ :=
  ⟨⟨by decide, by decide⟩, by simp⟩

end DeckMerge.Package
