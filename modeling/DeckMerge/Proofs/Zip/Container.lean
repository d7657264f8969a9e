import DeckMerge.Proofs.Sequence
import DeckMerge.Proofs.Zip.Record

/-!
Containers read back. The local records stand one behind another, so that the directory gives growing
places and no entry reaches into the next one.
-/

namespace DeckMerge.Zip

/-- What the directory says about entries whose first local record stands at an offset. -/
def listings : Nat → List Entry → List Listing
  | _, [] => []
  | offset, e :: es => e.listing offset :: listings (offset + e.localRecord.length) es

theorem listings_append (offset : Nat) (es es' : List Entry) : listings offset (es ++ es') =
    listings offset es ++ listings (offset + (es.flatMap Entry.localRecord).length) es' := by
  induction es generalizing offset with
  | nil => rfl
  | cons e es ih => simp [listings, ih, Nat.add_assoc]

theorem offset_of_mem_listings {offset : Nat} {es : List Entry} {l : Listing}
    (h : l ∈ listings offset es) :
    (offset : Int) ≤ l.offset ∧ l.offset ≤ offset + (es.flatMap Entry.localRecord).length := by
  induction es generalizing offset with
  | nil => simp [listings] at h
  | cons e es ih =>
    rw [List.flatMap_cons, List.length_append]
    push_cast
    rcases List.mem_cons.1 h with rfl | h
    · simp only [Entry.listing]
      omega
    · have := ih h
      push_cast at this
      omega

/-! ### The directory -/

theorem length_directory_cons (offset : Nat) (e : Entry) (es : List Entry) :
    (directory offset (e :: es)).length = directorySize + e.nameBytes.length +
      (directory (offset + e.localRecord.length) es).length := by
  rw [directory, List.length_append, Entry.length_directoryRecord]

theorem readDirectory_directory {es : List Entry} (hes : ∀ e ∈ es, e.Fits) {offset : Nat}
    (hoffset : offset + (es.flatMap Entry.localRecord).length < 2 ^ 32) (rest : Bytes) :
    readDirectory 0 (directory offset es).length (directory offset es ++ rest) =
      .ok (listings offset es) := by
  induction es generalizing offset with
  | nil => rw [directory, readDirectory]; rfl
  | cons e es ih =>
    obtain ⟨he, hes⟩ := List.forall_mem_cons.1 hes
    rw [List.flatMap_cons, List.length_append] at hoffset
    have hrecord := e.length_directoryRecord offset
    have hcons := length_directory_cons offset e es
    have hsize : 0 < directorySize := by decide
    have hrest : offset + e.localRecord.length + (es.flatMap Entry.localRecord).length < 2 ^ 32 := by
      omega
    rw [readDirectory, if_neg (by omega), directory, List.append_assoc,
      Entry.readListing_directoryRecord he (by omega)]
    simp only
    rw [List.drop_left, List.length_append, Nat.max_eq_left (by omega), Nat.add_sub_cancel_left, ih hes hrest]
    rfl

/-! ### Contents -/

theorem le_foldl_min {n m : Int} {ms : List Int} (hm : n ≤ m) (hms : ∀ k ∈ ms, n ≤ k) :
    n ≤ ms.foldl min m := by
  induction ms generalizing m with
  | nil => exact hm
  | cons k ms ih =>
    obtain ⟨hk, hms⟩ := List.forall_mem_cons.1 hms
    exact ih (Int.le_min.2 ⟨hm, hk⟩) hms

theorem le_limit {n place offset : Int} {ls : List Listing} (hplace : n ≤ place)
    (hls : ∀ l ∈ ls, l.offset ≤ offset ∨ n ≤ l.offset) : n ≤ limit place ls offset := by
  apply le_foldl_min hplace
  intro k hk
  obtain ⟨l, hl, hk⟩ := List.mem_filterMap.1 hk
  split at hk
  case isFalse => cases hk
  case isTrue hlt =>
    obtain rfl := Option.some.inj hk
    exact (hls l hl).resolve_left (Int.not_le.2 hlt)

/-- The end of an entry is a bound for the entries that stand elsewhere. -/
theorem le_limit_listings (before after : List Entry) (e : Entry) {offset : Nat}
    (hoffset : offset = (before.flatMap Entry.localRecord).length) :
    (offset + e.localRecord.length : Int) ≤
      limit ((before ++ e :: after).flatMap Entry.localRecord).length (listings 0 (before ++ e :: after))
        offset := by
  apply le_limit
  · rw [hoffset, List.flatMap_append, List.length_append, List.flatMap_cons, List.length_append]
    push_cast
    omega
  · intro l hl
    rw [listings_append, List.mem_append, Nat.zero_add, listings, List.mem_cons] at hl
    rcases hl with hl | rfl | hl
    · have := (offset_of_mem_listings hl).2
      exact .inl (by omega)
    · exact .inl (by simp [Entry.listing, hoffset])
    · have := (offset_of_mem_listings hl).1
      exact .inr (by omega)

theorem mapM_readEntry {es : List Entry} (hes : ∀ e ∈ es, e.Fits) (tail : Bytes) :
    (listings 0 es).mapM (fun l => readEntry (es.flatMap Entry.localRecord ++ tail)
      (limit (es.flatMap Entry.localRecord).length (listings 0 es) l.offset) l) =
        .ok (es.map Entry.written) := by
  -- The entries that are still to be read are a suffix; those before it give its offset.
  suffices hall : ∀ before after, es = before ++ after →
      (listings (before.flatMap Entry.localRecord).length after).mapM (fun l => readEntry
        (es.flatMap Entry.localRecord ++ tail)
        (limit (es.flatMap Entry.localRecord).length (listings 0 es) l.offset) l) =
          .ok (after.map Entry.written) from hall [] es rfl
  intro before after heq
  induction after generalizing before with
  | nil => rfl
  | cons e after ih =>
    have hnext := ih (before ++ [e]) (by rw [heq, List.append_assoc]; rfl)
    have hdrop : (es.flatMap Entry.localRecord ++ tail).drop (before.flatMap Entry.localRecord).length =
        e.localRecord ++ (after.flatMap Entry.localRecord ++ tail) := by
      simp [heq]
    have hlimit := le_limit_listings before after e rfl
    rw [← heq] at hlimit
    have hread : readEntry (es.flatMap Entry.localRecord ++ tail)
        (limit (es.flatMap Entry.localRecord).length (listings 0 es)
          (e.listing (before.flatMap Entry.localRecord).length).offset)
        (e.listing (before.flatMap Entry.localRecord).length) = .ok e.written :=
      Entry.readEntry_localRecord (hes e (by simp [heq])) hdrop hlimit
    rw [List.flatMap_append, List.length_append, List.flatMap_singleton] at hnext
    rw [listings, List.mapM_cons, hread, hnext]
    rfl

/-! ### Whole containers -/

def endFields (es : List Entry) : List (Nat × Nat) :=
  [(4, ofLittleEndian endMark), (4, 0), (2, es.length), (2, es.length), (4, (directory 0 es).length),
    (4, (es.flatMap Entry.localRecord).length), (2, 0)]

def endWidths : List Nat := [4, 4, 2, 2, 4, 4, 2]

theorem map_fst_endFields (es : List Entry) : (endFields es).map Prod.fst = endWidths := rfl

def endRecord (es : List Entry) : Bytes := octets (endFields es)

theorem length_endRecord (es : List Entry) : (endRecord es).length = endSize := by
  rw [endRecord, length_octets, map_fst_endFields]
  rfl

theorem write_eq (es : List Entry) :
    write es = es.flatMap Entry.localRecord ++ (directory 0 es ++ endRecord es) := by
  have hmark : littleEndian 4 (ofLittleEndian endMark) = endMark := by decide
  simp [write, endRecord, endFields, octets, hmark]

theorem length_write (es : List Entry) : (write es).length =
    (es.flatMap Entry.localRecord).length + (directory 0 es).length + endSize := by
  rw [write_eq, List.length_append, List.length_append, length_endRecord, Nat.add_assoc]

/-- A container has its end record last, and no comment behind it. -/
theorem endPlace_write (es : List Entry) : endPlace (write es) =
    .ok ((es.flatMap Entry.localRecord).length + (directory 0 es).length) := by
  have hplace : (write es).length - endSize =
      (es.flatMap Entry.localRecord).length + (directory 0 es).length := by
    rw [length_write, Nat.add_sub_cancel]
  have hlast : (write es).drop ((write es).length - endSize) = endRecord es := by
    rw [hplace, write_eq, ← List.append_assoc]
    exact List.drop_left' List.length_append
  have hend : (endRecord es).length = endSize ∧ (endRecord es).take 4 = endMark ∧
      (endRecord es).drop 20 = [0, 0] := ⟨length_endRecord es, rfl, rfl⟩
  rw [endPlace, hlast, hplace]
  exact if_pos hend

/-- Entries whose sizes and names a container holds. -/
structure Fits (es : List Entry) : Prop where
  size : (write es).length < 2 ^ 32
  names : ∀ e ∈ es, e.nameBytes.length < 2 ^ 16

theorem Entry.length_content_le (e : Entry) : e.content.length ≤ e.packed.length := by
  rw [packed]
  cases e.method with
  | stored => exact le_rfl
  | deflated => exact length_le_length_deflate e.content

theorem Fits.entry {es : List Entry} (h : Fits es) {e : Entry} (he : e ∈ es) : e.Fits := by
  have hrecord := e.length_localRecord
  have hall : e.localRecord.length ≤ (es.flatMap Entry.localRecord).length := by
    obtain ⟨before, after, rfl⟩ := List.append_of_mem he
    simp only [List.flatMap_append, List.flatMap_cons, List.length_append]
    omega
  have hwrite := length_write es
  have hsize := h.size
  have hcontent := e.length_content_le
  exact ⟨h.names e he, by omega, by omega⟩

theorem read_write {es : List Entry} (h : Fits es) : read (write es) = .ok (es.map Entry.written) := by
  have hlength := length_write es
  have hlast : (write es).drop ((es.flatMap Entry.localRecord).length + (directory 0 es).length) =
      endRecord es := by
    rw [write_eq, ← List.append_assoc]
    exact List.drop_left' List.length_append
  have hrest : (write es).drop (es.flatMap Entry.localRecord).length = directory 0 es ++ endRecord es := by
    rw [write_eq, List.drop_left]
  have hbound := h.size
  have hsize : field (endRecord es) 12 4 = (directory 0 es).length :=
    field_octets (map_fst_endFields es) 4 rfl rfl (by omega)
  have hoffset : field (endRecord es) 16 4 = (es.flatMap Entry.localRecord).length :=
    field_octets (map_fst_endFields es) 5 rfl rfl (by omega)
  have hdirectory : readDirectory 0 (directory 0 es).length (directory 0 es ++ endRecord es) =
      .ok (listings 0 es) :=
    readDirectory_directory (fun e he => h.entry he) (by omega) (endRecord es)
  have hentries := mapM_readEntry (fun e he => h.entry he) (directory 0 es ++ endRecord es)
  rw [← write_eq] at hentries
  have hplace : ¬ (es.flatMap Entry.localRecord).length + (directory 0 es).length <
      (directory 0 es).length := by omega
  simp only [read, endPlace_write, Bind.bind, Except.bind, hlast, hsize, hoffset, Nat.add_sub_cancel,
    if_neg hplace, Int.sub_self, hrest, hdirectory]
  exact hentries

/-- The container of these entries gives them back, as they are written. -/
def Keeps (es : List Entry) : Prop := read (write es) = .ok (es.map Entry.written)

theorem Fits.keeps {es : List Entry} (h : Fits es) : Keeps es := read_write h

end DeckMerge.Zip
