import DeckMerge.Proofs.Text.Utf8
import DeckMerge.Proofs.Zip.Inflate
import DeckMerge.Zip.Reader
import DeckMerge.Zip.Writer
import Mathlib.Data.List.TakeWhile

/-!
The records of one entry read back. A field is read from the fixed part of its record, where it stands
in as many octets as it is written in.
-/

namespace DeckMerge.Zip

/-! ### Names -/

theorem ofCodePage_utf8 {s : Text} (h : ∀ c ∈ s, c.toNat < 0x80) : ofCodePage (Text.utf8 s) = s := by
  induction s with
  | nil => rfl
  | cons c s ih =>
    obtain ⟨hc, hs⟩ := List.forall_mem_cons.1 h
    have hlt : c.toNat.toUInt8 < 0x80 := (Text.toUInt8_lt_iff (by omega) (by decide)).2 hc
    have hfront : Text.utf8 (c :: s) = c.toNat.toUInt8 :: Text.utf8 s := by
      simp [Text.utf8, Text.utf8Char, hc]
    have hchar : codePageChar c.toNat.toUInt8 = c := by
      rw [codePageChar, if_pos hlt, Text.toNat_toUInt8 (by omega), Char.ofNat_toNat]
    rw [hfront, ofCodePage, List.map_cons, hchar, ← ofCodePage, ih hs]

/-! ### Fields -/

/-- Numbers in a row, each in so many octets. -/
def octets (fs : List (Nat × Nat)) : Bytes := fs.flatMap fun (width, n) => littleEndian width n

theorem littleEndian_one (b : UInt8) : littleEndian 1 b.toNat = [b] := by
  simp [littleEndian]

theorem length_octets (fs : List (Nat × Nat)) : (octets fs).length = (fs.map Prod.fst).sum := by
  simp [octets, List.length_flatMap, length_littleEndian]

theorem drop_octets (fs : List (Nat × Nat)) (i : Nat) :
    (octets fs).drop ((fs.take i).map Prod.fst).sum = octets (fs.drop i) := by
  induction i generalizing fs with
  | zero => rfl
  | succ i ih =>
    cases fs with
    | nil => rfl
    | cons f fs =>
      have hlength : (littleEndian f.1 f.2).length = f.1 := length_littleEndian f.1 f.2
      rw [List.take_succ_cons, List.map_cons, List.sum_cons, ← List.drop_drop, octets, List.flatMap_cons,
        List.drop_left' hlength, ← octets, ih, List.drop_succ_cons]

/-- A number that fits is read back at the place where its octets start. -/
theorem field_octets {fs : List (Nat × Nat)} {widths : List Nat} (hwidths : fs.map Prod.fst = widths)
    {start width n : Nat} (i : Nat) (hstart : (widths.take i).sum = start)
    (hi : fs[i]? = some (width, n)) (hn : n < 256 ^ width) : field (octets fs) start width = n := by
  obtain ⟨hlt, hget⟩ := List.getElem?_eq_some_iff.1 hi
  rw [field, ← hstart, ← hwidths, ← List.map_take, drop_octets, List.drop_eq_getElem_cons hlt, hget,
    octets, List.flatMap_cons, List.take_left' (length_littleEndian width n),
    ofLittleEndian_littleEndian hn]

theorem Method.number_lt (m : Method) : m.number < 2 ^ 16 := by
  cases m <;> decide

theorem Method.ite_number (m : Method) : (if m.number = 0 then .stored else .deflated) = m := by
  cases m <;> rfl

namespace Entry

theorem flags_lt (e : Entry) : e.flags < 2 ^ 16 := by
  rw [flags]
  split <;> decide

theorem testBit_flags (e : Entry) {i : Nat} (hi : i ≠ utf8Flag) : e.flags.testBit i = false := by
  rw [flags]
  split
  · exact Nat.zero_testBit i
  · exact Nat.testBit_two_pow_of_ne hi.symm

theorem decodeName_nameBytes (e : Entry) : decodeName e.flags e.nameBytes = .ok e.writtenName := by
  rw [decodeName, flags]
  by_cases hascii : e.writtenName.all fun c => c.toNat < 0x80
  · have hunset : Nat.testBit 0 utf8Flag = false := rfl
    rw [if_pos hascii, hunset, nameBytes, ofCodePage_utf8 (by simpa using hascii)]
    rfl
  · have hset : Nat.testBit (2 ^ utf8Flag) utf8Flag = true := rfl
    rw [if_neg hascii, hset, nameBytes, Text.ofUtf8?_utf8]
    rfl

structure Fits (e : Entry) : Prop where
  name : e.nameBytes.length < 2 ^ 16
  packed : e.packed.length < 2 ^ 32
  content : e.content.length < 2 ^ 32

/-- What the directory says about an entry whose local record stands at an offset. -/
def listing (e : Entry) (offset : Nat) : Listing where
  fullName := e.writtenName
  moment := e.moment
  method := e.method.number
  flags := e.flags
  checksum := (checksum e.content).toNat
  packedSize := e.packed.length
  size := e.content.length
  attributes := e.writtenAttributes
  system := e.system
  offset := offset

def summaryFields (e : Entry) : List (Nat × Nat) :=
  [(2, e.flags), (2, e.method.number), (2, e.moment.time.toNat), (2, e.moment.date.toNat),
    (4, (checksum e.content).toNat), (4, e.packed.length), (4, e.content.length),
    (2, e.nameBytes.length), (2, 0)]

theorem summary_eq (e : Entry) : e.summary = octets e.summaryFields := by
  simp [summary, summaryFields, octets]

theorem Fits.summaryFields {e : Entry} (h : e.Fits) : ∀ f ∈ e.summaryFields, f.2 < 256 ^ f.1 := by
  simp only [Entry.summaryFields, List.forall_mem_cons]
  exact ⟨e.flags_lt, e.method.number_lt, e.moment.time.toNat_lt, e.moment.date.toNat_lt,
    (checksum e.content).toNat_lt, h.packed, h.content, h.name, by decide, by simp⟩

/-! ### Records of the directory -/

def directoryFields (e : Entry) (offset : Nat) : List (Nat × Nat) :=
  [(4, ofLittleEndian directoryMark), (1, version.toNat), (1, e.system.toNat), (1, version.toNat),
    (1, 0)] ++ e.summaryFields ++ [(2, 0), (4, 0), (4, e.writtenAttributes.toNat), (4, offset)]

def directoryWidths : List Nat := [4, 1, 1, 1, 1, 2, 2, 2, 2, 4, 4, 4, 2, 2, 2, 4, 4, 4]

theorem map_fst_directoryFields (e : Entry) (offset : Nat) :
    (e.directoryFields offset).map Prod.fst = directoryWidths := rfl

theorem Fits.directoryFields {e : Entry} (h : e.Fits) {offset : Nat} (hoffset : offset < 2 ^ 32) :
    ∀ f ∈ e.directoryFields offset, f.2 < 256 ^ f.1 := by
  simp only [Entry.directoryFields, List.forall_mem_append, List.forall_mem_cons]
  exact ⟨⟨⟨by decide, by decide, e.system.toNat_lt, by decide, by decide, by simp⟩,
    h.summaryFields⟩, by decide, by decide, e.writtenAttributes.toNat_lt, hoffset, by simp⟩

theorem directoryRecord_eq (e : Entry) (offset : Nat) :
    e.directoryRecord offset = octets (e.directoryFields offset) ++ e.nameBytes := by
  have hmark : littleEndian 4 (ofLittleEndian directoryMark) = directoryMark := by decide
  have hzero : littleEndian 1 0 = [0] := rfl
  have hrest : littleEndian 6 0 = littleEndian 2 0 ++ littleEndian 4 0 := rfl
  rw [directoryRecord, summary_eq]
  simp [directoryFields, octets, hmark, hzero, hrest, littleEndian_one]

theorem length_directoryFields (e : Entry) (offset : Nat) :
    (octets (e.directoryFields offset)).length = directorySize := by
  rw [length_octets, map_fst_directoryFields]
  rfl

theorem length_directoryRecord (e : Entry) (offset : Nat) :
    (e.directoryRecord offset).length = directorySize + e.nameBytes.length := by
  rw [directoryRecord_eq, List.length_append, length_directoryFields]

theorem readListing_directoryRecord {e : Entry} (he : e.Fits) {offset : Nat} (hoffset : offset < 2 ^ 32)
    (rest : Bytes) : readListing 0 (e.directoryRecord offset ++ rest) =
      .ok (e.listing offset, (e.directoryRecord offset).length) := by
  have hmark : (octets (e.directoryFields offset)).take 4 = directoryMark := rfl
  have hlength := e.length_directoryFields offset
  have hread : ∀ {start width n : Nat} (i : Nat),
      (directoryWidths.take i).sum = start → (e.directoryFields offset)[i]? = some (width, n) →
      field (octets (e.directoryFields offset)) start width = n :=
    fun i hstart hi => field_octets (e.map_fst_directoryFields offset) i hstart hi
      (he.directoryFields hoffset _ (List.mem_of_getElem? hi))
  have hsplit : e.directoryRecord offset ++ rest =
      octets (e.directoryFields offset) ++ (e.nameBytes ++ rest) := by
    rw [directoryRecord_eq, List.append_assoc]
  generalize octets (e.directoryFields offset) = head at hmark hlength hread hsplit
  have hsystem : field head 5 1 = e.system.toNat := hread 2 rfl rfl
  have hversion : field head 6 1 = version.toNat := hread 3 rfl rfl
  have hflags : field head 8 2 = e.flags := hread 5 rfl rfl
  have hmethod : field head 10 2 = e.method.number := hread 6 rfl rfl
  have htime : field head 12 2 = e.moment.time.toNat := hread 7 rfl rfl
  have hdate : field head 14 2 = e.moment.date.toNat := hread 8 rfl rfl
  have hchecksum : field head 16 4 = (checksum e.content).toNat := hread 9 rfl rfl
  have hpacked : field head 20 4 = e.packed.length := hread 10 rfl rfl
  have hcontent : field head 24 4 = e.content.length := hread 11 rfl rfl
  have hname : field head 28 2 = e.nameBytes.length := hread 12 rfl rfl
  have hextra : field head 30 2 = 0 := hread 13 rfl rfl
  have hcomment : field head 32 2 = 0 := hread 14 rfl rfl
  have hattributes : field head 38 4 = e.writtenAttributes.toNat := hread 16 rfl rfl
  have hplace : field head 42 4 = offset := hread 17 rfl rfl
  have hok : ¬ (head.length ≠ directorySize ∨ head.take 4 ≠ directoryMark) := by simp [hlength, hmark]
  rw [readListing, hsplit, List.take_left' hlength, List.drop_left' hlength, ← List.drop_drop,
    List.drop_left' hlength]
  simp only [if_neg hok, hsystem, hversion, hflags, hmethod, htime, hdate, hchecksum, hpacked,
    hcontent, hname, hextra, hcomment, hattributes, hplace]
  rw [List.take_left, decodeName_nameBytes, List.take_zero, fieldsFit]
  simp [Bind.bind, Except.bind, pure, Except.pure, newestVersion, version, listing,
    length_directoryRecord]

/-! ### Local records -/

def localFields (e : Entry) : List (Nat × Nat) :=
  [(4, ofLittleEndian localMark), (1, version.toNat), (1, 0)] ++ e.summaryFields

def localWidths : List Nat := [4, 1, 1, 2, 2, 2, 2, 4, 4, 4, 2, 2]

theorem map_fst_localFields (e : Entry) : e.localFields.map Prod.fst = localWidths := rfl

theorem Fits.localFields {e : Entry} (h : e.Fits) : ∀ f ∈ e.localFields, f.2 < 256 ^ f.1 := by
  simp only [Entry.localFields, List.forall_mem_append, List.forall_mem_cons]
  exact ⟨⟨by decide, by decide, by decide, by simp⟩, h.summaryFields⟩

theorem localRecord_eq (e : Entry) :
    e.localRecord = octets e.localFields ++ (e.nameBytes ++ e.packed) := by
  have hmark : littleEndian 4 (ofLittleEndian localMark) = localMark := by decide
  have hzero : littleEndian 1 0 = [0] := rfl
  rw [localRecord, summary_eq]
  simp [localFields, octets, hmark, hzero, littleEndian_one]

theorem length_localFields (e : Entry) : (octets e.localFields).length = localSize := by
  rw [length_octets, map_fst_localFields]
  rfl

theorem length_localRecord (e : Entry) :
    e.localRecord.length = localSize + e.nameBytes.length + e.packed.length := by
  rw [localRecord_eq, List.length_append, length_localFields, List.length_append, Nat.add_assoc]

theorem unpack_packed (e : Entry) (offset : Nat) : unpack (e.listing offset) e.packed = .ok e.content := by
  cases hmethod : e.method with
  | stored =>
    have hpacked : e.packed = e.content := by rw [packed, hmethod, Method.pack]
    simp [unpack, listing, hmethod, Method.number, hpacked, Bind.bind, Except.bind, pure, Except.pure]
  | deflated =>
    have hpacked : inflate e.packed = (e.content, none) := by
      rw [packed, hmethod, Method.pack, inflate_deflate]
    simp [unpack, listing, hmethod, Method.number, hpacked, Bind.bind, Except.bind, pure, Except.pure]

theorem readContent_localRecord {e : Entry} (he : e.Fits) {bs rest : Bytes} {offset : Nat} {limit : Int}
    (hbs : bs.drop offset = e.localRecord ++ rest)
    (hlimit : (offset : Int) + e.localRecord.length ≤ limit) :
    readContent bs limit (e.listing offset) = .ok e.content := by
  have hmark : (octets e.localFields).take 4 = localMark := rfl
  have hlength := e.length_localFields
  have hread : ∀ {start width n : Nat} (i : Nat), (localWidths.take i).sum = start →
      e.localFields[i]? = some (width, n) → field (octets e.localFields) start width = n :=
    fun i hstart hi => field_octets e.map_fst_localFields i hstart hi
      (he.localFields _ (List.mem_of_getElem? hi))
  have hsplit : e.localRecord ++ rest = octets e.localFields ++ (e.nameBytes ++ (e.packed ++ rest)) := by
    simp [localRecord_eq]
  rw [length_localRecord] at hlimit
  generalize octets e.localFields = head at hmark hlength hread hsplit
  have hflags : field head 6 2 = e.flags := hread 3 rfl rfl
  have hname : field head 26 2 = e.nameBytes.length := hread 10 rfl rfl
  have hextra : field head 28 2 = 0 := hread 11 rfl rfl
  have hok : ¬ (head.length ≠ localSize ∨ head.take 4 ≠ localMark) := by simp [hlength, hmark]
  have hfive : e.flags.testBit 5 = false := e.testBit_flags (by decide)
  have hsix : e.flags.testBit 6 = false := e.testBit_flags (by decide)
  have hzero : e.flags.testBit 0 = false := e.testBit_flags (by decide)
  have hoffset : ¬ (offset : Int) < 0 := by omega
  have hstart : localSize + min e.nameBytes.length
      ((head ++ (e.nameBytes ++ (e.packed ++ rest))).length - localSize) + 0 =
        localSize + e.nameBytes.length := by
    simp only [List.length_append, hlength]
    omega
  have hdata : (head ++ (e.nameBytes ++ (e.packed ++ rest))).drop (localSize + e.nameBytes.length) =
      e.packed ++ rest := by
    rw [← List.drop_drop, List.drop_left' hlength, List.drop_left]
  have hbound : ¬ limit < (offset : Int) + ↑(localSize + e.nameBytes.length) + ↑e.packed.length := by
    push_cast at hlimit ⊢
    omega
  simp only [readContent, listing, Int.toNat_natCast, hbs, hsplit, List.take_left' hlength,
    List.drop_left' hlength, if_neg hok, hflags, hname, hextra, if_neg hoffset, hstart, hdata,
    if_neg hbound, hfive, hsix, hzero, List.take_left, decodeName_nameBytes]
  simp only [or_self, Bool.false_eq_true, if_false, ne_eq, Bind.bind, Except.bind, not_true_eq_false]
  exact e.unpack_packed offset

/-- An entry as it is read back. -/
def written (e : Entry) : Entry :=
  { e with name := e.writtenName, attributes := e.writtenAttributes }

theorem readEntry_localRecord {e : Entry} (he : e.Fits) {bs rest : Bytes} {offset : Nat} {limit : Int}
    (hbs : bs.drop offset = e.localRecord ++ rest)
    (hlimit : (offset : Int) + e.localRecord.length ≤ limit) :
    readEntry bs limit (e.listing offset) = .ok e.written := by
  have hname : (e.listing offset).name = e.writtenName := by
    simp [Listing.name, listing, writtenName, List.takeWhile_idem]
  have hmethod : (if (e.listing offset).method = 0 then Method.stored else .deflated) = e.method :=
    e.method.ite_number
  rw [readEntry, readContent_localRecord he hbs hlimit, hname]
  simp only [hmethod, Bind.bind, Except.bind]
  rfl

end Entry

end DeckMerge.Zip
