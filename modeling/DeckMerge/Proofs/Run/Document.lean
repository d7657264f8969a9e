import DeckMerge.Proofs.Placeholder.Token
import DeckMerge.Proofs.Xml.Values
import DeckMerge.Run.Injection

/-!
Parts are documents before and after values are written into them. Where placeholders stand in data alone,
a value of one line reads back as it is, without the characters that no document may hold.
-/

namespace DeckMerge.Run

open Placeholder (Token)
open Xml (Document Encoding Needle ReadAs StaysOpen encodingOf? isWellFormed joined)

variable {s value x y : Text} {t : Token} {e : Encoding} {ps : List Xml.Piece}

theorem toNat_lt_of_isTokenChar {c : Char} (h : Placeholder.isTokenChar c) : c.toNat < 0x80 := by
  have hle : ∀ {m : Char}, c ≤ m → c.toNat ≤ m.toNat := fun hle => hle
  simp only [Placeholder.isTokenChar, Placeholder.isKeyChar, Bool.or_eq_true, Bool.and_eq_true,
    decide_eq_true_eq, beq_iff_eq] at h
  rcases h with ((⟨-, h⟩ | ⟨-, h⟩) | rfl) | h
  · exact Nat.lt_of_le_of_lt (hle h) (by decide)
  · exact Nat.lt_of_le_of_lt (hle h) (by decide)
  · decide
  · have hmarks : "\x7b\x7d?#/".toList.all fun c => c.toNat < 0x80 := by decide
    exact of_decide_eq_true (List.all_eq_true.1 hmarks c h)

theorem needle_text (ht : t.Valid) : Needle t.text where
  ne_nil := t.text_ne_nil
  unmarked := by
    intro c hc
    have hchar := Token.isTokenChar_of_mem_text ht hc
    refine ⟨?_, ?_, ?_, ?_⟩ <;> rintro rfl <;> exact absurd hchar (by decide)
  ascii := fun c hc => toNat_lt_of_isTokenChar (Token.isTokenChar_of_mem_text ht hc)
  oneLine := by
    intro c hc
    have hchar := Token.isTokenChar_of_mem_text ht hc
    constructor <;> rintro rfl <;> exact absurd hchar (by decide)

theorem inject_of_not_hasBreak (hne : t.text ≠ []) (hvalue : ¬ Markup.hasBreak value) (part label : Option Text) :
    (inject s t.text value part label).1 = Text.replace t.text (Markup.escape value) s := by
  simp only [inject, Task.run, hvalue, Bool.false_eq_true, if_false, substitute, if_neg hne]
  rfl

/-- A document in which a placeholder stands in data alone is an outline, filled with the placeholder. With a
value of one line in its place it is a document exactly if no data hold the end of a section then, and it
reads as the outline filled with the value, as the encoding of the document has it. Only an empty value may
join the ends of lines around it. -/
theorem inject_document (ht : t.Valid) (hs : isWellFormed s) (hread : ReadAs s e ps)
    (hdata : ∀ u, .markup u ∈ ps → ¬ t.text <:+: u) :
    ∃ o : Document, Document.ofBytes? (Text.utf8 s) = some (o.fill t.text) ∧
      ∀ value x y part label, ¬ Markup.hasBreak value →
        e.reads (Markup.escape value) = some x → e.reads (Markup.sanitize value) = some y →
        (Markup.sanitize value = [] → ¬ '\r' :: t.text <:+: s) →
        (isWellFormed (inject s t.text value part label).1 ↔ StaysOpen t.text x ps) ∧
        (StaysOpen t.text x ps →
          Document.ofBytes? (Text.utf8 (inject s t.text value part label).1) = some (o.fill y)) := by
  have hneedle := needle_text ht
  rw [isWellFormed, hread.ofBytes?_eq, Option.isSome_iff_exists] at hs
  obtain ⟨d, hd⟩ := hs
  obtain ⟨a, hcut⟩ := hread.cut
  obtain ⟨o, ho, hfill⟩ := hcut.exists_document hneedle.unmarked hneedle.ne_nil hdata hd
  refine ⟨o, by rw [hread.ofBytes?_eq, hd, ho], fun value x y part label hvalue hx hy hseam => ?_⟩
  have hempty : Markup.escape value = [] → ¬ '\r' :: t.text <:+: s := by
    intro hnil
    refine hseam ?_
    by_contra hne
    exact Markup.escape_ne_nil hne hnil
  have hreplaced := hread.ofBytes?_replace hneedle hdata (Xml.oneLine_escape hvalue) hx hempty
  obtain ⟨hopen, hclosed⟩ := hfill x y (Encoding.spells_escape hx hy)
  rw [isWellFormed, inject_of_not_hasBreak hneedle.ne_nil hvalue, hreplaced]
  refine ⟨⟨fun hsome => ?_, fun h => ?_⟩, hopen⟩
  · by_contra h
    rw [hclosed h] at hsome
    cases hsome
  · rw [hopen h]
    rfl

/-! ### A part of one placeholder -/

def namePart : Text := "<p>\x7b\x7bA\x7d\x7d</p>"

def namePieces : List Xml.Piece :=
  [.markup [], .markup "<p>", .data "\x7b\x7bA\x7d\x7d", .markup "</p>", .markup []]

theorem readAs_namePart : ReadAs namePart .utf8 namePieces where
  encoding := by decide
  text := ⟨namePart, Encoding.reads_utf8 _, by decide⟩
  cut := by
    have hdata : Xml.Laid [] 1 [.data "\x7b\x7bA\x7d\x7d"] _ := .data ⟨rfl, rfl, by decide⟩ (by decide) rfl .nil
    have hroot : Xml.LaidElement [] 0 [.markup "<p>", .data "\x7b\x7bA\x7d\x7d", .markup "</p>"] _ :=
      .content (show Xml.isName "p".toList by decide) (.opening (show ([] : Text).all Xml.isSpace from rfl)) hdata
        (show ([] : Text).all Xml.isSpace from rfl)
    have hfront : Xml.Fronts [] _ := .plain (.undeclared fun _ _ h => by cases h) (.blanks rfl)
    exact ⟨_, .intro hfront hroot (.blanks rfl)⟩

theorem inject_document_name : ∃ o : Document,
    Document.ofBytes? (Text.utf8 namePart) = some (o.fill "\x7b\x7bA\x7d\x7d") ∧
    Document.ofBytes? (Text.utf8 (inject namePart "\x7b\x7bA\x7d\x7d" "R & D]]>" none none).1) =
      some (o.fill "R & D]]>") := by
  have ht : (⟨.scalar, "A"⟩ : Token).Valid := ⟨by decide, List.all_eq_true.1 (by decide)⟩
  have hdata : ∀ u, .markup u ∈ namePieces → ¬ (⟨.scalar, "A"⟩ : Token).text <:+: u := by
    intro u hu
    simp only [namePieces, List.mem_cons, Xml.Piece.markup.injEq, reduceCtorEq, List.not_mem_nil, or_false,
      false_or] at hu
    rcases hu with rfl | rfl | rfl | rfl <;> decide
  have hopen : StaysOpen (⟨.scalar, "A"⟩ : Token).text "R &amp; D]]&gt;" namePieces := by
    intro u hu
    simp only [namePieces, List.mem_cons, Xml.Piece.data.injEq, reduceCtorEq, List.not_mem_nil, or_false,
      false_or] at hu
    rw [hu]
    decide +kernel
  obtain ⟨o, ho, hfill⟩ := inject_document ht (by decide +kernel) readAs_namePart hdata
  obtain ⟨-, hread⟩ := hfill "R & D]]>" "R &amp; D]]&gt;" "R & D]]>" none none (by decide)
    (Encoding.reads_utf8 _) (Encoding.reads_utf8 _) (by decide)
  exact ⟨o, ho, hread hopen⟩

/-- A value may complete the end of a section with the text behind it, which leaves no document. -/
theorem inject_completes_section : isWellFormed "<p>\x7b\x7bA\x7d\x7d></p>" ∧
    ¬ isWellFormed (inject "<p>\x7b\x7bA\x7d\x7d></p>" "\x7b\x7bA\x7d\x7d" "]]" none none).1 := by
  decide +kernel

end DeckMerge.Run
