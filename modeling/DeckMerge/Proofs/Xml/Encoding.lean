import DeckMerge.Proofs.Text.Utf8
import DeckMerge.Proofs.Xml.Node
import DeckMerge.Proofs.Xml.Refusal
import DeckMerge.Xml.Encoding
import Mathlib.Data.List.Infix

/-!
Which encoding the octets of a text are read in. It is told from what stands before the first bracket, so
that it stays the same where values are written into data; and these are read apart from the text around
them, in the same encoding.
-/

namespace DeckMerge.Xml

open Text (OneLine replace withLineFeeds)

variable {s t x y w needle : Text} {c : Char} {e : Encoding}

/-! ### Octets as characters -/

def IsAscii (s : Text) : Prop := ∀ c ∈ s, c.toNat < 0x80

instance (s : Text) : Decidable (IsAscii s) := List.decidableBAll (fun c : Char => c.toNat < 0x80) s

/-- Each octet of a text as a character of its own. -/
def octetText (s : Text) : Text := ofOctets (Text.utf8 s)

theorem octetText_append (s t : Text) : octetText (s ++ t) = octetText s ++ octetText t := by
  simp [octetText, ofOctets, Text.utf8]

theorem octetText_cons (c : Char) (s : Text) : octetText (c :: s) = octetText [c] ++ octetText s :=
  octetText_append [c] s

theorem octetText_singleton (hc : c.toNat < 0x80) : octetText [c] = [c] := by
  have hoctet : c.toNat.toUInt8.toNat = c.toNat := Text.toNat_toUInt8 (by omega)
  simp only [octetText, Text.utf8, List.flatMap_singleton, Text.utf8Char, if_pos hc, ofOctets, List.map_cons,
    hoctet, Char.ofNat_toNat, List.map_nil]

/-- Other characters have octets of their own. -/
theorem utf8Char_wide (hc : ¬ c.toNat < 0x80) :
    Text.utf8Char c ≠ [] ∧ ∀ b ∈ Text.utf8Char c, 0x80 ≤ b.toNat := by
  have hvalid : c.toNat < 0x110000 := by
    rcases c.valid with h | ⟨-, h⟩
    · exact Nat.lt_trans h (by decide)
    · exact h
  have hoctet : ∀ {n : Nat}, 0x80 ≤ n → n < 256 → ∀ b, b = n.toUInt8 → 0x80 ≤ b.toNat := by
    rintro n hn hn' b rfl
    rwa [Text.toNat_toUInt8 hn']
  simp only [Text.utf8Char, if_neg hc]
  generalize c.toNat = n at *
  split
  case isTrue h =>
    refine ⟨by simp, fun b hb => ?_⟩
    simp only [List.mem_cons, List.not_mem_nil, or_false] at hb
    rcases hb with hb | hb <;> exact hoctet (by omega) (by omega) b hb
  case isFalse h =>
    split
    case isTrue h' =>
      refine ⟨by simp, fun b hb => ?_⟩
      simp only [List.mem_cons, List.not_mem_nil, or_false] at hb
      rcases hb with hb | hb | hb <;> exact hoctet (by omega) (by omega) b hb
    case isFalse h' =>
      refine ⟨by simp, fun b hb => ?_⟩
      simp only [List.mem_cons, List.not_mem_nil, or_false] at hb
      rcases hb with hb | hb | hb | hb <;> exact hoctet (by omega) (by omega) b hb

theorem toNat_ofNat_octet (b : UInt8) : (Char.ofNat b.toNat).toNat = b.toNat := by
  have hvalid : b.toNat.isValidChar := by
    have := b.toNat_lt
    simp only [Nat.isValidChar]
    omega
  rw [Char.ofNat, dif_pos hvalid]
  rfl

theorem octetText_wide (hc : ¬ c.toNat < 0x80) :
    octetText [c] ≠ [] ∧ ∀ d ∈ octetText [c], 0x80 ≤ d.toNat ∧ d.toNat < 256 := by
  obtain ⟨hne, hwide⟩ := utf8Char_wide hc
  rw [octetText, Text.utf8, List.flatMap_singleton, ofOctets]
  refine ⟨by simpa using hne, fun d hd => ?_⟩
  obtain ⟨b, hb, rfl⟩ := List.mem_map.1 hd
  rw [toNat_ofNat_octet]
  exact ⟨hwide b hb, b.toNat_lt⟩

theorem octetText_of_isAscii (h : IsAscii s) : octetText s = s := by
  induction s with
  | nil => rfl
  | cons c s ih =>
    obtain ⟨hc, hs⟩ := List.forall_mem_cons.1 h
    rw [octetText_cons, octetText_singleton hc, ih hs]
    rfl

/-- No octet of other characters stands in texts of ASCII. -/
theorem notMem_of_wide (hw : IsAscii w) (hc : ¬ c.toNat < 0x80) {d : Char} (hd : d ∈ octetText [c]) :
    d ∉ w := by
  intro hmem
  have := hw d hmem
  have := ((octetText_wide hc).2 d hd).1
  omega

theorem isPrefix_octetText_iff (hw : IsAscii w) : w <+: octetText s ↔ w <+: s := by
  induction w generalizing s with
  | nil => simp
  | cons d w ih =>
    obtain ⟨hd, hw'⟩ := List.forall_mem_cons.1 hw
    cases s with
    | nil => rfl
    | cons c s =>
      rw [octetText_cons]
      by_cases hc : c.toNat < 0x80
      · rw [octetText_singleton hc, List.singleton_append, List.cons_prefix_cons, List.cons_prefix_cons, ih hw']
      · obtain ⟨c', u, hu⟩ := List.exists_cons_of_ne_nil (octetText_wide hc).1
        have hne : d ≠ c' := by
          rintro rfl
          exact notMem_of_wide hw hc (hu ▸ List.mem_cons_self) List.mem_cons_self
        rw [hu, List.cons_append, List.cons_prefix_cons, List.cons_prefix_cons]
        exact iff_of_false (fun h => hne h.1) fun h => hc (h.1 ▸ hd)

theorem infix_of_append_of_notMem {u v : Text} (hu : ∀ d ∈ u, d ∉ w) (h : w <:+: u ++ v) :
    w <:+: v := by
  induction u with
  | nil => exact h
  | cons d u ih =>
    obtain ⟨hd, hu⟩ := List.forall_mem_cons.1 hu
    rcases Text.infix_append_cons (x := []) hd h with h | h
    · rw [List.infix_nil.1 h]
      exact List.nil_infix
    · exact ih hu h

theorem isInfix_octetText_iff (hw : IsAscii w) : w <:+: octetText s ↔ w <:+: s := by
  constructor
  · intro h
    induction s with
    | nil => exact h
    | cons c s ih =>
      by_cases hprefix : w <+: c :: s
      · exact hprefix.isInfix
      by_cases hc : c.toNat < 0x80
      · rw [octetText_cons, octetText_singleton hc, List.singleton_append, List.infix_cons_iff] at h
        refine (ih (h.resolve_left fun h => hprefix ?_)).trans (List.suffix_cons _ _).isInfix
        rwa [← isPrefix_octetText_iff hw, octetText_cons, octetText_singleton hc]
      · rw [octetText_cons] at h
        exact (ih (infix_of_append_of_notMem (fun d hd => notMem_of_wide hw hc hd) h)).trans
          (List.suffix_cons _ _).isInfix
  · rintro ⟨u, v, rfl⟩
    rw [octetText_append, octetText_append, octetText_of_isAscii hw]
    exact List.infix_append _ _ _

theorem octetText_replace (hne : needle ≠ []) (hneedle : IsAscii needle) (x s : Text) :
    octetText (replace needle x s) = replace needle (octetText x) (octetText s) := by
  induction s using Text.replace_induction needle hne with
  | nil => rw [Text.replace_nil hne, octetText, Text.utf8, List.flatMap_nil, ofOctets, List.map_nil,
      Text.replace_nil hne]
  | found s ih =>
    rw [Text.replace_append_needle hne, octetText_append, octetText_append, octetText_of_isAscii hneedle,
      Text.replace_append_needle hne, ih]
  | cons c s hprefix ih =>
    rw [Text.replace_cons hne hprefix, octetText_cons c (replace needle x s), octetText_cons c s, ih]
    by_cases hc : c.toNat < 0x80
    · have hprefix' : ¬ needle <+: c :: octetText s := by
        rwa [← isPrefix_octetText_iff hneedle, octetText_cons, octetText_singleton hc] at hprefix
      rw [octetText_singleton hc, List.singleton_append, List.singleton_append, Text.replace_cons hne hprefix']
    · have hnotMem : ∀ d ∈ octetText [c], d ∉ needle := fun d hd => notMem_of_wide hneedle hc hd
      rw [Text.replace_append_left hne ?_ fun d hd => hnotMem d (List.mem_of_getLast? hd)]
      intro hin
      obtain ⟨d, u, rfl⟩ := List.exists_cons_of_ne_nil hne
      exact hnotMem d (hin.subset List.mem_cons_self) List.mem_cons_self

/-! ### Encodings -/

/-- What is read where the octets of a text are read in an encoding. -/
def Encoding.reads (e : Encoding) (s : Text) : Option Text := e.decode? (Text.utf8 s)

namespace Encoding

theorem reads_utf8 (s : Text) : Encoding.utf8.reads s = some s := Text.ofUtf8?_utf8 s

theorem reads_latin (s : Text) : Encoding.latin.reads s = some (octetText s) := rfl

theorem isAscii_iff_all : IsAscii s ↔ (Text.utf8 s).all (· < 0x80) := by
  induction s with
  | nil => simp [IsAscii, Text.utf8]
  | cons c s ih =>
    rw [IsAscii, List.forall_mem_cons, Text.utf8, List.flatMap_cons, List.all_append, Bool.and_eq_true]
    refine and_congr ?_ ih
    by_cases hc : c.toNat < 0x80
    · have hlt : c.toNat.toUInt8 < 0x80 :=
        (Text.toUInt8_lt_iff (show c.toNat < 256 by omega) (show 0x80 < 256 by decide)).2 hc
      refine iff_of_true hc ?_
      rw [Text.utf8Char]
      simp only [if_pos hc, List.all_cons, List.all_nil, Bool.and_true, decide_eq_true_eq]
      exact hlt
    · obtain ⟨hne, hwide⟩ := utf8Char_wide hc
      obtain ⟨b, bs, hb⟩ := List.exists_cons_of_ne_nil hne
      have hge := hwide b (hb ▸ List.mem_cons_self)
      refine iff_of_false hc fun hall => ?_
      have hlt : b < 0x80 := by simpa using List.all_eq_true.1 hall b (hb ▸ List.mem_cons_self)
      rw [UInt8.lt_iff_toNat_lt] at hlt
      exact absurd (show b.toNat < 0x80 from hlt) (Nat.not_lt.2 hge)

theorem reads_ascii_eq_some_iff : Encoding.ascii.reads s = some t ↔ IsAscii s ∧ t = s := by
  rw [reads, decode?]
  by_cases h : IsAscii s
  · rw [if_pos (isAscii_iff_all.1 h), ← octetText, octetText_of_isAscii h, Option.some.injEq]
    exact ⟨fun heq => ⟨h, heq.symm⟩, fun ⟨_, heq⟩ => heq.symm⟩
  · rw [if_neg (mt isAscii_iff_all.2 h)]
    exact iff_of_false nofun fun ⟨hs, _⟩ => h hs

theorem isAscii_replace (hx : IsAscii x) (hne : needle ≠ []) (hs : IsAscii s) : IsAscii (replace needle x s) := by
  induction s using Text.replace_induction needle hne with
  | nil => rwa [Text.replace_nil hne]
  | found s ih =>
    rw [Text.replace_append_needle hne]
    exact List.forall_mem_append.2 ⟨hx, ih (List.forall_mem_append.1 hs).2⟩
  | cons c s hprefix ih =>
    obtain ⟨hc, hs⟩ := List.forall_mem_cons.1 hs
    rw [Text.replace_cons hne hprefix]
    exact List.forall_mem_cons.2 ⟨hc, ih hs⟩

/-- Values are read apart from the text that they are written in. -/
theorem reads_replace (hne : needle ≠ []) (hneedle : IsAscii needle) (hs : e.reads s = some t)
    (hx : e.reads x = some y) : e.reads (replace needle x s) = some (replace needle y t) := by
  cases e with
  | utf8 =>
    rw [reads_utf8, Option.some.injEq] at hs hx
    rw [reads_utf8, hs, hx]
  | latin =>
    rw [reads_latin, Option.some.injEq] at hs hx
    rw [reads_latin, octetText_replace hne hneedle, hs, hx]
  | ascii =>
    obtain ⟨hs, rfl⟩ := reads_ascii_eq_some_iff.1 hs
    obtain ⟨hx, rfl⟩ := reads_ascii_eq_some_iff.1 hx
    exact reads_ascii_eq_some_iff.2 ⟨isAscii_replace hx hne hs, rfl⟩

end Encoding

/-! ### Declarations -/

theorem notMem_of_all {p : Char → Bool} (h : w.all p) (hc : p c = false) : c ∉ w := by
  intro hmem
  rw [List.all_eq_true.1 h c hmem] at hc
  cases hc

theorem Pseudo.bracket_notMem {name u v : Text} (h : Pseudo name u v) (hname : '>' ∉ name) (hv : '>' ∉ v) :
    '>' ∉ u := by
  cases h with
  | @intro w w' v q hw hw' hq =>
    have hquote : '>' ≠ q := by rintro rfl; rcases hq with hq | hq <;> exact absurd hq (by decide)
    simp [hname, hv, hquote, notMem_of_all hw (show isSpace '>' = false by decide),
      notMem_of_all hw' (show isSpace '>' = false by decide)]

theorem Possibly.bracket_notMem {name u : Text} {a : Option Text} (h : Possibly name u a) (hname : '>' ∉ name)
    (hv : ∀ v ∈ a, '>' ∉ v) : '>' ∉ u := by
  cases h with
  | absent => exact List.not_mem_nil
  | present hw _ hu =>
    rw [List.mem_append, not_or]
    exact ⟨notMem_of_all hw (by decide), hu.bracket_notMem hname (hv _ rfl)⟩

theorem bracket_notMem_of_isVersion {v : Text} (h : isVersion v) : '>' ∉ v := by
  unfold isVersion at h
  split at h
  case h_1 s =>
    have hs : '>' ∉ s := notMem_of_all h (by decide)
    simp [hs]
  case h_2 => cases h

theorem bracket_notMem_of_isEncodingName {v : Text} (h : isEncodingName v) : '>' ∉ v := by
  unfold isEncodingName at h
  split at h
  case h_1 => exact List.not_mem_nil
  case h_2 c s =>
    rw [Bool.and_eq_true] at h
    have hc : '>' ≠ c := by rintro rfl; exact absurd h.1 (by decide)
    rw [List.mem_cons, not_or]
    exact ⟨hc, notMem_of_all h.2 (by decide)⟩

theorem bracket_notMem_of_isAnswer {v : Text} (h : isAnswer v) : '>' ∉ v := by
  simp only [isAnswer, Bool.or_eq_true, decide_eq_true_eq] at h
  rcases h with rfl | rfl <;> decide

/-- A declaration ends with the first bracket in it. -/
theorem Heads.exists_bracket {u : Text} {d : Declaration} (h : Heads u d) :
    ∃ v, u = v ++ ['>'] ∧ '>' ∉ v := by
  cases h with
  | @intro w w' u e a version encoding standalone hw _ hu he ha hw' hversion hencoding hstandalone =>
    refine ⟨"<?xml".toList ++ (w ++ (u ++ (e ++ (a ++ (w' ++ ['?']))))), by simp, ?_⟩
    have hu' := hu.bracket_notMem (by decide) (bracket_notMem_of_isVersion hversion)
    have he' := he.bracket_notMem (by decide) fun v hv => bracket_notMem_of_isEncodingName (by
      rw [Option.mem_def.1 hv] at hencoding
      exact hencoding)
    have ha' := ha.bracket_notMem (by decide) fun v hv => bracket_notMem_of_isAnswer (by
      rw [Option.mem_def.1 hv] at hstandalone
      exact hstandalone)
    simp [hu', he', ha', notMem_of_all hw (show isSpace '>' = false by decide),
      notMem_of_all hw' (show isSpace '>' = false by decide)]

theorem append_cons_inj {a a' b b' : Text} (ha : c ∉ a) (ha' : c ∉ a') (h : a ++ c :: b = a' ++ c :: b') :
    a = a' ∧ b = b' := by
  rcases List.append_eq_append_iff.1 h with ⟨v, rfl, hv⟩ | ⟨v, rfl, hv⟩
  · cases v with
    | nil => exact ⟨(List.append_nil _).symm, (List.cons.inj hv).2⟩
    | cons d v =>
      obtain ⟨rfl, -⟩ := List.cons.inj hv
      simp at ha'
  · cases v with
    | nil => exact ⟨List.append_nil _, (List.cons.inj hv).2.symm⟩
    | cons d v =>
      obtain ⟨rfl, -⟩ := List.cons.inj hv
      simp at ha

/-- What is declared stands before the first bracket. -/
theorem readDeclaration_before {a b rest : Text} {d : Declaration} (ha : '>' ∉ a)
    (h : readDeclaration (a ++ '>' :: b) = some (d, rest)) (b' : Text) :
    ∃ rest', readDeclaration (a ++ '>' :: b') = some (d, rest') := by
  rcases heads_of_readDeclaration h with ⟨u, hu, heq⟩ | ⟨rfl, -, hnone⟩
  · obtain ⟨v, rfl, hv⟩ := hu.exists_bracket
    obtain ⟨rfl, rfl⟩ := append_cons_inj ha hv (heq.trans (List.append_assoc _ _ _))
    exact ⟨b', by simpa using hu.read b'⟩
  · refine ⟨_, Undeclared.read fun c t heq => ?_⟩
    by_contra hspace
    rw [Bool.not_eq_false] at hspace
    rcases List.append_eq_append_iff.1 heq with ⟨v, hv, hbracket⟩ | ⟨v, rfl, hbracket⟩
    · -- the bracket would stand in the mark, or be the blank behind it
      cases v with
      | nil =>
        obtain ⟨rfl, -⟩ := List.cons.inj hbracket
        exact absurd hspace (by decide)
      | cons c' v =>
        obtain ⟨rfl, -⟩ := List.cons.inj hbracket
        have hmem : '>' ∈ "<?xml".toList := hv ▸ List.mem_append_right _ List.mem_cons_self
        exact absurd hmem (by decide)
    · cases v with
      | nil =>
        obtain ⟨rfl, -⟩ := List.cons.inj hbracket
        exact absurd hspace (by decide)
      | cons c' v =>
        obtain ⟨rfl, -⟩ := List.cons.inj hbracket
        have hundeclared := hnone c (v ++ '>' :: b) (by simp)
        rw [hspace] at hundeclared
        cases hundeclared

theorem label?_congr {a : Text} (ha : '>' ∉ a) (b b' : Text) :
    label? (Text.utf8 (a ++ '>' :: b)) = label? (Text.utf8 (a ++ '>' :: b')) := by
  have hocts : ∀ b, ofOctets (Text.utf8 (a ++ '>' :: b)) = octetText a ++ '>' :: octetText b := by
    intro b
    rw [← octetText, octetText_append, octetText_cons, octetText_singleton (show '>'.toNat < 0x80 by decide)]
    rfl
  have ha' : '>' ∉ octetText a := by
    rw [← List.singleton_infix_iff, isInfix_octetText_iff (by decide), List.singleton_infix_iff]
    exact ha
  have hread : ∀ b b' d rest, readDeclaration (octetText a ++ '>' :: b) = some (d, rest) →
      ∃ rest', readDeclaration (octetText a ++ '>' :: b') = some (d, rest') := fun b b' d rest h =>
    readDeclaration_before ha' h b'
  rw [label?, label?, hocts, hocts]
  cases h : readDeclaration (octetText a ++ '>' :: octetText b) with
  | some x =>
    obtain ⟨d, rest⟩ := x
    obtain ⟨rest', h'⟩ := hread _ (octetText b') d rest h
    rw [h']
    rfl
  | none =>
    cases h' : readDeclaration (octetText a ++ '>' :: octetText b') with
    | none => rfl
    | some x =>
      obtain ⟨d, rest⟩ := x
      obtain ⟨rest', h''⟩ := hread _ (octetText b) d rest h'
      rw [h] at h''
      cases h''

/-! ### Whole texts -/

/-- A character that says by itself that octets are those of UTF-8. -/
def mark : Char := '\ufeff'

/-- The encoding that the octets of a text are read in. -/
def encodingOf? (s : Text) : Option Encoding :=
  if s.head? = some mark then some .utf8
  else match label? (Text.utf8 s) with
    | none => some .utf8
    | some name => Encoding.named.lookup (Text.upper name)

/-- What is read of a text: all but a mark. -/
def body (s : Text) : Text := if s.head? = some mark then s.tail else s

theorem ofUtf8?_mark (bs : Bytes) :
    Text.ofUtf8? (0xef :: 0xbb :: 0xbf :: bs) = (Text.ofUtf8? bs).map (mark :: ·) :=
  Text.ofUtf8?_three (x := 0xf) (y := 0x3b) (z := 0x3f) (by decide) (by decide) (by decide) (by decide)
    (by decide) bs

/-- No text has octets that begin so. -/
theorem ofUtf8?_of_tailBits? {b b' : UInt8} (hb : 0xf0 ≤ b) (hb' : Text.tailBits? b' = none) (bs : Bytes) :
    Text.ofUtf8? (b :: b' :: bs) = none := by
  have hge : ∀ k : UInt8, k ≤ 0xf0 → ¬ b < k := fun k hk h =>
    absurd (UInt8.lt_of_lt_of_le h (UInt8.le_trans hk hb)) (UInt8.lt_irrefl b)
  rw [Text.ofUtf8?.eq_def]
  simp only [if_neg (hge 0x80 (by decide)), if_neg (hge 0xc2 (by decide)), if_neg (hge 0xe0 (by decide)),
    if_neg (hge 0xf0 (by decide))]
  rcases bs with _ | ⟨_, _ | ⟨_, _⟩⟩
  · rfl
  · rfl
  · simp only [hb']
    rfl

theorem decode?_utf8 (s : Text) : decode? (Text.utf8 s) = (encodingOf? s).bind fun e => e.reads (body s) := by
  have hs := Text.ofUtf8?_utf8 s
  have hmark : ∀ t, s = mark :: t → Text.utf8 s = 0xef :: 0xbb :: 0xbf :: Text.utf8 t := by
    rintro t rfl
    rfl
  rw [decode?.eq_def]
  split
  case h_1 rest heq =>
    rw [heq, ofUtf8?_mark] at hs
    obtain ⟨t, ht, rfl⟩ := Option.map_eq_some_iff.1 hs
    have hrest : rest = Text.utf8 t := by
      have := (hmark t rfl).symm.trans heq
      simpa using this.symm
    have hhead : (mark :: t).head? = some mark := rfl
    rw [encodingOf?, body, if_pos hhead, if_pos hhead, hrest]
    rfl
  case h_2 rest heq =>
    rw [heq, ofUtf8?_of_tailBits? (by decide) (by decide)] at hs
    cases hs
  case h_3 rest heq =>
    rw [heq, ofUtf8?_of_tailBits? (by decide) (by decide)] at hs
    cases hs
  case h_4 hne _ _ =>
    have hhead : ¬ s.head? = some mark := by
      intro h
      obtain ⟨t, rfl⟩ : ∃ t, s = mark :: t := List.head?_eq_some_iff.1 h
      exact hne _ (hmark t rfl)
    rw [encodingOf?, body, if_neg hhead, if_neg hhead]
    cases label? (Text.utf8 s) <;> rfl

end DeckMerge.Xml
