import DeckMerge.Proofs.Text.Utf8
import DeckMerge.Proofs.Xml.Sound
import DeckMerge.Xml.Encoding

/-!
Documents that are written and read back. A document that was read without an error is written in a form
that reads back as the same root, with its ends of lines made alike.
-/

namespace DeckMerge.Xml

variable {s v : Text} {bs : Bytes}

/-! ### The declaration that is written -/

/-- The declaration of a document as it is written. -/
def heading (version : Text) : Text :=
  "<?xml version='".toList ++ version ++ "' encoding='UTF-8' standalone='yes'?>".toList

-- The definition is opened by this alone: Lean takes long to open one that holds such texts.
theorem heading_eq (version : Text) : heading version =
    "<?xml version='".toList ++ version ++ "' encoding='UTF-8' standalone='yes'?>".toList := rfl

theorem Document.write_eq (d : Document) : d.write =
    heading d.declaration.version ++ '\n' :: (d.root : Node).write d.declaration.encoding.isSome := by
  have hback : "' encoding='UTF-8' standalone='yes'?>\n".toList =
      "' encoding='UTF-8' standalone='yes'?>".toList ++ ['\n'] := by decide
  change "<?xml version='".toList ++ d.declaration.version ++
    "' encoding='UTF-8' standalone='yes'?>\n".toList ++ _ = _
  rw [hback, heading_eq]
  simp

theorem isDigit_of_isVersion (h : isVersion v) : ∀ c ∈ v, c = '.' ∨ c.isDigit := by
  unfold isVersion at h
  split at h
  case h_1 s =>
    intro c hc
    rcases List.mem_cons.1 hc with rfl | hc
    · exact .inr (by decide)
    rcases List.mem_cons.1 hc with rfl | hc
    · exact .inl rfl
    · exact .inr (List.all_eq_true.1 h c hc)
  case h_2 => cases h

theorem notMem_of_isVersion (h : isVersion v) {c : Char} (hdot : c ≠ '.') (hdigit : c.isDigit = false) :
    c ∉ v := by
  intro hmem
  rcases isDigit_of_isVersion h c hmem with heq | hc
  · exact hdot heq
  · rw [hdigit] at hc
    cases hc

theorem pseudo_quoted {name v : Text} (hv : '\'' ∉ v) :
    Pseudo name (name ++ '=' :: '\'' :: (v ++ ['\''])) v :=
  @Pseudo.intro name [] [] v '\'' rfl rfl (.inr rfl) hv

theorem possibly_quoted {name v : Text} (hv : '\'' ∉ v) :
    Possibly name (' ' :: (name ++ '=' :: '\'' :: (v ++ ['\'']))) (some v) :=
  @Possibly.present name [' '] _ v rfl (List.cons_ne_nil _ _) (pseudo_quoted hv)

theorem heads_heading (h : isVersion v) : Heads (heading v) ⟨v, some "UTF-8"⟩ := by
  have hquote : '\'' ∉ v := notMem_of_isVersion h (by decide) (by decide)
  have hencoding : '\'' ∉ "UTF-8".toList := by decide
  have hstandalone : '\'' ∉ "yes".toList := by decide
  have hname : (some "UTF-8".toList).all isEncodingName := by decide
  have hanswer : (some "yes".toList).all isAnswer := by decide
  have hheads := @Heads.intro [' '] [] _ _ _ v _ _ rfl (List.cons_ne_nil _ _)
    (pseudo_quoted hquote) (possibly_quoted hencoding) (possibly_quoted hstandalone) rfl h hname hanswer
  have htext : heading v = "<?xml".toList ++ ([' '] ++ ("version".toList ++ '=' :: '\'' :: (v ++ ['\'']) ++
      (' ' :: ("encoding".toList ++ '=' :: '\'' :: ("UTF-8".toList ++ ['\''])) ++
        (' ' :: ("standalone".toList ++ '=' :: '\'' :: ("yes".toList ++ ['\''])) ++ ([] ++ ['?', '>']))))) := by
    simp [heading_eq]
  rw [htext]
  exact hheads

theorem isVersion_of_heads {u : Text} {d : Declaration} (h : Heads u d) : isVersion d.version := by
  cases h with
  | intro _ _ _ _ _ _ hversion _ _ => exact hversion

theorem Fronts.isVersion {u : Text} {p : Prolog} (h : Fronts u p) : isVersion p.declaration.version := by
  have hbegins : ∀ {body u : Text} {d : Declaration}, Begins body u d → Xml.isVersion d.version := by
    intro body u d hd
    cases hd with
    | declared hu => exact isVersion_of_heads hu
    | undeclared => rfl
  cases h with
  | plain hd => exact hbegins hd
  | typed hd => exact hbegins hd

/-! ### Octets -/

theorem ofOctets_utf8_append (hs : ∀ c ∈ s, c.toNat < 0x80) (t : Text) :
    ofOctets (Text.utf8 (s ++ t)) = s ++ ofOctets (Text.utf8 t) := by
  induction s with
  | nil => rfl
  | cons c s ih =>
    obtain ⟨hc, hs⟩ := List.forall_mem_cons.1 hs
    have hchar : Text.utf8Char c = [c.toNat.toUInt8] := if_pos hc
    have hoctet : Char.ofNat c.toNat.toUInt8.toNat = c := by
      rw [Text.toNat_toUInt8 (by omega), Char.ofNat_toNat]
    rw [List.cons_append, Text.utf8, List.flatMap_cons, hchar, ← Text.utf8]
    change Char.ofNat c.toNat.toUInt8.toNat :: ofOctets (Text.utf8 (s ++ t)) = _
    rw [hoctet, ih hs, List.cons_append]

theorem toNat_lt_of_mem_heading (h : isVersion v) : ∀ c ∈ heading v, c.toNat < 0x80 := by
  have hversion : ∀ c ∈ v, c.toNat < 0x80 := by
    intro c hc
    rcases isDigit_of_isVersion h c hc with rfl | hdigit
    · decide
    · have hle : c.toNat ≤ 57 := (Char.isDigit_iff_toNat.1 hdigit).2
      omega
  have hfront : ("<?xml version='".toList).all fun c => c.toNat < 0x80 := by decide
  have hback : ("' encoding='UTF-8' standalone='yes'?>".toList).all fun c => c.toNat < 0x80 := by decide
  rw [List.all_eq_true] at hfront hback
  intro c hc
  rw [heading_eq, List.mem_append, List.mem_append] at hc
  rcases hc with (hc | hc) | hc
  exacts [of_decide_eq_true (hfront c hc), hversion c hc, of_decide_eq_true (hback c hc)]

/-- Octets of UTF-8 that begin with a bracket, and whose declaration says what they are. -/
theorem decode?_of_label {t : Text} (hhead : t.head? = some '<')
    (hlabel : label? (Text.utf8 t) = some "UTF-8".toList) : decode? (Text.utf8 t) = some t := by
  have hcharacters : Text.ofUtf8? (Text.utf8 t) = some t := Text.ofUtf8?_utf8 _
  obtain ⟨bs, hbs⟩ : ∃ bs, Text.utf8 t = 0x3c :: bs := by
    cases t with
    | nil => cases hhead
    | cons c t =>
      obtain rfl : c = '<' := by simpa using hhead
      exact ⟨_, rfl⟩
  have hnamed : Encoding.named.lookup (Text.upper "UTF-8".toList) = some .utf8 := by decide
  rw [hbs] at hlabel hcharacters ⊢
  unfold decode?
  split
  case h_1 heq => exact absurd (List.cons.inj heq).1 (by decide)
  case h_2 heq => exact absurd (List.cons.inj heq).1 (by decide)
  case h_3 heq => exact absurd (List.cons.inj heq).1 (by decide)
  case h_4 =>
    rw [hlabel]
    simp only [hnamed, Option.bind_eq_bind, Option.bind_some]
    exact hcharacters

/-- Text behind the declaration that is written is read as UTF-8. -/
theorem decode?_heading (h : isVersion v) (t : Text) :
    decode? (Text.utf8 (heading v ++ t)) = some (heading v ++ t) := by
  refine decode?_of_label rfl ?_
  rw [label?, ofOctets_utf8_append (toNat_lt_of_mem_heading h), (heads_heading h).read]
  rfl

/-! ### Documents -/

/-- A document that is written in a form that reads back. -/
structure Document.Sound (d : Document) : Prop where
  version : isVersion d.declaration.version
  root : (d.root : Node).Sound [] 0

def Element.fed (e : Element) : Element := ⟨e.tag, fedAll e.children⟩

/-- A document as it is read back. -/
def Document.reread (d : Document) : Document := ⟨⟨d.declaration.version, some "UTF-8"⟩, d.root.fed⟩

theorem Document.Sound.reread {d : Document} (h : d.Sound) : d.reread.Sound := ⟨h.version, h.root.fed⟩

/-- What is read without an error reads back. -/
theorem Document.sound_of_check {d : Document} {complaints : List Complaint}
    (h : Document.check s = some (d, complaints)) (hsilent : .error ∉ complaints) : d.Sound := by
  simp only [Document.check, Option.bind_eq_bind, Option.bind_eq_some_iff] at h
  obtain ⟨source, hsource, h⟩ := h
  obtain ⟨ps, hps, -⟩ := cut_of_readSource hsource
  split at h
  case h_2 => cases h
  case h_1 tag children hroot =>
    obtain ⟨rfl, rfl⟩ := Prod.mk.inj (Option.some.inj h)
    cases hps with
    | @intro front back p ps node after hfront helement _ =>
      have hnode : .error ∉ (resolve [] node).2 := fun herror => hsilent (by simp [herror])
      have hsound : (resolve [] node).1.Sound [] 0 := (helement.proper (by decide)).sound hnode
      rw [hroot] at hsound
      exact ⟨hfront.isVersion, hsound⟩

/-- The whole text of a document as it is written, with line feeds for all ends of lines. -/
theorem Document.Sound.cut {d : Document} (h : d.Sound) :
    ∃ ps, Cut ps ⟨⟨⟨d.declaration.version, some "UTF-8"⟩, [], []⟩, (d.root.fed : Node).tree, []⟩ ∧
      joined ps = Text.withLineFeeds d.write := by
  have hreturn : '\r' ∉ heading d.declaration.version ++ ['\n'] := by
    have hversion := notMem_of_isVersion h.version (show '\r' ≠ '.' by decide) (by decide)
    simp [heading_eq, hversion]
  have hroot : (d.root.fed : Node).Sound [] 0 := h.root.fed
  have hfed : Text.withLineFeeds d.write = heading d.declaration.version ++ ['\n'] ++
      (d.root.fed : Node).write d.declaration.encoding.isSome := by
    have hwritten := h.root.withLineFeeds_write d.declaration.encoding.isSome []
    rw [List.append_nil, Text.withLineFeeds_nil, List.append_nil] at hwritten
    rw [Document.write_eq, ← List.singleton_append, ← List.append_assoc, Text.withLineFeeds_append hreturn,
      hwritten]
    rfl
  obtain ⟨inner, hinner, hjoined⟩ := hroot.2.2.exists_laid d.declaration.encoding.isSome
  obtain ⟨ps, hps, hwritten⟩ := exists_laidElement hroot.2.1 hinner hjoined
  have hfront : Fronts (heading d.declaration.version ++ ['\n'])
      ⟨⟨d.declaration.version, some "UTF-8"⟩, [], []⟩ :=
    .plain (.declared (heads_heading h.version)) (.blanks (by decide))
  exact ⟨_, .intro hfront hps (.blanks (w := []) rfl), by simp [hwritten, hfed]⟩

theorem Document.Sound.ofText?_write {d : Document} (h : d.Sound) :
    Document.ofText? (Text.withLineFeeds d.write) = some d.reread := by
  obtain ⟨ps, hps, hjoined⟩ := h.cut
  have hsource := hps.read
  have hroot : (d.root.fed : Node).Sound [] 0 := h.root.fed
  obtain ⟨hnode, hsilent⟩ := hroot.resolve_tree
  rw [hjoined] at hsource
  let version := if d.declaration.version = "1.0".toList then [] else [Complaint.warning]
  have hcheck : Document.check (Text.withLineFeeds d.write) =
      some (d.reread, version ++ [] ++ (resolve [] (d.root.fed : Node).tree).2 ++ []) := by
    simp only [Document.check, hsource, Option.bind_eq_bind, Option.bind_some, hnode]
    rfl
  have hversion : .error ∉ version := by
    unfold version
    split <;> simp
  rw [Document.ofText?, hcheck]
  simp only [Option.bind_eq_bind, Option.bind_some]
  refine if_neg fun hlast => ?_
  have herror := List.mem_of_getLast? hlast
  simp [hversion, hsilent] at herror

theorem Document.Sound.ofBytes?_write {d : Document} (h : d.Sound) :
    Document.ofBytes? (Text.utf8 d.write) = some d.reread := by
  have hdecode : decode? (Text.utf8 d.write) = some d.write := by
    rw [Document.write_eq]
    exact decode?_heading h.version _
  rw [Document.ofBytes?, hdecode]
  exact h.ofText?_write

end DeckMerge.Xml
