import DeckMerge.Proofs.Markup.Escape
import DeckMerge.Proofs.Text.Replacing

/-!
What escaping loses and what it keeps. The characters that a document cannot hold are dropped; all others
come back when the entities are read, once and from the left. The five characters of markup may be replaced
one after another, in any text, as long as the ampersand comes first.
-/

namespace DeckMerge

/-- Replacing a single character changes each character apart. -/
theorem Text.replace_singleton (c : Char) (value s : Text) :
    replace [c] value s = s.flatMap fun d => if d = c then value else [d] := by
  induction s with
  | nil => exact replace_nil (List.cons_ne_nil _ _) _
  | cons d s ih =>
    by_cases hd : d = c
    · subst hd
      rw [List.flatMap_cons, if_pos rfl, ← ih]
      exact replace_append_needle (List.cons_ne_nil _ _) value s
    · have hfirst : ¬ [c] <+: d :: s := by
        rw [List.cons_prefix_cons]
        exact fun h => hd h.1.symm
      rw [replace_cons (List.cons_ne_nil _ _) hfirst, ih, List.flatMap_cons, if_neg hd, List.singleton_append]

namespace Markup

variable {c : Char} {form s t : Text} {ns : List Nat}

/-! ### Entities -/

/-- The forms that entities are written in, each with the character that it stands for. -/
def entities : List (Text × Char) :=
  [("&amp;", '&'), ("&lt;", '<'), ("&gt;", '>'), ("&quot;", '"'), ("&apos;", '\'')]

def readEntity : Recogniser Char := fun s =>
  entities.findSome? fun (form, c) => (form.isPrefixOf? s).map (c, ·)

/-- The text with its entities read, in one pass from the left. What has been read is not read again. -/
def decode (s : Text) : Text :=
  ((readEntity.findAll s).1.flatMap fun (before, c) => before ++ [c]) ++ (readEntity.findAll s).2

/-- Characters replaced by their forms, each in the text that the one before it has left. -/
def replaceMarks (es : List (Text × Char)) (s : Text) : Text := es.foldl (fun s e => Text.replace [e.2] e.1 s) s

theorem exists_form (h : (form, c) ∈ entities) : ∃ name, form = '&' :: name ∧ '&' ∉ name := by
  have hall : ∀ e ∈ entities, e.1.head? = some '&' ∧ '&' ∉ e.1.tail := by decide
  obtain ⟨hhead, htail⟩ := hall _ h
  cases form with
  | nil => cases hhead
  | cons d name =>
    obtain rfl := Option.some.inj hhead
    exact ⟨name, rfl, htail⟩

theorem readEntity_append (h : (form, c) ∈ entities) (s : Text) : readEntity (form ++ s) = some (c, s) := by
  simp only [entities, List.mem_cons, Prod.mk.injEq, List.not_mem_nil, or_false] at h
  rcases h with ⟨rfl, rfl⟩ | ⟨rfl, rfl⟩ | ⟨rfl, rfl⟩ | ⟨rfl, rfl⟩ | ⟨rfl, rfl⟩ <;> rfl

theorem exists_of_readEntity {rest : Text} (h : readEntity s = some (c, rest)) :
    ∃ form, (form, c) ∈ entities ∧ s = form ++ rest := by
  obtain ⟨⟨form, d⟩, hmem, hread⟩ := List.exists_of_findSome?_eq_some h
  obtain ⟨rest', hprefix, heq⟩ := Option.map_eq_some_iff.1 hread
  obtain ⟨rfl, rfl⟩ := Prod.mk.inj heq
  exact ⟨form, hmem, (List.isPrefixOf?_eq_some_iff_append_eq.1 hprefix).symm⟩

theorem readEntity_cons (hc : c ≠ '&') (s : Text) : readEntity (c :: s) = none := by
  cases h : readEntity (c :: s) with
  | none => rfl
  | some r =>
    obtain ⟨form, hmem, heq⟩ := exists_of_readEntity h
    obtain ⟨name, rfl, -⟩ := exists_form hmem
    exact absurd (List.cons.inj heq).1 hc

theorem readEntity_advances : readEntity.Advances := by
  intro s c rest h
  obtain ⟨form, hmem, rfl⟩ := exists_of_readEntity h
  obtain ⟨name, rfl, -⟩ := exists_form hmem
  simp only [List.length_append, List.length_cons]
  omega

@[simp] theorem decode_nil : decode [] = [] := by
  rw [decode, Recogniser.findAll_nil readEntity_advances]
  rfl

theorem decode_append (h : (form, c) ∈ entities) (s : Text) : decode (form ++ s) = c :: decode s := by
  rw [decode, Recogniser.findAll_of_read readEntity_advances (readEntity_append h s)]
  rfl

theorem decode_cons (hc : c ≠ '&') (s : Text) : decode (c :: s) = c :: decode s := by
  rw [decode, Recogniser.findAll_cons readEntity_advances (readEntity_cons hc s), decode]
  rcases readEntity.findAll s with ⟨_ | ⟨⟨before, d⟩, found⟩, tail⟩ <;> rfl

/-! ### Escaped characters -/

/-- A character is written as its entity, or is none of the five and stands for itself. -/
theorem escapeChar_eq (c : Char) :
    (escapeChar c, c) ∈ entities ∨ escapeChar c = [c] ∧ ∀ e ∈ entities, c ≠ e.2 := by
  unfold escapeChar
  split
  case h_6 hamp hlt hgt hquote hapostrophe =>
    refine .inr ⟨rfl, ?_⟩
    simp only [entities, List.forall_mem_cons]
    exact ⟨hamp, hlt, hgt, hquote, hapostrophe, nofun⟩
  all_goals exact .inl (by decide)

theorem decode_escapeChar (c : Char) (s : Text) : decode (escapeChar c ++ s) = c :: decode s := by
  rcases escapeChar_eq c with hmem | ⟨heq, hne⟩
  · exact decode_append hmem s
  · rw [heq]
    exact decode_cons (hne ("&amp;", '&') (by decide)) s

theorem decode_flatMap (s : Text) : decode (s.flatMap escapeChar) = s := by
  induction s with
  | nil => exact decode_nil
  | cons c s ih => rw [List.flatMap_cons, decode_escapeChar, ih]

/-- Escaping a text and reading its entities again drops what a document cannot hold. -/
theorem decode_escape (s : Text) : decode (escape s) = sanitize s := decode_flatMap _

theorem marks_notMem_escape (s : Text) : ∀ c ∈ escape s, c ∉ ['<', '>', '"', '\''] := by
  intro c hc
  obtain ⟨d, -, hcd⟩ := List.mem_flatMap.1 hc
  rcases escapeChar_eq d with hmem | ⟨heq, hne⟩
  · have hall : ∀ e ∈ entities, e.1.all fun c => c ∉ ['<', '>', '"', '\''] := by decide
    exact of_decide_eq_true (List.all_eq_true.1 (hall _ hmem) c hcd)
  · obtain rfl : c = d := by simpa [heq] using hcd
    simp only [entities, List.forall_mem_cons] at hne
    simp [hne]

/-- Every ampersand of a text begins an entity. -/
def HoldsEntities (t : Text) : Prop := ∀ rest, '&' :: rest <:+ t → ∃ e ∈ entities, e.1 <+: '&' :: rest

theorem isSuffix_of_notMem {name rest : Text} (hname : '&' ∉ name) (h : '&' :: rest <:+ name ++ t) :
    '&' :: rest <:+ t := by
  induction name with
  | nil => exact h
  | cons d name ih =>
    rw [List.mem_cons, not_or] at hname
    rw [List.cons_append, List.suffix_cons_iff] at h
    exact h.elim (fun heq => absurd (List.cons.inj heq).1 hname.1) (ih hname.2)

theorem HoldsEntities.escapeChar_append (h : HoldsEntities t) (c : Char) :
    HoldsEntities (escapeChar c ++ t) := by
  intro rest hrest
  rcases escapeChar_eq c with hmem | ⟨heq, hne⟩
  · obtain ⟨name, hform, hname⟩ := exists_form hmem
    rw [hform, List.cons_append, List.suffix_cons_iff] at hrest
    rcases hrest with heq | hrest
    · exact ⟨_, hmem, t, by rw [hform, List.cons_append, heq]⟩
    · exact h rest (isSuffix_of_notMem hname hrest)
  · have hmark : '&' ∉ escapeChar c := by
      rw [heq, List.mem_singleton]
      exact (hne ("&amp;", '&') (by decide)).symm
    exact h rest (isSuffix_of_notMem hmark hrest)

theorem holdsEntities_escape (s : Text) : HoldsEntities (escape s) := by
  rw [escape]
  induction sanitize s with
  | nil => exact fun rest hrest => by simp at hrest
  | cons c s ih =>
    rw [List.flatMap_cons]
    exact ih.escapeChar_append c

theorem replaceMarks_eq_foldl (es : List (Text × Char)) (s : Text) : replaceMarks es s =
    es.foldl (fun s e => s.flatMap fun d => if d = e.2 then e.1 else [d]) s := by
  simp only [replaceMarks, Text.replace_singleton]

/-- Replacements one after another change each character apart, and what it is replaced by. -/
theorem replaceMarks_eq_flatMap (es : List (Text × Char)) (s : Text) :
    replaceMarks es s = s.flatMap fun c => replaceMarks es [c] := by
  simp only [replaceMarks_eq_foldl]
  induction es generalizing s with
  | nil => exact (List.flatMap_singleton' s).symm
  | cons e es ih =>
    simp only [List.foldl_cons, List.flatMap_singleton]
    rw [ih, List.flatMap_assoc]
    congr 1
    funext c
    exact (ih _).symm

theorem replaceMarks_singleton {es : List (Text × Char)} (h : ∀ e ∈ es, c ≠ e.2) : replaceMarks es [c] = [c] := by
  rw [replaceMarks_eq_foldl]
  induction es with
  | nil => rfl
  | cons e es ih =>
    obtain ⟨hc, hes⟩ := List.forall_mem_cons.1 h
    rw [List.foldl_cons, List.flatMap_singleton, if_neg hc]
    exact ih hes

/-- The five replacements come to one for each character: the first of them is of the ampersand, and no form
holds any other of the five. -/
theorem replaceMarks_eq (s : Text) : replaceMarks entities s = s.flatMap escapeChar := by
  rw [replaceMarks_eq_flatMap]
  congr 1
  funext c
  rcases escapeChar_eq c with hmem | ⟨heq, hne⟩
  · rw [replaceMarks_eq_foldl]
    have hall : ∀ e ∈ entities,
        entities.foldl (fun s e => s.flatMap fun d => if d = e.2 then e.1 else [d]) [e.2] = e.1 := by decide
    simpa only using hall _ hmem
  · rw [heq, replaceMarks_singleton hne]

/-! ### Code points -/

/-- The code points that are looked for and dropped. -/
def isForbidden (n : Nat) : Bool :=
  n ≤ 0x8 || n = 0xb || n = 0xc || (0xe ≤ n && n ≤ 0x1f) || (0xd800 ≤ n && n ≤ 0xdfff) || n = 0xfffe ||
    n = 0xffff

theorem isLegal_eq_not_isForbidden {n : Nat} (h : n < 0x110000) : isLegal n = !isForbidden n := by
  rw [Bool.eq_iff_iff]
  simp only [isLegal, isForbidden, Bool.not_eq_true', Bool.or_eq_true, Bool.and_eq_true, decide_eq_true_eq,
    ← Bool.not_eq_true]
  omega

def sanitizeCodePoints (ns : List Nat) : Text := (ns.filter isLegal).map Char.ofNat

theorem map_toNat_sanitizeCodePoints (ns : List Nat) :
    (sanitizeCodePoints ns).map Char.toNat = ns.filter isLegal := by
  rw [sanitizeCodePoints, List.map_map]
  refine (List.map_congr_left fun n hn => ?_).trans (List.map_id _)
  exact toNat_ofNat_of_isLegal (List.mem_filter.1 hn).2

theorem sanitize_sanitizeCodePoints (ns : List Nat) : sanitize (sanitizeCodePoints ns) = sanitizeCodePoints ns := by
  rw [sanitize, List.filter_eq_self]
  intro c hc
  have hmem : c.toNat ∈ ns.filter isLegal := map_toNat_sanitizeCodePoints ns ▸ List.mem_map_of_mem hc
  exact (List.mem_filter.1 hmem).2

theorem escapeCodePoints_eq (ns : List Nat) : escapeCodePoints ns = escape (sanitizeCodePoints ns) := by
  rw [escape, sanitize_sanitizeCodePoints]
  rfl

theorem sanitizeCodePoints_map_toNat (s : Text) : sanitizeCodePoints (s.map Char.toNat) = sanitize s := by
  simp [sanitizeCodePoints, sanitize, List.filter_map, Function.comp_def]

theorem escape_sanitize (s : Text) : escape (sanitize s) = escape s := by
  rw [escape, escape, sanitize, sanitize, List.filter_filter]
  simp only [Bool.and_self]

theorem escapeCodePoints_append (ns ms : List Nat) :
    escapeCodePoints (ns ++ ms) = escapeCodePoints ns ++ escapeCodePoints ms := by
  simp [escapeCodePoints]

/-- An escaped value holds no mark but ampersands that begin entities, and nothing that a document cannot
hold; reading the entities gives back all that a document can hold of the value; and values that stand one
behind the other may be escaped apart. -/
theorem escape_lossless (ns : List Nat) :
    (∀ c ∈ escapeCodePoints ns, c ∉ ['<', '>', '"', '\''] ∧ isLegal c.toNat) ∧
    HoldsEntities (escapeCodePoints ns) ∧
    decode (escapeCodePoints ns) = sanitizeCodePoints ns ∧
    (sanitizeCodePoints ns).map Char.toNat = ns.filter isLegal ∧
    (∀ n < 0x110000, isLegal n = !isForbidden n) ∧
    (∀ ms, escapeCodePoints (ns ++ ms) = escapeCodePoints ns ++ escapeCodePoints ms) ∧
    escapeCodePoints ns = replaceMarks entities (sanitizeCodePoints ns) ∧
    ∀ s : Text, s.map Char.toNat = ns → escapeCodePoints ns = escape s ∧ sanitizeCodePoints ns = sanitize s := by
  have hescape := escapeCodePoints_eq ns
  refine ⟨?_, hescape ▸ holdsEntities_escape _, ?_, map_toNat_sanitizeCodePoints ns,
    fun n => isLegal_eq_not_isForbidden, escapeCodePoints_append ns, ?_, ?_⟩
  · rw [hescape]
    exact fun c hc => ⟨marks_notMem_escape _ c hc, isLegal_of_mem_escape hc⟩
  · rw [hescape, decode_escape, sanitize_sanitizeCodePoints]
  · rw [replaceMarks_eq]
    rfl
  · rintro s rfl
    have hsanitize := sanitizeCodePoints_map_toNat s
    exact ⟨by rw [hescape, hsanitize, escape_sanitize], hsanitize⟩

/-- An entity, half of a pair, a control and a mark. -/
def mixedCodePoints : List Nat := "&lt;".toList.map Char.toNat ++ [0xd800, 0x1, 0x3c]

theorem escape_lossless_mixed : escapeCodePoints mixedCodePoints = "&amp;lt;&lt;".toList ∧
    (∀ c ∈ "&amp;lt;&lt;".toList, c ∉ ['<', '>', '"', '\''] ∧ isLegal c.toNat) ∧
    decode "&amp;lt;&lt;".toList = "&lt;<".toList := by
  have hescape : escapeCodePoints mixedCodePoints = "&amp;lt;&lt;".toList := by decide
  have hsanitize : sanitizeCodePoints mixedCodePoints = "&lt;<".toList := by decide
  obtain ⟨hmarks, -, hdecode, -⟩ := escape_lossless mixedCodePoints
  rw [hescape] at hmarks hdecode
  exact ⟨hescape, hmarks, hdecode.trans hsanitize⟩

end Markup

end DeckMerge
