import DeckMerge.Proofs.Text.Occurrence
import DeckMerge.Proofs.Text.Forms
import DeckMerge.Xml.Reader
import Mathlib.Data.List.TakeDrop

/-!
What the parts of markup take from a text. A part that is read once is read again wherever its text
stands, whatever follows it.
-/

namespace DeckMerge

namespace Recogniser

variable {α : Type}

/-- Takes exactly this text, whatever follows. -/
def Takes (r : Recogniser α) (u : Text) (a : α) : Prop := ∀ t, r (u ++ t) = some (a, t)

end Recogniser

namespace Text

variable {needle s before rest : Text}

theorem First.of_rest (h : First needle s before rest) (t : Text) :
    First needle (before ++ needle ++ t) before t := by
  refine ⟨rfl, fun b r heq => ?_⟩
  by_contra hlt
  have hlen : (b ++ needle).length ≤ (before ++ needle).length := by
    simp only [List.length_append]
    omega
  have hfront : b ++ needle <+: before ++ needle :=
    List.prefix_of_prefix_length_le ⟨r, heq.symm⟩ (List.prefix_append _ t) hlen
  obtain ⟨w, hw⟩ := hfront
  have := h.leftmost b (w ++ rest) (by rw [h.eq_append, ← hw, List.append_assoc])
  omega

/-- A mark that ends this text occurs nowhere before. -/
def Ended (needle c : Text) : Prop := First needle (c ++ needle) c []

theorem breakOn?_eq_some_iff_ended {c : Text} (hne : needle ≠ []) :
    breakOn? needle s = some (c, rest) ↔ Ended needle c ∧ s = c ++ (needle ++ rest) := by
  rw [breakOn?_eq_some_iff hne]
  constructor
  · intro h
    have hended := h.of_rest []
    rw [List.append_nil] at hended
    exact ⟨hended, by rw [h.eq_append, List.append_assoc]⟩
  · rintro ⟨h, rfl⟩
    rw [← List.append_assoc]
    exact h.of_rest rest

end Text

namespace Xml

open Recogniser

variable {s rest t : Text}

/-! ### Blanks -/

theorem skipSpace_eq_cons {c : Char} (h : skipSpace s = c :: rest) :
    ∃ w, s = w ++ c :: rest ∧ w.all isSpace ∧ isSpace c = false := by
  refine ⟨s.takeWhile isSpace, ?_, List.all_takeWhile, ?_⟩
  · rw [← h, skipSpace, List.takeWhile_append_dropWhile]
  · have hhead := List.head?_dropWhile_not isSpace s
    rw [← skipSpace, h] at hhead
    simpa using hhead

theorem skipSpace_append {w : Text} (hw : w.all isSpace) (t : Text) :
    skipSpace (w ++ t) = skipSpace t := by
  rw [skipSpace, List.dropWhile_append_of_pos (by simpa using hw), skipSpace]

theorem skipSpace_cons {c : Char} (hc : isSpace c = false) (t : Text) : skipSpace (c :: t) = c :: t := by
  rw [skipSpace, List.dropWhile_cons_of_neg (by simp [hc])]

theorem skipSpace_append_cons {w : Text} {c : Char} (hw : w.all isSpace) (hc : isSpace c = false)
    (t : Text) : skipSpace (w ++ c :: t) = c :: t := by
  rw [skipSpace_append hw, skipSpace_cons hc]

/-! ### Names -/

def isName : Text → Bool
  | [] => false
  | c :: s => isNameStart c && s.all isNameChar

theorem readName_eq_some_iff {name : Text} : readName s = some (name, rest) ↔
    s = name ++ rest ∧ isName name ∧ rest.head?.any isNameChar = false := by
  cases s with
  | nil =>
    simp only [readName, reduceCtorEq, false_iff]
    rintro ⟨heq, hname, -⟩
    obtain ⟨rfl, rfl⟩ := List.append_eq_nil_iff.1 heq.symm
    simp [isName] at hname
  | cons c s =>
    have hspan : readName (c :: s) =
        if isNameStart c then some (c :: (s.span isNameChar).1, (s.span isNameChar).2) else none := by
      rw [readName, List.span_eq_takeWhile_dropWhile]
    rw [hspan]
    constructor
    · intro h
      split at h
      case isFalse => cases h
      case isTrue hc =>
      obtain ⟨heq, hall, hrest⟩ := Text.span_spec isNameChar s
      obtain ⟨rfl, rfl⟩ := Prod.mk.inj (Option.some.inj h)
      have hname : isName (c :: (s.span isNameChar).1) := by rw [isName, hc, hall]; rfl
      exact ⟨congrArg (c :: ·) heq, hname, hrest⟩
    · rintro ⟨heq, hname, hrest⟩
      cases name with
      | nil => simp [isName] at hname
      | cons d name =>
        obtain ⟨rfl, hs⟩ := List.cons.inj heq
        simp only [isName, Bool.and_eq_true] at hname
        rw [if_pos hname.1, Text.span_eq_iff.2 ⟨hs, hname.2, hrest⟩]

/-! ### References -/

/-- What a name in a reference stands for. -/
def Reference.named (name : Text) : Reference :=
  match predefined.lookup name with
  | some c => .char c
  | none => .entity name

/-- How a reference is written behind its ampersand. -/
inductive Refers : Text → Reference → Prop
  | hexadecimal {ds : Text} {c : Char} : (ds.all fun c => (Text.hexDigit? c).isSome) →
    charOfDigits? 16 (ds.filterMap Text.hexDigit?) = some c → Refers ("#x".toList ++ ds ++ [';']) (.char c)
  | decimal {ds : Text} {c : Char} : ds.all Char.isDigit →
    charOfDigits? 10 (ds.map fun c => c.toNat - 48) = some c → Refers ('#' :: ds ++ [';']) (.char c)
  | name {name : Text} : isName name → Refers (name ++ [';']) (.named name)

theorem Refers.last {u : Text} {r : Reference} (h : Refers u r) : [';'] <:+ u := by
  cases h <;> exact List.suffix_append _ _

theorem charOfDigits?_nil (base : Nat) : charOfDigits? base [] = none := by simp [charOfDigits?]

theorem Refers.takes {u : Text} {r : Reference} (h : Refers u r) : Takes readReference u r := by
  intro t
  cases h with
  | @hexadecimal ds c hall hc =>
    have hspan : (ds ++ ';' :: t).span (fun c => (Text.hexDigit? c).isSome) = (ds, ';' :: t) :=
      Text.span_eq_iff.2 ⟨rfl, hall, rfl⟩
    have heq : "#x".toList ++ ds ++ [';'] ++ t = '#' :: 'x' :: (ds ++ ';' :: t) := by simp
    rw [heq, readReference]
    simp only [hspan, hc, Option.bind_eq_bind, Option.bind_some]
    rfl
  | @decimal ds c hall hc =>
    have hspan : (ds ++ ';' :: t).span Char.isDigit = (ds, ';' :: t) :=
      Text.span_eq_iff.2 ⟨rfl, hall, rfl⟩
    have heq : '#' :: ds ++ [';'] ++ t = '#' :: (ds ++ ';' :: t) := by simp
    have hx : ∀ w, ds ++ ';' :: t ≠ 'x' :: w := by
      intro w hw
      cases ds with
      | nil => simp [charOfDigits?_nil] at hc
      | cons d ds =>
        obtain ⟨rfl, -⟩ := List.cons.inj hw
        simp at hall
    rw [heq, readReference.eq_2 _ hx]
    simp only [hspan, hc, Option.bind_eq_bind, Option.bind_some]
    rfl
  | @name name hname =>
    have hread : readName (name ++ ';' :: t) = some (name, ';' :: t) :=
      readName_eq_some_iff.2 ⟨rfl, hname, rfl⟩
    have heq : name ++ [';'] ++ t = name ++ ';' :: t := by simp
    have hhash : ∀ w, name ++ ';' :: t ≠ '#' :: w := by
      intro w hw
      cases name with
      | nil => simp [isName] at hname
      | cons d name =>
        obtain ⟨rfl, -⟩ := List.cons.inj hw
        simp [isName, show isNameStart '#' = false by decide] at hname
    rw [heq, readReference.eq_3 _ (fun w => hhash ('x' :: w)) hhash]
    simp only [hread, Option.bind_eq_bind, Option.bind_some, Reference.named]
    cases predefined.lookup name <;> rfl

theorem refers_of_readReference {r : Reference} (h : readReference s = some (r, rest)) :
    ∃ u, Refers u r ∧ s = u ++ rest := by
  unfold readReference at h
  split at h
  case h_1 s =>
    simp only [Option.bind_eq_bind, Option.bind_eq_some_iff] at h
    obtain ⟨c, hc, h⟩ := h
    split at h
    case h_2 => cases h
    case h_1 rest' hrest =>
      obtain ⟨rfl, rfl⟩ := Prod.mk.inj (Option.some.inj h)
      obtain ⟨hs, hall, -⟩ := Text.span_spec (fun c => (Text.hexDigit? c).isSome) s
      rw [hrest] at hs
      exact ⟨_, .hexadecimal hall hc, by simpa using hs⟩
  case h_2 s _ =>
    simp only [Option.bind_eq_bind, Option.bind_eq_some_iff] at h
    obtain ⟨c, hc, h⟩ := h
    split at h
    case h_2 => cases h
    case h_1 rest' hrest =>
      obtain ⟨rfl, rfl⟩ := Prod.mk.inj (Option.some.inj h)
      obtain ⟨hs, hall, -⟩ := Text.span_spec Char.isDigit s
      rw [hrest] at hs
      exact ⟨_, .decimal hall hc, by simpa using hs⟩
  case h_3 s _ _ =>
    simp only [Option.bind_eq_bind, Option.bind_eq_some_iff] at h
    obtain ⟨⟨name, rest'⟩, hread, h⟩ := h
    obtain ⟨rfl, hname, -⟩ := readName_eq_some_iff.1 hread
    split at h
    case h_2 => cases h
    case h_1 name rest' heq =>
      obtain ⟨rfl, rfl⟩ := Prod.mk.inj heq
      have hr : r = .named name ∧ rest = rest' := by
        unfold Reference.named
        split at h <;> obtain ⟨rfl, rfl⟩ := Prod.mk.inj (Option.some.inj h) <;> simp [*]
      obtain ⟨rfl, rfl⟩ := hr
      exact ⟨_, .name hname, by simp⟩

theorem readReference_eq_some_iff {r : Reference} :
    readReference s = some (r, rest) ↔ ∃ u, Refers u r ∧ s = u ++ rest := by
  refine ⟨refers_of_readReference, ?_⟩
  rintro ⟨u, hu, rfl⟩
  exact hu.takes rest

/-! ### Entities -/

variable {es : Entities}

@[simp] theorem size_cons (name x : Text) (es : Entities) :
    Entities.size ((name, x) :: es) = x.length + es.size := by
  simp [Entities.size]

theorem without_cons (key name x : Text) (es : Entities) : Entities.without ((key, x) :: es) name =
    if key = name then es.without name else (key, x) :: es.without name := by
  simp [Entities.without, List.filter_cons]

theorem size_without_le (es : Entities) (name : Text) : (es.without name).size ≤ es.size := by
  induction es with
  | nil => exact Nat.le_refl _
  | cons e es ih =>
    obtain ⟨key, x⟩ := e
    rw [without_cons]
    split <;> simp only [size_cons] <;> omega

/-- An entity without itself leaves room for its text. -/
theorem size_without_add_le {name x : Text} (h : es.lookup name = some x) :
    (es.without name).size + x.length ≤ es.size := by
  induction es with
  | nil => simp at h
  | cons e es ih =>
    obtain ⟨key, y⟩ := e
    rw [without_cons, size_cons]
    rw [List.lookup_cons] at h
    split at h
    case h_1 heq =>
      obtain rfl : name = key := by simpa using heq
      obtain rfl := Option.some.inj h
      have := size_without_le es name
      rw [if_pos rfl]
      omega
    case h_2 heq =>
      have hne : key ≠ name := fun heq' => by simp [heq'] at heq
      have := ih h
      rw [if_neg hne, size_cons]
      omega

/-! ### Values of attributes -/

/-- How a value is written up to its quote, or in the text of an entity. -/
inductive Values : Entities → Option Char → Text → Text → Prop
  | nil {es : Entities} {quote : Option Char} : Values es quote [] []
  | plain {es : Entities} {quote : Option Char} {c : Char} {u v : Text} :
    quote ≠ some c → c ≠ '<' → c ≠ '&' → isLegal c → Values es quote u v →
    Values es quote (c :: u) ((if isSpace c then ' ' else c) :: v)
  | char {es : Entities} {quote : Option Char} {c : Char} {u w v : Text} :
    Refers u (.char c) → Values es quote w v → Values es quote ('&' :: u ++ w) (c :: v)
  | entity {es : Entities} {quote : Option Char} {name u w x v y : Text} :
    Refers u (.entity name) → es.lookup name = some x → Values (es.without name) none x y →
    Values es quote w v → Values es quote ('&' :: u ++ w) (y ++ v)

theorem Values.read {quote : Option Char} {u v : Text} (h : Values es quote u v)
    (hquote : quote ≠ some '&') : ∀ fuel, u.length + es.size < fuel → ∀ t, (quote = none → t = []) →
      readAttributeValue quote fuel es (u ++ (quote.toList ++ t)) = some (v, t) := by
  induction h with
  | @nil es quote =>
    intro fuel hfuel t ht
    obtain ⟨fuel, rfl⟩ : ∃ n, fuel = n + 1 := ⟨fuel - 1, by omega⟩
    cases quote with
    | none => simp [ht rfl, readAttributeValue]
    | some q => simp [readAttributeValue]
  | @plain es quote c u v hq hlt hamp hlegal _ ih =>
    intro fuel hfuel t ht
    obtain ⟨fuel, rfl⟩ : ∃ n, fuel = n + 1 := ⟨fuel - 1, by omega⟩
    simp only [List.length_cons] at hfuel
    simp [readAttributeValue, hq, hlt, hamp, hlegal, ih hquote fuel (by omega) t ht]
  | @char es quote c u w v hr _ ih =>
    intro fuel hfuel t ht
    obtain ⟨fuel, rfl⟩ : ∃ n, fuel = n + 1 := ⟨fuel - 1, by omega⟩
    simp only [List.length_append, List.length_cons] at hfuel
    simp [readAttributeValue, hquote, hr.takes _, ih hquote fuel (by omega) t ht]
  | @entity es quote name u w x v y hr hx _ _ ihx ih =>
    intro fuel hfuel t ht
    obtain ⟨fuel, rfl⟩ : ∃ n, fuel = n + 1 := ⟨fuel - 1, by omega⟩
    have hsize := size_without_add_le hx
    simp only [List.length_append, List.length_cons] at hfuel
    have hinner := ihx (by simp) fuel (by omega) [] fun _ => rfl
    simp only [Option.toList, List.append_nil] at hinner
    simp [readAttributeValue, hquote, hr.takes _, hx, hinner, ih hquote fuel (by omega) t ht]

theorem values_of_readAttributeValue {fuel : Nat} {quote : Option Char} {v : Text}
    (h : readAttributeValue quote fuel es s = some (v, rest)) :
    ∃ u, Values es quote u v ∧ s = u ++ (quote.toList ++ rest) ∧ (quote = none → rest = []) := by
  induction fuel generalizing quote es s v rest with
  | zero => simp [readAttributeValue] at h
  | succ fuel ih =>
    cases s with
    | nil =>
      rw [readAttributeValue] at h
      split at h
      case isFalse => cases h
      case isTrue hq =>
        obtain rfl := Option.isNone_iff_eq_none.1 hq
        obtain ⟨rfl, rfl⟩ := Prod.mk.inj (Option.some.inj h)
        exact ⟨[], .nil, rfl, fun _ => rfl⟩
    | cons c s =>
      rw [readAttributeValue] at h
      by_cases hq : quote = some c
      · rw [if_pos hq] at h
        obtain ⟨rfl, rfl⟩ := Prod.mk.inj (Option.some.inj h)
        exact ⟨[], .nil, by simp [hq], fun hnone => by simp [hq] at hnone⟩
      rw [if_neg hq] at h
      by_cases hlt : c = '<'
      · simp [hlt] at h
      rw [if_neg hlt] at h
      by_cases hamp : c = '&'
      · subst hamp
        simp only [if_true, Option.bind_eq_bind, Option.bind_eq_some_iff] at h
        obtain ⟨⟨r, s'⟩, hr, h⟩ := h
        obtain ⟨u, hu, rfl⟩ := refers_of_readReference hr
        cases r with
        | char x =>
          simp only [Option.bind_eq_some_iff] at h
          obtain ⟨⟨v', rest'⟩, hv, h⟩ := h
          obtain ⟨rfl, rfl⟩ := Prod.mk.inj (Option.some.inj h)
          obtain ⟨w, hw, rfl, hend⟩ := ih hv
          exact ⟨'&' :: u ++ w, .char hu hw, by simp, hend⟩
        | entity name =>
          simp only [Option.bind_eq_some_iff] at h
          obtain ⟨x, hx, ⟨y, rest₁⟩, hy, ⟨v', rest'⟩, hv, h⟩ := h
          obtain ⟨rfl, rfl⟩ := Prod.mk.inj (Option.some.inj h)
          obtain ⟨w, hw, rfl, hend⟩ := ih hv
          obtain ⟨x', hx', heq, hrest⟩ := ih hy
          obtain rfl : x = x' := by simpa [hrest rfl] using heq
          exact ⟨'&' :: u ++ w, .entity hu hx hx' hw, by simp, hend⟩
      rw [if_neg hamp] at h
      split at h
      case isFalse => cases h
      case isTrue hlegal =>
        simp only [Option.bind_eq_bind, Option.bind_eq_some_iff] at h
        obtain ⟨⟨v', rest'⟩, hv, h⟩ := h
        obtain ⟨rfl, rfl⟩ := Prod.mk.inj (Option.some.inj h)
        obtain ⟨u, hu, rfl, hend⟩ := ih hv
        exact ⟨c :: u, .plain hq hlt hamp hlegal hu, rfl, hend⟩

end Xml

end DeckMerge
