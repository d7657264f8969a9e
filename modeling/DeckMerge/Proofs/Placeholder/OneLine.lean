import DeckMerge.Markup.Line
import DeckMerge.Proofs.Placeholder.Unrolling

/-!
Pages whose texts are of one line: so is every value that expanding sets aside.
-/

namespace DeckMerge.Placeholder

def Bound.OneLine : Bound → Prop
  | .text s => ¬ Markup.hasBreak s
  | .entries items => ∀ fields ∈ items, ∀ f ∈ fields, ¬ Markup.hasBreak f.2

def Page.OneLine (p : Page) : Prop := ∀ b ∈ p, b.2.OneLine

def Env.OneLine (env : Env) : Prop := ∀ key b, env key = some b → b.OneLine

theorem Page.OneLine.env {p : Page} (h : p.OneLine) : p.env.OneLine := by
  intro key b hb
  exact h _ (Association.mem_of_lookup_eq_some hb)

theorem oneLine_entryEnv {fields : List (Text × Text)} (h : ∀ f ∈ fields, ¬ Markup.hasBreak f.2) :
    (entryEnv fields).OneLine := by
  intro key b hb
  obtain ⟨s, hs, rfl⟩ := Option.map_eq_some_iff.1 hb
  exact h _ (Association.mem_of_lookup_eq_some hs)

theorem Env.OneLine.bodies {env : Env} (h : env.OneLine) (opener : Token) :
    ∀ env' ∈ bodies env opener, env'.OneLine := by
  intro env' hmem
  unfold Placeholder.bodies at hmem
  split at hmem
  case h_1 => simp at hmem
  case h_2 => simp_all
  case h_3 items hitems =>
    split at hmem
    · obtain ⟨fields, hfields, rfl⟩ := List.mem_map.1 hmem
      exact oneLine_entryEnv (h _ _ hitems fields hfields)
    · simp_all

namespace Node

mutual

theorem not_hasBreak_of_mem_unroll {env : Env} (h : env.OneLine) {slot : Slot} :
    (n : Node) → slot ∈ n.unroll env → ¬ Markup.hasBreak slot.value
  | .literal _, hs | .stray _, hs => by simp [unroll] at hs
  | .scalar key, hs => by
    rw [unroll] at hs
    split at hs
    case h_1 s hv =>
      obtain rfl := List.mem_singleton.1 hs
      exact h key _ hv
    case h_2 => simp at hs
  | .block opener children _, hs => by
    rw [unroll] at hs
    obtain ⟨env', hmem, hs⟩ := List.mem_flatMap.1 hs
    exact not_hasBreak_of_mem_unrollAll (h.bodies _ env' hmem) children hs

theorem not_hasBreak_of_mem_unrollAll {env : Env} (h : env.OneLine) {slot : Slot} :
    (ns : List Node) → slot ∈ unrollAll env ns → ¬ Markup.hasBreak slot.value
  | [], hs => by simp [unrollAll] at hs
  | n :: ns, hs => by
    rw [unrollAll] at hs
    rcases List.mem_append.1 hs with hs | hs
    · exact not_hasBreak_of_mem_unroll h n hs
    · exact not_hasBreak_of_mem_unrollAll h ns hs

end

end Node

theorem not_hasBreak_of_mem_expansion {p : Page} (hp : p.OneLine) (s : Text) :
    ∀ slot ∈ (p.expansion s).slots, ¬ Markup.hasBreak slot.value := by
  intro slot hmem
  rw [Page.expansion, Node.filterMap_piecesAll] at hmem
  exact Node.not_hasBreak_of_mem_unrollAll hp.env (parse s) hmem

end DeckMerge.Placeholder
