import DeckMerge.Zip.Bits

/-!
Prefix codes: a tree whose paths are the words of its symbols. A canonical code is given by the lengths
of its words; words of one length follow the order of the symbols, and shorter words come first.
-/

namespace DeckMerge.Zip

-- The powers and the zero of the core library, whatever else is in scope.
attribute [local instance (high)] instPowNat Zero.ofOfNat0

inductive Code
  | empty
  | leaf (symbol : Nat)
  | node (zero one : Code)

/-- Why reading bits stopped before its end. -/
inductive Halt
  | ended
  | corrupt
deriving DecidableEq

namespace Code

def insert (symbol : Nat) : Bits → Code → Code
  | [], _ => .leaf symbol
  | b :: w, c =>
    let (zero, one) := match c with
      | .node zero one => (zero, one)
      | _ => (.empty, .empty)
    if b then .node zero (insert symbol w one) else .node (insert symbol w zero) one

/-- The symbol whose word is at the front of bits. -/
def read : Code → Bits → Except Halt (Nat × Bits)
  | .leaf symbol, bs => .ok (symbol, bs)
  | .empty, _ => .error .corrupt
  | .node _ _, [] => .error .ended
  | .node _ one, true :: bs => one.read bs
  | .node zero _, false :: bs => zero.read bs

def maxLength : Nat := 15

/-- The symbols that have words, with the lengths of these, in the order of the words. -/
def ordered (lengths : List Nat) : List (Nat × Nat) :=
  (List.range maxLength).flatMap fun n =>
    (lengths.zipIdx.filter (·.1 = n + 1)).map fun (length, symbol) => (symbol, length)

/-- Inserts symbols under words that count up from a number of a length. -/
def fill : Nat → Nat → List (Nat × Nat) → Code → Code
  | _, _, [], c => c
  | next, length, (symbol, n) :: symbols, c =>
    let word := next * 2 ^ (n - length)
    fill (word + 1) n symbols (c.insert symbol (Bits.ofNat n word).reverse)

/-- How much of all words of the greatest length the words take. -/
def taken (lengths : List Nat) : Nat :=
  ((lengths.filter (· ≠ 0)).map fun n => 2 ^ (maxLength - n)).sum

/-- The code of given lengths, zero for symbols without a word. A code may leave words unused only if
it may be open and has no word but one of a single bit. -/
def ofLengths (mayBeOpen : Bool) (lengths : List Nat) : Option Code :=
  let isOpen := taken lengths < 2 ^ maxLength
  if 2 ^ maxLength < taken lengths then none
  else if isOpen ∧ lengths.any (· ≠ 0) ∧ ¬ (mayBeOpen ∧ lengths.all (· ≤ 1)) then none
  else some (fill 0 0 (ordered lengths) .empty)

end Code

end DeckMerge.Zip
