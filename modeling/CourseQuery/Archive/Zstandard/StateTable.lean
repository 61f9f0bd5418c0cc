import CourseQuery.Archive.Bits

/-!
# State tables

Zstandard writes some symbols by a machine with a power of two of states. Each symbol has a share of
the states, by how often it occurs. A state tells its symbol and how many bits, added to a base,
give the next state. The bits of such symbols are written backwards, the first ones last.
-/

set_option autoImplicit false

namespace CourseQuery.Zstandard

/-- The bits of data that is written backwards, in the order in which they are read. The last bit
that is set only marks the beginning. -/
def backward? (bytes : Bytes) : Option Bits :=
  match bytes.getLast? with
  | none | some 0 => none
  | some _ => some (((Bits.highFirst bytes.reverse).dropWhile (!·)).drop 1)

/-- The share of a symbol in the states. -/
inductive Share where
  /-- The symbol has one of the last states. -/
  | rare
  | states (count : Nat)
deriving DecidableEq, Repr

/-- The number of states of a share. -/
def Share.size : Share → Nat
  | rare => 1
  | states count => count

/-- Reads a number up to `left + 1`. As many of the least numbers as can be do without one bit. -/
def number? (left : Nat) (bits : Bits) : Option (Nat × Bits) := do
  let width := Nat.log2 (left + 1)
  let short := 2 * (1 <<< width) - 1 - (left + 1)
  let (low, bits) ← bits.takeLow? width
  if low < short then some (low, bits)
  else
    let (high, bits) ← bits.takeLow? 1
    some (if high = 1 then low + (1 <<< width) - short else low, bits)

/-- Reads the number of further symbols without states, in numbers of two bits up to the first that
is not three. -/
def absent? : Bits → Option (Nat × Bits)
  | low :: high :: bits =>
    if low && high then (absent? bits).map fun (n, bits) => (3 + n, bits)
    else some (low.toNat + 2 * high.toNat, bits)
  | _ => none

/-- Reads the shares of symbols that have `left` states in all. Every share takes bits, so their
number is fuel enough. -/
def shares? : (fuel left : Nat) → Bits → Option (List Share × Bits)
  | _, 0, bits => some ([], bits)
  | 0, _ + 1, _ => none
  | fuel + 1, left + 1, bits => do
    let (n, bits) ← number? (left + 1) bits
    if n = 0 then
      let (shares, bits) ← shares? fuel left bits
      some (.rare :: shares, bits)
    else if n = 1 then
      let (absent, bits) ← absent? bits
      let (shares, bits) ← shares? fuel (left + 1) bits
      some (List.replicate (absent + 1) (.states 0) ++ shares, bits)
    else
      let (shares, bits) ← shares? fuel (left + 1 - (n - 1)) bits
      some (.states (n - 1) :: shares, bits)

/-- What a state tells: its symbol, and the number of bits and the base of the next state. -/
structure State where
  symbol : Nat
  width : Nat
  base : Nat
deriving DecidableEq, Repr

/-- A table of states, whose number is the power of two with exponent `log`. -/
structure StateTable where
  log : Nat
  states : Array State

namespace StateTable

/-- The table with a single state. -/
def single (symbol : Nat) : StateTable := ⟨0, #[⟨symbol, 0, 0⟩]⟩

/-- The symbols of the states. Rare symbols have the last states, from the end on; the others are
strewn over the rest by a fixed step. -/
def symbols (log : Nat) (shares : List Share) : Array Nat :=
  let size := 1 <<< log
  let numbered := shares.zipIdx
  let rare := (numbered.filter fun (share, _) => share = .rare).map Prod.snd
  let common := numbered.flatMap fun (share, s) =>
    match share with
    | .rare => []
    | .states count => List.replicate count s
  let step := size / 2 + size / 8 + 3
  let places := ((List.range size).map fun i => i * step % size).filter (· < size - rare.length)
  let strewn := (places.zip common).foldl (fun table (place, s) => table.setIfInBounds place s)
    (Array.replicate size 0)
  (rare.zipIdx).foldl (fun table (s, i) => table.setIfInBounds (size - 1 - i) s) strewn

/-- The table of a distribution of states. The states of a symbol are numbered from the size of its
share on, and this number tells where the next states begin. -/
def ofShares (log : Nat) (shares : List Share) : StateTable :=
  let numbers := (shares.map Share.size).toArray
  let step : Array State × Array Nat → Nat → Array State × Array Nat := fun (states, numbers) s =>
    let number := numbers.getD s 1
    let width := log - Nat.log2 number
    (states.push ⟨s, width, (number <<< width) - (1 <<< log)⟩, numbers.setIfInBounds s (number + 1))
  ⟨log, ((symbols log shares).foldl step (#[], numbers)).1⟩

/-- Reads a table with at most `longest` as its exponent and symbols up to `last`. It takes whole
bytes. -/
def read? (longest last : Nat) (bytes : Bytes) : Option (StateTable × Bytes) := do
  let (log, bits) ← (Bits.lowFirst bytes).takeLow? 4
  let log := log + 5
  if longest < log then none
  let (shares, bits) ← shares? bits.length (1 <<< log) bits
  if last + 1 < shares.length then none
  some (ofShares log shares, bytes.drop (bytes.length - bits.length / 8))

/-- What a state tells. -/
def state (t : StateTable) (i : Nat) : State :=
  t.states.getD i ⟨0, 0, 0⟩

/-- Reads the first state. -/
def start? (t : StateTable) (bits : Bits) : Option (Nat × Bits) :=
  bits.takeHigh? t.log

/-- Reads the state that follows one. -/
def next? (t : StateTable) (i : Nat) (bits : Bits) : Option (Nat × Bits) :=
  (bits.takeHigh? (t.state i).width).map fun (n, bits) => ((t.state i).base + n, bits)

/-- The symbols that two machines write in turn, at most `fuel + 1`. When a machine has no bits for
its next state, the other one has the last symbol. -/
def alternate? (t : StateTable) : (fuel here there : Nat) → Bits → Option (List Nat)
  | 0, _, _, _ => none
  | fuel + 1, here, there, bits =>
    match t.next? here bits with
    | none => some [(t.state here).symbol, (t.state there).symbol]
    | some (next, bits) =>
      (alternate? t fuel there next bits).map fun rest => (t.state here).symbol :: rest

end StateTable

end CourseQuery.Zstandard
