import CellMachine.Cell
import CellMachine.Text.Utf8

/-!
# Tables — associations from keys to cells

A table maps texts and numbers to cells.  It is a chained hash table with two groups of `211`
chains, one for texts and one for numbers; the order in which a table lists its entries is the order
of its chains, so it depends on the hashes and, within a chain, on the order of insertion.

A key that is the same as a stored key — numbers are compared as quantities, so zero and negative
zero are one key — replaces the value and leaves the stored key and its place alone.
-/

namespace CellMachine

/-! ## Keys -/

inductive Key
  | text (s : String)
  | number (x : Float)
  deriving DecidableEq

inductive KeyRefusal
  | notANumber
  | type (found : CellType)
  deriving DecidableEq, Repr

/-- The name of what was given in place of a key. -/
def KeyRefusal.name : KeyRefusal → String
  | notANumber => "nan"
  | type found => found.name

/-- The key that a cell is.  Only texts and numbers are keys, and only numbers that equal
themselves. -/
def Cell.key? : Cell → Except KeyRefusal Key
  | text s => .ok (.text s)
  | number x => if Number.value x = .nan then .error .notANumber else .ok (.number x)
  | cell => .error (.type cell.type)

namespace Key

def toCell : Key → Cell
  | text s => .text s
  | number x => .number x

/-- Whether two keys address the same entry. -/
def same : Key → Key → Bool
  | text s, text t => s = t
  | number x, number y => Number.same x y
  | _, _ => false

/-! ## Hashes -/

/-- The count of chains in each of the two groups. -/
def groupSize : Nat := 211

/-- The hash of a text: a machine word, multiplied by `33` before each byte is added. -/
def hashText (s : String) : Nat :=
  ((Utf8.encode s).foldl (fun (h : UInt64) b => h * 33 + b.toUInt64) 5381).toNat % groupSize

/-- The hash of a number: the remainder of a whole number below `2 ^ 63` in size, else the remainder
of the bits. -/
def hashNumber (x : Float) : Nat :=
  match Number.toInt? x with
  | some n =>
      if n.natAbs < UInt64.size / 2 then (n % groupSize).toNat else x.toBits.toNat % groupSize
  | none => x.toBits.toNat % groupSize

theorem hashText_lt (s : String) : hashText s < groupSize :=
  Nat.mod_lt _ (by decide)

theorem hashNumber_lt (x : Float) : hashNumber x < groupSize := by
  have h : 0 < groupSize := by decide
  rw [hashNumber]
  split
  · rename_i n _
    split
    · have := Int.emod_lt_of_pos n (b := groupSize) (by decide)
      have := Int.emod_nonneg n (b := groupSize) (by decide)
      omega
    · exact Nat.mod_lt _ h
  · exact Nat.mod_lt _ h

/-- The chain of a key; texts come first. -/
def chain : Key → Fin (2 * groupSize)
  | text s => ⟨hashText s, by have := hashText_lt s; omega⟩
  | number x => ⟨groupSize + hashNumber x, by have := hashNumber_lt x; omega⟩

end Key

/-! ## Chains -/

abbrev Entry := Key × Cell

namespace Chain

def get? (key : Key) (chain : List Entry) : Option Cell :=
  (chain.find? fun entry => entry.1.same key).map Prod.snd

/-- Replaces the cell stored under a key; the stored key stays. -/
def replace (key : Key) (cell : Cell) (chain : List Entry) : List Entry :=
  chain.map fun entry => if entry.1.same key then (entry.1, cell) else entry

/-- Stores a cell under a key, in place of the cell of the same key or else as the newest entry, and
yields the cell that was stored there before. -/
def exchange (key : Key) (cell : Cell) (chain : List Entry) : Option Cell × List Entry :=
  match get? key chain with
  | some old => (some old, replace key cell chain)
  | none => (none, (key, cell) :: chain)

/-- What an exchange yields is what was stored before. -/
theorem exchange_fst (key : Key) (cell : Cell) (chain : List Entry) :
    (exchange key cell chain).1 = get? key chain := by
  rw [exchange]
  split
  · rename_i old h
    exact h.symm
  · rename_i h
    exact h.symm

end Chain

/-! ## Tables -/

/-- A table.  The newest entry of a chain stands first.

Two things that a table could keep besides are left out, since the chains determine them.  A group
of chains that is allocated on first use reads, until then, as a group of empty chains; and counters
of the entries of the two groups would go up exactly where a chain gets a new entry, and back to
zero only where all chains are emptied, so their sum is `Table.size`. -/
structure Table where
  chains : Vector (List Entry) (2 * Key.groupSize)

namespace Table

def empty : Table :=
  ⟨Vector.replicate _ []⟩

def get? (table : Table) (key : Key) : Option Cell :=
  Chain.get? key table.chains[key.chain]

def exchange (table : Table) (key : Key) (cell : Cell) : Option Cell × Table :=
  let (old, chain) := Chain.exchange key cell table.chains[key.chain]
  (old, ⟨table.chains.set key.chain chain⟩)

def insert (table : Table) (key : Key) (cell : Cell) : Table :=
  (table.exchange key cell).2

/-- An exchange reads and inserts in one walk over the chain. -/
theorem exchange_eq (table : Table) (key : Key) (cell : Cell) :
    table.exchange key cell = (table.get? key, table.insert key cell) :=
  Prod.ext (Chain.exchange_fst key cell table.chains[key.chain]) rfl

/-- The entries in the order of the chains, texts before numbers; within a chain, the oldest entry
comes first. -/
def entries (table : Table) : List Entry :=
  table.chains.toList.flatMap List.reverse

def keys (table : Table) : List Key :=
  table.entries.map Prod.fst

/-- The count of entries, read off the chains.  An insertion moves it as it would move a counter:
`Table.size_insert`. -/
def size (table : Table) : Nat :=
  table.chains.foldl (fun n chain => n + chain.length) 0

/-- The tables that the entries hold, with repetitions. -/
def children (table : Table) : List TableId :=
  table.entries.filterMap fun entry => entry.2.table?

end Table
end CellMachine
