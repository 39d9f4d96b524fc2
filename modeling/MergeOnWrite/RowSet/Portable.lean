/-
The portable bytes of a set of rows.

Rows are grouped by their high sixteen bits into containers, and a
container holds the low sixteen bits: as an array of numbers or as a
bitmap of 65536 bits. A set is written with ascending containers, arrays
for up to 4096 rows and bitmaps for more. Numbers are little-endian.

    cookie 12346 · number of containers
    for each container: high bits · number of rows less one
    for each container: its offset from the start
    the containers

What is read may also start with the cookie 12347, whose upper half is
the number of containers less one. A bit for each container follows and
tells those that hold runs, each as its first row and its length less
one; such a text has offsets from four containers on. Offsets are not
looked at, and neither is what follows the containers.

Nothing is said about the order of the containers that are read, and
several may have the same high bits. `Container.decodeAll` keeps them as
they stand; the set that they make is their union (`RowSet.decode`).
-/
import MergeOnWrite.Bytes
import MergeOnWrite.RowSet.Basic

namespace MergeOnWrite.RowSet

/-- Why bytes are no set of rows. -/
inductive PortableError where
  | unknownCookie
  | truncated
  | tooManyContainers
  | unorderedArray
  | wrongCardinality
  | runTooLong
deriving DecidableEq, Repr

def PortableError.message : PortableError → String
  | .unknownCookie => "unknown cookie value"
  | .truncated => "failed to fill whole buffer"
  | .tooManyContainers => "size is greater than supported"
  | .unorderedArray => "array values are not strictly increasing"
  | .wrongCardinality => "bitmap does not have the declared cardinality"
  | .runTooLong => "run exceeds its container"

-- ================================================== writing

/-- Two bytes of a number, the low one first. -/
def bytes16 (n : Nat) : Bytes := [.ofNat (n % 256), .ofNat (n / 256 % 256)]

/-- Four bytes of a number, the low ones first. -/
def bytes32 (n : Nat) : Bytes := bytes16 (n % 65536) ++ bytes16 (n / 65536)

/-- The greatest number of rows that a set writes as an array. -/
def arrayLimit : Nat := 4096

/-- How a container holds its rows. -/
inductive Form where
  | array
  | bitmap
deriving DecidableEq, Repr

/-- The form for a number of rows. -/
def Form.ofSize (size : Nat) : Form :=
  if size ≤ arrayLimit then .array else .bitmap

/-- Some rows with the same high bits: those bits, ascending runs of the
low ones, and the form in which they are held. -/
structure Container where
  high : Nat
  lows : List Run
  form : Form
deriving DecidableEq, Repr

namespace Container

def cardinality (c : Container) : Nat := total Run.length c.lows

/-- The low bits of the rows, ascending. -/
def values (c : Container) : List Nat :=
  c.lows.flatMap fun r => List.range' r.lo r.length

def runs (c : Container) : List Run :=
  c.lows.map fun r => ⟨c.high * 65536 + r.lo, c.high * 65536 + r.hi⟩

/-- The container of some low bits in the form for their number. -/
def ofLows (high : Nat) (lows : List Run) : Container :=
  ⟨high, lows, .ofSize (total Run.length lows)⟩

/-- Adds a piece of a run in front of the groups of low bits above it. -/
def addPiece (high : Nat) (piece : Run) :
    List (Nat × List Run) → List (Nat × List Run)
  | [] => [(high, [piece])]
  | (next, lows) :: rest =>
    if next = high then (high, piece :: lows) :: rest
    else (high, [piece]) :: (next, lows) :: rest

/-- The part of a run with the given high bits. -/
def piece (r : Run) (high : Nat) : Run :=
  ⟨max r.lo (high * 65536) - high * 65536,
    min r.hi (high * 65536 + 65535) - high * 65536⟩

/-- Splits a run into pieces in front of the groups above it. -/
def addRun (r : Run) (above : List (Nat × List Run)) :
    List (Nat × List Run) :=
  (List.range' (r.lo / 65536) (r.hi / 65536 + 1 - r.lo / 65536)).foldr
    (fun high acc => addPiece high (piece r high) acc) above

/-- The byte of the eight rows from `base` on. -/
def packByte (base : Nat) (values : List Nat) : UInt8 :=
  .ofNat (total (fun v => Nat.pow 2 (v - base)) values)

/-- The bytes of a bitmap from the row `base` on, for ascending rows. -/
def packBytes : Nat → Nat → List Nat → Bytes
  | 0, _, _ => []
  | count + 1, base, values =>
    packByte base (values.takeWhile (· < base + 8)) ::
      packBytes count (base + 8) (values.dropWhile (· < base + 8))

def toBytes (c : Container) : Bytes :=
  match c.form with
  | .array => c.values.flatMap bytes16
  | .bitmap => packBytes 8192 0 c.values

/-- The number of bytes of a container. -/
def size (c : Container) : Nat :=
  match c.form with
  | .array => 2 * c.cardinality
  | .bitmap => 8192

/-- What is told of a container in front: its high bits and its number
of rows less one, modulo 65536. -/
def description (c : Container) : Bytes :=
  bytes16 c.high ++ bytes16 (c.cardinality + 65535)

/-- The offsets of containers that follow each other from `start` on. -/
def offsets (start : Nat) : List Container → Bytes
  | [] => []
  | c :: rest => bytes32 start ++ offsets (start + c.size) rest

def encodeAll (cs : List Container) : Bytes :=
  bytes32 12346 ++ bytes32 cs.length ++ cs.flatMap description
    ++ offsets (8 + 8 * cs.length) cs ++ cs.flatMap toBytes

end Container

/-- The containers of a set, ascending by their high bits. -/
def containers (s : RowSet) : List Container :=
  (s.runs.foldr Container.addRun []).map fun (high, lows) =>
    Container.ofLows high lows

def encode (s : RowSet) : Bytes := Container.encodeAll s.containers

-- ================================================== reading

def readBytes (n : Nat) (bytes : Bytes) :
    Except PortableError (Bytes × Bytes) :=
  if bytes.length < n then .error .truncated
  else .ok (bytes.take n, bytes.drop n)

def read16 : Bytes → Except PortableError (Nat × Bytes)
  | a :: b :: rest => .ok (a.toNat + 256 * b.toNat, rest)
  | _ => .error .truncated

def read32 (bytes : Bytes) : Except PortableError (Nat × Bytes) := do
  let (low, rest) ← read16 bytes
  let (high, rest) ← read16 rest
  return (low + 65536 * high, rest)

/-- Reads numbers of two bytes to the end. -/
def numbers16 : Bytes → List Nat
  | a :: b :: rest => (a.toNat + 256 * b.toNat) :: numbers16 rest
  | _ => []

/-- The rows whose bits are set in the byte of the rows from `base` on. -/
def unpackByte (base : Nat) (b : UInt8) : List Nat :=
  ((List.range 8).filter fun i => b.toNat.testBit i).map (base + ·)

/-- The rows whose bits are set, for bytes of the rows from `base` on. -/
def unpackBytes (base : Nat) : Bytes → List Nat
  | [] => []
  | b :: rest => unpackByte base b ++ unpackBytes (base + 8) rest

/-- True when each number is less than the next one. -/
def isIncreasing : List Nat → Bool
  | a :: b :: rest => a < b && isIncreasing (b :: rest)
  | _ => true

/-- The maximal runs of some low bits in any order. -/
def lowRuns (runs : List Run) : List Run := (RowSet.ofRuns runs).runs

/-- The runs of one number each. -/
def singles (values : List Nat) : List Run := values.map fun v => ⟨v, v⟩

/-- The run of a first row and a length less one; a run must end within
its container. -/
def runOf? (first more : Nat) : Except PortableError Run :=
  if first + more ≤ 65535 then .ok ⟨first, first + more⟩
  else .error .runTooLong

/-- The pairs of a first row and a length less one. -/
def pairs : List Nat → List (Nat × Nat)
  | first :: more :: rest => (first, more) :: pairs rest
  | _ => []

/-- What is known of a container before it is read. -/
structure Description where
  high : Nat
  cardinality : Nat
  ofRuns : Bool
deriving DecidableEq, Repr

/-- Reads one container. Runs may overlap and are held in the form for
the sum of their lengths less one each. -/
def readContainer (d : Description) (bytes : Bytes) :
    Except PortableError (Container × Bytes) :=
  if d.ofRuns then do
    let (count, rest) ← read16 bytes
    let (data, rest) ← readBytes (4 * count) rest
    let told := pairs (numbers16 data)
    let runs ← told.mapM fun (first, more) => runOf? first more
    return (⟨d.high, lowRuns runs, .ofSize (total Prod.snd told)⟩, rest)
  else if d.cardinality ≤ arrayLimit then do
    let (data, rest) ← readBytes (2 * d.cardinality) bytes
    let values := numbers16 data
    if isIncreasing values then
      return (⟨d.high, lowRuns (singles values), .array⟩, rest)
    else throw .unorderedArray
  else do
    let (data, rest) ← readBytes 8192 bytes
    let values := unpackBytes 0 data
    if values.length = d.cardinality then
      return (⟨d.high, lowRuns (singles values), .bitmap⟩, rest)
    else throw .wrongCardinality

def readContainers : List Description → Bytes →
    Except PortableError (List Container)
  | [], _ => .ok []
  | d :: rest, bytes => do
    let (c, bytes) ← readContainer d bytes
    return c :: (← readContainers rest bytes)

/-- The descriptions that pairs of numbers tell, with a bit for each
container that holds runs. -/
def descriptions (ofRuns : Nat → Bool) : Nat → List Nat → List Description
  | i, high :: less :: rest =>
    ⟨high, less + 1, ofRuns i⟩ :: descriptions ofRuns (i + 1) rest
  | _, _ => []

/-- The containers that portable bytes tell, as they stand. -/
def Container.decodeAll (bytes : Bytes) :
    Except PortableError (List Container) := do
  let (cookie, rest) ← read32 bytes
  let (count, marks, rest) ←
    if cookie = 12346 then do
      let (count, rest) ← read32 rest
      pure (count, none, rest)
    else if cookie % 65536 = 12347 then do
      let count := cookie / 65536 + 1
      let (marks, rest) ← readBytes ((count + 7) / 8) rest
      pure (count, some marks, rest)
    else throw .unknownCookie
  if 65536 < count then throw .tooManyContainers
  let (told, rest) ← readBytes (4 * count) rest
  let (_, rest) ←
    if marks.isNone ∨ 4 ≤ count then readBytes (4 * count) rest
    else pure ([], rest)
  let ofRuns (i : Nat) : Bool :=
    marks.any fun bits => ((bits[i / 8]?).getD 0).toNat.testBit (i % 8)
  readContainers (descriptions ofRuns 0 (numbers16 told)) rest

namespace Container

/-- The number of rows of some containers; a row counts once for each
container that holds it. -/
def cardinalityAll (cs : List Container) : Nat := total cardinality cs

/-- Puts a run in front of others, and joins it to the first of them if
that goes on where it ends. -/
def chain (r : Run) : List Run → List Run
  | [] => [r]
  | next :: rest =>
    if r.hi + 1 = next.lo then ⟨r.lo, next.hi⟩ :: rest else r :: next :: rest

def listing (cs : List Container) : List Run :=
  (cs.flatMap runs).foldr chain []

end Container

def ofContainers (cs : List Container) : RowSet :=
  ofRuns (cs.flatMap Container.runs)

def decode (bytes : Bytes) : Except PortableError RowSet :=
  (Container.decodeAll bytes).map ofContainers

end MergeOnWrite.RowSet
