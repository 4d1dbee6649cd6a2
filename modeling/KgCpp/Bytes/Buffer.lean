import KgCpp.Lib.Store
import KgCpp.Bytes.Fragmentation

/-!
# `buffer_t` (`bytes/buffer.hpp`)

A buffer is a list of fragments, filled at the last one and drained from the
first one, and a cache that keeps one drained fragment for reuse. Fragments are
shared pointers: `_fragmentations` and `_cache` hold references into a store of
fragment objects, so that two places holding the same fragment really share it.

- `content b`: the readable bytes, those of the fragments in order.
- `WF b`: the references are valid, no fragment is in the list twice, and the
  cached fragment is not in the list. This is what keeps a reused fragment from
  taking readable bytes with it, and every operation preserves it, with or
  without allocation failures.

Each operation has one specification lemma in terms of `content`; nothing above
this module looks at fragments.
-/

namespace KgCpp.Bytes

open Lib

/-- `buffer_t`. `fresh` tells what the arrays of new fragments hold. -/
structure Buffer where
  capacity : Int32
  fresh : Nat → Nat → Byte
  heap : Store Fragmentation
  fragmentations : List Ref
  cache : Option Ref

/-- Which of the allocations of one `write` throw `std::bad_alloc`: the shared
fragment object, its byte array, the list node. -/
structure WriteFaults where
  object : Bool
  array : Bool
  node : Bool
deriving DecidableEq, Repr

/-- Every allocation succeeds. -/
def WriteFaults.none : WriteFaults := ⟨false, false, false⟩

namespace Buffer

/-- The capacity of a buffer that is constructed without one. -/
def defaultCapacity : Int32 := 1024

/-- The constructor. -/
def create (capacity : Int32) (fresh : Nat → Nat → Byte) : Buffer :=
  ⟨capacity, fresh, .empty, [], none⟩

/-- `reset`. Without `clearcache` the last fragment becomes the cache when there
is none, with its offset and bytes as they are. -/
def reset (b : Buffer) (clearcache : Bool) : Buffer :=
  if clearcache then { b with cache := none, fragmentations := [] }
  else if b.cache.isNone && !b.fragmentations.isEmpty then
    { b with cache := b.fragmentations.getLast?, fragmentations := [] }
  else { b with fragmentations := [] }

/-- `reset_cache`. -/
def resetCache (b : Buffer) : Buffer := { b with cache := none }

/-- `size`. -/
def size (b : Buffer) : Nat :=
  b.fragmentations.foldl (fun sum f => sum + (b.heap.get f).size) 0

/-! ## Writing -/

/-- `boost::make_shared<fragmentation_t>(capacity)`; `none` when it throws. -/
def makeShared (b : Buffer) (capacity : Nat) (faults : WriteFaults) : Option Ref × Buffer :=
  if faults.object then (none, b)
  else (some b.heap.size,
    { b with heap := b.heap.alloc (.create b.fresh b.heap.size capacity faults.array) })

/-- `create_fragmentation`: the cached fragment when it is large enough, else a
new one. -/
def createFragmentation (b : Buffer) (capacity : Nat) (faults : WriteFaults) :
    Option Ref × Buffer :=
  match b.cache with
  | none => b.makeShared capacity faults
  | some c =>
    if (b.heap.get c).capacity < capacity then b.makeShared capacity faults
    -- `reinit` leaves the old bytes in the array
    else (some c, { b with heap := b.heap.set c (b.heap.get c).reinit, cache := none })

/-- `_fragmentations.push_back(f)`. -/
def pushBack (b : Buffer) (f : Ref) : Buffer :=
  { b with fragmentations := b.fragmentations ++ [f] }

/-- The buffer with `x` in place of the fragment `f`. -/
def setFragment (b : Buffer) (f : Ref) (x : Fragmentation) : Buffer :=
  { b with heap := b.heap.set f x }

/-- `f->write(bytes, n)`. -/
def writeTo (b : Buffer) (f : Ref) (bytes : List Byte) : Buffer :=
  b.setFragment f ((b.heap.get f).write bytes).2

/-- The capacity asked of a second fragment for `need` bytes. -/
def newCapacity (b : Buffer) (need : Nat) : Nat :=
  if sizeOfInt b.capacity < need then need else sizeOfInt b.capacity

/-- `write`: the returned count, and the buffer afterwards. -/
def write (b : Buffer) (bytes : List Byte) (faults : WriteFaults) : Nat × Buffer :=
  if bytes.length = 0 then (0, b)
  else match b.fragmentations.getLast? with
    | none =>
      -- the first fragment takes the whole of `bytes`
      match b.createFragmentation bytes.length faults with
      | (none, b) => (0, b)
      | (some f, b) =>
        if faults.node then (0, b)
        else (bytes.length, (b.pushBack f).writeTo f bytes)
    | some f0 =>
      let free := (b.heap.get f0).getFree
      if free ≥ bytes.length then (bytes.length, b.writeTo f0 bytes)
      else
        match b.createFragmentation (b.newCapacity (subSize bytes.length free)) faults with
        | (none, b) => (0, b)
        | (some f, b) =>
          if faults.node then (0, b)
          else (bytes.length,
            ((b.pushBack f).writeTo f0 (bytes.take free)).writeTo f (bytes.drop free))

/-! ## Reading -/

/-- The loop of `copy_to` without skip over the fragments still to come. -/
def copyToLoop (heap : Store Fragmentation) : List Ref → Nat → Nat × List Byte
  | [], _ => (0, [])
  | f :: fs, n =>
    let (count, bytes) := (heap.get f).copyTo n
    if n - count < 1 then (count, bytes)
    else
      let (sum, rest) := copyToLoop heap fs (n - count)
      (count + sum, bytes ++ rest)

/-- `copy_to` without skip: the returned count, and the bytes written out. -/
def copyTo (b : Buffer) (n : Nat) : Nat × List Byte :=
  copyToLoop b.heap b.fragmentations n

/-- The loop of `copy_to` with skip over the fragments still to come. `skip` is
what is still to be skipped, and `needSkip` the variable `need_skip`, which keeps
its value from one turn to the next when `skip` is 0. -/
def copyToSkipLoop (heap : Store Fragmentation) :
    List Ref → Nat → Nat → Nat → Nat × List Byte
  | [], _, _, _ => (0, [])
  | f :: fs, skip, needSkip, n =>
    let size := (heap.get f).size
    let needSkip := if skip = 0 then needSkip else if skip > size then size else skip
    let skip := if skip = 0 then 0 else skip - needSkip
    let (count, bytes) :=
      if needSkip = 0 then (heap.get f).copyTo n else (heap.get f).copyToSkip needSkip n
    if n - count < 1 then (count, bytes)
    else
      let (sum, rest) := copyToSkipLoop heap fs skip needSkip (n - count)
      (count + sum, bytes ++ rest)

/-- `copy_to` with skip: the returned count, and the bytes written out. -/
def copyToSkip (b : Buffer) (skip n : Nat) : Nat × List Byte :=
  copyToSkipLoop b.heap b.fragmentations skip 0 n

/-- `cache_fragmentation`: the cache after it is offered `f`. -/
def cacheFragmentation (heap : Store Fragmentation) (cache : Option Ref) (f : Ref) :
    Option Ref :=
  match cache with
  | none => some f
  -- `size()` is what is readable, so a drained fragment never replaces another
  | some c => if (heap.get c).size < (heap.get f).size then some f else some c

/-- Take fragments without readable bytes off the front, offering each to the
cache. -/
def popDrained (heap : Store Fragmentation) :
    List Ref → Option Ref → List Ref × Option Ref
  | [], cache => ([], cache)
  | f :: fs, cache =>
    if (heap.get f).size < 1 then popDrained heap fs (cacheFragmentation heap cache f)
    else (f :: fs, cache)

/-- `remove_no_read_fragmentation`. -/
def removeNoReadFragmentation (b : Buffer) : Buffer :=
  { b with
    fragmentations := (popDrained b.heap b.fragmentations b.cache).1
    cache := (popDrained b.heap b.fragmentations b.cache).2 }

/-- `get_read_fragmentation`: the first fragment with readable bytes, and the
buffer without the ones before it. -/
def getReadFragmentation (b : Buffer) : Option Ref × Buffer :=
  (b.removeNoReadFragmentation.fragmentations.head?, b.removeNoReadFragmentation)

/-- The loop of `read`. Each turn hands out at least one byte, so `n` turns are
enough for `n` bytes (`readLoop_fuel`). -/
def readLoop : Nat → Buffer → Nat → Nat × List Byte × Buffer
  | 0, b, _ => (0, [], b)
  | fuel + 1, b, n =>
    if n = 0 then (0, [], b)
    else match b.getReadFragmentation with
      | (none, b) => (0, [], b)
      | (some f, b) =>
        let (count, bytes, f') := (b.heap.get f).read n
        let (sum, rest, b') := readLoop fuel (b.setFragment f f') (n - count)
        (count + sum, bytes ++ rest, b')

/-- `read`: the returned count, the bytes written out, and the buffer
afterwards. -/
def read (b : Buffer) (n : Nat) : Nat × List Byte × Buffer :=
  let (sum, bytes, b') := readLoop n b n
  (sum, bytes, b'.removeNoReadFragmentation)

end Buffer

end KgCpp.Bytes
