import Lucendex.Store.Basic

/-!
# The in-memory store: operations

The methods of `kv.MemoryStore`, each a function of the store and the clock reading `now`
that returns the new store together with what the Go method returns.  `Set` and
`setLocked` share their body after `Set`'s checks; it is cut into `releaseExisting`, the
eviction loop `evictLoop` and `storeEntry`, the three places the body changes the store.
`Op` lists the calls that change the store and `run` performs a sequence of them, each at
its own clock reading.
-/

namespace Lucendex.Kv

open Lucendex.Go

/-- `[32]byte`. -/
def Hash32 : Type := { b : List UInt8 // b.length = 32 }

/-- `Stats`, with `NamespaceCounts` read as a function (a missing namespace reads `0`). -/
structure Stats where
  totalKeys : Int
  currentBytes : Int
  maxBytes : Int
  evictions : Int
  hits : Int
  misses : Int
  namespaceCounts : String → Int

namespace MemoryStore

/-- The loop `for s.currentBytes+int64(entrySize) > s.maxBytes { if !s.evictOldest() {
return ErrMemoryLimit } }`, run for at most `fuel` evictions: the store after it, and whether
the loop ended because the entry fits. -/
def evictLoop (entrySize : Int) : Nat → MemoryStore → MemoryStore × Bool
  | 0, s => (s, decide (s.currentBytes + entrySize ≤ s.maxBytes))
  | fuel + 1, s =>
    if s.currentBytes + entrySize > s.maxBytes then
      match s.evictOldest with
      | none => (s, false)
      | some s' => evictLoop entrySize fuel s'
    else (s, true)

/-- The first lines of the body of `setLocked` and `Set`: when the full key has an entry, its
bytes are taken off `currentBytes` and its element off the list, while the entry itself stays
in `data`. -/
def releaseExisting (s : MemoryStore) (fullKey : String) : MemoryStore :=
  match s.data.lookup fullKey with
  | none => s
  | some existing =>
    { s with
      currentBytes := s.currentBytes - existing.size
      lru := s.lru.remove existing.lruNode }

/-- The last lines of the body of `setLocked` and `Set`: the new entry, expiring `ttl` after
`now` when `ttl > 0`, gets a fresh element at the front of the list, is stored under its full
key and is counted in `currentBytes`. -/
def storeEntry (s : MemoryStore) (now : Int) (ns key : String) (value : List UInt8)
    (ttl entrySize : Int) : MemoryStore :=
  let expiresAt := if ttl > 0 then some (now + ttl) else none
  { s with
    lru := (s.lru.pushFront (makeKey ns key)).1
    data := s.data.insert (makeKey ns key)
      ⟨ns, key, value, expiresAt, entrySize, (s.lru.pushFront (makeKey ns key)).2⟩
    currentBytes := s.currentBytes + entrySize }

/-- `len(fullKey) + len(value) + 64`, the size an entry is accounted at. -/
def entrySize (ns key : String) (value : List UInt8) : Int :=
  (makeKey ns key).utf8ByteSize + value.length + 64

/-- `s.setLocked(namespace, key, value, ttl)` at time `now`.  On `ErrMemoryLimit` the store
keeps what the body did before the loop gave up. -/
def setLocked (s : MemoryStore) (now : Int) (ns key : String) (value : List UInt8) (ttl : Int) :
    MemoryStore × Except KvError Unit :=
  let s₁ := s.releaseExisting (makeKey ns key)
  let r := evictLoop (entrySize ns key value) s₁.data.keys.length s₁
  if r.2 then (r.1.storeEntry now ns key value ttl (entrySize ns key value), .ok ())
  else (r.1, .error .errMemoryLimit)

/-- `s.Set(namespace, key, value, ttl)` at time `now`: `validate`, the namespace quota, then
the body `setLocked` has too. -/
def set (s : MemoryStore) (now : Int) (ns key : String) (value : List UInt8) (ttl : Int) :
    MemoryStore × Except KvError Unit :=
  match s.validate ns key value with
  | .error err => (s, .error err)
  | .ok () =>
    match s.checkNamespaceQuota now ns with
    | .error err => (s, .error err)
    | .ok () => s.setLocked now ns key value ttl

/-- `s.Get(namespace, key)` at time `now`: a hit moves the entry's element to the front, an
expired entry is deleted on discovery. -/
def get (s : MemoryStore) (now : Int) (ns key : String) : MemoryStore × Option (List UInt8) :=
  if ns = "" ∨ key = "" then ({ s with misses := s.misses + 1 }, none)
  else
    match s.data.lookup (makeKey ns key) with
    | none => ({ s with misses := s.misses + 1 }, none)
    | some e =>
      if e.expired now then
        ({ s.deleteEntryLocked (makeKey ns key) e with misses := s.misses + 1 }, none)
      else ({ s with lru := s.lru.moveToFront e.lruNode, hits := s.hits + 1 }, some e.value)

/-- `s.Delete(namespace, key)`. -/
def delete (s : MemoryStore) (ns key : String) : MemoryStore × Except KvError Unit :=
  if ns = "" ∨ key = "" then (s, .error .errKeyEmpty)
  else
    match s.data.lookup (makeKey ns key) with
    | none => (s, .error .errKeyNotFound)
    | some e => (s.deleteEntryLocked (makeKey ns key) e, .ok ())

/-- `s.IncrementRateLimit(partnerID, ttl)` at time `now`: a missing or expired counter starts
again at `1`, any other is parsed, incremented as an `int64` and written back with
`setLocked`, which stamps a new expiry. -/
def incrementRateLimit (s : MemoryStore) (now : Int) (partnerID : String) (ttl : Int) :
    MemoryStore × Except KvError Int :=
  if partnerID = "" then (s, .error .errKeyEmpty)
  else
    let fullKey := makeKey namespaceRateLimits partnerID
    let restart (s : MemoryStore) : MemoryStore × Except KvError Int :=
      let r := s.setLocked now namespaceRateLimits partnerID (goBytes "1") ttl
      (r.1, r.2.map fun _ => 1)
    match s.data.lookup fullKey with
    | none => restart s
    | some e =>
      if e.expired now then restart (s.deleteEntryLocked fullKey e)
      else
        match parseInt e.value 64 with
        | .error err => (s, .error (.invalidCounterValue err))
        | .ok count =>
          let r := s.setLocked now namespaceRateLimits partnerID
            (formatInt (wrapInt64 (count + 1))) ttl
          (r.1, r.2.map fun _ => wrapInt64 (count + 1))

/-- `s.GetQuote(hash)`. -/
def getQuote (s : MemoryStore) (now : Int) (hash : Hash32) : MemoryStore × Option (List UInt8) :=
  s.get now namespaceQuotes (encodeToString hash.1)

/-- `s.SetQuote(hash, route, ttl)`. -/
def setQuote (s : MemoryStore) (now : Int) (hash : Hash32) (route : List UInt8) (ttl : Int) :
    MemoryStore × Except KvError Unit :=
  s.set now namespaceQuotes (encodeToString hash.1) route ttl

/-- `s.SetLedgerIndex(idx)`. -/
def setLedgerIndex (s : MemoryStore) (now : Int) (idx : UInt32) :
    MemoryStore × Except KvError Unit :=
  s.set now namespaceSystem "ledger_index" (formatUint idx.toNat) 0

/-- `s.GetLedgerIndex()`. -/
def getLedgerIndex (s : MemoryStore) (now : Int) : MemoryStore × Option UInt32 :=
  match s.get now namespaceSystem "ledger_index" with
  | (s', none) => (s', none)
  | (s', some value) =>
    match parseUint value 32 with
    | .ok n => (s', some n.toUInt32)
    | .error _ => (s', none)

/-- `s.Keys(namespace)` at time `now`, in the order of `data` (Go's map order is
unspecified). -/
def keys (s : MemoryStore) (now : Int) (ns : String) : List String :=
  (s.data.entries.filter fun x => x.2.«namespace» = ns ∧ x.2.live now).map (·.2.key)

/-- `s.Stats()` at time `now`. -/
def stats (s : MemoryStore) (now : Int) : Stats where
  totalKeys := (s.data.entries.filter fun x => x.2.live now).length
  currentBytes := s.currentBytes
  maxBytes := s.maxBytes
  evictions := s.evictions
  hits := s.hits
  misses := s.misses
  namespaceCounts ns := (s.data.entries.filter fun x => x.2.live now ∧ x.2.«namespace» = ns).length

/-- One deletion of the second loop of `cleanup`. -/
def cleanupOne (s : MemoryStore) (fullKey : String) : MemoryStore :=
  match s.data.lookup fullKey with
  | none => s
  | some e => s.deleteEntryLocked fullKey e

/-- `s.cleanup()` at time `now`: the full keys of the expired entries are collected, then
each still present is deleted. -/
def cleanup (s : MemoryStore) (now : Int) : MemoryStore :=
  ((s.data.entries.filter fun x => x.2.expired now).map (·.1)).foldl cleanupOne s

end MemoryStore

/-- The calls that change the store.  `SetQuote`, `SetLedgerIndex`, `GetQuote` and
`GetLedgerIndex` are `set` and `get` calls; `cleanup` is the body of the background loop. -/
inductive Op where
  | get (ns key : String)
  | set (ns key : String) (value : List UInt8) (ttl : Int)
  | delete (ns key : String)
  | incrementRateLimit (partnerID : String) (ttl : Int)
  | cleanup

/-- The store after one call at clock reading `now`. -/
def Op.apply (now : Int) (s : MemoryStore) : Op → MemoryStore
  | .get ns key => (s.get now ns key).1
  | .set ns key value ttl => (s.set now ns key value ttl).1
  | .delete ns key => (s.delete ns key).1
  | .incrementRateLimit partnerID ttl => (s.incrementRateLimit now partnerID ttl).1
  | .cleanup => s.cleanup now

/-- The store after a sequence of calls, each with its clock reading. -/
def run (s : MemoryStore) (ops : List (Int × Op)) : MemoryStore :=
  ops.foldl (fun s o => o.2.apply o.1 s) s

@[simp]
theorem run_nil (s : MemoryStore) :
  run s [] = s
  := rfl

@[simp]
theorem run_cons (s : MemoryStore) (o : Int × Op) (ops : List (Int × Op)) :
  run s (o :: ops) = run (o.2.apply o.1 s) ops
  := rfl

end Lucendex.Kv
