import ClusterNats.Kv.Sweep

/-!
# Listings

A listing reads the keys under a prefix page by page.  A pass keeps the way its
first page read: a scan of the data records, a consumer of the index records,
or the stream's subject list.

* `indexedKeys`, `liveEntries`, `subjectsPage`, `recordsPage` — the parts of a
  page.
* `listPage` — one page.
* `listPass` — the pages from the first one to the one without a `next`.
-/

namespace ClusterNats

open Conc

/-- One page of a listing. -/
structure KvPage where
  entries : List (String × Entry)
  /-- The cursor of the next page. -/
  next : Option Bytes
  deriving DecidableEq, Repr

/-- `SUBJECT_LISTING_MAX`. -/
def subjectListingMax : Nat := 10000

/-- Byte order of strings. -/
def keyLe (a b : String) : Bool := decide (¬ bytes b < bytes a)

/-- The loop of `indexed_keys`: `none` when there are more than `max`. -/
def collectKeys (pre : String) (max : Option Nat) : List String → List Bytes → Option (List String)
  | keys, [] => some keys
  | keys, subject :: subjects =>
    match (dataKey subject).filter fun key => bytes pre <+: bytes key with
    | some key =>
      if some keys.length = max then none else collectKeys pre max (keys ++ [key]) subjects
    | none => collectKeys pre max keys subjects

/-- The data keys under a prefix that have an index record, in byte order;
`none` when there are more than `max`. -/
def indexedKeys (pre : String) (max : Option Nat) : Kv (Option (List String)) :=
  .req (.infoWithSubjects (prefixFilter pre)) fun (x : Except String (List Bytes)) => do
    let subjects ← orUnavailable (fun e => s!"nats kv list subjects: {e}") x
    return (collectKeys pre max [] subjects).map fun keys => keys.mergeSort keyLe

/-- The job of `live_entries`: read one key. -/
def liveEntry (key : String) : Kv (Option (String × Entry)) := do
  match ← slot (encodeKey key) key with
  | .live value expiresAtSecs _ => return some (key, ← entryOf value expiresAtSecs)
  | _ => return none

/-- The entry a finished job read. -/
def Done.found : Done → Option (String × Entry)
  | .entry e => e
  | _ => none

/-- Collect the entries in order; the first failure is the page's. -/
def collectEntries : List (Except ClusterError Done) → Except ClusterError (List (String × Entry))
  | [] => .ok []
  | .error e :: _ => .error e
  | .ok d :: rest => (collectEntries rest).map (d.found.toList ++ ·)

/-- The live entries of the keys, read beside each other, in the order given. -/
def liveEntries (keys : List String) : Kv (List (String × Entry)) :=
  spawnAll listFetchParallelism (keys.map .liveEntry) <|
    .join fun entries => Prog.ofExcept id (collectEntries entries)

/-- One page over the sorted keys. -/
def subjectsPage (keys : List String) (after : Option Bytes) (limit : Nat) : Kv KvPage := do
  let rest := match after with
    | some after => keys.dropWhile fun k => ¬ after < bytes k
    | none => keys
  let page := rest.take limit
  let next := if page.length < rest.length then page.getLast?.map fun k => 115 :: bytes k else none
  return { entries := ← liveEntries page, next }

/-- What the loop of a page over a consumer has read. -/
structure PageScan where
  matched : List String := []
  lastSequence : Option Nat := none
  more : Bool := true
  deriving DecidableEq, Repr

/-- The key one record adds to a page. -/
def pageKey (pre : String) (indexed : Bool) (r : Delivered) : Option String :=
  if indexed then (dataKey r.subject).filter fun key => bytes pre <+: bytes key
  else if recordOperation r.headers = .put ∧ encodeKey pre <+: r.subject then decodeKey r.subject
  else none

/-- The loop of a page over a consumer. -/
def pageScan (pre : String) (indexed : Bool) (limit : Nat) : (fuel : Nat) → PageScan → Kv PageScan
  | 0, _ => .stuck
  | fuel + 1, scan =>
    if scan.matched.length < limit then
      .req .nextRecord fun (x : NextRecord) =>
        match x with
        | .record r =>
          let scan : PageScan := {
            matched := scan.matched ++ (pageKey pre indexed r).toList
            lastSequence := some r.streamSequence
            more := decide (0 < r.pending) }
          if scan.more then pageScan pre indexed limit fuel scan else .ret scan
        | .unreadable e => .fail (.backendUnavailable s!"nats kv list record metadata: {e}")
        | .failed e => .fail (.backendUnavailable s!"nats kv list record: {e}")
        | .ended => .ret scan
        -- a stall with progress hands the rest to the next page
        | .idle =>
          if scan.lastSequence.isSome then .ret scan
          else .fail (.backendUnavailable "nats kv list: no record arrived")
    else .ret scan

/-- The records a cursor stands for: whether it reads the index, and the last
sequence read. -/
def parseCursor (c : Bytes) : Option (Bool × Nat) :=
  let (indexed, sequence) := match c with
    | 105 :: rest => (true, rest)
    | 100 :: rest => (false, rest)
    | c => (false, c)
  (parseU64 sequence).map fun after => (indexed, after.toNat)

/-- The cursor after a sequence, in one of the two modes. -/
def renderCursor (indexed : Bool) (sequence : Nat) : Bytes :=
  (if indexed then 105 else 100) :: renderNat sequence

/-- One page read through a consumer, from the record after a sequence on. -/
def recordsPage (pre : String) (indexed : Bool) (after limit fuel : Nat) : Kv KvPage := do
  let filter := if indexed then prefixFilter pre else everything
  -- the sum of the release build
  if ← recordConsumer "mcpg kv list" filter ((after + 1) % UInt64.size) then
    let scan ← pageScan pre indexed limit fuel {}
    let entries ← liveEntries scan.matched
    return { entries, next := if scan.more then scan.lastSequence.map (renderCursor indexed) else none }
  else return ⟨[], none⟩

/-- One page of a listing. -/
def listPage (pre : String) (cursor : Option Bytes) (limit fuel : Nat) : Kv KvPage := do
  let limit := max limit 1
  match cursor with
  | some (115 :: after) =>
    let keys ← indexedKeys pre none
    subjectsPage (keys.getD []) (some after) limit
  | some c =>
    match parseCursor c with
    | some (indexed, after) => recordsPage pre indexed after limit fuel
    | none =>
      let text := (fromUtf8 c).getD ""
      .fail (.precondition s!"nats kv list: `{text}` is not a cursor of this store")
  | none =>
    let ready ← .req .indexReady fun (ready : Bool) => .ret ready
    if ready then
      match ← indexedKeys pre (some subjectListingMax) with
      | some keys => subjectsPage keys none limit
      | none =>
        -- the flag is read again
        let indexed ← .req .indexReady fun (ready : Bool) => .ret ready
        recordsPage pre indexed 0 limit fuel
    else
      let indexed ← .req .indexReady fun (ready : Bool) => .ret ready
      recordsPage pre indexed 0 limit fuel

/-- The pages of a pass, from a cursor on. -/
def listPass (pre : String) (limit scanFuel : Nat) :
    (fuel : Nat) → Option Bytes → Kv (List KvPage)
  | 0, _ => .stuck
  | fuel + 1, cursor => do
    let page ← listPage pre cursor limit scanFuel
    match page.next with
    | none => return [page]
    | some next => return page :: (← listPass pre limit scanFuel fuel (some next))

end ClusterNats
