import PagedIndex.Pool.Frame
import PagedIndex.Pool.Lru
import PagedIndex.Disk.Basic

/-! # The buffer pool

A `Pool n` keeps pages of a `Disk` in `n` frames.  A page is reached through a `Guard`, which pins
its frame until it is released; the frames that no guard pins may be evicted, the one released
longest ago first, and a dirty page goes back to the file before its frame is used again.

`table` says which page is where.  Every frame is either on `free`, a candidate in `lru`, or
pinned. -/

namespace PagedIndex

/-- Frames in a pool whose user has no preference. -/
def defaultPoolSize : Nat := 64

/-- What a guard allows. -/
inductive Access where
  | read
  | write
deriving DecidableEq, Repr

/-- A hold on the page `page` in the frame `frame`. -/
structure Guard (n : Nat) where
  frame : Fin n
  page : PageId
  access : Access
deriving DecidableEq, Repr

structure Pool (n : Nat) where
  frames : Vector Frame n
  /-- Where each page in memory is. -/
  table : List (PageId × Fin n)
  /-- Frames without a page, the next one to be used first. -/
  free : List (Fin n)
  lru : Lru (Fin n)
  disk : Disk

namespace Pool

variable {n : Nat}

/-- Actions on a pool. -/
abbrev Task (n : Nat) := Action Stop (Pool n)

/-- A pool of empty frames over a store. -/
def ofDisk (n : Nat) (disk : Disk) : Except Fault (Pool n) := do
  require (0 < n) Fault.emptyPool
  return ⟨Vector.replicate n Frame.empty, [], List.finRange n, Lru.empty, disk⟩

/-! ### Looking -/

/-- The frame that holds a page. -/
def frameOf? (s : Pool n) (id : PageId) : Option (Fin n) := s.table.lookup id

/-- Pins of a page in memory. -/
def pins? (s : Pool n) (id : PageId) : Option UInt32 :=
  (s.frameOf? id).map fun f => s.frames[f].pins

/-- Frames without a page. -/
def freeCount (s : Pool n) : Nat := s.free.length

/-- Pages in memory. -/
def residentCount (s : Pool n) : Nat := s.table.length

/-- The bytes a guard gives access to. -/
def view (s : Pool n) (g : Guard n) : Page := s.frames[g.frame].page

/-! ### Parts -/

def onFrame {α : Type} (f : Fin n) (x : Action Fault Frame α) : Task n α :=
  Action.zoom (fun s => s.frames[f]) (fun s fr => { s with frames := s.frames.set f fr })
    (x.mapCause Stop.broken)

def onDisk {α : Type} (x : Action Stop Disk α) : Task n α :=
  Action.zoom Pool.disk (fun s d => { s with disk := d }) x

def setFrame (f : Fin n) (change : Frame → Frame) : Task n Unit :=
  modify fun s => { s with frames := s.frames.set f (change s.frames[f]) }

/-- Forget where a page is. -/
def forget (id : PageId) : Task n Unit :=
  modify fun s => { s with table := s.table.filter fun e => e.1 ≠ id }

/-- Record where a page is. -/
def record (id : PageId) (f : Fin n) : Task n Unit :=
  modify fun s => { s with table := (id, f) :: s.table.filter fun e => e.1 ≠ id }

/-- Give a frame back. -/
def giveBack (f : Fin n) : Task n Unit := modify fun s => { s with free := f :: s.free }

/-- Make a frame a candidate for eviction. -/
def makeCandidate (f : Fin n) : Task n Unit := modify fun s => { s with lru := s.lru.release f }

/-- Make a frame no candidate for eviction. -/
def dropCandidate (f : Fin n) : Task n Unit := modify fun s => { s with lru := s.lru.remove f }

/-! ### Frames -/

/-- Put the bytes of a dirty frame into the file as page `id`. -/
def writeBack (f : Fin n) (id : PageId) : Task n Unit := do
  let frame := (← get).frames[f]
  if frame.dirty then
    onDisk ((Disk.write id frame.page).mapCause Stop.refused)
    setFrame f fun fr => { fr with dirty := false }

/-- Take the page out of a frame whose turn it is. -/
def vacate (f : Fin n) : Task n Unit := do
  if let some old := (← get).frames[f].resident then
    (writeBack f old).orCleanup fun _ => makeCandidate f
    forget old
  setFrame f fun fr => { fr with resident := none, dirty := false }

/-- An empty frame: a free one, or the one released longest ago. -/
def acquire : Task n (Fin n) := do
  match (← get).free with
  | f :: rest =>
    modify fun s => { s with free := rest }
    return f
  | [] =>
    match (← get).lru.evict? with
    | none => throw (.refused .noFreeFrames)
    | some (f, rest) =>
      modify fun s => { s with lru := rest }
      vacate f
      return f

/-- Fill an empty frame and pin it. -/
def occupy (f : Fin n) (id : PageId) (p : Page) : Task n Unit := do
  setFrame f fun fr => { fr with page := p, resident := some id }
  discard (onFrame f Frame.pin)
  record id f

/-- Bring a page into memory, if it is not there, and pin it. -/
def pinPage (id : PageId) : Task n (Fin n) := do
  require (id.isValid) (Stop.refused (.invalidPageId id))
  match (← get).frameOf? id with
  | some f =>
    discard (onFrame f Frame.pin)
    dropCandidate f
    return f
  | none =>
    let f ← acquire
    match (← get).disk.read id with
    | .ok p =>
      occupy f id p
      return f
    | .error e =>
      giveBack f
      throw (.refused e)

/-! ### Guards -/

/-- A guard on a page of the file. -/
def fetch (id : PageId) (access : Access) : Task n (Guard n) := do
  return ⟨← pinPage id, id, access⟩

/-- A write guard on a new page of zeros. -/
def newPage : Task n (Guard n) := do
  let f ← acquire
  let id ← (onDisk Disk.allocate).orCleanup fun
    | .refused _ => giveBack f
    | .broken _ => pure ()
  occupy f id Page.zero
  return ⟨f, id, .write⟩

/-- Give up a guard.  A page held for writing counts as changed. -/
def release (g : Guard n) : Task n Unit := do
  if g.access = .write then
    setFrame g.frame fun fr => { fr with dirty := true }
  if (← onFrame g.frame Frame.unpin) = 0 then
    makeCandidate g.frame

/-- Replace the bytes of the page that a guard holds. -/
def update (g : Guard n) (p : Page) : Task n Unit :=
  setFrame g.frame fun fr => { fr with page := p }

/-! ### Pages -/

/-- Drop a page from memory without writing it back, and release its place in the file. -/
def deletePage (id : PageId) : Task n Unit := do
  if let some f := (← get).frameOf? id then
    require (¬ (← get).frames[f].isPinned) (Stop.refused (.pagePinned id))
    forget id
    dropCandidate f
    setFrame f fun fr => { fr with resident := none, dirty := false }
    giveBack f
  onDisk ((Disk.deallocate id).mapCause Stop.refused)

/-- Write a page back, if it is in memory and dirty. -/
def flushPage (id : PageId) : Task n Unit := do
  if let some f := (← get).frameOf? id then
    writeBack f id

/-- Write back the pages of some entries of the table, in order. -/
def flushEntries : List (PageId × Fin n) → Task n Unit
  | [] => pure ()
  | (id, f) :: rest => do
    writeBack f id
    flushEntries rest

/-- Write back every dirty page in memory. -/
def flushAll : Task n Unit := do
  flushEntries (← get).table

end Pool

end PagedIndex
