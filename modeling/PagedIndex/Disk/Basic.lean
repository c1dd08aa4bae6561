import PagedIndex.Action
import PagedIndex.Error
import PagedIndex.Disk.File

/-! # The page store

A `Disk` reads and writes whole pages of a database file, page `k` being its `k`-th block.  It
grows the file when a page is allocated, and it hands out released pages before that.  A released
page is overwritten by `Page.tombstone`, so the stack of free pages can be found again when the
file is opened.

Pages of a kind that carries a checksum are stamped on the way out and checked on the way in.

The device below the file can give up in the middle of a store.  When it does so is for the device
to say: a store that is opened has one that never does. -/

namespace PagedIndex

/-- How the device gives up a store. -/
structure Breakdown where
  cause : FileError
  /-- Bytes that have reached the file by then. -/
  reached : Nat
deriving DecidableEq, Repr

/-- What becomes of the next stores, in order: each goes through or breaks down.  All stores beyond
the list go through. -/
abbrev Device := List (Option Breakdown)

/-- An open database file. -/
structure Disk where
  file : File
  /-- Pages in the file, free ones included. -/
  pageCount : UInt32
  /-- Released pages, the next one to be handed out first. -/
  free : List PageId
  device : Device

namespace Disk

/-! ### Opening -/

/-- Start a database where there is no file yet. -/
def create : Option File → Except Error Disk
  | none => .ok ⟨.empty, 0, [], []⟩
  | some _ => .error (.file .alreadyExists)

/-- The pages below `count` that carry the mark of a released page, the last one first. -/
def releasedPages (file : File) : Nat → List PageId
  | 0 => []
  | count + 1 =>
    if (file.block count).kind = .free then
      ⟨UInt32.ofNat count⟩ :: releasedPages file count
    else releasedPages file count

/-- The store of a file as it stands. -/
def ofFile (file : File) : Disk :=
  let pageCount := UInt32.ofNat (file.length / pageSize)
  ⟨file, pageCount, releasedPages file pageCount.toNat, []⟩

/-- Open the database of an existing file. -/
def openExisting : Option File → Except Error Disk
  | none => .error (.file .notFound)
  | some file => .ok (ofFile file)

def openOrCreate : Option File → Except Error Disk
  | none => create none
  | some file => openExisting (some file)

/-! ### Pages -/

/-- Size of all pages in bytes. -/
def byteSize (d : Disk) : Nat := d.pageCount.toNat * pageSize

/-- `id` names a page of the file. -/
def requirePage (d : Disk) (id : PageId) : Except Error Unit := do
  require (id.isValid) (Error.invalidPageId id)
  require (id.val < d.pageCount) (Error.pageNotFound id)

/-- The page `id` as it stands in the file. -/
def read (d : Disk) (id : PageId) : Except Error Page := do
  d.requirePage id
  match d.file.readPage? id.toNat with
  | none => throw (.file .shortRead)
  | some p =>
    require p.intact (Error.checksumMismatch id)
    return p

/-- Put the bytes of a page into the file. -/
def store (id : PageId) (p : Page) : Action Error Disk Unit := do
  match (← get).device.head? with
  | some (some b) =>
    modify fun d =>
      { d with file := d.file.writePart id.toNat p b.reached, device := d.device.tail }
    throw (.file b.cause)
  | _ =>
    modify fun d => { d with file := d.file.writePage id.toNat p, device := d.device.tail }

/-- Put a page into the file, its checksum brought up to date. -/
def write (id : PageId) (p : Page) : Action Error Disk Unit := do
  (← get).requirePage id
  store id p.stamped

/-- Hand out a page of zeros: the page released last, or a new one at the end of the file. -/
def allocate : Action Stop Disk PageId := do
  match (← get).free with
  | id :: rest =>
    modify fun d => { d with free := rest }
    (store id Page.zero).mapCause Stop.refused
    return id
  | [] =>
    let id : PageId := ⟨(← get).pageCount⟩
    (store id Page.zero).mapCause Stop.refused
    require (id.isValid) (Stop.broken .outOfRange)
    modify fun d => { d with pageCount := d.pageCount + 1 }
    return id

/-- Release a page; a page that is free already stays so. -/
def deallocate (id : PageId) : Action Error Disk Unit := do
  let d ← get
  d.requirePage id
  unless d.free.contains id do
    write id Page.tombstone
    modify fun d => { d with free := id :: d.free }

end Disk

end PagedIndex
