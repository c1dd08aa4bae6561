import PagedIndex.Fault
import PagedIndex.Page.Kind

/-! # Errors

An `Error` is a condition that a correct caller has to expect: it comes from the data, from the
file or from the load on the pool.  Each constructor is a cause; `message` words it. -/

namespace PagedIndex

/-- Why the file refused. -/
inductive FileError where
  | alreadyExists
  | notFound
  /-- The file ends before the bytes that were asked for. -/
  | shortRead
  | other (reason : String)
deriving DecidableEq, Repr

def FileError.message : FileError → String
  | alreadyExists => "File exists (os error 17)"
  | notFound => "No such file or directory (os error 2)"
  | shortRead => "failed to fill whole buffer"
  | other reason => reason

/-- Why a node header describes no node. -/
inductive Corruption where
  | maxSizeOutside (maxSize capacity : Nat)
  | sizeOutside (size bound : Nat)
  | other (reason : String)
deriving DecidableEq, Repr

def Corruption.message : Corruption → String
  | maxSizeOutside maxSize capacity => s!"max_size {maxSize} outside [2, {capacity})"
  | sizeOutside size bound => s!"size {size} outside [1, {bound}]"
  | other reason => reason

inductive Error where
  | file (cause : FileError)
  | pageNotFound (page : PageId)
  /-- Every frame of the pool is pinned. -/
  | noFreeFrames
  /-- The identifier of no page where a page is needed. -/
  | invalidPageId (page : PageId)
  | pagePinned (page : PageId)
  | checksumMismatch (page : PageId)
  /-- Every frame of the pool is pinned, and the index needed this page. -/
  | pageUnavailable (page : PageId)
  | wrongKind (page : PageId) (expected found : PageKind)
  | corrupted (page : PageId) (cause : Corruption)
deriving DecidableEq, Repr

namespace Error

def message : Error → String
  | file cause => s!"I/O error: {cause.message}"
  | pageNotFound page => s!"Page {page.toNat} not found"
  | noFreeFrames => "No free frames available in buffer pool"
  | invalidPageId page => s!"Invalid page ID: {page.toNat}"
  | pagePinned page => s!"Page {page.toNat} is still pinned"
  | checksumMismatch page => s!"Checksum mismatch on page {page.toNat}"
  | pageUnavailable page => s!"Page {page.toNat} unavailable: every buffer frame is pinned"
  | wrongKind page expected found =>
    s!"Page {page.toNat} has type {found.name}, expected {expected.name}"
  | corrupted page cause => s!"Page {page.toNat} is corrupted: {cause.message}"

/-- The cause lies outside the library. -/
def hasSource : Error → Bool
  | file _ => true
  | _ => false

/-- Exhaustion of the pool, told as the page that could not be brought in. -/
def unavailable (page : PageId) : Error → Error
  | noFreeFrames => pageUnavailable page
  | e => e

end Error

/-- Why an operation on the store stopped: it refused, or its contract was broken. -/
inductive Stop where
  | refused (e : Error)
  | broken (f : Fault)
deriving DecidableEq, Repr

/-- Exhaustion of the pool, told as the page that could not be brought in. -/
def Stop.forPage (page : PageId) : Stop → Stop
  | refused e => refused (e.unavailable page)
  | broken f => broken f

end PagedIndex
