import Uwvm2.Lib.BackPointers

/-!
# The descriptor table of WASI

The table of `fd_map.h` and the calls that change it: the allocation at the end of
`path_open`, `fd_close` and `fd_renumber`. A descriptor is a slot of the vector `opens`,
or an entry of `renumberMap` when its number lies beyond the vector. `closes` lists the
closed slots, which allocation uses again. Every call holds the table's lock, so calls
are steps; `F` stands for the open files.
-/

namespace Uwvm2.Wasi

inductive Errno
  | esuccess
  | ebadf
  | eio
  | emfile
  | other (code : Nat)
  deriving DecidableEq, Repr

/-- A `wasi_fd_ref_t`: no control block, a fresh one, or one of an open file. -/
inductive FileRef (F : Type)
  | null
  | unbound
  | bound (file : F)
  deriving DecidableEq, Repr

/-- `closePos` is `none` where the source has `SIZE_MAX`. -/
structure WasiFd (F : Type) where
  wasiFd : FileRef F := .unbound
  rightsBase : Nat := 0
  rightsInherit : Nat := 0
  closePos : Option Nat := none
  deriving DecidableEq, Repr

structure FdStorage (F : Type) where
  opens : List (WasiFd F)
  renumberMap : AList fun _ : Int32 => WasiFd F
  closes : List Nat
  fdLimit : Nat
  deriving DecidableEq

def opensPos (fd : Int32) : Nat := fd.toInt.toNat

def fdMax : Nat := 2 ^ 31 - 1

namespace FdStorage

variable {F : Type} (storage : FdStorage F)

/-- Move the entry behind the last slot into the vector, as often as there is one, for at
most `fuel` rounds. -/
def normalizeLoop : Nat → FdStorage F → FdStorage F
  | 0, storage => storage
  | fuel + 1, storage =>
    match storage.renumberMap.lookup (Int32.ofNat storage.opens.length) with
    | none => storage
    | some fd =>
      normalizeLoop fuel
        { storage with
          opens := storage.opens ++ [fd]
          renumberMap := storage.renumberMap.erase (Int32.ofNat storage.opens.length) }

/-- Every round takes an entry out of the map. -/
def normalize : FdStorage F := normalizeLoop storage.renumberMap.entries.length storage

-- path_open

/-- What `path_open` has opened when it comes to the table. -/
structure Opened (F : Type) where
  file : F
  rightsBase : Nat
  rightsInherit : Nat
  deriving DecidableEq, Repr

def Opened.newFd {F : Type} (opened : Opened F) : WasiFd F where
  wasiFd := .bound opened.file
  rightsBase := opened.rightsBase
  rightsInherit := opened.rightsInherit

def allocate (newFd : WasiFd F) : Errno × Option Int32 × FdStorage F :=
  if fdMax < storage.fdLimit then (.eio, none, storage)
  else if storage.fdLimit ≤
      storage.opens.length - storage.closes.length + storage.renumberMap.entries.length then
    (.emfile, none, storage)
  else
    match storage.closes.getLast? with
    | some newFdPos =>
      (.esuccess, some (Int32.ofNat newFdPos),
        { storage with
          opens := storage.opens.set newFdPos newFd
          closes := storage.closes.dropLast })
    | none =>
      if fdMax ≤ storage.opens.length then (.emfile, none, storage)
      else
        (.esuccess, some (Int32.ofNat storage.opens.length),
          { storage with opens := storage.opens ++ [newFd] }.normalize)

def pathOpen : Except Errno (Opened F) → Errno × Option Int32 × FdStorage F
  | .error errno => (errno, none, storage)
  | .ok opened => storage.allocate opened.newFd

-- fd_close

def closeSlot (pos : Nat) (slot : WasiFd F) : FdStorage F :=
  { storage with
    opens := storage.opens.set pos { slot with closePos := some storage.closes.length }
    closes := storage.closes ++ [pos] }

def closeErrno : FileRef F → Errno
  | .null => .eio
  | _ => .esuccess

def fdClose (fd : Int32) : Errno × FdStorage F :=
  if fd < 0 then (.ebadf, storage)
  else
    match storage.opens[opensPos fd]? with
    | none =>
      match storage.renumberMap.lookup fd with
      | some _ => (.esuccess, { storage with renumberMap := storage.renumberMap.erase fd })
      | none => (.ebadf, storage)
    | some slot =>
      if slot.closePos ≠ none then (.ebadf, storage)
      else
        -- the slot is closed and its rights are gone also when there is no control block
        (closeErrno slot.wasiFd, storage.closeSlot (opensPos fd) { wasiFd := .null })

-- fd_renumber

/-- Take the descriptor at `fdFrom` out of the table; a slot gets a fresh descriptor. -/
def takeFrom (fdFrom : Int32) : Option (WasiFd F × FdStorage F) :=
  match storage.opens[opensPos fdFrom]? with
  | none =>
    (storage.renumberMap.lookup fdFrom).map fun fd =>
      (fd, { storage with renumberMap := storage.renumberMap.erase fdFrom })
  | some slot =>
    if slot.closePos ≠ none then none
    else some (slot, storage.closeSlot (opensPos fdFrom) {})

def fixClosePos (start : Nat) : FdStorage F :=
  { storage with
    opens := (storage.closes.zipIdx.drop start).foldl
      (fun opens cell => opens.modify cell.1 fun slot => { slot with closePos := some cell.2 })
      storage.opens }

def putTo (fdTo : Int32) (fd : WasiFd F) : FdStorage F :=
  match storage.opens[opensPos fdTo]? with
  | none =>
    match storage.renumberMap.lookup fdTo with
    | some _ => { storage with renumberMap := storage.renumberMap.insert fdTo fd }
    | none => { storage with renumberMap := storage.renumberMap.insert fdTo fd }.normalize
  | some slot =>
    match slot.closePos with
    | some erasedPos =>
      let fixed := { storage with
        closes := storage.closes.eraseIdx erasedPos }.fixClosePos erasedPos
      { fixed with opens := fixed.opens.set (opensPos fdTo) fd }
    | none => { storage with opens := storage.opens.set (opensPos fdTo) fd }

def isOpen (fd : Int32) : Bool :=
  match storage.opens[opensPos fd]? with
  | some slot => slot.closePos = none
  | none => (storage.renumberMap.lookup fd).isSome

def fdRenumber (fdFrom fdTo : Int32) : Errno × FdStorage F :=
  if fdFrom < 0 ∨ fdTo < 0 then (.ebadf, storage)
  else if fdFrom = fdTo then (if storage.isOpen fdFrom then .esuccess else .ebadf, storage)
  else
    match storage.takeFrom fdFrom with
    | none => (.ebadf, storage)
    | some (fd, storage) => (.esuccess, storage.putTo fdTo fd)

-- Sequences of calls

inductive Call (F : Type)
  | pathOpen (result : Except Errno (Opened F))
  | fdClose (fd : Int32)
  | fdRenumber (fdFrom fdTo : Int32)

/-- What a call returns, the number that it gives to the guest and the table after it. -/
def call : Call F → Errno × Option Int32 × FdStorage F
  | .pathOpen result => storage.pathOpen result
  | .fdClose fd => let (errno, storage) := storage.fdClose fd; (errno, none, storage)
  | .fdRenumber fdFrom fdTo =>
    let (errno, storage) := storage.fdRenumber fdFrom fdTo; (errno, none, storage)

def run (calls : List (Call F)) : FdStorage F :=
  calls.foldl (fun storage c => (storage.call c).2.2) storage

def initial (files : List (Opened F)) (fdLimit : Nat) : FdStorage F :=
  ⟨files.map Opened.newFd, ∅, [], fdLimit⟩

end FdStorage

end Uwvm2.Wasi
