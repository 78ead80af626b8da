import Coht.Lib.Access
import Mathlib.Algebra.Group.Nat.Defs
import Mathlib.Data.List.Defs

/-!
# Tables with markers (`libxmem.c`, `adler32.h`)

A table of the reflective memory is written and read in pieces. Unless the
markers are disabled a piece is wrapped in a header and a footer: the header
goes to where the piece begins, the data three elements further, the footer
behind the data. In the atomic modes all of it goes through a bounce buffer in
one transfer, and the header may carry a checksum.

The routines of the back end are transfers of consecutive elements, which do
not fail. What a call finds in its surroundings is a parameter: the value of
`rand()`, the garbage in a header on the stack and in freshly allocated
memory, and whether `malloc()` succeeds.
-/

namespace Coht.Xmem

open Coht.Lib

abbrev U32 := BitVec 32

inductive XmemError
  | success
  | notInitialized
  | incoherentMarkers
  | enomem
  | checksum
  deriving DecidableEq

def XmemMarkersDISABLE : U32 := 0x1
def XmemMarkersENABLE : U32 := 0x2
def XmemMarkersATOMIC : U32 := 0x4
def XmemMarkersCHECKSUM : U32 := 0x8
def XmemMarkersALL : U32 := 0xF

/-- The library of one process. -/
structure XmemLib where
  libinitialized : Bool := true
  markersMask : U32 := XmemMarkersDISABLE

def XmemLib.set (lib : XmemLib) (mask : U32) : Bool :=
  decide (lib.markersMask &&& mask ≠ 0)

/-- The clean-up of a mask in `XmemSetMarkersMask()`. -/
def cleanMask (mask : U32) : U32 :=
  let mask :=
    if mask &&& XmemMarkersENABLE ≠ 0 then
      if mask &&& XmemMarkersDISABLE ≠ 0 then XmemMarkersDISABLE else mask
    else XmemMarkersDISABLE
  let mask := mask &&& XmemMarkersALL
  if mask &&& XmemMarkersCHECKSUM ≠ 0 ∧ mask &&& XmemMarkersATOMIC = 0 then
    mask &&& ~~~XmemMarkersCHECKSUM
  else mask

def xmemSetMarkersMask (lib : XmemLib) (mask : U32) : XmemLib :=
  if cleanMask mask ≠ 0 then { lib with markersMask := cleanMask mask } else lib

/-! ## The checksum -/

def BASE : Nat := 65521
def NMAX : Nat := 5552

/-- `DO1()` over the bytes of one block. -/
def adlerBlock (s : Nat × Nat) (k : List Nat) : Nat × Nat :=
  k.foldl (fun s byte => (s.1 + byte, s.2 + (s.1 + byte))) s

def zlibAdler32 (adler : Nat) : Option (List Nat) → Nat
  | none => 1
  | some buf =>
    let s := (buf.toChunks NMAX).foldl
      (fun s k => ((adlerBlock s k).1 % BASE, (adlerBlock s k).2 % BASE))
      (adler &&& 0xffff, (adler >>> 16) &&& 0xffff)
    (s.2 <<< 16) ||| s.1

/-- The bytes of an element, the low one first. -/
def bytes (x : U32) : List Nat :=
  (List.range 4).map fun i => (x >>> (8 * i)).toNat % 256

/-- The length is passed on as an `unsigned int`. -/
def calcAdler32 (pubBuf : List U32) (pubElems : Nat) : Nat :=
  let adler := zlibAdler32 0 none
  zlibAdler32 adler (some ((pubBuf.flatMap bytes).take (pubElems * 4 % 2 ^ 32)))

theorem adlerBlocks_lt {ks : List (List Nat)} {s : Nat × Nat}
    (h : s.1 < 2 ^ 16 ∧ s.2 < 2 ^ 16) :
    let s' := ks.foldl
      (fun s k => ((adlerBlock s k).1 % BASE, (adlerBlock s k).2 % BASE)) s
    s'.1 < 2 ^ 16 ∧ s'.2 < 2 ^ 16 := by
  induction ks generalizing s with
  | nil => exact h
  | cons k ks ih =>
    have hmod : ∀ x, x % BASE < 2 ^ 16 := fun x =>
      Nat.lt_trans (Nat.mod_lt x (by decide)) (by decide)
    exact ih ⟨hmod _, hmod _⟩

theorem zlibAdler32_lt {adler : Nat} {buf : List Nat} :
    zlibAdler32 adler (some buf) < 2 ^ 32 := by
  have hlow : ∀ x, x &&& 0xffff < 2 ^ 16 := fun x =>
    Nat.lt_succ_of_le Nat.and_le_right
  obtain ⟨h1, h2⟩ := @adlerBlocks_lt (buf.toChunks NMAX)
    (adler &&& 0xffff, (adler >>> 16) &&& 0xffff)
    ⟨hlow adler, hlow (adler >>> 16)⟩
  refine Nat.or_lt_two_pow ?_ (Nat.lt_trans h1 (by decide))
  rw [Nat.shiftLeft_eq]
  exact Nat.mul_lt_mul_of_pos_right h2 (by decide)

theorem toNat_calcAdler32 {buf : List U32} {n : Nat} :
    (BitVec.ofNat 32 (calcAdler32 buf n)).toNat = calcAdler32 buf n := by
  rw [BitVec.toNat_ofNat, Nat.mod_eq_of_lt]
  exact zlibAdler32_lt

/-! ## Offsets -/

def XMEM_H_ELEMS : Nat := 3
def XMEM_F_ELEMS : Nat := 1
def XMEM_HF_ELEMS : Nat := 4

structure Header where
  val : U32
  checksum : U32
  size : U32

def Header.elems (h : Header) : List U32 := [h.val, h.checksum, h.size]

/-- A header as it lies in memory from `a` on. -/
def headerAt (cells : Nat → U32) (a : Nat) : Header :=
  ⟨cells a, cells (a + 1), cells (a + 2)⟩

variable (lib : XmemLib)

def hEloff (pubEloff : Nat) : Nat := pubEloff

def physEloff (pubEloff : Nat) : Nat :=
  if lib.set XmemMarkersENABLE then pubEloff + XMEM_H_ELEMS else pubEloff

def fEloff (pubElems pubEloff : Nat) : Nat := physEloff lib pubEloff + pubElems

/-- The elements of a table that has room for `pubElems` of its users. -/
def privElems (pubElems : Nat) : Nat :=
  if lib.set XmemMarkersENABLE then pubElems + XMEM_HF_ELEMS else pubElems

/-! ## The back end and the surroundings -/

/-- `routines.SendTable()` -/
def routinesSendTable (buf : List U32) (offset : Nat) : Prog U32 Unit :=
  .writeMany offset buf

/-- `routines.RecvTable()` -/
def routinesRecvTable (elems offset : Nat) : Prog U32 (List U32) :=
  .readMany offset elems

structure Surroundings where
  rand : U32
  stack : Header
  heap : Nat → U32
  malloc : Bool

/-- The bounce buffer: its size, the heap from its beginning on, and whether
all accesses so far were inside it. -/
structure Bounce where
  size : Nat
  cells : Nat → U32
  inside : Bool := true

namespace Bounce

def access (b : Bounce) (i elems : Nat) : Bounce :=
  { b with inside := b.inside && decide (i + elems ≤ b.size) }

def copyIn (b : Bounce) (i : Nat) (l : List U32) : Bounce :=
  { b.access i l.length with cells := Prog.lay b.cells i l }

def copyOut (b : Bounce) (i elems : Nat) : List U32 :=
  (List.range' i elems).map b.cells

end Bounce

/-- What a send returns, and whether it stayed inside its bounce buffer. -/
structure Sent where
  err : XmemError
  inside : Bool := true

/-- What a receive returns, what it left in the caller's buffer, and whether it
stayed inside its bounce buffer. -/
structure Received where
  err : XmemError
  buf : Option (List U32) := none
  inside : Bool := true
  deriving DecidableEq

/-! ## The markers -/

def evaluateHf (header : Header) (footer : U32) (pubElems : Nat)
    (pubBuf : Option (List U32)) : XmemError :=
  if header.val ≠ footer then .incoherentMarkers
  else
    match pubBuf with
    | none => .success
    | some buf =>
      if lib.set XmemMarkersCHECKSUM ∧
          header.checksum.toNat ≠ calcAdler32 buf pubElems then .checksum
      else .success

def checkMarkers (pubElems pubEloff : Nat) : Prog U32 XmemError :=
  if lib.set XmemMarkersDISABLE then pure .success
  else do
    let header ← routinesRecvTable XMEM_H_ELEMS (hEloff pubEloff)
    let footer ← routinesRecvTable XMEM_F_ELEMS (fEloff lib pubElems pubEloff)
    pure (evaluateHf lib (headerAt (header.getD · 0) 0) (footer.getD 0 0)
      pubElems none)

/-- The header, with what it does not set as it was, and the footer. -/
def fillHf (randval : U32) (header : Header) (pubElems : Nat)
    (pubBuf : Option (List U32)) : Header × U32 :=
  let header := { header with
    val := randval, size := BitVec.ofNat 32 (pubElems * 4) }
  match pubBuf with
  | none => (header, randval)
  | some buf =>
    if lib.set XmemMarkersCHECKSUM then
      ({ header with checksum := BitVec.ofNat 32 (calcAdler32 buf pubElems) },
        randval)
    else (header, randval)

/-! ## Sending and receiving -/

def sendTableAtomic (sur : Surroundings) (buf : List U32) (pubEloff : Nat) :
    Prog U32 Sent :=
  let pubElems := buf.length
  let priv := pubElems + XMEM_HF_ELEMS
  if sur.malloc then do
    let bounce : Bounce := { size := priv, cells := sur.heap }
    let bounce := bounce.copyIn XMEM_H_ELEMS buf
    let (header, footer) := fillHf lib sur.rand (headerAt bounce.cells 0)
      pubElems (some (bounce.copyOut XMEM_H_ELEMS pubElems))
    let bounce := bounce.copyIn 0 header.elems
    let bounce := bounce.copyIn (fEloff lib pubElems pubEloff) [footer]
    routinesSendTable (bounce.copyOut 0 priv) (hEloff pubEloff)
    pure { err := .success, inside := bounce.inside }
  else pure { err := .enomem }

def sendTable (sur : Surroundings) (buf : List U32) (pubEloff : Nat) :
    Prog U32 Sent := do
  let pubElems := buf.length
  let (header, footer) := fillHf lib sur.rand sur.stack pubElems none
  routinesSendTable header.elems (hEloff pubEloff)
  routinesSendTable [footer] (fEloff lib pubElems pubEloff)
  routinesSendTable buf (physEloff lib pubEloff)
  pure { err := .success }

def receiveTableAtomic (sur : Surroundings) (pubElems pubEloff : Nat) :
    Prog U32 Received :=
  let priv := pubElems + XMEM_HF_ELEMS
  if sur.malloc then do
    let bounce : Bounce := { size := priv, cells := sur.heap }
    let table ← routinesRecvTable priv (hEloff pubEloff)
    let bounce := bounce.copyIn 0 table
    let bounce := bounce.access (fEloff lib pubElems pubEloff) XMEM_F_ELEMS
    let pub := bounce.copyOut XMEM_H_ELEMS pubElems
    let err := evaluateHf lib (headerAt bounce.cells 0)
      (bounce.cells (fEloff lib pubElems pubEloff)) pubElems (some pub)
    if err ≠ .success then pure { err := err, inside := bounce.inside }
    else pure { err := .success, buf := some pub, inside := bounce.inside }
  else pure { err := .enomem }

def xmemSendTable (sur : Surroundings) (buf : List U32) (offset : Nat) :
    Prog U32 Sent :=
  if lib.libinitialized then
    if lib.set XmemMarkersDISABLE then do
      routinesSendTable buf (physEloff lib offset)
      pure { err := .success }
    else if lib.set XmemMarkersATOMIC then sendTableAtomic lib sur buf offset
    else sendTable lib sur buf offset
  else pure { err := .notInitialized }

def xmemRecvTable (sur : Surroundings) (elems offset : Nat) :
    Prog U32 Received :=
  if lib.libinitialized then
    if lib.set XmemMarkersATOMIC then receiveTableAtomic lib sur elems offset
    else do
      let err ← checkMarkers lib elems offset
      if err ≠ .success then pure { err := err }
      else
        let buf ← routinesRecvTable elems (physEloff lib offset)
        pure { err := .success, buf := some buf }
  else pure { err := .notInitialized }

end Coht.Xmem
