import Net80211.Lib.Bytes
import Net80211.Lib.Run

/-!
# Aligned memory

`bus_dmamem_alloc` and `bus_dmamem_free` of `port/bus/pcie/freertos/pcie_freertos.c`, the same in
the port to embox, and `sysmemalign` of `port/osal/freertos/osal_freertos.c` with the two functions
of `port/bus/usb/cherryusb/usbdi_compat.c` that allocate and release transfers. All take a larger
block from the heap and hand out an aligned address inside. The first pair keeps the address of the
block in the word below, the second does not keep it.

Addresses and sizes are `uintptr_t` and wrap.
-/

namespace Net80211.Osal

open Lib

/-- `x & ~(a - 1)`. -/
def alignDown (x a : BitVec 64) : BitVec 64 := x &&& ~~~(a - 1)

/-! ## DMA memory -/

/-- `struct bus_dma_segment`. -/
structure DmaSegment where
  dsAddr : BitVec 64
  dsLen : BitVec 64

/-- The octets of a pointer in memory. -/
def ptrBytes (p : BitVec 64) : List UInt8 :=
  (List.range 8).map fun i => UInt8.ofNat (p.toNat / 256 ^ i)

def ptrOf (bs : List UInt8) : BitVec 64 :=
  BitVec.ofNat 64 (bs.foldr (fun b n => b.toNat + 256 * n) 0)

def dmaAlignment (alignment : BitVec 64) : BitVec 64 := if alignment < 64 then 64 else alignment

def dmaSize (size : BitVec 64) : BitVec 64 := alignDown (size + 63) 64

/-- `bus_dmamem_alloc`: the segment and the memory. -/
def busDmamemAlloc (kmalloc : BitVec 64 → Option (BitVec 64)) (mem : Nat → UInt8)
    (size alignment : BitVec 64) : Option (DmaSegment × (Nat → UInt8)) :=
  let alignment := dmaAlignment alignment
  let size := dmaSize size
  match kmalloc (size + alignment) with
  | none => none
  | some raw =>
    let va := alignDown (raw + alignment) alignment
    some (⟨va, size⟩, store mem (va - 8).toNat (ptrBytes raw))

/-- `bus_dmamem_free`: what it passes to `wlan_kfree`. -/
def busDmamemFree (mem : Nat → UInt8) (seg : DmaSegment) : Option (BitVec 64) :=
  if seg.dsAddr ≠ 0 then some (ptrOf (window mem (seg.dsAddr - 8).toNat 8)) else none

/-! ## Transfers -/

/-- A transfer that was created and not destroyed: its address, the buffer (0 for none) and its
size, and the block of the buffer. -/
structure XferMem where
  xfer : BitVec 64
  dmaBuf : BitVec 64
  size : BitVec 64
  raw : BitVec 64
  rawLen : BitVec 64
  deriving DecidableEq

/-- The blocks that `pvPortMalloc` returned and that were not freed since, and the pointers passed
to `vPortFree`, with whether they were such a block. -/
structure XferHeap where
  live : List (BitVec 64)
  xfers : List XferMem
  frees : List (BitVec 64 × Bool)

/-- The heap returns the addresses `xfer` and `raw`, or `none`. -/
inductive XferOp where
  | create (size : BitVec 64) (xfer raw : Option (BitVec 64))
  | destroy (x : XferMem)

def vPortFree (s : XferHeap) (p : BitVec 64) : XferHeap :=
  { s with live := s.live.erase p, frees := (p, decide (p ∈ s.live)) :: s.frees }

/-- `sysmemalign` for a block at `raw`: the size of the block and the address handed out. -/
def sysmemalign (align size raw : BitVec 64) : BitVec 64 × BitVec 64 :=
  let align := if align = 0 then 1 else align
  (size + align, alignDown (raw + align - 1) align)

def usbdCreateXfer (align : BitVec 64) (s : XferHeap) (size : BitVec 64)
    (xfer raw : Option (BitVec 64)) : XferHeap :=
  match xfer with
  | none => s
  | some p =>
    let s := { s with live := p :: s.live }
    if size = 0 then { s with xfers := ⟨p, 0, 0, 0, 0⟩ :: s.xfers }
    else
      match raw with
      | none => vPortFree s p
      | some raw =>
        let s := { s with live := raw :: s.live }
        let (rawLen, dmaBuf) := sysmemalign align size raw
        if dmaBuf = 0 then vPortFree s p
        else { s with xfers := ⟨p, dmaBuf, size, raw, rawLen⟩ :: s.xfers }

def usbdDestroyXfer (s : XferHeap) (x : XferMem) : XferHeap :=
  let s := { s with xfers := s.xfers.erase x }
  vPortFree (if x.dmaBuf ≠ 0 then vPortFree s x.dmaBuf else s) x.xfer

def xferStep (align : BitVec 64) (s : XferHeap) : XferOp → Option XferHeap
  | .create size xfer raw => some (usbdCreateXfer align s size xfer raw)
  | .destroy x => if x ∈ s.xfers then some (usbdDestroyXfer s x) else none

end Net80211.Osal
