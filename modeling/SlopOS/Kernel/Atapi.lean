import SlopOS.Kernel.Util
import SlopOS.Support.PortBus
/-!
# `atapi.c` and `storage.c`

The CD driver and the table of block devices, over any device behind the I/O ports.  A function
takes and returns the state of that device; one that fills a buffer also takes the memory.
-/

namespace SlopOS.Kernel

open SlopOS.Support SlopOS.Support.PortBus

structure World (σ : Type) where
  dev : σ
  mem : ByteMem.Mem

structure AtapiDevice where
  ioBase : U16
  ctrlBase : U16
  slave : U8
deriving Repr, DecidableEq

/-- `block_read_fn` for a context that holds an `α`, behind a pointer that may be null. -/
abbrev BlockReadFn (α σ : Type) := Option α → U32 → U32 → U32 → World σ → Bool × World σ

structure BlockDevice (α σ : Type) where
  id : Int
  name : CStr
  sectorSize : U32
  read : BlockReadFn α σ
  ctx : Option α

abbrev BlockDevices (α σ : Type) := List (BlockDevice α σ)

def ataPrimaryIo : U16 := 0x1F0
def ataPrimaryCtrl : U16 := 0x3F6
def ataSecondaryIo : U16 := 0x170
def ataSecondaryCtrl : U16 := 0x376

def ataRegData : U16 := 0
def ataRegFeatures : U16 := 1
def ataRegSeccount0 : U16 := 2
def ataRegLba0 : U16 := 3
def ataRegLba1 : U16 := 4
def ataRegLba2 : U16 := 5
def ataRegHddevsel : U16 := 6
def ataRegCommand : U16 := 7
def ataRegStatus : U16 := 7

def ataSrErr : U8 := 0x01
def ataSrDrq : U8 := 0x08
def ataSrDf : U8 := 0x20
def ataSrBsy : U8 := 0x80

def ataCmdIdentify : U8 := 0xEC
def ataCmdIdentifyPacket : U8 := 0xA1
def ataCmdPacket : U8 := 0xA0

def atapiSigLba1 : U8 := 0x14
def atapiSigLba2 : U8 := 0xEB
def atapiSectorSize : U32 := 2048

def ataTimeout : Nat := 200000

def maxBlockDevices : Nat := 8

section Driver

variable {σ : Type} (bus : Bus σ)

def ataIoWait (ctrlBase : U16) (s : σ) : σ :=
  let s := (bus.inb s (ctrlBase + 0)).2
  let s := (bus.inb s (ctrlBase + 0)).2
  let s := (bus.inb s (ctrlBase + 0)).2
  (bus.inb s (ctrlBase + 0)).2

def notBusy (s : U8) : Option Bool := if s &&& ataSrBsy = 0 then some true else none

def ataWaitNotBusy (ioBase : U16) (timeout : Nat) (s : σ) : Bool × σ :=
  poll bus notBusy (ioBase + ataRegStatus) timeout s

def drqOrError (s : U8) : Option Bool :=
  if s &&& ataSrBsy = 0 then
    if s &&& ataSrDrq ≠ 0 then some true
    else if s &&& (ataSrErr ||| ataSrDf) ≠ 0 then some false
    else none
  else none

def ataWaitDrq (ioBase : U16) (timeout : Nat) (s : σ) : Bool × σ :=
  poll bus drqOrError (ioBase + ataRegStatus) timeout s

def ataSelectDrive (ioBase : U16) (slave : U8) (s : σ) : σ :=
  bus.outb s (ioBase + ataRegHddevsel) (0xA0 ||| if slave ≠ 0 then 0x10 else 0)

def atapiIdentify (ioBase ctrlBase : U16) (slave : U8) (s : σ) : Bool × σ :=
  let s := ataIoWait bus ctrlBase (ataSelectDrive bus ioBase slave s)
  let s := bus.outb s (ioBase + ataRegSeccount0) 0
  let s := bus.outb s (ioBase + ataRegLba0) 0
  let s := bus.outb s (ioBase + ataRegLba1) 0
  let s := bus.outb s (ioBase + ataRegLba2) 0
  let s := bus.outb s (ioBase + ataRegCommand) ataCmdIdentify
  let status := bus.inb s (ioBase + ataRegStatus)
  if status.1 = 0 then (false, status.2)
  else
    let ready := ataWaitNotBusy bus ioBase ataTimeout status.2
    if ready.1 = false then ready
    else
      let lba1 := bus.inb ready.2 (ioBase + ataRegLba1)
      let lba2 := bus.inb lba1.2 (ioBase + ataRegLba2)
      if lba1.1 ≠ atapiSigLba1 ∨ lba2.1 ≠ atapiSigLba2 then (false, lba2.2)
      else
        let s := bus.outb lba2.2 (ioBase + ataRegCommand) ataCmdIdentifyPacket
        let drq := ataWaitDrq bus ioBase ataTimeout s
        if drq.1 = false then drq
        else (true, (readWords bus (ioBase + ataRegData) 256 drq.2).2)

def readPacket (curLba : U32) : List U8 :=
  [0xA8, 0, ((curLba >>> 24) &&& 0xFF).setWidth 8, ((curLba >>> 16) &&& 0xFF).setWidth 8,
    ((curLba >>> 8) &&& 0xFF).setWidth 8, (curLba &&& 0xFF).setWidth 8, 0, 0, 0, 1, 0, 0]

def packetWord (packet : List U8) (i : Nat) : U16 :=
  (packet.getD (i * 2) 0).setWidth 16 ||| (packet.getD (i * 2 + 1) 0).setWidth 16 <<< 8

/-- The words of `readPacket` in the order they are written. -/
def packetWords (curLba : U32) : List U16 := (List.range 6).map (packetWord (readPacket curLba))

/-- The data phase from word `i` on, with `n` words to go. -/
def dataLoop (ioBase : U16) (dst block : U32) : Nat → Nat → World σ → World σ
  | _, 0, w => w
  | i, n + 1, w =>
    let r := bus.inw w.dev (ioBase + ataRegData)
    let at0 := dst + (block * atapiSectorSize + BitVec.ofNat 32 (i * 2))
    let m := Function.update w.mem at0 ((r.1 &&& 0xFF).setWidth 8)
    let m := Function.update m (at0 + 1) (((r.1 >>> 8) &&& 0xFF).setWidth 8)
    dataLoop ioBase dst block (i + 1) n ⟨r.2, m⟩

def atapiReadBlock (dev : AtapiDevice) (lba dst block : U32) (w : World σ) : Bool × World σ :=
  let curLba := lba + block
  let s := ataIoWait bus dev.ctrlBase (ataSelectDrive bus dev.ioBase dev.slave w.dev)
  let ready := ataWaitNotBusy bus dev.ioBase ataTimeout s
  if ready.1 = false then (false, ⟨ready.2, w.mem⟩)
  else
    let s := bus.outb ready.2 (dev.ioBase + ataRegFeatures) 0
    let s := bus.outb s (dev.ioBase + ataRegLba1) ((atapiSectorSize &&& 0xFF).setWidth 8)
    let s := bus.outb s (dev.ioBase + ataRegLba2) (((atapiSectorSize >>> 8) &&& 0xFF).setWidth 8)
    let s := bus.outb s (dev.ioBase + ataRegCommand) ataCmdPacket
    let asked := ataWaitDrq bus dev.ioBase ataTimeout s
    if asked.1 = false then (false, ⟨asked.2, w.mem⟩)
    else
      let s := writeWords bus (dev.ioBase + ataRegData) (packetWords curLba) asked.2
      let answered := ataWaitDrq bus dev.ioBase ataTimeout s
      if answered.1 = false then (false, ⟨answered.2, w.mem⟩)
      else
        let w := dataLoop bus dev.ioBase dst block 0 1024 ⟨answered.2, w.mem⟩
        let done := ataWaitNotBusy bus dev.ioBase ataTimeout w.dev
        if done.1 = false then (false, ⟨done.2, w.mem⟩)
        else
          let status := bus.inb done.2 (dev.ioBase + ataRegStatus)
          (decide (status.1 &&& (ataSrErr ||| ataSrDf) = 0), ⟨status.2, w.mem⟩)

/-- The loop over the blocks, with `n` of them to go. -/
def readBlocksLoop (dev : AtapiDevice) (lba dst : U32) : Nat → Nat → World σ → Bool × World σ
  | _, 0, w => (true, w)
  | block, n + 1, w =>
    let r := atapiReadBlock bus dev lba dst (BitVec.ofNat 32 block) w
    if r.1 = false then r else readBlocksLoop dev lba dst (block + 1) n r.2

def atapiReadBlocks : BlockReadFn AtapiDevice σ := fun ctx lba count outBuf w =>
  match ctx with
  | none => (false, w)
  | some dev =>
    if outBuf = 0 ∨ count = 0 then (false, w)
    else readBlocksLoop bus dev lba outBuf 0 count.toNat w

def candidates : List AtapiDevice :=
  [⟨ataPrimaryIo, ataPrimaryCtrl, 0⟩, ⟨ataPrimaryIo, ataPrimaryCtrl, 1⟩,
    ⟨ataSecondaryIo, ataSecondaryCtrl, 0⟩, ⟨ataSecondaryIo, ataSecondaryCtrl, 1⟩]

end Driver

section Storage

variable {α σ : Type}

def copyName : CStr → Nat → CStr
  | c :: src, n + 2 => c :: copyName src (n + 1)
  | _, _ => []

def storageRegisterDevice (name : Option CStr) (sectorSize : U32)
    (read : Option (BlockReadFn α σ)) (ctx : Option α) (devices : BlockDevices α σ) :
    Int × BlockDevices α σ :=
  match name, read with
  | some name, some read =>
    if sectorSize = 0 ∨ maxBlockDevices ≤ devices.length then (-1, devices)
    else
      (devices.length, devices ++ [⟨devices.length, copyName name 16, sectorSize, read, ctx⟩])
  | _, _ => (-1, devices)

def storageGetDevice (devices : BlockDevices α σ) (id : Int) : Option (BlockDevice α σ) :=
  if id < 0 ∨ devices.length ≤ id.toNat then none else devices[id.toNat]?

def storageFindDevice (devices : BlockDevices α σ) (name : CStr) : Option (BlockDevice α σ) :=
  devices.find? fun dev => strEq dev.name name

def storageRead (devices : BlockDevices α σ) (deviceId : Int) (lba count outBuf : U32)
    (w : World σ) : Bool × World σ :=
  match storageGetDevice devices deviceId with
  | none => (false, w)
  | some dev => if outBuf = 0 ∨ count = 0 then (false, w) else dev.read dev.ctx lba count outBuf w

end Storage

section Probe

variable {σ : Type} (bus : Bus σ)

/-- The loop over the candidates.  `cd0_dev` is written here and nowhere else, so the device table
keeps its value in place of its address. -/
def probeLoop (devices : BlockDevices AtapiDevice σ) :
    List AtapiDevice → σ → (Bool × BlockDevices AtapiDevice σ) × σ
  | [], s => ((false, devices), s)
  | c :: cs, s =>
    let r := atapiIdentify bus c.ioBase c.ctrlBase c.slave s
    if r.1 then
      let reg := storageRegisterDevice (some (cstr "cd0")) atapiSectorSize
        (some (atapiReadBlocks bus)) (some c) devices
      ((decide (0 ≤ reg.1), reg.2), r.2)
    else probeLoop devices cs r.2

def atapiProbeAndRegister (devices : BlockDevices AtapiDevice σ) (s : σ) :
    (Bool × BlockDevices AtapiDevice σ) × σ :=
  probeLoop bus devices candidates s

/-- `storage_init`, and `device_count` after it as the length of the table. -/
def storageInit (s : σ) : BlockDevices AtapiDevice σ × σ :=
  let r := atapiProbeAndRegister bus [] s
  (r.1.2, r.2)

end Probe

end SlopOS.Kernel
