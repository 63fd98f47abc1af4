import EspAmp.SysInfoInvariant
import EspAmp.Virtqueue

/-!
# Queue creation in shared memory

`esp_amp_queue_main_init` and `esp_amp_rpmsg_main_init_by_id` obtain shared
memory from the SysInfo pools and lay out config structs, descriptor tables and
item buffers in it. All sizes are computed in `size_t` and then passed through a
parameter of sixteen bits. The value of `__builtin_clz` at zero, which the
language leaves open, is a parameter.

A result lists the grants made by the call and the areas it initialized; both are
ghosts.
-/
namespace EspAmp.QueueMemory
open ByteMemory SysInfo Virtqueue

/-- `get_aligned_size`. -/
def getAlignedSize (size : U16) : U16 :=
  (if size &&& 3#16 ≠ 0 then (size >>> 2) + 1 else size >>> 2) <<< 2

def builtinClz (clzZero : ℕ) (x : U32) : ℕ := if x = 0 then clzZero else x.clz.toNat

/-- `get_power_len`. -/
def getPowerLen (clzZero : ℕ) (len : U16) : U16 :=
  if len = 0 ∨ 0x8000#16 < len then 0
  else (1#32 <<< (32 - builtinClz clzZero ((len - 1).setWidth 32))).setWidth 16

/-- Build options that choose the layout. -/
structure Build where
  mem : MemConfig
  lightSleep : Bool
  clzZero : ℕ

/-- The arguments of one `esp_amp_queue_init_buffer` call. -/
structure QueueArea where
  conf : U32
  desc : U32
  buffer : U32
  len : U16
  itemSize : U16
deriving DecidableEq, Repr

namespace QueueArea
variable (a : QueueArea)

def confRegion : U32 × ℕ := (a.conf, 12)
def descRegion : U32 × ℕ := (a.desc, 8 * a.len.toNat)
def items : List (U32 × ℕ) :=
  (List.range a.len.toNat).map fun i => (itemAddr a.buffer a.itemSize i, a.itemSize.toNat)

end QueueArea

/-- Everything the initialization of these areas writes or stores an address of. -/
def regions (areas : List QueueArea) : List (U32 × ℕ) :=
  areas.map QueueArea.confRegion ++ areas.map QueueArea.descRegion ++
    areas.flatMap QueueArea.items

section Memory

def queueSizeAt (m : Memory 32) (conf : U32) : U16 := word16 m conf
def maxItemSizeAt (m : Memory 32) (conf : U32) : U16 := word16 m (conf + 2#32)
def queueBufferAt (m : Memory 32) (conf : U32) : U32 := word32 m (conf + 4#32)
def queueDescAt (m : Memory 32) (conf : U32) : U32 := word32 m (conf + 8#32)

def confAt (m : Memory 32) (conf : U32) : QueueConf :=
  ⟨queueSizeAt m conf, maxItemSizeAt m conf, queueBufferAt m conf, queueDescAt m conf⟩

/-- Address of one entry of a descriptor table. -/
def descAddr (desc : U32) (i : ℕ) : U32 := desc + BitVec.ofNat 32 (8 * i)

def descAt (m : Memory 32) (desc : U32) (i : ℕ) : Desc :=
  ⟨word32 m (descAddr desc i), word16 m (descAddr desc i + 4#32),
    word16 m (descAddr desc i + 6#32)⟩

/-- The three stores of one loop iteration. The table pointer is read from the
config struct before each of them. -/
def storeDesc (m : Memory 32) (conf : U32) (i : ℕ) (buffer : U32) (itemSize : U16) : Memory 32 :=
  let m := write32 m (descAddr (queueDescAt m conf) i) buffer
  let m := write16 m (descAddr (queueDescAt m conf) i + 6#32) 0
  write16 m (descAddr (queueDescAt m conf) i + 4#32) itemSize

/-- The loop, with the bound read from the config struct each time. The index is
a sixteen-bit counter, so it makes less than `2 ^ 16` rounds. -/
def initLoop (conf : U32) (itemSize : U16) : ℕ → ℕ → U32 → Memory 32 → Memory 32
  | 0, _, _, m => m
  | fuel + 1, i, buffer, m =>
      if i < (queueSizeAt m conf).toNat then
        initLoop conf itemSize fuel (i + 1) (buffer + itemSize.setWidth 32)
          (storeDesc m conf i buffer itemSize)
      else m

/-- `esp_amp_queue_init_buffer`. -/
def initBuffer (a : QueueArea) (m : Memory 32) : Memory 32 :=
  let m := write16 m a.conf a.len
  let m := write16 m (a.conf + 2#32) a.itemSize
  let m := write32 m (a.conf + 8#32) a.desc
  let m := write32 m (a.conf + 4#32) a.buffer
  initLoop a.conf a.itemSize (2 ^ 16) 0 a.buffer m

end Memory

/-- Result of an initialization call. -/
structure InitResult where
  ret : Int
  mem : Memory 32
  queues : List Queue := []
  grants : List (Cap × Grant) := []
  areas : List QueueArea := []

/-- `esp_amp_sys_info_alloc` with a `size_t` argument; the call returns `fail`
when it yields a null pointer. -/
def allocOr (b : Build) (fuel : ℕ) (m : Memory 32) (id : U16) (size : U32) (cap : Cap) (fail : Int)
    (k : U32 → Memory 32 → Option InitResult) : Option InitResult :=
  match sysInfoAlloc b.mem fuel m id (size.setWidth 16) cap with
  | none => none
  | some (buffer, m) =>
      if buffer = 0 then some { ret := fail, mem := m }
      else (k buffer m).map fun r =>
        { r with grants := (cap, ⟨id, size.setWidth 16, buffer⟩) :: r.grants }

/-- The common tail of `esp_amp_queue_main_init`. -/
def finishQueue (a : QueueArea) (cbFunc : Option QueueCb) (privData : U32) (isMaster : Bool)
    (m : Memory 32) : InitResult :=
  let m := initBuffer a m
  { ret := espOk, mem := m, areas := [a]
    queues := [queueCreate (confAt m a.conf) cbFunc privData isMaster] }

/-- `esp_amp_queue_main_init`. -/
def queueMainInit (b : Build) (fuel : ℕ) (m : Memory 32) (queueLen queueItemSize : U16)
    (cbFunc : Option QueueCb) (privData : U32) (isMaster : Bool) (sysinfoId : U16) :
    Option InitResult :=
  let len := getPowerLen b.clzZero queueLen
  let item := getAlignedSize queueItemSize
  let descBytes : U32 := 8#32 * len.setWidth 32
  let itemBytes : U32 := item.setWidth 32 * len.setWidth 32
  if len = 0 ∨ item = 0 then some { ret := espErrInvalidArg, mem := m }
  else if b.lightSleep && isMaster then
    allocOr b fuel m sysinfoId (12#32 + itemBytes) .hp espErrNoMem fun hp m =>
      allocOr b fuel m sysinfoId descBytes .rtc espErrNoMem fun rtc m =>
        some (finishQueue ⟨hp, rtc, hp + 12#32, len, item⟩ cbFunc privData isMaster m)
  else
    allocOr b fuel m sysinfoId (12#32 + descBytes + itemBytes) .hp espErrNoMem fun vq m =>
      some (finishQueue ⟨vq, vq + 12#32, vq + 12#32 + descBytes, len, item⟩ cbFunc privData
        isMaster m)

/-- `__esp_amp_rpmsg_tx_notify` and `__esp_amp_rpmsg_rx_callback` as values of a
handle: both always return zero. -/
def rpmsgTxNotify : QueueCb := fun _ => 0
def rpmsgRxCallback : QueueCb := fun _ => 0

def finishRpmsg (tx rx : QueueArea) (notify poll : Bool) (rpmsgDev : U32) (m : Memory 32) :
    InitResult :=
  let m := initBuffer rx (initBuffer tx m)
  { ret := 0, mem := m, areas := [tx, rx]
    queues :=
      [queueCreate (confAt m tx.conf) (if notify then some rpmsgTxNotify else none) rpmsgDev true,
        queueCreate (confAt m rx.conf) (if poll then none else some rpmsgRxCallback) rpmsgDev
          false] }

/-- `esp_amp_rpmsg_main_init_by_id`. -/
def rpmsgMainInitById (b : Build) (fuel : ℕ) (m : Memory 32) (rpmsgDev : U32)
    (queueLen queueItemSize : U16) (notify poll : Bool) (sysinfoId : U16) : Option InitResult :=
  let len := getPowerLen b.clzZero queueLen
  let item := getAlignedSize queueItemSize
  let descBytes : U32 := 8#32 * len.setWidth 32
  let itemBytes : U32 := item.setWidth 32 * len.setWidth 32
  if len = 0 ∨ item = 0 then some { ret := -1, mem := m }
  else if b.lightSleep then
    allocOr b fuel m sysinfoId (2#32 * (12#32 + itemBytes) + descBytes) .hp (-1) fun hp m =>
      let rxDesc := hp + 12#32 + 12#32
      let txBuffer := rxDesc + descBytes
      let rxBuffer := txBuffer + itemBytes
      allocOr b fuel m sysinfoId descBytes .rtc (-1) fun rtc m =>
        some (finishRpmsg ⟨hp, rtc, txBuffer, len, item⟩ ⟨hp + 12#32, rxDesc, rxBuffer, len, item⟩
          notify poll rpmsgDev m)
  else
    allocOr b fuel m sysinfoId (2#32 * (12#32 + descBytes + itemBytes)) .hp (-1) fun vq m =>
      let txDesc := vq + 12#32 + 12#32
      let rxDesc := txDesc + descBytes
      let txBuffer := rxDesc + descBytes
      let rxBuffer := txBuffer + itemBytes
      some (finishRpmsg ⟨vq, txDesc, txBuffer, len, item⟩ ⟨vq + 12#32, rxDesc, rxBuffer, len, item⟩
        notify poll rpmsgDev m)

end EspAmp.QueueMemory
