import X86Kernel.Core
import X86Kernel.Lib.Outcome
import X86Kernel.Lib.Unfolding
import Mathlib.Data.Fintype.Card

/- The enumeration of the PCI functions (`firmware/pci/pci.c`).

   `scan_bus` lists the functions of a bus and goes on with the bus behind each bridge as
   soon as it is met. It keeps no record of the buses it was on: that each of them is there
   once is left to the numbers that the firmware gave the bridges. What is proved: the scan
   returns, and lists every function on a bus that bridges lead to once, exactly if no
   bridge leads back to bus 0, no two of them lead to one bus that has a function, and every
   function has a header type that is known (`scan_lists_once_iff`).

   The configuration space is what `inl` returns for each address that is written, and does
   not change. `kmalloc` gives every node; without a bridge that leads back, there are at
   most 2^24 functions. `amount` is never read and left out.

   Correspondence (C ↔ Lean):
     `pci_write_address`       ↔ `pciAddress`
     `pci_config_read_byte`, `pci_config_read_word`, `pci_config_read_dword`
                               ↔ `pciConfigReadByte`, `pciConfigReadWord`, `pciConfigReadDword`
     `pci_driver_t`, `pci_device_t`, `pci_bus_t` ↔ `PciDriver`, `PciDevice`, `PciBus`;
                                 the lists have their first node first
     `get_vendor_id`, `get_header_type`, `is_multifunction`
                               ↔ `getVendorId`, `getHeaderType`, `isMultifunction`
     `devs_metadata`           ↔ `devsMetadata`
     `fetch_func_header`       ↔ `fetchFuncHeader`
     `fetch_dev_name`          ↔ `fetchDevName`
     `make_func_node`          ↔ `makeFuncNode`
     `scan_function`, `scan_device`, `scan_bus` ↔ `scanFunction`, `scanDevice`, `scanBus`
     `init_pci`                ↔ `initPci` -/
namespace X86Kernel.Pci
open X86Kernel.Lib

abbrev ConfigSpace := UInt32 → UInt32

/-- `DEVS_COUNT` -/
def devsCount : Nat := 32

/-- `FUNCS_COUNT` -/
def funcsCount : Nat := 8

def invalidVendorId : UInt16 := 0xFFFF
def offsetVendorId : UInt8 := 0
def offsetHeaderTypeId : UInt8 := 0xE

def pciAddress (bus slot func offset : UInt8) : UInt32 :=
  (1 : UInt32) <<< 31 ||| bus.toUInt32 <<< 16 ||| slot.toUInt32 <<< 11 ||| func.toUInt32 <<< 8 |||
    (offset &&& 0xFC).toUInt32

def pciConfigReadByte (cfg : ConfigSpace) (bus slot func offset : UInt8) : UInt8 :=
  (cfg (pciAddress bus slot func offset) >>> ((offset &&& 3) * 8).toUInt32).toUInt8

def pciConfigReadWord (cfg : ConfigSpace) (bus slot func offset : UInt8) : UInt16 :=
  (cfg (pciAddress bus slot func offset) >>> ((offset &&& 2) * 8).toUInt32).toUInt16

def pciConfigReadDword (cfg : ConfigSpace) (bus slot func offset : UInt8) : UInt32 :=
  cfg (pciAddress bus slot func offset)

def getVendorId (cfg : ConfigSpace) (bus slot func : UInt8) : UInt16 :=
  pciConfigReadWord cfg bus slot func offsetVendorId

def getHeaderType (cfg : ConfigSpace) (bus slot func : UInt8) : UInt8 :=
  pciConfigReadByte cfg bus slot func offsetHeaderTypeId

def isMultifunction (cfg : ConfigSpace) (bus slot : UInt8) : Bool :=
  pciConfigReadByte cfg bus slot 0 offsetHeaderTypeId &&& 0x80 ≠ 0

/-! ## The lists -/

/-- `pci_driver_t`; the headers share their memory, which is kept as its words. -/
structure PciDriver where
  func : UInt8
  slot : UInt8
  bus : UInt8
  header : List UInt32
  deviceName : Option String
  deriving DecidableEq

structure PciDevice where
  slot : UInt8
  bus : UInt8
  funcs : List PciDriver

structure PciBus where
  bus : UInt8
  devs : List PciDevice

/-- A byte of the header. -/
def headerByte (header : List UInt32) (offset : Nat) : UInt8 :=
  (header.getD (offset / 4) 0 >>> UInt32.ofNat (offset % 4 * 8)).toUInt8

/-- `header.header_type` -/
def PciDriver.headerType (d : PciDriver) : UInt8 := headerByte d.header 0xE

/-- `header.class_code` -/
def PciDriver.classCode (d : PciDriver) : UInt8 := headerByte d.header 0xB

/-- `header.subclass_code` -/
def PciDriver.subclassCode (d : PciDriver) : UInt8 := headerByte d.header 0xA

/-- `pci_bridge_header.secondary_bus_number` -/
def PciDriver.secondaryBusNumber (d : PciDriver) : UInt8 := headerByte d.header 0x19

def pciHeaderGeneralDevice : UInt8 := 0
def pciHeaderPciBridge : UInt8 := 1
def pciHeaderCardbusBridge : UInt8 := 2

/-- The size of a header of some type, if the type is known. -/
def headerSize (headerType : UInt8) : Option Nat :=
  if headerType = pciHeaderGeneralDevice then some 64
  else if headerType = pciHeaderCardbusBridge then some 72
  else if headerType = pciHeaderPciBridge then some 64
  else none

/-- The loop of `fetch_func_header`. -/
def headerWords (cfg : ConfigSpace) (bus slot func : UInt8) (size : Nat) : List UInt32 :=
  (List.range (size / 4)).map fun i => pciConfigReadDword cfg bus slot func (UInt8.ofNat (4 * i))

def fetchFuncHeader (cfg : ConfigSpace) (node : PciDriver) : Kernel PciDriver :=
  let headerType := getHeaderType cfg node.bus node.slot node.func &&& 0x7F
  match headerSize headerType with
  | none => .error .abort
  | some size => do
    assert (size % 4 = 0)
    return { node with header := headerWords cfg node.bus node.slot node.func size }

structure DeviceMetadata where
  classCode : UInt8
  subclassCode : UInt8
  deviceName : String

def devsMetadata : List DeviceMetadata := [⟨0x01, 0x01, "IDE Controller"⟩]

def fetchDevName (node : PciDriver) : PciDriver :=
  devsMetadata.foldl (fun node m =>
    if m.classCode = node.classCode ∧ m.subclassCode = node.subclassCode then
      { node with deviceName := some m.deviceName }
    else node) { node with deviceName := none }

/-- The node that is made; it is in the list of its device already when it is filled. -/
def makeFuncNode (cfg : ConfigSpace) (dev : PciDevice) (func : UInt8) : Kernel PciDriver := do
  let node ← fetchFuncHeader cfg
    { func, slot := dev.slot, bus := dev.bus, header := [], deviceName := none }
  return fetchDevName node

/-- `push_func_node` -/
def PciDevice.push (dev : PciDevice) (node : PciDriver) : PciDevice :=
  { dev with funcs := node :: dev.funcs }

/-- `push_device_node` -/
def PciBus.push (node : PciBus) (dev : PciDevice) : PciBus := { node with devs := dev :: node.devs }

/-! ## The scan -/

def scanFunction (scanBus : UInt8 → List PciBus → Kernel (List PciBus)) (function : PciDriver)
    (pciLl : List PciBus) : Kernel (List PciBus) :=
  if function.headerType &&& 0x7F = pciHeaderPciBridge then
    scanBus function.secondaryBusNumber pciLl
  else .ok pciLl

/-- A function is made, put into its device, and what is behind it is scanned. -/
def addFunction (cfg : ConfigSpace) (scanBus : UInt8 → List PciBus → Kernel (List PciBus))
    (dev : PciDevice) (pciLl : List PciBus) (func : UInt8) : Kernel (PciDevice × List PciBus) := do
  let node ← makeFuncNode cfg dev func
  let pciLl ← scanFunction scanBus node pciLl
  return (dev.push node, pciLl)

/-- One turn of the loop of `scan_device`. -/
def scanDeviceTurn (cfg : ConfigSpace) (scanBus : UInt8 → List PciBus → Kernel (List PciBus))
    (s : PciDevice × List PciBus) (funcIndex : Nat) : Kernel (PciDevice × List PciBus) :=
  if getVendorId cfg s.1.bus s.1.slot (UInt8.ofNat funcIndex) = invalidVendorId then .ok s
  else addFunction cfg scanBus s.1 s.2 (UInt8.ofNat funcIndex)

def scanDevice (cfg : ConfigSpace) (scanBus : UInt8 → List PciBus → Kernel (List PciBus))
    (dev : PciDevice) (pciLl : List PciBus) : Kernel (PciDevice × List PciBus) :=
  if isMultifunction cfg dev.bus dev.slot = false then addFunction cfg scanBus dev pciLl 0
  else (List.range funcsCount).foldlM (scanDeviceTurn cfg scanBus) (dev, pciLl)

/-- One turn of the loop of `scan_bus`; the device is in the list of its bus already when it
is scanned. -/
def scanBusTurn (cfg : ConfigSpace) (scanBus : UInt8 → List PciBus → Kernel (List PciBus))
    (bus : UInt8) (s : PciBus × List PciBus) (devIndex : Nat) : Kernel (PciBus × List PciBus) :=
  if getVendorId cfg bus (UInt8.ofNat devIndex) 0 = invalidVendorId then .ok s
  else do
    let dev : PciDevice := { slot := UInt8.ofNat devIndex, bus := s.1.bus, funcs := [] }
    let (dev, pciLl) ← scanDevice cfg scanBus dev s.2
    return (s.1.push dev, pciLl)

/-- The scan of a bus; the depth of the recursion is bounded by the first argument. -/
def scanBus (cfg : ConfigSpace) : Nat → UInt8 → List PciBus → Kernel (List PciBus)
  | 0, _, _ => .error .diverges
  | depth + 1, bus, pciLl => do
    let (node, pciLl) ← (List.range devsCount).foldlM
      (scanBusTurn cfg (scanBus cfg depth) bus) ({ bus, devs := [] }, pciLl)
    return node :: pciLl

/-- `init_pci`: the list `pci_ll` after it. -/
def initPci (cfg : ConfigSpace) (depth : Nat) : Kernel (List PciBus) := scanBus cfg depth 0 []

/-! ## The functions that are there -/

/-- Where a function is. -/
structure Address where
  bus : UInt8
  slot : UInt8
  func : UInt8
  deriving DecidableEq

def PciDriver.address (d : PciDriver) : Address := ⟨d.bus, d.slot, d.func⟩

/-- A function is present if its device has a function 0, and it is that one, or one of more
functions with a vendor. -/
def Present (cfg : ConfigSpace) (a : Address) : Prop :=
  a.slot.toNat < devsCount ∧ a.func.toNat < funcsCount ∧
    getVendorId cfg a.bus a.slot 0 ≠ invalidVendorId ∧
    (a.func = 0 ∨ isMultifunction cfg a.bus a.slot = true ∧
      getVendorId cfg a.bus a.slot a.func ≠ invalidVendorId)

/-- The bus behind a function, if it is a bridge. -/
def busBehind (cfg : ConfigSpace) (a : Address) : Option UInt8 :=
  if getHeaderType cfg a.bus a.slot a.func &&& 0x7F = pciHeaderPciBridge then
    some (pciConfigReadByte cfg a.bus a.slot a.func 0x19)
  else none

/-- The header of the function has a type that is known. -/
def KnownHeader (cfg : ConfigSpace) (a : Address) : Prop :=
  headerSize (getHeaderType cfg a.bus a.slot a.func &&& 0x7F) ≠ none

/-- The buses that bridges lead to from bus 0 on. -/
inductive OnBus (cfg : ConfigSpace) : UInt8 → Prop where
  | root : OnBus cfg 0
  | behind {a : Address} {bus : UInt8} : OnBus cfg a.bus → Present cfg a →
      busBehind cfg a = some bus → OnBus cfg bus

/-- What is kept of a function. -/
def driverOf (cfg : ConfigSpace) (a : Address) : PciDriver :=
  fetchDevName {
    func := a.func, slot := a.slot, bus := a.bus
    header := headerWords cfg a.bus a.slot a.func
      ((headerSize (getHeaderType cfg a.bus a.slot a.func &&& 0x7F)).getD 0)
    deviceName := none }

/-- The functions in the lists. -/
def drivers (pciLl : List PciBus) : List PciDriver :=
  pciLl.flatMap fun node => node.devs.flatMap PciDevice.funcs

instance (cfg : ConfigSpace) (a : Address) : Decidable (Present cfg a) :=
  inferInstanceAs (Decidable (_ ∧ _ ∧ _ ∧ (_ ∨ _ ∧ _)))

/-- Every function on the buses that bridges lead to is listed once, with its header. -/
structure ListsOnce (cfg : ConfigSpace) (pciLl : List PciBus) : Prop where
  once : ((drivers pciLl).map PciDriver.address).Nodup
  all : ∀ d, d ∈ drivers pciLl ↔ ∃ a, OnBus cfg a.bus ∧ Present cfg a ∧ d = driverOf cfg a

/-- Every bus but the first is behind one bridge, as far as it has functions, bus 0 is
behind none, and the header types are known. -/
structure Configured (cfg : ConfigSpace) : Prop where
  known : ∀ {a}, OnBus cfg a.bus → Present cfg a → KnownHeader cfg a
  root : ∀ {a}, OnBus cfg a.bus → Present cfg a → busBehind cfg a ≠ some 0
  one : ∀ {a b bus}, OnBus cfg a.bus → Present cfg a → OnBus cfg b.bus → Present cfg b →
    busBehind cfg a = some bus → busBehind cfg b = some bus →
    (∃ c, c.bus = bus ∧ Present cfg c) → a = b

/-! ## The functions of a bus, in the order of the scan -/

def functionsAt (cfg : ConfigSpace) (bus slot : UInt8) (funcIndex : Nat) : List Address :=
  if getVendorId cfg bus slot (UInt8.ofNat funcIndex) = invalidVendorId then []
  else [⟨bus, slot, UInt8.ofNat funcIndex⟩]

/-- The functions of a device that has a function 0. -/
def deviceFunctions (cfg : ConfigSpace) (bus slot : UInt8) : List Address :=
  if isMultifunction cfg bus slot = false then [⟨bus, slot, 0⟩]
  else (List.range funcsCount).flatMap (functionsAt cfg bus slot)

def devicesAt (cfg : ConfigSpace) (bus : UInt8) (devIndex : Nat) : List Address :=
  if getVendorId cfg bus (UInt8.ofNat devIndex) 0 = invalidVendorId then []
  else deviceFunctions cfg bus (UInt8.ofNat devIndex)

def functionsOf (cfg : ConfigSpace) (bus : UInt8) : List Address :=
  (List.range devsCount).flatMap (devicesAt cfg bus)

theorem toNat_ofNat {n i : Nat} (hn : n ≤ 256) (hi : i < n) : (UInt8.ofNat i).toNat = i :=
  UInt8.toNat_ofNat_of_lt' (Nat.lt_of_lt_of_le hi hn)

theorem mem_range_ofNat {n : Nat} (hn : n ≤ 256) {x : UInt8} :
    (∃ i ∈ List.range n, UInt8.ofNat i = x) ↔ x.toNat < n := by
  constructor
  · rintro ⟨i, hi, rfl⟩
    have hlt := List.mem_range.1 hi
    rwa [toNat_ofNat hn hlt]
  · intro hx
    exact ⟨x.toNat, List.mem_range.2 hx, UInt8.ofNat_toNat⟩

theorem ofNat_inj {n i j : Nat} (hn : n ≤ 256) (hi : i < n) (hj : j < n)
    (h : UInt8.ofNat i = UInt8.ofNat j) : i = j := by
  have hnat := congrArg UInt8.toNat h
  rwa [toNat_ofNat hn hi, toNat_ofNat hn hj] at hnat

variable {cfg : ConfigSpace}

theorem mem_deviceFunctions {bus slot : UInt8} {a : Address}
    (hvendor : getVendorId cfg bus slot 0 ≠ invalidVendorId) :
    a ∈ deviceFunctions cfg bus slot ↔ a.bus = bus ∧ a.slot = slot ∧
      a.func.toNat < funcsCount ∧ (a.func = 0 ∨ isMultifunction cfg bus slot = true ∧
        getVendorId cfg bus slot a.func ≠ invalidVendorId) := by
  obtain ⟨abus, aslot, afunc⟩ := a
  unfold deviceFunctions
  split_ifs with hmulti
  · rw [List.mem_singleton, Address.mk.injEq]
    constructor
    · rintro ⟨rfl, rfl, rfl⟩
      exact ⟨rfl, rfl, Nat.zero_lt_succ 7, .inl rfl⟩
    · rintro ⟨hbus, hslot, -, hfunc | ⟨htrue, -⟩⟩
      · exact ⟨hbus, hslot, hfunc⟩
      · rw [hmulti] at htrue
        cases htrue
  · have hmulti : isMultifunction cfg bus slot = true := by simpa using hmulti
    rw [List.mem_flatMap]
    constructor
    · rintro ⟨i, hi, hmem⟩
      unfold functionsAt at hmem
      split_ifs at hmem with hnone
      · cases hmem
      · obtain ⟨rfl, rfl, rfl⟩ := Address.mk.inj (List.mem_singleton.1 hmem)
        exact ⟨rfl, rfl, (mem_range_ofNat (by decide)).1 ⟨i, hi, rfl⟩, .inr ⟨hmulti, hnone⟩⟩
    · rintro ⟨hbus, hslot, hlt, hfunc⟩
      obtain ⟨i, hi, rfl⟩ := (mem_range_ofNat (by decide)).2 hlt
      refine ⟨i, hi, ?_⟩
      have hthere : getVendorId cfg bus slot (UInt8.ofNat i) ≠ invalidVendorId := by
        rcases hfunc with hzero | ⟨-, hthere⟩
        · rwa [show UInt8.ofNat i = 0 from hzero]
        · exact hthere
      rw [functionsAt, if_neg hthere, List.mem_singleton, Address.mk.injEq]
      exact ⟨hbus, hslot, rfl⟩

theorem mem_functionsOf {bus : UInt8} {a : Address} :
    a ∈ functionsOf cfg bus ↔ a.bus = bus ∧ Present cfg a := by
  unfold functionsOf Present
  rw [List.mem_flatMap]
  constructor
  · rintro ⟨i, hi, hmem⟩
    unfold devicesAt at hmem
    split_ifs at hmem with hvendor
    · cases hmem
    · obtain ⟨rfl, hslot, hlt, hfunc⟩ := (mem_deviceFunctions hvendor).1 hmem
      rw [hslot]
      exact ⟨rfl, (mem_range_ofNat (by decide)).1 ⟨i, hi, rfl⟩, hlt, hvendor, hfunc⟩
  · rintro ⟨rfl, hslot, hlt, hvendor, hfunc⟩
    obtain ⟨i, hi, hi'⟩ := (mem_range_ofNat (by decide)).2 hslot
    refine ⟨i, hi, ?_⟩
    rw [devicesAt, hi', if_neg hvendor]
    exact (mem_deviceFunctions hvendor).2 ⟨rfl, rfl, hlt, hfunc⟩

theorem bus_of_mem : ∀ bus, ∀ a ∈ functionsOf cfg bus, a.bus = bus :=
  fun _ _ ha => (mem_functionsOf.1 ha).1

theorem deviceFunctions_nodup (bus slot : UInt8) : (deviceFunctions cfg bus slot).Nodup := by
  have hfunc : ∀ i a, a ∈ functionsAt cfg bus slot i → a.func = UInt8.ofNat i := by
    intro i a ha
    unfold functionsAt at ha
    split_ifs at ha
    · cases ha
    · rw [List.mem_singleton.1 ha]
  unfold deviceFunctions
  split_ifs
  · exact List.nodup_singleton _
  · rw [List.nodup_flatMap]
    refine ⟨fun i _ => ?_, List.nodup_range.imp_of_mem fun {i j} hi hj hne a ha ha' => ?_⟩
    · unfold functionsAt
      split_ifs
      · exact List.nodup_nil
      · exact List.nodup_singleton _
    · exact hne (ofNat_inj (by decide) (List.mem_range.1 hi) (List.mem_range.1 hj)
        ((hfunc i a ha).symm.trans (hfunc j a ha')))

theorem functionsOf_nodup (bus : UInt8) : (functionsOf cfg bus).Nodup := by
  have hslot : ∀ i a, a ∈ devicesAt cfg bus i → a.slot = UInt8.ofNat i := by
    intro i a ha
    unfold devicesAt at ha
    split_ifs at ha with hvendor
    · cases ha
    · exact ((mem_deviceFunctions hvendor).1 ha).2.1
  unfold functionsOf
  rw [List.nodup_flatMap]
  refine ⟨fun i _ => ?_, List.nodup_range.imp_of_mem fun {i j} hi hj hne a ha ha' => ?_⟩
  · unfold devicesAt
    split_ifs
    · exact List.nodup_nil
    · exact deviceFunctions_nodup bus _
  · exact hne (ofNat_inj (by decide) (List.mem_range.1 hi) (List.mem_range.1 hj)
      ((hslot i a ha).symm.trans (hslot j a ha')))

/-! ## What the scan lists -/

@[simp] theorem fetchDevName_header (node : PciDriver) :
    (fetchDevName node).header = node.header := by
  simp only [fetchDevName, devsMetadata, List.foldl_cons, List.foldl_nil]
  split_ifs <;> rfl

@[simp] theorem fetchDevName_address (node : PciDriver) :
    (fetchDevName node).address = node.address := by
  simp only [fetchDevName, devsMetadata, List.foldl_cons, List.foldl_nil]
  split_ifs <;> rfl

@[simp] theorem address_driverOf (a : Address) : (driverOf cfg a).address = a := by
  rw [driverOf, fetchDevName_address]
  rfl

theorem headerSize_cases {headerType : UInt8} (h : headerSize headerType ≠ none) :
    ∃ size, headerSize headerType = some size ∧ (size = 64 ∨ size = 72) := by
  unfold headerSize at h ⊢
  split_ifs at h ⊢
  · exact ⟨64, rfl, .inl rfl⟩
  · exact ⟨72, rfl, .inr rfl⟩
  · exact ⟨64, rfl, .inl rfl⟩
  · exact absurd rfl h

theorem driverOf_bytes {a : Address} (h : KnownHeader cfg a) :
    (driverOf cfg a).headerType = getHeaderType cfg a.bus a.slot a.func ∧
      (driverOf cfg a).secondaryBusNumber = pciConfigReadByte cfg a.bus a.slot a.func 0x19 := by
  obtain ⟨size, hsize, hwords⟩ := headerSize_cases h
  have hheader : (driverOf cfg a).header = headerWords cfg a.bus a.slot a.func size := by
    rw [driverOf, fetchDevName_header]
    dsimp only
    rw [hsize]
    rfl
  rw [PciDriver.headerType, PciDriver.secondaryBusNumber, hheader]
  rcases hwords with rfl | rfl
  · exact ⟨rfl, rfl⟩
  · exact ⟨rfl, rfl⟩

theorem makeFuncNode_returns (dev : PciDevice) (func : UInt8) :
    Returns (makeFuncNode cfg dev func) (KnownHeader cfg ⟨dev.bus, dev.slot, func⟩)
      fun node => node = driverOf cfg ⟨dev.bus, dev.slot, func⟩ := by
  unfold makeFuncNode fetchFuncHeader driverOf KnownHeader
  dsimp only
  cases hsize : headerSize (getHeaderType cfg dev.bus dev.slot func &&& 0x7F) with
  | none =>
    refine ⟨fun h => absurd rfl h, nofun⟩
  | some size =>
    have hwords : size % 4 = 0 := by
      obtain ⟨n, hn, hcases⟩ := headerSize_cases (hsize ▸ Option.some_ne_none size)
      obtain rfl := Option.some.inj (hn.symm.trans hsize)
      omega
    simp only [hwords, assert, decide_true, if_true, ok_bind, pure_eq_ok]
    exact .pure (Option.some_ne_none size) rfl

/-- What is listed for a function and the buses behind it, if it is known for a bus. -/
def listed (cfg : ConfigSpace) (out : UInt8 → List PciDriver) (a : Address) : List PciDriver :=
  driverOf cfg a :: (busBehind cfg a).toList.flatMap out

/-- The function has a header of a known type, and the bus behind it has some property. -/
def Followed (cfg : ConfigSpace) (p : UInt8 → Prop) (a : Address) : Prop :=
  KnownHeader cfg a ∧ ∀ bus, busBehind cfg a = some bus → p bus

section Scan

variable {scan : UInt8 → List PciBus → Kernel (List PciBus)} {p : UInt8 → Prop}
  {out : UInt8 → List PciDriver}
  (hscan : ∀ bus pciLl, Returns (scan bus pciLl) (p bus)
    fun t => (drivers t).Perm (out bus ++ drivers pciLl))
include hscan

theorem scanFunction_returns {a : Address} (h : KnownHeader cfg a) (pciLl : List PciBus) :
    Returns (scanFunction scan (driverOf cfg a) pciLl) (∀ bus, busBehind cfg a = some bus → p bus)
      fun t => (drivers t).Perm ((busBehind cfg a).toList.flatMap out ++ drivers pciLl) := by
  obtain ⟨htype, hsecondary⟩ := driverOf_bytes h
  unfold scanFunction busBehind
  rw [htype, hsecondary]
  split_ifs
  · refine (hscan _ pciLl).mono ?_ fun t ht => ?_
    · simp
    · simpa using ht
  · exact .pure nofun (List.Perm.refl _)

theorem addFunction_returns (dev : PciDevice) (pciLl : List PciBus) (func : UInt8) :
    Returns (addFunction cfg scan dev pciLl func)
      (Followed cfg p ⟨dev.bus, dev.slot, func⟩)
      fun t => (t.1.bus = dev.bus ∧ t.1.slot = dev.slot) ∧ (t.1.funcs ++ drivers t.2).Perm
        (listed cfg out ⟨dev.bus, dev.slot, func⟩ ++ (dev.funcs ++ drivers pciLl)) := by
  refine (makeFuncNode_returns dev func).bind fun hknown node hnode => ?_
  obtain rfl := hnode
  refine ((scanFunction_returns hscan hknown pciLl).bind fun _ t ht => .pure trivial ?_).mono
    (iff_of_eq (and_true _)) fun _ h => h
  refine ⟨⟨rfl, rfl⟩, ?_⟩
  refine List.Perm.cons _ ((ht.append_left dev.funcs).trans ?_)
  exact List.perm_append_comm_assoc _ _ _

theorem scanDeviceTurn_returns {dev : PciDevice} {s : PciDevice × List PciBus}
    (hs : s.1.bus = dev.bus ∧ s.1.slot = dev.slot) (funcIndex : Nat) :
    Returns (scanDeviceTurn cfg scan s funcIndex)
      (∀ a ∈ functionsAt cfg dev.bus dev.slot funcIndex, Followed cfg p a)
      fun t => (t.1.bus = dev.bus ∧ t.1.slot = dev.slot) ∧ (t.1.funcs ++ drivers t.2).Perm
        ((functionsAt cfg dev.bus dev.slot funcIndex).flatMap (listed cfg out) ++
          (s.1.funcs ++ drivers s.2)) := by
  rw [← hs.1, ← hs.2]
  unfold scanDeviceTurn functionsAt
  split_ifs
  · exact .pure nofun ⟨⟨rfl, rfl⟩, List.Perm.refl _⟩
  · rw [List.flatMap_singleton]
    exact (addFunction_returns hscan s.1 s.2 _).mono List.forall_mem_singleton.symm fun _ h => h

theorem scanDevice_returns (dev : PciDevice) (pciLl : List PciBus) :
    Returns (scanDevice cfg scan dev pciLl)
      (∀ a ∈ deviceFunctions cfg dev.bus dev.slot, Followed cfg p a)
      fun t => (t.1.funcs ++ drivers t.2).Perm
        ((deviceFunctions cfg dev.bus dev.slot).flatMap (listed cfg out) ++
          (dev.funcs ++ drivers pciLl)) := by
  unfold scanDevice deviceFunctions
  split_ifs with hmulti
  · rw [List.flatMap_singleton]
    exact (addFunction_returns hscan dev pciLl 0).mono List.forall_mem_singleton.symm
      fun _ h => h.2
  · rw [List.flatMap_assoc, List.forall_mem_flatMap]
    exact (Returns.foldlM (I := fun s => s.1.bus = dev.bus ∧ s.1.slot = dev.slot)
      (v := fun s => s.1.funcs ++ drivers s.2) (List.range funcsCount)
      (fun i _ s hs => scanDeviceTurn_returns hscan hs i) ⟨rfl, rfl⟩).mono Iff.rfl fun _ h => h.2

theorem scanBusTurn_returns {bus : UInt8} {s : PciBus × List PciBus} (hs : s.1.bus = bus)
    (devIndex : Nat) :
    Returns (scanBusTurn cfg scan bus s devIndex)
      (∀ a ∈ devicesAt cfg bus devIndex, Followed cfg p a)
      fun t => t.1.bus = bus ∧ (t.1.devs.flatMap PciDevice.funcs ++ drivers t.2).Perm
        ((devicesAt cfg bus devIndex).flatMap (listed cfg out) ++
          (s.1.devs.flatMap PciDevice.funcs ++ drivers s.2)) := by
  rw [← hs]
  unfold scanBusTurn devicesAt
  split_ifs
  · exact .pure nofun ⟨rfl, List.Perm.refl _⟩
  · refine ((scanDevice_returns hscan _ s.2).bind fun _ t ht => .pure trivial ?_).mono
      (iff_of_eq (and_true _)) fun _ h => h
    refine ⟨rfl, ?_⟩
    show (t.1.funcs ++ s.1.devs.flatMap PciDevice.funcs ++ drivers t.2).Perm _
    -- the new device is in front of the other ones
    have hfront : (t.1.funcs ++ s.1.devs.flatMap PciDevice.funcs ++ drivers t.2).Perm
        (s.1.devs.flatMap PciDevice.funcs ++ (t.1.funcs ++ drivers t.2)) := by
      rw [List.append_assoc]
      exact List.perm_append_comm_assoc _ _ _
    refine hfront.trans ((ht.append_left _).trans ?_)
    exact List.perm_append_comm_assoc _ _ _

theorem scanBusLoop_returns (bus : UInt8) (pciLl : List PciBus) :
    Returns ((List.range devsCount).foldlM (scanBusTurn cfg scan bus) ({ bus, devs := [] }, pciLl))
      (∀ a ∈ functionsOf cfg bus, Followed cfg p a)
      fun t => (t.1.devs.flatMap PciDevice.funcs ++ drivers t.2).Perm
        ((functionsOf cfg bus).flatMap (listed cfg out) ++ drivers pciLl) := by
  unfold functionsOf
  rw [List.flatMap_assoc, List.forall_mem_flatMap]
  exact (Returns.foldlM (I := fun s => s.1.bus = bus)
    (v := fun s => s.1.devs.flatMap PciDevice.funcs ++ drivers s.2) (List.range devsCount)
    (fun i _ s hs => scanBusTurn_returns hscan hs i) rfl).mono Iff.rfl fun _ h => h.2

end Scan

/-- The functions that a scan finds from a bus on. -/
abbrev foundFrom (cfg : ConfigSpace) (depth : Nat) (bus : UInt8) : List Address :=
  found (functionsOf cfg) (busBehind cfg) depth bus

theorem foundFrom_succ (depth : Nat) (bus : UInt8) :
    foundFrom cfg (depth + 1) bus = functionsOf cfg bus ++
      ((functionsOf cfg bus).filterMap (busBehind cfg)).flatMap (foundFrom cfg depth) := by
  rw [foundFrom, found, visits, List.flatMap_cons, List.flatMap_assoc]
  rfl

theorem listed_perm (depth : Nat) (bus : UInt8) :
    ((functionsOf cfg bus).flatMap
      (listed cfg fun c => (foundFrom cfg depth c).map (driverOf cfg))).Perm
        ((foundFrom cfg (depth + 1) bus).map (driverOf cfg)) := by
  have hcons := (List.flatMap_append_perm (functionsOf cfg bus) (fun a => [driverOf cfg a])
    fun a => (busBehind cfg a).toList.flatMap fun c => (foundFrom cfg depth c).map (driverOf cfg))
  refine hcons.symm.trans (List.Perm.of_eq ?_)
  rw [foundFrom_succ, List.map_append, List.map_flatMap, List.filterMap_eq_flatMap_toList,
    List.flatMap_assoc, List.map_eq_flatMap]

/-- The scan returns if no way is longer than it goes, and every header it meets is known;
it lists what it finds. -/
theorem scanBus_returns (depth : Nat) : ∀ (bus : UInt8) (pciLl : List PciBus),
    Returns (scanBus cfg depth bus pciLl)
      (Ends (functionsOf cfg) (busBehind cfg) depth bus ∧
        ∀ a ∈ foundFrom cfg depth bus, KnownHeader cfg a)
      fun t =>
        (drivers t).Perm ((foundFrom cfg depth bus).map (driverOf cfg) ++ drivers pciLl) := by
  induction depth with
  | zero =>
    intro bus pciLl
    exact .error fun h => h.1
  | succ depth ih =>
    intro bus pciLl
    unfold scanBus
    refine ((scanBusLoop_returns ih bus pciLl).bind fun _ t ht => .pure trivial ?_).mono ?_
      fun _ h => h
    · exact ht.trans ((listed_perm depth bus).append_right _)
    · rw [and_true, foundFrom_succ, List.forall_mem_append, List.forall_mem_flatMap]
      constructor
      · intro h
        refine ⟨fun c hc => ?_, fun a ha => (h a ha).1, fun c hc => ?_⟩
        · obtain ⟨a, ha, hbehind⟩ := List.mem_filterMap.1 hc
          exact ((h a ha).2 c hbehind).1
        · obtain ⟨a, ha, hbehind⟩ := List.mem_filterMap.1 hc
          exact ((h a ha).2 c hbehind).2
      · rintro ⟨hends, hknown, hbehind⟩ a ha
        refine ⟨hknown a ha, fun c hc => ?_⟩
        have hmem := List.mem_filterMap.2 ⟨a, ha, hc⟩
        exact ⟨hends c hmem, hbehind c hmem⟩

/-! ## Which configurations are scanned right -/

theorem reaches_iff {bus : UInt8} :
    Reaches (functionsOf cfg) (busBehind cfg) 0 bus ↔ OnBus cfg bus := by
  constructor
  · intro h
    induction h with
    | refl => exact .root
    | tail _ hstep ih =>
      obtain ⟨a, ha, hbehind⟩ := hstep
      obtain ⟨rfl, hpresent⟩ := mem_functionsOf.1 ha
      exact .behind ih hpresent hbehind
  · intro h
    induction h with
    | root => exact .refl
    | behind _ hpresent hbehind ih =>
      exact ih.tail ⟨_, mem_functionsOf.2 ⟨rfl, hpresent⟩, hbehind⟩

theorem configured_iff : Configured cfg ↔
    (∀ {a}, OnBus cfg a.bus → Present cfg a → KnownHeader cfg a) ∧
      Sole (functionsOf cfg) (busBehind cfg) 0 := by
  constructor
  · intro h
    refine ⟨h.known, ⟨?_, ?_⟩⟩
    · intro b a hb ha
      obtain ⟨rfl, hpresent⟩ := mem_functionsOf.1 ha
      exact h.root (reaches_iff.1 hb) hpresent
    · intro b b' c x y hb hx hb' hy hxc hyc hc
      obtain ⟨rfl, hxpresent⟩ := mem_functionsOf.1 hx
      obtain ⟨rfl, hypresent⟩ := mem_functionsOf.1 hy
      obtain ⟨z, hz⟩ := List.exists_mem_of_ne_nil _ hc
      exact h.one (reaches_iff.1 hb) hxpresent (reaches_iff.1 hb') hypresent hxc hyc
        ⟨z, mem_functionsOf.1 hz⟩
  · rintro ⟨hknown, hsole⟩
    refine ⟨hknown, ?_, ?_⟩
    · intro a hbus hpresent
      exact hsole.root (reaches_iff.2 hbus) (mem_functionsOf.2 ⟨rfl, hpresent⟩)
    · rintro a b bus ha hapresent hb hbpresent hax hbx ⟨c, hc⟩
      exact hsole.one (reaches_iff.2 ha) (mem_functionsOf.2 ⟨rfl, hapresent⟩)
        (reaches_iff.2 hb) (mem_functionsOf.2 ⟨rfl, hbpresent⟩) hax hbx
        (List.ne_nil_of_mem (mem_functionsOf.2 hc))

theorem length_le_of_nodup (l : List Address) (h : l.Nodup) : l.length ≤ 2 ^ 24 := by
  let number : Address → Fin (2 ^ 24) := fun a =>
    ⟨a.bus.toNat * 2 ^ 16 + a.slot.toNat * 2 ^ 8 + a.func.toNat, by
      have hbus := a.bus.toNat_lt
      have hslot := a.slot.toNat_lt
      have hfunc := a.func.toNat_lt
      omega⟩
  have hinj : Function.Injective number := by
    rintro ⟨bus, slot, func⟩ ⟨bus', slot', func'⟩ he
    have hnat := congrArg Fin.val he
    dsimp only [number] at hnat
    have hslot := slot.toNat_lt
    have hfunc := func.toNat_lt
    have hslot' := slot'.toNat_lt
    have hfunc' := func'.toNat_lt
    obtain ⟨h1, h2, h3⟩ : bus.toNat = bus'.toNat ∧ slot.toNat = slot'.toNat ∧
        func.toNat = func'.toNat := by omega
    rw [UInt8.toNat_inj.1 h1, UInt8.toNat_inj.1 h2, UInt8.toNat_inj.1 h3]
  have hcard := (h.map hinj).length_le_card
  rwa [List.length_map, Fintype.card_fin] at hcard

/-- A scan that returns lists every function once exactly if the bridges lead to different
buses. -/
theorem listsOnce_iff {depth : Nat} {pciLl : List PciBus} (h : initPci cfg depth = .ok pciLl) :
    (∀ {a}, OnBus cfg a.bus → Present cfg a → KnownHeader cfg a) ∧
      (ListsOnce cfg pciLl ↔ Sole (functionsOf cfg) (busBehind cfg) 0) := by
  obtain ⟨⟨hends, hknown⟩, hperm⟩ := (scanBus_returns depth 0 []).out _ h
  have hall : ∀ a, a ∈ foundFrom cfg depth 0 ↔ OnBus cfg a.bus ∧ Present cfg a := by
    intro a
    constructor
    · intro ha
      obtain ⟨b, hb, hab⟩ := exists_of_mem_found ha
      obtain ⟨rfl, hpresent⟩ := mem_functionsOf.1 hab
      exact ⟨reaches_iff.1 hb, hpresent⟩
    · rintro ⟨hbus, hpresent⟩
      exact mem_found_of_reaches hends (reaches_iff.2 hbus) (mem_functionsOf.2 ⟨rfl, hpresent⟩)
  have hsole := nodup_found_iff bus_of_mem functionsOf_nodup hends
  have hperm : (drivers pciLl).Perm ((foundFrom cfg depth 0).map (driverOf cfg)) := by
    simpa [drivers] using hperm
  refine ⟨fun hbus hpresent => hknown _ ((hall _).2 ⟨hbus, hpresent⟩), ?_⟩
  rw [← hsole]
  have haddresses : ((drivers pciLl).map PciDriver.address).Perm (foundFrom cfg depth 0) := by
    have hmap := hperm.map PciDriver.address
    have hid : PciDriver.address ∘ driverOf cfg = id := funext address_driverOf
    rwa [List.map_map, hid, List.map_id] at hmap
  constructor
  · intro hlists
    exact haddresses.nodup_iff.1 hlists.once
  · intro hnodup
    refine ⟨haddresses.nodup_iff.2 hnodup, fun d => ?_⟩
    rw [hperm.mem_iff, List.mem_map]
    constructor
    · rintro ⟨a, ha, rfl⟩
      obtain ⟨hbus, hpresent⟩ := (hall a).1 ha
      exact ⟨a, hbus, hpresent, rfl⟩
    · rintro ⟨a, hbus, hpresent, rfl⟩
      exact ⟨a, (hall a).2 ⟨hbus, hpresent⟩, rfl⟩

/-- The scan returns, and whenever it does, it has listed every function on the buses that
bridges lead to once, exactly if each of them but the first is behind one bridge. -/
theorem scan_lists_once_iff (cfg : ConfigSpace) :
    ((∃ depth pciLl, initPci cfg depth = .ok pciLl) ∧
      ∀ depth pciLl, initPci cfg depth = .ok pciLl → ListsOnce cfg pciLl) ↔ Configured cfg := by
  rw [configured_iff]
  constructor
  · rintro ⟨⟨depth, pciLl, hrun⟩, honce⟩
    obtain ⟨hknown, hiff⟩ := listsOnce_iff hrun
    exact ⟨hknown, hiff.1 (honce depth pciLl hrun)⟩
  · rintro ⟨hknown, hsole⟩
    refine ⟨?_, fun depth pciLl hrun => (listsOnce_iff hrun).2.2 hsole⟩
    obtain ⟨n, hfinite⟩ : ∃ n, ∀ l : List Address, l.Nodup → l.length ≤ n :=
      ⟨2 ^ 24, length_le_of_nodup⟩
    have hends := hsole.ends bus_of_mem functionsOf_nodup hfinite
    obtain ⟨pciLl, hrun⟩ := (scanBus_returns (n + 2) 0 []).of ⟨hends, fun a ha => by
      obtain ⟨b, hb, hab⟩ := exists_of_mem_found ha
      obtain ⟨rfl, hpresent⟩ := mem_functionsOf.1 hab
      exact hknown (reaches_iff.1 hb) hpresent⟩
    exact ⟨n + 2, pciLl, hrun⟩

/-- A configuration space with these double words; the others are not there. -/
def configOf (table : List (UInt32 × UInt32)) : ConfigSpace := fun address =>
  (table.lookup address).getD 0xFFFFFFFF

/-- The double words of a function with a header type, and of what a bridge has behind it. -/
def functionWith (a : Address) (headerType bus : UInt32) : List (UInt32 × UInt32) :=
  [(pciAddress a.bus a.slot a.func 0, 0x12348086),
    (pciAddress a.bus a.slot a.func 0xC, headerType <<< 16),
    (pciAddress a.bus a.slot a.func 0x18, bus <<< 8)]

/-- A bridge that was not given a number: bus 0 is behind it. -/
def unconfigured : ConfigSpace := configOf (functionWith ⟨0, 0, 0⟩ 1 0)

def unknownHeader : ConfigSpace := configOf (functionWith ⟨0, 0, 0⟩ 3 0)

/-- Two bridges with one bus behind them, on which there is a device. -/
def twoBridges : ConfigSpace :=
  configOf (functionWith ⟨0, 0, 0⟩ 1 1 ++ functionWith ⟨0, 1, 0⟩ 1 1 ++
    functionWith ⟨1, 0, 0⟩ 0 0)

theorem not_ends_of_loop {bus : UInt8} {a : Address} (ha : a ∈ functionsOf cfg bus)
    (hbehind : busBehind cfg a = some bus) (depth : Nat) :
    ¬ Ends (functionsOf cfg) (busBehind cfg) depth bus := by
  induction depth with
  | zero => exact id
  | succ depth ih => exact fun h => ih (h bus (List.mem_filterMap.2 ⟨a, ha, hbehind⟩))

/-- The scan of an unconfigured bridge does not return, an unknown header aborts it, and a
device behind two bridges is listed twice. -/
theorem scan_not_once :
    (∀ depth pciLl, initPci unconfigured depth ≠ .ok pciLl) ∧
    (∀ depth pciLl, initPci unknownHeader depth ≠ .ok pciLl) ∧
    ∃ pciLl, initPci twoBridges 3 = .ok pciLl ∧ ¬ ListsOnce twoBridges pciLl := by
  refine ⟨fun depth pciLl hrun => ?_, fun depth pciLl hrun => ?_, ?_⟩
  · have hthere : (⟨0, 0, 0⟩ : Address) ∈ functionsOf unconfigured 0 :=
      mem_functionsOf.2 ⟨rfl, by decide +kernel⟩
    exact not_ends_of_loop hthere (by decide +kernel) depth
      ((scanBus_returns depth 0 []).out _ hrun).1.1
  · have hknown : KnownHeader unknownHeader ⟨0, 0, 0⟩ :=
      (listsOnce_iff hrun).1 .root (by decide +kernel)
    exact absurd hknown (by unfold KnownHeader; decide +kernel)
  · have hrun : ∃ pciLl, initPci twoBridges 3 = .ok pciLl ∧
        ¬ ((drivers pciLl).map PciDriver.address).Nodup := by
      decide +kernel
    obtain ⟨pciLl, hrun, hnot⟩ := hrun
    exact ⟨pciLl, hrun, fun h => hnot h.once⟩

end X86Kernel.Pci
