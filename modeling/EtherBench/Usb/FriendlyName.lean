import EtherBench.Library.LittleEndian
import EtherBench.Library.Memory

/-! # The descriptors for the Microsoft extensions

`etherbench_ms_vendor_request_handler` and `build_microsoft_friendly_name` of
`threadx/usbx/app/src/app_usbx_status.c`, with the packed records of `msos1.h`. The logging is left
out.
-/

namespace EtherBench.Usb.FriendlyName
open Library.LittleEndian Library.Memory

/-- A string of UTF-16 units with its terminator, whose size in bytes is a `size_t`. -/
structure Utf16 where
  units : List UInt16
  fits : 2 * units.length < 2 ^ 32

namespace Utf16

def size (name : Utf16) : UInt32 := .ofNat (2 * name.units.length)

def bytes (name : Utf16) : List UInt8 := unitBytes name.units

@[simp] theorem length_bytes (name : Utf16) : name.bytes.length = 2 * name.units.length :=
  length_unitBytes name.units

@[simp] theorem toNat_size (name : Utf16) : name.size.toNat = 2 * name.units.length :=
  UInt32.toNat_ofNat_of_lt' name.fits

end Utf16

def utf16 (text : String) : List UInt16 := text.toList.map (fun c => c.toNat.toUInt16) ++ [0]

def propertyName : List UInt16 := utf16 "FriendlyName"

def strCom1Microsoft : Utf16 := ⟨utf16 "EtherBench TERMINAL", by decide⟩
def strCom2Microsoft : Utf16 := ⟨utf16 "EtherBench USART", by decide⟩
def strDbg1Microsoft : Utf16 := ⟨utf16 "EtherBench CMSIS-DAP Debugger", by decide⟩

structure MsOs10Header where
  dwLength : UInt32
  bcdVersion : UInt16
  wIndex : UInt16
  wCount : UInt16
  dwSize : UInt32
  dwPropertyDataType : UInt32
  wPropertyNameLength : UInt16
  propertyName : List UInt16
  dwPropertyDataLength : UInt32

def MsOs10Header.bytes (h : MsOs10Header) : List UInt8 :=
  bytesOf 4 h.dwLength.toNat ++ bytesOf 2 h.bcdVersion.toNat ++ bytesOf 2 h.wIndex.toNat ++
    bytesOf 2 h.wCount.toNat ++ bytesOf 4 h.dwSize.toNat ++ bytesOf 4 h.dwPropertyDataType.toNat ++
    bytesOf 2 h.wPropertyNameLength.toNat ++ unitBytes h.propertyName ++ bytesOf 4 h.dwPropertyDataLength.toNat

def headerSize : UInt32 := 50

def header (nameSize : UInt32) : MsOs10Header where
  dwLength := headerSize + nameSize
  bcdVersion := 0x0100
  wIndex := 0x0005
  wCount := 0x0001
  dwSize := 40 + nameSize
  dwPropertyDataType := 0x00000001
  wPropertyNameLength := 26
  propertyName := propertyName
  dwPropertyDataLength := nameSize

inductive Status where
  | uxSuccess
  | uxError
  deriving DecidableEq

/-- What a request leaves behind: `data_buffer`, and `*data_length` when it has been set. -/
structure Response where
  status : Status
  dataBuffer : ℕ → UInt8
  dataLength : Option UInt32

def buildMicrosoftFriendlyName (friendlyName : Utf16) (length : UInt32) (dataBuffer : ℕ → UInt8) : Response :=
  let header := header friendlyName.size
  let totalSize := if header.dwLength > length then length else header.dwLength
  let headed := write dataBuffer 0 header.bytes
  { status := .uxSuccess
    dataBuffer := write headed headerSize.toNat friendlyName.bytes
    dataLength := some totalSize }

def compatIdDescriptor : List UInt8 :=
  bytesOf 4 40 ++ bytesOf 2 0x0100 ++ bytesOf 2 0x0004 ++ [1] ++ List.replicate 7 0 ++
    [0x04, 0x01] ++ [87, 73, 78, 85, 83, 66, 0, 0] ++ List.replicate 8 0 ++ List.replicate 6 0

def etherbenchMsVendorRequestHandler (value index length : UInt32) (dataBuffer : ℕ → UInt8) : Response :=
  if index = 0x0004 then
    let responseLen := if UInt32.ofNat compatIdDescriptor.length > length then length
      else UInt32.ofNat compatIdDescriptor.length
    ⟨.uxSuccess, write dataBuffer 0 (compatIdDescriptor.take responseLen.toNat), some responseLen⟩
  else if index = 0x0005 then
    if value &&& 0xFF = 0x00 then buildMicrosoftFriendlyName strCom1Microsoft length dataBuffer
    else if value &&& 0xFF = 0x02 then buildMicrosoftFriendlyName strCom2Microsoft length dataBuffer
    else if value &&& 0xFF = 0x04 then buildMicrosoftFriendlyName strDbg1Microsoft length dataBuffer
    else ⟨.uxError, dataBuffer, none⟩
  else ⟨.uxError, dataBuffer, none⟩

/-! ## The format -/

structure Property where
  dataType : ℕ
  name : List UInt16
  data : List UInt16
  deriving DecidableEq

/-- A section of a custom property: its size, its type, its name and its data. -/
def parseSection (bytes : List UInt8) : Option (Property × List UInt8) := do
  let (size, bytes) ← takeNumber 4 bytes
  let (dataType, bytes) ← takeNumber 4 bytes
  let (nameLength, bytes) ← takeNumber 2 bytes
  let (name, bytes) ← takeBytes nameLength bytes
  let (dataLength, bytes) ← takeNumber 4 bytes
  let (data, bytes) ← takeBytes dataLength bytes
  if size = 4 + 4 + 2 + nameLength + 4 + dataLength then some (⟨dataType, unitsOf name, unitsOf data⟩, bytes)
  else none

def parseSections : ℕ → List UInt8 → Option (List Property)
  | 0, bytes => if bytes = [] then some [] else none
  | count + 1, bytes => do
    let (property, bytes) ← parseSection bytes
    let properties ← parseSections count bytes
    return property :: properties

/-- An extended properties descriptor of version 1.0: its own length, and the sections to its end. -/
def parseExtendedProperties (descriptor : List UInt8) : Option (List Property) := do
  let (length, bytes) ← takeNumber 4 descriptor
  let (version, bytes) ← takeNumber 2 bytes
  let (index, bytes) ← takeNumber 2 bytes
  let (count, bytes) ← takeNumber 2 bytes
  if length = descriptor.length ∧ version = 0x0100 ∧ index = 0x0005 then parseSections count bytes else none

/-- The first bytes of one descriptor that names the interface, as many as the host asks for, and nothing
behind them. -/
def Describes (name : Utf16) (length : UInt32) : Prop :=
  ∃ descriptor, descriptor.length = 50 + 2 * name.units.length ∧
    parseExtendedProperties descriptor = some [⟨1, propertyName, name.units⟩] ∧
    ∀ dataBuffer, ∃ stored, (buildMicrosoftFriendlyName name length dataBuffer).dataLength = some stored ∧
      stored.toNat = min length.toNat (50 + 2 * name.units.length) ∧
      (buildMicrosoftFriendlyName name length dataBuffer).dataBuffer =
        write dataBuffer 0 (descriptor.take stored.toNat)

/-! ## What is built -/

/-- A section whose sizes fit its fields is read back. -/
theorem parseSection_append {size dataType : ℕ} {name data : List UInt16}
    (hsize : size = 4 + 4 + 2 + 2 * name.length + 4 + 2 * data.length) (hsize4 : size < 256 ^ 4)
    (htype : dataType < 256 ^ 4) (hname : 2 * name.length < 256 ^ 2) (rest : List UInt8) :
    parseSection (bytesOf 4 size ++ (bytesOf 4 dataType ++ (bytesOf 2 (2 * name.length) ++ (unitBytes name ++
      (bytesOf 4 (2 * data.length) ++ (unitBytes data ++ rest)))))) = some (⟨dataType, name, data⟩, rest) := by
  have hdata : 2 * data.length < 256 ^ 4 := by omega
  simp only [parseSection, Option.bind_eq_bind, Option.bind_some, takeNumber_append hsize4, takeNumber_append htype,
    takeNumber_append hname, takeNumber_append hdata, takeBytes_append (length_unitBytes name),
    takeBytes_append (length_unitBytes data), unitsOf_unitBytes]
  exact if_pos hsize

def descriptor (name : Utf16) : List UInt8 := (header name.size).bytes ++ name.bytes

theorem length_header_bytes (nameSize : UInt32) : (header nameSize).bytes.length = 50 := by
  simp [MsOs10Header.bytes, header, propertyName, utf16]

theorem length_descriptor (name : Utf16) : (descriptor name).length = 50 + 2 * name.units.length := by
  rw [descriptor, List.length_append, length_header_bytes, name.length_bytes]

theorem header_dwLength {name : Utf16} (h : 50 + 2 * name.units.length < 2 ^ 32) :
    (header name.size).dwLength.toNat = 50 + 2 * name.units.length := by
  change (headerSize + name.size).toNat = _
  rw [UInt32.toNat_add, name.toNat_size]
  exact Nat.mod_eq_of_lt h

theorem descriptor_eq (name : Utf16) :
    descriptor name = bytesOf 4 (header name.size).dwLength.toNat ++ (bytesOf 2 0x0100 ++ (bytesOf 2 0x0005 ++
      (bytesOf 2 1 ++ (bytesOf 4 (header name.size).dwSize.toNat ++ (bytesOf 4 1 ++
        (bytesOf 2 (2 * propertyName.length) ++ (unitBytes propertyName ++
          (bytesOf 4 (2 * name.units.length) ++ (unitBytes name.units ++ []))))))))) := by
  have hdata : (header name.size).dwPropertyDataLength.toNat = 2 * name.units.length := name.toNat_size
  rw [descriptor, MsOs10Header.bytes, hdata]
  simp only [List.append_assoc, List.append_nil]
  rfl

theorem parse_descriptor {name : Utf16} (h : 50 + 2 * name.units.length < 2 ^ 32) :
    parseExtendedProperties (descriptor name) = some [⟨1, propertyName, name.units⟩] := by
  have hlength : (header name.size).dwLength.toNat = (descriptor name).length := by
    rw [length_descriptor, header_dwLength h]
  have hsize : (header name.size).dwSize.toNat = 4 + 4 + 2 + 2 * propertyName.length + 4 + 2 * name.units.length := by
    have h40 : 40 + 2 * name.units.length < 2 ^ 32 := by omega
    change (40 + name.size).toNat = _
    rw [UInt32.toNat_add, name.toNat_size]
    exact Nat.mod_eq_of_lt h40
  have hsection := parseSection_append hsize (header name.size).dwSize.toNat_lt (by decide : 1 < 256 ^ 4)
    (by decide) []
  have hsections (bytes : List UInt8) (hbytes : parseSection bytes = some (⟨1, propertyName, name.units⟩, [])) :
      parseSections 1 bytes = some [⟨1, propertyName, name.units⟩] := by
    rw [parseSections, hbytes]
    rfl
  have hlength4 : (header name.size).dwLength.toNat < 256 ^ 4 := (header name.size).dwLength.toNat_lt
  rw [parseExtendedProperties, hlength.symm, descriptor_eq]
  simp only [Option.bind_eq_bind, Option.bind_some, takeNumber_append hlength4,
    takeNumber_append (by decide : 0x0100 < 256 ^ 2), takeNumber_append (by decide : 0x0005 < 256 ^ 2),
    takeNumber_append (by decide : 1 < 256 ^ 2), true_and, if_true]
  exact hsections _ hsection

/-- The whole descriptor is stored, however much the host has asked for. -/
theorem build_dataBuffer (name : Utf16) (length : UInt32) (dataBuffer : ℕ → UInt8) :
    (buildMicrosoftFriendlyName name length dataBuffer).dataBuffer = write dataBuffer 0 (descriptor name) := by
  rw [descriptor, write_append, length_header_bytes]
  rfl

theorem build_dataLength {name : Utf16} (length : UInt32) (h : 50 + 2 * name.units.length < 2 ^ 32)
    (dataBuffer : ℕ → UInt8) :
    ∃ stored, (buildMicrosoftFriendlyName name length dataBuffer).dataLength = some stored ∧
      stored.toNat = min length.toNat (50 + 2 * name.units.length) := by
  refine ⟨_, rfl, ?_⟩
  have htotal := header_dwLength h
  split
  · next hgt =>
    rw [gt_iff_lt, UInt32.lt_iff_toNat_lt, htotal] at hgt
    exact (Nat.min_eq_left hgt.le).symm
  · next hle =>
    rw [gt_iff_lt, UInt32.lt_iff_toNat_lt, htotal] at hle
    rw [htotal]
    exact (Nat.min_eq_right (Nat.not_lt.mp hle)).symm

/-- The host is not to be given more than it has asked for, but the whole descriptor is stored. -/
theorem Describes.length_le {name : Utf16} {length : UInt32} (h : Describes name length) :
    50 + 2 * name.units.length ≤ length.toNat := by
  obtain ⟨d, -, -, hstores⟩ := h
  by_contra hshort
  have hindex : length.toNat < (descriptor name).length := by
    rw [length_descriptor]
    exact Nat.not_le.mp hshort
  -- the byte behind those that the host has asked for
  let byte := (descriptor name)[length.toNat]
  obtain ⟨stored, -, hstored, hbuffer⟩ := hstores fun _ => byte + 1
  rw [Nat.min_eq_left (by omega)] at hstored
  rw [build_dataBuffer, hstored] at hbuffer
  have hwritten : write (fun _ => byte + 1) 0 (descriptor name) length.toNat = byte := by
    simp [write, byte, hindex]
  have hbehind : write (fun _ => byte + 1) 0 (d.take length.toNat) length.toNat = byte + 1 :=
    write_after _ (by simp)
  rw [← hbuffer, hwritten] at hbehind
  simp at hbehind

/-- The descriptor is the host's exactly when the host has asked for all of it. -/
theorem describes_iff (name : Utf16) (length : UInt32) :
    Describes name length ↔ 50 + 2 * name.units.length ≤ length.toNat := by
  constructor
  · exact Describes.length_le
  · intro hlength
    have hfits : 50 + 2 * name.units.length < 2 ^ 32 := hlength.trans_lt length.toNat_lt
    refine ⟨descriptor name, length_descriptor name, parse_descriptor hfits, fun dataBuffer => ?_⟩
    obtain ⟨stored, hstored, hvalue⟩ := build_dataLength length hfits dataBuffer
    refine ⟨stored, hstored, hvalue, ?_⟩
    rw [build_dataBuffer, hvalue, Nat.min_eq_right hlength, ← length_descriptor, List.take_length]

/-- A host that first asks for the ten bytes in front of the section. -/
theorem short_request_overrun : ¬ ∀ (name : Utf16) (length : UInt32), Describes name length := by
  intro h
  exact absurd (h strCom1Microsoft 10).length_le (by decide)

theorem build_keeps (name : Utf16) (length : UInt32) (dataBuffer : ℕ → UInt8) {i : ℕ}
    (hi : 50 + 2 * name.units.length ≤ i) :
    (buildMicrosoftFriendlyName name length dataBuffer).dataBuffer i = dataBuffer i := by
  rw [build_dataBuffer, write_after]
  rw [length_descriptor, Nat.zero_add]
  exact hi

/-- With room for the longest of the names, no request reaches behind what the host has asked for. -/
theorem handler_keeps {value index length : UInt32} (h : index = 0x0005 → 110 ≤ length.toNat)
    (dataBuffer : ℕ → UInt8) {i : ℕ} (hi : length.toNat ≤ i) :
    (etherbenchMsVendorRequestHandler value index length dataBuffer).dataBuffer i = dataBuffer i := by
  have hname (name : Utf16) (hindex : index = 0x0005) (hlong : name.units.length ≤ 30) :
      (buildMicrosoftFriendlyName name length dataBuffer).dataBuffer i = dataBuffer i := by
    have hroom := h hindex
    exact build_keeps name length dataBuffer (by omega)
  rw [etherbenchMsVendorRequestHandler]
  by_cases hcompat : index = 0x0004
  · have hlen : (if UInt32.ofNat compatIdDescriptor.length > length then length
        else UInt32.ofNat compatIdDescriptor.length).toNat ≤ length.toNat := by
      split
      · exact Nat.le_refl _
      · next hle => exact UInt32.le_iff_toNat_le.mp (UInt32.not_lt.mp hle)
    have htake := (List.length_take_le _ compatIdDescriptor).trans hlen
    rw [if_pos hcompat]
    refine write_after dataBuffer (?_ : 0 + _ ≤ i)
    rw [Nat.zero_add]
    exact htake.trans hi
  · rw [if_neg hcompat]
    by_cases hfive : index = 0x0005
    · rw [if_pos hfive]
      split_ifs
      · exact hname strCom1Microsoft hfive (by decide)
      · exact hname strCom2Microsoft hfive (by decide)
      · exact hname strDbg1Microsoft hfive (by decide)
      · rfl
    · rw [if_neg hfive]

end EtherBench.Usb.FriendlyName
