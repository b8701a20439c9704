import Mathlib.Data.UInt

namespace DapProxy.Host

def usbipPath : String := "/sys/v_cmsisdap"
def usbipBusid : String := "1-1"

def usbVid : UInt16 := 0x1209
def usbPid : UInt16 := 0x0001
def bcdDevice : UInt16 := 0x0200

def vendor : String := "esp-daplink"
def product : String := "ESP-DAPLink CMSIS-DAP v2"
def serial : String := "ESP32-DAPLINK-0001"
def interface : String := "CMSIS-DAP v2"

def deviceDescriptor : List UInt8 :=
  [18, 0x01, 0x00, 0x02, 0x00, 0x00, 0x00, 64,
    (usbVid &&& 0xFF).toUInt8, (usbVid >>> 8).toUInt8,
    (usbPid &&& 0xFF).toUInt8, (usbPid >>> 8).toUInt8,
    (bcdDevice &&& 0xFF).toUInt8, (bcdDevice >>> 8).toUInt8,
    1, 2, 3, 1]

def configDescriptor : List UInt8 :=
  [9, 0x02, 32, 0x00, 1, 1, 0, 0x80, 250,
    9, 0x04, 0, 0, 2, 0xFF, 0x00, 0x00, 4,
    7, 0x05, 0x01, 0x02, 0x00, 0x02, 0,
    7, 0x05, 0x81, 0x02, 0x00, 0x02, 0]

def langidDescriptor : List UInt8 := [4, 0x03, 0x09, 0x04]

def encodeUtf16 (c : Char) : List UInt16 :=
  if c.toNat < 0x10000 then [UInt16.ofNat c.toNat]
  else
    let n := c.toNat - 0x10000
    [UInt16.ofNat (0xD800 + n / 0x400), UInt16.ofNat (0xDC00 + n % 0x400)]

def stringBytes (s : String) : List UInt8 :=
  UInt8.ofNat (2 + s.utf8ByteSize * 2) :: 0x03 ::
    (s.toList.flatMap encodeUtf16).flatMap
      (fun unit : UInt16 => [unit.toUInt8, (unit >>> 8).toUInt8])

def stringDescriptor (index : UInt8) : Option (List UInt8) :=
  if index = 0 then some langidDescriptor
  else if index = 1 then some (stringBytes vendor)
  else if index = 2 then some (stringBytes product)
  else if index = 3 then some (stringBytes serial)
  else if index = 4 then some (stringBytes interface)
  else none

end DapProxy.Host
