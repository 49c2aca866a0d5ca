import SdkSnmpd.Lib.Memory
import Mathlib.Algebra.Group.Int.Defs
import Mathlib.Algebra.Group.Nat.Defs
import Mathlib.Data.List.TakeWhile

/-!
# Constants and Data Types of the Agent

The `#define`s and `typedef`s of `mini_snmpd.h` that the protocol engine and the event loop
use. Arrays with a length field are lists; a `short` is an integer that every assignment
reduces with `toShort`; `int` and `unsigned int` are `Int32` and `UInt32`.
-/

namespace SdkSnmpd

open Lib (Mem)

/-! ## Limits -/

def maxNrClients : Nat := 16
def maxNrOids : Nat := 16
def maxNrSubids : Nat := 16
def maxNrValues : Nat := 128
def maxPacketSize : Nat := 2048
def maxStringSize : Nat := 64

/-- A response has room for one value for each OID of a request. -/
theorem maxNrOids_le_maxNrValues : maxNrOids ≤ maxNrValues := by decide

/-! ## BER tags -/

def berTypeBoolean : UInt8 := 0x01
def berTypeInteger : UInt8 := 0x02
def berTypeBitString : UInt8 := 0x03
def berTypeOctetString : UInt8 := 0x04
def berTypeNull : UInt8 := 0x05
def berTypeOid : UInt8 := 0x06
def berTypeSequence : UInt8 := 0x30
def berTypeCounter : UInt8 := 0x41
def berTypeGauge : UInt8 := 0x42
def berTypeTimeTicks : UInt8 := 0x43
def berTypeNoSuchObject : UInt8 := 0x80
def berTypeNoSuchInstance : UInt8 := 0x81
def berTypeEndOfMibView : UInt8 := 0x82
def berTypeSnmpGet : UInt8 := 0xA0
def berTypeSnmpGetnext : UInt8 := 0xA1
def berTypeSnmpResponse : UInt8 := 0xA2
def berTypeSnmpSet : UInt8 := 0xA3
def berTypeSnmpGetbulk : UInt8 := 0xA5
def berTypeSnmpInform : UInt8 := 0xA6
def berTypeSnmpTrap : UInt8 := 0xA7

/-! ## SNMP versions and error states -/

def snmpVersion1 : Int32 := 0
def snmpVersion2c : Int32 := 1

def snmpStatusOk : Int32 := 0
def snmpStatusTooBig : Int32 := 1
def snmpStatusNoSuchName : Int32 := 2
def snmpStatusGenErr : Int32 := 5
def snmpStatusNoAccess : Int32 := 6

/-! ## Machine arithmetic -/

/-- Number of values of a `size_t`. -/
def sizeTModulus : Nat := 2 ^ 32

/-- `LONG_MAX` -/
def longMax : Int := 2 ^ 31 - 1

/-- The value of an expression after its assignment to a `short`. -/
def toShort (x : Int) : Int := x.bmod (2 ^ 16)

/-- A value in the range of a `short` is assigned unchanged. -/
theorem toShort_eq {x : Int} (hlo : -32768 ≤ x) (hhi : x < 32768) : toShort x = x := by
  unfold toShort
  rw [Int.bmod_eq_of_le] <;> omega

/-! ## Failures -/

inductive Errno where
  | einval
  | efault
  deriving DecidableEq

/-- A return value of -1: the `errno` that was set on the way, if any, and the line logged. -/
structure Failure where
  errno : Option Errno
  message : String

/-! ## C strings -/

/-- The characters of a C string before its terminating NUL. -/
structure CString where
  bytes : List UInt8
  noNul : (0 : UInt8) ∉ bytes

namespace CString

/-- The C string at the start of a list of characters. -/
def ofList (cs : List UInt8) : CString where
  bytes := cs.takeWhile (· ≠ 0)
  noNul := fun h => by simpa using List.mem_takeWhile_imp h

def strlen (s : CString) : Nat := s.bytes.length

@[ext] theorem ext {s t : CString} (h : s.bytes = t.bytes) : s = t := by
  cases s
  cases t
  congr

instance : DecidableEq CString := fun s t =>
  decidable_of_iff (s.bytes = t.bytes) (by cases s; cases t; simp)

end CString

/-! ## Object identifiers, values, messages -/

/-- `oid_t`: the subids in use and the length of the OID once encoded, header included. -/
structure Oid where
  subidList : List UInt32
  encodedLength : Int
  deriving DecidableEq

/-- `data_t`: a buffer, its allotted length, and the length of the element encoded in it. -/
structure Data where
  buffer : List UInt8
  maxLength : Int
  encodedLength : Int
  deriving DecidableEq

/-- `value_t` -/
structure Value where
  oid : Oid
  data : Data
  deriving DecidableEq

/-- `request_t` -/
structure Request where
  community : CString
  type : UInt8
  version : Int32
  id : Int32
  nonRepeaters : Int32
  maxRepetitions : Int32
  oidList : List Oid
  deriving DecidableEq

/-- `response_t` -/
structure Response where
  errorStatus : Int32
  errorIndex : Int32
  valueList : List Value
  deriving DecidableEq

/-- `client_t`. The packet buffer is the memory from its first byte on. -/
structure Client where
  timestamp : Int
  sockfd : Int
  addr : Nat
  port : Nat
  packet : Mem
  size : Nat
  outgoing : Bool

/-- The global variables that decide about a request: `g_community` and `g_auth`. -/
structure Config where
  community : CString
  auth : Bool

end SdkSnmpd
