import SdkSnmpd.Encode
import SdkSnmpd.OidOrder
import SdkSnmpd.Lib.Successor

/-!
# The MIB

The value table `g_mib` and the two searches of `mib.c`.

## Contents

- `Mib`: a table of at most `MAX_NR_VALUES` values, each of which the encoder can place.
- `mibFind`, `mibFindnext`: the searches.
- `mibFindnext_snmpOrder_iff`: when the comparison decides the SNMP order, and when
  `mibFindnext` finds the SNMP successor.
-/

namespace SdkSnmpd

open Lib (Ascending IsLeastBeyond)

/-! ## The table -/

/-- An entry as `mib_build_entry` makes it: an OID of at most 16 subids whose encoded length
    is computed from the subids, and a data buffer that holds the encoded value. -/
structure MibEntry (value : Value) : Prop where
  subids : value.oid.subidList.length ≤ maxNrSubids
  exact : value.oid.encodedLength = (encodeSnmpOid value.oid).length
  data : 0 ≤ value.data.encodedLength
  buffer : value.data.encodedLength ≤ value.data.buffer.length

/-- `g_mib` and `g_mib_length`. -/
structure Mib where
  values : List Value
  room : values.length ≤ maxNrValues
  entries : ∀ value ∈ values, MibEntry value

theorem MibEntry.encodable {value : Value} (h : MibEntry value) : Encodable value :=
  ⟨h.exact.ge, h.data, h.buffer⟩

/-! ## Searches -/

/-- Find the OID in the MIB that is exactly the given one or a subid. -/
def mibFind (values : List Value) (oid : Oid) : Nat :=
  values.findIdx fun value => decide (value.oid.subidList.length ≥ oid.subidList.length) &&
    decide (value.oid.subidList.take oid.subidList.length = oid.subidList)

/-- Find the OID in the MIB that is the one after the given one. -/
def mibFindnext (values : List Value) (oid : Oid) : Nat :=
  values.findIdx fun value => decide (oidCmp value.oid oid > 0)

/-! ## Successors in the SNMP order -/

/-- Up to and including the first entry that SNMP orders after the query, every entry is
    comparable with the query. -/
def SearchComparable (values : List Value) (oid : Oid) : Prop :=
  ∀ i (h : i < values.length), (∀ j (_ : j < i), ¬ oid.name < values[j].oid.name) →
    GreaterComparable values[i].oid.name oid.name

/-- **The SNMP order.** For OIDs of at most 16 subids, `oidCmp` decides the SNMP order of
    two OIDs exactly when they are comparable; and in a MIB that ascends in the SNMP order,
    `mibFindnext` returns the index of the least entry after the query, or the length of the
    MIB if there is none, exactly when the entries up to that one are comparable with the
    query. -/
theorem mibFindnext_snmpOrder_iff (oid1 oid2 : Oid) (values : List Value) (oid : Oid)
    (h1 : oid1.subidList.length ≤ maxNrSubids) (h2 : oid2.subidList.length ≤ maxNrSubids)
    (hvalues : ∀ value ∈ values, value.oid.subidList.length ≤ maxNrSubids)
    (hoid : oid.subidList.length ≤ maxNrSubids)
    (hasc : Ascending (fun value => value.oid.name) values) :
    (OrdersRight oid1 oid2 ↔ Comparable oid1.name oid2.name) ∧
      (IsLeastBeyond (fun value => value.oid.name) oid.name values (mibFindnext values oid) ↔
        SearchComparable values oid) := by
  refine ⟨ordersRight_iff h1 h2, ?_⟩
  rw [Lib.isLeastBeyond_iff hasc, mibFindnext, Lib.findIdx_eq_findIdx_iff]
  -- entry by entry, as far as the search for the SNMP successor goes
  unfold SearchComparable
  refine forall_congr' fun i => forall_congr' fun hi => ?_
  rw [Lib.le_findIdx_iff _ hi]
  refine imp_congr ?_ ?_
  · exact forall_congr' fun j => forall_congr' fun hj => decide_eq_false_iff_not
  · rw [Lib.isBeyond, decide_eq_decide]
    exact oidCmp_greater_iff (hvalues _ (List.getElem_mem hi)) hoid

/-- The entries `.1.3.1` and `.1.3.2147483648`, in SNMP order. -/
def highSubidMib : List Value :=
  [⟨⟨[1, 3, 1], 4⟩, ⟨[0x05, 0x00], 2, 2⟩⟩, ⟨⟨[1, 3, 0x80000000], 8⟩, ⟨[0x05, 0x00], 2, 2⟩⟩]

theorem ascending_highSubidMib : Ascending (fun value => value.oid.name) highSubidMib := by
  refine List.pairwise_cons.mpr ⟨?_, List.pairwise_singleton _ _⟩
  decide

theorem mibFindnext_not_snmpOrder :
    ¬ OrdersRight ⟨[1, 3, 0x80000000], 8⟩ ⟨[1, 3, 1], 4⟩ ∧
      ¬ IsLeastBeyond (fun value : Value => value.oid.name) [1, 3, 1] highSubidMib
        (mibFindnext highSubidMib ⟨[1, 3, 1], 4⟩) := by
  refine ⟨?_, ?_⟩
  · intro h
    exact absurd (h.2.1.mpr (by decide)) (by decide)
  · intro h
    have hpos := (Lib.isLeastBeyond_iff ascending_highSubidMib _).mp h
    exact absurd hpos (by decide)

theorem mibFindnext_snmpOrder_iff_highSubidMib :
    (OrdersRight ⟨[1, 3, 1], 4⟩ ⟨[1, 3, 6, 1], 5⟩ ↔ Comparable [1, 3, 1] [1, 3, 6, 1]) ∧
      (IsLeastBeyond (fun value : Value => value.oid.name) [1, 3] highSubidMib
          (mibFindnext highSubidMib ⟨[1, 3], 3⟩) ↔
        SearchComparable highSubidMib ⟨[1, 3], 3⟩) :=
  mibFindnext_snmpOrder_iff ⟨[1, 3, 1], 4⟩ ⟨[1, 3, 6, 1], 5⟩ highSubidMib ⟨[1, 3], 3⟩ (by decide)
    (by decide) (by decide) (by decide) ascending_highSubidMib

end SdkSnmpd
