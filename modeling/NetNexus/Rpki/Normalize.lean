import NetNexus.Ip.IpUtils
import NetNexus.Rpki.Store

/-!
# Normalised ROAs

`normalizeRoaObject` from the point where the fields of the payload have been picked and read as
numbers. It brings every prefix to one text form, in which the store keeps it.
-/

namespace Rpki

open Ip

/-- The fields of a payload: the numbers are absent where `normalizeAsn` or `normalizeInteger`
gives `null`, and `maxLength` is `none` where the payload has no such field. -/
structure RoaFields where
  asn : Option UInt32
  ip : String
  mask : Option ℤ
  maxLength : Option (Option ℤ)

/-- `text.slice(0, text.lastIndexOf('/'))`. -/
def beforeLastSlash (text : String) : String :=
  if '/' ∈ text.toList then
    String.ofList (text.toList.reverse.dropWhile (· ≠ '/')).tail.reverse
  else String.ofList text.toList.dropLast

def ipTypeOf : Address → IpType
  | .ipv4 _ => .ipv4
  | .ipv6 _ => .ipv6

def IpType.maxMask : IpType → ℕ
  | .ipv4 => 32
  | .ipv6 => 128

def normalizeRoaObject (ipaddr : Ipaddr) (fields : RoaFields) : Option Roa := do
  let asn ← fields.asn
  let mask ← if fields.ip = "" then none else fields.mask
  let parsedIp ← ipaddr.parse fields.ip
  let maxMask : ℤ := (ipTypeOf parsedIp).maxMask
  let maxLength ← fields.maxLength.getD (some mask)
  if mask < 0 ∨ mask > maxMask ∨ maxLength < mask ∨ maxLength > maxMask then none
  else do
    let network ← ipaddr.getNetworkAddress fields.ip mask.toNat
    return {
      ipType := ipTypeOf parsedIp
      asn
      ip := beforeLastSlash network
      mask := mask.toNat
      maxLength := maxLength.toNat }

/-- The form in which the store keeps a ROA: the prefix is the stored text form of an address of
its family, and the lengths are those of the family. -/
def Roa.Canonical (ipaddr : Ipaddr) (roa : Roa) : Prop :=
  (∃ address, ipTypeOf address = roa.ipType ∧ roa.ip = ipaddr.text address) ∧
    roa.mask ≤ roa.maxLength ∧ roa.maxLength ≤ roa.ipType.maxMask

end Rpki
