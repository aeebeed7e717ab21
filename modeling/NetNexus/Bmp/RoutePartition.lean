import Mathlib.Algebra.Order.Ring.Int

/-!
# The partitions of the current routes

`bmpRoutePartitionManifest`: the store keeps the current routes in one table for each kind of scope
and each address family, with one more table for all families that have none of their own.
-/

namespace Bmp

/-- The kind of RIB of a scope. -/
inductive ScopeKind where
  | peer
  | locRib
  deriving DecidableEq

/-- `BMP_ROUTE_FAMILIES` but its last entry: family id, AFI and SAFI. -/
def routeFamilies : List (ℕ × ℕ × ℕ) :=
  [(1, 1, 1), (2, 2, 1), (3, 1, 2), (4, 2, 2), (5, 1, 4), (6, 2, 4), (7, 1, 5), (8, 2, 5),
    (9, 25, 70), (10, 1, 128), (11, 2, 128), (12, 1, 133), (13, 2, 133), (14, 1, 241),
    (15, 2, 241), (16, 16388, 71), (17, 16388, 72)]

/-- The last entry, for every other AFI and SAFI. -/
def fallbackFamilyId : ℕ := 18

/-- An entry of `BMP_ROUTE_PARTITIONS`. -/
structure RoutePartition where
  scopeKind : ScopeKind
  familyId : ℕ
  deriving DecidableEq

def RoutePartition.partitionId (p : RoutePartition) : ℕ :=
  match p.scopeKind with
  | .peer => 100 + p.familyId
  | .locRib => 200 + p.familyId

/-- Why a family is not accepted. -/
inductive FamilyError where
  | afi (afi : ℕ)
  | safi (safi : ℕ)
  | mismatch (routeAfi routeSafi scopeAfi scopeSafi : ℕ)
  deriving DecidableEq

def normalizeBmpAfiSafi (afi safi : ℕ) : Except FamilyError (ℕ × ℕ) :=
  if 0xffff < afi then .error (.afi afi)
  else if 0xff < safi then .error (.safi safi)
  else .ok (afi, safi)

def routeFamilyId (afi safi : ℕ) : ℕ :=
  match routeFamilies.find? fun family => family.2 = (afi, safi) with
  | some family => family.1
  | none => fallbackFamilyId

def resolveBmpRoutePartition (scopeKind : ScopeKind) (afi safi : ℕ) :
    Except FamilyError RoutePartition := do
  let normalized ← normalizeBmpAfiSafi afi safi
  return ⟨scopeKind, routeFamilyId normalized.1 normalized.2⟩

def assertBmpRouteMatchesScope (routeAfi routeSafi : ℕ) (scopeKind : ScopeKind)
    (scopeAfi scopeSafi : ℕ) : Except FamilyError RoutePartition := do
  let scopePartition ← resolveBmpRoutePartition scopeKind scopeAfi scopeSafi
  let routeFamily ← normalizeBmpAfiSafi routeAfi routeSafi
  if routeFamily ≠ (scopeAfi, scopeSafi) then
    .error (.mismatch routeAfi routeSafi scopeAfi scopeSafi)
  else
    return scopePartition

end Bmp
